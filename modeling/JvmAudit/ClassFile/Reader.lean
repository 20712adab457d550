import JvmAudit.ClassFile.Error

/-!
# Reading binary structures

A reader takes values off the front of a byte sequence and fails at its end. Numbers are big-endian.
The writers beside the readers give the bytes that are read back.
-/

namespace JvmAudit

/-- A computation that takes bytes off the front of the input. -/
abbrev Reader := StateT Bytes (Except ClassError)

/-- The value of two big-endian bytes. -/
def be2 (a b : UInt8) : Nat := a.toNat * 0x100 + b.toNat

/-- The value of four big-endian bytes. -/
def be4 (a b c d : UInt8) : Nat := be2 a b * 0x10000 + be2 c d

/-- A number in two big-endian bytes. -/
def put2 (n : Nat) : Bytes := [.ofNat (n / 0x100), .ofNat n]

/-- A count in two bytes; a count that does not fit is written as the largest one. -/
def putCount (n : Nat) : Bytes := put2 (min n 0xFFFF)

/-- A number in four big-endian bytes. -/
def put4 (n : Nat) : Bytes := put2 (n / 0x10000) ++ put2 n

/-- A length in four bytes; a length that does not fit is written as the largest one. -/
def putLength (n : Nat) : Bytes := put4 (min n 0xFFFFFFFF)

/-- A number in eight big-endian bytes. -/
def put8 (n : Nat) : Bytes := put4 (n / 0x100000000) ++ put4 n

/-- Moves `n` elements from the front to `taken`, which is in reverse order. -/
def splitFrontLoop : Nat → Bytes → Bytes → Option (Bytes × Bytes)
  | 0, taken, bs => some (taken.reverse, bs)
  | _ + 1, _, [] => none
  | n + 1, taken, b :: bs => splitFrontLoop n (b :: taken) bs

/-- The first `n` bytes and what follows them, if there are so many. -/
def splitFront (n : Nat) (bs : Bytes) : Option (Bytes × Bytes) := splitFrontLoop n [] bs

theorem splitFrontLoop_eq (n : Nat) (taken bs : Bytes) :
    splitFrontLoop n taken bs =
      if n ≤ bs.length then some (taken.reverse ++ bs.take n, bs.drop n) else none := by
  induction n generalizing taken bs with
  | zero => simp [splitFrontLoop]
  | succ n ih =>
    cases bs with
    | nil => simp [splitFrontLoop]
    | cons b bs => simp [splitFrontLoop, ih]

/-- Splitting takes exactly `n` bytes and loses none. -/
theorem splitFront_eq (n : Nat) (bs : Bytes) :
    splitFront n bs = if n ≤ bs.length then some (bs.take n, bs.drop n) else none := by
  simp [splitFront, splitFrontLoop_eq]

namespace Reader

/-- One byte. -/
def byte : Reader UInt8
  | [] => .error .unexpectedEof
  | b :: bs => .ok (b, bs)

/-- An unsigned number of one byte. -/
def u1 : Reader Nat
  | [] => .error .unexpectedEof
  | b :: bs => .ok (b.toNat, bs)

/-- An unsigned number of two bytes. -/
def u2 : Reader Nat
  | a :: b :: bs => .ok (be2 a b, bs)
  | _ => .error .unexpectedEof

/-- An unsigned number of four bytes. -/
def u4 : Reader Nat
  | a :: b :: c :: d :: bs => .ok (be4 a b c d, bs)
  | _ => .error .unexpectedEof

/-- The next `n` bytes. -/
def bytes (n : Nat) : Reader Bytes := fun bs =>
  match splitFront n bs with
  | some parts => .ok parts
  | none => .error .unexpectedEof

/-- Leaves out the next `n` bytes. -/
def skip (n : Nat) : Reader Unit := do
  let _ ← bytes n

/-- Reads `n` items after those in `taken`, which is in reverse order. -/
def timesLoop {α : Type} (item : Reader α) : Nat → List α → Reader (List α)
  | 0, taken => pure taken.reverse
  | n + 1, taken => do
    let a ← item
    timesLoop item n (a :: taken)

/-- The same item `n` times. -/
def times {α : Type} (n : Nat) (item : Reader α) : Reader (List α) := timesLoop item n []

/-- A table: a count in two bytes, then so many items. -/
def table {α : Type} (item : Reader α) : Reader (List α) := do times (← u2) item

/-- Reads a value from bytes of its own; what follows it there is ignored. -/
def readFrom {α : Type} (data : Bytes) (item : Reader α) : Except ClassError α :=
  (item data).map Prod.fst

theorem timesLoop_eq {α : Type} (item : Reader α) (n : Nat) (taken : List α) :
    timesLoop item n taken = (do return taken.reverse ++ (← timesLoop item n [])) := by
  induction n generalizing taken with
  | zero => simp [timesLoop]
  | succ n ih =>
    simp only [timesLoop, bind_assoc]
    congr 1
    funext a
    rw [ih, ih [a]]
    simp

@[simp]
theorem times_zero {α : Type} (item : Reader α) : times 0 item = pure [] := rfl

theorem times_succ {α : Type} (item : Reader α) (n : Nat) :
    times (n + 1) item = (do return (← item) :: (← times n item)) := by
  simp only [times, timesLoop]
  congr 1
  funext a
  rw [timesLoop_eq]
  rfl

end Reader

end JvmAudit
