import JvmAudit.Assembler.Class
import JvmAudit.Proofs.ClassFile.Reader

/-!
# How much of the input is read

A class file says itself where it ends: what is read depends on a front of the input alone, and no
part of that front is read as a class. A reader takes a front if it reads its value from exactly
these bytes and fails at the end of the input if one of them is missing (`Reader.Takes`); it is
exact if each of its values is taken from a front (`Reader.Exact`).

Readers in sequence are exact if each of them is, so the proof follows the layout of a class file.
Attributes are read from bytes of their own, and bodies are decoded after the last byte was read, so
neither asks for more of the input.
-/

namespace JvmAudit

namespace Reader

variable {α β : Type} {r : Reader α} {front front' : Bytes} {a : α} {b : β}

/-- The value is read from exactly these bytes, and all of them are needed. -/
structure Takes (r : Reader α) (front : Bytes) (a : α) : Prop where
  reads : Reads r front a
  cut : ∀ part missing, front = part ++ missing → missing ≠ [] → r part = .error .unexpectedEof

/-- Every value is taken from the front of the input. -/
def Exact (r : Reader α) : Prop :=
  ∀ data a rest, r data = .ok (a, rest) → ∃ front, data = front ++ rest ∧ Takes r front a

/-! ## Sequences -/

theorem run_bind (r : Reader α) (f : α → Reader β) (data : Bytes) :
    (r >>= f) data = r data >>= fun p => f p.1 p.2 := rfl

/-- A reader that needs no input takes the empty front. -/
theorem takes_nil (h : Reads r [] a) : Takes r [] a := by
  refine ⟨h, fun part missing heq hne => ?_⟩
  exact absurd (List.append_eq_nil_iff.1 heq.symm).2 hne

/-- Readers in sequence take their fronts one behind the other. If the input ends too early, it does
so in one of the two. -/
theorem Takes.bind {f : α → Reader β} (hr : Takes r front a) (hf : Takes (f a) front' b) :
    Takes (r >>= f) (front ++ front') b := by
  refine ⟨hr.reads.bind hf.reads, fun part missing heq hne => ?_⟩
  rw [run_bind]
  -- the input ends in the bytes of the first reader, or in those of the second one
  rcases List.append_eq_append_iff.1 heq with ⟨more, rfl, hmore⟩ | ⟨more, hfront, hmissing⟩
  · rw [hr.reads more]
    exact hf.cut more missing hmore hne
  · by_cases hmore : more = []
    · subst hmore
      rw [List.append_nil] at hfront
      rw [← hfront, ← List.append_nil front, hr.reads []]
      exact hf.cut [] missing (by simpa using hmissing.symm) hne
    · rw [hr.cut part more hfront hmore]
      rfl

/-- Readers in sequence are exact if each of them is. -/
theorem Exact.bind {f : α → Reader β} (hr : Exact r) (hf : ∀ a, Exact (f a)) : Exact (r >>= f) := by
  intro data b rest h
  rw [run_bind] at h
  obtain ⟨⟨a, middle⟩, ha, hb⟩ := Result.bind_eq_ok.1 h
  obtain ⟨front, rfl, htakes⟩ := hr data a middle ha
  obtain ⟨front', rfl, htakes'⟩ := hf a middle b rest hb
  exact ⟨front ++ front', by rw [List.append_assoc], htakes.bind htakes'⟩

theorem exact_pure (a : α) : Exact (pure a : Reader α) := by
  intro data a' rest h
  cases h
  exact ⟨[], rfl, takes_nil (reads_pure a)⟩

/-- To compute with what was read asks for no more input. -/
theorem Exact.map {f : α → β} (hr : Exact r) : Exact (do return f (← r)) :=
  hr.bind fun a => exact_pure (f a)

/-- A reader that always fails is exact, since it has no values. -/
theorem exact_throw (e : ClassError) : Exact (throw e : Reader α) := by
  intro data a rest h
  cases h

/-- What does not look at the input takes nothing of it. -/
theorem exact_lift (x : Except ClassError α) : Exact (liftM x : Reader α) := by
  cases x with
  | ok a => exact exact_pure a
  | error e => exact exact_throw e

theorem Exact.ite {p : Prop} [Decidable p] {r' : Reader α} (hr : Exact r) (hr' : Exact r') :
    Exact (if p then r else r') := by
  split
  · exact hr
  · exact hr'

/-! ## Numbers and tables -/

/-- A byte is taken from a front of one byte. -/
theorem exact_byte : Exact byte := by
  intro data b rest h
  cases data with
  | nil => cases h
  | cons b data =>
    cases h
    refine ⟨[b], rfl, fun _ => rfl, fun part missing heq hne => ?_⟩
    cases part with
    | nil => rfl
    | cons x part => simp [hne] at heq

theorem u1_eq : u1 = do return (← byte).toNat := by
  funext data
  cases data <;> rfl

/-- A number of two bytes is read byte by byte. -/
theorem u2_eq : u2 = do return be2 (← byte) (← byte) := by
  funext data
  rcases data with _ | ⟨a, _ | ⟨b, data⟩⟩ <;> rfl

theorem u4_eq : u4 = do return be4 (← byte) (← byte) (← byte) (← byte) := by
  funext data
  rcases data with _ | ⟨a, _ | ⟨b, _ | ⟨c, _ | ⟨d, data⟩⟩⟩⟩ <;> rfl

theorem exact_u1 : Exact u1 := u1_eq ▸ exact_byte.map

theorem exact_u2 : Exact u2 := u2_eq ▸ exact_byte.bind fun _ => exact_byte.map

theorem exact_u4 : Exact u4 :=
  u4_eq ▸ exact_byte.bind fun _ => exact_byte.bind fun _ => exact_byte.bind fun _ => exact_byte.map

/-- A block of bytes is taken as a whole: a shorter input is at its end. -/
theorem exact_bytes (n : Nat) : Exact (bytes n) := by
  have hbytes : ∀ data : Bytes, bytes n data =
      if n ≤ data.length then .ok (data.take n, data.drop n) else .error .unexpectedEof := by
    intro data
    unfold bytes
    rw [splitFront_eq]
    split <;> simp_all
  intro data front rest h
  rw [hbytes] at h
  by_cases hn : n ≤ data.length
  · rw [if_pos hn] at h
    cases h
    have hlen : (data.take n).length = n := List.length_take_of_le hn
    refine ⟨data.take n, (List.take_append_drop n data).symm, fun rest => ?_,
      fun part missing heq hne => ?_⟩
    · rw [hbytes, if_pos (by simp [hlen]), List.take_left' hlen, List.drop_left' hlen]
    · have hparts := congrArg List.length heq
      have hpos := List.length_pos_iff.2 hne
      rw [hlen, List.length_append] at hparts
      rw [hbytes, if_neg (by omega)]
  · rw [if_neg hn] at h
    cases h

theorem exact_skip (n : Nat) : Exact (skip n) := (exact_bytes n).map

/-- A fixed number of items is read exactly, by induction on the number. -/
theorem exact_times {item : Reader α} (h : Exact item) (n : Nat) : Exact (times n item) := by
  induction n with
  | zero => exact exact_pure []
  | succ n ih =>
    rw [times_succ]
    exact h.bind fun _ => ih.map

/-- A table says how many items it has, and so where it ends. -/
theorem exact_table {item : Reader α} (h : Exact item) : Exact (table item) :=
  exact_u2.bind (exact_times h)

end Reader

open Reader

/-! ## Constants -/

namespace Constant

/-- A text says how long it is. Whether its bytes can be decoded does not depend on what follows. -/
theorem exact_readText (slot : Nat) : Exact (readText slot) := by
  refine exact_u2.bind fun n => (exact_bytes n).bind fun data => ?_
  cases ModifiedUtf8.decode? data with
  | some text => exact exact_pure text
  | none => exact exact_throw _

theorem exact_pair {α : Type} {make : Nat → Nat → α} : Exact (do return make (← u2) (← u2)) :=
  exact_u2.bind fun _ => exact_u2.map

theorem exact_skipped {α : Type} (n : Nat) (a : α) : Exact (do skip n; return a) :=
  (exact_skip n).map

/-- An entry of the pool says by its tag where it ends. -/
theorem exact_read (slot : Nat) : Exact (read slot) := by
  refine exact_u1.bind fun tag => ?_
  split
  · exact (exact_readText slot).map
  · exact exact_skipped _ _
  · exact exact_skipped _ _
  · exact exact_skipped _ _
  · exact exact_skipped _ _
  · exact exact_u2.map
  · exact exact_u2.map
  · exact exact_pair
  · exact exact_pair
  · exact exact_pair
  · exact exact_pair
  · exact exact_u1.bind fun _ => exact_u2.map
  · exact exact_u2.map
  · exact exact_skipped _ _
  · exact exact_pair
  · exact exact_u2.map
  · exact exact_u2.map
  · exact exact_throw _

end Constant

namespace Pool

/-- The entries of the pool are read exactly. The induction follows the number of slots that are
left. -/
theorem exact_readSlots (count : Nat) (f : Filling) : Exact (readSlots count f) := by
  rw [readSlots]
  split
  · exact (Constant.exact_read _).bind fun e => exact_readSlots count (f.add e)
  · exact exact_pure f.entries
termination_by count - f.index
decreasing_by
  have := f.index_lt_index_add e
  omega

theorem exact_read : Exact read := exact_u2.bind fun count => (exact_readSlots count _).map

end Pool

/-! ## Class files -/

namespace ClassFile

variable {α : Type} (pool : Pool) (depth : Depth)

theorem exact_readClassName : Exact (readClassName pool) :=
  exact_u2.bind fun _ => (exact_lift _).map

/-- An attribute says how long it is, whether it is understood or not. -/
theorem exact_readAttribute : Exact (readAttribute pool) :=
  exact_u2.bind fun _ => (exact_lift _).bind fun _ => exact_u4.bind fun n => (exact_bytes n).map

/-- Attributes are interpreted on bytes of their own. -/
theorem exact_readAttributes (interpret : String → Bytes → Except ClassError α) :
    Exact (readAttributes pool interpret) :=
  exact_table ((exact_readAttribute pool).bind fun _ => exact_lift _)

theorem exact_readVersion : Exact readVersion :=
  exact_u2.bind fun _ => exact_u2.bind fun _ => (exact_pure _).ite (exact_throw _)

theorem exact_readField : Exact (readField pool) := by
  refine exact_u2.bind fun access => exact_u2.bind fun name => (exact_lift _).bind fun name => ?_
  refine exact_u2.bind fun descriptor => (exact_lift _).bind fun descriptor => ?_
  split
  · exact exact_throw _
  · exact (exact_readAttributes pool _).map

/-- A method is read exactly, with all its attributes. -/
theorem exact_readMethod : Exact (readMethod depth pool) := by
  refine exact_u2.bind fun access => exact_u2.bind fun name => (exact_lift _).bind fun name => ?_
  refine exact_u2.bind fun descriptor => (exact_lift _).bind fun descriptor => ?_
  split
  · exact exact_throw _
  · exact (exact_readAttributes pool _).map

/-- A class file is read exactly: the layout is a sequence of readers that are. -/
theorem exact_read : Exact (read depth) := by
  refine exact_u4.bind fun first => ?_
  split
  · exact exact_throw _
  refine exact_readVersion.bind fun major => Pool.exact_read.bind fun pool => ?_
  refine exact_u2.bind fun access => exact_u2.bind fun this => exact_u2.bind fun super => ?_
  refine (exact_lift _).bind fun name => (exact_lift _).bind fun superClass => ?_
  refine (exact_table (exact_readClassName pool)).bind fun interfaces => ?_
  refine (exact_table (exact_readField pool)).bind fun fields => ?_
  refine (exact_table (exact_readMethod pool depth)).bind fun methods => ?_
  exact (exact_readAttributes pool _).bind fun attributes => (exact_lift _).map

/-- **A class file says where it ends.** What is read, with or without bodies, depends on a front of
the input alone: any input with this front is read as the same class, whatever follows. And all of
the front is needed: every shorter part of the input ends too early. -/
theorem parse_exact {depth : Depth} {data : Bytes} {c : ClassFile} (h : parse depth data = .ok c) :
    ∃ n ≤ data.length, (∀ data', data.take n <+: data' → parse depth data' = .ok c) ∧
      ∀ part, part <+: data → part.length < n → parse depth part = .error .unexpectedEof := by
  obtain ⟨⟨c, rest⟩, hread, rfl⟩ := Result.map_eq_ok.1 h
  obtain ⟨front, rfl, htakes⟩ := exact_read depth data c rest hread
  refine ⟨front.length, by simp, ?_, ?_⟩
  · rw [List.take_left]
    rintro data' ⟨more, rfl⟩
    unfold parse readFrom
    rw [htakes.reads more]
    rfl
  · intro part hpart hlen
    obtain ⟨missing, rfl⟩ :=
      List.prefix_of_prefix_length_le hpart (List.prefix_append front rest) (by omega)
    have hne : missing ≠ [] := by
      rintro rfl
      simp at hlen
    unfold parse readFrom
    rw [htakes.cut part missing rfl hne]
    rfl

/-- A class with a field and a body. -/
def timer : Bytes := (Assembler.ClassSpec.build { Assembler.ClassSpec.ofName "app.Timer" with
  members := [
    .field "count" "J" [],
    .method (.ofBody "tick" "()V" [.line 3, .onType .new "app.Clock", .plain .voidReturn])] }).data

/-- Two bytes behind a class are not read, and each byte before them is. -/
theorem parse_exact_timer :
    ∃ c, parse .full (timer ++ [0, 0]) = .ok c ∧
      (∀ data', timer <+: data' → parse .full data' = .ok c) ∧
      ∀ part, part <+: timer → part.length < timer.length →
        parse .full part = .error .unexpectedEof := by
  have hsome : (parse .full (timer ++ [0, 0])).isOk = true := by decide +kernel
  have hwhole : parse .full timer ≠ .error .unexpectedEof := by decide +kernel
  have hshort : parse .full timer.dropLast = .error .unexpectedEof := by decide +kernel
  generalize timer = data at *
  cases hc : parse .full (data ++ [0, 0]) with
  | error e => simp [hc, Except.isOk, Except.toBool] at hsome
  | ok c =>
    obtain ⟨n, _, hsame, hcut⟩ := parse_exact hc
    have hle : n ≤ data.length := by
      by_contra hlt
      exact hwhole (hcut data (List.prefix_append _ _) (by omega))
    have hge : data.length ≤ n := by
      by_contra hlt
      have hfront : (data ++ [0, 0]).take n <+: data.dropLast := by
        rw [List.take_append_of_le_length hle, List.dropLast_eq_take]
        exact List.take_prefix_take_left (by omega)
      simp [hsame _ hfront] at hshort
    obtain rfl : data.length = n := Nat.le_antisymm hge hle
    rw [List.take_left] at hsame
    exact ⟨c, rfl, hsame, fun part hpart => hcut part (hpart.trans (List.prefix_append _ _))⟩

end ClassFile

end JvmAudit
