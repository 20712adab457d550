import JvmAudit.Text.Cut

/-!
# Paths

Paths are texts with `/` between their components. The functions here work on the text alone; a
component `.` inside a path and repeated separators mean nothing, which shows where a path is taken
apart.

## Termination

`trimTail` drops a character in every step.
-/

namespace JvmAudit.Path

/-- Whether a path starts at the root. -/
def isAbsolute (path : String) : Bool := path.toList.head? = some '/'

/-- The greatest number of bytes that a path may have. -/
def maxBytes : Nat := 4095

/-- Whether a path has more bytes than it may have. -/
def isTooLong (path : String) : Bool := maxBytes < path.utf8ByteSize

/-- A path below another one. An absolute path stays as it is, and the empty one adds a
separator. -/
def join (base path : String) : String :=
  if isAbsolute path || base.isEmpty then path
  else if base.toList.getLast? = some '/' then base ++ path
  else base ++ "/" ++ path

/-- Drops separators and components `.` from the end of a reversed path; the root stays. -/
def trimTail : List Char → List Char
  | '/' :: c :: rest => trimTail (c :: rest)
  | '.' :: '/' :: rest => trimTail ('/' :: rest)
  | cs => cs
termination_by cs => cs.length

theorem length_trimTail_le (cs : List Char) : (trimTail cs).length ≤ cs.length := by
  fun_induction trimTail cs with
  | case1 c rest ih =>
    simp only [List.length_cons] at *
    omega
  | case2 rest ih =>
    simp only [List.length_cons] at *
    omega
  | case3 => exact Nat.le_refl _

/-- The last component of a reversed path, reversed, and what stands in front of it. -/
def cutTail (cs : List Char) : List Char × List Char :=
  let cs := trimTail cs
  (cs.takeWhile (· != '/'), cs.dropWhile (· != '/'))

/-- The path without its last component; the root and the empty path have no parent. -/
def parent? (path : String) : Option String :=
  match cutTail path.toList.reverse with
  | ([], _) => none
  | (_, rest) => some (.ofList (trimTail rest).reverse)

/-- A parent is shorter. -/
theorem length_lt_of_parent? {path parent : String} (h : parent? path = some parent) :
    parent.length < path.length := by
  unfold parent? at h
  split at h
  · cases h
  · next tail rest hne hcut =>
    simp only [cutTail, Prod.mk.injEq] at hcut
    obtain ⟨ht, hr⟩ := hcut
    cases h
    have h1 := length_trimTail_le rest
    have h2 := length_trimTail_le path.toList.reverse
    have h3 :=
      congrArg List.length (List.takeWhile_append_dropWhile (p := (· != '/'))
        (l := trimTail path.toList.reverse))
    have h4 : 0 < tail.length := List.length_pos_iff.2 hne
    simp only [List.length_append, ht, hr, List.length_reverse, String.length_toList] at h2 h3
    simp only [String.length_ofList, List.length_reverse]
    omega

/-- The last component, if it is a name. -/
def fileName? (path : String) : Option String :=
  match (cutTail path.toList.reverse).1 with
  | [] => none
  | ['.'] => none
  | ['.', '.'] => none
  | cs => some (.ofList cs.reverse)

/-- What follows the last dot of the last component; a dot in front does not count. -/
def extension? (path : String) : Option String := do
  let name ← fileName? path
  match Text.cutLast '.' name.toList with
  | some ([], _) => none
  | some (_, ext) => some (.ofList ext)
  | none => none

/-- Whether the extension of a path is `ext` up to the case of ASCII letters; `ext` is in lower
case. -/
def hasExtension (path ext : String) : Bool :=
  match extension? path with
  | some e => e.toList.map Char.toLower == ext.toList
  | none => false

/-- Whether a path consists of components `.` only, and has at least one. -/
def isCurrent (path : String) : Bool :=
  let parts := (Text.splitOn '/' path.toList).map String.ofList
  parts.head? == some "." && parts.all fun p => p == "" || p == "."

/-- The paths in a list of paths with `:` between them. -/
def splitList (list : String) : List String :=
  ((Text.splitOn ':' list.toList).filter (!·.isEmpty)).map String.ofList

end JvmAudit.Path
