import JvmAudit.Pattern
import JvmAudit.Text.Blank

/-!
# Suppression

An element is exempt from checking if one of its own annotations matches a pattern. Nothing is
inherited.
-/

namespace JvmAudit

/-- The annotations that exempt an element, in the order in which they were added, each once. -/
structure Suppression where
  patterns : List NamePattern
  deriving DecidableEq, Repr

namespace Suppression

/-- Nothing is exempt. -/
def empty : Suppression := ⟨[]⟩

/-- Adds a pattern, without the blanks around it. -/
def add (s : Suppression) (pattern : String) : Suppression :=
  let p := NamePattern.ofText (.ofList (Text.trim pattern.toList))
  if p ∈ s.patterns then s else ⟨s.patterns ++ [p]⟩

/-- The set of these patterns. -/
def ofList (patterns : List String) : Suppression := patterns.foldl add empty

/-- Whether an element with these annotations is exempt. -/
def exempts (s : Suppression) (annotations : List String) : Bool :=
  annotations.any fun a => s.patterns.any (·.accepts a)

end Suppression

end JvmAudit
