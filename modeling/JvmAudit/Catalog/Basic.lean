import JvmAudit.Catalog.Texts
import JvmAudit.Text.Blank
import JvmAudit.Text.Cut

/-!
# Catalogs

Named rule texts that come with the program. A versioned catalog consists of fragments, each for the
runtime versions from a certain one on, and can only be used with a version; any other catalog is
the same for all versions.

A version is written `8` or `1.8`. A catalog is asked for by its name, or by its name, `-` and a
version; the version in the name wins over the target version.
-/

namespace JvmAudit

/-- Why no catalog can be given. -/
inductive CatalogError where
  | unknownCatalog (name : String)
  | missingVersion (name : String)
  | invalidVersion (version : String)
  deriving DecidableEq, Repr

namespace CatalogError

/-- The text of an error. -/
def message : CatalogError → String
  | .unknownCatalog name => s!"unknown bundled signatures: {name}"
  | .missingVersion name => s!"bundled signatures '{name}' require a target runtime version"
  | .invalidVersion version => s!"invalid runtime version '{version}'"

end CatalogError

/-! ## Versions -/

namespace Version

/-- The bound of version numbers. -/
def bound : Nat := 4294967296

/-- The value of decimal digits, at least one of them; `none` for any other text. -/
def decimal? (cs : List Char) : Option Nat :=
  if cs.isEmpty || !cs.all Char.isDigit then none
  else some (cs.foldl (fun n c => n * 10 + (c.toNat - '0'.toNat)) 0)

/-- A number: decimal digits, which may have a plus sign in front. -/
def number? (cs : List Char) : Option Nat :=
  (match cs with
    | '+' :: rest => decimal? rest
    | _ => decimal? cs).filter (· < bound)

/-- Reads a version; zero is none. -/
def parse (version : String) : Except CatalogError Nat :=
  let cs := Text.trim version.toList
  match (number? ((Text.dropFront ['1', '.'] cs).getD cs)).filter (0 < ·) with
  | some n => .ok n
  | none => .error (.invalidVersion version)

end Version

/-! ## Catalogs -/

/-- The part of a catalog for the versions from `since` on. -/
structure Fragment where
  since : Nat
  text : String
  deriving DecidableEq, Repr

/-- A named rule text that comes with the program. -/
structure Catalog where
  name : String
  description : String
  versioned : Bool
  /-- By ascending version. -/
  fragments : List Fragment
  deriving DecidableEq, Repr

/-- A catalog as it is used. -/
structure ResolvedCatalog where
  /-- The name of the catalog, with the version if it has one. -/
  name : String
  version : Option Nat
  text : String
  deriving DecidableEq, Repr

namespace Catalog

/-- All catalogs. -/
def all : List Catalog := [
  ⟨"jdk-unsafe", "Methods depending on the default locale, time zone or charset", true,
    [⟨1, CatalogText.jdkUnsafe⟩, ⟨5, CatalogText.jdkUnsafe5⟩]⟩,
  ⟨"jdk-deprecated", "Deprecated runtime APIs", true,
    [⟨1, CatalogText.jdkDeprecated⟩, ⟨9, CatalogText.jdkDeprecated9⟩,
      ⟨18, CatalogText.jdkDeprecated18⟩]⟩,
  ⟨"jdk-system-out", "Console output via System.out, System.err and printStackTrace", false,
    [⟨1, CatalogText.jdkSystemOut⟩]⟩,
  ⟨"jdk-reflection", "Reflection that suppresses access checks", false,
    [⟨1, CatalogText.jdkReflection⟩]⟩,
  ⟨"jdk-non-portable", "Vendor-specific runtime packages (sun.*, jdk.internal.*, ...)", false,
    [⟨1, CatalogText.jdkNonPortable⟩]⟩,
  ⟨"jdk-exec", "Spawning external processes", false, [⟨1, CatalogText.jdkExec⟩]⟩]

/-- The catalog with this name. -/
def find? (name : String) : Option Catalog := all.find? (·.name == name)

/-- A text with a fragment behind it; the result ends a line. -/
def addFragment (text : String) (f : Fragment) : String :=
  let text := text ++ f.text
  if text.toList.getLast? = some '\n' then text else text ++ "\n"

/-- The text of the fragments that satisfy a condition. -/
def textWhere (c : Catalog) (keep : Fragment → Bool) : String :=
  (c.fragments.filter keep).foldl addFragment ""

/-- The text for a version. -/
def textFor (c : Catalog) (version : Option Nat) : Except CatalogError String :=
  if c.versioned then
    match version with
    | some v => .ok (c.textWhere (·.since ≤ v))
    | none => .error (.missingVersion c.name)
  else .ok (c.textWhere fun _ => true)

/-- The catalog that a name asks for, and the version that stands in the name. -/
def splitName (name : String) : Except CatalogError (Catalog × Option Nat) :=
  match find? name with
  | some c => .ok (c, none)
  | none =>
    match Text.cutLast '-' name.toList with
    | none => .error (.unknownCatalog name)
    | some (base, version) =>
      match find? (.ofList base) with
      | none => .error (.unknownCatalog name)
      | some c => (Version.parse (.ofList version)).map fun v => (c, some v)

/-- The name of a catalog for a version. -/
def nameFor (c : Catalog) (version : Option Nat) : String :=
  match version with
  | some v => c.name ++ "-" ++ toString v
  | none => c.name

/-- The catalog that a name asks for. The target version counts if the name has none. -/
def resolve (name : String) (target : Option String) : Except CatalogError ResolvedCatalog := do
  let (c, version) ← splitName name
  let version ← match version with
    | some v => pure (some v)
    | none => target.mapM Version.parse
  let text ← c.textFor version
  let version := if c.versioned then version else none
  return ⟨c.nameFor version, version, text⟩

end Catalog

end JvmAudit
