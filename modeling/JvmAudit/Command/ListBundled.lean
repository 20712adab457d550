import JvmAudit.Catalog.Basic
import JvmAudit.Command.Session

/-!
# The list of catalogs

The command that lists the catalogs that come with the program.
-/

namespace JvmAudit

namespace Catalog

/-- The versions from which on the fragments of a catalog count. -/
def versions (c : Catalog) : String :=
  if c.versioned then Text.join "," (c.fragments.map fun f => toString f.since) ++ "+" else "any"

end Catalog

namespace Command

/-- A text filled up with spaces to a width. -/
def padded (width : Nat) (s : String) : String :=
  s ++ .ofList (List.replicate (width - s.length) ' ')

/-- A row of the list. -/
def catalogRow (name versions description : String) : String :=
  padded 20 name ++ " " ++ padded 12 versions ++ " " ++ description

/-- The lines of the list. -/
def catalogLines : List String :=
  ["Bundled signature catalogs:", "", catalogRow "Name" "Versions" "Description",
    .ofList (List.replicate 80 '-')] ++
  Catalog.all.map (fun c => catalogRow c.name c.versions c.description) ++
  ["", "Versioned catalogs need a target version, e.g.:",
    "  forbidden-apis check --bundled jdk-unsafe --target 11",
    "  forbidden-apis check --bundled jdk-deprecated-1.8"]

/-- Lists the catalogs. -/
def listBundled : Command Unit := print (.join (catalogLines.map (· ++ "\n")))

end Command

end JvmAudit
