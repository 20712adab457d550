import JvmAudit.Command.Session
import JvmAudit.Settings.Source

/-!
# A settings file to start from

The command that writes a settings file with comments into the working directory.
-/

namespace JvmAudit

namespace Settings

/-- The lines of a settings file to start from. -/
def starterLines : List String := [
  "# forbidden-apis configuration",
  "",
  "[check]",
  "# Directory with the compiled classes to check",
  "classes = \"target/classes\"",
  "",
  "# Libraries the classes were compiled against (directories, jars, jmods)",
  "classpath = []",
  "",
  "# JDK whose runtime classes are added to the classpath",
  "# java_home = \"/usr/lib/jvm/java-17\"",
  "",
  "# Target runtime version for version-sensitive bundled catalogs",
  "target = \"17\"",
  "",
  "# Bundled catalogs (see `forbidden-apis list-bundled`)",
  "bundled = [\"jdk-unsafe\", \"jdk-deprecated\", \"jdk-non-portable\"]",
  "",
  "# Inline signatures; text after the rule is the message",
  "signatures = [",
  "    \"java.lang.System\x23exit(int) @ use the application shutdown hook\",",
  "]",
  "",
  "# Signature files",
  "# signatures_files = [\"config/forbidden-signatures.txt\"]",
  "",
  "# Annotations that exempt a class, method or field",
  "suppress = [\"**.SuppressForbidden\"]",
  "",
  "# Glob patterns relative to `classes`",
  "exclude = [\"**/generated/**\"]",
  "",
  "[options]",
  "forbid_internal_runtime = true",
  "fail_on_missing_classes = true",
  "fail_on_unresolvable_signatures = true",
  "fail_on_violation = true",
  "fail_on_unsupported_format = false"]

/-- A settings file to start from. -/
def starter : String := .join (starterLines.map (· ++ "\n"))

end Settings

namespace Command

/-- The name of the settings file. -/
def settingsName : String := "forbidden-apis.toml"

/-- Writes a settings file to start from; one that is there stays unless `force` is given. -/
def init (force : Bool) : Command Unit := do
  if (← get).files.pathExists settingsName && !force then
    fail s!"Configuration file already exists at {settingsName}. Use --force to overwrite."
  writeFile settingsName Settings.starter FileError.message
  print (.join (["Created forbidden-apis.toml", "", "Next steps:",
    "  1. Point [check] classes and classpath at your build output",
    "  2. Run: forbidden-apis check"].map (· ++ "\n")))

end Command

end JvmAudit
