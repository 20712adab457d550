/-!
# Internal runtime classes

The packages of the runtime library that are not part of its public interface.
-/

namespace JvmAudit

/-- How the names of internal runtime classes start. -/
def internalRuntimePackages : List String := ["sun.", "com.sun.", "jdk.internal.", "com.oracle."]

/-- How the names of public classes start that lie in internal packages. -/
def publicRuntimePackages : List String := [
  "com.sun.management.", "com.sun.net.httpserver.", "com.sun.jdi.", "com.sun.source.",
  "com.sun.tools.attach.", "com.sun.nio.sctp.", "com.sun.security.auth.", "com.sun.security.jgss.",
  "com.sun.jarsigner.", "com.sun.javadoc."]

/-- Whether a name starts with one of these texts. -/
def startsWithAny (starts : List String) (name : String) : Bool :=
  starts.any fun s => s.toList.isPrefixOf name.toList

/-- Whether a class belongs to an internal package of the runtime. -/
def isInternalRuntime (name : String) : Bool :=
  startsWithAny internalRuntimePackages name && !startsWithAny publicRuntimePackages name

end JvmAudit
