import JvmAudit.Assembler.Class

/-!
# Runtime stubs

A few classes of the runtime library with the members that small programs need, so that a program
can be checked without a runtime at hand.
-/

namespace JvmAudit.Assembler

/-- The descriptions of the stubs. -/
def stubSpecs : List ClassSpec := [
  { ClassSpec.ofName "java.lang.Object" with
    superClass := none
    members :=
      [.method (.ofBody "toString" "()Ljava/lang/String;" [.plain .aconstNull, .plain .areturn])] },
  { ClassSpec.ofName "java.lang.String" with
    members := [.method (.ofBody "length" "()I" [.iconst 0, .plain .ireturn])] },
  { ClassSpec.ofName "java.lang.System" with
    members := [.field "out" "Ljava/io/PrintStream;" [],
      .method (.ofBody "exit" "(I)V" [.plain .voidReturn]),
      .method (.ofBody "currentTimeMillis" "()J" [.plain .lconst0, .plain .lreturn])] },
  { ClassSpec.ofName "java.io.PrintStream" with
    members := [.method (.ofBody "println" "(Ljava/lang/String;)V" [.plain .voidReturn])] },
  { ClassSpec.ofName "java.lang.Runnable" with
    access := ClassSpec.interfaceAccess
    members := [.method (.abstract "run" "()V")] },
  ClassSpec.ofName "java.lang.invoke.LambdaMetafactory"]

/-- The stubs: dotted names and class files. -/
def runtimeStubs : List (String × Bytes) := stubSpecs.map fun c => (c.name, c.build.data)

end JvmAudit.Assembler
