/-!
# Texts of the catalogs

The rule texts that come with the program.
-/

namespace JvmAudit.CatalogText

/-- The part of `jdk-unsafe` for every version. -/
def jdkUnsafe : String :=
  "# Methods that silently depend on the default locale, time zone or charset.

@defaultMessage Uses default locale
java.lang.String#toLowerCase()
java.lang.String#toUpperCase()
java.text.DateFormat#getDateInstance()
java.text.DateFormat#getDateInstance(int)
java.text.DateFormat#getDateTimeInstance()
java.text.DateFormat#getDateTimeInstance(int,int)
java.text.DateFormat#getTimeInstance()
java.text.DateFormat#getTimeInstance(int)
java.text.SimpleDateFormat#<init>()
java.text.SimpleDateFormat#<init>(java.lang.String)
java.text.NumberFormat#getInstance()
java.text.NumberFormat#getNumberInstance()
java.text.NumberFormat#getPercentInstance()
java.text.NumberFormat#getCurrencyInstance()
java.text.MessageFormat#<init>(java.lang.String)
java.text.MessageFormat#format(java.lang.String,java.lang.Object[])

@defaultMessage Uses default time zone
java.util.TimeZone#getDefault()
java.util.Calendar#getInstance()
java.util.GregorianCalendar#<init>()
java.util.Date#<init>(java.lang.String)
java.util.Date#toString()

@defaultMessage Uses default charset
java.lang.String#<init>(byte[])
java.lang.String#<init>(byte[],int,int)
java.lang.String#getBytes()
java.io.FileReader#<init>(java.lang.String)
java.io.FileReader#<init>(java.io.File)
java.io.FileWriter#<init>(java.lang.String)
java.io.FileWriter#<init>(java.io.File)
java.io.InputStreamReader#<init>(java.io.InputStream)
java.io.OutputStreamWriter#<init>(java.io.OutputStream)
java.io.PrintStream#<init>(java.io.OutputStream)
java.io.PrintWriter#<init>(java.lang.String)
java.io.ByteArrayOutputStream#toString()
"

/-- The part of `jdk-unsafe` from version 5 on. -/
def jdkUnsafe5 : String :=
  "@defaultMessage Uses default locale
java.lang.String#format(java.lang.String,java.lang.Object...)
java.util.Formatter#<init>()
java.util.Formatter#<init>(java.lang.Appendable)
java.io.PrintStream#format(java.lang.String,java.lang.Object...)
java.io.PrintStream#printf(java.lang.String,java.lang.Object...)
java.io.PrintWriter#format(java.lang.String,java.lang.Object...)
java.io.PrintWriter#printf(java.lang.String,java.lang.Object...)

@defaultMessage Uses default charset
java.util.Scanner#<init>(java.io.InputStream)
java.util.Scanner#<init>(java.io.File)
"

/-- The part of `jdk-deprecated` for every version. -/
def jdkDeprecated : String :=
  "# Deprecated runtime APIs.

@defaultMessage Deprecated: inherently unsafe thread control
java.lang.Thread#stop()
java.lang.Thread#suspend()
java.lang.Thread#resume()

@defaultMessage Deprecated: use java.util.Calendar or java.time
java.util.Date#<init>(int,int,int)
java.util.Date#getYear()
java.util.Date#getMonth()
java.util.Date#getDay()

@defaultMessage Deprecated: finalizers on exit are unsafe
java.lang.Runtime#runFinalizersOnExit(boolean)
java.lang.System#runFinalizersOnExit(boolean)
"

/-- The part of `jdk-deprecated` from version 9 on. -/
def jdkDeprecated9 : String :=
  "@defaultMessage Deprecated since 9: use valueOf
java.lang.Integer#<init>(int)
java.lang.Long#<init>(long)
java.lang.Boolean#<init>(boolean)
java.lang.Double#<init>(double)

@defaultMessage Deprecated since 9: use getDeclaredConstructor().newInstance()
java.lang.Class#newInstance()

@defaultMessage Deprecated since 9: finalization is unreliable
java.lang.Object#finalize()
"

/-- The part of `jdk-deprecated` from version 18 on. -/
def jdkDeprecated18 : String :=
  "@defaultMessage Deprecated since 18: finalization is scheduled for removal
java.lang.Runtime#runFinalization()
java.lang.System#runFinalization()
"

/-- The catalog `jdk-system-out`. -/
def jdkSystemOut : String :=
  "@defaultMessage Write to a logger instead of the console
java.lang.System#out
java.lang.System#err
java.lang.Throwable#printStackTrace()
"

/-- The catalog `jdk-reflection`. -/
def jdkReflection : String :=
  "@defaultMessage Reflection that bypasses access checks
java.lang.reflect.AccessibleObject#setAccessible(boolean)
java.lang.reflect.AccessibleObject#setAccessible(java.lang.reflect.AccessibleObject[],boolean)
"

/-- The catalog `jdk-non-portable`. -/
def jdkNonPortable : String :=
  "# Classes that only exist in some runtime distributions.

@defaultMessage Non-portable runtime class
sun.**
com.sun.image.**
com.sun.org.apache.**
jdk.internal.**
"

/-- The catalog `jdk-exec`. -/
def jdkExec : String :=
  "@defaultMessage Spawns external processes
java.lang.Runtime#exec(java.lang.String)
java.lang.Runtime#exec(java.lang.String[])
java.lang.ProcessBuilder#start()
"

end JvmAudit.CatalogText
