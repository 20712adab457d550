/-!
# JSON values

A small model of JSON: values, and how they are written with one element per line. Only whole
numbers are told from each other.
-/

namespace JvmAudit

/-- A JSON value. -/
inductive Json where
  | null
  | bool (b : Bool)
  | int (n : Int)
  /-- A number that is not a whole one. -/
  | fraction
  | str (s : String)
  | arr (items : List Json)
  /-- The members of an object, in the order in which they are written. -/
  | obj (members : List (String × Json))
deriving Inhabited

namespace Json

/-- A hexadecimal digit. -/
def hexDigit (n : Nat) : Char := Nat.digitChar (n % 16)

/-- A character inside a string: quotes, backslashes and control characters are escaped. -/
def escapeChar (c : Char) : List Char :=
  match c with
  | '"' => ['\\', '"']
  | '\\' => ['\\', '\\']
  | '\n' => ['\\', 'n']
  | '\r' => ['\\', 'r']
  | '\t' => ['\\', 't']
  | '\x08' => ['\\', 'b']
  | '\x0c' => ['\\', 'f']
  | c =>
    if c.toNat < 0x20 then ['\\', 'u', '0', '0', hexDigit (c.toNat / 16), hexDigit c.toNat] else [c]

/-- A string. -/
def quoted (s : String) : String := .ofList ('"' :: s.toList.flatMap escapeChar ++ ['"'])

/-- The start of a line at a depth of nesting. -/
def newLine (depth : Nat) : String := "\n" ++ .ofList (List.replicate (2 * depth) ' ')

/-- A list of written elements between brackets, one per line. -/
def bracketed (opening closing : String) (depth : Nat) (items : List String) : String :=
  if items.isEmpty then opening ++ closing
  else opening ++ newLine (depth + 1) ++ (("," ++ newLine (depth + 1)).intercalate items) ++
    newLine depth ++ closing

mutual

/-- A value with its elements on lines of their own. -/
def pretty (depth : Nat) : Json → String
  | .null => "null"
  | .bool b => if b then "true" else "false"
  | .int n => toString n
  | .fraction => "null"
  | .str s => quoted s
  | .arr items => bracketed "[" "]" depth (prettyItems (depth + 1) items)
  | .obj members => bracketed "\x7b" "\x7d" depth (prettyMembers (depth + 1) members)

/-- The elements of a list. -/
def prettyItems (depth : Nat) : List Json → List String
  | [] => []
  | item :: rest => pretty depth item :: prettyItems depth rest

/-- The members of an object. -/
def prettyMembers (depth : Nat) : List (String × Json) → List String
  | [] => []
  | (key, value) :: rest => (quoted key ++ ": " ++ pretty depth value) :: prettyMembers depth rest

end

end Json

end JvmAudit
