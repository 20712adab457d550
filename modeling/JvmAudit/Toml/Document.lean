import JvmAudit.Toml.Scalar

/-!
# TOML documents

A document is read into its lines, and the lines build a table.

## Termination

Values are nested at most `maxNesting` deep, and a reader of values goes down by the levels that are
left.
-/

namespace JvmAudit.Toml

/-- How deep values may be nested, and how many names a key may have. -/
def maxNesting : Nat := 79

/-- A line that adds to the table of a document. -/
inductive Line where
  | assign (key : Key) (v : Value)
  | header (key : Key)
  /-- The header of one more element of an array of tables. -/
  | element (key : Key)

namespace Reader

/-! ## Keys and values -/

/-- One name of a key. -/
def keyName : Reader String :=
  basicString <|> literalString <|> do
    let cs ← run fun c => c.isAlphanum || c == '-' || c == '_'
    if cs.isEmpty then failure else return .ofList cs

/-- Names with dots between them. -/
def key : Reader Key := do
  let names ← separated (do blanks; let name ← keyName; blanks; return name) '.'
  match names.getLast? with
  | some name => if names.length ≤ maxNesting then return ⟨names.dropLast, name⟩ else failure
  | none => failure

/-- An array. There may be a comma after the last element. -/
def array (item : Reader Value) : Reader Value := do
  char '['
  let element : Reader Value := do layout; let v ← item; layout; return v
  let items ← optional do
    let items ← separated element ','
    discard (optional (char ','))
    return items
  layout
  char ']'
  return .arr (items.getD [])

/-- A key with its value. -/
def pair (item : Reader Value) : Reader (Key × Value) := do
  let k ← key
  char '='
  blanks
  let v ← item
  return (k, v)

/-- A table on one line. -/
def inlineTable (item : Reader Value) : Reader Value := do
  char '\x7b'
  let pairs ← optional (separated (do let p ← pair item; blanks; return p) ',')
  blanks
  char '\x7d'
  match (pairs.getD []).foldlM (fun entries (k, v) => Entries.assign k v entries) [] with
  | some entries => return .table (Entries.closeEntries entries)
  | none => failure

/-- A value in which other values are nested at most so many levels deep. -/
def value : Nat → Reader Value
  | 0 => scalar
  | levels + 1 => scalar <|> array (value levels) <|> inlineTable (value levels)

/-! ## Lines -/

/-- A line, or nothing if it holds no more than a comment. -/
def line : Reader (Option Line) :=
  ((fun _ => none) <$> newline)
  <|> (do comment; newline <|> done; return none)
  <|> (do word "[["; let k ← key; word "]]"; lineEnd; return some (.element k))
  <|> (do char '['; let k ← key; char ']'; lineEnd; return some (.header k))
  <|> (do let (k, v) ← pair (value maxNesting); lineEnd; return some (.assign k v))

/-- The lines of a document. A byte order mark in front of it is skipped. -/
def lines : Reader (List Line) := do
  discard (optional (char '\ufeff'))
  blanks
  let lines ← repeated (do let l ← line; blanks; return l)
  done
  return lines.filterMap id

end Reader

/-! ## Documents -/

/-- A document while its lines are taken in. -/
structure Draft where
  entries : Entries
  /-- The path of the last header. -/
  header : List String

namespace Draft

/-- Takes in a line. -/
def add (d : Draft) : Line → Option Draft
  | .assign key v => (d.entries.assignBelow d.header key v).map fun entries => { d with entries }
  | .header key => (d.entries.openTable key).map fun entries => ⟨entries, key.path ++ [key.name]⟩
  | .element key => (d.entries.openElement key).map fun entries => ⟨entries, key.path ++ [key.name]⟩

end Draft

/-- The table of a document, if it is well-formed. -/
def parse? (text : String) : Option Value := do
  let (lines, _) ← Reader.lines text.toList
  let draft ← lines.foldlM Draft.add ⟨[], []⟩
  return .table (Entries.closeEntries draft.entries)

end JvmAudit.Toml
