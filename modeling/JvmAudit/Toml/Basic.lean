/-!
# TOML tables

TOML values, and the rules by which the lines of a document build a table. A table is *open* while
lines may still add to it. How it came about decides which lines may: a header may come back to a
table that was only passed through on the way to another header, and a dotted key may add to tables
that dotted keys made.
-/

namespace JvmAudit.Toml

/-- A TOML value. The programs that read settings do not look at fractions, dates and times. -/
inductive Value where
  | str (s : String)
  | int (n : Int)
  | float
  | bool (b : Bool)
  | time
  | arr (items : List Value)
  | table (entries : List (String × Value))
deriving Inhabited

/-- A key: the tables that it passes through, and the name in the last one. -/
structure Key where
  path : List String
  name : String
deriving DecidableEq, Repr

/-- How an open table came about. -/
inductive Origin where
  /-- It has a header, is an element of an array of tables, or is the whole document. -/
  | header
  /-- A header passed through it. -/
  | passed
  /-- A dotted key passed through it. -/
  | dotted
deriving DecidableEq, Repr

/-- What an open table holds under a name. -/
inductive Item where
  /-- A value that was written out. -/
  | value (v : Value)
  | table (origin : Origin) (entries : List (String × Item))
  /-- An array of tables, the last one first. -/
  | tables (elements : List (List (String × Item)))

/-- The entries of an open table. -/
abbrev Entries := List (String × Item)

namespace Entries

/-- Puts an item under a name. -/
def set (name : String) (item : Item) : Entries → Entries
  | [] => [(name, item)]
  | (n, old) :: rest => if n = name then (name, item) :: rest else (n, old) :: set name item rest

/-- Changes the table at the end of a path and makes the tables on the way that are missing. A value
ends the way, an array of tables leads to its last element, and a dotted key does not pass through a
table with a header. -/
def within (dotted : Bool) (change : Origin → Entries → Option Entries) :
    List String → Origin → Entries → Option Entries
  | [], origin, entries => change origin entries
  | name :: path, _, entries =>
    match entries.lookup name with
    | none =>
      let origin := if dotted then .dotted else .passed
      (within dotted change path origin []).map fun sub => entries.set name (.table origin sub)
    | some (.table origin sub) =>
      if dotted && origin = .header then none
      else (within dotted change path origin sub).map fun sub =>
        entries.set name (.table origin sub)
    | some (.tables (last :: before)) =>
      (within dotted change path .header last).map fun last =>
        entries.set name (.tables (last :: before))
    | some _ => none

/-- Gives a key a value. The last table of a dotted key is one that dotted keys made, and the name
is new. -/
def assign (key : Key) (v : Value) (entries : Entries) : Option Entries :=
  let change (origin : Origin) (entries : Entries) : Option Entries :=
    if (origin = .dotted) = key.path.isEmpty || (entries.lookup key.name).isSome then none
    else some (entries.set key.name (.value v))
  within true change key.path .header entries

/-- Opens the table of a header, which is new or was only passed through. -/
def openTable (key : Key) (entries : Entries) : Option Entries :=
  let change (_ : Origin) (entries : Entries) : Option Entries :=
    match entries.lookup key.name with
    | none => some (entries.set key.name (.table .header []))
    | some (.table .passed sub) => some (entries.set key.name (.table .header sub))
    | some _ => none
  within false change key.path .header entries

/-- Opens one more element of an array of tables. -/
def openElement (key : Key) (entries : Entries) : Option Entries :=
  let change (_ : Origin) (entries : Entries) : Option Entries :=
    match entries.lookup key.name with
    | none => some (entries.set key.name (.tables [[]]))
    | some (.tables elements) => some (entries.set key.name (.tables ([] :: elements)))
    | some _ => none
  within false change key.path .header entries

/-- Gives a key a value in the table of a header. -/
def assignBelow (header : List String) (key : Key) (v : Value) (entries : Entries) :
    Option Entries :=
  within false (fun _ => assign key v) header .header entries

mutual

/-- The value of an item to which nothing is added any more. -/
def close : Item → Value
  | .value v => v
  | .table _ entries => .table (closeEntries entries)
  | .tables elements => .arr (closeElements elements).reverse

/-- The values of the entries of a table. -/
def closeEntries : List (String × Item) → List (String × Value)
  | [] => []
  | (name, item) :: rest => (name, close item) :: closeEntries rest

/-- The values of the elements of an array of tables. -/
def closeElements : List (List (String × Item)) → List Value
  | [] => []
  | entries :: rest => .table (closeEntries entries) :: closeElements rest

end

end Entries

end JvmAudit.Toml
