import JvmAudit.Toml.Basic

/-!
# TOML strings, numbers and dates

A reader takes characters from the front of a text and fails without taking any. Where a longer and
a shorter reading both exist, what must follow a value rules out the shorter one.

## Termination

`repeated` reads at most as many items as there are characters, since an item takes at least one.
-/

namespace JvmAudit.Toml

/-- Takes characters from the front of a text. -/
abbrev Reader := StateT (List Char) Option

namespace Reader

/-- One character of a class. -/
def satisfy (p : Char → Bool) : Reader Char := fun cs =>
  match cs with
  | c :: rest => if p c then some (c, rest) else none
  | [] => none

/-- The character `c`. -/
def char (c : Char) : Reader Unit := (fun _ => ()) <$> satisfy (· == c)

/-- The characters of `s`. -/
def word (s : String) : Reader Unit := s.toList.forM char

/-- The longest run of characters of a class. -/
def run (p : Char → Bool) : Reader (List Char) := fun cs => some (cs.takeWhile p, cs.dropWhile p)

/-- Nothing is left. -/
def done : Reader Unit := fun cs => if cs.isEmpty then some ((), cs) else none

/-- Something that may be missing. -/
def optional {α : Type} (r : Reader α) : Reader (Option α) := (some <$> r) <|> pure none

/-- At most `n` items, as many as there are. -/
def upTo {α : Type} : Nat → Reader α → Reader (List α)
  | 0, _ => pure []
  | n + 1, item => do
    match ← optional item with
    | some a => return a :: (← upTo n item)
    | none => return []

/-- All items up to the first place where there is none. The text is measured only if there is an
item at all. -/
def repeated {α : Type} (item : Reader α) : Reader (List α) := do
  match ← optional item with
  | some a => return a :: (← upTo (← get).length item)
  | none => return []

/-- One or more items with separators between them. -/
def separated {α : Type} (item : Reader α) (separator : Char) : Reader (List α) := do
  return (← item) :: (← repeated (do char separator; item))

/-! ## Blanks, lines and comments -/

/-- A line ends in a line feed, with or without a carriage return before it. -/
def newline : Reader Unit := char '\n' <|> word "\r\n"

/-- Spaces and tabs. -/
def blanks : Reader Unit := (fun _ => ()) <$> run fun c => c == ' ' || c == '\t'

/-- The characters that may stand in comments and strings: no control characters but the tab. -/
def isPlain (c : Char) : Bool := c == '\t' || (0x20 ≤ c.toNat && c != '\x7f')

/-- A comment. -/
def comment : Reader Unit := do
  char '#'
  discard (run isPlain)

/-- What may follow on a line, and its end. -/
def lineEnd : Reader Unit := do
  blanks
  discard (optional comment)
  newline <|> done

/-- Blanks, comments and line ends between the elements of an array. -/
def layout : Reader Unit := do
  blanks
  discard (repeated (do discard (optional comment); newline; blanks))

/-! ## Strings -/

/-- The value of hexadecimal digits. -/
def hexValue? (ds : List Char) : Option Nat :=
  ds.foldlM (fun n c => (hexDigit? c).map (16 * n + ·)) 0
where
  /-- The value of a hexadecimal digit. -/
  hexDigit? (c : Char) : Option Nat :=
    if c.isDigit then some (c.toNat - '0'.toNat)
    else if 'a' ≤ c && c ≤ 'f' then some (c.toNat - 'a'.toNat + 10)
    else if 'A' ≤ c && c ≤ 'F' then some (c.toNat - 'A'.toNat + 10)
    else none

/-- Exactly `n` items. -/
def times {α : Type} (n : Nat) (item : Reader α) : Reader (List α) :=
  (List.replicate n ()).mapM fun _ => item

/-- A character given by its number in `n` hexadecimal digits. -/
def codePoint (n : Nat) : Reader Char := do
  match hexValue? (← times n (satisfy fun _ => true)) with
  | some v => if v.isValidChar then return Char.ofNat v else failure
  | none => failure

/-- A character written with a backslash. -/
def escape : Reader Char := do
  char '\\'
  match ← satisfy fun _ => true with
  | 'b' => return '\x08'
  | 't' => return '\t'
  | 'n' => return '\n'
  | 'f' => return '\x0c'
  | 'r' => return '\r'
  | '"' => return '"'
  | '\\' => return '\\'
  | 'u' => codePoint 4
  | 'U' => codePoint 8
  | _ => failure

/-- A string between quotation marks. -/
def basicString : Reader String := do
  char '"'
  let cs ← repeated (satisfy (fun c => isPlain c && c != '"' && c != '\\') <|> escape)
  char '"'
  return .ofList cs

/-- A string between apostrophes, taken as it is. -/
def literalString : Reader String := do
  char '\''
  let cs ← run fun c => isPlain c && c != '\''
  char '\''
  return .ofList cs

/-- A backslash at the end of a line, which drops the blank space up to the next character. -/
def continuation : Reader Unit := do
  char '\\'
  blanks
  newline
  discard (repeated (newline <|> discard (satisfy fun c => c == ' ' || c == '\t')))

/-- One or two quotes inside a string of several lines. -/
def innerQuotes (quote : Char) : Reader (List Char) := do
  let quotes ← run (· == quote)
  if quotes.length ≤ 2 && !quotes.isEmpty then return quotes else failure

/-- A string of several lines between threefold quotes. A line end right after the opening is
dropped, and one or two quotes before the closing ones belong to the string. -/
def longString (quote : Char) (piece : Reader (List Char)) : Reader String := do
  discard (times 3 (char quote))
  discard (optional newline)
  let pieces ← repeated (piece <|> innerQuotes quote)
  let quotes ← run (· == quote)
  if 3 ≤ quotes.length && quotes.length ≤ 5 then
    return .ofList (pieces.flatten ++ quotes.drop 3) else failure

/-- A line end inside a string, which is a line feed. -/
def innerNewline : Reader (List Char) := (fun _ => ['\n']) <$> newline

/-- A string of several lines between quotation marks. -/
def longBasicString : Reader String :=
  longString '"' ((fun c => [c]) <$> satisfy (fun c => isPlain c && c != '"' && c != '\\')
    <|> (fun _ => []) <$> continuation <|> (fun c => [c]) <$> escape <|> innerNewline)

/-- A string of several lines between apostrophes. -/
def longLiteralString : Reader String :=
  longString '\'' ((fun c => [c]) <$> satisfy (fun c => isPlain c && c != '\'') <|> innerNewline)

/-- A string. -/
def string : Reader String :=
  longBasicString <|> basicString <|> longLiteralString <|> literalString

/-! ## Numbers -/

/-- Digits of a class, with single underscores between them. -/
def digits (p : Char → Bool) : Reader (List Char) := do
  return (← satisfy p) :: (← repeated (satisfy p <|> (do char '_'; satisfy p)))

/-- A sign; `true` is minus. -/
def sign : Reader Bool :=
  (fun s => s == some '-') <$> optional (satisfy fun c => c == '+' || c == '-')

/-- Decimal digits without a zero in front. -/
def plainDigits : Reader (List Char) := do
  let ds ← digits Char.isDigit
  if ds.length = 1 || ds.head? != some '0' then return ds else failure

/-- The value of decimal digits. -/
def decimalValue (ds : List Char) : Nat := ds.foldl (fun n c => 10 * n + (c.toNat - '0'.toNat)) 0

/-- The value of digits in base `2 ^ bits`. -/
def radixValue (bits : Nat) (ds : List Char) : Nat :=
  ds.foldl (fun n c => (n <<< bits) + ((hexValue? [c]).getD 0)) 0

/-- An unsigned integer in base `2 ^ bits`, after `0` and a letter. -/
def radixInteger (mark : String) (bits : Nat) : Reader Int := do
  word mark
  let isDigit (c : Char) : Bool := ((hexValue? [c]).getD 16) < 1 <<< bits
  return radixValue bits (← digits isDigit)

/-- An integer in base 10. -/
def decimalInteger : Reader Int := do
  let negative ← sign
  let n := decimalValue (← plainDigits)
  return if negative then -n else n

/-- An integer of 64 bits. -/
def integer : Reader Int := do
  let n ← radixInteger "0x" 4 <|> radixInteger "0o" 3 <|> radixInteger "0b" 1 <|> decimalInteger
  if -0x8000000000000000 ≤ n && n < 0x8000000000000000 then return n else failure

/-- Whether `m * 10 ^ e` is too large for a number of double precision: at least halfway from the
largest one to the next power of two. -/
def overflows (m : Nat) (e : Int) : Bool :=
  let limit : Nat := (1 <<< 1024) - (1 <<< 970)
  let magnitude : Int := (Nat.toDigits 10 m).length + e
  if m = 0 || magnitude < 309 then false
  else if 309 < magnitude then true
  else if 0 ≤ e then limit ≤ m * Nat.pow 10 e.toNat
  else limit * Nat.pow 10 (-e).toNat ≤ m

/-- The exponent of a number. -/
def exponent : Reader Int := do
  discard (satisfy fun c => c == 'e' || c == 'E')
  let negative ← sign
  let n := decimalValue (← digits Char.isDigit)
  return if negative then -n else n

/-- A number with a fraction or an exponent. It must not be too large; below zero it may be. -/
def decimalFloat : Reader Unit := do
  let negative ← sign
  let whole ← plainDigits
  let fraction := (← optional (do char '.'; digits Char.isDigit)).getD []
  let exp ← optional exponent
  if fraction.isEmpty && exp.isNone then failure
  if !negative && overflows (decimalValue (whole ++ fraction)) (exp.getD 0 - fraction.length) then
    failure

/-- Infinity, and what is not a number. -/
def specialFloat : Reader Unit := do
  discard sign
  word "inf" <|> word "nan"

/-! ## Dates and times -/

/-- A number of `n` digits within bounds. -/
def number (n low high : Nat) : Reader Nat := do
  let v := decimalValue (← times n (satisfy Char.isDigit))
  if low ≤ v && v ≤ high then return v else failure

/-- The number of days of a month. -/
def daysOf (year month : Nat) : Nat :=
  if month = 2 then
    if year % 4 = 0 && (year % 100 != 0 || year % 400 = 0) then 29 else 28
  else if month = 4 || month = 6 || month = 9 || month = 11 then 30
  else 31

/-- A date. -/
def date : Reader Unit := do
  let year ← number 4 0 9999
  char '-'
  let month ← number 2 1 12
  char '-'
  discard (number 2 1 (daysOf year month))

/-- A time of day. -/
def timeOfDay : Reader Unit := do
  discard (number 2 0 23)
  char ':'
  discard (number 2 0 59)
  char ':'
  discard (number 2 0 60)
  discard (optional (do char '.'; discard (satisfy Char.isDigit); discard (run Char.isDigit)))

/-- The distance to universal time. -/
def offset : Reader Unit :=
  discard (satisfy fun c => c == 'Z' || c == 'z') <|> do
    discard (satisfy fun c => c == '+' || c == '-')
    discard (number 2 0 23)
    char ':'
    discard (number 2 0 59)

/-- A date, a date with a time, or a time. -/
def dateTime : Reader Unit :=
  (do
    date
    discard (optional (do
      discard (satisfy fun c => c == 'T' || c == 't' || c == ' ')
      timeOfDay
      optional offset)))
  <|> timeOfDay

/-- A value that is not made of other values. -/
def scalar : Reader Value :=
  (.str <$> string) <|> ((fun _ => .bool true) <$> word "true") <|>
    ((fun _ => .bool false) <$> word "false")
    <|> ((fun _ => .time) <$> dateTime) <|> ((fun _ => .float) <$> (decimalFloat <|> specialFloat))
    <|> (.int <$> integer)

end Reader

end JvmAudit.Toml
