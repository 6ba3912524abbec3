import EntityQuery.Calendar.Date
import EntityQuery.Number.Scientific
import EntityQuery.Text.Uuid
import EntityQuery.Toml.Basic

/-!
# The words of TOML

* `Toml.blankLines`, `Toml.comment` — what stands between words.
* `Toml.key` — names with dots between them, bare or in quotes.
* `Toml.quotedText` — texts on one line or several, with escapes or without.
* `Toml.scanNumber`, `Toml.scanMoment` — numbers, dates and times.
-/

namespace EntityQuery

namespace Toml

/-! ### Blanks -/

/-- Blanks inside a line. -/
def isSpace (c : Char) : Bool := c = ' ' || c = '\t'

/-- Characters that can stand in comments and texts: all but controls, of which the tabulator is
allowed. -/
def isPlain (c : Char) : Bool := c = '\t' || (0x20 ≤ c.toNat && c.toNat ≠ 0x7F)

/-- Skip blanks inside a line. -/
def spaces : Scan Unit := fun cs => some ((), cs.dropWhile isSpace)

/-- Expect one character. -/
def mark (c : Char) : Scan Unit := Scan.literal [c]

/-- The end of a line. -/
def newline : Scan Unit := mark '\n' <|> Scan.literal ['\r', '\n']

/-- A comment, up to the end of its line. -/
def comment : Scan Unit := do
  mark '#'
  let _ ← Scan.while_ isPlain

/-- Skip blanks, comments and ends of lines. -/
def blankLines : Scan Unit := do
  let _ ← Scan.many (discard (Scan.one isSpace) <|> newline <|> (do comment; newline))

/-! ### Texts -/

/-- A number of as many hexadecimal digits as told, which is the code of a character. -/
def codePoint (digits : Nat) : Scan Char := fun cs =>
  match (cs.take digits).mapM Uuid.hexValue? with
  | none => none
  | some values =>
    let code := values.foldl (fun n d => n * 16 + d) 0
    if values.length = digits ∧ code.isValidChar then some (Char.ofNat code, cs.drop digits) else none

/-- What stands after a backslash for one character. -/
def escaped : Scan Char := do
  match ← Scan.one fun _ => true with
  | 'b' => return '\x08'
  | 't' => return '\t'
  | 'n' => return '\n'
  | 'f' => return '\x0c'
  | 'r' => return '\r'
  | '"' => return '"'
  | '\\' => return '\\'
  | 'u' => codePoint 4
  | 'U' => codePoint 8
  | _ => Scan.refuse

/-- A text in double quotes on one line, with escapes. -/
def basicText : Scan (List Char) := do
  mark '"'
  let cs ← Scan.many
    (Scan.one (fun c => isPlain c && c ≠ '"' && c ≠ '\\') <|> (do mark '\\'; escaped))
  mark '"'
  return cs

/-- A text in single quotes on one line, without escapes. -/
def literalText : Scan (List Char) := do
  mark '\''
  let cs ← Scan.while_ fun c => isPlain c && c ≠ '\''
  mark '\''
  return cs

/-- A quote that does not begin three of them. -/
def innerQuote (quote : Char) : Scan (List Char) := fun cs =>
  match cs with
  | a :: b :: c :: _ => if a = quote ∧ ¬(b = quote ∧ c = quote) then some ([a], cs.drop 1) else none
  | [a, _] => if a = quote then some ([a], cs.drop 1) else none
  | _ => none

/-- The end of a text on several lines: three quotes, before which one or two may belong to the
text. -/
def closing (quote : Char) : Scan (List Char) := fun cs =>
  let run := min 5 (cs.takeWhile (· == quote)).length
  if 3 ≤ run then some (List.replicate (run - 3) quote, cs.drop run) else none

/-- The end of a line that belongs to a text. -/
def innerNewline : Scan (List Char) := do
  newline
  return ['\n']

/-- The end of a line that is left out of a text together with all blanks after it. -/
def foldedLine : Scan (List Char) := do
  mark '\\'
  spaces
  newline
  let _ ← Scan.many (discard (Scan.one isSpace) <|> newline)
  return []

/-- A text on several lines in three quotes, with or without escapes. The end of the first line does
not belong to it. -/
def longText (quote : Char) (escapes : Bool) : Scan (List Char) := do
  Scan.literal [quote, quote, quote]
  newline <|> pure ()
  let plain : Scan (List Char) :=
    List.singleton <$> Scan.one fun c => isPlain c && c ≠ quote && !(escapes && c == '\\')
  let escape : Scan (List Char) := do
    Scan.guardThat escapes
    foldedLine <|> (do mark '\\'; List.singleton <$> escaped)
  let parts ← Scan.many (plain <|> innerNewline <|> escape <|> innerQuote quote)
  return parts.flatten ++ (← closing quote)

/-- A text in any quotes. -/
def quotedText : Scan String :=
  String.ofList <$> (longText '"' true <|> basicText <|> longText '\'' false <|> literalText)

/-! ### Keys -/

/-- Characters of names without quotes. -/
def isBare (c : Char) : Bool := c.isAlphanum || c = '-' || c = '_'

/-- One name. -/
def name : Scan String := do
  let bare ← Scan.while_ isBare
  if bare.isEmpty then String.ofList <$> (basicText <|> literalText)
  else return String.ofList bare

/-- The greatest number of names of a key, and of nested values. -/
def nesting : Nat := 79

/-- Names with dots between them. -/
def key : Scan (List String) := do
  let names ← Scan.separated (mark '.') (do spaces; let n ← name; spaces; return n)
  Scan.guardThat (names.length ≤ nesting)
  return names

/-! ### Numbers -/

/-- Digits, with single underscores between them. -/
def digitRun (p : Char → Bool) : Scan (List Char) := do
  let first ← Scan.one p
  let others ← Scan.many (Scan.one p <|> (do mark '_'; Scan.one p))
  return first :: others

/-- A sign, or nothing. -/
def sign : Scan (List Char) := List.singleton <$> Scan.one (fun c => c = '+' || c = '-') <|> pure []

/-- Digits that do not begin with a superfluous zero. -/
def wholeDigits : Scan (List Char) :=
  (do mark '0'; return ['0']) <|> digitRun Char.isDigit

/-- An integer in decimal digits. -/
def decimalInteger : Scan Int := do
  let cs := (← sign) ++ (← wholeDigits)
  match readSigned? cs with
  | some i => return i
  | none => Scan.refuse

/-- An integer in the digits of a base, after the letter of the base. -/
def basedInteger (letter : Char) (base : Nat) : Scan Int := do
  Scan.literal ['0', letter]
  let value (c : Char) : Nat := (Uuid.hexValue? c).getD 16
  let digits ← digitRun fun c => value c < base
  return digits.foldl (fun n c => n * base + value c) 0

/-- An integer of 64 bits. -/
def scanInteger : Scan Toml := do
  let i ← basedInteger 'x' 16 <|> basedInteger 'o' 8 <|> basedInteger 'b' 2 <|> decimalInteger
  Scan.guardThat (-(2 ^ 63 : Nat) ≤ i ∧ i < (2 ^ 63 : Nat))
  return .integer (Int64.ofInt i)

/-- The exponent part of a floating-point number. -/
def exponent : Scan (List Char) := do
  let letter ← Scan.one fun c => c = 'e' || c = 'E'
  return letter :: (← sign) ++ (← digitRun Char.isDigit)

/-- The part of a floating-point number after its whole part. -/
def fraction : Scan (List Char) := do
  mark '.'
  let places ← digitRun Char.isDigit
  return '.' :: places ++ (← exponent <|> pure [])

/-- A floating-point number with a point or an exponent part. A positive one has to be in the
range. -/
def decimalFloat : Scan Binary64 := do
  let cs := (← sign) ++ (← wholeDigits) ++ (← exponent <|> fraction)
  match Binary64.ofText? cs with
  | some x =>
    Scan.guardThat (x != .infinity false)
    return x
  | none => Scan.refuse

/-- The floating-point numbers that have names. -/
def namedFloat : Scan Binary64 := do
  let negative := (← sign) == ['-']
  (do Scan.literal ['i', 'n', 'f']; return .infinity negative) <|>
    (do Scan.literal ['n', 'a', 'n']; return .nan)

/-- A number. -/
def scanNumber : Scan Toml := .float <$> (decimalFloat <|> namedFloat) <|> scanInteger

/-! ### Moments -/

/-- A date. -/
def date : Scan Unit := do
  let year ← Scan.number 4 4
  mark '-'
  let month ← Scan.number 2 2
  mark '-'
  let day ← Scan.number 2 2
  Scan.guardThat (Date.ofYmd? year month day).isSome

/-- Two digits of a number that is not greater than the given one. -/
def part (most : Nat) : Scan Unit := do
  let n ← Scan.number 2 2
  Scan.guardThat (n ≤ most)

/-- A time of day up to the given hour, of which the second may be a leap second. -/
def time (lastHour : Nat) : Scan Unit := do
  part lastHour
  mark ':'
  part 59
  mark ':'
  part 60
  (do mark '.'; let _ ← Scan.wholeNumber) <|> pure ()

/-- The offset of a time of day. -/
def offset : Scan Unit :=
  mark 'Z' <|> mark 'z' <|> do
    mark '+' <|> mark '-'
    part 23
    mark ':'
    part 59

/-- A date, a time or both. The times reach up to the given hour, and a time with a date may have an
offset. -/
def momentOf (lastHour : Nat) (offset : Scan Unit) : Scan Unit :=
  let zoned : Scan Unit := do
    mark 'T' <|> mark 't' <|> mark ' '
    time lastHour
    offset <|> pure ()
  (do date; zoned <|> pure ()) <|> time lastHour

/-- A moment among the values of a document. -/
def scanMoment : Scan Toml := do
  let cs ← Scan.written (momentOf 23 offset)
  return .moment (String.ofList cs)

end Toml

end EntityQuery
