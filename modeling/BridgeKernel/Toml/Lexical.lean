import BridgeKernel.Toml.Node
import BridgeKernel.Toml.Scan

/-!
# Words of a settings text

Blanks, comments, keys, and the values that hold no others: texts, numbers, truth values and
moments.
-/

namespace BridgeKernel.Toml

open Scan

/-! ## Blanks and comments -/

/-- A blank within a line. -/
def isBlank (c : Char) : Bool := c = ' ' || c = '\t'

/-- Not a control character, the tab excepted. -/
def isPlain (c : Char) : Bool := c = '\t' || (0x20 ≤ c.toNat && c.toNat ≠ 0x7f)

/-- Blanks within a line. -/
def blanks : Scan Unit := do let _ ← span isBlank

/-- The end of a line. -/
def newline : Scan Unit := exactly ['\n'] <|> exactly ['\r', '\n']

/-- A comment, up to the end of its line. -/
def comment : Scan Unit := do
  exactly ['#']
  let _ ← span isPlain

/-- What may stand after the content of a line. -/
def lineEnd : Scan Unit := do
  blanks
  let _ ← maybe comment
  newline <|> atEnd

/-- Blanks, comments and ends of lines, where lines do not matter. -/
def filler : Scan Unit := do
  let _ ← many ((do let _ ← char isBlank) <|> (do let _ ← maybe comment; newline))

/-! ## Digits -/

/-- A hexadecimal digit, in either case. -/
def isHexDigit (c : Char) : Bool := c.isDigit || ('a' ≤ c && c ≤ 'f') || ('A' ≤ c && c ≤ 'F')

/-- The value of a hexadecimal digit. -/
def digitValue (c : Char) : Nat :=
  if c.isDigit then c.toNat - '0'.toNat else c.toLower.toNat - 'a'.toNat + 10

/-- The number that digits spell in a base. -/
def ofDigits (base : Nat) (digits : List Char) : Nat :=
  digits.foldl (fun n c => base * n + digitValue c) 0

/-! ## Texts -/

/-- The character written by so many hexadecimal digits. -/
def codePoint (count : Nat) : Scan Char := do
  let n := ofDigits 16 (← chars isHexDigit count)
  ofOption (if n.isValidChar then some (Char.ofNat n) else none)

/-- The character that stands after a backslash. -/
def escaped : Scan Char := do
  exactly ['\\']
  match ← char fun _ => true with
  | 'b' => return '\x08'
  | 't' => return '\t'
  | 'n' => return '\n'
  | 'f' => return '\x0c'
  | 'r' => return '\r'
  | '"' => return '"'
  | '\\' => return '\\'
  | 'u' => codePoint 4
  | 'U' => codePoint 8
  | _ => failure

/-- A backslash at the end of a line, with the blanks and line ends that it swallows. -/
def continuation : Scan Unit := do
  exactly ['\\']
  blanks
  newline
  let _ ← many ((do let _ ← char isBlank) <|> newline)

/-- A text on one line, with escapes. -/
def basicText : Scan (List Char) := do
  exactly ['"']
  let content ← many (char (fun c => isPlain c && c ≠ '"' && c ≠ '\\') <|> escaped)
  exactly ['"']
  return content

/-- A text on one line, without escapes. -/
def literalText : Scan (List Char) := do
  exactly ['\'']
  let content ← span fun c => isPlain c && c ≠ '\''
  exactly ['\'']
  return content

/-- One or two quotes that do not close a text of several lines. -/
def fewQuotes (quote : Char) : Scan (List Char) := do
  let quotes ← written (do exactly [quote]; maybe (exactly [quote]))
  ahead (char (· ≠ quote))
  return quotes.1

/-- The three quotes that close a text of several lines, after up to two that belong to it. -/
def closingQuotes (quote : Char) : Scan (List Char) := do
  let quotes ← span (· = quote)
  ofOption (if 3 ≤ quotes.length ∧ quotes.length ≤ 5 then some (quotes.drop 3) else none)

/-- A text of several lines made of given pieces. A line end straight after the opening quotes does
not belong to it. -/
def longText (quote : Char) (piece : Scan (List Char)) : Scan (List Char) := do
  exactly [quote, quote, quote]
  let _ ← maybe newline
  let pieces ← many ((do newline; return ['\n']) <|> fewQuotes quote <|> piece)
  return pieces.flatten ++ (← closingQuotes quote)

/-- A text of several lines, with escapes. -/
def longBasicText : Scan (List Char) :=
  longText '"' <|
    (do return [← char fun c => isPlain c && c ≠ '"' && c ≠ '\\']) <|>
    (do continuation; return []) <|>
    (do return [← escaped])

/-- A text of several lines, without escapes. -/
def longLiteralText : Scan (List Char) :=
  longText '\'' (do return [← char fun c => isPlain c && c ≠ '\''])

/-- A text. -/
def text : Scan String :=
  String.ofList <$> (longBasicText <|> basicText <|> longLiteralText <|> literalText)

/-! ## Keys -/

/-- A key without quotes. -/
def bareKey : Scan (List Char) := do
  let key ← span fun c => c.isAlphanum || c = '_' || c = '-'
  ofOption (if key.isEmpty then none else some key)

/-- One part of a key. -/
def keyPart : Scan String := do
  blanks
  let part ← basicText <|> literalText <|> bareKey
  blanks
  return String.ofList part

/-- Parts of the longest key, and levels of the deepest value. -/
def maxDepth : Nat := 79

/-- A key: its parts before the last, and the last. -/
def key : Scan (List String × String) := do
  let parts ← separated keyPart (exactly ['.'])
  match parts.reverse with
  | last :: before => if parts.length ≤ maxDepth then return (before.reverse, last) else failure
  | [] => failure

/-! ## Numbers -/

/-- A sign, if there is one. -/
def sign : Scan (Option Char) := maybe (char fun c => c = '+' || c = '-')

/-- Digits of a class, with single underscores between them. -/
def digits (p : Char → Bool) : Scan (List Char) := do
  let first ← char p
  let more ← many (do let _ ← maybe (exactly ['_']); char p)
  return first :: more

/-- Decimal digits without a needless zero in front. -/
def wholeDigits : Scan (List Char) := do
  let first ← char Char.isDigit
  if first = '0' then return [first]
  let more ← many (do let _ ← maybe (exactly ['_']); char Char.isDigit)
  return first :: more

/-- A whole number, if it is a word with a sign. -/
def signedWord (n : Int) : Scan Int :=
  ofOption (if Int64.minValue.toInt ≤ n ∧ n ≤ Int64.maxValue.toInt then some n else none)

/-- A whole number with a mark for its base. -/
def based (mark : Char) (base : Nat) : Scan Int := do
  exactly ['0', mark]
  signedWord (ofDigits base (← digits fun c => isHexDigit c && digitValue c < base))

/-- A whole number. -/
def integer : Scan Int :=
  based 'x' 16 <|> based 'o' 8 <|> based 'b' 2 <|> do
    let negative := (← sign) = some '-'
    let n := (ofDigits 10 (← wholeDigits) : Int)
    signedWord (if negative then -n else n)

/-- The exponent of a number. -/
def exponent : Scan Int := do
  let _ ← char fun c => c = 'e' || c = 'E'
  let negative := (← sign) = some '-'
  let n := (ofDigits 10 (← digits Char.isDigit) : Int)
  return if negative then -n else n

/-- Whether `m · 10 ^ e` is nearer to infinity than to any number of double precision: it is at
least halfway from the greatest one to the next power of two. -/
def exceedsDouble (m : Nat) (e : Int) : Bool :=
  let bound := Nat.pow 2 1024 - Nat.pow 2 970
  let places : Int := (Nat.toDigits 10 m).length + e
  if m = 0 || places < 300 then false
  else if 310 < places then true
  else if 0 ≤ e then decide (bound ≤ m * Nat.pow 10 e.toNat)
  else decide (bound * Nat.pow 10 (-e).toNat ≤ m)

/-- A number with a fraction or an exponent, or a name for no number. -/
def decimal : Scan Unit :=
  (do
    let negative := (← sign) = some '-'
    let whole ← wholeDigits
    let fraction ← maybe (do exactly ['.']; digits Char.isDigit)
    let power ← if fraction.isSome then maybe exponent else some <$> exponent
    let places := fraction.getD []
    if !negative && exceedsDouble (ofDigits 10 (whole ++ places)) (power.getD 0 - places.length) then
      failure) <|>
  (do
    let _ ← sign
    exactly "inf".toList <|> exactly "nan".toList)

/-! ## Moments -/

/-- A number of two digits, not above a bound. -/
def twoDigits (max : Nat) : Scan Nat := do
  let n := ofDigits 10 (← chars Char.isDigit 2)
  ofOption (if n ≤ max then some n else none)

/-- The number of days of a month. -/
def daysIn (year month : Nat) : Nat :=
  if month = 2 then if year % 4 = 0 ∧ (year % 100 ≠ 0 ∨ year % 400 = 0) then 29 else 28
  else if month ∈ [4, 6, 9, 11] then 30
  else 31

/-- A date. -/
def date : Scan Unit := do
  let year := ofDigits 10 (← chars Char.isDigit 4)
  exactly ['-']
  let month ← twoDigits 12
  exactly ['-']
  let day ← twoDigits 31
  ofOption (if 1 ≤ month ∧ 1 ≤ day ∧ day ≤ daysIn year month then some () else none)

/-- A time of day, with room for a leap second. -/
def timeOfDay : Scan Unit := do
  let _ ← twoDigits 23
  exactly [':']
  let _ ← twoDigits 59
  exactly [':']
  let _ ← twoDigits 60
  let _ ← maybe (do exactly ['.']; many1 (char Char.isDigit))

/-- The distance from universal time. -/
def offset : Scan Unit :=
  (do let _ ← char fun c => c = 'Z' || c = 'z') <|>
  (do
    let _ ← char fun c => c = '+' || c = '-'
    let _ ← twoDigits 23
    exactly [':']
    let _ ← twoDigits 59)

/-- A date, a time of day, or both. -/
def moment : Scan Unit :=
  (do
    date
    let _ ← maybe (do
      let _ ← char fun c => c = 'T' || c = 't' || c = ' '
      timeOfDay
      maybe offset)) <|>
  timeOfDay

/-- A value that holds no others. -/
def scalar : Scan Node :=
  (Node.text <$> text) <|>
  (do exactly "true".toList; return .boolean true) <|>
  (do exactly "false".toList; return .boolean false) <|>
  (do return .moment (← written moment).1) <|>
  (do return .decimal (← written decimal).1) <|>
  (Node.integer <$> integer)

end BridgeKernel.Toml
