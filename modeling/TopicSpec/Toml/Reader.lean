import TopicSpec.Double.Decimal
import TopicSpec.Scan.Digits
import TopicSpec.Toml.Value

/-! # Reading TOML

The grammar of documents. A document that does not match it has no value; where it fails is not
told. -/

namespace TopicSpec.Toml
open Scan
set_option autoImplicit false

/-! ## Blanks and comments -/

def isBlank (c : Char) : Bool := c == ' ' || c == '\t'

def isPlain (c : Char) : Bool := c == '\t' || (32 ≤ c.toNat && c.toNat ≠ 127)

def blanks : Scan Unit := do
  let _ ← run isBlank

def lineEnd : Scan String := oneMark "\n" ["\r\n"]

def comment : Scan Unit := do
  literal "#"
  let _ ← run isPlain

def commentOrLineEnd : Scan Unit := do
  orElse comment (lineEnd >>= fun _ => pure ())
  blanks

def trivia : Scan Unit := do
  blanks
  let _ ← many (optional commentOrLineEnd)

def pieces (piece : Scan (List Char)) : Scan (List Char) := do
  return (← many (optional piece)).flatten

/-- How deep arrays and tables may stand in each other, and how many parts a key may have. -/
def depthLimit : Nat := 80

/-! ## Strings -/

def codePoint (digits : Nat) : Scan (List Char) := do
  return [← given (ofCodePoint? (ofBase 16 (← exactly isHexDigit digits)))]

def escape : Scan (List Char) := do
  literal "\\"
  match ← oneOf fun _ => true with
  | 'b' => return [Char.ofNat 8]
  | 't' => return ['\t']
  | 'n' => return ['\n']
  | 'f' => return [Char.ofNat 12]
  | 'r' => return ['\r']
  | 'e' => return [Char.ofNat 27]
  | '"' => return ['"']
  | '\\' => return ['\\']
  | 'x' => codePoint 2
  | 'u' => codePoint 4
  | 'U' => codePoint 8
  | _ => fail

def basicRun : Scan (List Char) := someRun fun c => isPlain c && c != '"' && c != '\\'

def literalRun : Scan (List Char) := someRun fun c => isPlain c && c != '\''

def basicString : Scan String := do
  literal "\""
  let text ← pieces (orElse basicRun escape)
  literal "\""
  return String.ofList text

def literalString : Scan String := do
  literal "'"
  let text ← pieces literalRun
  literal "'"
  return String.ofList text

/-- A backslash at the end of a line, which takes all blanks and line ends behind it away. -/
def joinedLine : Scan (List Char) := do
  literal "\\"
  blanks
  let _ ← lineEnd
  let _ ← many (optional (orElse (someRun isBlank) ((·.toList) <$> lineEnd)))
  return []

/-- One or two quotes, with no third one behind them. -/
def innerQuotes (quote : Char) : Scan (List Char) := do
  let quotes ← someRun (· == quote)
  if quotes.length < 3 then return quotes else fail

/-- The three quotes at the end of a string, and up to two more that belong to it. -/
def closingQuotes (quote : Char) : Scan (List Char) := do
  let quotes ← someRun (· == quote)
  if 3 ≤ quotes.length && quotes.length ≤ 5 then return quotes.drop 3 else fail

/-- A string on many lines; a line end right behind the opening quotes does not belong to it. -/
def multiline (quote : Char) (opening : String) (piece : Scan (List Char)) : Scan String := do
  literal opening
  let _ ← optional lineEnd
  let line := (·.toList) <$> lineEnd
  let text ← pieces (firstOf piece [line, innerQuotes quote])
  return String.ofList (text ++ (← closingQuotes quote))

def string : Scan String :=
  firstOf (multiline '"' "\"\"\"" (firstOf basicRun [joinedLine, escape]))
    [multiline '\'' "'''" literalRun, basicString, literalString]

/-! ## Keys -/

def isBareKeyChar (c : Char) : Bool := c.isAlphanum || c == '_' || c == '-'

def simpleKey : Scan String :=
  firstOf (String.ofList <$> someRun isBareKeyChar) [basicString, literalString]

def furtherPart : Scan String := do
  blanks
  literal "."
  blanks
  simpleKey

def key : Scan Key := do
  let first ← simpleKey
  let more ← many (optional furtherPart)
  if depthLimit ≤ more.length then fail
  match more.getLast? with
  | none => return ⟨[], first⟩
  | some last => return ⟨first :: more.dropLast, last⟩

/-! ## Numbers -/

/-- Digits, with single underscores among them, which are left out. -/
def digits (accepts : Char → Bool) : Scan (List Char) := do
  let first ← someRun accepts
  let more ← many (optional (literal "_" >>= fun _ => someRun accepts))
  return first ++ more.flatten

def sign : Scan (List Char) := do
  return (← optional (oneOf fun c => c == '+' || c == '-')).toList

def wholeDigits : Scan (List Char) := do
  match ← digits Char.isDigit with
  | '0' :: _ :: _ => fail
  | ds => return ds

def based (mark : String) (base : Nat) (accepts : Char → Bool) : Scan Value := do
  literal mark
  return .integer (ofBase base (← digits accepts))

def decimal : Scan Value := do
  let sign ← sign
  let n := ofBase 10 (← wholeDigits)
  return .integer (if sign = ['-'] then -n else n)

def isSmall (n : Int) : Bool := -(Nat.pow 2 127 : Int) ≤ n && n < (Nat.pow 2 128 : Int)

def integer : Scan Value := do
  let value ← firstOf (based "0x" 16 isHexDigit)
    [based "0o" 8 fun c => '0' ≤ c && c ≤ '7', based "0b" 2 fun c => c == '0' || c == '1', decimal]
  match value with
  | .integer n => return if isSmall n then value else .overflow
  | _ => return value

def fractionDigits : Scan (List Char) := do
  literal "."
  return '.' :: (← digits Char.isDigit)

def exponentDigits : Scan (List Char) := do
  let _ ← oneOf fun c => c == 'e' || c == 'E'
  let sign ← sign
  return 'e' :: sign ++ (← digits Char.isDigit)

def floatDigits : Scan (List Char) := do
  let whole ← wholeDigits
  match ← optional fractionDigits with
  | some fraction =>
    let exponent ← optional exponentDigits
    return whole ++ fraction ++ exponent.getD []
  | none => return whole ++ (← exponentDigits)

def float : Scan Value := do
  let sign ← sign
  let word ← optional (oneMark "inf" ["nan"])
  match word with
  | some word => return .float (← given (Double.ofText? (sign ++ word.toList)))
  | none =>
    let x ← given (Double.ofText? (sign ++ (← floatDigits)))
    return if x.isFinite then .float x else .overflow

def boolean : Scan Value := do
  return .boolean ((← oneMark "true" ["false"]) = "true")

/-! ## Dates and times -/

def part (count low high : Nat) : Scan (List Char) := do
  let text ← exactly Char.isDigit count
  let n := ofBase 10 text
  if low ≤ n && n ≤ high then return text else fail

def daysOfMonth (year month : Nat) : Nat :=
  if month = 2 then
    if year % 4 = 0 && (year % 100 ≠ 0 || year % 400 = 0) then 29 else 28
  else if [4, 6, 9, 11].contains month then 30
  else 31

def date : Scan (List Char) := do
  let year ← part 4 0 9999
  literal "-"
  let month ← part 2 1 12
  literal "-"
  let day ← part 2 1 (daysOfMonth (ofBase 10 year) (ofBase 10 month))
  return year ++ '-' :: month ++ '-' :: day

/-- The fraction of a second, to nine places and without zeros at the end. -/
def secondFraction : Scan (List Char) := do
  literal "."
  let places := (← someRun Char.isDigit).take 9
  let kept := (places.reverse.dropWhile (· == '0')).reverse
  return if kept.isEmpty then [] else '.' :: kept

def seconds : Scan (List Char) := do
  literal ":"
  let second ← part 2 0 60
  let fraction ← optional secondFraction
  return ':' :: second ++ fraction.getD []

/-- A time of day; the seconds may be missing and are zero then. -/
def time : Scan (List Char) := do
  let hour ← part 2 0 23
  literal ":"
  let minute ← part 2 0 59
  let seconds ← optional seconds
  return hour ++ ':' :: minute ++ seconds.getD ":00".toList

def timeOffset : Scan (List Char) := do
  let sign ← oneOf fun c => c == '+' || c == '-'
  let hour ← part 2 0 23
  literal ":"
  let minute ← part 2 0 59
  let text := hour ++ ':' :: minute
  return if text = "00:00".toList then '+' :: text else sign :: text

def utcMark : Scan (List Char) := do
  let _ ← oneOf fun c => c == 'Z' || c == 'z'
  return ['Z']

def timeOfDate : Scan (List Char) := do
  let _ ← oneOf fun c => c == 'T' || c == 't' || c == ' '
  let time ← time
  let offset ← optional (orElse utcMark timeOffset)
  return 'T' :: time ++ offset.getD []

def dateWithTime : Scan (List Char) := do
  let date ← date
  let time ← optional timeOfDate
  return date ++ time.getD []

def datetime : Scan Value := do
  return .datetime (String.ofList (← orElse dateWithTime time))

/-! ## Values -/

def scalar : Scan Value :=
  firstOf (Value.string <$> string) [boolean, datetime, float, integer]

/-- Items with commas between them and perhaps one behind them, in brackets. -/
def bracketed {α : Type} (opening closing : String) (item : Scan α) : Scan (List α) := do
  literal opening
  trivia
  let first ← optional item
  let items ←
    match first with
    | none => pure []
    | some first =>
      let more ← many <| optional do
        trivia
        literal ","
        trivia
        item
      trivia
      let _ ← optional (literal ",")
      trivia
      pure (first :: more)
  literal closing
  return items

def entry (gap : Scan Unit) (value : Scan Value) : Scan (Key × Value) := do
  let key ← key
  gap
  literal "="
  gap
  return (key, ← value)

def valueWithin : Nat → Scan Value
  | 0 => scalar
  | depth + 1 =>
    firstOf scalar
      [Value.array <$> bracketed "[" "]" (valueWithin depth),
       bracketed "\x7b" "\x7d" (entry trivia (valueWithin depth)) >>= fun entries =>
         given (inlineTable entries)]

def value : Scan Value := valueWithin depthLimit

/-! ## Documents -/

def itemHeader : Scan Statement := do
  literal "[["
  blanks
  let key ← key
  blanks
  literal "]]"
  return .itemHeader key

def header : Scan Statement := do
  literal "["
  blanks
  let key ← key
  blanks
  literal "]"
  return .header key

def statement : Scan Statement :=
  firstOf itemHeader [header, (fun (key, value) => .entry key value) <$> entry blanks value]

def line : Scan (Option Statement) := do
  blanks
  let statement ← optional statement
  blanks
  let _ ← optional comment
  return statement

def document : Scan (List Statement) := do
  let _ ← optional (oneOf (·.toNat == 0xfeff))
  let first ← line
  let more ← many (optional (lineEnd >>= fun _ => line))
  return (first :: more).filterMap id

def parse? (text : String) : Option Value :=
  match document.whole text.toList with
  | .ok statements => Table.toValue <$> perform [] statements (.header, [])
  | .error _ => none

end TopicSpec.Toml
