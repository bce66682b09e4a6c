import CallerFirst.Text.Split
import CallerFirst.Yaml.Node
import CallerFirst.Yaml.Timestamp

/-!
# Scalars

`implicitTag` says what a plain scalar is taken for: a truth value, nothing, a number, a date, or else
a text. `scalarValue` reads a text by a tag, also one that was given to it.
-/

namespace CallerFirst.Yaml

/-! ### What a scalar looks like -/

def spellings (word : String) : List String :=
  match word.toList with
  | [] => []
  | c :: rest =>
    [word, String.ofList (c.toUpper :: rest), String.ofList (word.toList.map Char.toUpper)]

def nullWords : List String := "~" :: spellings "null"

def trueWords : List String := ["yes", "true", "on"]

def falseWords : List String := ["no", "false", "off"]

def boolWords : List String := (trueWords ++ falseWords).flatMap spellings

def isDigitOrGap (c : Char) : Bool :=
  c.isDigit || c == '_'

def isSpelled (isDigit : Char → Bool) (text : List Char) : Bool :=
  !text.isEmpty && text.all fun c => isDigit c || c == '_'

def isOctal (c : Char) : Bool := '0' ≤ c && c ≤ '7'

def isHexadecimal (c : Char) : Bool :=
  c.isDigit || ('a' ≤ c && c ≤ 'f') || ('A' ≤ c && c ≤ 'F')

/-- A place of a number in base sixty: one digit, or two below sixty. -/
def isSixtieth : List Char → Bool
  | [c] => c.isDigit
  | [c, d] => '0' ≤ c && c ≤ '5' && d.isDigit
  | _ => false

/-- A number in base ten, or in base sixty with its places between colons. -/
def isDecimal (text : List Char) : Bool :=
  match Text.split ':' text with
  | first :: places => isSpelled Char.isDigit first && places.all isSixtieth
  | [] => false

/-- A whole number without sign: in base two, sixteen or eight behind a zero, else in base ten. -/
def isUnsigned : List Char → Bool
  | ['0'] => true
  | '0' :: 'b' :: digits => isSpelled (fun c => c == '0' || c == '1') digits
  | '0' :: 'x' :: digits => isSpelled isHexadecimal digits
  | '0' :: digits => isSpelled isOctal digits
  | '_' :: _ => false
  | text => isDecimal text

def isInteger (text : List Char) : Bool :=
  isUnsigned (Binary64.readSign text).2

def isPower : List Char → Bool
  | [] => true
  | mark :: sign :: digits =>
    (mark == 'e' || mark == 'E') && (sign == '+' || sign == '-') && !digits.isEmpty &&
      digits.all Char.isDigit
  | _ => false

/-- A fraction with its point; only one that starts with a digit may have a sign. -/
def isFraction (text : List Char) : Bool :=
  let digits := (Binary64.readSign text).2
  match digits.takeWhile isDigitOrGap, digits.dropWhile isDigitOrGap with
  | first :: _, '.' :: rest => first.isDigit && isPower (rest.dropWhile isDigitOrGap)
  | [], '.' :: first :: rest =>
    digits == text && first.isDigit && isPower (rest.dropWhile isDigitOrGap)
  | _, _ => false

/-- A fraction in base sixty: places between colons, and a point with digits of base ten. -/
def isSixtiethFraction (text : List Char) : Bool :=
  let digits := (Binary64.readSign text).2
  match Text.split ':' (digits.takeWhile (· != '.')), digits.dropWhile (· != '.') with
  | first :: place :: places, _ :: rest =>
    first.head?.any Char.isDigit && first.all isDigitOrGap && (place :: places).all isSixtieth &&
      rest.all isDigitOrGap
  | _, _ => false

def isFloat (text : List Char) : Bool :=
  let unsigned := String.ofList (Binary64.readSign text).2
  [".inf", ".Inf", ".INF"].contains unsigned || [".nan", ".NaN", ".NAN"].contains (String.ofList text) ||
    isFraction text || isSixtiethFraction text

/-- The tag of a scalar by its text alone. A last line break does not count. -/
def implicitTag (chars : List Char) : String :=
  let chars := if chars.length > 1 && chars.getLast? == some '\n' then chars.dropLast else chars
  let text := String.ofList chars
  if text.isEmpty || nullWords.contains text then Tag.null
  else if boolWords.contains text then Tag.bool
  else if isFloat chars then Tag.float
  else if isInteger chars then Tag.int
  else if isTimestamp chars then Tag.timestamp
  else if text == "<<" then Tag.merge
  else if text == "=" then Tag.value
  else Tag.text

/-! ### Values -/

def integerIn (base : Nat) (text : List Char) : Except Fault Int :=
  match Integer.read? base text with
  | none => .error (.notInteger base text)
  | some n =>
    if base == 10 && Integer.digitLimit < Integer.digitCount text then
      .error (.longInteger (Integer.digitCount text))
    else .ok n

def magnitude : List Char → Except Fault Int
  | [] => .error .emptyNumber
  | ['0'] => .ok 0
  | '0' :: 'b' :: digits => integerIn 2 digits
  | '0' :: 'x' :: digits => integerIn 16 digits
  | '0' :: digits => integerIn 8 ('0' :: digits)
  | text =>
    if text.contains ':' then do
      let places ← (Text.split ':' text).mapM (integerIn 10)
      return places.foldl (fun n place => 60 * n + place) 0
    else integerIn 10 text

/-- A whole number; underscores do not count. -/
def intValue (text : List Char) : Except Fault Value :=
  match text.filter (· != '_') with
  | '-' :: rest => do return .int (-(← magnitude rest))
  | '+' :: rest => do return .int (← magnitude rest)
  | rest => do return .int (← magnitude rest)

def floatOf (text : List Char) : Except Fault Binary64 :=
  (Binary64.read? text).elim (.error (.notFloat text)) .ok

/-- The sum of places in base sixty, the last one first, rounded at each step. -/
def sumPlaces (sum : Binary64) (base : Nat) : List Binary64 → Except Fault Binary64
  | [] => .ok sum
  | place :: rest =>
    match Binary64.ofInt? base with
    | some weight => sumPlaces (sum.add (place.mul weight)) (60 * base) rest
    | none => .error .floatOverflow

def floatMagnitude (text : List Char) : Except Fault Binary64 :=
  if String.ofList text == ".inf" then .ok (.infinite false)
  else if String.ofList text == ".nan" then .ok .notANumber
  else if text.contains ':' then do
    let places ← (Text.split ':' text).mapM floatOf
    sumPlaces (.finite false 0 0) 1 places.reverse
  else floatOf text

/-- A fraction; underscores and case do not count. -/
def floatValue (text : List Char) : Except Fault Value :=
  match (text.filter (· != '_')).map Char.toLower with
  | [] => .error .emptyNumber
  | '-' :: rest => do return .float (← floatMagnitude rest).neg
  | '+' :: rest => do return .float (← floatMagnitude rest)
  | rest => do return .float (← floatMagnitude rest)

def boolValue (text : List Char) : Except Fault Value :=
  let word := String.ofList (text.map Char.toLower)
  if trueWords.contains word then .ok (.bool true)
  else if falseWords.contains word then .ok (.bool false)
  else .error .notBoolean

def sextet? (c : Char) : Option Nat :=
  if 'A' ≤ c && c ≤ 'Z' then some (c.toNat - 'A'.toNat)
  else if 'a' ≤ c && c ≤ 'z' then some (c.toNat - 'a'.toNat + 26)
  else if c.isDigit then some (c.toNat - '0'.toNat + 52)
  else if c == '+' then some 62
  else if c == '/' then some 63
  else none

/-- Bytes of base 64. `held` are the bits of the `count` characters since the last full group, and
`pads` the marks for missing ones; other characters are passed over. -/
def base64? : (count held pads : Nat) → List Char → Option (List UInt8)
  | count, _, _, [] => if count = 0 then some [] else none
  | count, held, pads, c :: rest =>
    if c == '=' then
      if 2 ≤ count && 4 ≤ count + pads + 1 then some [] else base64? count held (pads + 1) rest
    else
      match sextet? c with
      | none => base64? count held pads rest
      | some n =>
        let byte (m : Nat) : List UInt8 := [m.toUInt8]
        match count with
        | 0 => base64? 1 n 0 rest
        | 1 => (base64? 2 (n % 16) 0 rest).map (byte (held * 4 + n / 16) ++ ·)
        | 2 => (base64? 3 (n % 4) 0 rest).map (byte (held * 16 + n / 4) ++ ·)
        | _ => (base64? 0 0 0 rest).map (byte (held * 64 + n) ++ ·)

/-- Bytes; their text is ASCII. -/
def binaryValue (text : List Char) : Except Fault Value :=
  if text.all (·.toNat < 0x80) then
    (base64? 0 0 0 text).elim (.error .malformed) fun content => .ok (.bytes content)
  else .error .malformed

def textValue (content : Content) : Value :=
  let s := String.ofList content.text
  if content.halves then .unpaired s else .text s

def scalarValue (tag : String) (content : Content) : Except Fault Value :=
  let text := content.text
  if tag == Tag.text then .ok (textValue content)
  else if tag == Tag.null then .ok .null
  else if tag == Tag.bool then boolValue text
  else if tag == Tag.int then intValue text
  else if tag == Tag.float then floatValue text
  else if tag == Tag.timestamp then timestampValue text
  else if tag == Tag.binary then binaryValue text
  else .error .malformed

end CallerFirst.Yaml
