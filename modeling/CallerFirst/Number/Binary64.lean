import CallerFirst.Text.Blank
import CallerFirst.Text.Digit

/-!
# Double precision numbers

Numbers with 53 significant bits, read from decimals by rounding to the nearest, ties to even, and
written with the fewest digits that read back as the same number. All arithmetic is exact.
-/

namespace CallerFirst

/-- A double: `mantissa * 2 ^ exponent` with its sign, an infinity, or no number. -/
inductive Binary64 where
  | finite (negative : Bool) (mantissa : Nat) (exponent : Int)
  | infinite (negative : Bool)
  | notANumber
  deriving DecidableEq

namespace Binary64

/-- `numerator / denominator` to the nearest whole number, ties to even. -/
def roundDiv (numerator denominator : Nat) : Nat :=
  let q := numerator / denominator
  let r := numerator % denominator
  if 2 * r < denominator then q
  else if denominator < 2 * r then q + 1
  else if q % 2 = 0 then q else q + 1

def scaled (n base : Nat) (e : Int) : Nat × Nat :=
  if e ≥ 0 then (n * Nat.pow base e.toNat, 1) else (n, Nat.pow base (-e).toNat)

def dividedBy (numerator denominator base : Nat) (e : Int) : Nat × Nat :=
  if e ≥ 0 then (numerator, denominator * Nat.pow base e.toNat)
  else (numerator * Nat.pow base (-e).toNat, denominator)

def mantissaBound : Nat := 0x20000000000000

/-- The power of two whose multiples have 53 bits near a fraction; never below -1074. -/
def exponentFor (numerator denominator : Nat) : Int :=
  let guess : Int := (numerator.log2 : Int) - denominator.log2 - 52
  let fits (e : Int) : Bool :=
    let (n, d) := dividedBy numerator denominator 2 e
    n < d * mantissaBound
  max (if fits (guess - 1) then guess - 1 else if fits guess then guess else guess + 1) (-1074)

def ofFraction (negative : Bool) (numerator denominator : Nat) : Binary64 :=
  if numerator = 0 then .finite negative 0 0
  else
    let e := exponentFor numerator denominator
    let (n, d) := dividedBy numerator denominator 2 e
    let m := roundDiv n d
    let (m, e) := if m = mantissaBound then (mantissaBound / 2, e + 1) else (m, e)
    if e > 971 then .infinite negative else .finite negative m e

/-- The double nearest to `digits * 10 ^ exponent`. Powers far beyond those of doubles need not be
worked out. -/
def ofDecimal (negative : Bool) (digits : Nat) (exponent : Int) : Binary64 :=
  if digits = 0 ∨ exponent < -400 - digits.log2 then .finite negative 0 0
  else if exponent > 400 then .infinite negative
  else
    let (n, d) := scaled digits 10 exponent
    ofFraction negative n d

def digitsValue (digits : List Char) : Nat :=
  digits.foldl (fun n c => 10 * n + (c.toNat - '0'.toNat)) 0

def readSign : List Char → Bool × List Char
  | '-' :: rest => (true, rest)
  | '+' :: rest => (false, rest)
  | text => (false, text)

/-- The power of ten that a text ends with; without one it is zero. -/
def readPower? : List Char → Option Int
  | [] => some 0
  | mark :: rest =>
    let (negative, digits) := readSign rest
    if (mark == 'e' || mark == 'E') && !digits.isEmpty && digits.all Char.isDigit then
      some (if negative then -digitsValue digits else digitsValue digits)
    else none

/-- Reads a decimal: digits, a point with digits, and a power of ten, each of which may be missing.
-/
def ofText? (text : List Char) : Option Binary64 := do
  let (negative, text) := readSign text
  let whole := text.takeWhile Char.isDigit
  let (fraction, rest) :=
    match text.dropWhile Char.isDigit with
    | '.' :: rest => (rest.takeWhile Char.isDigit, rest.dropWhile Char.isDigit)
    | rest => ([], rest)
  let power ← readPower? rest
  if whole.isEmpty && fraction.isEmpty then none
  else some (ofDecimal negative (digitsValue (whole ++ fraction)) (power - fraction.length))

/-- The text without underscores, each of which has to stand between two digits. -/
def withoutGaps? : (afterDigit : Bool) → List Char → Option (List Char)
  | _, [] => some []
  | afterDigit, '_' :: c :: rest =>
    if afterDigit && c.isDigit then (withoutGaps? true rest).map (c :: ·) else none
  | _, c :: rest => if c == '_' then none else (withoutGaps? c.isDigit rest).map (c :: ·)

/-- Reads a decimal as people write it: blanks around it, digits of any script, underscores between
digits, or the words for infinity and for no number in any case. -/
def read? (text : List Char) : Option Binary64 := do
  let digit (c : Char) : Char := (Text.digitValue? c).elim c fun d => Char.ofNat ('0'.toNat + d)
  let text := (Text.dropEnds Text.isNumberBlank text).map digit
  let (negative, word) := readSign text
  match String.ofList (word.map Char.toLower) with
  | "inf" | "infinity" => some (.infinite negative)
  | "nan" => some .notANumber
  | _ => (withoutGaps? false text).bind ofText?

def toRat? : Binary64 → Option Rat
  | finite negative m e =>
    let (n, d) := scaled m 2 e
    let q : Rat := (n : Rat) / (d : Rat)
    some (if negative then -q else q)
  | _ => none

def isNegative : Binary64 → Bool
  | finite negative _ _ | infinite negative => negative
  | notANumber => false

def isZero : Binary64 → Bool
  | finite _ m _ => m = 0
  | _ => false

/-- The double nearest to an exact value; the sign counts only for zero. -/
def ofRat (negative : Bool) (q : Rat) : Binary64 :=
  ofFraction (if q = 0 then negative else q < 0) q.num.natAbs q.den

def add (x y : Binary64) : Binary64 :=
  match x.toRat?, y.toRat? with
  | some a, some b => ofRat (x.isNegative && y.isNegative) (a + b)
  | some _, none => y
  | none, some _ => x
  | none, none => if x = y then x else .notANumber

def mul (x y : Binary64) : Binary64 :=
  let negative := x.isNegative != y.isNegative
  match x.toRat?, y.toRat? with
  | some a, some b => ofRat negative (a * b)
  | _, _ =>
    if x = .notANumber || y = .notANumber || x.isZero || y.isZero then .notANumber
    else .infinite negative

def ofInt? (n : Int) : Option Binary64 :=
  match ofFraction (n < 0) n.natAbs 1 with
  | .infinite _ => none
  | x => some x

def neg : Binary64 → Binary64
  | finite negative m e => .finite (!negative) m e
  | infinite negative => .infinite (!negative)
  | notANumber => .notANumber

/-- Number of decimal digits in front of the point of a fraction, at least about right from above.
-/
def magnitude (numerator denominator : Nat) : Int :=
  let digits (n : Nat) : Int := (Nat.toDigits 10 n).length
  let guess := digits numerator - digits denominator
  let (n, d) := dividedBy numerator denominator 10 guess
  if n < d then guess else guess + 1

/-- Digits and power of ten of the decimal with `count` digits nearest to a fraction among those
that read back as `x`. -/
def withDigits? (x : Binary64) (numerator denominator : Nat) (count : Nat) : Option (Nat × Int) :=
  let e := magnitude numerator denominator - count
  let (n, d) := dividedBy numerator denominator 10 e
  let low := n / d
  let candidates := if roundDiv n d = low then [low, low + 1] else [low + 1, low]
  (candidates.find? fun c => ofDecimal false c e = x).map (·, e)

/-- The fewest digits that read back, with their power of ten. -/
def shortest (m : Nat) (exponent : Int) : Nat × Int :=
  let (n, d) := scaled m 2 exponent
  ((List.range 17).findSome? fun i => withDigits? (.finite false m exponent) n d (i + 1)).getD (n, 0)

def trimZeros : Nat → Nat × Int → Nat × Int
  | 0, x => x
  | fuel + 1, (n, e) => if n ≠ 0 ∧ n % 10 = 0 then trimZeros fuel (n / 10, e + 1) else (n, e)

/-- A decimal as text: positional from 0.0001 up to 10^16, else with a power of ten. -/
def renderDecimal (n : Nat) (e : Int) : String :=
  let digits := Nat.toDigits 10 n
  let point : Int := digits.length + e
  let zeros (k : Nat) : List Char := List.replicate k '0'
  if -4 < point && point ≤ 16 then
    String.ofList
      (if e ≥ 0 then digits ++ zeros e.toNat ++ ['.', '0']
      else if point > 0 then digits.take point.toNat ++ '.' :: digits.drop point.toNat
      else '0' :: '.' :: zeros (-point).toNat ++ digits)
  else
    let power := (point - 1).natAbs
    let mark := if point - 1 < 0 then "e-" else "e+"
    let fraction := if digits.length > 1 then '.' :: digits.drop 1 else []
    String.ofList (digits.take 1 ++ fraction) ++ mark ++
      (if power < 10 then "0" else "") ++ toString power

def render : Binary64 → String
  | notANumber => "nan"
  | infinite negative => if negative then "-inf" else "inf"
  | finite negative m e =>
    let sign := if negative then "-" else ""
    if m = 0 then sign ++ "0.0"
    else
      let (n, p) := trimZeros 400 (shortest m e)
      sign ++ renderDecimal n p

end Binary64

end CallerFirst
