import CallerFirst.Text.Blank
import CallerFirst.Text.Digit

/-!
# Whole numbers as text

Decimal digits may be of any script, and single underscores may stand between digits. A number may
have blanks around it, a sign, and in a base other than ten a mark of that base in front.
-/

namespace CallerFirst.Integer

/-- The most decimal digits with which a number is read or written. -/
def digitLimit : Nat := 4300

def isWritable (n : Int) : Bool :=
  n.natAbs < Nat.pow 10 digitLimit

def limitText (digits : Option Nat) : String :=
  "Exceeds the limit (" ++ toString digitLimit ++ " digits) for integer string conversion" ++
    digits.elim "" (fun n => ": value has " ++ toString n ++ " digits") ++
    "; use sys.set_int_max_str_digits() to increase the limit"

def digitValue? (base : Nat) (c : Char) : Option Nat :=
  let value :=
    if 'a' ≤ c && c ≤ 'z' then some (c.toNat - 'a'.toNat + 10)
    else if 'A' ≤ c && c ≤ 'Z' then some (c.toNat - 'A'.toNat + 10)
    else Text.digitValue? c
  value.filter (· < base)

def digitsFrom? (base : Nat) : (value : Nat) → List Char → Option Nat
  | value, [] => some value
  | value, '_' :: c :: rest => (digitValue? base c).bind fun d => digitsFrom? base (value * base + d) rest
  | value, c :: rest => (digitValue? base c).bind fun d => digitsFrom? base (value * base + d) rest

def digits? (base : Nat) : List Char → Option Nat
  | [] => none
  | c :: rest => (digitValue? base c).bind (digitsFrom? base · rest)

def baseMark? (base : Nat) : Option Char :=
  [(2, 'b'), (8, 'o'), (16, 'x')].lookup base

/-- A number without sign: digits, or a base mark, an optional underscore and digits. -/
def unsigned? (base : Nat) (text : List Char) : Option Nat :=
  match text with
  | '0' :: mark :: rest =>
    if (baseMark? base).any fun m => m == mark || m.toUpper == mark then
      match rest with
      | '_' :: rest => digits? base rest
      | rest => digits? base rest
    else digits? base text
  | text => digits? base text

def read? (base : Nat) (text : List Char) : Option Int :=
  match Text.dropEnds Text.isNumberBlank text with
  | '-' :: rest => (unsigned? base rest).map fun n => -n
  | '+' :: rest => (unsigned? base rest).map fun n => n
  | rest => (unsigned? base rest).map fun n => n

def digitCount (text : List Char) : Nat :=
  text.countP fun c => (Text.digitValue? c).isSome

end CallerFirst.Integer
