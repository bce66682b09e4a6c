/-!
# Hexadecimal digits
-/

namespace CallerFirst.Text

/-- A number in lower case digits, with zeros in front up to a width. -/
def hexDigits (width n : Nat) : List Char :=
  let digits := Nat.toDigits 16 n
  List.replicate (width - digits.length) '0' ++ digits

def hexValue? (digits : List Char) : Option Nat :=
  digits.foldlM (fun n c =>
    let c := c.toLower
    if c.isDigit then some (16 * n + (c.toNat - '0'.toNat))
    else if 'a' ≤ c && c ≤ 'f' then some (16 * n + (c.toNat - 'a'.toNat + 10))
    else none) 0

end CallerFirst.Text
