import CallerFirst.Text.Ranges

/-!
# Blank characters

The blank characters of Unicode together with the four information separators. Trimming a text and
the gaps between tokens both use this class; around a number the separators do not count.
-/

namespace CallerFirst.Text

def blanks : Ranges := [
  (0x9, 0xd), (0x1c, 0x20), (0x85, 0x85), (0xa0, 0xa0), (0x1680, 0x1680), (0x2000, 0x200a),
  (0x2028, 0x2029), (0x202f, 0x202f), (0x205f, 0x205f), (0x3000, 0x3000)]

def isBlank (c : Char) : Bool :=
  blanks.contains c

/-- Blank characters that may stand around a number: all but the information separators. -/
def isNumberBlank (c : Char) : Bool :=
  isBlank c && !(0x1c ≤ c.toNat && c.toNat ≤ 0x1f)

def dropEnds (p : Char → Bool) (text : List Char) : List Char :=
  ((text.dropWhile p).reverse.dropWhile p).reverse

def trim (text : List Char) : List Char :=
  dropEnds isBlank text

def strip (text : String) : String :=
  String.ofList (trim text.toList)

end CallerFirst.Text
