/-!
# Halves of surrogate pairs

Texts may hold half of a surrogate pair, which is no character. Such a half is kept as the character
that lies `0xc0000` above it, in a plane where nothing is assigned.
-/

namespace CallerFirst.Text

/-- Codes of the halves that come first in a pair. -/
def isHighHalf (code : Nat) : Bool := 0xd800 ≤ code && code < 0xdc00

/-- Codes of the halves that come second. -/
def isLowHalf (code : Nat) : Bool := 0xdc00 ≤ code && code < 0xe000

def isHalf (code : Nat) : Bool := isHighHalf code || isLowHalf code

def halfOffset : Nat := 0xc0000

/-- The character of a code, which may be half of a pair. -/
def charOfCode (code : Nat) : Char :=
  if isHalf code then Char.ofNat (halfOffset + code) else Char.ofNat code

def halfCode? (c : Char) : Option Nat :=
  let code := c.toNat - halfOffset
  if isHalf code then some code else none

def codeOf (c : Char) : Nat :=
  (halfCode? c).getD c.toNat

/-- A half stands in the text, so that it has no bytes. -/
def holdsHalf (text : String) : Bool :=
  text.toList.any fun c => (halfCode? c).isSome

def charOfPair (high low : Nat) : Char :=
  Char.ofNat (0x10000 + (high - 0xd800) * 0x400 + (low - 0xdc00))

end CallerFirst.Text
