import CallerFirst.Number.Integer
import CallerFirst.Text.Surrogate

/-!
# Unicode escapes

Escapes are replaced in the whole text before it is cut into tokens. A backslash takes the next
character with it, so a doubled backslash starts no escape.
-/

namespace CallerFirst.Java

namespace Escape

inductive Fault where
  /-- The characters after the marker are no hexadecimal number. -/
  | invalid (digits : List Char)
  | negative

def codeOf (digits : List Char) : Except Fault Nat :=
  match Integer.read? 16 digits with
  | none => .error (.invalid digits)
  | some code => if code < 0 then .error .negative else .ok code.toNat

/-- Replaces the escapes of `text`; `segment` is what was read since the last one, in reverse. The
segment is written when an escape begins, so an escape that the end of the text cuts off writes it
once more with the rest. -/
def expandFrom : Nat → List Char → List Char → Except Fault (List Char)
  | 0, segment, text => .ok (segment.reverse ++ text)
  | _ + 1, segment, [] => .ok segment.reverse
  | fuel + 1, segment, '\\' :: 'u' :: rest =>
    match rest.dropWhile (· == 'u') with
    | [] => .ok (segment.reverse ++ segment.reverse ++ '\\' :: 'u' :: rest)
    | digits => do
      let code ← codeOf (digits.take 4)
      let tail ← expandFrom fuel [] (digits.drop 4)
      return segment.reverse ++ Text.charOfCode code :: tail
  | fuel + 1, segment, '\\' :: c :: rest => expandFrom fuel (c :: '\\' :: segment) rest
  | fuel + 1, segment, c :: rest => expandFrom fuel (c :: segment) rest

def expand (text : List Char) : Except Fault (List Char) :=
  expandFrom text.length [] text

end Escape

end CallerFirst.Java
