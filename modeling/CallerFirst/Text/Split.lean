/-!
# Parts of a text
-/

namespace CallerFirst.Text

/-- Parts of a text between the places where a character stands; there is one part more than there
are such places. -/
def split (separator : Char) : List Char → List (List Char)
  | [] => [[]]
  | c :: rest =>
    if c == separator then [] :: split separator rest
    else
      match split separator rest with
      | part :: parts => (c :: part) :: parts
      | [] => [[c]]

end CallerFirst.Text
