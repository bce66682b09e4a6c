/-!
# Upper case

Option names are compared in upper case. Only results that are plain ASCII can equal a name, so the
special cases listed are the characters outside ASCII whose upper-case form is ASCII.
-/

namespace CallerFirst.Text

/-- Upper-case form of one character; characters without an ASCII form stay as they are. -/
def upperForm (c : Char) : List Char :=
  match c with
  | 'ß' => ['S', 'S']
  | 'ı' => ['I']
  | 'ſ' => ['S']
  | 'ﬀ' => ['F', 'F']
  | 'ﬁ' => ['F', 'I']
  | 'ﬂ' => ['F', 'L']
  | 'ﬃ' => ['F', 'F', 'I']
  | 'ﬄ' => ['F', 'F', 'L']
  | 'ﬅ' => ['S', 'T']
  | 'ﬆ' => ['S', 'T']
  | c => [c.toUpper]

def upper (text : String) : String :=
  String.ofList (text.toList.flatMap upperForm)

def lower (text : List Char) : List Char :=
  text.map Char.toLower

end CallerFirst.Text
