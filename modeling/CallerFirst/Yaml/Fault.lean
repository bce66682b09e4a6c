import CallerFirst.Config.Value

/-!
# What keeps a text from being read
-/

namespace CallerFirst.Yaml

inductive Fault where
  | malformed
  /-- An escape names a code beyond the last character. -/
  | noSuchCharacter
  /-- An escape names a code that does not fit into 31 bits. -/
  | codeOverflow
  | notInteger (base : Nat) (text : List Char)
  | longInteger (digits : Nat)
  | notFloat (text : List Char)
  /-- A place of a number in base sixty is out of range. -/
  | floatOverflow
  | calendar (fault : CalendarFault)
  | notBoolean
  | emptyNumber
  | notTimestamp
  /-- A map stands where the text of a date is needed. -/
  | timestampOfMap

namespace Fault

def shownLength : Nat := 200

def message? : Fault → Option String
  | noSuchCharacter => some "chr() arg not in range(0x110000)"
  | notInteger base text =>
    some ("invalid literal for int() with base " ++ toString base ++ ": " ++
      String.ofList ((Value.quoted (String.ofList text)).toList.take shownLength))
  | longInteger digits => some (Integer.limitText (some digits))
  | notFloat text =>
    some ("could not convert string to float: " ++ Value.quoted (String.ofList text))
  | calendar fault => some fault.message
  | _ => none

end Fault

end CallerFirst.Yaml
