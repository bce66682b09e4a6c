import CallerFirst.Calendar
import CallerFirst.Number.Binary64
import CallerFirst.Number.Integer
import CallerFirst.Text.Hexadecimal
import CallerFirst.Text.Printable
import CallerFirst.Text.Surrogate

/-!
# Values of options

Options are given as plain data, from a file or by a caller. `Value.inspect` shows a value in
messages: texts in quotes, other values by their words and digits.
-/

namespace CallerFirst

inductive Value where
  | null
  | bool (b : Bool)
  | int (n : Int)
  | float (x : Binary64)
  | text (s : String)
  /-- A text in which characters stand for halves of surrogate pairs. -/
  | unpaired (s : String)
  | bytes (content : List UInt8)
  | date (d : Date)
  | moment (t : Moment)
  | list (items : List Value)
  | map (entries : List (Value × Value))
  | set (items : List Value)
  | pair (first second : Value)
  /-- The list or map that this stands in, directly or further up. -/
  | enclosing (isMap : Bool)

namespace Value

instance : Inhabited Value := ⟨.null⟩

def escapeChar (code : Char → Nat) (quote c : Char) : List Char :=
  if c == quote || c == '\\' then ['\\', c]
  else if c == '\n' then ['\\', 'n']
  else if c == '\r' then ['\\', 'r']
  else if c == '\t' then ['\\', 't']
  else if Text.isPrintable c then [c]
  else
    let code := code c
    if code < 0x100 then '\\' :: 'x' :: Text.hexDigits 2 code
    else if code < 0x10000 then '\\' :: 'u' :: Text.hexDigits 4 code
    else '\\' :: 'U' :: Text.hexDigits 8 code

/-- The quote for some characters: a single one, unless they hold it and no double one. -/
def quoteFor (chars : List Char) : Char :=
  if chars.contains '\'' && !chars.contains '"' then '"' else '\''

def quotedBy (code : Char → Nat) (s : String) : String :=
  let quote := quoteFor s.toList
  String.ofList (quote :: s.toList.flatMap (escapeChar code quote) ++ [quote])

def quoted (s : String) : String :=
  quotedBy Char.toNat s

def quotedBytes (content : List UInt8) : String :=
  let chars := content.map fun b => Char.ofNat b.toNat
  let quote := quoteFor chars
  let escape (c : Char) : List Char :=
    if c.toNat < 0x7f then escapeChar Char.toNat quote c else '\\' :: 'x' :: Text.hexDigits 2 c.toNat
  String.ofList ('b' :: quote :: chars.flatMap escape ++ [quote])

mutual
def inspect : Value → String
  | null => "None"
  | bool b => if b then "True" else "False"
  | int n => toString n
  | float x => x.render
  | text s => quoted s
  | unpaired s => quotedBy Text.codeOf s
  | bytes content => quotedBytes content
  | date d => d.inspect
  | moment t => t.inspect
  | list items => "[" ++ inspectItems items ++ "]"
  | map entries => "\x7b" ++ inspectEntries entries ++ "\x7d"
  | set [] => "set()"
  | set items => "\x7b" ++ inspectItems items ++ "\x7d"
  | pair first second => "(" ++ inspect first ++ ", " ++ inspect second ++ ")"
  | enclosing isMap => if isMap then "\x7b...\x7d" else "[...]"
def inspectItems : List Value → String
  | [] => ""
  | [v] => inspect v
  | v :: rest => inspect v ++ ", " ++ inspectItems rest
def inspectEntries : List (Value × Value) → String
  | [] => ""
  | [(k, v)] => inspect k ++ ": " ++ inspect v
  | (k, v) :: rest => inspect k ++ ": " ++ inspect v ++ ", " ++ inspectEntries rest
end

mutual
def hasLongNumber : Value → Bool
  | int n => !Integer.isWritable n
  | list items | set items => anyLongNumber items
  | map entries => anyLongEntry entries
  | pair first second => hasLongNumber first || hasLongNumber second
  | _ => false
def anyLongNumber : List Value → Bool
  | [] => false
  | v :: rest => hasLongNumber v || anyLongNumber rest
def anyLongEntry : List (Value × Value) → Bool
  | [] => false
  | (k, v) :: rest => hasLongNumber k || hasLongNumber v || anyLongEntry rest
end

/-- A value as part of a sentence: texts stand without quotes, dates and moments in digits. -/
def plain : Value → String
  | text s | unpaired s => s
  | date d => d.render
  | moment t => t.render
  | v => v.inspect

def isEmpty : Value → Bool
  | null | bool false | int 0 => true
  | float (.finite _ m _) => m = 0
  | text s => s.isEmpty
  | bytes content => content.isEmpty
  | list items | set items => items.isEmpty
  | map entries => entries.isEmpty
  | _ => false

/-- Items of a collection, keys of a map, characters of a text, numbers of bytes. -/
def items? : Value → Option (List Value)
  | list items | set items => some items
  | pair first second => some [first, second]
  | map entries => some (entries.map Prod.fst)
  | bytes content => some (content.map fun b => .int b.toNat)
  | text s | unpaired s => some (s.toList.map fun c => .text (String.singleton c))
  | _ => none

def text? : Value → Option String
  | text s | unpaired s => some s
  | _ => none

def texts? (items : List Value) : Option (List String) :=
  items.mapM text?

def field? (entries : List (Value × Value)) (key : String) : Option Value :=
  (entries.find? fun (k, _) => k.text? == some key).map Prod.snd

def setField (entries : List (Value × Value)) (key : String) (value : Value) :
    List (Value × Value) :=
  if entries.any fun (k, _) => k.text? == some key then
    entries.map fun (k, v) => if k.text? == some key then (k, value) else (k, v)
  else entries ++ [(.text key, value)]

end Value

end CallerFirst
