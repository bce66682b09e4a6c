import CallerFirst.Config.Value

/-!
# Writing JSON

Plain data as JSON, on one line or with a line for each item and member, indented by two.
-/

namespace CallerFirst.Json

inductive Style where
  | oneLine
  | indented
  deriving DecidableEq

/-- A character inside quotes: quotes, backslashes and control characters are escaped. -/
def escapeChar (c : Char) : List Char :=
  match c with
  | '"' => ['\\', '"']
  | '\\' => ['\\', '\\']
  | '\n' => ['\\', 'n']
  | '\r' => ['\\', 'r']
  | '\t' => ['\\', 't']
  | '\x08' => ['\\', 'b']
  | '\x0c' => ['\\', 'f']
  | c => if c.toNat < 0x20 then '\\' :: 'u' :: Text.hexDigits 4 c.toNat else [c]

def quote (s : String) : String :=
  String.ofList ('"' :: s.toList.flatMap escapeChar ++ ['"'])

def writeFloat : Binary64 → String
  | .notANumber => "NaN"
  | .infinite negative => if negative then "-Infinity" else "Infinity"
  | x => x.render

def newLine (style : Style) (depth : Nat) : String :=
  match style with
  | .oneLine => ""
  | .indented => "\n" ++ String.ofList (List.replicate (2 * depth) ' ')

mutual
/-- A value that starts at a depth. Keys are written as texts, and so is what JSON has no form for. -/
def writeAt (style : Style) (depth : Nat) : Value → String
  | .null => "null"
  | .bool b => if b then "true" else "false"
  | .int n => toString n
  | .float x => writeFloat x
  | .text s | .unpaired s => quote s
  | .list [] => "[]"
  | .list (item :: rest) =>
    "[" ++ newLine style (depth + 1) ++ writeAt style (depth + 1) item ++
      writeItems style (depth + 1) rest ++ newLine style depth ++ "]"
  | .map [] => "\x7b\x7d"
  | .map ((key, value) :: rest) =>
    "\x7b" ++ newLine style (depth + 1) ++ quote key.plain ++ ": " ++
      writeAt style (depth + 1) value ++ writeMembers style (depth + 1) rest ++
      newLine style depth ++ "\x7d"
  | v => quote v.inspect
def writeItems (style : Style) (depth : Nat) : List Value → String
  | [] => ""
  | item :: rest =>
    "," ++ newLine style depth ++ writeAt style depth item ++ writeItems style depth rest
def writeMembers (style : Style) (depth : Nat) : List (Value × Value) → String
  | [] => ""
  | (key, value) :: rest =>
    "," ++ newLine style depth ++ quote key.plain ++ ": " ++ writeAt style depth value ++
      writeMembers style depth rest
end

def write (style : Style) (v : Value) : String :=
  writeAt style 0 v

end CallerFirst.Json
