import CallerFirst.Yaml.Block

/-!
# Tags, anchors and directives

What says more about a node or a document than its content: tags name its type, anchors let it stand
in other places too, directives declare the version and handles for tags.
-/

namespace CallerFirst.Yaml

def coreTags : String := "tag:yaml.org,2002:"

def usualHandles : List (String × String) :=
  [("!", "!"), ("!!", coreTags)]

def isNameChar (c : Char) : Bool :=
  c.isAlphanum || c == '-' || c == '_'

def isUriChar (c : Char) : Bool :=
  c.isAlphanum || "-;/?:@&=+$,_.!~*'()[]%".toList.contains c

def name (p : Place) : Except Fault (String × Place) :=
  let letters := p.rest.takeWhile isNameChar
  if letters.isEmpty then .error .malformed
  else .ok (String.ofList letters, p.advance letters.length)

def anchorName (p : Place) : Except Fault (String × Place) := do
  let (name, stop) ← name p
  if aheadIs (fun c => isSpace c || "?:,]\x7d%@`".toList.contains c) stop.rest then return (name, stop)
  else throw .malformed

def escapedBytes : List Char → Except Fault (List UInt8 × List Char)
  | '%' :: a :: b :: rest => do
    match Text.hexValue? [a, b] with
    | some n =>
      let (bytes, rest) ← escapedBytes rest
      return (n.toUInt8 :: bytes, rest)
    | none => throw .malformed
  | '%' :: _ => .error .malformed
  | rest => .ok ([], rest)

/-- The characters of a URI; escaped bytes have to make up UTF-8. -/
def uriChars : Nat → List Char → Except Fault (List Char)
  | 0, _ => .error .malformed
  | _ + 1, [] => .ok []
  | fuel + 1, '%' :: rest => do
    let (bytes, rest) ← escapedBytes ('%' :: rest)
    match String.fromUTF8? ⟨bytes.toArray⟩ with
    | some text => return text.toList ++ (← uriChars fuel rest)
    | none => throw .malformed
  | fuel + 1, c :: rest => do return c :: (← uriChars fuel rest)

def uri (p : Place) : Except Fault (String × Place) := do
  let chars := p.rest.takeWhile isUriChar
  if chars.isEmpty then throw .malformed
  return (String.ofList (← uriChars (chars.length + 1) chars), p.advance chars.length)

/-- A handle for tags with the marks around it, and the place behind it. -/
def tagHandle (p : Place) : Except Fault (String × Place) :=
  match p.rest with
  | '!' :: rest =>
    let letters := rest.takeWhile isNameChar
    if rest.head? == some ' ' then .ok ("!", p.step)
    else if (rest.drop letters.length).head? == some '!' then
      .ok (String.ofList ('!' :: letters ++ ['!']), p.advance (letters.length + 2))
    else .error .malformed
  | _ => .error .malformed

/-- A tag as it is written: by a handle or in full. -/
structure TagText where
  handle : Option String
  suffix : String

def tagText (p : Place) : Except Fault (TagText × Place) := do
  let rest := p.rest.drop 1
  let (tag, stop) ←
    if rest.head? == some '<' then do
      let (suffix, stop) ← uri (p.advance 2)
      if stop.rest.head? == some '>' then pure (⟨none, suffix⟩, stop.step) else throw .malformed
    else if spaceAhead rest then pure (⟨none, "!"⟩, p.step)
    else do
      let (handle, start) ←
        if (rest.takeWhile fun c => !(c == ' ' || isBreak c)).contains '!' then tagHandle p
        else pure ("!", p.step)
      let (suffix, stop) ← uri start
      pure (TagText.mk (some handle) suffix, stop)
  if gapAhead stop.rest then return (tag, stop) else throw .malformed

inductive Directive where
  | version (major : Nat)
  | handle (name start : String)
  | other

def number (p : Place) : Except Fault (Nat × Place) :=
  let digits := p.rest.takeWhile Char.isDigit
  if digits.isEmpty then .error .malformed
  else if Integer.digitLimit < digits.length then .error (.longInteger digits.length)
  else .ok (Binary64.digitsValue digits, p.advance digits.length)

def versionText (p : Place) : Except Fault (Directive × Place) := do
  let (major, stop) ← number p.spaces
  if stop.rest.head? != some '.' then throw .malformed
  let (_, stop) ← number stop.step
  if gapAhead stop.rest then return (.version major, stop) else throw .malformed

def handleText (p : Place) : Except Fault (Directive × Place) := do
  let (name, stop) ← tagHandle p.spaces
  if stop.rest.head? != some ' ' then throw .malformed
  let (start, stop) ← uri stop.spaces
  if gapAhead stop.rest then return (.handle name start, stop) else throw .malformed

/-- A directive behind its mark, and the place behind its line. -/
def directive (p : Place) : Except Fault (Directive × Place) := do
  let (name, stop) ← name p
  if !gapAhead stop.rest then throw .malformed
  let (directive, stop) ←
    match name with
    | "YAML" => versionText stop
    | "TAG" => handleText stop
    | _ => pure (.other, stop.skip (!isBreak ·))
  return (directive, ← lineEnd stop)

end CallerFirst.Yaml
