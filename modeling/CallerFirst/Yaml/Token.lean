import CallerFirst.Yaml.Node

/-!
# Tokens

What a text is cut into. Block collections, which show only in columns, get tokens for where they
start and end, and so do keys.
-/

namespace CallerFirst.Yaml

inductive Token where
  | directive (directive : Directive)
  | documentStart
  | documentEnd
  | streamEnd
  /-- A list or map in block form starts. -/
  | blockList
  | blockMap
  /-- The innermost block collection is over. -/
  | blockEnd
  /-- A list or map in flow form starts or ends. -/
  | flowList
  | flowListEnd
  | flowMap
  | flowMapEnd
  | entry
  | comma
  | key
  | value
  | alias (name : String)
  | anchor (name : String)
  | tag (text : TagText)
  | scalar (content : Content) (isPlain : Bool)

end CallerFirst.Yaml
