import MemberLift.Text.Utf8

/-!
What YAML is made of: marks, texts, and the tokens by which indentation opens and closes blocks.
-/
namespace MemberLift.Yaml

/-- A tag as it is written: its handle, which is empty if the tag is written in full, and the rest
of it as bytes, since a tag may hold any bytes as escapes. -/
structure Tag where
  handle : Text
  suffix : Bytes
  deriving DecidableEq, Repr

/-- A text is plain without quotes, literal if its lines stand as they are below a mark. -/
inductive Token where
  | blockList
  | blockTable
  | blockEnd
  | listOpen
  | listClose
  | tableOpen
  | tableClose
  | item
  | comma
  | key
  | value
  | reference (name : Text)
  | anchor (name : Text)
  | tag (t : Tag)
  | plain (t : Text)
  | literal (t : Text)
  | text (t : Text)
  | version (major minor : Nat)
  | tagHandle (handle : Text) (stem : Bytes)
  | documentStart
  | documentEnd
  deriving DecidableEq, Repr

end MemberLift.Yaml
