import MemberLift.Format.Yaml.Lexer
import MemberLift.Format.Yaml.Node

/-!
YAML as it is read: one document of nested blocks and brackets.
-/
namespace MemberLift.Yaml

/-- The tokens that are left, the handles of tags and what they stand for, and the anchors. -/
structure Parse where
  tokens : List Token
  handles : List (Text × Bytes)
  anchors : Anchors

abbrev Parser (α : Type) := StateT Parse Option α

namespace Parser

def peek : Parser (Option Token) := fun s => some (s.tokens.head?, s)

def skip : Parser Unit := modify fun s => { s with tokens := s.tokens.tail }

def accept (t : Token) : Parser Bool := do
  if (← peek) = some t then
    skip
    return true
  else return false

def expect (t : Token) : Parser Unit := do if ← accept t then return () else failure

def comesOneOf (ts : List Token) : Parser Bool := do return (← peek).any ts.contains

def anchor? : Parser (Option Text) := do
  match ← peek with
  | some (.anchor name) =>
    skip
    return some name
  | _ => return none

def tag? : Parser (Option Bytes) := do
  match ← peek with
  | some (.tag t) =>
    skip
    if t.handle.isEmpty then return some t.suffix
    else match (← get).handles.lookup t.handle with
      | some stem => return some (stem ++ t.suffix)
      | none => failure
  | _ => return none

def properties : Parser (Option Text × Option Bytes) := do
  match ← anchor? with
  | some name => return (some name, ← tag?)
  | none =>
    match ← tag? with
    | some tag => return (← anchor?, some tag)
    | none => return (none, none)

def reference (name : Text) : Parser Node := do
  match (← get).anchors.slot? name with
  | some slot => return .reference slot
  | none => failure

end Parser

open MemberLift.Yaml.Parser

def wholeTag : Bytes := Utf8.encode "tag:yaml.org,2002:int".toList

/-- What a text in literal lines is read as: as if it were plain, if it is not empty and has the tag
of whole numbers. -/
def literalNode (tag : Option Bytes) (t : Text) : Node :=
  if tag = some wholeTag && !t.isEmpty then .plain t else .text t

mutual

/-- A value, in brackets or in a block.  The items of a list may stand at the margin of the table
that they belong to.  Each step takes fuel; values need no more than five steps for each token. -/
def node (inBlock atMargin : Bool) : Nat → Parser Node
  | 0 => failure
  | fuel + 1 => do
    match ← peek with
    | some (.reference name) =>
      skip
      reference name
    | _ =>
      let (name, tag) ← properties
      let marked := name.isSome || tag.isSome
      match name with
      | none => content inBlock atMargin marked tag fuel
      | some name =>
        let number := (← get).anchors.next
        modify fun s => { s with anchors := s.anchors.enter name }
        let v ← content inBlock atMargin marked tag fuel
        modify fun s => { s with anchors := s.anchors.hold number v }
        return v

def content (inBlock atMargin marked : Bool) (tag : Option Bytes) : Nat → Parser Node
  | 0 => failure
  | fuel + 1 => do
    match ← peek with
    | some (.plain t) =>
      skip
      return .plain t
    | some (.literal t) =>
      skip
      return literalNode tag t
    | some (.text t) =>
      skip
      return .text t
    | some .listOpen =>
      skip
      return .list (← flowItems true fuel)
    | some .tableOpen =>
      skip
      return .table (← flowEntries true fuel)
    | some t =>
      if t = .item && atMargin then return .list (← marginItems fuel)
      else if t = .blockList && inBlock then
        skip
        return .list (← blockItems fuel)
      else if t = .blockTable && inBlock then
        skip
        return .table (← blockEntries fuel)
      else if marked then return .absent
      else failure
    | none => if marked then return .absent else failure

/-- A value that may be absent, which one of some tokens then shows. -/
def nodeUnless (ends : List Token) (inBlock atMargin : Bool) : Nat → Parser Node
  | 0 => failure
  | fuel + 1 => do if ← comesOneOf ends then return .absent else node inBlock atMargin fuel

def blockItems : Nat → Parser (List Node)
  | 0 => failure
  | fuel + 1 => do
    if ← accept .item then
      let v ← nodeUnless [.item, .blockEnd] true false fuel
      return v :: (← blockItems fuel)
    else if ← accept .blockEnd then return []
    else failure

def marginItems : Nat → Parser (List Node)
  | 0 => failure
  | fuel + 1 => do
    if ← accept .item then
      let v ← nodeUnless [.item, .key, .value, .blockEnd] true false fuel
      return v :: (← marginItems fuel)
    else return []

def blockEntries : Nat → Parser (List (Node × Node))
  | 0 => failure
  | fuel + 1 => do
    if ← accept .blockEnd then return []
    expect .key
    let key ← nodeUnless [.key, .value, .blockEnd] true true fuel
    let v ← if ← accept .value then nodeUnless [.key, .value, .blockEnd] true true fuel
      else pure .absent
    return (key, v) :: (← blockEntries fuel)

/-- A key in a list in brackets, behind the key's token.  The token that shows an absent key is
taken along. -/
def pairKey : Nat → Parser Node
  | 0 => failure
  | fuel + 1 => do
    if ← comesOneOf [.value, .comma, .listClose] then
      skip
      return .absent
    else node false false fuel

def flowValue (close : Token) : Nat → Parser Node
  | 0 => failure
  | fuel + 1 => do
    if ← accept .value then nodeUnless [.comma, close] false false fuel else return .absent

def flowItems (first : Bool) : Nat → Parser (List Node)
  | 0 => failure
  | fuel + 1 => do
    if ← accept .listClose then return []
    if !first then expect .comma
    if ← accept .listClose then return []
    let v ← if ← accept .key then do
        let key ← pairKey fuel
        pure (.table [(key, ← flowValue .listClose fuel)])
      else node false false fuel
    return v :: (← flowItems false fuel)

def flowEntries (first : Bool) : Nat → Parser (List (Node × Node))
  | 0 => failure
  | fuel + 1 => do
    if ← accept .tableClose then return []
    if !first then expect .comma
    if ← accept .tableClose then return []
    let entry ← if ← accept .key then do
        let key ← nodeUnless [.value, .comma, .tableClose] false false fuel
        pure (key, ← flowValue .tableClose fuel)
      else do pure (← node false false fuel, .absent)
    return entry :: (← flowEntries false fuel)

end

def standardHandles : List (Text × Bytes) :=
  [(['!'], Utf8.encode ['!']), (['!', '!'], Utf8.encode "tag:yaml.org,2002:".toList)]

/-- Takes directives: the version at most once, and each handle at most once.  The answer is whether
there are any. -/
def directives (versioned : Bool) : Nat → Parser Bool
  | 0 => failure
  | fuel + 1 => do
    match ← peek with
    | some (.version major minor) =>
      skip
      if versioned || major ≠ 1 || (minor ≠ 1 && minor ≠ 2) then failure
      let _ ← directives true fuel
      return true
    | some (.tagHandle handle stem) =>
      skip
      if ((← get).handles.lookup handle).isSome then failure
      modify fun s => { s with handles := s.handles ++ [(handle, stem)] }
      let _ ← directives versioned fuel
      return true
    | _ => return false

def documentStart (fuel : Nat) : Parser Bool := do
  let directed ← directives false fuel
  modify fun s => { s with handles := s.handles ++ standardHandles }
  let marked ← accept .documentStart
  if directed && !marked then failure else return marked

def isOver : Option Token → Bool
  | none => true
  | some t => match t with
    | .version _ _ | .tagHandle _ _ | .documentStart | .documentEnd => true
    | _ => false

def document (fuel : Nat) : Parser Node := do
  if (← peek).isNone then return .absent
  let marked ← documentStart fuel
  if marked && isOver (← peek) then return .absent else node true false fuel

def documentEnds : Nat → Parser Unit
  | 0 => failure
  | fuel + 1 => do if ← accept .documentEnd then documentEnds fuel

def read (depth : Nat) (t : Text) : Option Value :=
  match tokens t with
  | none => none
  | some tokens =>
    let fuel := 5 * tokens.length + 5
    match (do
      let v ← document fuel
      documentEnds fuel
      return v : Parser Node) ⟨tokens, [], .empty⟩ with
    | some (v, ⟨[], _, anchors⟩) => some (anchors.value depth v)
    | _ => none

end MemberLift.Yaml
