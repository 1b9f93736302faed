import MemberLift.Format.Yaml.Scalar
import MemberLift.Format.Yaml.Tag

/-!
The tokens of a YAML text.
-/
namespace MemberLift.Yaml

open Scanner

/-- Takes blank space and comments in front of a token.  Tabs count as blank only where no key may
begin. -/
def skipBlank : Nat → Scanner Unit
  | 0 => failure
  | fuel + 1 => do
    let s ← get
    let _ ← span fun c => c = ' ' || (c = '\t' && (s.inBrackets || !s.keyAllowed))
    if (← peek) = some '#' then let _ ← span fun c => !isBreak c
    if ← atBreak then
      let _ ← takeBreak
      if !s.inBrackets then allowKey true
      skipBlank fuel

def documentMark (t : Token) (length : Nat) : Scanner Unit := do
  closeBlocks 0
  dropCandidate
  allowKey false
  skip length
  emit t

def openBracket (t : Token) : Scanner Unit := do
  saveCandidate
  modify fun s => { s with candidate := none, outer := s.candidate :: s.outer, keyAllowed := true }
  skip 1
  emit t

def closeBracket (t : Token) : Scanner Unit := do
  dropCandidate
  modify fun s => match s.outer with
    | [] => { s with keyAllowed := false }
    | candidate :: outer => { s with candidate, outer, keyAllowed := false }
  skip 1
  emit t

def comma : Scanner Unit := do
  dropCandidate
  allowKey true
  skip 1
  emit .comma

def item : Scanner Unit := do
  let s ← get
  if !s.inBrackets then
    if !s.keyAllowed then failure
    openBlock s.column none .blockList
  dropCandidate
  allowKey true
  skip 1
  emit .item

def keyMark : Scanner Unit := do
  let s ← get
  if !s.inBrackets then
    if !s.keyAllowed then failure
    openBlock s.column none .blockTable
  dropCandidate
  allowKey !s.inBrackets
  skip 1
  emit .key

def colon : Scanner Unit := do
  let s ← get
  match s.candidate with
  | some c =>
    insert c.tokens .key
    openBlock c.column (some c.tokens) .blockTable
    modify fun s => { s with candidate := none, keyAllowed := false }
  | none =>
    if !s.inBrackets then
      if !s.keyAllowed then failure
      openBlock s.column none .blockTable
    allowKey !s.inBrackets
  skip 1
  emit .value

def scalar (t : Scanner Text) (wrap : Text → Token) : Scanner Unit := do
  saveCandidate
  allowKey false
  emit (wrap (← t))

def startsPlain (s : Scan) (c : Char) : Bool :=
  !(isGap c || "-?:,[]\x7b\x7d#&*!|>'\"%@\x60".toList.contains c) ||
    (c = '-' && !(s.at? 1).any isSpace) ||
    (!s.inBrackets && (c = '?' || c = ':') && !isGapOrEnd (s.at? 1))

def token (fuel : Nat) : Scanner Bool := do
  skipBlank fuel
  dropStale
  closeBlocks ((← get).column + 1)
  let s ← get
  match s.rest with
  | [] =>
    closeBlocks 0
    dropCandidate
    return false
  | c :: rest =>
    let free := isGapOrEnd rest.head?
    if s.column = 0 && c = '%' then emit (← directive fuel)
    else if ← atDocumentMark then
      documentMark (if c = '-' then .documentStart else .documentEnd) 3
    else if c = '[' then openBracket .listOpen
    else if c = '\x7b' then openBracket .tableOpen
    else if c = ']' then closeBracket .listClose
    else if c = '\x7d' then closeBracket .tableClose
    else if c = ',' then comma
    else if c = '-' && free then item
    else if c = '?' && (s.inBrackets || free) then keyMark
    else if c = ':' && (s.inBrackets || free) then colon
    else if c = '*' then
      let t ← name
      emit (.reference t)
    else if c = '&' then
      let t ← name
      emit (.anchor t)
    else if c = '!' then
      let t ← tag fuel
      emit (.tag t)
    else if (c = '|' || c = '>') && !s.inBrackets then
      dropCandidate
      allowKey true
      let t ← blockText (c = '>') fuel
      emit (if c = '>' then .text t else .literal t)
    else if c = '\'' || c = '"' then
      scalar (do
        skip 1
        quoted c fuel) .text
    else if startsPlain s c then scalar (plain fuel) .plain
    else failure
    return true

def tokensFrom (inner : Nat) : Nat → Scanner Unit
  | 0 => failure
  | fuel + 1 => do if ← token inner then tokensFrom inner fuel

def tokens (t : Text) : Option (List Token) :=
  let body := if t.head? = some '\uFEFF' then t.drop 1 else t
  if body.all isAllowed then
    let fuel := body.length + 2
    (tokensFrom fuel fuel (Scan.start (unifyBreaks body))).map fun p => p.2.tokens.reverse
  else none

end MemberLift.Yaml
