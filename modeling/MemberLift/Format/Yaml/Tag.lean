import MemberLift.Format.Yaml.Scan
import MemberLift.Format.Digits

/-!
The names of YAML: those of anchors, tags, and the directives that say what handles of tags mean.
-/
namespace MemberLift.Yaml

open Scanner

def isNameChar (c : Char) : Bool := c.isAlphanum || c = '_' || c = '-'

def name : Scanner Text := do
  saveCandidate
  allowKey false
  skip 1
  let t ← span isNameChar
  let following ← peek
  let follows := isGapOrEnd following || following.any "?:,]\x7d%@\x60".toList.contains
  if t.isEmpty || !follows then failure else return t

def escapedByte : Scanner UInt8 := do
  match (← get).rest with
  | '%' :: a :: b :: _ =>
    if Digits.isHex a && Digits.isHex b then
      skip 3
      return UInt8.ofNat (Digits.toNat 16 [a, b])
    else failure
  | _ => failure

def followers (first : UInt8) : Option Nat :=
  if first < 0x80 then some 0
  else if first < 0xC0 then none
  else if first < 0xE0 then some 1
  else if first < 0xF0 then some 2
  else if first < 0xF8 then some 3
  else none

def continuations : Nat → Scanner Bytes
  | 0 => return []
  | n + 1 => do
    let b ← escapedByte
    if Utf8.isContinuation b then return b :: (← continuations n) else failure

def escapedBytes : Scanner Bytes := do
  let first ← escapedByte
  match followers first with
  | some n => return first :: (← continuations n)
  | none => failure

def isTagChar (full : Bool) (c : Char) : Bool :=
  isNameChar c || ";/?:@&=+$.!~*'()".toList.contains c || (full && ",[]".toList.contains c)

def tagBytes (full : Bool) : Nat → Scanner Bytes
  | 0 => failure
  | fuel + 1 => do
    match ← peek with
    | some c =>
      if c = '%' then
        let bytes ← escapedBytes
        return bytes ++ (← tagBytes full fuel)
      else if isTagChar full c then
        skip 1
        return Utf8.encode [c] ++ (← tagBytes full fuel)
      else return []
    | none => return []

/-- What counts of the bytes of a tag: those in front of a zero. -/
def beforeZero (bytes : Bytes) : Bytes := bytes.takeWhile (· ≠ 0)

def someTagBytes (full : Bool) (fuel : Nat) : Scanner Bytes := do
  let bytes ← tagBytes full fuel
  if bytes.isEmpty then failure else return beforeZero bytes

def handle : Scanner Text := do
  if (← peek) ≠ some '!' then failure
  skip 1
  let name ← span isNameChar
  if (← peek) = some '!' then
    skip 1
    return '!' :: name ++ ['!']
  else return '!' :: name

def isClosed (handle : Text) : Bool := 1 < handle.length && handle.getLast? = some '!'

/-- A tag in full between angle brackets, or with a handle; a single mark is a handle and a whole
tag. -/
def tag (fuel : Nat) : Scanner Tag := do
  saveCandidate
  allowKey false
  let t ← if (← get).at? 1 = some '<' then do
      skip 2
      let suffix ← someTagBytes true fuel
      if (← peek) ≠ some '>' then failure
      skip 1
      pure ⟨[], suffix⟩
    else do
      let h ← handle
      if isClosed h then pure ⟨h, ← someTagBytes false fuel⟩
      else
        let suffix := beforeZero (Utf8.encode (h.drop 1) ++ (← tagBytes false fuel))
        pure (if suffix.isEmpty then ⟨[], Utf8.encode ['!']⟩ else ⟨['!'], suffix⟩)
  let s ← get
  if isGapOrEnd s.rest.head? || (s.inBrackets && s.rest.head? = some ',') then return t
  else failure

def versionNumber : Scanner Nat := do
  let digits ← span Char.isDigit
  if digits.isEmpty || 9 < digits.length then failure else return Digits.toNat 10 digits

def versionDirective : Scanner Token := do
  let major ← versionNumber
  if (← peek) ≠ some '.' then failure
  skip 1
  return .version major (← versionNumber)

def tagDirective (fuel : Nat) : Scanner Token := do
  let h ← handle
  if h ≠ ['!'] && !isClosed h then failure
  if !(← peek).any isSpace then failure
  let _ ← span isSpace
  let stem ← someTagBytes true fuel
  if isGapOrEnd (← peek) then return .tagHandle h stem else failure

def directive (fuel : Nat) : Scanner Token := do
  closeBlocks 0
  dropCandidate
  allowKey false
  skip 1
  let name ← span isNameChar
  if !isGapOrEnd (← peek) then failure
  let _ ← span isSpace
  let t ← if name = "YAML".toList then versionDirective
    else if name = "TAG".toList then tagDirective fuel
    else failure
  let _ ← span isSpace
  if (← peek) = some '#' then let _ ← span fun c => !isBreak c
  if (← peek).isSome then let _ ← takeBreak
  return t

end MemberLift.Yaml
