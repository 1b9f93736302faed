import MemberLift.Format.Yaml.Scan
import MemberLift.Format.Digits

/-!
The texts of YAML: in quotes, without quotes, and in blocks of lines below a mark.
-/
namespace MemberLift.Yaml

open Scanner

/-- What the end of a line and the ends of the empty lines behind it become: one end of a line alone
becomes a space. -/
def fold (first : Char) (more : Text) : Text :=
  if first = '\n' then (if more.isEmpty then [' '] else more) else first :: more

/-- Takes blank space and gives the ends of lines in it.  Tabs may not stand left of a margin. -/
def blankLines (margin : Nat) : Nat → Scanner Text
  | 0 => failure
  | fuel + 1 => do
    match ← peek with
    | none => return []
    | some c =>
      if isBreak c then
        let c ← takeBreak
        return c :: (← blankLines margin fuel)
      else if isSpace c then
        if c = '\t' && (← get).column < margin then failure
        skip 1
        blankLines margin fuel
      else return []

/-- Takes blank space; the answer is what it becomes inside a text, and whether a line ended. -/
def gap (margin fuel : Nat) : Scanner (Text × Bool) := do
  let spaces ← span isSpace
  if ← atBreak then
    let first ← takeBreak
    return (fold first (← blankLines margin fuel), true)
  else return (spaces, false)

def numbered (digits : Nat) : Scanner Char := do
  skip 2
  let t := (← get).rest.take digits
  let n := Digits.toNat 16 t
  let valid := t.length = digits && t.all Digits.isHex && !(0xD800 ≤ n && n ≤ 0xDFFF)
  if !valid || 0x110000 ≤ n then failure
  skip digits
  return Char.ofNat n

def escaped? : Char → Option Char
  | '0' => some '\x00'
  | 'a' => some '\x07'
  | 'b' => some '\x08'
  | 't' | '\t' => some '\t'
  | 'n' => some '\n'
  | 'v' => some '\x0b'
  | 'f' => some '\x0c'
  | 'r' => some '\r'
  | 'e' => some '\x1b'
  | ' ' => some ' '
  | '"' => some '"'
  | '/' => some '/'
  | '\\' => some '\\'
  | 'N' => some '\u0085'
  | '_' => some '\u00A0'
  | 'L' => some '\u2028'
  | 'P' => some '\u2029'
  | _ => none

def escape : Scanner Char := do
  match (← get).at? 1 with
  | some 'x' => numbered 2
  | some 'u' => numbered 4
  | some 'U' => numbered 8
  | some c =>
    match escaped? c with
    | some c =>
      skip 2
      return c
    | none => failure
  | none => failure

def quoted (mark : Char) : Nat → Scanner Text
  | 0 => failure
  | fuel + 1 => do
    if ← atDocumentMark then failure
    let s ← get
    match s.rest with
    | [] => failure
    | c :: rest =>
      if c = mark then
        if mark = '\'' && rest.head? = some mark then
          skip 2
          return mark :: (← quoted mark fuel)
        else
          skip 1
          return []
      else if c = '\\' && mark = '"' then
        if rest.head?.any isBreak then
          skip 1
          let _ ← takeBreak
          let more ← blankLines 0 fuel
          return more ++ (← quoted mark fuel)
        else
          let c ← escape
          return c :: (← quoted mark fuel)
      else if isGap c then
        let (between, _) ← gap 0 fuel
        return between ++ (← quoted mark fuel)
      else
        skip 1
        return c :: (← quoted mark fuel)

/-- The length of a plain text up to blank space or a mark; a colon right in front of a bracket is
refused between brackets. -/
def plainLength (inBrackets : Bool) : Text → Option Nat
  | [] => some 0
  | c :: rest =>
    if isGap c then some 0
    else if inBrackets && c = ':' && rest.head?.any (fun d => d = '?' || isBracketMark d) then none
    else if (c = ':' && isGapOrEnd rest.head?) || (inBrackets && isBracketMark c) then some 0
    else (plainLength inBrackets rest).map (· + 1)

def plain : Nat → Scanner Text
  | 0 => failure
  | fuel + 1 => do
    if (← atDocumentMark) || (← peek) = some '#' then return []
    let s ← get
    match plainLength s.inBrackets s.rest with
    | none => failure
    | some n =>
      let run := s.rest.take n
      skip n
      if !run.isEmpty then allowKey false
      if !(← peek).any isGap then return run
      let (between, crossed) ← gap s.margin fuel
      if crossed then allowKey true
      if !s.inBrackets && (← get).column < s.margin then return run
      let tail ← plain fuel
      return if tail.isEmpty then run else run ++ between ++ tail

inductive Chomping where
  | clip
  | strip
  | keep
  deriving DecidableEq, Repr

def chomping : Scanner (Option Chomping) := do
  match ← peek with
  | some '+' => skip 1; return some .keep
  | some '-' => skip 1; return some .strip
  | _ => return none

def announced : Scanner (Option Nat) := do
  match ← peek with
  | some c =>
    if c = '0' then failure
    else if c.isDigit then
      skip 1
      return some (c.toNat - '0'.toNat)
    else return none
  | none => return none

/-- Takes the empty lines in front of a line; the answer is their ends and the greatest column
reached.  With no indentation known, all leading spaces are taken. -/
def emptyLines (indent : Option Nat) : Nat → Scanner (Text × Nat)
  | 0 => failure
  | fuel + 1 => do
    let column := (← get).column
    let spaces := (← get).rest.takeWhile (· = ' ')
    skip (match indent with
      | some n => min spaces.length (n - column)
      | none => spaces.length)
    let reached := (← get).column
    if (← peek) = some '\t' && (match indent with
        | some n => reached < n
        | none => true) then failure
    if ← atBreak then
      let c ← takeBreak
      let (more, most) ← emptyLines indent fuel
      return (c :: more, max reached most)
    else return ([], reached)

/-- The lines of a block text at an indentation, given the line end and the empty lines in front,
and whether the line before is indented further. -/
def blockLines (folded : Bool) (how : Chomping) (indent : Nat) (lead empty : Text) (deeper : Bool) :
    Nat → Scanner Text
  | 0 => failure
  | fuel + 1 => do
    let s ← get
    if s.column = indent && !s.rest.isEmpty then
      let blank := s.rest.head?.any isSpace
      let front :=
        if folded && lead.head? = some '\n' && !deeper && !blank then
          (if empty.isEmpty then [' '] else empty)
        else lead ++ empty
      let content ← span fun c => !isBreak c
      let lead ← if ← atBreak then do pure [← takeBreak] else pure []
      let (empty, _) ← emptyLines (some indent) fuel
      return front ++ content ++ (← blockLines folded how indent lead empty blank fuel)
    else return match how with
      | .strip => []
      | .clip => lead
      | .keep => lead ++ empty

def blockText (folded : Bool) (fuel : Nat) : Scanner Text := do
  skip 1
  let before ← chomping
  let indent ← announced
  let after ← if before.isNone then chomping else pure none
  let _ ← span isSpace
  if (← peek) = some '#' then let _ ← span fun c => !isBreak c
  match ← peek with
  | some _ => let _ ← takeBreak
  | none => pure ()
  let s ← get
  let (empty, reached) ← emptyLines (indent.map (s.margin - 1 + ·)) fuel
  let indent := match indent with
    | some n => s.margin - 1 + n
    | none => max reached (max s.margin 1)
  blockLines folded ((before <|> after).getD .clip) indent [] empty false fuel

end MemberLift.Yaml
