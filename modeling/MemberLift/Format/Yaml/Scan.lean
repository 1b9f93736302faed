import MemberLift.Format.Yaml.Token

/-!
A scan of a YAML text, and the steps that it takes.  A key has no mark of its own: where one may
begin is remembered, and when a colon follows on the same line, the token of the key is put in
there.
-/
namespace MemberLift.Yaml

/-- A place where a key may have begun: how many tokens stand in front of it, and where it is.  In a
block, a key is required where the block's margin is. -/
structure Candidate where
  required : Bool
  tokens : Nat
  offset : Nat
  line : Nat
  column : Nat
  deriving DecidableEq, Repr

/-- A scan of a text: what is left and where it begins, the column behind the innermost block's
first one and those of the blocks around it, the candidates in this pair of brackets and in those
around it, and the tokens so far, last first. -/
structure Scan where
  rest : Text
  offset : Nat
  line : Nat
  column : Nat
  margin : Nat
  margins : List Nat
  candidate : Option Candidate
  outer : List (Option Candidate)
  keyAllowed : Bool
  tokens : List Token
  count : Nat

abbrev Scanner (α : Type) := StateT Scan Option α

namespace Scan

def start (t : Text) : Scan where
  rest := t
  offset := 0
  line := 0
  column := 0
  margin := 0
  margins := []
  candidate := none
  outer := []
  keyAllowed := true
  tokens := []
  count := 0

def inBrackets (s : Scan) : Bool := !s.outer.isEmpty

def at? (s : Scan) (n : Nat) : Option Char := s.rest[n]?

end Scan

def isSpace (c : Char) : Bool := c = ' ' || c = '\t'

def isBreak (c : Char) : Bool := c = '\n' || c = '\u2028' || c = '\u2029'

def isGap (c : Char) : Bool := isSpace c || isBreak c

def isGapOrEnd : Option Char → Bool
  | none => true
  | some c => isGap c

def isBracketMark (c : Char) : Bool := ",[]\x7b\x7d".toList.contains c

def isAllowed (c : Char) : Bool :=
  c = '\t' || c = '\n' || c = '\r' || (' ' ≤ c && c ≤ '~') || c = '\u0085' ||
    ('\u00A0' ≤ c && c ≠ '\uFEFF' && c ≠ '\uFFFE' && c ≠ '\uFFFF')

def unifyBreaks : Text → Text
  | [] => []
  | '\r' :: '\n' :: rest => '\n' :: unifyBreaks rest
  | c :: rest => (if c = '\r' || c = '\u0085' then '\n' else c) :: unifyBreaks rest

namespace Scanner

def peek : Scanner (Option Char) := fun s => some (s.rest.head?, s)

def skip (n : Nat) : Scanner Unit := modify fun s =>
  { s with rest := s.rest.drop n, offset := s.offset + n, column := s.column + n }

def span (p : Char → Bool) : Scanner Text := do
  let taken := (← get).rest.takeWhile p
  skip taken.length
  return taken

def takeBreak : Scanner Char := do
  match ← peek with
  | some c =>
    if isBreak c then
      modify fun s =>
        { s with rest := s.rest.drop 1, offset := s.offset + 1, line := s.line + 1, column := 0 }
      return c
    else failure
  | none => failure

def atBreak : Scanner Bool := do return (← peek).any isBreak

def emit (t : Token) : Scanner Unit := modify fun s =>
  { s with tokens := t :: s.tokens, count := s.count + 1 }

def insert (n : Nat) (t : Token) : Scanner Unit := modify fun s =>
  { s with
    tokens := s.tokens.take (s.count - n) ++ t :: s.tokens.drop (s.count - n)
    count := s.count + 1 }

/-- Opens a block at a column that the innermost block does not reach. -/
def openBlock (column : Nat) (place : Option Nat) (t : Token) : Scanner Unit := do
  let s ← get
  if !s.inBrackets && s.margin ≤ column then
    set { s with margin := column + 1, margins := s.margin :: s.margins }
    match place with
    | some n => insert n t
    | none => emit t

def closeBlocks (margin : Nat) : Scanner Unit := modify fun s =>
  if s.inBrackets then s
  else go s s.margins
where
  go (s : Scan) : List Nat → Scan
    | [] => s
    | outer :: more =>
      if margin < s.margin then
        go { s with
          margin := outer
          margins := more
          tokens := .blockEnd :: s.tokens
          count := s.count + 1 } more
      else s

/-- Forgets the place where a key may have begun, unless a key is required there. -/
def dropCandidate : Scanner Unit := do
  match (← get).candidate with
  | some c => if c.required then failure
  | none => pure ()
  modify fun s => { s with candidate := none }

def saveCandidate : Scanner Unit := do
  if (← get).keyAllowed then
    dropCandidate
    modify fun s => { s with
      candidate := some ⟨!s.inBrackets && s.margin = s.column + 1, s.count, s.offset, s.line,
        s.column⟩ }

def allowKey (b : Bool) : Scanner Unit := modify fun s => { s with keyAllowed := b }

/-- A candidate that can still become a key: on the line of the scan and not too far away. -/
def fresh? (s : Scan) (candidate : Option Candidate) : Option (Option Candidate) :=
  match candidate with
  | none => some none
  | some c =>
    if c.line < s.line || c.offset + 1024 < s.offset then (if c.required then none else some none)
    else some (some c)

def dropStale : Scanner Unit := do
  let s ← get
  match fresh? s s.candidate, s.outer.mapM (fresh? s) with
  | some candidate, some outer => set { s with candidate, outer }
  | _, _ => failure

/-- Whether three equal marks in column zero begin or end a document here. -/
def atDocumentMark : Scanner Bool := do
  let s ← get
  return s.column = 0 && (['-', '-', '-'].isPrefixOf s.rest || ['.', '.', '.'].isPrefixOf s.rest) &&
    isGapOrEnd (s.at? 3)

end Scanner

end MemberLift.Yaml
