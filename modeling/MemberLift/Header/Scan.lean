import MemberLift.Token.Lexer
import MemberLift.Token.Group
import MemberLift.Header.Conventions
import MemberLift.Header.Docs

/-!
What a header holds: the marked declarations with their classes and documentation, and the block
that was generated before.  A line is a sentinel, or the beginning of a class, or a marker, or
nothing, tried in this order; inside a block only sentinels count.
-/
namespace MemberLift

/-- A marked declaration, without its body or semicolon. -/
structure Marked where
  className : Text
  tokens : List Token
  docs : Option Text
  line : Nat
  deriving DecidableEq, Repr

/-- The indices of the two sentinel lines of a generated block. -/
structure Block where
  opening : Nat
  closing : Nat
  deriving DecidableEq, Repr

structure Scan where
  functions : List Marked
  block : Option Block
  deriving DecidableEq, Repr

inductive BlockFault where
  | secondBegin
  | strayEnd
  | neverClosed
  deriving DecidableEq, Repr

def BlockFault.message : BlockFault → Text
  | .secondBegin => "second begin sentinel".toList
  | .strayEnd => "end sentinel without a matching begin".toList
  | .neverClosed => "begin sentinel is never closed".toList

inductive ScanFault where
  | lexical (fault : Lexer.Fault)
  | unterminated (line lookahead : Nat)
  | unbalanced (line : Nat) (cause : BlockFault)
  | noClass (line : Nat)
  deriving DecidableEq, Repr

namespace Scan

open MemberLift.Group

inductive Sentinel where
  | opening
  | closing
  deriving DecidableEq, Repr

/-- The sentinel on a line; a line with both texts opens a block. -/
def sentinel? (c : Conventions) (line : Text) : Option Sentinel :=
  if Text.occursIn c.blockBegin line then some .opening
  else if Text.occursIn c.blockEnd line then some .closing
  else none

/-- What follows the marker that a line begins with. -/
def afterMarker? (marker line : Text) : Option Text :=
  if marker.isPrefixOf line.trimStart then
    let rest := line.trimStart.drop marker.length
    if (rest.head?.map Alphabet.continuesIdentifier).getD false then none else some rest
  else none

/-- The tokens of a class head behind the declaration macros, attributes, alignments and declaration
specifiers in front of the name. -/
def classNameTokens? (macros : List Text) (tokens : List Token) : Option (List Token) :=
  match tokens with
  | [] => none
  | t :: rest =>
    if t.isWordIn macros then classNameTokens? macros rest
    else if t.isMark "[" then
      match closeBrackets [] (t :: rest) with
      | none => none
      | some k => classNameTokens? macros (rest.drop k)
    else if (t.isWord "alignas" || t.isWord "__declspec") && headMark "(" rest then
      match closeBrackets [] rest with
      | none => none
      | some k => classNameTokens? macros (rest.drop (k + 1))
    else some (t :: rest)
termination_by tokens.length
decreasing_by all_goals simp; try omega

def keyedName? (macros : List Text) : List Token → Option Text
  | [] => none
  | key :: rest =>
    if key.isWord "class" || key.isWord "struct" then
      match classNameTokens? macros rest with
      | some (name :: behind) =>
        if name.isIdentifier && !headMark ";" behind then some name.text else none
      | _ => none
    else none

def classNameOf? (macros : List Text) : List Token → Option Text
  | [] => none
  | first :: rest =>
    if first.isWord "template" then
      match angleSpan rest with
      | some k => keyedName? macros (rest.drop k)
      | none => none
    else keyedName? macros (first :: rest)

def className? (c : Conventions) (line : Text) : Option Text :=
  if ["class", "struct", "template"].any fun key => key.toList.isPrefixOf line then
    match Lexer.tokenize 1 line with
    | .ok tokens => classNameOf? c.classMacros tokens
    | .error _ => none
  else none

/-- The tokens in front of the semicolon or body that ends a declaration. -/
def declarationTokens? (depth : Nat) : List Token → Option (List Token)
  | [] => none
  | t :: rest =>
    if t.isMarkIn ["(", "["] then (declarationTokens? (depth + 1) rest).map (t :: ·)
    else if t.isMarkIn [")", "]", "\x7d"] then (declarationTokens? (depth - 1) rest).map (t :: ·)
    else if t.isMark "\x7b" then
      if depth = 0 then some [] else (declarationTokens? (depth + 1) rest).map (t :: ·)
    else if t.isMark ";" && depth = 0 then some []
    else (declarationTokens? depth rest).map (t :: ·)

def declaration (line lookahead : Nat) (rest : Text) (below : List Text) :
    Except ScanFault (List Token) :=
  let lexed := Lexer.lex line (rest ++ (below.take lookahead).flatten)
  match declarationTokens? 0 lexed.tokens, lexed.fault with
  | some tokens, _ => .ok tokens
  | none, some fault => .error (.lexical fault)
  | none, none => .error (.unterminated line lookahead)

/-- What is known of the generated block behind some lines. -/
inductive Progress where
  | absent
  | opened (opening : Nat)
  | closed (block : Block)
  deriving DecidableEq, Repr

def Progress.advance (index : Nat) : Sentinel → Progress → Except ScanFault Progress
  | .opening, .absent => .ok (.opened index)
  | .opening, _ => .error (.unbalanced (index + 1) .secondBegin)
  | .closing, .opened opening => .ok (.closed ⟨opening, index⟩)
  | .closing, _ => .error (.unbalanced (index + 1) .strayEnd)

def Progress.finish : Progress → Except ScanFault (Option Block)
  | .absent => .ok none
  | .opened opening => .error (.unbalanced (opening + 1) .neverClosed)
  | .closed block => .ok (some block)

def Progress.isOpen : Progress → Bool
  | .opened _ => true
  | _ => false

def push (marked : Marked) (scan : Scan) : Scan :=
  { scan with functions := marked :: scan.functions }

/-- Scans the lines below those seen already, which are given nearest first. -/
def scanBelow (c : Conventions) (above : List Text) (enclosing : Option Text)
    (progress : Progress) : List Text → Except ScanFault Scan
  | [] => progress.finish.map fun block => ⟨[], block⟩
  | line :: below =>
    match sentinel? c line with
    | some sentinel => do
      let progress ← progress.advance above.length sentinel
      scanBelow c (line :: above) enclosing progress below
    | none =>
      if progress.isOpen then scanBelow c (line :: above) enclosing progress below
      else
        match className? c line, afterMarker? c.marker line, enclosing with
        | some name, _, _ => scanBelow c (line :: above) (some name) progress below
        | none, none, _ => scanBelow c (line :: above) enclosing progress below
        | none, some _, none => .error (.noClass (above.length + 1))
        | none, some rest, some name => do
          let tokens ← declaration (above.length + 1) c.maxLookahead rest below
          let docs := Docs.ofAbove line.indentation.length c.maxLookahead above
          let scan ← scanBelow c (line :: above) enclosing progress below
          return scan.push ⟨name, tokens, docs, above.length + 1⟩

def ofLines (c : Conventions) (lines : List Text) : Except ScanFault Scan :=
  scanBelow c [] none .absent lines

end Scan

end MemberLift
