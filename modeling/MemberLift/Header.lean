import MemberLift.Wrapper

/-!
The transformation of a header: its marked functions are found, their wrappers written, and the
wrappers put into the generated block.
-/
namespace MemberLift

inductive HeaderFault where
  | lexical (fault : Lexer.Fault)
  | declaration (line : Nat) (fault : DeclarationFault)
  | unterminated (line lookahead : Nat)
  | unbalanced (line : Nat) (cause : BlockFault)
  | noAnchor (anchor : Text)
  | noClass (line : Nat)
  deriving DecidableEq, Repr

def ScanFault.toHeaderFault : ScanFault → HeaderFault
  | .lexical fault => .lexical fault
  | .unterminated line lookahead => .unterminated line lookahead
  | .unbalanced line cause => .unbalanced line cause
  | .noClass line => .noClass line

def parseMessage (line : Nat) (message : Text) : Text :=
  "Parse error at line ".toList ++ Text.ofNat line ++ ": ".toList ++ message

def HeaderFault.message : HeaderFault → Text
  | .lexical fault => parseMessage fault.line fault.cause.message
  | .declaration line fault => parseMessage line fault.message
  | .unterminated line lookahead =>
    "Declaration marked at line ".toList ++ Text.ofNat line ++
      " is not terminated within ".toList ++ Text.ofNat lookahead ++ " lines".toList
  | .unbalanced line cause =>
    "Unbalanced generated block at line ".toList ++ Text.ofNat line ++ ": ".toList ++ cause.message
  | .noAnchor anchor =>
    "No line starting with \x60".toList ++ anchor ++
      "\x60 to insert the generated block before".toList
  | .noClass line =>
    "Marked function at line ".toList ++ Text.ofNat line ++ " is not inside a class".toList

namespace Header

/-- The lines in front of the last line with a property, and the lines from it on. -/
def cutAtLast (p : Text → Bool) : List Text → Option (List Text × List Text)
  | [] => none
  | line :: rest =>
    match cutAtLast p rest with
    | some (before, after) => some (line :: before, after)
    | none => if p line then some ([], line :: rest) else none

def isAnchor (c : Conventions) (line : Text) : Bool := c.namespaceEnd.isPrefixOf line

/-- A new block, with an empty line behind it. -/
def newBlock (c : Conventions) (ending : LineEnding) (generated : Text) : Text :=
  c.blockBegin ++ ending.text ++ generated ++ c.blockEnd ++ ending.text ++ ending.text

/-- Puts generated text between the sentinels of a block, or into a new block in front of the last
line that ends the namespace. -/
def splice (c : Conventions) (ending : LineEnding) (lines : List Text) (block : Option Block)
    (generated : Text) : Except HeaderFault Text :=
  match block with
  | some b =>
    .ok ((lines.take (b.opening + 1)).flatten ++ generated ++ (lines.drop b.closing).flatten)
  | none =>
    match cutAtLast (isAnchor c) lines with
    | none => .error (.noAnchor c.namespaceEnd)
    | some (before, after) =>
      .ok (before.flatten ++ newBlock c ending generated ++ after.flatten)

def wrappers (c : Conventions) (ending : LineEnding) :
    List Marked → Except HeaderFault (List Wrapper)
  | [] => .ok []
  | marked :: rest =>
    match Wrapper.ofMarked c ending marked with
    | .error fault => .error (.declaration (Declaration.line marked.tokens) fault)
    | .ok wrapper => (wrappers c ending rest).map (wrapper :: ·)

def scan (c : Conventions) (text : Text) : Except HeaderFault Scan :=
  (Scan.ofLines c text.lines).mapError ScanFault.toHeaderFault

end Header

structure Lifted where
  output : Text
  changed : Bool
  freed : List Freed
  deriving DecidableEq, Repr

/-- Transforms a header.  One without marked functions stays as it is, also if it has a block. -/
def liftHeader (c : Conventions) (text : Text) : Except HeaderFault Lifted := do
  let scan ← Header.scan c text
  if scan.functions.isEmpty then return ⟨text, false, []⟩
  let ending := LineEnding.detect text
  let wrappers ← Header.wrappers c ending scan.functions
  let output ← Header.splice c ending text.lines scan.block (wrappers.flatMap Wrapper.text)
  return ⟨output, output != text, wrappers.map Wrapper.summary⟩

end MemberLift
