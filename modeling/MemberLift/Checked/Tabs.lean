import MemberLift.Checked
import MemberLift.Transformer

/-!
Tab expansion on machine words.  What is written stands in a vector of bytes, and a tab brings the
vector to the length that the sum of its size and the spaces gives.  A sum that lost its carry gives
a length that is too short, and the vector is cut.  That memory runs out, or that a vector asks for
more than it needs when it grows, before it is full is left out.
-/
namespace MemberLift.Checked

open MemberLift.Tabs (tab space endsLine)

/-- The number of bytes that a vector has room for. -/
def room : Nat := words / 2 - 1

def push (bytes : Array UInt8) (b : UInt8) : Except Trap (Array UInt8) :=
  if bytes.size < room then .ok (bytes.push b) else .error .capacity

/-- Bytes brought to a length, by spaces behind them or by a cut. -/
def resize (bytes : Array UInt8) (length : Nat) : Except Trap (Array UInt8) :=
  if length ≤ bytes.size then .ok (bytes.take length)
  else if length ≤ room then .ok (bytes ++ Array.replicate (length - bytes.size) space)
  else .error .capacity

structure Written where
  bytes : Array UInt8
  column : Nat
  deriving DecidableEq, Repr

def Written.start : Written := ⟨#[], 0⟩

def writeTab (carry : Carry) (width : Nat) (w : Written) : Except Trap Written := do
  let pad ← minus width (w.column % width)
  let length ← plus carry w.bytes.size pad
  let bytes ← resize w.bytes length
  let column ← plus carry w.column pad
  return ⟨bytes, column⟩

def writeByte (carry : Carry) (w : Written) (b : UInt8) : Except Trap Written := do
  let bytes ← push w.bytes b
  if endsLine b then return ⟨bytes, 0⟩ else return ⟨bytes, ← plus carry w.column 1⟩

def write (carry : Carry) (width : Nat) (w : Written) (b : UInt8) : Except Trap Written :=
  if b = tab then if 0 < width then writeTab carry width w else .ok w
  else writeByte carry w b

def expandTabs (carry : Carry) (width : Nat) (bytes : Bytes) : Except Trap Bytes := do
  let w ← bytes.foldlM (write carry width) Written.start
  return w.bytes.toList

def expandTabsText (carry : Carry) (width : Nat) (text : Text) : Except Trap Text := do
  return Utf8.decodeLossy (← expandTabs carry width (Utf8.encode text))

def expandBytes (carry : Carry) (width : Nat) (bytes : Bytes) : Except Trap Rewritten :=
  if bytes.contains tab then do return ⟨← expandTabs carry width bytes, true, []⟩
  else .ok ⟨bytes, false, []⟩

def expandText (carry : Carry) (width : Nat) (text : Text) : Except Trap Lifted := do
  let r ← expandBytes carry width (Utf8.encode text)
  return ⟨Utf8.decodeLossy r.output, r.changed, r.freed⟩

end MemberLift.Checked
