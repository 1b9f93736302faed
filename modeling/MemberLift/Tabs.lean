import MemberLift.Text.Utf8

/-!
What the tabs of a text stand for.  A tab goes on to the next column that is a multiple of the
width.  Columns count bytes and begin anew behind a line feed or carriage return.  Columns and texts
have no greatest length here; `Checked.expandTabs` is the run that computes them in machine words.
-/
namespace MemberLift.Tabs

def tab : UInt8 := 0x09

def space : UInt8 := 0x20

def endsLine (b : UInt8) : Bool := b = 0x0A || b = 0x0D

/-- The number of spaces from a column to the next stop; none if tabs have no width. -/
def padding (width column : Nat) : Nat := if width = 0 then 0 else width - column % width

def expandFrom (width column : Nat) : Bytes → Bytes
  | [] => []
  | b :: rest =>
    if b = tab then
      List.replicate (padding width column) space ++
        expandFrom width (column + padding width column) rest
    else if endsLine b then b :: expandFrom width 0 rest
    else b :: expandFrom width (column + 1) rest

def expand (width : Nat) (bytes : Bytes) : Bytes := expandFrom width 0 bytes

def expandText (width : Nat) (text : Text) : Text :=
  Utf8.decodeLossy (expand width (Utf8.encode text))

end MemberLift.Tabs
