import MemberLift.Format.Value

/-!
Readers take a text apart from the left.  A reader either fails or gives a value and the text that
is left.
-/
namespace MemberLift

abbrev Reader (α : Type) := StateT Text Option α

namespace Reader

def peek : Reader (Option Char) := fun s => some (s.head?, s)

def next : Reader Char
  | [] => none
  | c :: rest => some (c, rest)

def accept (word : Text) : Reader Bool := fun s =>
  if word.isPrefixOf s then some (true, s.drop word.length) else some (false, s)

def expect (word : Text) : Reader Unit := do
  if ← accept word then return () else failure

def span (p : Char → Bool) : Reader Text := fun s => some (s.takeWhile p, s.dropWhile p)

def span1 (p : Char → Bool) : Reader Text := do
  let t ← span p
  if t.isEmpty then failure else return t

def exactly (n : Nat) (p : Char → Bool) : Reader Text := fun s =>
  let t := s.take n
  if t.length = n && t.all p then some (t, s.drop n) else none

def lift {α : Type} (a : Option α) : Reader α := fun s => a.map fun a => (a, s)

def run {α : Type} (r : Reader α) (t : Text) : Option α :=
  match r t with
  | some (a, []) => some a
  | _ => none

end Reader

end MemberLift
