import MemberLift.Text.Alphabet

/-!
Texts as lists of characters, with the searches and trimmings that every other module shares.
`occursIn_iff` says what a search finds, `cutBefore_append` that cutting loses nothing.
-/
namespace MemberLift

abbrev Text := List Char

namespace Text

def ofNat (n : Nat) : Text := Nat.toDigits 10 n

def trimStart (t : Text) : Text := t.dropWhile Alphabet.isBlank

def trimEnd (t : Text) : Text := (t.reverse.dropWhile Alphabet.isBlank).reverse

def trim (t : Text) : Text := trimEnd (trimStart t)

def indentation (t : Text) : Text := t.takeWhile Alphabet.isBlank

def newlines (t : Text) : Nat := t.count '\n'

def occursIn (needle : Text) : Text → Bool
  | [] => needle.isEmpty
  | c :: rest => needle.isPrefixOf (c :: rest) || occursIn needle rest

/-- The part before the first occurrence of a needle, and the part from it on. -/
def cutBefore (needle : Text) : Text → Option (Text × Text)
  | [] => if needle.isEmpty then some ([], []) else none
  | c :: rest =>
    if needle.isPrefixOf (c :: rest) then some ([], c :: rest)
    else (cutBefore needle rest).map fun parts => (c :: parts.1, parts.2)

def cutAround (needle t : Text) : Option (Text × Text) :=
  (cutBefore needle t).map fun parts => (parts.1, parts.2.drop needle.length)

def join (separator : Text) : List Text → Text
  | [] => []
  | [piece] => piece
  | piece :: rest => piece ++ separator ++ join separator rest

def splitAt (separator : Char) : Text → List Text
  | [] => [[]]
  | c :: rest =>
    if c = separator then [] :: splitAt separator rest
    else match splitAt separator rest with
      | [] => [[c]]
      | piece :: pieces => (c :: piece) :: pieces

/-- The decimal number that a text of ASCII digits alone spells. -/
def toNat? (t : Text) : Option Nat :=
  if !t.isEmpty && t.all Char.isDigit then
    some (t.foldl (fun n c => 10 * n + (c.toNat - '0'.toNat)) 0)
  else none

theorem occursIn_iff (needle t : Text) : occursIn needle t = true ↔ needle <:+: t := by
  induction t with
  | nil => simp [occursIn]
  | cons c rest ih => simp [occursIn, ih, List.infix_cons_iff]

theorem cutBefore_append (needle t before after : Text)
    (h : cutBefore needle t = some (before, after)) :
    t = before ++ after ∧ needle <+: after := by
  induction t generalizing before after with
  | nil =>
    simp only [cutBefore] at h
    split at h
    · rename_i empty
      cases h
      simp_all
    · cases h
  | cons c rest ih =>
    simp only [cutBefore] at h
    split at h
    · rename_i here
      cases h
      exact ⟨rfl, List.isPrefixOf_iff_prefix.mp here⟩
    · obtain ⟨⟨b, a⟩, found, same⟩ := Option.map_eq_some_iff.mp h
      cases same
      have parts := ih b a found
      exact ⟨by rw [List.cons_append, ← parts.1], parts.2⟩

theorem indentation_append_trimStart (t : Text) : indentation t ++ trimStart t = t :=
  List.takeWhile_append_dropWhile

end Text

end MemberLift
