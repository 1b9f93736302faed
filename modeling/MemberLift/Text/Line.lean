import MemberLift.Text.Basic

/-!
Lines, each with the line feed that ends it, and the line ending that a text uses.
-/
namespace MemberLift

namespace Text

/-- The lines of a text; the last one may lack its line feed, and the empty text has none. -/
def lines : Text → List Text
  | [] => []
  | c :: rest =>
    if c = '\n' then [c] :: lines rest
    else match lines rest with
      | [] => [[c]]
      | line :: more => (c :: line) :: more

theorem lines_flatten (t : Text) : (lines t).flatten = t := by
  induction t with
  | nil => rfl
  | cons c rest ih =>
    simp only [lines]
    split
    · simp [ih]
    · split
      · rename_i empty
        rw [empty] at ih
        simp [← ih]
      · rename_i line more whole
        rw [whole] at ih
        simp [← ih]

end Text

inductive LineEnding where
  | lf
  | crlf
  deriving DecidableEq, Repr

namespace LineEnding

def text : LineEnding → Text
  | .lf => ['\n']
  | .crlf => ['\r', '\n']

/-- The ending of the first line; a text of one line without an end counts as having line feeds. -/
def detect (t : Text) : LineEnding :=
  if crlf.text.isSuffixOf (t.lines.headD []) then .crlf else .lf

end LineEnding

end MemberLift
