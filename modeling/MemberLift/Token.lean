import MemberLift.Text.Basic

/-!
Tokens of declaration text, and the text that a list of tokens stands for.
-/
namespace MemberLift

inductive Token.Kind where
  | identifier
  | number
  | stringLiteral
  | charLiteral
  | punctuator
  deriving DecidableEq, Repr

/-- A token with the blank space in front of it, where each comment counts as one space, and the
line it begins on. -/
structure Token where
  kind : Token.Kind
  text : Text
  leading : Text
  line : Nat
  deriving DecidableEq, Repr

namespace Token

def isIdentifier (t : Token) : Bool := t.kind = .identifier

def isWord (t : Token) (word : String) : Bool := t.kind = .identifier && t.text = word.toList

def isMark (t : Token) (mark : String) : Bool := t.kind = .punctuator && t.text = mark.toList

def isWordIn (t : Token) (words : List Text) : Bool := t.kind = .identifier && words.contains t.text

def isMarkIn (t : Token) (marks : List String) : Bool := marks.any t.isMark

/-- The text of a token that stands behind others: blank space in front of it becomes one space. -/
def spaced (t : Token) : Text := if t.leading.isEmpty then t.text else ' ' :: t.text

end Token

def render : List Token → Text
  | [] => []
  | t :: rest => t.text ++ rest.flatMap Token.spaced

def renderSpaced (tokens : List Token) : Text := tokens.flatMap Token.spaced

theorem renderSpaced_append (a b : List Token) :
    renderSpaced (a ++ b) = renderSpaced a ++ renderSpaced b := List.flatMap_append

theorem render_append (t : Token) (a b : List Token) :
    render (t :: a ++ b) = render (t :: a) ++ renderSpaced b := by
  simp [render, renderSpaced]

end MemberLift
