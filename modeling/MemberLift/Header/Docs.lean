import MemberLift.Text.Basic

/-!
The documentation comment in front of a line.  The lines above are given nearest first.
-/
namespace MemberLift.Docs

def isLineDoc (line : Text) : Bool :=
  "//!".toList.isPrefixOf line.trim || "///".toList.isPrefixOf line.trim

def endsBlockDoc (line : Text) : Bool := "*/".toList.isSuffixOf line.trim

def opensComment (line : Text) : Bool := Text.occursIn "/*".toList line

def opensBlockDoc (line : Text) : Bool :=
  "/*!".toList.isPrefixOf line.trimStart || "/**".toList.isPrefixOf line.trimStart

def dedent : Nat → Text → Text
  | n + 1, c :: rest => if c = ' ' || c = '\t' then dedent n rest else c :: rest
  | _, line => line

/-- How many of the lines above belong to the documentation: those back to the nearest line that
opens a comment, if that is a documentation comment and the nearest line ends one, or the run of
line comments. -/
def height (lookahead : Nat) (above : List Text) : Option Nat :=
  match above with
  | [] => none
  | previous :: _ =>
    if endsBlockDoc previous then
      let inside := (above.take lookahead).takeWhile fun line => !opensComment line
      match (above.take lookahead)[inside.length]? with
      | some opening => if opensBlockDoc opening then some (inside.length + 1) else none
      | none => none
    else if isLineDoc previous then some (above.takeWhile isLineDoc).length
    else none

/-- The documentation right in front of a line, without the line's indentation. -/
def ofAbove (indent lookahead : Nat) (above : List Text) : Option Text :=
  (height lookahead above).map fun n => (above.take n).reverse.flatMap (dedent indent)

end MemberLift.Docs
