import MemberLift.Text.Basic

/-!
The values that settings files and reports are made of.
-/
namespace MemberLift

/-- A value.  A plain text is one whose reader decides whether it is a text or a number; `other` is
a value that no setting takes, such as a fraction. -/
inductive Value where
  | null
  | bool (b : Bool)
  | number (n : Nat)
  | text (t : Text)
  | plain (t : Text)
  | list (items : List Value)
  | table (entries : List (Text × Value))
  | other

end MemberLift
