import MemberLift.Text.Basic

/-!
Numbers as digits in bases up to sixteen.
-/
namespace MemberLift.Digits

def value (c : Char) : Nat :=
  if c.isDigit then c.toNat - '0'.toNat
  else if 'a' ≤ c && c ≤ 'f' then c.toNat - 'a'.toNat + 10
  else if 'A' ≤ c && c ≤ 'F' then c.toNat - 'A'.toNat + 10
  else 16

def isIn (base : Nat) (c : Char) : Bool := value c < base

def isHex (c : Char) : Bool := isIn 16 c

def toNat (base : Nat) (digits : Text) : Nat := digits.foldl (fun n c => base * n + value c) 0

def hex4 (n : Nat) : Text :=
  let digits := Nat.toDigits 16 n
  List.replicate (4 - digits.length) '0' ++ digits

end MemberLift.Digits
