import MemberLift.Format.Value
import MemberLift.Format.Digits

/-!
TOML's values that stand without quotes or brackets: truth values, numbers, dates and times.
-/
namespace MemberLift.Toml

def isScalarChar (c : Char) : Bool := c.isAlphanum || "_+-.:".toList.contains c

def isDigitRun (base : Nat) (t : Text) : Bool :=
  (Text.splitAt '_' t).all fun piece => !piece.isEmpty && piece.all (Digits.isIn base)

def dropUnderscores (t : Text) : Text := t.filter (· ≠ '_')

def sign : Text → Option Char × Text
  | '+' :: rest => (some '+', rest)
  | '-' :: rest => (some '-', rest)
  | t => (none, t)

/-- Whether digits spell a whole number in base ten, without a zero in front. -/
def isWhole (t : Text) : Bool := isDigitRun 10 t && (t.length = 1 || t.head? ≠ some '0')

/-- A whole number of sixty-four bits with a sign; those below zero are not kept. -/
def whole? (t : Text) : Option Value :=
  let fitting (limit n : Nat) (v : Value) : Option Value := if n < limit then some v else none
  let based (base : Nat) (digits : Text) : Option Value :=
    let n := Digits.toNat base (dropUnderscores digits)
    if isDigitRun base digits then fitting (Nat.pow 2 63) n (.number n) else none
  match t with
  | '0' :: 'x' :: digits => based 16 digits
  | '0' :: 'o' :: digits => based 8 digits
  | '0' :: 'b' :: digits => based 2 digits
  | _ =>
    let (mark, digits) := sign t
    let n := Digits.toNat 10 (dropUnderscores digits)
    if !isWhole digits then none
    else if mark = some '-' && n ≠ 0 then fitting (Nat.pow 2 63 + 1) n .other
    else fitting (Nat.pow 2 63) n (.number n)

/-- A fraction or a number with an exponent: its sign, all its digits, how many of them stand behind
the point, and the power of ten that they are multiplied with. -/
structure Fraction where
  mark : Option Char
  digits : Text
  places : Nat
  exponent : Int
  deriving DecidableEq, Repr

def exponent? : Text → Option Int
  | [] => some 0
  | c :: rest =>
    let (mark, digits) := sign rest
    let n := Digits.toNat 10 (dropUnderscores digits)
    if (c = 'e' || c = 'E') && isDigitRun 10 digits then some (if mark = some '-' then -n else n)
    else none

def fraction? (t : Text) : Option Fraction :=
  let (mark, body) := sign t
  let isPart (c : Char) := c.isDigit || c = '_'
  let whole := body.takeWhile isPart
  if !isWhole whole then none
  else match body.drop whole.length with
    | [] => none
    | '.' :: rest =>
      let part := rest.takeWhile isPart
      let places := dropUnderscores part
      if !isDigitRun 10 part then none
      else (exponent? (rest.drop part.length)).map fun exponent =>
        ⟨mark, dropUnderscores whole ++ places, places.length, exponent⟩
    | rest => (exponent? rest).map fun exponent => ⟨mark, dropUnderscores whole, 0, exponent⟩

/-- Whether a fraction, its sign apart, is too large for a number of double precision: at least half
a step above the largest.  Its size is settled by the count of its digits unless that is near. -/
def Fraction.isHuge (f : Fraction) : Bool :=
  let digits := f.digits.dropWhile (· = '0')
  let power := f.exponent - f.places
  let size := power + digits.length
  let n := Digits.toNat 10 digits
  if digits.isEmpty || size ≤ 300 then false
  else if 310 ≤ size then true
  else
    let least := Nat.pow 2 1024 - Nat.pow 2 970
    least * Nat.pow 10 (-power).toNat ≤ n * Nat.pow 10 power.toNat

def isFraction (t : Text) : Bool :=
  let body := (sign t).2
  body = "inf".toList || body = "nan".toList ||
    (fraction? t).any fun f => f.mark = some '-' || !f.isHuge

def isPair (low high : Nat) (a b : Char) : Bool :=
  let n := Digits.toNat 10 [a, b]
  a.isDigit && b.isDigit && low ≤ n && n ≤ high

def isLeapYear (year : Nat) : Bool :=
  year % 4 = 0 && (year % 100 ≠ 0 || year % 400 = 0)

def daysIn (year month : Nat) : Nat :=
  if month = 2 then (if isLeapYear year then 29 else 28)
  else if [4, 6, 9, 11].contains month then 30
  else 31

def afterDate? : Text → Option Text
  | a :: b :: c :: d :: '-' :: m :: n :: '-' :: x :: y :: rest =>
    let year := Digits.toNat 10 [a, b, c, d]
    if [a, b, c, d].all Char.isDigit && isPair 1 12 m n &&
        isPair 1 (daysIn year (Digits.toNat 10 [m, n])) x y then some rest
    else none
  | _ => none

def afterTime? : Text → Option Text
  | a :: b :: ':' :: c :: d :: ':' :: e :: f :: rest =>
    if isPair 0 23 a b && isPair 0 59 c d && isPair 0 60 e f then
      match rest with
      | '.' :: digits =>
        if digits.head?.any Char.isDigit then some (digits.dropWhile Char.isDigit) else none
      | _ => some rest
    else none
  | _ => none

def isOffset : Text → Bool
  | [] => true
  | [c] => c = 'Z' || c = 'z'
  | [c, a, b, ':', d, e] => (c = '+' || c = '-') && isPair 0 23 a b && isPair 0 59 d e
  | _ => false

def isMoment (t : Text) : Bool :=
  match afterDate? t with
  | none => afterTime? t = some []
  | some [] => true
  | some (c :: rest) =>
    (c = 'T' || c = 't' || c = ' ') && match afterTime? rest with
      | none => false
      | some offset => isOffset offset

/-- The value that a text without quotes and brackets stands for.  Dates and times are read as
tables in which no setting has a name. -/
def scalar? (t : Text) : Option Value :=
  if t = "true".toList then some (.bool true)
  else if t = "false".toList then some (.bool false)
  else if isMoment t then some (.table [])
  else if isFraction t then some .other
  else whole? t

end MemberLift.Toml
