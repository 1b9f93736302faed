import MemberLift.Text.Basic

/-!
UTF-8.  Reading takes one sequence at a time; a sequence that is no character is either wrong at a
known length (the longest proper beginning of a character, at least one byte) or cut off by the end
of the input.
-/
namespace MemberLift

abbrev Bytes := List UInt8

namespace Utf8

def encode (t : Text) : Bytes := t.flatMap String.utf8EncodeChar

/-- Where reading fails: the offset of the sequence and, unless the input ends inside it, its
length. -/
structure Fault where
  offset : Nat
  length : Option Nat
  deriving DecidableEq, Repr

def Fault.message (f : Fault) : Text :=
  match f.length with
  | some n =>
    "invalid utf-8 sequence of ".toList ++ Text.ofNat n ++ " bytes from index ".toList ++
      Text.ofNat f.offset
  | none => "incomplete utf-8 byte sequence from index ".toList ++ Text.ofNat f.offset

inductive Step where
  | char (c : Char) (size : Nat)
  | wrong (size : Nat)
  | cut
  deriving DecidableEq, Repr

def isContinuation (b : UInt8) : Bool := 0x80 ≤ b && b ≤ 0xBF

/-- The number of bytes that a first byte announces, none for a byte that begins no character. -/
def width (b : UInt8) : Option Nat :=
  if b < 0x80 then some 1
  else if 0xC2 ≤ b && b ≤ 0xDF then some 2
  else if 0xE0 ≤ b && b ≤ 0xEF then some 3
  else if 0xF0 ≤ b && b ≤ 0xF4 then some 4
  else none

/-- The second bytes that may follow a first byte: overlong forms, surrogates and values past the
last code point are excluded here. -/
def allowsSecond (first second : UInt8) : Bool :=
  if first = 0xE0 then 0xA0 ≤ second && second ≤ 0xBF
  else if first = 0xED then 0x80 ≤ second && second ≤ 0x9F
  else if first = 0xF0 then 0x90 ≤ second && second ≤ 0xBF
  else if first = 0xF4 then 0x80 ≤ second && second ≤ 0x8F
  else isContinuation second

def payload (b : UInt8) : Nat := b.toNat % 64

def assemble (first : UInt8) (width : Nat) (rest : List UInt8) : Char :=
  let lead := match width with
    | 1 => first.toNat
    | 2 => first.toNat % 32
    | 3 => first.toNat % 16
    | _ => first.toNat % 8
  Char.ofNat (rest.foldl (fun n b => 64 * n + payload b) lead)

def step (first : UInt8) (rest : Bytes) : Step :=
  match width first with
  | none => .wrong 1
  | some 1 => .char (assemble first 1 []) 1
  | some w =>
    match rest with
    | [] => .cut
    | b :: rest =>
      if !allowsSecond first b then .wrong 1
      else if w = 2 then .char (assemble first 2 [b]) 2
      else match rest with
        | [] => .cut
        | c :: rest =>
          if !isContinuation c then .wrong 2
          else if w = 3 then .char (assemble first 3 [b, c]) 3
          else match rest with
            | [] => .cut
            | d :: _ =>
              if !isContinuation d then .wrong 3
              else .char (assemble first 4 [b, c, d]) 4

def decodeFrom (offset : Nat) : Bytes → Except Fault Text
  | [] => .ok []
  | first :: rest =>
    match step first rest with
    | .char c size => (c :: ·) <$> decodeFrom (offset + size) (rest.drop (size - 1))
    | .wrong size => .error ⟨offset, some size⟩
    | .cut => .error ⟨offset, none⟩
termination_by bytes => bytes.length
decreasing_by simp only [List.length_drop, List.length_cons]; omega

def decode (bytes : Bytes) : Except Fault Text := decodeFrom 0 bytes

def decodeLossy : Bytes → Text
  | [] => []
  | first :: rest =>
    match step first rest with
    | .char c size => c :: decodeLossy (rest.drop (size - 1))
    | .wrong size => '\uFFFD' :: decodeLossy (rest.drop (size - 1))
    | .cut => ['\uFFFD']
termination_by bytes => bytes.length
decreasing_by all_goals simp only [List.length_drop, List.length_cons]; omega

end Utf8

end MemberLift
