import MemberLift.Format.Reader
import MemberLift.Format.Digits

/-!
JSON.  Reading accepts exactly the grammar, with blank space around values; writing puts every item
and every entry on a line of its own.
-/
namespace MemberLift.Json

/-- A part of a text: a character, or sixteen bits that an escape gives by number. -/
inductive Piece where
  | char (c : Char)
  | unit (n : Nat)
  deriving DecidableEq, Repr

def escaped? : Char → Option Char
  | '"' => some '"'
  | '\\' => some '\\'
  | '/' => some '/'
  | 'b' => some '\x08'
  | 'f' => some '\x0c'
  | 'n' => some '\n'
  | 'r' => some '\r'
  | 't' => some '\t'
  | _ => none

def pieces : Text → Option (List Piece × Text)
  | [] => none
  | '"' :: rest => some ([], rest)
  | '\\' :: 'u' :: a :: b :: c :: d :: rest =>
    if [a, b, c, d].all Digits.isHex then
      (pieces rest).map fun p => (.unit (Digits.toNat 16 [a, b, c, d]) :: p.1, p.2)
    else none
  | '\\' :: c :: rest =>
    match escaped? c with
    | none => none
    | some c => (pieces rest).map fun p => (.char c :: p.1, p.2)
  | c :: rest =>
    if c = '\\' || c < ' ' then none else (pieces rest).map fun p => (.char c :: p.1, p.2)

def isHighHalf (n : Nat) : Bool := 0xD800 ≤ n && n ≤ 0xDBFF

def isLowHalf (n : Nat) : Bool := 0xDC00 ≤ n && n ≤ 0xDFFF

/-- The text that pieces make; two halves make one character, and one half makes none. -/
def assemble : List Piece → Option Text
  | [] => some []
  | .char c :: rest => (assemble rest).map (c :: ·)
  | .unit high :: .unit low :: rest =>
    if isHighHalf high && isLowHalf low then
      (assemble rest).map (Char.ofNat (0x10000 + 0x400 * (high - 0xD800) + (low - 0xDC00)) :: ·)
    else if isHighHalf high || isLowHalf high then none
    else (assemble (.unit low :: rest)).map (Char.ofNat high :: ·)
  | .unit n :: rest =>
    if isHighHalf n || isLowHalf n then none else (assemble rest).map (Char.ofNat n :: ·)

def blanks : Reader Unit := do
  let _ ← Reader.span fun c => c = ' ' || c = '\n' || c = '\t' || c = '\r'

def digits : Reader Text := Reader.span1 Char.isDigit

def whole : Reader Text := do
  if ← Reader.accept ['0'] then return ['0'] else digits

def fraction : Reader Bool := do
  if ← Reader.accept ['.'] then
    let _ ← digits
    return true
  else return false

def exponent : Reader Bool := do
  match ← Reader.peek with
  | some 'e' | some 'E' =>
    let _ ← Reader.next
    if !(← Reader.accept ['+']) then let _ ← Reader.accept ['-']
    let _ ← digits
    return true
  | _ => return false

/-- A number; only whole numbers of sixty-four bits without a sign are kept. -/
def number : Reader Value := do
  let negative ← Reader.accept ['-']
  let n := Digits.toNat 10 (← whole)
  let broken ← fraction
  let scaled ← exponent
  return if negative || broken || scaled || Nat.pow 2 64 ≤ n then .other else .number n

def text : Reader (Option Text) := fun s => (pieces s).map fun p => (assemble p.1, p.2)

def key : Reader (Option Text) := do
  blanks
  Reader.expect ['"']
  text

/-- A table, which no setting takes if a key of it makes no text. -/
def tableOf (entries : List (Option Text × Value)) : Value :=
  match entries.mapM fun entry => entry.1.map fun name => (name, entry.2) with
  | some entries => .table entries
  | none => .other

mutual

/-- Each step takes fuel; values of a text need no more than two steps for each character. -/
def value : Nat → Reader Value
  | 0 => failure
  | fuel + 1 => do
    blanks
    if ← Reader.accept ['"'] then
      match ← text with
      | some t => return .text t
      | none => return .other
    else if ← Reader.accept ['['] then
      blanks
      if ← Reader.accept [']'] then return .list [] else return .list (← items fuel)
    else if ← Reader.accept ['\x7b'] then
      blanks
      if ← Reader.accept ['\x7d'] then return .table [] else return tableOf (← entries fuel)
    else if ← Reader.accept "true".toList then return .bool true
    else if ← Reader.accept "false".toList then return .bool false
    else if ← Reader.accept "null".toList then return .null
    else number

def items : Nat → Reader (List Value)
  | 0 => failure
  | fuel + 1 => do
    let first ← value fuel
    blanks
    if ← Reader.accept [','] then return first :: (← items fuel)
    Reader.expect [']']
    return [first]

def entries : Nat → Reader (List (Option Text × Value))
  | 0 => failure
  | fuel + 1 => do
    let name ← key
    blanks
    Reader.expect [':']
    let first ← value fuel
    blanks
    if ← Reader.accept [','] then return (name, first) :: (← entries fuel)
    Reader.expect ['\x7d']
    return [(name, first)]

end

def read (t : Text) : Option Value :=
  Reader.run (do
    let v ← value (2 * t.length + 2)
    blanks
    return v) t

def escape (c : Char) : Text :=
  if c = '"' then ['\\', '"']
  else if c = '\\' then ['\\', '\\']
  else if c = '\x08' then ['\\', 'b']
  else if c = '\x0c' then ['\\', 'f']
  else if c = '\n' then ['\\', 'n']
  else if c = '\r' then ['\\', 'r']
  else if c = '\t' then ['\\', 't']
  else if c < ' ' then '\\' :: 'u' :: Digits.hex4 c.toNat
  else [c]

def quote (t : Text) : Text := '"' :: t.flatMap escape ++ ['"']

def newLine (depth : Nat) : Text := '\n' :: List.replicate (2 * depth) ' '

def enclose (opening closing : Char) (depth : Nat) (written : List Text) : Text :=
  if written.isEmpty then [opening, closing]
  else opening :: newLine (depth + 1) ++ Text.join (',' :: newLine (depth + 1)) written ++
    newLine depth ++ [closing]

mutual

def writeAt (depth : Nat) (v : Value) : Text :=
  match v with
  | .null | .other => "null".toList
  | .bool b => (if b then "true" else "false").toList
  | .number n => Text.ofNat n
  | .text t | .plain t => quote t
  | .list items => enclose '[' ']' depth (writeItems (depth + 1) items)
  | .table entries => enclose '\x7b' '\x7d' depth (writeEntries (depth + 1) entries)

def writeItems (depth : Nat) (items : List Value) : List Text :=
  match items with
  | [] => []
  | v :: rest => writeAt depth v :: writeItems depth rest

def writeEntries (depth : Nat) (entries : List (Text × Value)) : List Text :=
  match entries with
  | [] => []
  | (name, v) :: rest =>
    (quote name ++ ": ".toList ++ writeAt depth v) :: writeEntries depth rest

end

def write (v : Value) : Text := writeAt 0 v

end MemberLift.Json
