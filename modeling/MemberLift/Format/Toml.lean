import MemberLift.Format.Reader
import MemberLift.Format.Toml.Table
import MemberLift.Format.Toml.Scalar

/-!
TOML as it is read: lines of headers and keys, whose values may span several lines.
-/
namespace MemberLift.Toml

/-- A key has fewer parts, and a value stands in fewer brackets, than this. -/
def nestingLimit : Nat := 80

def isSpace (c : Char) : Bool := c = ' ' || c = '\t'

def isPrintable (c : Char) : Bool := c = '\t' || (' ' ≤ c && c ≠ '\x7f')

def spaces : Reader Unit := do
  let _ ← Reader.span isSpace

def newline : Reader Bool := do
  if ← Reader.accept ['\n'] then return true else Reader.accept ['\r', '\n']

def comment : Reader Unit := do
  if ← Reader.accept ['#'] then let _ ← Reader.span isPrintable

def lineEnd : Reader Unit := do
  spaces
  comment
  if ← newline then return ()
  else match ← Reader.peek with
    | none => return ()
    | some _ => failure

def blankLines : Nat → Reader Unit
  | 0 => failure
  | fuel + 1 => do
    spaces
    comment
    if ← newline then blankLines fuel

/-- The character with a number in base sixteen; half of a surrogate pair is none. -/
def characterOf (digits : Text) : Option Char :=
  let n := Digits.toNat 16 digits
  if (0xD800 ≤ n && n ≤ 0xDFFF) || 0x110000 ≤ n then none else some (Char.ofNat n)

def escape : Reader Char := do
  match ← Reader.next with
  | 'b' => return '\x08'
  | 't' => return '\t'
  | 'n' => return '\n'
  | 'f' => return '\x0c'
  | 'r' => return '\r'
  | '"' => return '"'
  | '\\' => return '\\'
  | 'u' => Reader.lift (characterOf (← Reader.exactly 4 Digits.isHex))
  | 'U' => Reader.lift (characterOf (← Reader.exactly 8 Digits.isHex))
  | _ => failure

def line (mark : Char) : Nat → Reader Text
  | 0 => failure
  | fuel + 1 => do
    let c ← Reader.next
    if c = mark then return []
    else if c = '\\' && mark = '"' then
      let c ← escape
      return c :: (← line mark fuel)
    else if isPrintable c then return c :: (← line mark fuel)
    else failure

def endsLine (s : Text) : Bool :=
  match s.dropWhile isSpace with
  | '\n' :: _ | '\r' :: '\n' :: _ => true
  | _ => false

def skipLines : Nat → Reader Unit
  | 0 => failure
  | fuel + 1 => do
    spaces
    if ← newline then skipLines fuel else return ()

/-- A text in triple quotes, behind the first three.  Up to two quotes may stand in front of the
last three. -/
def lines (mark : Char) : Nat → Reader Text
  | 0 => failure
  | fuel + 1 => do
    if ← Reader.accept (List.replicate 5 mark) then return [mark, mark]
    else if ← Reader.accept (List.replicate 4 mark) then return [mark]
    else if ← Reader.accept (List.replicate 3 mark) then return []
    else if ← newline then return '\n' :: (← lines mark fuel)
    else
      let c ← Reader.next
      if c = '\\' && mark = '"' then
        if endsLine (← get) then
          skipLines fuel
          lines mark fuel
        else
          let c ← escape
          return c :: (← lines mark fuel)
      else if isPrintable c then return c :: (← lines mark fuel)
      else failure

def quoted (fuel : Nat) (mark : Char) : Reader Text := do
  if ← Reader.accept [mark, mark] then
    let _ ← newline
    lines mark fuel
  else line mark fuel

def isBareKeyChar (c : Char) : Bool := c.isAlphanum || c = '_' || c = '-'

def keyPart (fuel : Nat) : Reader Text := do
  if ← Reader.accept ['"'] then line '"' fuel
  else if ← Reader.accept ['\''] then line '\'' fuel
  else Reader.span1 isBareKeyChar

def keyParts : Nat → Reader (List Text × Text)
  | 0 => failure
  | fuel + 1 => do
    spaces
    let part ← keyPart fuel
    spaces
    if ← Reader.accept ['.'] then
      let (path, name) ← keyParts fuel
      return (part :: path, name)
    else return ([], part)

def key (fuel : Nat) : Reader (List Text × Text) := do
  let (path, name) ← keyParts fuel
  if path.length + 1 < nestingLimit then return (path, name) else failure

/-- A value without quotes and brackets; a time may follow a date behind one space. -/
def scalar : Reader Value := do
  let first ← Reader.span1 isScalarChar
  let rest ← get
  match afterDate? first, rest with
  | some [], ' ' :: c :: _ =>
    if c.isDigit then
      let _ ← Reader.next
      let second ← Reader.span isScalarChar
      Reader.lift (scalar? (first ++ ' ' :: second))
    else Reader.lift (scalar? first)
  | _, _ => Reader.lift (scalar? first)

mutual

/-- A value, which stands in a number of brackets.  Each step takes fuel; values of a text need no
more than two steps for each character. -/
def value (depth : Nat) : Nat → Reader Value
  | 0 => failure
  | fuel + 1 => do
    if ← Reader.accept ['"'] then return .text (← quoted fuel '"')
    else if ← Reader.accept ['\''] then return .text (← quoted fuel '\'')
    else if ← Reader.accept ['['] then
      if nestingLimit ≤ depth + 1 then failure
      return .list (← items (depth + 1) fuel)
    else if ← Reader.accept ['\x7b'] then
      if nestingLimit ≤ depth + 1 then failure
      spaces
      if ← Reader.accept ['\x7d'] then return .table []
      else Reader.lift (ofAssignments (← assignments (depth + 1) fuel))
    else scalar

def items (depth : Nat) : Nat → Reader (List Value)
  | 0 => failure
  | fuel + 1 => do
    blankLines fuel
    if ← Reader.accept [']'] then return []
    let first ← value depth fuel
    blankLines fuel
    if ← Reader.accept [','] then return first :: (← items depth fuel)
    Reader.expect [']']
    return [first]

def assignments (depth : Nat) : Nat → Reader (List (List Text × Text × Value))
  | 0 => failure
  | fuel + 1 => do
    let first ← assignment depth fuel
    spaces
    if ← Reader.accept [','] then return first :: (← assignments depth fuel)
    Reader.expect ['\x7d']
    return [first]

def assignment (depth : Nat) : Nat → Reader (List Text × Text × Value)
  | 0 => failure
  | fuel + 1 => do
    let (path, name) ← key fuel
    Reader.expect ['=']
    spaces
    return (path, name, ← value depth fuel)

end

def statementBody (fuel : Nat) : Reader Statement := do
  if ← Reader.accept ['[', '['] then
    let (path, name) ← key fuel
    Reader.expect [']', ']']
    return .itemHeader path name
  else if ← Reader.accept ['['] then
    let (path, name) ← key fuel
    Reader.expect [']']
    return .header path name
  else
    let (path, name, v) ← assignment 0 fuel
    return .entry path name v

def statement (fuel : Nat) : Reader Statement := do
  let s ← statementBody fuel
  lineEnd
  return s

def statements (inner : Nat) : Nat → Reader (List Statement)
  | 0 => failure
  | fuel + 1 => do
    blankLines inner
    match ← Reader.peek with
    | none => return []
    | some _ =>
      let first ← statement inner
      return first :: (← statements inner fuel)

def read (t : Text) : Option Value := do
  let body := if t.head? = some '\uFEFF' then t.drop 1 else t
  let fuel := 4 * body.length + 4
  ofStatements (← Reader.run (statements fuel fuel) body)

end MemberLift.Toml
