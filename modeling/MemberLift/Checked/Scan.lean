import MemberLift.Checked.Group
import MemberLift.Header.Scan

/-!
Header scans by index.  Of all the sums only that of a line and the lookahead can leave the machine
word, as the lookahead is a setting of the user.
-/
namespace MemberLift.Checked

def nameIndex (macros : List Text) (tokens : List Token) (i : Nat) : Except Trap (Option Nat) :=
  match _here : tokens[i]? with
  | none => .ok none
  | some t =>
    if t.isWordIn macros then nameIndex macros tokens (i + 1)
    else if t.isMark "[" then do
      match ← groupEnd tokens i with
      | none => return none
      | some j => nameIndex macros tokens (j.1 + 1)
    else if (t.isWord "alignas" || t.isWord "__declspec") &&
        (tokens[i + 1]?.map (·.isMark "(")).getD false then do
      match ← groupEnd tokens (i + 1) with
      | none => return none
      | some j => nameIndex macros tokens (j.1 + 1)
    else .ok (some i)
termination_by tokens.length - i
decreasing_by
  all_goals
    have inside : i < tokens.length := (List.getElem?_eq_some_iff.mp _here).1
  · omega
  · have := j.2
    omega
  · have := j.2
    omega

def keyedName (macros : List Text) (tokens : List Token) (i : Nat) : Except Trap (Option Text) :=
  match tokens[i]? with
  | none => .ok none
  | some key =>
    if key.isWord "class" || key.isWord "struct" then do
      match ← nameIndex macros tokens (i + 1) with
      | none => return none
      | some n =>
        let name ← get tokens n
        return if name.isIdentifier && !(tokens[n + 1]?.map (·.isMark ";")).getD false then
          some name.text else none
    else .ok none

def classNameOf (macros : List Text) (tokens : List Token) : Except Trap (Option Text) :=
  if (tokens.head?.map (·.isWord "template")).getD false then do
    match ← matchingAngle tokens 1 with
    | none => return none
    | some closing => keyedName macros tokens (closing.1 + 1)
  else keyedName macros tokens 0

def className (c : Conventions) (line : Text) : Except Trap (Option Text) :=
  if ["class", "struct", "template"].any fun key => key.toList.isPrefixOf line then
    match Lexer.tokenize 1 line with
    | .ok tokens => classNameOf c.classMacros tokens
    | .error _ => .ok none
  else .ok none

/-- The lines below the line of an index in which a declaration has to end. -/
def window (carry : Carry) (lines : List Text) (index lookahead : Nat) :
    Except Trap (List Text) := do
  let first ← plus carry index 1
  let stop ← plus carry first lookahead
  slice lines first (min stop lines.length)

def indentation (line : Text) : Except Trap Text := do
  takeBytes (← minus (byteLength line) (byteLength line.trimStart)) line

def dedent : Nat → Text → Except Trap Text
  | n + 1, c :: rest =>
    if c = ' ' || c = '\t' then do dedent n (← dropBytes 1 (c :: rest)) else .ok (c :: rest)
  | _, line => .ok line

def dedentAll (indent : Nat) : List Text → Except Trap Text
  | [] => .ok []
  | line :: rest => do
    let first ← dedent indent line
    return first ++ (← dedentAll indent rest)

/-- The index of the nearest line above an index that opens a comment, from another index on. -/
def openerAbove (lines : List Text) (floor : Nat) : Nat → Except Trap (Option Nat)
  | 0 => .ok none
  | k + 1 =>
    if floor ≤ k then do
      let line ← get lines k
      if Docs.opensComment line then return some k else openerAbove lines floor k
    else .ok none

def lineDocStart (lines : List Text) : Nat → Except Trap Nat
  | 0 => .ok 0
  | start + 1 => do
    let line ← get lines start
    if Docs.isLineDoc line then lineDocStart lines start else return start + 1

def docStart (lines : List Text) (lookahead index : Nat) : Except Trap (Option Nat) :=
  if index = 0 then .ok none
  else do
    let last ← minus index 1
    match lines[last]? with
    | none => return none
    | some previous =>
      if Docs.endsBlockDoc previous then
        match ← openerAbove lines (index - lookahead) index with
        | none => return none
        | some start =>
          let opening ← get lines start
          return if Docs.opensBlockDoc opening then some start else none
      else if Docs.isLineDoc previous then return some (← lineDocStart lines last)
      else return none

def documentation (lines : List Text) (lookahead index indent : Nat) :
    Except Trap (Option Text) := do
  match ← docStart lines lookahead index with
  | none => return none
  | some start => return some (← dedentAll indent (← slice lines start index))

/-- Scans the lines from an index on. -/
def scanFrom (carry : Carry) (c : Conventions) (lines : List Text) (index : Nat)
    (enclosing : Option Text) (progress : Scan.Progress) :
    List Text → Except Trap (Except ScanFault Scan)
  | [] => .ok (progress.finish.map fun block => ⟨[], block⟩)
  | line :: below =>
    match Scan.sentinel? c line with
    | some sentinel =>
      match progress.advance index sentinel with
      | .error fault => .ok (.error fault)
      | .ok next => scanFrom carry c lines (index + 1) enclosing next below
    | none =>
      if progress.isOpen then scanFrom carry c lines (index + 1) enclosing progress below
      else do
        match ← className c line, Scan.afterMarker? c.marker line, enclosing with
        | some name, _, _ => scanFrom carry c lines (index + 1) (some name) progress below
        | none, none, _ => scanFrom carry c lines (index + 1) enclosing progress below
        | none, some _, none => return .error (.noClass (index + 1))
        | none, some rest, some name =>
          let behind ← window carry lines index c.maxLookahead
          match Scan.declaration (index + 1) c.maxLookahead rest behind with
          | .error fault => return .error fault
          | .ok tokens =>
            let indent ← indentation line
            let docs ← documentation lines c.maxLookahead index indent.length
            let scan ← scanFrom carry c lines (index + 1) enclosing progress below
            return scan.map (Scan.push ⟨name, tokens, docs, index + 1⟩)

def scan (carry : Carry) (c : Conventions) (lines : List Text) :
    Except Trap (Except ScanFault Scan) :=
  scanFrom carry c lines 0 none .absent lines

end MemberLift.Checked
