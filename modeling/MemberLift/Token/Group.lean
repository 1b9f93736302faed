import MemberLift.Token

/-!
Bracketed groups and template argument lists in a list of tokens.  `items` cuts a list into single
tokens and whole groups, and nothing is lost by it (`items_flatten`).  All other views (`topLevel`,
`splitTopLevel`) are views of the items.
-/
namespace MemberLift.Group

def closerFor (t : Token) : Option String :=
  if t.isMark "(" then some ")"
  else if t.isMark "[" then some "]"
  else if t.isMark "\x7b" then some "\x7d"
  else none

def isOpener (t : Token) : Bool := (closerFor t).isSome

def isCloser (t : Token) : Bool := t.isMarkIn [")", "]", "\x7d"]

/-- The offset of the token that closes the last of the pending brackets.  Each closing bracket must
be the innermost pending one; other tokens, angles among them, do not matter. -/
def closeBrackets : List String → List Token → Option Nat
  | _, [] => none
  | pending, t :: rest =>
    match closerFor t, isCloser t, pending with
    | some c, _, _ => (closeBrackets (c :: pending) rest).map (· + 1)
    | none, false, _ => (closeBrackets pending rest).map (· + 1)
    | none, true, [] => none
    | none, true, c :: outer =>
      if t.isMark c then
        if outer.isEmpty then some 0 else (closeBrackets outer rest).map (· + 1)
      else none

/-- The offset of the angle that closes a template argument list, read from behind its opening
angle.  Bracketed groups are skipped whole.  An angle behind an identifier opens a nested list, any
other opening angle is a comparison.  The search ends at a bracket that closes what surrounds the
list, and at a semicolon. -/
def closeAngle (afterName : Bool) (tokens : List Token) : Option Nat :=
  match tokens with
  | [] => none
  | t :: rest =>
    if t.isMark ">" then some 0
    else if isOpener t then
      match closeBrackets [] (t :: rest) with
      | none => none
      | some k => (closeAngle false (rest.drop k)).map (· + (k + 1))
    else if isCloser t || t.isMark ";" then none
    else if t.isMark "<" && afterName then
      match closeAngle false rest with
      | none => none
      | some k => (closeAngle false (rest.drop (k + 1))).map (· + (k + 2))
    else (closeAngle t.isIdentifier rest).map (· + 1)
termination_by tokens.length
decreasing_by all_goals simp; try omega

/-- How many tokens the template argument list at the head of a list has, its angles included, if
the list stands right behind an identifier. -/
def angleSpan (tokens : List Token) : Option Nat :=
  match tokens with
  | [] => none
  | t :: rest => if t.isMark "<" then (closeAngle false rest).map (· + 2) else none

/-- How many tokens the group that a token opens has behind that token. -/
def span (afterName : Bool) (t : Token) (rest : List Token) : Option Nat :=
  if isOpener t then closeBrackets [] (t :: rest)
  else if t.isMark "<" && afterName then (closeAngle false rest).map (· + 1)
  else none

/-- The single tokens and whole groups that make up a list of tokens.  An opener that is never
closed is a single token. -/
def items (afterName : Bool) (tokens : List Token) : List (List Token) :=
  match tokens with
  | [] => []
  | t :: rest =>
    match span afterName t rest with
    | some k => (t :: rest.take k) :: items false (rest.drop k)
    | none => [t] :: items t.isIdentifier rest
termination_by tokens.length
decreasing_by all_goals simp; try omega

def itemsOf (tokens : List Token) : List (List Token) := items false tokens

theorem items_flatten (afterName : Bool) (tokens : List Token) :
    (items afterName tokens).flatten = tokens := by
  fun_induction items afterName tokens with
  | case1 => rfl
  | case2 afterName t rest k _ ih => simp [ih]
  | case3 afterName t rest _ ih => simp [ih]

theorem items_ne_nil (afterName : Bool) (tokens : List Token) :
    ∀ item ∈ items afterName tokens, item ≠ [] := by
  fun_induction items afterName tokens with
  | case1 => simp
  | case2 afterName t rest k _ ih => simpa using ih
  | case3 afterName t rest _ ih => simpa using ih

def headMark (mark : String) (item : List Token) : Bool :=
  (item.head?.map (·.isMark mark)).getD false

def headWord (word : String) (item : List Token) : Bool :=
  (item.head?.map (·.isWord word)).getD false

/-- The index of the token that closes the bracket at an index.  At a token that is no punctuator
the answer is that of the first bracket behind it. -/
def matchingBracket (tokens : List Token) (index : Nat) : Option Nat :=
  match tokens[index]? with
  | none => none
  | some t =>
    if t.kind = .punctuator && !isOpener t then none
    else (closeBrackets [] (tokens.drop index)).map (index + ·)

def followsName (tokens : List Token) (index : Nat) : Bool :=
  index != 0 && (tokens[index - 1]?.map Token.isIdentifier).getD false

def matchingAngle (tokens : List Token) (index : Nat) : Option Nat :=
  match tokens[index]? with
  | none => none
  | some t =>
    if t.isMark "<" && followsName tokens index then
      (closeAngle false (tokens.drop (index + 1))).map (index + 1 + ·)
    else none

def groupEnd (tokens : List Token) (index : Nat) : Option Nat :=
  match tokens[index]? with
  | none => none
  | some t => if isOpener t then matchingBracket tokens index else matchingAngle tokens index

/-- The indices at which pieces begin that stand one behind the other. -/
def starts (first : Nat) : List (List Token) → List Nat
  | [] => []
  | piece :: rest => first :: starts (first + piece.length) rest

/-- The indices of the tokens that stand in no group; of a group, the opener. -/
def topLevel (tokens : List Token) : List Nat := starts 0 (itemsOf tokens)

def extendFirst (tokens : List Token) : List (List Token) → List (List Token)
  | [] => [tokens]
  | piece :: rest => (tokens ++ piece) :: rest

def splitItems (separator : String) : List (List Token) → List (List Token)
  | [] => [[]]
  | item :: rest =>
    if headMark separator item then [] :: extendFirst item.tail (splitItems separator rest)
    else extendFirst item (splitItems separator rest)

/-- The pieces of a list between the separators that stand in no group; none for the empty list. -/
def splitTopLevel (separator : String) (tokens : List Token) : List (List Token) :=
  if tokens.isEmpty then [] else splitItems separator (itemsOf tokens)

end MemberLift.Group
