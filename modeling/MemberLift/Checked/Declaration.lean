import MemberLift.Checked.Group
import MemberLift.Declaration

/-!
Declarations, taken apart by index.  A trap is kept apart from the faults that a declaration can
have.
-/
namespace MemberLift.Checked

def firstAt (test : Token → Bool) (tokens : List Token) : List Nat → Except Trap (Option Nat)
  | [] => .ok none
  | i :: rest => do
    let t ← get tokens i
    if test t then return some i else firstAt test tokens rest

def dropExtents (tokens : List Token) (top : List Nat) : Nat → Except Trap Nat
  | 0 => .ok 0
  | n + 1 => do
    let t ← get tokens (← get top n)
    if t.isMark "[" then dropExtents tokens top n else return n + 1

def nameAt (tokens : List Token) (last : Nat) : Except Trap (Option Nat) := do
  let t ← get tokens last
  if !t.isIdentifier || typeKeywords.contains t.text then return none
  else if last = 0 then return none
  else
    let previous ← get tokens (← minus last 1)
    return if previous.isMark "::" then none else some last

/-- The index of the identifier that ends a declarator, array extents apart. -/
def plainName (tokens : List Token) (top : List Nat) : Except Trap (Option Nat) := do
  let stop ← dropExtents tokens top top.length
  match (← slice top 0 stop).getLast? with
  | none => return none
  | some last => nameAt tokens last

def isPointer (tokens : List Token) (opening closing : Nat) : Except Trap Bool := do
  let inner ← slice tokens (opening + 1) closing
  if (inner.head?.map (·.isMarkIn ["*", "&", "&&"])).getD false &&
      (inner.getLast?.map Token.isIdentifier).getD false then
    return opening + 1 < (← minus closing 1)
  else return false

/-- The index of a declarator's name, from one of the indices at top level on. -/
def findName (tokens : List Token) (top : List Nat) : List Nat → Except Trap (Option Nat)
  | [] => plainName tokens top
  | i :: rest => do
    let t ← get tokens i
    if t.isMark "(" then
      match matchingBracket tokens i with
      | none => return none
      | some closing =>
        if ← isPointer tokens i closing.1 then return some (← minus closing.1 1)
        else findName tokens top rest
    else findName tokens top rest

def declaratorName (declarator : List Token) : Except Trap (Option Nat) := do
  let top ← topLevel declarator
  findName declarator top top

def parameter (tokens : List Token) : Except Trap Parameter := do
  let defaultAt ← firstAt (·.isMark "=") tokens (← topLevel tokens)
  let declarator ← slice tokens 0 (defaultAt.getD tokens.length)
  let ellipsis ← firstAt (·.isMark "...") declarator (← topLevel declarator)
  return ⟨tokens, ← declaratorName declarator, ellipsis.isSome⟩

def parametersOf : List (List Token) → Except Trap (List Parameter)
  | [] => .ok []
  | piece :: rest => do
    let p ← parameter piece
    return p :: (← parametersOf rest)

def isVoid (tokens : List Token) : Except Trap Bool :=
  if tokens.length = 1 then do
    let t ← get tokens 0
    return t.isWord "void"
  else .ok false

def parameters (tokens : List Token) : Except Trap (List Parameter) := do
  if ← isVoid tokens then return [] else parametersOf (← splitTopLevel "," tokens)

def initialiser (name : Text) (tokens : List Token) (top : List Nat) (q : Declaration.Qualifiers)
    (cursor : Nat) : Except Trap (Except DeclarationFault Declaration.Qualifiers) :=
  match top[cursor + 1]? with
  | none => .ok (.error (.initialiser name))
  | some j => do
    let value ← get tokens j
    if value.text = "0".toList && cursor + 2 = top.length then return .ok q
    else if ["default", "delete"].any fun word => value.text = word.toList then
      return .error (.defaultedOrDeleted name)
    else return .error (.initialiser name)

def readTrailing (name : Text) (tokens : List Token) (top : List Nat) (arrow : Bool)
    (q : Declaration.Qualifiers) (cursor : Nat) :
    Except Trap (Except DeclarationFault Declaration.Qualifiers) :=
  if cursor < top.length then do
    let i ← get top cursor
    let t ← get tokens i
    let closing ← groupEnd tokens i
    if t.isWord "requires" then return .error (.requiresClause name)
    else if !arrow && (t.isWord "const" && !q.isConst) then
      readTrailing name tokens top arrow { q with isConst := true } (cursor + 1)
    else if !arrow && (t.isWord "volatile" && !q.isVolatile) then
      readTrailing name tokens top arrow { q with isVolatile := true } (cursor + 1)
    else if !arrow && (t.isMark "&" || t.isMark "&&") then
      let qualifier := if t.isMark "&" then RefQualifier.lvalue else .rvalue
      readTrailing name tokens top arrow { q with refQualifier := some qualifier } (cursor + 1)
    else if !arrow && (t.isWord "override" || t.isWord "final") then
      readTrailing name tokens top arrow q (cursor + 1)
    else if !arrow && t.isMark "=" then initialiser name tokens top q cursor
    else
      let item ← slice tokens i (From.last i closing + 1)
      readTrailing name tokens top (arrow || t.isMark "->") (q.keep item) (cursor + 1)
  else return .ok q
termination_by top.length - cursor

/-- The template heads in front of a declaration, and the rest of it. -/
def templateHeads (tokens : List Token) :
    Except Trap (Except DeclarationFault (List Token × List Token)) :=
  if (tokens.head?.map (·.isWord "template")).getD false then do
    match ← matchingAngle tokens 1 with
    | none => return .error .templateList
    | some closing =>
      let head ← slice tokens 0 (closing.1 + 1)
      match _behind : slice tokens (closing.1 + 1) tokens.length with
      | .error trap => .error trap
      | .ok rest =>
        let heads ← templateHeads rest
        return heads.map fun p => (head ++ p.1, p.2)
  else return .ok ([], tokens)
termination_by tokens.length
decreasing_by
  have shorter := (length_of_slice _behind).1
  have _inside := closing.2.2
  omega

/-- The index of the parenthesis that opens the parameter list: the first behind a word that may be
the function's name. -/
def findOpening (tokens : List Token) : List Nat → Except Trap (Except DeclarationFault Nat)
  | [] => .ok (.error .noParameterList)
  | i :: rest => do
    let t ← get tokens i
    if t.isWord "operator" then return .error .operatorFunction
    else if t.isMark "(" && 0 < i then
      let previous ← get tokens (← minus i 1)
      if Declaration.mayBeName previous then return .ok i else findOpening tokens rest
    else findOpening tokens rest

def ofPlaces (stripMacros : List Text) (templateHead tokens : List Token) (opening closing : Nat) :
    Except Trap (Except DeclarationFault Declaration) := do
  let name ← get tokens (← minus opening 1)
  let specifiers ← slice tokens 0 (← minus opening 1)
  let head := specifiers.filter fun t => !Declaration.isStripped stripMacros t
  if head.isEmpty then return .error (.noReturnType name.text)
  else
    let params ← parameters (← slice tokens (opening + 1) closing)
    match Declaration.unnamed 1 params with
    | some (position, p) => return .error (.unnamedParameter position name.text p.render)
    | none =>
      let after ← slice tokens (closing + 1) tokens.length
      let qualifiers ←
        readTrailing name.text after (← topLevel after) false ⟨[], false, false, none⟩ 0
      return qualifiers.map fun q =>
        { templateHead, head, name, params
          trailing := q.kept
          isStatic := specifiers.any (·.isWord "static")
          isConst := q.isConst
          isVolatile := q.isVolatile
          refQualifier := q.refQualifier }

/-- Takes a declaration apart, whose body or semicolon is gone already. -/
def declaration (stripMacros : List Text) (tokens : List Token) :
    Except Trap (Except DeclarationFault Declaration) := do
  match ← templateHeads tokens with
  | .error fault => return .error fault
  | .ok (templateHead, rest) =>
    match ← findOpening rest (← topLevel rest) with
    | .error fault => return .error fault
    | .ok opening =>
      match ← groupEnd rest opening with
      | none => return .error .parameterList
      | some closing => ofPlaces stripMacros templateHead rest opening closing.1

end MemberLift.Checked
