import MemberLift.Declaration.Parameter

/-!
Declarations of member functions, taken apart into template heads, return type, name, parameters and
what follows them.  Syntax that only a member can have is removed and remembered.
-/
namespace MemberLift

open MemberLift.Group

inductive RefQualifier where
  | lvalue
  | rvalue
  deriving DecidableEq, Repr

inductive DeclarationFault where
  | templateList
  | operatorFunction
  | noParameterList
  | parameterList
  | noReturnType (name : Text)
  | unnamedParameter (position : Nat) (name : Text) (parameter : Text)
  | requiresClause (name : Text)
  | defaultedOrDeleted (name : Text)
  | initialiser (name : Text)
  deriving DecidableEq, Repr

def quotedName (name : Text) : Text := '\x60' :: name ++ ['\x60']

def DeclarationFault.message : DeclarationFault → Text
  | .templateList => "unbalanced template parameter list".toList
  | .operatorFunction => "operator functions cannot be made free".toList
  | .noParameterList => "declaration has no parameter list".toList
  | .parameterList => "unbalanced parameter list".toList
  | .noReturnType name => quotedName name ++ " has no return type".toList
  | .unnamedParameter position name parameter =>
    "parameter ".toList ++ Text.ofNat position ++ " of ".toList ++ quotedName name ++
      " (".toList ++ quotedName parameter ++
      ") has no name and cannot be forwarded".toList
  | .requiresClause name =>
    quotedName name ++ ": requires-clauses cannot be carried onto a free function".toList
  | .defaultedOrDeleted name =>
    quotedName name ++ ": defaulted or deleted functions cannot be made free".toList
  | .initialiser name => quotedName name ++ ": unexpected initialiser after parameter list".toList

/-- A declaration without member-only syntax. -/
structure Declaration where
  templateHead : List Token
  head : List Token
  name : Token
  params : List Parameter
  trailing : List Token
  isStatic : Bool
  isConst : Bool
  isVolatile : Bool
  refQualifier : Option RefQualifier
  deriving DecidableEq, Repr

namespace Declaration

/-- Words with an operand in parentheses, which so never name the function. -/
def operandWords : List Text :=
  ["decltype", "noexcept", "alignas", "alignof", "sizeof", "requires", "__attribute__",
    "__declspec", "throw"].map String.toList

/-- Specifiers without a meaning outside a class. -/
def memberWords : List Text :=
  ["virtual", "static", "inline", "explicit", "friend"].map String.toList

def templateHeads (tokens : List Token) : Except DeclarationFault (List Token × List Token) :=
  match tokens with
  | [] => .ok ([], [])
  | t :: rest =>
    if t.isWord "template" then
      match angleSpan rest with
      | none => .error .templateList
      | some k =>
        (templateHeads (rest.drop k)).map fun p => (t :: rest.take k ++ p.1, p.2)
    else .ok ([], tokens)
termination_by tokens.length
decreasing_by simp only [List.length_drop, List.length_cons]; omega

/-- What stands in front of the parameter list, the list, and what stands behind it. -/
structure Parts where
  before : List Token
  group : List Token
  after : List Token
  deriving DecidableEq, Repr

def mayBeName (t : Token) : Bool := t.isIdentifier && !operandWords.contains t.text

/-- Finds the parameter list: the first item that begins with a parenthesis and stands right behind
a word that may be the function's name. -/
def findParameters (before : List Token) : List (List Token) → Except DeclarationFault Parts
  | [] => .error .noParameterList
  | item :: rest =>
    if headWord "operator" item then .error .operatorFunction
    else if headMark "(" item && (before.getLast?.map mayBeName).getD false then
      if item.length = 1 then .error .parameterList else .ok ⟨before, item, rest.flatten⟩
    else findParameters (before ++ item) rest

structure Qualifiers where
  kept : List Token
  isConst : Bool
  isVolatile : Bool
  refQualifier : Option RefQualifier
  deriving DecidableEq, Repr

def Qualifiers.keep (q : Qualifiers) (item : List Token) : Qualifiers :=
  { q with kept := q.kept ++ item }

def isPure (items : List (List Token)) : Bool :=
  match items with
  | [t :: _] => t.text = "0".toList
  | _ => false

/-- Whether the item behind an equals sign begins with the word of a defaulted or deleted
function. -/
def isDefaultedOrDeleted (items : List (List Token)) : Bool :=
  match items with
  | (t :: _) :: _ => ["default", "delete"].any fun word => t.text = word.toList
  | _ => false

/-- Reads what follows the parameter list.  In front of a trailing return type the qualifiers of
the object are taken out, and override, final and a pure mark are dropped. -/
def readTrailing (name : Text) (arrow : Bool) (q : Qualifiers) :
    List (List Token) → Except DeclarationFault Qualifiers
  | [] => .ok q
  | item :: rest =>
    if headWord "requires" item then .error (.requiresClause name)
    else if arrow then readTrailing name true (q.keep item) rest
    else if headWord "const" item && !q.isConst then
      readTrailing name false { q with isConst := true } rest
    else if headWord "volatile" item && !q.isVolatile then
      readTrailing name false { q with isVolatile := true } rest
    else if headMark "&" item then
      readTrailing name false { q with refQualifier := some .lvalue } rest
    else if headMark "&&" item then
      readTrailing name false { q with refQualifier := some .rvalue } rest
    else if headWord "override" item || headWord "final" item then readTrailing name false q rest
    else if headMark "=" item then
      if isPure rest then .ok q
      else if isDefaultedOrDeleted rest then .error (.defaultedOrDeleted name)
      else .error (.initialiser name)
    else readTrailing name (headMark "->" item) (q.keep item) rest

def unnamed (position : Nat) : List Parameter → Option (Nat × Parameter)
  | [] => none
  | p :: rest => if p.nameIndex.isNone then some (position, p) else unnamed (position + 1) rest

def isStripped (stripMacros : List Text) (t : Token) : Bool :=
  t.isWordIn memberWords || t.isWordIn stripMacros

def ofParts (stripMacros : List Text) (templateHead : List Token) (parts : Parts) :
    Except DeclarationFault Declaration :=
  match parts.before.getLast? with
  | none => .error .noParameterList
  | some name =>
    let specifiers := parts.before.dropLast
    let head := specifiers.filter fun t => !isStripped stripMacros t
    if head.isEmpty then .error (.noReturnType name.text)
    else
      let params := parameters parts.group.tail.dropLast
      match unnamed 1 params with
      | some (position, p) => .error (.unnamedParameter position name.text p.render)
      | none =>
        (readTrailing name.text false ⟨[], false, false, none⟩ (itemsOf parts.after)).map fun q =>
          { templateHead, head, name, params
            trailing := q.kept
            isStatic := specifiers.any (·.isWord "static")
            isConst := q.isConst
            isVolatile := q.isVolatile
            refQualifier := q.refQualifier }

/-- Takes a declaration apart, whose body or semicolon is gone already. -/
def ofTokens (stripMacros : List Text) (tokens : List Token) :
    Except DeclarationFault Declaration := do
  let (templateHead, rest) ← templateHeads tokens
  let parts ← findParameters [] (itemsOf rest)
  ofParts stripMacros templateHead parts

def line (tokens : List Token) : Nat := (tokens.head?.map Token.line).getD 0

end Declaration

end MemberLift
