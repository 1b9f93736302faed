import MemberLift.Token.Group

/-!
Function parameters.  What a parameter is called and whether it is a pack is read off the tokens in
front of its default argument.
-/
namespace MemberLift

open MemberLift.Group

/-- Keywords that make up a type on their own, and so name no parameter. -/
def typeKeywords : List Text :=
  ["void", "bool", "char", "wchar_t", "char8_t", "char16_t", "char32_t", "short", "int", "long",
    "signed", "unsigned", "float", "double", "auto", "const", "volatile", "struct", "class",
    "enum", "typename"].map String.toList

/-- A parameter with its default argument, the index of the name it declares, if any, and whether
it is a pack. -/
structure Parameter where
  tokens : List Token
  nameIndex : Option Nat
  isPack : Bool
  deriving DecidableEq, Repr

namespace Parameter

def declarator (tokens : List Token) : List Token :=
  ((itemsOf tokens).takeWhile fun item => !headMark "=" item).flatten

def size (items : List (List Token)) : Nat := items.flatten.length

/-- Whether an identifier stands behind a pointer or reference mark inside a parenthesis, as in the
name of a function pointer. -/
def isPointerGroup (item : List Token) : Bool :=
  let inner := item.tail.dropLast
  (inner.head?.map (·.isMarkIn ["*", "&", "&&"])).getD false &&
    (inner.getLast?.map Token.isIdentifier).getD false && 2 ≤ inner.length

/-- The index of the identifier that ends a declarator, array extents apart.  A type keyword, a word
that stands alone and the last part of a qualified name declare nothing. -/
def plainName (items : List (List Token)) : Option Nat :=
  match items.reverse.dropWhile (headMark "[") with
  | [t] :: previous :: before =>
    if t.isIdentifier && !typeKeywords.contains t.text &&
        !(previous.getLast?.map (·.isMark "::")).getD false then
      some (size (previous :: before))
    else none
  | _ => none

/-- The index of a declarator's name: that of a function pointer or reference if there is one, else
the plain name.  A parenthesis that is never closed leaves the parameter without a name. -/
def findName (all : List (List Token)) (index : Nat) : List (List Token) → Option Nat
  | [] => plainName all
  | item :: rest =>
    if headMark "(" item then
      if item.length = 1 then none
      else if isPointerGroup item then some (index + item.length - 2)
      else findName all (index + item.length) rest
    else findName all (index + item.length) rest

def ofTokens (tokens : List Token) : Parameter :=
  let items := itemsOf (declarator tokens)
  ⟨tokens, findName items 0 items, items.any (headMark "...")⟩

def name? (p : Parameter) : Option Text :=
  p.nameIndex.bind fun i => (p.tokens[i]?).map Token.text

def render (p : Parameter) : Text := MemberLift.render p.tokens

end Parameter

def isVoid (tokens : List Token) : Bool :=
  match tokens with
  | [t] => t.isWord "void"
  | _ => false

/-- The parameters between a pair of parentheses; none for the single word void. -/
def parameters (tokens : List Token) : List Parameter :=
  if isVoid tokens then [] else (splitTopLevel "," tokens).map Parameter.ofTokens

end MemberLift
