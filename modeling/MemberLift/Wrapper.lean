import MemberLift.Declaration
import MemberLift.Header.Scan
import MemberLift.Text.Line

/-!
Wrappers: for each marked member an inline function outside the class that forwards its arguments to
the member.  Methods of objects take the object as a first parameter.
-/
namespace MemberLift

structure Freed where
  className : Text
  name : Text
  isStatic : Bool
  line : Nat
  deriving DecidableEq, Repr

structure Wrapper where
  docs : Option Text
  definition : Text
  summary : Freed
  deriving DecidableEq, Repr

namespace Wrapper

/-- A token that says where the name behind it belongs. -/
def isAccess (t : Token) : Bool := t.isMarkIn ["::", ".", "->"]

/-- Puts the class in front of the names of its nested types, where nothing says yet to whom they
belong.  The token at the skipped index keeps its name. -/
def qualifyFrom (className : Text) (nested : List Text) (skip : Option Nat) (index : Nat)
    (accessed : Bool) : List Token → List Token
  | [] => []
  | t :: rest =>
    let named :=
      if t.isWordIn nested && !accessed && skip != some index then
        { t with text := className ++ "::".toList ++ t.text }
      else t
    named :: qualifyFrom className nested skip (index + 1) (isAccess t) rest

def qualify (className : Text) (nested : List Text) (skip : Option Nat) (tokens : List Token) :
    List Token := qualifyFrom className nested skip 0 false tokens

theorem qualifyFrom_length (className : Text) (nested : List Text) (skip : Option Nat) (index : Nat)
    (accessed : Bool) (tokens : List Token) :
    (qualifyFrom className nested skip index accessed tokens).length = tokens.length := by
  induction tokens generalizing index accessed with
  | nil => rfl
  | cons t rest ih => simp [qualifyFrom, ih]

/-- A declaration whose nested type names are qualified; parameters keep their names. -/
def qualifyDeclaration (c : Conventions) (className : Text) (d : Declaration) : Declaration :=
  { d with
    head := qualify className c.nestedTypes none d.head
    trailing := qualify className c.nestedTypes none d.trailing
    params := d.params.map fun p =>
      { p with tokens := qualify className c.nestedTypes p.nameIndex p.tokens } }

/-- The parameter for the object that a member function is called on. -/
def selfParameter (className : Text) (d : Declaration) : Text :=
  (if d.isConst then "const ".toList else []) ++
    (if d.isVolatile then "volatile ".toList else []) ++ className ++
    (if d.refQualifier = some .rvalue then " &&self" else " &self").toList

def parameterTexts (className : Text) (d : Declaration) : List Text :=
  (if d.isStatic then [] else [selfParameter className d]) ++ d.params.map Parameter.render

def signature (className : Text) (d : Declaration) : Text :=
  (if d.templateHead.isEmpty then [] else render d.templateHead ++ [' ']) ++
    "inline ".toList ++ render d.head ++ renderSpaced [d.name] ++
    '(' :: Text.join ", ".toList (parameterTexts className d) ++ ')' :: renderSpaced d.trailing

def callee (className : Text) (d : Declaration) : Text :=
  if d.isStatic then className ++ "::".toList ++ d.name.text
  else if d.refQualifier = some .rvalue then "std::move(self).".toList ++ d.name.text
  else "self.".toList ++ d.name.text

def argument (name : Text) (isPack : Bool) : Text :=
  "std::forward<decltype(".toList ++ name ++ ")>(".toList ++ name ++ ")".toList ++
    (if isPack then "..." else "").toList

/-- The arguments of the call: every parameter that has a name. -/
def arguments (d : Declaration) : List Text :=
  d.params.filterMap fun p => p.name?.map fun name => argument name p.isPack

def call (className : Text) (d : Declaration) : Text :=
  "  return ".toList ++ callee className d ++
    '(' :: Text.join ", ".toList (arguments d) ++ ");".toList

def definitionText (ending : LineEnding) (className : Text) (d : Declaration) : Text :=
  [signature className d, "\x7b".toList, call className d, "\x7d".toList].flatMap (· ++ ending.text)

def selfDocs : Text := "\\param self The object whose member function to call.".toList

/-- Documents the object in front of the first documented parameter, if there is one. -/
def documentSelf (ending : LineEnding) (docs : Text) : Text :=
  match Text.cutBefore "\\param".toList docs with
  | some (before, after) => before ++ selfDocs ++ ending.text ++ after
  | none => docs

def relocatedDocs (ending : LineEnding) (isStatic : Bool) (docs : Text) : Text :=
  if isStatic then docs else documentSelf ending docs

def ofMarked (c : Conventions) (ending : LineEnding) (marked : Marked) :
    Except DeclarationFault Wrapper :=
  (Declaration.ofTokens c.stripMacros marked.tokens).map fun parsed =>
    let d := qualifyDeclaration c marked.className parsed
    { docs := marked.docs.map (relocatedDocs ending d.isStatic)
      definition := definitionText ending marked.className d
      summary := ⟨marked.className, d.name.text, d.isStatic, marked.line⟩ }

def text (w : Wrapper) : Text := w.docs.getD [] ++ w.definition

end Wrapper

end MemberLift
