import MemberLift.Proofs.Declaration.Account
import MemberLift.Proofs.Declaration.Declarator
import MemberLift.Proofs.Wrapper.Qualified

/-!
Forwarding calls.  The call of a wrapper has one argument for each piece of the member's parameter
list, and forwards by it the name that the parameter in the signature declares
(`Wrapper.definition_forwards`).  Whether it expands a pack is read off the groups of the parameter,
so a pack of function pointers, whose ellipsis stands inside a parenthesis, is not expanded.
-/
namespace MemberLift

open MemberLift.Group

/-- Whether an ellipsis stands right in front of the name that a parameter declares, as it does in
front of the name of every pack. -/
def Parameter.declaresPack (p : Parameter) : Bool :=
  match p.nameIndex with
  | some (k + 1) => ((p.tokens[k]?).map (·.isMark "...")).getD false
  | _ => false

def pieces (list : List Token) : List (List Token) :=
  if isVoid list then [] else splitTopLevel "," list

theorem parameters_eq_map (list : List Token) :
    parameters list = (pieces list).map Parameter.ofTokens := by
  unfold parameters pieces
  split
  · rfl
  · rfl

namespace Wrapper

def anonymous (t : Token) : Token := if t.isIdentifier then { t with text := [] } else t

theorem anonymous_keepsMarks : KeepsMarks anonymous where
  kind t := by
    unfold anonymous
    split
    · rfl
    · rfl
  text t punctuator := by
    have other : t.isIdentifier = false := by
      rw [Token.isIdentifier, punctuator]
      rfl
    rw [anonymous, other]
    rfl

theorem spelledOut_anonymous (className : Text) (nested : List Text) (declared : Nat → Bool)
    (tokens : List Token) :
    (spelledOut className nested declared tokens).map anonymous = tokens.map anonymous := by
  refine List.ext_getElem (by simp [spelledOut]) fun i inside inside' => ?_
  have short : i < tokens.length := by simpa using inside'
  simp only [List.getElem_map, spelledOut, List.getElem_mapIdx]
  split
  · rename_i bare
    simp only [isBare, List.getElem?_eq_getElem short, Option.map_some, Option.getD_some,
      Bool.and_eq_true, Token.isWordIn] at bare
    have identifier : tokens[i].isIdentifier = true := bare.1.1.1
    have same : Token.isIdentifier { tokens[i] with
        text := className ++ "::".toList ++ tokens[i].text } = true := identifier
    rw [anonymous, anonymous, if_pos identifier, if_pos same]
  · rfl

theorem isMark_spelledOut (className : Text) (nested : List Text) (declared : Nat → Bool)
    (tokens : List Token) (i : Nat) (mark : String) :
    ((spelledOut className nested declared tokens)[i]?).map (·.isMark mark) =
      (tokens[i]?).map (·.isMark mark) := by
  have same := congrArg (fun tokens => (tokens[i]?).map (·.isMark mark))
    (spelledOut_anonymous className nested declared tokens)
  simpa [Function.comp_def, anonymous_keepsMarks.isMark] using same

theorem spelledOut_declared {className : Text} {nested : List Text} {declared : Nat → Bool}
    {tokens : List Token} {i : Nat} (name : declared i = true) :
    (spelledOut className nested declared tokens)[i]? = tokens[i]? := by
  simp [spelledOut, isBare, name]

/-- A parameter whose nested type names are qualified. -/
def qualified (c : Conventions) (className : Text) (p : Parameter) : Parameter :=
  { p with tokens := qualify className c.nestedTypes p.nameIndex p.tokens }

theorem params_qualifyDeclaration (c : Conventions) (className : Text) (d : Declaration) :
    (qualifyDeclaration c className d).params = d.params.map (qualified c className) := rfl

theorem declaresPack_qualified (c : Conventions) (className : Text) (p : Parameter) :
    (qualified c className p).declaresPack = p.declaresPack := by
  rcases p with ⟨tokens, _ | _ | k, isPack⟩
  · rfl
  · rfl
  · simp only [Parameter.declaresPack, qualified, qualify_eq_spelledOut, isMark_spelledOut]

theorem name?_qualified (c : Conventions) (className : Text) (p : Parameter) :
    (qualified c className p).name? = p.name? := by
  rcases p with ⟨tokens, _ | k, isPack⟩
  · rfl
  · have name : (spelledOut className c.nestedTypes (fun i => some k == some i) tokens)[k]? =
        tokens[k]? := spelledOut_declared (beq_self_eq_true (some k))
    rw [qualified, qualify_eq_spelledOut]
    exact congrArg (Option.map Token.text) name

theorem tokens_qualified (c : Conventions) (className : Text) {piece : List Token} {k : Nat}
    (found : (Parameter.ofTokens piece).nameIndex = some k) :
    (qualified c className (Parameter.ofTokens piece)).tokens =
        spelledOut className c.nestedTypes (fun i => some k == some i) piece ∧
      (qualified c className (Parameter.ofTokens piece)).tokens[k]? = piece[k]? := by
  have tokens : (qualified c className (Parameter.ofTokens piece)).tokens =
      spelledOut className c.nestedTypes (fun i => some k == some i) piece := by
    rw [qualified, found, qualify_eq_spelledOut]
    rfl
  rw [tokens]
  exact ⟨rfl, spelledOut_declared (beq_self_eq_true (some k))⟩

/-- An emitted parameter declares what the source parameter does. -/
theorem ofTokens_qualified (c : Conventions) (className : Text) {piece : List Token} {k : Nat}
    (found : (Parameter.ofTokens piece).nameIndex = some k) :
    (Parameter.ofTokens (qualified c className (Parameter.ofTokens piece)).tokens).name? =
      (Parameter.ofTokens piece).name? := by
  obtain ⟨tokens, name⟩ := tokens_qualified c className found
  refine Parameter.name?_alike anonymous_keepsMarks ?_ found (congrArg (Option.map Token.text) name)
  rw [tokens, spelledOut_anonymous]

/-- How a piece of a parameter list becomes a parameter of the signature and an argument of the
call.  The parameter is the whole piece with its types qualified, and the argument is the name that
the parameter declares, just as the piece without its default argument does. -/
structure Forwards (c : Conventions) (className : Text) (expands : Parameter → Bool)
    (piece : List Token) (p : Parameter) (text : Text) : Prop where
  tokens : p.tokens = spelledOut className c.nestedTypes (fun i => p.nameIndex == some i) piece
  nameIndex : p.nameIndex = (Parameter.ofTokens (Parameter.declarator piece)).nameIndex
  isPack : p.isPack = (Parameter.ofTokens (Parameter.declarator piece)).isPack
  argument : ∃ name, (Parameter.ofTokens p.tokens).name? = some name ∧
    (Parameter.ofTokens (Parameter.declarator piece)).name? = some name ∧
    text = argument name (expands p)

/-- The pieces of a parameter list become parameters and arguments one by one. -/
inductive ForwardsAll (c : Conventions) (className : Text) (expands : Parameter → Bool) :
    List (List Token) → List Parameter → List Text → Prop where
  | nil : ForwardsAll c className expands [] [] []
  | cons {piece : List Token} {p : Parameter} {text : Text} {pieces : List (List Token)}
      {params : List Parameter} {texts : List Text} :
      Forwards c className expands piece p text →
        ForwardsAll c className expands pieces params texts →
          ForwardsAll c className expands (piece :: pieces) (p :: params) (text :: texts)

theorem forwards_qualified (c : Conventions) (className : Text) {piece : List Token} {k : Nat}
    (found : (Parameter.ofTokens piece).nameIndex = some k) :
    ∃ name, (qualified c className (Parameter.ofTokens piece)).name? = some name ∧
      Forwards c className Parameter.isPack piece (qualified c className (Parameter.ofTokens piece))
        (argument name (Parameter.ofTokens piece).isPack) := by
  obtain ⟨name, inFront, _, _, named⟩ := Parameter.name?_ofTokens found
  obtain ⟨index, pack⟩ := Parameter.ofTokens_declarator piece
  refine ⟨name.text, ?_, ?_, index.symm, pack.symm, name.text, ?_, ?_, rfl⟩
  · rw [name?_qualified, named]
  · rw [qualified, qualify_eq_spelledOut]
    rfl
  · rw [ofTokens_qualified c className found, named]
  · rw [Parameter.name?, index, found]
    exact congrArg (Option.map Token.text) inFront

theorem forwardsAll_qualified (c : Conventions) (className : Text) {pieces : List (List Token)}
    (named : ∀ piece ∈ pieces, (Parameter.ofTokens piece).nameIndex ≠ none) :
    ForwardsAll c className Parameter.isPack pieces
      ((pieces.map Parameter.ofTokens).map (qualified c className))
      (((pieces.map Parameter.ofTokens).map (qualified c className)).filterMap fun p =>
        p.name?.map fun name => argument name p.isPack) := by
  induction pieces with
  | nil => exact .nil
  | cons piece rest ih =>
    have behind := ih fun other member => named other (List.mem_cons_of_mem piece member)
    obtain ⟨k, found⟩ := Option.ne_none_iff_exists'.mp (named piece List.mem_cons_self)
    obtain ⟨name, emitted, forwards⟩ := forwards_qualified c className found
    simp only [List.map_cons, List.filterMap_cons, emitted, Option.map_some]
    exact .cons forwards behind

theorem argument_inj {name : Text} {b b' : Bool} (same : argument name b = argument name b') :
    b = b' := by
  have endings := List.append_cancel_left same
  cases b <;> cases b' <;> simp_all

theorem ForwardsAll.expands_iff {c : Conventions} {className : Text}
    {expands expands' : Parameter → Bool} {pieces : List (List Token)} {params : List Parameter}
    {texts : List Text} (h : ForwardsAll c className expands pieces params texts) :
    ForwardsAll c className expands' pieces params texts ↔
      ∀ p ∈ params, expands p = expands' p := by
  induction h with
  | nil => exact ⟨fun _ => by simp, fun _ => .nil⟩
  | cons first rest ih =>
    obtain ⟨name, emitted, declared, text⟩ := first.argument
    constructor
    · intro other
      cases other with
      | cons first' rest' =>
        obtain ⟨name', emitted', _, text'⟩ := first'.argument
        rw [emitted] at emitted'
        cases emitted'
        intro p member
        rcases List.mem_cons.mp member with rfl | member
        · exact argument_inj (text.symm.trans text')
        · exact ih.mp rest' p member
    · intro same
      have here := same _ List.mem_cons_self
      refine .cons ⟨first.tokens, first.nameIndex, first.isPack, name, emitted, declared, ?_⟩ ?_
      · rw [text, here]
      · exact ih.mpr fun p member => same p (List.mem_cons_of_mem _ member)

theorem isPointerGroup_of_declaresPack {tokens : List Token}
    (declares : (Parameter.ofTokens tokens).declaresPack = true)
    (missed : (Parameter.ofTokens tokens).isPack = false) :
    ∃ item ∈ itemsOf (Parameter.declarator tokens), headMark "(" item = true ∧
      Parameter.isPointerGroup item = true := by
  cases found : (Parameter.ofTokens tokens).nameIndex with
  | none =>
    rw [Parameter.declaresPack, found] at declares
    cases declares
  | some k =>
    obtain ⟨name, names⟩ := Parameter.names_of_ofTokens found
    cases names with
    | pointer split _ opens group =>
      rw [split]
      exact ⟨_, List.mem_append_right _ List.mem_cons_self, opens, group⟩
    | @plain front extents _ plain =>
      -- an ellipsis in front of a plain name is an item of its own
      rw [Parameter.declaresPack, found] at declares
      cases place : Parameter.size front with
      | zero =>
        rw [place] at declares
        cases declares
      | succ k =>
        rw [place] at declares
        cases inside : tokens[k]? with
        | none => simp [Parameter.ofTokens, inside] at declares
        | some t =>
          have ellipsis : t.isMark "..." = true := by
            simpa [Parameter.ofTokens, inside] using declares
          have member := plain.single place inside fun other closer =>
            Token.not_isMark_of_mark ellipsis (by revert other; decide)
          have pack : (itemsOf (Parameter.declarator tokens)).any (headMark "...") = true :=
            List.any_eq_true.mpr ⟨[t], member, ellipsis⟩
          exact absurd (pack.symm.trans missed) (by decide)

example : (Parameter.ofTokens (Lexer.lex 1 "void (*...fs)(T)".toList).tokens).declaresPack = true ∧
    (Parameter.ofTokens (Lexer.lex 1 "void (*...fs)(T)".toList).tokens).isPack = false := by
  decide +kernel

/-- How the call of a wrapper matches its signature.  The signature has the object in front of the
other parameters exactly if no static stands in front of the member's name, and the call forwards
the other parameters. -/
structure CallMatches (c : Conventions) (className : Text) (expands : Parameter → Bool)
    (specifiers list : List Token) (e : Declaration) : Prop where
  ofClass : (∃ t ∈ specifiers, t.isWord "static" = true) →
    parameterTexts className e = e.params.map Parameter.render
  ofObject : (¬ ∃ t ∈ specifiers, t.isWord "static" = true) →
    ∃ type, parameterTexts className e = (type ++ "self".toList) :: e.params.map Parameter.render
  forwards : ForwardsAll c className expands (pieces list) e.params (arguments e)

theorem selfParameter_self (className : Text) (d : Declaration) :
    ∃ type, selfParameter className d = type ++ "self".toList := by
  unfold selfParameter
  by_cases rvalue : d.refQualifier = some .rvalue
  · rw [if_pos rvalue]
    exact ⟨_ ++ " &&".toList, by rw [List.append_assoc _ " &&".toList]; rfl⟩
  · rw [if_neg rvalue]
    exact ⟨_ ++ " &".toList, by rw [List.append_assoc _ " &".toList]; rfl⟩

theorem callMatches_qualified (c : Conventions) (className : Text) {source : List Token}
    {d : Declaration} {specifiers list after : List Token}
    (h : Declaration.Sourced c.stripMacros source d specifiers list after) :
    CallMatches c className Parameter.isPack specifiers list
      (qualifyDeclaration c className d) := by
  have params := h.params
  have named := Declaration.named_of_unnamed h.named
  rw [parameters_eq_map] at params
  have isStatic : (qualifyDeclaration c className d).isStatic = true ↔
      ∃ t ∈ specifiers, t.isWord "static" = true := by
    rw [← List.any_eq_true]
    exact Eq.congr_left h.isStatic
  constructor
  · intro static
    rw [parameterTexts, if_pos (isStatic.mpr static), List.nil_append]
  · intro object
    obtain ⟨type, self⟩ := selfParameter_self className (qualifyDeclaration c className d)
    rw [parameterTexts, if_neg (mt isStatic.mp object), self]
    exact ⟨type, rfl⟩
  · rw [arguments, params_qualifyDeclaration, params]
    rw [params] at named
    exact forwardsAll_qualified c className fun piece member =>
      named _ (List.mem_map_of_mem member)

/-- The call of a wrapper forwards, for each piece of the member's parameter list, the name that
the parameter of the signature declares, and expands exactly the packs among them if each parameter
is read as what it declares.  A pack that is not read as one stands inside the parenthesis of a
function pointer or reference. -/
theorem definition_forwards {c : Conventions} {ending : LineEnding} {m : Marked} {w : Wrapper}
    (h : ofMarked c ending m = .ok w) :
    ∃ d specifiers list after, Declaration.ofTokens c.stripMacros m.tokens = .ok d ∧
      Declaration.Sourced c.stripMacros m.tokens d specifiers list after ∧
      w.definition = definitionText ending m.className (qualifyDeclaration c m.className d) ∧
      CallMatches c m.className Parameter.isPack specifiers list
        (qualifyDeclaration c m.className d) ∧
      (CallMatches c m.className Parameter.declaresPack specifiers list
          (qualifyDeclaration c m.className d) ↔
        ∀ p ∈ d.params, p.isPack = p.declaresPack) ∧
      ∀ p ∈ d.params, p.declaresPack = true → p.isPack = false →
        ∃ item ∈ itemsOf (Parameter.declarator p.tokens), headMark "(" item = true ∧
          Parameter.isPointerGroup item = true := by
  obtain ⟨d, parsed, rfl⟩ := ofMarked_ok h
  obtain ⟨specifiers, list, after, sourced⟩ := Declaration.ofTokens_sourced parsed
  have call := callMatches_qualified c m.className sourced
  have packs : (∀ p ∈ (qualifyDeclaration c m.className d).params, p.isPack = p.declaresPack) ↔
      ∀ p ∈ d.params, p.isPack = p.declaresPack := by
    rw [params_qualifyDeclaration, List.forall_mem_map]
    simp only [declaresPack_qualified]
    rfl
  refine ⟨d, specifiers, list, after, parsed, sourced, rfl, call, ?_, ?_⟩
  · rw [← packs, ← call.forwards.expands_iff]
    exact ⟨fun other => other.forwards, fun all => ⟨call.ofClass, call.ofObject, all⟩⟩
  · intro p member declares missed
    have listed := member
    rw [sourced.params, parameters_eq_map] at listed
    obtain ⟨piece, _, rfl⟩ := List.mem_map.mp listed
    exact isPointerGroup_of_declaresPack declares missed

def eachMember : Marked where
  className := "handle".toList
  tokens := (Lexer.lex 1 "template <class... T> void each(void (*...fs)(T))".toList).tokens
  docs := none
  line := 1

def eachWrapper : Wrapper where
  docs := none
  definition := ("template <class... T> inline void each(handle &self, void (*...fs)(T))\n\x7b\n" ++
    "  return self.each(std::forward<decltype(fs)>(fs));\n\x7d\n").toList
  summary := ⟨"handle".toList, "each".toList, false, 1⟩

theorem definition_forwards_each : ofMarked .standard .lf eachMember = .ok eachWrapper ∧
    ∃ d specifiers list after,
      Declaration.ofTokens Conventions.standard.stripMacros eachMember.tokens = .ok d ∧
      Declaration.Sourced Conventions.standard.stripMacros eachMember.tokens d specifiers list
        after ∧
      eachWrapper.definition = definitionText .lf eachMember.className
        (qualifyDeclaration .standard eachMember.className d) ∧
      CallMatches .standard eachMember.className Parameter.isPack specifiers list
        (qualifyDeclaration .standard eachMember.className d) ∧
      (CallMatches .standard eachMember.className Parameter.declaresPack specifiers list
          (qualifyDeclaration .standard eachMember.className d) ↔
        ∀ p ∈ d.params, p.isPack = p.declaresPack) ∧
      ∀ p ∈ d.params, p.declaresPack = true → p.isPack = false →
        ∃ item ∈ itemsOf (Parameter.declarator p.tokens), headMark "(" item = true ∧
          Parameter.isPointerGroup item = true := by
  have wrapped : ofMarked .standard .lf eachMember = .ok eachWrapper :=
    ok_of_mem_toOption (by decide +kernel)
  exact ⟨wrapped, definition_forwards wrapped⟩

end Wrapper

end MemberLift
