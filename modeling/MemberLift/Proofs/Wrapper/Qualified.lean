import MemberLift.Proofs.Wrapper.Respacing

/-!
Qualified names.  In the head, the parameters and the trailing part of a declaration the class
stands in front of exactly the bare names of its nested types.  Template heads are written as they
are, so the whole signature is qualified exactly if no bare name stands in them
(`definition_qualified`).
-/
namespace MemberLift

namespace Wrapper

/-- Whether the token at an index is the bare name of a nested type: none that is declared there,
and none that an access mark says the owner of. -/
def isBare (nested : List Text) (declared : Nat → Bool) (tokens : List Token) (i : Nat) : Bool :=
  (tokens[i]?.map (·.isWordIn nested)).getD false && !declared i &&
    !(i != 0 && (tokens[i - 1]?.map isAccess).getD false)

/-- Tokens with the class in front of each bare name of a nested type, and all else as it is. -/
def spelledOut (className : Text) (nested : List Text) (declared : Nat → Bool)
    (tokens : List Token) : List Token :=
  tokens.mapIdx fun i t =>
    if isBare nested declared tokens i then { t with text := className ++ "::".toList ++ t.text }
    else t

theorem qualifyFrom_eq_mapIdx (className : Text) (nested : List Text) (skip : Option Nat)
    (index : Nat) (accessed : Bool) (tokens : List Token) :
    qualifyFrom className nested skip index accessed tokens = tokens.mapIdx fun i t =>
      if t.isWordIn nested &&
          !(if i = 0 then accessed else (tokens[i - 1]?.map isAccess).getD false) &&
          skip != some (index + i) then
        { t with text := className ++ "::".toList ++ t.text }
      else t := by
  induction tokens generalizing index accessed with
  | nil => rfl
  | cons t rest ih =>
    rw [qualifyFrom, List.mapIdx_cons, ih]
    congr 1
    refine List.mapIdx_eq_mapIdx_iff.mpr fun i inside => ?_
    have place : index + 1 + i = index + (i + 1) := by omega
    cases i with
    | zero => rfl
    | succ j => simp [place]

/-- Qualifying is spelling out where only the skipped token declares its name. -/
theorem qualify_eq_spelledOut (className : Text) (nested : List Text) (skip : Option Nat)
    (tokens : List Token) :
    qualify className nested skip tokens =
      spelledOut className nested (fun i => skip == some i) tokens := by
  rw [qualify, qualifyFrom_eq_mapIdx, spelledOut]
  refine List.mapIdx_eq_mapIdx_iff.mpr fun i inside => ?_
  have here : tokens[i]? = some tokens[i] := List.getElem?_eq_getElem inside
  simp only [isBare, here, Option.map_some, Option.getD_some, Nat.zero_add, bne]
  cases i with
  | zero => simp
  | succ j => simp [Bool.and_right_comm]

structure Grown (t t' : Token) : Prop where
  leading : t'.leading = t.leading
  text : t.text.length ≤ t'.text.length

theorem Grown.spaced {t t' : Token} (h : Grown t t') :
    t'.spaced.length + t.text.length = t.spaced.length + t'.text.length := by
  unfold Token.spaced
  rw [h.leading]
  split
  · omega
  · simp only [List.length_cons]
    omega

theorem length_renderSpaced {tokens tokens' : List Token} (h : List.Forall₂ Grown tokens tokens') :
    (renderSpaced tokens').length + (tokens.flatMap Token.text).length =
      (renderSpaced tokens).length + (tokens'.flatMap Token.text).length := by
  induction h with
  | nil => rfl
  | cons first _ ih =>
    have one := first.spaced
    simp only [renderSpaced, List.flatMap_cons, List.length_append] at ih ⊢
    omega

theorem length_render {tokens tokens' : List Token} (h : List.Forall₂ Grown tokens tokens') :
    (render tokens').length + (tokens.flatMap Token.text).length =
      (render tokens).length + (tokens'.flatMap Token.text).length := by
  cases h with
  | nil => rfl
  | cons first rest =>
    have behind := length_renderSpaced rest
    simp only [renderSpaced] at behind
    simp only [render, List.length_append, List.flatMap_cons]
    omega

theorem spelledOut_grown (className : Text) (nested : List Text) (declared : Nat → Bool)
    (tokens : List Token) :
    List.Forall₂ Grown tokens (spelledOut className nested declared tokens) := by
  refine List.forall₂_iff_get.mpr ⟨by simp [spelledOut], fun i inside inside' => ?_⟩
  simp only [List.get_eq_getElem, spelledOut, List.getElem_mapIdx]
  split
  · refine ⟨rfl, ?_⟩
    rw [List.length_append]
    exact Nat.le_add_left _ _
  · exact ⟨rfl, Nat.le_refl _⟩

theorem Grown.length_le {tokens tokens' : List Token} (h : List.Forall₂ Grown tokens tokens') :
    (tokens.flatMap Token.text).length ≤ (tokens'.flatMap Token.text).length := by
  induction h with
  | nil => exact Nat.le_refl _
  | cons first _ ih =>
    rw [List.flatMap_cons, List.flatMap_cons, List.length_append, List.length_append]
    exact Nat.add_le_add first.text ih

theorem Grown.text_eq {tokens tokens' : List Token} (h : List.Forall₂ Grown tokens tokens')
    (same : render tokens' = render tokens) :
    List.Forall₂ (fun t t' => t'.text.length = t.text.length) tokens tokens' := by
  have lengths := length_render h
  rw [same, Nat.add_left_cancel_iff] at lengths
  clear same
  induction h with
  | nil => exact .nil
  | cons first rest ih =>
    have behind := Grown.length_le rest
    have here := first.text
    simp only [List.flatMap_cons, List.length_append] at lengths
    exact .cons (by omega) (ih (by omega))

theorem render_spelledOut (className : Text) (nested : List Text) (declared : Nat → Bool)
    (tokens : List Token) :
    render (spelledOut className nested declared tokens) = render tokens ↔
      ∀ i, isBare nested declared tokens i = false := by
  constructor
  · intro same i
    by_cases inside : i < tokens.length
    · have lengths := Grown.text_eq (spelledOut_grown className nested declared tokens) same
      have here := (List.forall₂_iff_get.mp lengths).2 i inside (by simpa [spelledOut])
      simp only [List.get_eq_getElem, spelledOut, List.getElem_mapIdx] at here
      split at here
      · simp only [List.length_append] at here
        have colons : "::".toList.length = 2 := rfl
        omega
      · rename_i plain
        exact Bool.eq_false_iff.mpr plain
    · simp [isBare, List.getElem?_eq_none (Nat.le_of_not_lt inside)]
  · intro plain
    have same : spelledOut className nested declared tokens = tokens := by
      simp only [spelledOut, plain, Bool.false_eq_true, if_false]
      exact List.mapIdx_eq_iff.mpr fun i => by simp
    rw [same]

/-- A declaration with the class in front of each bare name of a nested type, in its template heads
as well.  The names that parameters declare stay; of the names in the template heads, those that are
declared there. -/
def spelledDeclaration (c : Conventions) (className : Text) (declared : Nat → Bool)
    (d : Declaration) : Declaration :=
  { d with
    templateHead := spelledOut className c.nestedTypes declared d.templateHead
    head := spelledOut className c.nestedTypes (fun _ => false) d.head
    trailing := spelledOut className c.nestedTypes (fun _ => false) d.trailing
    params := d.params.map fun p =>
      { p with tokens :=
          spelledOut className c.nestedTypes (fun i => p.nameIndex == some i) p.tokens } }

theorem qualifyDeclaration_eq (c : Conventions) (className : Text) (declared : Nat → Bool)
    (d : Declaration) :
    qualifyDeclaration c className d =
      { spelledDeclaration c className declared d with templateHead := d.templateHead } := by
  simp only [qualifyDeclaration, spelledDeclaration, qualify_eq_spelledOut]
  rfl

theorem definitionText_templateHead (ending : LineEnding) (className : Text) (d : Declaration)
    (heads : List Token) :
    definitionText ending className { d with templateHead := heads } =
      (if heads.isEmpty then [] else render heads ++ [' ']) ++
        definitionText ending className { d with templateHead := [] } := by
  have called : call className { d with templateHead := heads } =
      call className { d with templateHead := [] } := rfl
  have params : parameterTexts className { d with templateHead := heads } =
      parameterTexts className { d with templateHead := [] } := rfl
  simp only [definitionText, called, signature, params, List.flatMap_cons, List.append_assoc,
    List.isEmpty_nil, if_true, List.nil_append]

/-- A wrapper has the class in front of exactly the bare names of nested types in its return type,
its parameters and what follows them.  It has it in its whole signature exactly if no bare name
stands in the template heads, whichever names are declared there. -/
theorem definition_qualified {c : Conventions} {ending : LineEnding} {m : Marked} {w : Wrapper}
    (h : ofMarked c ending m = .ok w) (declared : Nat → Bool) :
    ∃ d, Declaration.ofTokens c.stripMacros m.tokens = .ok d ∧
      w.definition = definitionText ending m.className
        { spelledDeclaration c m.className declared d with templateHead := d.templateHead } ∧
      (w.definition =
          definitionText ending m.className (spelledDeclaration c m.className declared d) ↔
        ∀ i, isBare c.nestedTypes declared d.templateHead i = false) := by
  obtain ⟨d, parsed, rfl⟩ := ofMarked_ok h
  have written_ : (ofDeclaration c ending m d).definition = definitionText ending m.className
      { spelledDeclaration c m.className declared d with templateHead := d.templateHead } := by
    rw [ofDeclaration, qualifyDeclaration_eq c m.className declared d]
  refine ⟨d, parsed, written_, ?_⟩
  have spelled := definitionText_templateHead ending m.className
    (spelledDeclaration c m.className declared d)
    (spelledOut m.className c.nestedTypes declared d.templateHead)
  have itself : { spelledDeclaration c m.className declared d with
      templateHead := spelledOut m.className c.nestedTypes declared d.templateHead } =
      spelledDeclaration c m.className declared d := rfl
  rw [itself] at spelled
  have empty : (spelledOut m.className c.nestedTypes declared d.templateHead).isEmpty =
      d.templateHead.isEmpty := by
    cases d.templateHead with
    | nil => rfl
    | cons t rest => simp [spelledOut]
  rw [written_, definitionText_templateHead, spelled, List.append_left_inj, empty,
    ← render_spelledOut m.className, eq_comm]
  cases d.templateHead with
  | nil => simp [spelledOut]
  | cons t rest => simp

example : isBare ["size_type".toList] (· == 3)
    (Lexer.lex 1 "template <size_type N>".toList).tokens 2 = true := by
  decide +kernel

def sizedMember : Marked where
  className := "handle".toList
  tokens := (Lexer.lex 1 "template <size_type N> void fill(int x)".toList).tokens
  docs := none
  line := 1

def sizedWrapper : Wrapper where
  docs := none
  definition := ("template <size_type N> inline void fill(handle &self, int x)\n\x7b\n" ++
    "  return self.fill(std::forward<decltype(x)>(x));\n\x7d\n").toList
  summary := ⟨"handle".toList, "fill".toList, false, 1⟩

theorem definition_qualified_sized : ofMarked .standard .lf sizedMember = .ok sizedWrapper ∧
    ∃ d, Declaration.ofTokens Conventions.standard.stripMacros sizedMember.tokens = .ok d ∧
      sizedWrapper.definition = definitionText .lf sizedMember.className
        { spelledDeclaration .standard sizedMember.className (· == 3) d with
          templateHead := d.templateHead } ∧
      (sizedWrapper.definition = definitionText .lf sizedMember.className
          (spelledDeclaration .standard sizedMember.className (· == 3) d) ↔
        ∀ i, isBare Conventions.standard.nestedTypes (· == 3) d.templateHead i = false) := by
  have wrapped : ofMarked .standard .lf sizedMember = .ok sizedWrapper :=
    ok_of_mem_toOption (by decide +kernel)
  exact ⟨wrapped, definition_qualified wrapped (· == 3)⟩

end Wrapper

end MemberLift
