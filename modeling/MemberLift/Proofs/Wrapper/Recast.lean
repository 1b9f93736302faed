import Mathlib.Data.List.Forall2
import MemberLift.Wrapper
import MemberLift.Proofs.Declaration.Recast
import MemberLift.Proofs.Text.Endings

/-!
Wrappers of declarations with other spacing, lines or line endings.  `Wrapper.ofMarked_recast` says
that such a change of the tokens only replaces the line feeds of the wrapper.
-/
namespace MemberLift

variable {e : LineEnding} {f : Token → Token}

structure Token.Restyled (e : LineEnding) (t' t : Token) : Prop where
  text : t'.text = e.apply t.text
  leading : t'.leading.isEmpty = t.leading.isEmpty

theorem Token.Restyled.spaced {t' t : Token} (h : Token.Restyled e t' t) :
    t'.spaced = e.apply t.spaced := by
  rw [Token.spaced, Token.spaced, h.leading, h.text]
  split
  · rfl
  · rw [LineEnding.apply_cons e (by decide)]

theorem renderSpaced_restyled {tokens' tokens : List Token}
    (h : List.Forall₂ (Token.Restyled e) tokens' tokens) :
    renderSpaced tokens' = e.apply (renderSpaced tokens) := by
  induction h with
  | nil => rfl
  | cons first _ ih =>
    simp only [renderSpaced, List.flatMap_cons] at ih ⊢
    rw [LineEnding.apply_append, ih, first.spaced]

theorem render_restyled {tokens' tokens : List Token}
    (h : List.Forall₂ (Token.Restyled e) tokens' tokens) :
    render tokens' = e.apply (render tokens) := by
  cases h with
  | nil => rfl
  | cons first rest =>
    have behind := renderSpaced_restyled rest
    rw [renderSpaced, renderSpaced] at behind
    rw [render, render, LineEnding.apply_append, first.text, behind]

theorem forall₂_map_left {R : Token → Token → Prop} {tokens : List Token}
    (h : ∀ t ∈ tokens, R (f t) t) : List.Forall₂ R (tokens.map f) tokens :=
  List.forall₂_map_left_iff.mpr (List.forall₂_same.mpr h)

theorem text_getElem?_restyled {tokens' tokens : List Token}
    (h : List.Forall₂ (Token.Restyled e) tokens' tokens) (i : Nat) :
    (tokens'[i]?).map Token.text = ((tokens[i]?).map Token.text).map e.apply := by
  induction h generalizing i with
  | nil => rfl
  | cons first _ ih =>
    cases i with
    | zero => simp [first.text]
    | succ i => simpa using ih i

structure Parameter.Restyled (e : LineEnding) (p' p : Parameter) : Prop where
  tokens : List.Forall₂ (Token.Restyled e) p'.tokens p.tokens
  nameIndex : p'.nameIndex = p.nameIndex
  isPack : p'.isPack = p.isPack

/-- Whether a declaration is another one as it is written with a line ending. -/
structure Declaration.Restyled (e : LineEnding) (d' d : Declaration) : Prop where
  templateHead : List.Forall₂ (Token.Restyled e) d'.templateHead d.templateHead
  head : List.Forall₂ (Token.Restyled e) d'.head d.head
  name : Token.Restyled e d'.name d.name
  params : List.Forall₂ (Parameter.Restyled e) d'.params d.params
  trailing : List.Forall₂ (Token.Restyled e) d'.trailing d.trailing
  isStatic : d'.isStatic = d.isStatic
  isConst : d'.isConst = d.isConst
  isVolatile : d'.isVolatile = d.isVolatile
  refQualifier : d'.refQualifier = d.refQualifier

theorem map_restyled {α : Type} {R : α → α → Prop} {text : α → Text}
    (one : ∀ {x' x}, R x' x → text x' = e.apply (text x)) {l' l : List α}
    (h : List.Forall₂ R l' l) : l'.map text = (l.map text).map e.apply := by
  induction h with
  | nil => rfl
  | cons first _ ih => rw [List.map_cons, one first, ih, List.map_cons, List.map_cons]

namespace Wrapper

/-- The wrapper of a declaration that was taken apart. -/
def ofDeclaration (c : Conventions) (ending : LineEnding) (m : Marked) (d : Declaration) :
    Wrapper :=
  { docs := m.docs.map (relocatedDocs ending d.isStatic)
    definition := definitionText ending m.className (qualifyDeclaration c m.className d)
    summary := ⟨m.className, d.name.text, d.isStatic, m.line⟩ }

theorem ofMarked_eq (c : Conventions) (ending : LineEnding) (m : Marked) :
    ofMarked c ending m =
      (Declaration.ofTokens c.stripMacros m.tokens).map (ofDeclaration c ending m) := rfl

theorem ofMarked_ok {c : Conventions} {ending : LineEnding} {m : Marked} {w : Wrapper}
    (h : ofMarked c ending m = .ok w) :
    ∃ d, Declaration.ofTokens c.stripMacros m.tokens = .ok d ∧ w = ofDeclaration c ending m d := by
  rw [ofMarked_eq] at h
  cases parsed : Declaration.ofTokens c.stripMacros m.tokens with
  | error fault =>
    rw [parsed] at h
    cases h
  | ok d =>
    rw [parsed] at h
    cases h
    exact ⟨d, rfl, rfl⟩

theorem qualifyFrom_restyled (h : Recast f) {className : Text}
    (fixed : e.apply className = className) (nested : List Text) (skip : Option Nat)
    (index : Nat) (accessed : Bool) {tokens : List Token}
    (same : ∀ t ∈ tokens, Token.Restyled e (f t) t) :
    List.Forall₂ (Token.Restyled e)
      (qualifyFrom className nested skip index accessed (tokens.map f))
      (qualifyFrom className nested skip index accessed tokens) := by
  induction tokens generalizing index accessed with
  | nil => exact .nil
  | cons t rest ih =>
    have first := same t List.mem_cons_self
    have tail := ih (index + 1) (isAccess t) fun u inside => same u (List.mem_cons_of_mem t inside)
    simp only [List.map_cons, qualifyFrom, h.isWordIn, isAccess, h.isMarkIn] at tail ⊢
    refine .cons ?_ tail
    split
    · refine ⟨?_, first.leading⟩
      rw [LineEnding.apply_append, LineEnding.apply_append, fixed, first.text]
      rfl
    · exact first

theorem qualifyDeclaration_restyled (h : Recast f) (c : Conventions) {className : Text}
    (fixed : e.apply className = className) {d : Declaration}
    (same : ∀ t ∈ d.tokens, Token.Restyled e (f t) t) :
    Declaration.Restyled e (qualifyDeclaration c className (d.recast f))
      (qualifyDeclaration c className d) := by
  have qualified {tokens : List Token} (skip : Option Nat) (inside : ∀ t ∈ tokens, t ∈ d.tokens) :
      List.Forall₂ (Token.Restyled e) (qualify className c.nestedTypes skip (tokens.map f))
        (qualify className c.nestedTypes skip tokens) :=
    qualifyFrom_restyled h fixed c.nestedTypes skip 0 false fun t member => same t (inside t member)
  constructor
  · exact forall₂_map_left fun t inside => same t (by simp [Declaration.tokens, inside])
  · exact qualified none fun t inside => by simp [Declaration.tokens, inside]
  · exact same d.name (by simp [Declaration.tokens])
  · simp only [qualifyDeclaration, Declaration.recast, List.map_map, List.forall₂_map_left_iff,
      List.forall₂_map_right_iff, List.forall₂_same]
    intro p listed
    refine ⟨qualified p.nameIndex fun t inside => ?_, rfl, rfl⟩
    simp only [Declaration.tokens, List.mem_append, List.mem_flatMap]
    exact .inl (.inr ⟨p, listed, inside⟩)
  · exact qualified none fun t inside => by simp [Declaration.tokens, inside]
  · rfl
  · rfl
  · rfl
  · rfl

variable {className : Text} {d' d : Declaration}

theorem apply_ite (b : Prop) [Decidable b] (x y : Text) :
    e.apply (if b then x else y) = if b then e.apply x else e.apply y := by
  split <;> rfl

theorem selfParameter_restyled (fixed : e.apply className = className)
    (h : Declaration.Restyled e d' d) :
    selfParameter className d' = e.apply (selfParameter className d) := by
  have const : e.apply "const ".toList = "const ".toList := LineEnding.apply_eq_self e (by simp)
  have volatile : e.apply "volatile ".toList = "volatile ".toList :=
    LineEnding.apply_eq_self e (by simp)
  have self : e.apply (if d.refQualifier = some .rvalue then " &&self" else " &self").toList =
      (if d.refQualifier = some .rvalue then " &&self" else " &self").toList := by
    split
    · exact LineEnding.apply_eq_self e (by simp)
    · exact LineEnding.apply_eq_self e (by simp)
  rw [selfParameter, selfParameter, h.isConst, h.isVolatile, h.refQualifier]
  simp only [LineEnding.apply_append, apply_ite, LineEnding.apply_nil, const, volatile, fixed, self]

theorem parameterTexts_restyled (fixed : e.apply className = className)
    (h : Declaration.Restyled e d' d) :
    parameterTexts className d' = (parameterTexts className d).map e.apply := by
  have params : d'.params.map Parameter.render = (d.params.map Parameter.render).map e.apply :=
    map_restyled (fun same => render_restyled same.tokens) h.params
  rw [parameterTexts, parameterTexts, h.isStatic, selfParameter_restyled fixed h, params,
    List.map_append]
  split
  · rfl
  · rfl

theorem signature_restyled (fixed : e.apply className = className)
    (h : Declaration.Restyled e d' d) :
    signature className d' = e.apply (signature className d) := by
  have comma : e.apply ", ".toList = ", ".toList := LineEnding.apply_eq_self e (by simp)
  have inline_ : e.apply "inline ".toList = "inline ".toList :=
    LineEnding.apply_eq_self e (by simp)
  have heads : d'.templateHead.isEmpty = d.templateHead.isEmpty := by
    rw [Bool.eq_iff_iff, List.isEmpty_iff, List.isEmpty_iff, ← List.length_eq_zero_iff,
      ← List.length_eq_zero_iff, h.templateHead.length_eq]
  have name : renderSpaced [d'.name] = e.apply (renderSpaced [d.name]) :=
    renderSpaced_restyled (.cons h.name .nil)
  rw [signature, signature, heads, render_restyled h.templateHead, render_restyled h.head, name,
    parameterTexts_restyled fixed h, renderSpaced_restyled h.trailing]
  simp only [LineEnding.apply_append, apply_ite, LineEnding.apply_nil, inline_,
    LineEnding.apply_join, comma, LineEnding.apply_cons e (c := '(') (by decide),
    LineEnding.apply_cons e (c := ')') (by decide), LineEnding.apply_cons e (c := ' ') (by decide)]

theorem callee_restyled (fixed : e.apply className = className)
    (h : Declaration.Restyled e d' d) : callee className d' = e.apply (callee className d) := by
  have scope : e.apply "::".toList = "::".toList := LineEnding.apply_eq_self e (by simp)
  have moved : e.apply "std::move(self).".toList = "std::move(self).".toList :=
    LineEnding.apply_eq_self e (by simp)
  have self : e.apply "self.".toList = "self.".toList := LineEnding.apply_eq_self e (by simp)
  rw [callee, callee, h.isStatic, h.refQualifier, h.name.text]
  simp only [apply_ite, LineEnding.apply_append, fixed, scope, moved, self]

theorem argument_apply (name : Text) (isPack : Bool) :
    argument (e.apply name) isPack = e.apply (argument name isPack) := by
  have forward : e.apply "std::forward<decltype(".toList = "std::forward<decltype(".toList :=
    LineEnding.apply_eq_self e (by simp)
  have between : e.apply ")>(".toList = ")>(".toList := LineEnding.apply_eq_self e (by simp)
  have close : e.apply ")".toList = ")".toList := LineEnding.apply_eq_self e (by simp)
  have pack : e.apply (if isPack then "..." else "").toList =
      (if isPack then "..." else "").toList := by
    split
    · exact LineEnding.apply_eq_self e (by simp)
    · exact LineEnding.apply_eq_self e (by simp)
  unfold argument
  simp only [LineEnding.apply_append, forward, between, close, pack]

theorem name?_restyled {p' p : Parameter} (h : Parameter.Restyled e p' p) :
    p'.name? = p.name?.map e.apply := by
  rw [Parameter.name?, Parameter.name?, h.nameIndex, Option.map_bind]
  exact congrArg _ (funext fun i => text_getElem?_restyled h.tokens i)

theorem arguments_restyled {params' params : List Parameter}
    (h : List.Forall₂ (Parameter.Restyled e) params' params) :
    params'.filterMap (fun p => p.name?.map fun name => argument name p.isPack) =
      (params.filterMap fun p => p.name?.map fun name => argument name p.isPack).map e.apply := by
  induction h with
  | nil => rfl
  | @cons p' p _ _ first _ ih =>
    rw [List.filterMap_cons, List.filterMap_cons, name?_restyled first, first.isPack, ih]
    cases p.name? with
    | none => rfl
    | some name => simp only [Option.map_some, argument_apply, List.map_cons]

theorem call_restyled (fixed : e.apply className = className)
    (h : Declaration.Restyled e d' d) : call className d' = e.apply (call className d) := by
  have return_ : e.apply "  return ".toList = "  return ".toList :=
    LineEnding.apply_eq_self e (by simp)
  have comma : e.apply ", ".toList = ", ".toList := LineEnding.apply_eq_self e (by simp)
  have close : e.apply ");".toList = ");".toList := LineEnding.apply_eq_self e (by simp)
  unfold call
  rw [callee_restyled fixed h, arguments, arguments, arguments_restyled h.params]
  simp only [LineEnding.apply_append, LineEnding.apply_join, return_, comma, close,
    LineEnding.apply_cons e (c := '(') (by decide)]

theorem definitionText_restyled {ending' ending : LineEnding}
    (ends : e.apply ending.text = ending'.text) (fixed : e.apply className = className)
    (h : Declaration.Restyled e d' d) :
    definitionText ending' className d' = e.apply (definitionText ending className d) := by
  have opening : e.apply "\x7b".toList = "\x7b".toList := LineEnding.apply_eq_self e (by simp)
  have closing : e.apply "\x7d".toList = "\x7d".toList := LineEnding.apply_eq_self e (by simp)
  simp only [definitionText, List.flatMap_cons, List.flatMap_nil, LineEnding.apply_append,
    signature_restyled fixed h, call_restyled fixed h, ends, opening, closing,
    LineEnding.apply_nil]

def restyle (e : LineEnding) (w : Wrapper) : Wrapper :=
  { w with docs := w.docs.map e.apply, definition := e.apply w.definition }

theorem documentSelf_apply {ending' ending : LineEnding} (ends : e.apply ending.text = ending'.text)
    (docs : Text) :
    documentSelf ending' (e.apply docs) = e.apply (documentSelf ending docs) := by
  have self : e.apply selfDocs = selfDocs := by
    unfold selfDocs
    exact LineEnding.apply_eq_self e (by simp)
  unfold documentSelf
  rw [LineEnding.cutBefore_apply e (by simp [LineEnding.Plain]) (by simp)]
  cases Text.cutBefore "\\param".toList docs with
  | none => rfl
  | some parts => simp only [Option.map_some, Prod.map, LineEnding.apply_append, self, ends]

theorem relocatedDocs_apply {ending' ending : LineEnding}
    (ends : e.apply ending.text = ending'.text) (isStatic : Bool) (docs : Text) :
    relocatedDocs ending' isStatic (e.apply docs) =
      e.apply (relocatedDocs ending isStatic docs) := by
  rw [relocatedDocs, relocatedDocs]
  split
  · rfl
  · exact documentSelf_apply ends docs

/-- A change of the tokens of a declaration changes nothing but line feeds of its wrapper. -/
theorem ofMarked_recast (h : Recast f) (c : Conventions) {ending' ending : LineEnding}
    (ends : e.apply ending.text = ending'.text) (m : Marked)
    (fixed : e.apply m.className = m.className)
    (same : ∀ t ∈ m.tokens, Token.Restyled e (f t) t) :
    (ofMarked c ending' { m with tokens := m.tokens.map f, docs := m.docs.map e.apply }).toOption =
      (ofMarked c ending m).toOption.map (restyle e) := by
  have taken := Declaration.ofTokens_recast h c.stripMacros m.tokens
  rw [ofMarked, ofMarked]
  cases found : Declaration.ofTokens c.stripMacros m.tokens with
  | error fault =>
    rw [found] at taken
    cases there : Declaration.ofTokens c.stripMacros (m.tokens.map f) with
    | error fault => rfl
    | ok d' => rw [there] at taken; cases taken
  | ok d =>
    rw [found] at taken
    cases there : Declaration.ofTokens c.stripMacros (m.tokens.map f) with
    | error fault => rw [there] at taken; cases taken
    | ok d' =>
      rw [there] at taken
      cases taken
      have sources := Declaration.ofTokens_mem found
      have restyled := qualifyDeclaration_restyled h c fixed fun t inside =>
        same t (sources t inside)
      have name := h.text d.name (by rw [Declaration.ofTokens_name found]; decide)
      have docs : (m.docs.map e.apply).map (relocatedDocs ending' d.isStatic) =
          (m.docs.map (relocatedDocs ending d.isStatic)).map e.apply := by
        cases m.docs with
        | none => rfl
        | some docs => exact congrArg some (relocatedDocs_apply ends d.isStatic docs)
      have definition := definitionText_restyled ends fixed restyled
      simp only [Except.map, Except.toOption, Option.map_some, Option.some.injEq, restyle,
        Wrapper.mk.injEq]
      refine ⟨docs, definition, ?_⟩
      simp only [qualifyDeclaration, Declaration.recast, name]

theorem bare_restyled (t : Token) : Token.Restyled .lf t.bare t where
  text := (LineEnding.apply_lf t.text).symm
  leading := t.spacing_isEmpty

theorem restyle_lf (w : Wrapper) : restyle .lf w = w := by
  obtain ⟨docs, definition, summary⟩ := w
  have same : docs.map LineEnding.lf.apply = docs := by
    cases docs with
    | none => rfl
    | some docs => exact congrArg some (LineEnding.apply_lf docs)
  rw [restyle, same, LineEnding.apply_lf]

theorem ofMarked_bare (c : Conventions) (ending : LineEnding) (m : Marked) :
    (ofMarked c ending { m with tokens := m.tokens.map Token.bare }).toOption =
      (ofMarked c ending m).toOption := by
  have docs : m.docs.map LineEnding.lf.apply = m.docs := by
    cases m.docs with
    | none => rfl
    | some docs => exact congrArg some (LineEnding.apply_lf docs)
  have recast := ofMarked_recast Token.bare_recast c (LineEnding.apply_lf ending.text) m
    (LineEnding.apply_lf m.className) fun t _ => bare_restyled t
  rw [docs, funext restyle_lf] at recast
  simpa using recast

end Wrapper

end MemberLift
