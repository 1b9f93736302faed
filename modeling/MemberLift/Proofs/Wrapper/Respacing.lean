import MemberLift.Proofs.Lexer.Respacing
import MemberLift.Proofs.Wrapper.Recast

/-!
Writing tokens and reading them again.  The kinds and texts of the tokens stay, every gap becomes
one space, and the wrapper of a declaration that was written and read again is the same.
-/
namespace MemberLift

open Lexer MemberLift.Group

theorem flush_map_eq {α : Type} {g : Token → α} (same : ∀ t, g { t with leading := [] } = g t)
    (tokens : List Token) : (flush tokens).map g = tokens.map g := by
  cases tokens with
  | nil => rfl
  | cons t rest => rw [flush, List.map_cons, List.map_cons, same]

theorem render_flush (tokens : List Token) : render (flush tokens) = render tokens := by
  cases tokens with
  | nil => rfl
  | cons t rest => rfl

theorem flush_append {tokens : List Token} (nonempty : tokens ≠ []) (more : List Token) :
    flush (tokens ++ more) = flush tokens ++ more := by
  cases tokens with
  | nil => exact absurd rfl nonempty
  | cons t rest => rfl

theorem flush_flush (tokens : List Token) : flush (flush tokens) = flush tokens := by
  cases tokens with
  | nil => rfl
  | cons t rest => rfl

def flushItems : List (List Token) → List (List Token)
  | [] => []
  | item :: rest => flush item :: rest

theorem itemsOf_flush (tokens : List Token) :
    itemsOf (flush tokens) = flushItems (itemsOf tokens) := by
  cases tokens with
  | nil => simp [itemsOf, items, flush, flushItems]
  | cons t rest =>
    have grouped : span false { t with leading := [] } rest = span false t rest := rfl
    rw [flush, itemsOf, itemsOf, items.eq_2, items.eq_2, grouped]
    cases span false t rest with
    | none => rfl
    | some k => rfl

namespace Declaration

def Parts.flush (p : Parts) : Parts := { p with before := Lexer.flush p.before }

theorem findParameters_flush_before {before : List Token} (nonempty : before ≠ [])
    (items : List (List Token)) :
    findParameters (flush before) items = (findParameters before items).map Parts.flush := by
  induction items generalizing before with
  | nil => rfl
  | cons item rest ih =>
    have last : ((flush before).getLast?.map mayBeName).getD false =
        (before.getLast?.map mayBeName).getD false := by
      rw [← List.getLast?_map, ← List.getLast?_map, flush_map_eq fun _ => rfl]
    rw [findParameters, findParameters, last, ← flush_append nonempty, ih (by simp [nonempty])]
    split
    · rfl
    · split
      · split
        · rfl
        · rfl
      · rfl

theorem findParameters_flush {items : List (List Token)} (nonempty : ∀ item ∈ items, item ≠ []) :
    findParameters [] (flushItems items) = (findParameters [] items).map Parts.flush := by
  cases items with
  | nil => rfl
  | cons item rest =>
    have first := nonempty item List.mem_cons_self
    have word : headWord "operator" (Lexer.flush item) = headWord "operator" item := by
      cases item with
      | nil => rfl
      | cons t more => rfl
    have behind := findParameters_flush_before first rest
    rw [flushItems, findParameters, findParameters, word]
    split
    · rfl
    · simpa using behind

theorem templateHeads_flush {t : Token} (template : t.isWord "template" = true)
    (rest : List Token) :
    templateHeads (flush (t :: rest)) =
      (templateHeads (t :: rest)).map fun p => (flush p.1, p.2) := by
  have same : Token.isWord { t with leading := [] } "template" = true := template
  rw [flush, templateHeads.eq_2, templateHeads.eq_2, if_pos same, if_pos template]
  cases angleSpan rest with
  | none => rfl
  | some k =>
    simp only
    cases templateHeads (rest.drop k) with
    | error fault => rfl
    | ok p => rfl

theorem templateHeads_plain {t : Token} (plain : ¬ t.isWord "template" = true)
    (rest : List Token) : templateHeads (t :: rest) = .ok ([], t :: rest) := by
  rw [templateHeads.eq_2, if_neg plain]

def flush (d : Declaration) : Declaration :=
  { d with templateHead := Lexer.flush d.templateHead, head := Lexer.flush d.head }

theorem ofParts_flush_head (stripMacros : List Text) (templateHead : List Token) (parts : Parts) :
    (ofParts stripMacros (Lexer.flush templateHead) parts).toOption.map flush =
      (ofParts stripMacros templateHead parts).toOption.map flush := by
  unfold ofParts
  cases parts.before.getLast? with
  | none => rfl
  | some name =>
    simp only
    split
    · rfl
    · cases unnamed 1 (parameters parts.group.tail.dropLast) with
      | some p => rfl
      | none =>
        cases readTrailing name.text false ⟨[], false, false, none⟩ (itemsOf parts.after) with
        | error fault => rfl
        | ok q => simp [Except.map, Except.toOption, flush, flush_flush]

/-- The token in front of which the space goes is not the name, which stands behind the return
type. -/
theorem ofParts_flush (stripMacros : List Text) (templateHead : List Token) (parts : Parts) :
    (ofParts stripMacros templateHead parts.flush).toOption.map flush =
      (ofParts stripMacros templateHead parts).toOption.map flush := by
  obtain ⟨before, group, after⟩ := parts
  rcases before with _ | ⟨t, _ | ⟨u, more⟩⟩
  · rfl
  · rfl
  · have stripped :
        isStripped stripMacros { t with leading := [] } = isStripped stripMacros t := rfl
    have static : Token.isWord { t with leading := [] } "static" = t.isWord "static" := rfl
    simp only [ofParts, Parts.flush, Lexer.flush, List.getLast?_cons_cons, List.dropLast_cons_cons,
      List.filter_cons, stripped, List.any_cons, static]
    by_cases goes : isStripped stripMacros t = true
    · simp only [goes, Bool.not_true, Bool.false_eq_true, if_false]
    · cases (u :: more).getLast? with
      | none => rfl
      | some name =>
        simp only [goes, Bool.not_false, if_true, List.isEmpty_cons, Bool.false_eq_true, if_false]
        cases unnamed 1 (parameters group.tail.dropLast) with
        | some p => rfl
        | none =>
          cases readTrailing name.text false ⟨[], false, false, none⟩ (itemsOf after) with
          | error fault => rfl
          | ok q => rfl

theorem ofTokens_flush (stripMacros : List Text) (tokens : List Token) :
    (ofTokens stripMacros (Lexer.flush tokens)).toOption.map flush =
      (ofTokens stripMacros tokens).toOption.map flush := by
  cases tokens with
  | nil => rfl
  | cons t rest =>
    rw [ofTokens, ofTokens]
    by_cases template : t.isWord "template" = true
    · rw [templateHeads_flush template]
      cases templateHeads (t :: rest) with
      | error fault => rfl
      | ok p =>
        simp only [Except.map, bind, Except.bind]
        cases findParameters [] (itemsOf p.2) with
        | error fault => rfl
        | ok parts => exact ofParts_flush_head stripMacros p.1 parts
    · have same : ¬ Token.isWord { t with leading := [] } "template" = true := template
      have there := itemsOf_flush (t :: rest)
      rw [Lexer.flush] at there ⊢
      rw [templateHeads_plain template, templateHeads_plain same]
      simp only [bind, Except.bind, there]
      have moved : findParameters [] (flushItems (itemsOf (t :: rest))) = _ :=
        findParameters_flush (items_ne_nil false (t :: rest))
      rw [moved]
      cases findParameters [] (itemsOf (t :: rest)) with
      | error fault => rfl
      | ok parts => exact ofParts_flush stripMacros [] parts

end Declaration

namespace Wrapper

theorem qualify_flush (className : Text) (nested : List Text) (skip : Option Nat)
    (tokens : List Token) :
    qualify className nested skip (flush tokens) =
      flush (qualify className nested skip tokens) := by
  cases tokens with
  | nil => rfl
  | cons t rest =>
    have word : Token.isWordIn { t with leading := [] } nested = t.isWordIn nested := rfl
    have access : isAccess { t with leading := [] } = isAccess t := rfl
    simp only [qualify, flush, qualifyFrom, word, access]
    split
    · rfl
    · rfl

theorem definitionText_flush (ending : LineEnding) (className : Text) (d : Declaration) :
    definitionText ending className d.flush = definitionText ending className d := by
  have heads : (flush d.templateHead).isEmpty = d.templateHead.isEmpty := by
    cases d.templateHead with
    | nil => rfl
    | cons t rest => rfl
  have first : signature className d.flush = signature className d := by
    simp only [signature, Declaration.flush, heads, render_flush]
    rfl
  rw [definitionText, definitionText, first]
  rfl

theorem ofDeclaration_flush (c : Conventions) (ending : LineEnding) (m : Marked) (d : Declaration) :
    ofDeclaration c ending m d.flush = ofDeclaration c ending m d := by
  have qualified : qualifyDeclaration c m.className d.flush =
      (qualifyDeclaration c m.className d).flush := by
    simp only [qualifyDeclaration, Declaration.flush, qualify_flush]
  rw [ofDeclaration, ofDeclaration, qualified, definitionText_flush]
  rfl

/-- The wrapper of a declaration does not depend on what stands in front of its first token. -/
theorem ofMarked_flush (c : Conventions) (ending : LineEnding) (m : Marked) :
    (ofMarked c ending { m with tokens := flush m.tokens }).toOption =
      (ofMarked c ending m).toOption := by
  have same (tokens : List Token) :
      (ofMarked c ending { m with tokens := tokens }).toOption =
        ((Declaration.ofTokens c.stripMacros tokens).toOption.map Declaration.flush).map
          (ofDeclaration c ending m) := by
    rw [ofMarked_eq]
    cases Declaration.ofTokens c.stripMacros tokens with
    | error fault => rfl
    | ok d => exact congrArg some (ofDeclaration_flush c ending m d).symm
  rw [same, Declaration.ofTokens_flush, ← same]

theorem respaced_bare (line : Nat) (tokens : List Token) :
    (respaced line tokens).map Token.bare = tokens.map Token.bare := by
  induction tokens generalizing line with
  | nil => rfl
  | cons t rest ih =>
    have twice : Token.spacing ⟨t.kind, t.text, t.spacing, line⟩ = t.spacing :=
      congrArg (fun empty => if empty then [] else [' ']) t.spacing_isEmpty
    rw [respaced, List.map_cons, List.map_cons, ih, Token.bare, twice]
    rfl

/-- Reading what was written from tokens gives the kinds and texts of these tokens, with space in
front of the same tokens apart from the first, and the same wrapper if the tokens declare one. -/
theorem tokenize_render {line line' : Nat} {s : Text} {tokens : List Token}
    (h : tokenize line s = .ok tokens) :
    ∃ again, tokenize line' (render tokens) = .ok again ∧
      again.map (fun t => (t.kind, t.text)) = tokens.map (fun t => (t.kind, t.text)) ∧
      again.map (·.leading.isEmpty) = (flush tokens).map (·.leading.isEmpty) ∧
      ∀ (c : Conventions) (ending : LineEnding) (className : Text) (docs : Option Text) (l : Nat),
        (ofMarked c ending ⟨className, again, docs, l⟩).toOption =
          (ofMarked c ending ⟨className, tokens, docs, l⟩).toOption := by
  have same := respaced_bare line' (flush tokens)
  refine ⟨respaced line' (flush tokens), tokenize_render_flush h, ?_, ?_, ?_⟩
  · have kinds := congrArg (List.map fun t => (t.kind, t.text)) same
    rw [List.map_map, List.map_map] at kinds
    exact kinds.trans (flush_map_eq (fun _ => rfl) tokens)
  · have gaps := congrArg (List.map (·.leading.isEmpty)) same
    simpa only [List.map_map, Function.comp_def, Token.bare, Token.spacing_isEmpty] using gaps
  · intro c ending className docs l
    have read := ofMarked_bare c ending ⟨className, respaced line' (flush tokens), docs, l⟩
    have written_ := ofMarked_bare c ending ⟨className, flush tokens, docs, l⟩
    have start := ofMarked_flush c ending ⟨className, tokens, docs, l⟩
    simp only [same] at read written_ start
    rw [← read, written_, start]

def commentedTokens : List Token :=
  [⟨.identifier, "int".toList, ['\t'], 3⟩, ⟨.identifier, "f".toList, ['\n'], 4⟩,
    ⟨.punctuator, "(".toList, [' '], 4⟩, ⟨.punctuator, ")".toList, [], 4⟩]

theorem tokenize_render_commented :
    ∃ again, tokenize 1 (render commentedTokens) = .ok again ∧
      again.map (fun t => (t.kind, t.text)) = commentedTokens.map (fun t => (t.kind, t.text)) ∧
      again.map (·.leading.isEmpty) = (flush commentedTokens).map (·.leading.isEmpty) ∧
      ∀ (c : Conventions) (ending : LineEnding) (className : Text) (docs : Option Text) (l : Nat),
        (ofMarked c ending ⟨className, again, docs, l⟩).toOption =
          (ofMarked c ending ⟨className, commentedTokens, docs, l⟩).toOption :=
  have read : lex 3 "\tint\nf/* x */()".toList = ⟨commentedTokens, none⟩ := by decide +kernel
  tokenize_render (tokenize_ok_iff.mpr read)

end Wrapper

end MemberLift
