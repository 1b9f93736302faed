import MemberLift.Proofs.Declaration.Sources
import MemberLift.Proofs.Token.Recast

/-!
Declarations with other spacing, lines or string literals.  `Declaration.ofTokens_recast` says that
a declaration is taken apart in the same way after such a change.
-/
namespace MemberLift

open MemberLift.Group

variable {f : Token → Token}

namespace Parameter

def recast (f : Token → Token) (p : Parameter) : Parameter := { p with tokens := p.tokens.map f }

theorem declarator_map (h : KeepsMarks f) (tokens : List Token) :
    declarator (tokens.map f) = (declarator tokens).map f := by
  rw [declarator, declarator, itemsOf_map h, List.takeWhile_map, List.map_flatten]
  simp only [Function.comp_def, headMark_map h]

theorem size_map (items : List (List Token)) : size (items.map (List.map f)) = size items := by
  rw [size, size, ← List.map_flatten, List.length_map]

theorem isPointerGroup_map (h : KeepsMarks f) (item : List Token) :
    isPointerGroup (item.map f) = isPointerGroup item := by
  have mark := Recast.head? (p := (·.isMarkIn ["*", "&", "&&"])) fun t => h.isMarkIn t _
  simp only [isPointerGroup, ← List.map_tail, ← List.map_dropLast, List.length_map, mark,
    Recast.getLast? h.isIdentifier]

theorem plainName_map (h : Recast f) (items : List (List Token)) :
    plainName (items.map (List.map f)) = plainName items := by
  have extents : (items.map (List.map f)).reverse.dropWhile (headMark "[") =
      (items.reverse.dropWhile (headMark "[")).map (List.map f) := by
    rw [← List.map_reverse, List.dropWhile_map]
    simp only [Function.comp_def, headMark_map h.keepsMarks]
  have qualified := Recast.getLast? (p := (·.isMark "::")) fun t => h.isMark t _
  rw [plainName, plainName, extents]
  rcases items.reverse.dropWhile (headMark "[") with
    _ | ⟨_ | ⟨t, _ | ⟨u, rest⟩⟩, _ | ⟨previous, before⟩⟩
  case cons.cons.nil.cons =>
    have place := size_map (f := f) (previous :: before)
    simp only [List.map_cons] at place
    simp only [List.map_cons, List.map_nil, qualified, place, h.isIdentifier]
    by_cases name : t.isIdentifier = true
    · rw [h.text t (by rw [of_decide_eq_true name]; decide)]
    · simp [name]
  all_goals rfl

theorem findName_map (h : Recast f) (all items : List (List Token)) (index : Nat) :
    findName (all.map (List.map f)) index (items.map (List.map f)) = findName all index items := by
  induction items generalizing index with
  | nil => exact plainName_map h all
  | cons item rest ih =>
    simp only [List.map_cons, findName, headMark_map h.keepsMarks, isPointerGroup_map h.keepsMarks,
      List.length_map, ih]

theorem ofTokens_map (h : Recast f) (tokens : List Token) :
    ofTokens (tokens.map f) = (ofTokens tokens).recast f := by
  simp only [ofTokens, recast, declarator_map h.keepsMarks, itemsOf_map h.keepsMarks,
    findName_map h, List.any_map, Function.comp_def, headMark_map h.keepsMarks]

end Parameter

theorem isVoid_map (h : Recast f) (tokens : List Token) :
    isVoid (tokens.map f) = isVoid tokens := by
  rcases tokens with _ | ⟨t, _ | ⟨u, rest⟩⟩
  · rfl
  · exact h.isWord t "void"
  · rfl

theorem parameters_map (h : Recast f) (tokens : List Token) :
    parameters (tokens.map f) = (parameters tokens).map (Parameter.recast f) := by
  rw [parameters, parameters, isVoid_map h, splitTopLevel_map h.keepsMarks]
  split
  · rfl
  · rw [List.map_map, List.map_map]
    exact congrArg (List.map · _) (funext fun tokens => Parameter.ofTokens_map h tokens)

namespace Declaration

/-- A declaration with changed tokens. -/
def recast (f : Token → Token) (d : Declaration) : Declaration :=
  { d with
    templateHead := d.templateHead.map f
    head := d.head.map f
    name := f d.name
    params := d.params.map (Parameter.recast f)
    trailing := d.trailing.map f }

theorem templateHeads_map (h : Recast f) (tokens : List Token) :
    templateHeads (tokens.map f) =
      (templateHeads tokens).map (Prod.map (List.map f) (List.map f)) := by
  fun_induction templateHeads tokens with
  | case1 => simp [templateHeads, Except.map]
  | case2 t rest template unbalanced =>
    rw [List.map_cons, templateHeads.eq_2, h.isWord, angleSpan_map h.keepsMarks, unbalanced,
      if_pos template]
    rfl
  | case3 t rest template k closed ih =>
    rw [List.map_cons, templateHeads.eq_2, h.isWord, angleSpan_map h.keepsMarks, closed,
      if_pos template]
    simp only [← List.map_drop, ih]
    cases templateHeads (rest.drop k) with
    | error fault => rfl
    | ok p => simp [Except.map]
  | case4 t rest plain =>
    rw [List.map_cons, templateHeads.eq_2, h.isWord, if_neg plain]
    rfl

def Parts.recast (f : Token → Token) (p : Parts) : Parts :=
  ⟨p.before.map f, p.group.map f, p.after.map f⟩

theorem mayBeName_recast (h : Recast f) (t : Token) : mayBeName (f t) = mayBeName t := by
  rw [mayBeName, mayBeName, h.isIdentifier]
  by_cases name : t.isIdentifier = true
  · rw [h.text t (by rw [of_decide_eq_true name]; decide)]
  · simp [name]

theorem findParameters_map (h : Recast f) (before : List Token) (items : List (List Token)) :
    findParameters (before.map f) (items.map (List.map f)) =
      (findParameters before items).map (Parts.recast f) := by
  induction items generalizing before with
  | nil => rfl
  | cons item rest ih =>
    simp only [List.map_cons, findParameters, headWord_map h, headMark_map h.keepsMarks,
      List.length_map, Recast.getLast? (mayBeName_recast h), ← List.map_append, ih]
    split
    · rfl
    · split
      · split
        · rfl
        · simp [Except.map, Parts.recast, List.map_flatten]
      · rfl

def Qualifiers.recast (f : Token → Token) (q : Qualifiers) : Qualifiers :=
  { q with kept := q.kept.map f }

theorem isPure_map (h : Recast f) (items : List (List Token)) :
    isPure (items.map (List.map f)) = isPure items := by
  rcases items with _ | ⟨_ | ⟨t, rest⟩, _ | ⟨second, more⟩⟩
  case cons.cons.nil => exact decide_eq_decide.mpr (h.spells t _ (by decide))
  all_goals rfl

theorem isDefaultedOrDeleted_map (h : Recast f) (items : List (List Token)) :
    isDefaultedOrDeleted (items.map (List.map f)) = isDefaultedOrDeleted items := by
  rcases items with _ | ⟨_ | ⟨t, rest⟩, more⟩
  case cons.cons =>
    have defaulted := h.spells t "default".toList (by decide)
    have deleted := h.spells t "delete".toList (by decide)
    simp only [List.map_cons, isDefaultedOrDeleted, List.any_cons, List.any_nil, defaulted, deleted]
  all_goals rfl

theorem ite_map {ε α β : Type} {g : α → β} {p : Prop} [Decidable p] {a b : Except ε β}
    {a' b' : Except ε α} (yes : a = a'.map g) (no : b = b'.map g) :
    (if p then a else b) = (if p then a' else b').map g := by
  split
  · exact yes
  · exact no

theorem readTrailing_map (h : Recast f) (name : Text) (arrow : Bool) (q : Qualifiers)
    (items : List (List Token)) :
    readTrailing name arrow (q.recast f) (items.map (List.map f)) =
      (readTrailing name arrow q items).map (Qualifiers.recast f) := by
  induction items generalizing arrow q with
  | nil => rfl
  | cons item rest ih =>
    have keep : (q.recast f).keep (item.map f) = (q.keep item).recast f := by
      simp only [Qualifiers.keep, Qualifiers.recast, List.map_append]
    have isConst : (q.recast f).isConst = q.isConst := rfl
    have isVolatile : (q.recast f).isVolatile = q.isVolatile := rfl
    simp only [List.map_cons, readTrailing, headWord_map h, headMark_map h.keepsMarks, isPure_map h,
      isDefaultedOrDeleted_map h, keep, isConst, isVolatile]
    refine ite_map rfl (ite_map (ih true (q.keep item)) ?_)
    refine ite_map (ih false { q with isConst := true }) ?_
    refine ite_map (ih false { q with isVolatile := true }) ?_
    refine ite_map (ih false { q with refQualifier := some .lvalue }) ?_
    refine ite_map (ih false { q with refQualifier := some .rvalue }) ?_
    refine ite_map (ih false q) (ite_map ?_ (ih (headMark "->" item) (q.keep item)))
    exact ite_map rfl (ite_map rfl rfl)

theorem unnamed_map (position : Nat) (params : List Parameter) :
    unnamed position (params.map (Parameter.recast f)) =
      (unnamed position params).map (Prod.map id (Parameter.recast f)) := by
  induction params generalizing position with
  | nil => rfl
  | cons p rest ih =>
    simp only [List.map_cons, unnamed, Parameter.recast, ih]
    split
    · rfl
    · rfl

theorem isStripped_recast (h : Recast f) (stripMacros : List Text) (t : Token) :
    isStripped stripMacros (f t) = isStripped stripMacros t := by
  rw [isStripped, isStripped, h.isWordIn, h.isWordIn]

theorem filter_isStripped_map (h : Recast f) (stripMacros : List Text) (tokens : List Token) :
    (tokens.map f).filter (fun t => !isStripped stripMacros t) =
      (tokens.filter fun t => !isStripped stripMacros t).map f := by
  rw [List.filter_map]
  simp only [Function.comp_def, isStripped_recast h]

theorem any_isWord_map (h : Recast f) (word : String) (tokens : List Token) :
    (tokens.map f).any (·.isWord word) = tokens.any (·.isWord word) := by
  rw [List.any_map]
  simp only [Function.comp_def, h.isWord]

theorem ofParts_recast (h : Recast f) (stripMacros : List Text) (templateHead : List Token)
    {parts : Parts} (named : ∀ name ∈ parts.before.getLast?, mayBeName name = true) :
    (ofParts stripMacros (templateHead.map f) (parts.recast f)).toOption =
      (ofParts stripMacros templateHead parts).toOption.map (recast f) := by
  unfold ofParts
  cases last : parts.before.getLast? with
  | none => simp [Parts.recast, last, Except.toOption]
  | some name =>
    have identifier := named name last
    rw [mayBeName, Bool.and_eq_true] at identifier
    have same := h.text name (by rw [of_decide_eq_true identifier.1]; decide)
    have trailing := readTrailing_map h name.text false ⟨[], false, false, none⟩
      (itemsOf parts.after)
    rw [← itemsOf_map h.keepsMarks] at trailing
    simp only [Parts.recast, List.getLast?_map, last, ← List.map_dropLast, ← List.map_tail,
      Option.map_some, filter_isStripped_map h, parameters_map h, unnamed_map, same,
      List.isEmpty_map, any_isWord_map h]
    split
    · rfl
    · cases unnamed 1 (parameters parts.group.tail.dropLast) with
      | some p => rfl
      | none =>
        have start : Qualifiers.recast f ⟨[], false, false, none⟩ = ⟨[], false, false, none⟩ := rfl
        rw [start] at trailing
        simp only [Option.map_none, trailing]
        cases readTrailing name.text false ⟨[], false, false, none⟩ (itemsOf parts.after) with
        | error fault => rfl
        | ok q => rfl

/-- A declaration is taken apart in the same way after a change, or in neither case. -/
theorem ofTokens_recast (h : Recast f) (stripMacros : List Text) (tokens : List Token) :
    (ofTokens stripMacros (tokens.map f)).toOption =
      (ofTokens stripMacros tokens).toOption.map (recast f) := by
  rw [ofTokens, ofTokens, templateHeads_map h]
  cases templateHeads tokens with
  | error fault => rfl
  | ok heads =>
    obtain ⟨templateHead, rest⟩ := heads
    have there := findParameters_map h [] (itemsOf rest)
    rw [List.map_nil, ← itemsOf_map h.keepsMarks] at there
    simp only [Except.map, Prod.map, bind, Except.bind, there]
    cases found : findParameters [] (itemsOf rest) with
    | error fault => rfl
    | ok parts =>
      exact ofParts_recast h stripMacros templateHead fun name last =>
        findParameters_name found last

end Declaration

end MemberLift
