import MemberLift.Declaration

/-!
What a declaration that could be taken apart says about its source.  Every token of it is a token of
the source (`Declaration.ofTokens_mem`), and its name is an identifier.
-/
namespace MemberLift

open MemberLift.Group

theorem ok_of_mem_toOption {ε α : Type} {r : Except ε α} {a : α} (inside : a ∈ r.toOption) :
    r = .ok a := by
  cases r with
  | error fault => cases inside
  | ok b =>
    cases inside
    rfl

theorem mem_splitItems (separator : String) (items : List (List Token)) :
    ∀ piece ∈ Group.splitItems separator items, ∀ t ∈ piece, t ∈ items.flatten := by
  have extend {tokens : List Token} {pieces : List (List Token)} {source : List Token}
      (known : ∀ piece ∈ pieces, ∀ t ∈ piece, t ∈ source) :
      ∀ piece ∈ extendFirst tokens pieces, ∀ t ∈ piece, t ∈ tokens ++ source := by
    intro piece member t inside
    cases pieces with
    | nil =>
      rw [extendFirst, List.mem_singleton] at member
      exact List.mem_append_left _ (member ▸ inside)
    | cons first rest =>
      rw [extendFirst, List.mem_cons] at member
      rcases member with rfl | member
      · rcases List.mem_append.mp inside with inside | inside
        · exact List.mem_append_left _ inside
        · exact List.mem_append_right _ (known first List.mem_cons_self t inside)
      · exact List.mem_append_right _ (known piece (List.mem_cons_of_mem _ member) t inside)
  induction items with
  | nil => simp [splitItems]
  | cons item rest ih =>
    intro piece member t inside
    rw [List.flatten_cons]
    rw [splitItems] at member
    split at member
    · rcases List.mem_cons.mp member with rfl | member
      · cases inside
      · have source := extend ih piece member t inside
        rcases List.mem_append.mp source with source | source
        · exact List.mem_append_left _ (List.mem_of_mem_tail source)
        · exact List.mem_append_right _ source
    · exact extend ih piece member t inside

theorem parameters_mem {tokens : List Token} :
    ∀ p ∈ parameters tokens, ∀ t ∈ p.tokens, t ∈ tokens := by
  intro p member t inside
  rw [parameters] at member
  split at member
  · cases member
  · obtain ⟨piece, split, rfl⟩ := List.mem_map.mp member
    rw [splitTopLevel] at split
    split at split
    · cases split
    · have source := mem_splitItems "," (itemsOf tokens) piece split t inside
      rwa [itemsOf, items_flatten] at source

namespace Declaration

theorem templateHeads_append {tokens heads rest : List Token}
    (h : templateHeads tokens = .ok (heads, rest)) : tokens = heads ++ rest := by
  fun_induction templateHeads tokens generalizing heads rest with
  | case1 => cases h; rfl
  | case2 => cases h
  | case3 t more template k closed ih =>
    cases found : templateHeads (more.drop k) with
    | error fault => rw [found] at h; cases h
    | ok p =>
      rw [found] at h
      cases h
      have behind := ih found
      rw [List.cons_append, List.cons_append, List.append_assoc, ← behind, List.take_append_drop]
  | case4 => cases h; rfl

theorem findParameters_ok {before : List Token} {items : List (List Token)} {parts : Parts}
    (h : findParameters before items = .ok parts) :
    ∃ passed rest, items = passed ++ parts.group :: rest ∧
      parts.before = before ++ passed.flatten ∧ parts.after = rest.flatten ∧
      headMark "(" parts.group = true ∧ parts.group.length ≠ 1 ∧
      (parts.before.getLast?.map mayBeName).getD false = true := by
  induction items generalizing before with
  | nil => cases h
  | cons item more ih =>
    rw [findParameters] at h
    split at h
    · cases h
    · split at h
      · rename_i opens
        rw [Bool.and_eq_true] at opens
        split at h
        · cases h
        · rename_i closed
          cases h
          exact ⟨[], more, rfl, by simp, rfl, opens.1, closed, opens.2⟩
      · obtain ⟨passed, rest, rfl, start, behind, found⟩ := ih h
        refine ⟨item :: passed, rest, rfl, ?_, behind, found⟩
        rw [start, List.flatten_cons, List.append_assoc]

theorem findParameters_append {items : List (List Token)} {parts : Parts}
    (h : findParameters [] items = .ok parts) :
    items.flatten = parts.before ++ parts.group ++ parts.after := by
  obtain ⟨passed, rest, rfl, start, behind, _⟩ := findParameters_ok h
  rw [start, behind]
  simp

theorem findParameters_name {before : List Token} {items : List (List Token)} {parts : Parts}
    (h : findParameters before items = .ok parts) {name : Token}
    (last : parts.before.getLast? = some name) : mayBeName name = true := by
  obtain ⟨_, _, _, _, _, _, _, found⟩ := findParameters_ok h
  rw [last] at found
  exact found

theorem ite_elim {α : Type} {p goal : Prop} [Decidable p] {a b x : α}
    (h : (if p then a else b) = x) (yes : a = x → goal) (no : b = x → goal) : goal := by
  split at h
  · exact yes h
  · exact no h

theorem readTrailing_mem {name : Text} {arrow : Bool} {q q' : Qualifiers}
    {items : List (List Token)} (h : readTrailing name arrow q items = .ok q') :
    ∀ t ∈ q'.kept, t ∈ q.kept ++ items.flatten := by
  induction items generalizing arrow q with
  | nil =>
    cases h
    simp
  | cons item rest ih =>
    have skipped {q₀ : Qualifiers} {b : Bool} (read : readTrailing name b q₀ rest = .ok q')
        (kept : q₀.kept = q.kept) :
        ∀ t ∈ q'.kept, t ∈ q.kept ++ (item :: rest).flatten := by
      intro t inside
      rcases List.mem_append.mp (ih read t inside) with inside | inside
      · exact List.mem_append_left _ (kept ▸ inside)
      · exact List.mem_append_right _ (List.mem_append_right _ inside)
    have taken {b : Bool} (read : readTrailing name b (q.keep item) rest = .ok q') :
        ∀ t ∈ q'.kept, t ∈ q.kept ++ (item :: rest).flatten := by
      intro t inside
      have source := ih read t inside
      rwa [Qualifiers.keep, List.append_assoc, ← List.flatten_cons] at source
    rw [readTrailing] at h
    refine ite_elim h (fun failed => by cases failed) fun h => ite_elim h taken fun h => ?_
    refine ite_elim h (skipped · rfl) fun h => ite_elim h (skipped · rfl) fun h => ?_
    refine ite_elim h (skipped · rfl) fun h => ite_elim h (skipped · rfl) fun h => ?_
    refine ite_elim h (skipped · rfl) fun h => ite_elim h (fun h => ?_) taken
    refine ite_elim h (fun done => ?_) fun h => ite_elim h (fun failed => ?_) fun failed => ?_
    · cases done
      exact fun t inside => List.mem_append_left _ inside
    · cases failed
    · cases failed

theorem ofTokens_ok {stripMacros : List Text} {tokens : List Token} {d : Declaration}
    (h : ofTokens stripMacros tokens = .ok d) :
    ∃ rest parts q, templateHeads tokens = .ok (d.templateHead, rest) ∧
      findParameters [] (itemsOf rest) = .ok parts ∧
      parts.before.getLast? = some d.name ∧
      d.head = parts.before.dropLast.filter (fun t => !isStripped stripMacros t) ∧
      d.head ≠ [] ∧
      d.params = parameters parts.group.tail.dropLast ∧ unnamed 1 d.params = none ∧
      readTrailing d.name.text false ⟨[], false, false, none⟩ (itemsOf parts.after) = .ok q ∧
      d.trailing = q.kept ∧ d.isStatic = parts.before.dropLast.any (·.isWord "static") ∧
      d.isConst = q.isConst ∧ d.isVolatile = q.isVolatile ∧ d.refQualifier = q.refQualifier := by
  rw [ofTokens] at h
  cases heads : templateHeads tokens with
  | error fault => rw [heads] at h; cases h
  | ok p =>
    rw [heads] at h
    simp only [bind, Except.bind] at h
    cases found : findParameters [] (itemsOf p.2) with
    | error fault => rw [found] at h; cases h
    | ok parts =>
      rw [found] at h
      simp only [ofParts] at h
      split at h
      · cases h
      · rename_i name last
        split at h
        · cases h
        · rename_i some_
          split at h
          · cases h
          · rename_i named
            cases trailing : readTrailing name.text false ⟨[], false, false, none⟩
                (itemsOf parts.after) with
            | error fault => rw [trailing] at h; cases h
            | ok q =>
              rw [trailing] at h
              cases h
              rw [List.isEmpty_iff] at some_
              exact ⟨p.2, parts, q, rfl, found, last, rfl, some_, rfl, named, trailing,
                rfl, rfl, rfl, rfl, rfl⟩

theorem named_of_unnamed {position : Nat} {params : List Parameter}
    (h : unnamed position params = none) : ∀ p ∈ params, p.nameIndex ≠ none := by
  induction params generalizing position with
  | nil => simp
  | cons p rest ih =>
    rw [unnamed] at h
    split at h
    · cases h
    · rename_i named
      intro other member
      rcases List.mem_cons.mp member with rfl | member
      · simpa using named
      · exact ih h other member

def tokens (d : Declaration) : List Token :=
  d.templateHead ++ d.head ++ [d.name] ++ d.params.flatMap Parameter.tokens ++ d.trailing

theorem ofTokens_name {stripMacros : List Text} {tokens : List Token} {d : Declaration}
    (h : ofTokens stripMacros tokens = .ok d) : d.name.kind = .identifier := by
  obtain ⟨rest, parts, q, _, found, last, _⟩ := ofTokens_ok h
  have name := findParameters_name found last
  rw [mayBeName, Bool.and_eq_true] at name
  exact of_decide_eq_true name.1

theorem ofTokens_mem {stripMacros : List Text} {source : List Token} {d : Declaration}
    (h : ofTokens stripMacros source = .ok d) : ∀ t ∈ d.tokens, t ∈ source := by
  obtain ⟨rest, parts, q, heads, found, last, head, _, params, _, trailing, kept, _⟩ :=
    ofTokens_ok h
  have whole := findParameters_append found
  rw [itemsOf, items_flatten] at whole
  have before : ∀ t ∈ parts.before, t ∈ source := by
    intro t inside
    rw [templateHeads_append heads, whole]
    simp [inside]
  have group : ∀ t ∈ parts.group, t ∈ source := by
    intro t inside
    rw [templateHeads_append heads, whole]
    simp [inside]
  have after : ∀ t ∈ parts.after, t ∈ source := by
    intro t inside
    rw [templateHeads_append heads, whole]
    simp [inside]
  intro t member
  simp only [tokens, List.mem_append, List.mem_singleton, List.mem_flatMap] at member
  rcases member with (((inside | inside) | rfl) | ⟨p, listed, inside⟩) | inside
  · rw [templateHeads_append heads]
    exact List.mem_append_left _ inside
  · rw [head] at inside
    exact before t (List.dropLast_subset _ (List.mem_filter.mp inside).1)
  · exact before _ (List.mem_of_getLast? last)
  · rw [params] at listed
    have source := parameters_mem p listed t inside
    exact group t (List.mem_of_mem_tail (List.dropLast_subset _ source))
  · rw [kept] at inside
    have source := readTrailing_mem trailing t inside
    rw [itemsOf, items_flatten, List.nil_append] at source
    exact after t source

end Declaration

end MemberLift
