import MemberLift.Proofs.Token.Group

/-!
Groups by index.  The indices at top level are those at which the items of a list begin
(`mem_topLevel`), and there the end of a group is the end of the item (`groupEnd_item`).  So a part
of a list whose items are items of the list has on its own the groups that it has there
(`mem_topLevel_part`, `groupEnd_part`).  What follows a list does not matter for its items if nothing
is left open in it (`items_append`).
-/
namespace MemberLift.Group

theorem starts_append (first : Nat) (front back : List (List Token)) :
    starts first (front ++ back) =
      starts first front ++ starts (first + front.flatten.length) back := by
  induction front generalizing first with
  | nil => rfl
  | cons item front ih => simp [starts, ih, Nat.add_assoc]

theorem starts_shift (offset first : Nat) (pieces : List (List Token)) :
    starts (offset + first) pieces = (starts first pieces).map (offset + ·) := by
  induction pieces generalizing first with
  | nil => rfl
  | cons item pieces ih => simp [starts, ← ih, Nat.add_assoc]

theorem mem_starts {first i : Nat} {pieces : List (List Token)} :
    i ∈ starts first pieces ↔
      ∃ front piece back, pieces = front ++ piece :: back ∧ first + front.flatten.length = i := by
  induction pieces generalizing first with
  | nil => simp [starts]
  | cons item pieces ih =>
    rw [starts, List.mem_cons, ih]
    constructor
    · rintro (rfl | ⟨front, piece, back, rfl, rfl⟩)
      · exact ⟨[], item, pieces, rfl, rfl⟩
      · exact ⟨item :: front, piece, back, rfl, by simp [Nat.add_assoc]⟩
    · rintro ⟨front, piece, back, split, rfl⟩
      cases front with
      | nil => exact .inl rfl
      | cons other front =>
        obtain ⟨rfl, rfl⟩ := List.cons.inj split
        exact .inr ⟨front, piece, back, rfl, by simp [Nat.add_assoc]⟩

theorem starts_bounds {first i : Nat} {pieces : List (List Token)}
    (nonempty : ∀ piece ∈ pieces, piece ≠ []) (member : i ∈ starts first pieces) :
    first ≤ i ∧ i < first + pieces.flatten.length := by
  obtain ⟨front, piece, back, rfl, rfl⟩ := mem_starts.mp member
  have long := List.length_pos_iff.mpr (nonempty piece (by simp))
  simp only [List.flatten_append, List.flatten_cons, List.length_append]
  omega

theorem starts_getElem? {tokens : List Token} {pieces : List (List Token)}
    (nonempty : ∀ piece ∈ pieces, piece ≠ []) (front : List Token)
    (split : tokens = front ++ pieces.flatten) :
    (starts front.length pieces).map (tokens[·]?) = pieces.map List.head? := by
  induction pieces generalizing front with
  | nil => rfl
  | cons piece pieces ih =>
    obtain ⟨t, inner, rfl⟩ := List.exists_cons_of_ne_nil (nonempty piece List.mem_cons_self)
    have behind := ih (fun other member => nonempty other (List.mem_cons_of_mem _ member))
      (front ++ t :: inner) (by simp [split])
    rw [List.length_append] at behind
    rw [starts, List.map_cons, behind]
    simp [split]

theorem eq_of_itemsOf {tokens item : List Token} {front back : List (List Token)}
    (split : itemsOf tokens = front ++ item :: back) :
    tokens = front.flatten ++ (item ++ back.flatten) := by
  have parts := items_flatten false tokens
  rw [← itemsOf, split] at parts
  simpa using parts.symm

theorem mem_topLevel {tokens : List Token} {i : Nat} :
    i ∈ topLevel tokens ↔
      ∃ front item back, itemsOf tokens = front ++ item :: back ∧ front.flatten.length = i := by
  simp [topLevel, mem_starts]

theorem followsName_length (front rest : List Token) :
    followsName (front ++ rest) front.length = nameBefore false front := by
  rcases List.eq_nil_or_concat front with rfl | ⟨before, last, rfl⟩
  · rfl
  · simp [followsName, nameBefore]

theorem groupEnd_append (front : List Token) (t : Token) (rest : List Token) :
    groupEnd (front ++ t :: rest) front.length =
      (span (nameBefore false front) t rest).map (front.length + ·) := by
  by_cases opens : isOpener t = true
  · simp [groupEnd, matchingBracket, span, opens]
  · have place (k : Nat) : front.length + 1 + k = front.length + (k + 1) := by omega
    by_cases nests : (t.isMark "<" && nameBefore false front) = true
    · simp [groupEnd, matchingAngle, span, opens, followsName_length, nests, place,
        Function.comp_def]
    · simp [groupEnd, matchingAngle, span, opens, followsName_length, nests]

theorem span_item {afterName : Bool} {tokens : List Token} {t : Token} {inner : List Token}
    {back : List (List Token)} (h : items afterName tokens = (t :: inner) :: back) :
    span afterName t (inner ++ back.flatten) = if inner = [] then none else some inner.length := by
  cases tokens with
  | nil => simp [items] at h
  | cons u rest =>
    rw [items.eq_2] at h
    split at h
    · rename_i k group
      have short := (span_some group).1
      have long := span_pos group
      simp only [List.cons.injEq] at h
      obtain ⟨⟨rfl, rfl⟩, rfl⟩ := h
      have nonempty : rest.take k ≠ [] := by
        refine List.ne_nil_of_length_pos ?_
        rw [List.length_take]
        omega
      rw [items_flatten, List.take_append_drop, group, if_neg nonempty, List.length_take,
        Nat.min_eq_left short]
    · rename_i single
      simp only [List.cons.injEq] at h
      obtain ⟨⟨rfl, rfl⟩, rfl⟩ := h
      rw [items_flatten]
      exact single

theorem groupEnd_item {tokens : List Token} {front back : List (List Token)} {t : Token}
    {inner : List Token} (h : itemsOf tokens = front ++ (t :: inner) :: back) :
    groupEnd tokens front.flatten.length =
      if inner = [] then none else some (front.flatten.length + inner.length) := by
  have whole : tokens = front.flatten ++ t :: (inner ++ back.flatten) := eq_of_itemsOf h
  have rest := span_item (items_rest h)
  rw [whole, groupEnd_append, rest]
  split
  · rfl
  · rfl

section Part

variable {tokens part : List Token} {front back : List (List Token)}
  (split : itemsOf tokens = front ++ itemsOf part ++ back)
include split

theorem topLevel_part : topLevel tokens =
    starts 0 front ++ (topLevel part).map (front.flatten.length + ·) ++
      starts (front.flatten.length + part.length) back := by
  have shifted := starts_shift front.flatten.length 0 (itemsOf part)
  have length : (itemsOf part).flatten.length = part.length := by rw [itemsOf, items_flatten]
  simp only [Nat.add_zero] at shifted
  rw [topLevel, split, starts_append, starts_append, Nat.zero_add, shifted, List.flatten_append,
    List.length_append, length, topLevel]
  simp

/-- The tokens at top level of a part are at top level of the whole list, and no others of it. -/
theorem mem_topLevel_part {k : Nat} :
    k ∈ topLevel part ↔ k < part.length ∧ front.flatten.length + k ∈ topLevel tokens := by
  have nonempty : ∀ item ∈ front ++ itemsOf part ++ back, item ≠ [] :=
    split ▸ items_ne_nil false tokens
  rw [topLevel_part split]
  constructor
  · intro member
    have bounds := starts_bounds (items_ne_nil false part) member
    rw [items_flatten] at bounds
    exact ⟨by omega, by simp [member]⟩
  · rintro ⟨short, member⟩
    simp only [List.mem_append, List.mem_map] at member
    rcases member with (before | ⟨j, member, same⟩) | after
    · have bounds := starts_bounds (fun item inside => nonempty item (by simp [inside])) before
      omega
    · have equal : j = k := by omega
      exact equal ▸ member
    · have bounds := starts_bounds (fun item inside => nonempty item (by simp [inside])) after
      omega

theorem groupEnd_part {k : Nat} (member : k ∈ topLevel part) :
    groupEnd tokens (front.flatten.length + k) =
      (groupEnd part k).map (front.flatten.length + ·) := by
  obtain ⟨before, item, after, own, rfl⟩ := mem_topLevel.mp member
  obtain ⟨t, inner, rfl⟩ : ∃ t inner, item = t :: inner :=
    List.exists_cons_of_ne_nil (items_ne_nil false part item (by rw [← itemsOf, own]; simp))
  have whole : itemsOf tokens = (front ++ before) ++ (t :: inner) :: (after ++ back) := by
    rw [split, own]
    simp
  have outer := groupEnd_item whole
  rw [List.flatten_append, List.length_append] at outer
  rw [outer, groupEnd_item own]
  split
  · rfl
  · simp [Nat.add_assoc]

end Part

/-- Lists in which every group that is opened is closed. -/
def Complete (afterName : Bool) (tokens : List Token) : Prop :=
  ∀ front t back, items afterName tokens = front ++ [t] :: back →
    isOpener t = false ∧ (t.isMark "<" && nameBefore afterName front.flatten) = false

/-- What follows a list can only close what is open in it. -/
theorem items_append {afterName : Bool} {tokens : List Token} (complete : Complete afterName tokens)
    (more : List Token) : items afterName (tokens ++ more) =
      items afterName tokens ++ items (nameBefore afterName tokens) more := by
  fun_induction items afterName tokens with
  | case1 => rfl
  | case2 afterName t rest k group ih =>
    have short := (span_some group).1
    have again : span afterName t (rest ++ more) = some k := by
      rw [← List.append_nil rest] at group
      exact span_front group short more
    have noName : nameBefore afterName (t :: rest) = nameBefore false (rest.drop k) := by
      rw [← nameBefore_group group afterName, ← nameBefore_append, List.cons_append,
        List.take_append_drop]
    have behind : Complete false (rest.drop k) := by
      intro front u back split
      have here := complete ((t :: rest.take k) :: front) u back
      rw [items.eq_2, group, List.flatten_cons, nameBefore_append, nameBefore_group group] at here
      exact here (congrArg ((t :: rest.take k) :: ·) split)
    rw [List.cons_append, items.eq_2, again, noName]
    simp only
    rw [List.take_append_of_le_length short, List.drop_append_of_le_length short, ih behind]
    rfl
  | case3 afterName t rest single ih =>
    have here := complete [] t (items t.isIdentifier rest) (by rw [items.eq_2, single]; rfl)
    have again : span afterName t (rest ++ more) = none := by
      have noAngle : (t.isMark "<" && afterName) = false := here.2
      simp [span, here.1, noAngle]
    have behind : Complete t.isIdentifier rest := by
      intro front u back split
      have later := complete ([t] :: front) u back
      rw [items.eq_2, single, List.flatten_cons, nameBefore_append] at later
      exact later (congrArg ([t] :: ·) split)
    have name : nameBefore afterName (t :: rest) = nameBefore t.isIdentifier rest :=
      nameBefore_append afterName [t] rest
    rw [List.cons_append, items.eq_2, again, name]
    simp only
    rw [ih behind]
    rfl

end MemberLift.Group
