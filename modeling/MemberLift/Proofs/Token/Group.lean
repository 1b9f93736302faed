import MemberLift.Token.Group

/-!
Where groups end.  A bracket or angle that is closed inside the front of a list is closed at the
same place whatever follows (`closeBrackets_front`, `closeAngle_front`), so the items of a front that
was cut off between two items are its items in the whole list (`items_front`).  Pieces that a list
was split into, with the separators between them, are that list again (`splitTopLevel_joined`).
-/
namespace MemberLift

namespace Token

theorem not_isMark_of_kind {t : Token} (kind : t.kind ≠ .punctuator) (mark : String) :
    t.isMark mark = false := by
  simp [isMark, kind]

theorem not_isMark_of_text {t : Token} {text : Text} (same : t.text = text) {mark : String}
    (ne : text ≠ mark.toList) : t.isMark mark = false := by
  simp [isMark, same, ne]

theorem not_isMark_of_identifier {t : Token} (identifier : t.isIdentifier = true)
    (mark : String) : t.isMark mark = false := by
  refine not_isMark_of_kind ?_ mark
  rw [of_decide_eq_true identifier]
  decide

theorem not_isMark_of_word {t : Token} {word : String} (holds : t.isWord word = true)
    (mark : String) : t.isMark mark = false := by
  rw [isWord, Bool.and_eq_true] at holds
  exact not_isMark_of_identifier holds.1 mark

theorem not_isMark_of_mark {t : Token} {mark other : String} (holds : t.isMark mark = true)
    (ne : mark.toList ≠ other.toList) : t.isMark other = false := by
  rw [isMark, Bool.and_eq_true] at holds
  exact not_isMark_of_text (of_decide_eq_true holds.2) ne

theorem isIdentifier_of_isMark {t : Token} {mark : String} (holds : t.isMark mark = true) :
    t.isIdentifier = false := by
  refine Bool.eq_false_iff.mpr fun identifier => ?_
  have other := not_isMark_of_identifier identifier mark
  exact absurd (holds.symm.trans other) (by decide)

end Token

namespace Group

theorem closerFor_of_ne {t : Token} (other : ∀ mark ∈ ["(", "[", "\x7b"], t.isMark mark = false) :
    closerFor t = none := by
  simp only [closerFor, other "(" (by decide), other "[" (by decide), other "\x7b" (by decide),
    Bool.false_eq_true, if_false]

/-- What one token does to the pending brackets: it fails, it closes the last one, or the search
goes on, and then the outermost of the pending brackets is still the same. -/
theorem closeBrackets_step (pending : List String) (t : Token) :
    (∀ rest, closeBrackets pending (t :: rest) = none) ∨
    (∃ c, pending = [c] ∧ t.isMark c = true ∧ ∀ rest, closeBrackets pending (t :: rest) = some 0) ∨
    ∃ pending', (∀ c, pending.getLast? = some c → pending'.getLast? = some c) ∧
      ∀ rest, closeBrackets pending (t :: rest) = (closeBrackets pending' rest).map (· + 1) := by
  cases opens : closerFor t with
  | some c =>
    refine .inr (.inr ⟨c :: pending, ?_, fun rest => by simp [closeBrackets, opens]⟩)
    intro last outermost
    cases pending with
    | nil => cases outermost
    | cons d outer => exact outermost
  | none =>
    cases closes : isCloser t with
    | false =>
      exact .inr (.inr ⟨pending, fun _ => id, fun rest => by simp [closeBrackets, opens, closes]⟩)
    | true =>
      rcases pending with _ | ⟨c, _ | ⟨d, outer⟩⟩
      · exact .inl fun rest => by simp [closeBrackets, opens, closes]
      · by_cases fits : t.isMark c = true
        · exact .inr (.inl ⟨c, rfl, fits, fun rest => by simp [closeBrackets, opens, closes, fits]⟩)
        · exact .inl fun rest => by simp [closeBrackets, opens, closes, fits]
      · by_cases fits : t.isMark c = true
        · refine .inr (.inr ⟨d :: outer, fun last outermost => outermost, fun rest => ?_⟩)
          simp [closeBrackets, opens, closes, fits]
        · exact .inl fun rest => by simp [closeBrackets, opens, closes, fits]

theorem closeBrackets_front {pending : List String} {front back : List Token} {k : Nat}
    (h : closeBrackets pending (front ++ back) = some k) (inside : k < front.length)
    (more : List Token) : closeBrackets pending (front ++ more) = some k := by
  induction front generalizing pending k with
  | nil => cases inside
  | cons t front ih =>
    rw [List.cons_append] at h ⊢
    rcases closeBrackets_step pending t with fails | ⟨c, _, _, closes⟩ | ⟨pending', _, goes⟩
    · rw [fails] at h
      cases h
    · rw [closes] at h ⊢
      exact h
    · rw [goes] at h ⊢
      obtain ⟨k', found, rfl⟩ := Option.map_eq_some_iff.mp h
      rw [ih found (Nat.lt_of_succ_lt_succ inside)]
      rfl

theorem closeBrackets_closer {pending : List String} {tokens : List Token} {k : Nat} {c : String}
    (h : closeBrackets pending tokens = some k) (outermost : pending.getLast? = some c) :
    ∃ inner u after, tokens = inner ++ u :: after ∧ inner.length = k ∧ u.isMark c = true := by
  induction tokens generalizing pending k with
  | nil => cases h
  | cons t rest ih =>
    rcases closeBrackets_step pending t with fails | ⟨d, rfl, fits, closes⟩ | ⟨pending', same, goes⟩
    · rw [fails] at h
      cases h
    · rw [closes] at h
      cases h
      cases outermost
      exact ⟨[], t, rest, rfl, rfl, fits⟩
    · rw [goes] at h
      obtain ⟨k', found, rfl⟩ := Option.map_eq_some_iff.mp h
      obtain ⟨inner, u, after, rfl, rfl, fits⟩ := ih found (same c outermost)
      exact ⟨t :: inner, u, after, rfl, rfl, fits⟩

theorem isOpener_eq (t : Token) : isOpener t = t.isMarkIn ["(", "[", "\x7b"] := by
  simp only [isOpener, closerFor, Token.isMarkIn, List.any_cons, List.any_nil, Bool.or_false]
  cases t.isMark "(" with
  | true => rfl
  | false =>
    cases t.isMark "[" with
    | true => rfl
    | false =>
      cases t.isMark "\x7b" with
      | true => rfl
      | false => rfl

theorem isOpener_of_isMark {t : Token} {mark : String} (opens : t.isMark mark = true)
    (bracket : mark ∈ ["(", "[", "\x7b"]) : isOpener t = true := by
  rw [isOpener_eq]
  exact List.any_eq_true.mpr ⟨mark, bracket, opens⟩

theorem closeBrackets_opener {t : Token} {rest : List Token} {k : Nat} (opens : isOpener t = true)
    (h : closeBrackets [] (t :: rest) = some k) :
    ∃ c inner u after, closerFor t = some c ∧ rest = inner ++ u :: after ∧ inner.length + 1 = k ∧
      u.isMark c = true := by
  obtain ⟨c, closer⟩ := Option.isSome_iff_exists.mp opens
  simp only [closeBrackets, closer] at h
  obtain ⟨k', found, rfl⟩ := Option.map_eq_some_iff.mp h
  obtain ⟨inner, u, after, split, rfl, fits⟩ := closeBrackets_closer found rfl
  exact ⟨c, inner, u, after, closer, split, rfl, fits⟩

theorem closeBrackets_opener_le {t : Token} {rest : List Token} {k : Nat}
    (opens : isOpener t = true) (h : closeBrackets [] (t :: rest) = some k) : k ≤ rest.length := by
  obtain ⟨c, inner, u, after, _, rfl, rfl, _⟩ := closeBrackets_opener opens h
  simp only [List.length_append, List.length_cons]
  omega

theorem closeAngle_closer {afterName : Bool} {tokens : List Token} {k : Nat}
    (h : closeAngle afterName tokens = some k) :
    ∃ inner u after, tokens = inner ++ u :: after ∧ inner.length = k ∧ u.isMark ">" = true := by
  fun_induction closeAngle afterName tokens generalizing k with
  | case1 => cases h
  | case2 afterName t rest ends =>
    cases h
    exact ⟨[], t, rest, rfl, rfl, ends⟩
  | case3 => cases h
  | case4 afterName t rest _ opens j closed ih =>
    obtain ⟨k', found, rfl⟩ := Option.map_eq_some_iff.mp h
    obtain ⟨inner, u, after, split, rfl, ends⟩ := ih found
    have short := closeBrackets_opener_le opens closed
    refine ⟨t :: rest.take j ++ inner, u, after, ?_, ?_, ends⟩
    · rw [List.cons_append, List.cons_append, List.append_assoc, ← split, List.take_append_drop]
    · simp only [List.cons_append, List.length_cons, List.length_append, List.length_take]
      omega
  | case5 => cases h
  | case6 => cases h
  | case7 afterName t rest _ _ _ _ j closed _ ih =>
    obtain ⟨k', found, rfl⟩ := Option.map_eq_some_iff.mp h
    obtain ⟨inner, u, after, split, rfl, ends⟩ := ih found
    have short : inner.length + 1 ≤ rest.length - (j + 1) := by
      rw [← List.length_drop, split]
      simp only [List.length_append, List.length_cons]
      omega
    refine ⟨t :: rest.take (j + 1) ++ inner, u, after, ?_, ?_, ends⟩
    · rw [List.cons_append, List.cons_append, List.append_assoc, ← split, List.take_append_drop]
    · simp only [List.cons_append, List.length_cons, List.length_append, List.length_take]
      omega
  | case8 afterName t rest _ _ _ _ ih =>
    obtain ⟨k', found, rfl⟩ := Option.map_eq_some_iff.mp h
    obtain ⟨inner, u, after, rfl, rfl, ends⟩ := ih found
    exact ⟨t :: inner, u, after, rfl, rfl, ends⟩

theorem closeAngle_front {afterName : Bool} {front back : List Token} {k : Nat}
    (h : closeAngle afterName (front ++ back) = some k) (inside : k < front.length)
    (more : List Token) : closeAngle afterName (front ++ more) = some k := by
  generalize same : front ++ back = tokens at h
  fun_induction closeAngle afterName tokens generalizing front k with
  | case1 => cases h
  | case2 afterName t rest ends =>
    cases h
    obtain ⟨u, front, rfl⟩ := List.exists_cons_of_length_pos inside
    obtain ⟨rfl, rfl⟩ := List.cons.inj same
    rw [List.cons_append, closeAngle.eq_2, if_pos ends]
  | case3 => cases h
  | case4 afterName t rest noEnd opens j closed ih =>
    obtain ⟨k', found, rfl⟩ := Option.map_eq_some_iff.mp h
    obtain ⟨u, front, rfl⟩ := List.exists_cons_of_length_pos (Nat.zero_lt_of_lt inside)
    obtain ⟨rfl, rfl⟩ := List.cons.inj same
    rw [List.length_cons] at inside
    have again : closeBrackets [] (u :: front ++ more) = some j :=
      closeBrackets_front closed (by simp only [List.length_cons]; omega) more
    have behind : closeAngle false (front.drop j ++ more) = some k' :=
      ih (by simp only [List.length_drop]; omega)
        (List.drop_append_of_le_length (by omega)).symm found
    rw [← List.drop_append_of_le_length (by omega)] at behind
    rw [List.cons_append] at again ⊢
    rw [closeAngle.eq_2, if_neg noEnd, if_pos opens, again]
    simp only [behind, Option.map_some]
  | case5 => cases h
  | case6 => cases h
  | case7 afterName t rest noEnd noOpener noStop nests j closed inner ih =>
    obtain ⟨k', found, rfl⟩ := Option.map_eq_some_iff.mp h
    obtain ⟨u, front, rfl⟩ := List.exists_cons_of_length_pos (Nat.zero_lt_of_lt inside)
    obtain ⟨rfl, rfl⟩ := List.cons.inj same
    rw [List.length_cons] at inside
    have again : closeAngle false (front ++ more) = some j := inner (by omega) rfl closed
    have behind : closeAngle false (front.drop (j + 1) ++ more) = some k' :=
      ih (by simp only [List.length_drop]; omega)
        (List.drop_append_of_le_length (by omega)).symm found
    rw [← List.drop_append_of_le_length (by omega)] at behind
    rw [List.cons_append, closeAngle.eq_2, if_neg noEnd, if_neg noOpener, if_neg noStop,
      if_pos nests, again]
    simp only [behind, Option.map_some]
  | case8 afterName t rest noEnd noOpener noStop single ih =>
    obtain ⟨k', found, rfl⟩ := Option.map_eq_some_iff.mp h
    obtain ⟨u, front, rfl⟩ := List.exists_cons_of_length_pos (Nat.zero_lt_of_lt inside)
    obtain ⟨rfl, rfl⟩ := List.cons.inj same
    rw [List.cons_append, closeAngle.eq_2, if_neg noEnd, if_neg noOpener, if_neg noStop,
      if_neg single, ih (Nat.lt_of_succ_lt_succ inside) rfl found]
    rfl

/-- A single token, or a group from its opener to its closer. -/
inductive Whole : List Token → Prop where
  | single (t : Token) : Whole [t]
  | bracket {t u : Token} {c : String} (inner : List Token) :
      closerFor t = some c → u.isMark c = true → Whole (t :: inner ++ [u])
  | angle {t u : Token} (inner : List Token) :
      t.isMark "<" = true → u.isMark ">" = true → Whole (t :: inner ++ [u])

theorem span_some {afterName : Bool} {t : Token} {rest : List Token} {k : Nat}
    (h : span afterName t rest = some k) : k ≤ rest.length ∧ Whole (t :: rest.take k) := by
  have cut {inner after : List Token} {u : Token} :
      (inner ++ u :: after).take (inner.length + 1) = inner ++ [u] := by
    rw [List.append_cons]
    exact List.take_left' (by simp)
  have le {inner after : List Token} {u : Token} :
      inner.length + 1 ≤ (inner ++ u :: after).length := by
    simp only [List.length_append, List.length_cons]
    omega
  unfold span at h
  split at h
  · rename_i opens
    obtain ⟨c, inner, u, after, closer, rfl, rfl, fits⟩ := closeBrackets_opener opens h
    exact ⟨le, cut ▸ Whole.bracket inner closer fits⟩
  · split at h
    · rename_i nests
      rw [Bool.and_eq_true] at nests
      obtain ⟨j, found, rfl⟩ := Option.map_eq_some_iff.mp h
      obtain ⟨inner, u, after, rfl, rfl, ends⟩ := closeAngle_closer found
      exact ⟨le, cut ▸ Whole.angle inner nests.1 ends⟩
    · cases h

theorem span_front {afterName : Bool} {t : Token} {front back : List Token} {k : Nat}
    (h : span afterName t (front ++ back) = some k) (inside : k ≤ front.length)
    (more : List Token) : span afterName t (front ++ more) = some k := by
  unfold span at h ⊢
  split at h
  · rename_i opens
    rw [if_pos opens]
    rw [← List.cons_append] at h ⊢
    exact closeBrackets_front h (Nat.lt_succ_of_le inside) more
  · rename_i noOpener
    rw [if_neg noOpener]
    split at h
    · rename_i nests
      obtain ⟨j, found, rfl⟩ := Option.map_eq_some_iff.mp h
      rw [if_pos nests, closeAngle_front found inside more]
      rfl
    · cases h

theorem items_whole (afterName : Bool) (tokens : List Token) :
    ∀ item ∈ items afterName tokens, Whole item := by
  fun_induction items afterName tokens with
  | case1 => simp
  | case2 afterName t rest k group ih =>
    intro item member
    rcases List.mem_cons.mp member with rfl | member
    · exact (span_some group).2
    · exact ih item member
  | case3 afterName t rest _ ih =>
    intro item member
    rcases List.mem_cons.mp member with rfl | member
    · exact .single t
    · exact ih item member

theorem items_front {afterName : Bool} {tokens : List Token} {front back : List (List Token)}
    (h : items afterName tokens = front ++ back) : items afterName front.flatten = front := by
  fun_induction items afterName tokens generalizing front with
  | case1 =>
    obtain ⟨rfl, _⟩ := List.append_eq_nil_iff.mp h.symm
    simp [items]
  | case2 afterName t rest k group ih =>
    cases front with
    | nil => simp [items]
    | cons item front =>
      rw [List.cons_append] at h
      obtain ⟨rfl, behind⟩ := List.cons.inj h
      have whole := congrArg List.flatten behind
      rw [items_flatten, List.flatten_append] at whole
      have short := (span_some group).1
      have split : rest = rest.take k ++ front.flatten ++ back.flatten := by
        rw [List.append_assoc, ← whole, List.take_append_drop]
      have length : (rest.take k).length = k := by
        rw [List.length_take]
        omega
      have same : span afterName t (rest.take k ++ front.flatten) = some k := by
        rw [split] at group
        have inside : k ≤ (rest.take k ++ front.flatten).length := by
          rw [List.length_append]
          omega
        simpa using span_front group inside []
      rw [List.flatten_cons, List.cons_append, items.eq_2, same]
      simp only
      rw [List.take_left' length, List.drop_left' length, ih behind]
  | case3 afterName t rest single ih =>
    cases front with
    | nil => simp [items]
    | cons item front =>
      rw [List.cons_append] at h
      obtain ⟨rfl, behind⟩ := List.cons.inj h
      have whole := congrArg List.flatten behind
      rw [items_flatten, List.flatten_append] at whole
      have same : span afterName t front.flatten = none := by
        -- a group inside the front would be a group of the whole list
        refine Option.eq_none_iff_forall_ne_some.mpr fun k found => ?_
        rw [← List.append_nil front.flatten] at found
        have inside := (span_some found).1
        rw [List.append_nil] at inside
        rw [whole, span_front found inside back.flatten] at single
        cases single
      rw [List.flatten_cons, List.singleton_append, items.eq_2, same]
      simp only
      rw [ih behind]

theorem span_pos {afterName : Bool} {t : Token} {rest : List Token} {k : Nat}
    (h : span afterName t rest = some k) : 0 < k := by
  unfold span at h
  split at h
  · rename_i opens
    obtain ⟨c, inner, u, after, _, _, length, _⟩ := closeBrackets_opener opens h
    omega
  · split at h
    · obtain ⟨j, _, rfl⟩ := Option.map_eq_some_iff.mp h
      omega
    · cases h

/-- Whether a name stands at the end of a list, or in front of it if it is empty. -/
def nameBefore (afterName : Bool) (front : List Token) : Bool :=
  (front.getLast?.map Token.isIdentifier).getD afterName

theorem nameBefore_append (afterName : Bool) (front back : List Token) :
    nameBefore afterName (front ++ back) = nameBefore (nameBefore afterName front) back := by
  simp only [nameBefore, List.getLast?_append]
  cases back.getLast? <;> simp

theorem Whole.nameBefore {item : List Token} (whole : Whole item) (long : item.length ≠ 1)
    (afterName : Bool) : nameBefore afterName item = false := by
  cases whole with
  | single t => exact absurd rfl long
  | bracket inner _ fits =>
    rw [Group.nameBefore, List.getLast?_concat]
    exact Token.isIdentifier_of_isMark fits
  | angle inner _ ends =>
    rw [Group.nameBefore, List.getLast?_concat]
    exact Token.isIdentifier_of_isMark ends

theorem nameBefore_group {afterName : Bool} {t : Token} {rest : List Token} {k : Nat}
    (group : span afterName t rest = some k) (before : Bool) :
    nameBefore before (t :: rest.take k) = false := by
  obtain ⟨short, whole⟩ := span_some group
  have inside := span_pos group
  refine whole.nameBefore ?_ before
  rw [List.length_cons, List.length_take]
  omega

theorem items_uncons {afterName : Bool} {tokens item : List Token} {back : List (List Token)}
    (h : items afterName tokens = item :: back) :
    items (nameBefore afterName item) back.flatten = back := by
  cases tokens with
  | nil => simp [items] at h
  | cons t rest =>
    rw [items.eq_2] at h
    split at h
    · rename_i k group
      obtain ⟨rfl, rfl⟩ := List.cons.inj h
      rw [nameBefore_group group, items_flatten]
    · obtain ⟨rfl, rfl⟩ := List.cons.inj h
      rw [items_flatten]
      rfl

/-- The items behind others.  Of those it matters only whether a name stands at their end. -/
theorem items_rest {afterName : Bool} {tokens : List Token} {front back : List (List Token)}
    (h : items afterName tokens = front ++ back) :
    items (nameBefore afterName front.flatten) back.flatten = back := by
  induction front generalizing afterName tokens with
  | nil =>
    have whole : back.flatten = tokens := by rw [← items_flatten afterName tokens, h, List.nil_append]
    rw [whole]
    exact h
  | cons item front ih =>
    rw [List.flatten_cons, nameBefore_append]
    exact ih (items_uncons h)

theorem items_behind {afterName : Bool} {tokens group : List Token}
    {front back : List (List Token)} (h : items afterName tokens = front ++ group :: back)
    (long : group.length ≠ 1) : items false back.flatten = back := by
  have whole : Whole group := items_whole afterName tokens group (by simp [h])
  rw [List.append_cons] at h
  have rest := items_rest h
  rwa [List.flatten_append, List.flatten_singleton, nameBefore_append,
    whole.nameBefore long] at rest

theorem Whole.singleton {item : List Token} (h : Whole item) {t : Token}
    (head : item.head? = some t) (noOpener : closerFor t = none) (noAngle : t.isMark "<" = false) :
    item = [t] := by
  cases h with
  | single u =>
    cases head
    rfl
  | bracket inner closer =>
    cases head
    rw [noOpener] at closer
    cases closer
  | angle inner opens =>
    cases head
    rw [noAngle] at opens
    cases opens

theorem closerFor_mem {t : Token} {c : String} (h : closerFor t = some c) :
    c ∈ [")", "]", "\x7d"] := by
  unfold closerFor at h
  split at h
  · cases h
    decide
  · split at h
    · cases h
      decide
    · split at h
      · cases h
        decide
      · cases h

theorem Whole.singleton_of_last {item : List Token} (h : Whole item) {t : Token}
    (last : item.getLast? = some t)
    (noCloser : ∀ mark ∈ [")", "]", "\x7d", ">"], t.isMark mark = false) : item = [t] := by
  cases h with
  | single u =>
    cases last
    rfl
  | bracket inner closer fits =>
    rw [List.getLast?_concat] at last
    cases last
    have open_ := noCloser _ (List.mem_append_left [">"] (closerFor_mem closer))
    rw [open_] at fits
    cases fits
  | angle inner opens ends =>
    rw [List.getLast?_concat] at last
    cases last
    rw [noCloser ">" (by decide)] at ends
    cases ends

theorem Whole.ne_nil {item : List Token} (h : Whole item) : item ≠ [] := by
  cases h with
  | single t => exact List.cons_ne_nil t []
  | bracket inner => exact List.cons_ne_nil _ _
  | angle inner => exact List.cons_ne_nil _ _

theorem last_item {items : List (List Token)} (whole : ∀ item ∈ items, Whole item)
    {front : List Token} {t : Token} (ends : items.flatten = front ++ [t])
    (noCloser : ∀ mark ∈ [")", "]", "\x7d", ">"], t.isMark mark = false) :
    ∃ before, items = before ++ [[t]] ∧ before.flatten = front := by
  rcases List.eq_nil_or_concat items with rfl | ⟨before, last, concat⟩
  · exact absurd ends.symm (List.append_ne_nil_of_right_ne_nil front (List.cons_ne_nil t []))
  · rw [List.concat_eq_append] at concat
    subst concat
    have closed := whole last (by simp)
    rw [List.flatten_append, List.flatten_singleton] at ends
    obtain ⟨inner, u, rfl⟩ : ∃ inner u, last = inner ++ [u] :=
      ⟨_, _, (List.dropLast_concat_getLast closed.ne_nil).symm⟩
    obtain ⟨_, same⟩ := List.append_inj' ((List.append_assoc ..).trans ends) rfl
    cases same
    have one := closed.singleton_of_last List.getLast?_concat noCloser
    rw [one] at ends ⊢
    exact ⟨before, rfl, List.append_cancel_right ends⟩

/-- A list that consists of pieces with a separator between each two. -/
inductive Joined (separator : String) : List (List Token) → List Token → Prop where
  | last (piece : List Token) : Joined separator [piece] piece
  | more {t : Token} {pieces : List (List Token)} {tokens : List Token} (piece : List Token) :
      t.isMark separator = true → Joined separator pieces tokens →
        Joined separator (piece :: pieces) (piece ++ t :: tokens)

theorem Joined.extend {separator : String} {pieces : List (List Token)} {tokens : List Token}
    (h : Joined separator pieces tokens) (front : List Token) :
    Joined separator (extendFirst front pieces) (front ++ tokens) := by
  cases h with
  | last piece => exact .last (front ++ tokens)
  | more piece mark rest =>
    rw [← List.append_assoc]
    exact .more (front ++ piece) mark rest

theorem splitItems_joined (separator : String) {items : List (List Token)}
    (nonempty : ∀ item ∈ items, item ≠ []) :
    Joined separator (splitItems separator items) items.flatten := by
  induction items with
  | nil => exact .last []
  | cons item rest ih =>
    have behind := ih fun piece member => nonempty piece (List.mem_cons_of_mem _ member)
    obtain ⟨t, tail, rfl⟩ := List.exists_cons_of_ne_nil (nonempty item List.mem_cons_self)
    rw [splitItems]
    split
    · rename_i mark
      exact .more [] mark (behind.extend tail)
    · exact behind.extend (t :: tail)

theorem splitTopLevel_joined (separator : String) {tokens : List Token} (nonempty : tokens ≠ []) :
    Joined separator (splitTopLevel separator tokens) tokens := by
  have joined := splitItems_joined separator (items_ne_nil false tokens)
  rw [items_flatten] at joined
  rw [splitTopLevel, if_neg (by simpa using nonempty)]
  exact joined

end Group

end MemberLift
