import MemberLift.Proofs.Token.Group

/-!
Lists of tokens from which single tokens were taken out.  Tokens that neither open nor close
anything do not matter for what brackets close, and for what angles close they matter only right in
front of an opening angle, which may stand behind a name.  So if no such place is touched, the items
that are left are the items of what is left (`items_skimmed`).
-/
namespace MemberLift.Group

/-- A token that neither opens nor closes a group nor ends the search for a closing angle. -/
structure Inert (t : Token) : Prop where
  noOpener : closerFor t = none
  noCloser : isCloser t = false
  noAngle : t.isMark "<" = false
  noEnd : t.isMark ">" = false
  noStop : t.isMark ";" = false

theorem Inert.of_marks {t : Token}
    (other : ∀ mark ∈ ["(", "[", "\x7b", ")", "]", "\x7d", "<", ">", ";"], t.isMark mark = false) :
    Inert t where
  noOpener := by simp [closerFor, other]
  noCloser := by simp [isCloser, Token.isMarkIn, other]
  noAngle := other "<" (by decide)
  noEnd := other ">" (by decide)
  noStop := other ";" (by decide)

theorem Inert.of_identifier {t : Token} (identifier : t.isIdentifier = true) : Inert t :=
  .of_marks fun mark _ => Token.not_isMark_of_identifier identifier mark

theorem Inert.of_word {t : Token} {word : String} (holds : t.isWord word = true) : Inert t :=
  .of_marks fun mark _ => Token.not_isMark_of_word holds mark

theorem Inert.of_mark {t : Token} {mark : String} (holds : t.isMark mark = true)
    (ne : ∀ other ∈ ["(", "[", "\x7b", ")", "]", "\x7d", "<", ">", ";"],
      mark.toList ≠ other.toList) : Inert t :=
  .of_marks fun other member => Token.not_isMark_of_mark holds (ne other member)

theorem Inert.isOpener {t : Token} (h : Inert t) : isOpener t = false := by
  rw [Group.isOpener, h.noOpener]
  rfl

/-- A list of tokens and what is left of it.  No token was taken out right in front of an opening
angle. -/
inductive Thinned : List Token → List Token → Prop where
  | nil : Thinned [] []
  | keep {tokens tokens' : List Token} (t : Token) :
      Thinned tokens tokens' → Thinned (t :: tokens) (t :: tokens')
  | drop {tokens tokens' : List Token} {t : Token} :
      Inert t → headMark "<" tokens = false → Thinned tokens tokens' →
        Thinned (t :: tokens) tokens'

theorem Thinned.append {tokens tokens' : List Token} (h : Thinned tokens tokens')
    (front : List Token) : Thinned (front ++ tokens) (front ++ tokens') := by
  induction front with
  | nil => exact h
  | cons t front ih => exact .keep t ih

def behind (found : Option Nat) (tokens : List Token) : Option (List Token) :=
  found.map fun k => tokens.drop (k + 1)

theorem behind_add (found : Option Nat) (k : Nat) (tokens : List Token) :
    behind (found.map (· + k)) tokens = behind found (tokens.drop k) := by
  cases found with
  | none => rfl
  | some j =>
    have place : k + (j + 1) = j + k + 1 := by omega
    simp only [behind, Option.map_some, List.drop_drop, place]

theorem behind_succ (found : Option Nat) (t : Token) (tokens : List Token) :
    behind (found.map (· + 1)) (t :: tokens) = behind found tokens :=
  behind_add found 1 (t :: tokens)

theorem closeBrackets_inert {t : Token} (inert : Inert t) (pending : List String)
    (rest : List Token) :
    closeBrackets pending (t :: rest) = (closeBrackets pending rest).map (· + 1) := by
  simp only [closeBrackets, inert.noOpener, inert.noCloser]

/-- The bracket that is closed is closed by the same token. -/
theorem closeBrackets_thinned {tokens tokens' : List Token} (h : Thinned tokens tokens')
    (pending : List String) :
    Option.Rel Thinned (behind (closeBrackets pending tokens) tokens)
      (behind (closeBrackets pending tokens') tokens') := by
  induction h generalizing pending with
  | nil => exact .none
  | @keep tokens tokens' t rest ih =>
    rcases closeBrackets_step pending t with fails | ⟨c, _, _, closes⟩ | ⟨pending', _, goes⟩
    · rw [fails, fails]
      exact .none
    · rw [closes, closes]
      exact .some rest
    · rw [goes, goes, behind_succ, behind_succ]
      exact ih pending'
  | drop inert _ rest ih =>
    rw [closeBrackets_inert inert, behind_succ]
    exact ih pending

theorem behind_cases {found found' : Option Nat} {tokens tokens' : List Token}
    (h : Option.Rel Thinned (behind found tokens) (behind found' tokens')) :
    (found = none ∧ found' = none) ∨
      ∃ k k', found = some k ∧ found' = some k' ∧
        Thinned (tokens.drop (k + 1)) (tokens'.drop (k' + 1)) := by
  cases found with
  | none =>
    cases found' with
    | none => exact .inl ⟨rfl, rfl⟩
    | some k' => cases h
  | some k =>
    cases found' with
    | none => cases h
    | some k' =>
      cases h with
      | some rest => exact .inr ⟨k, k', rfl, rfl, rest⟩

theorem Thinned.kept {t : Token} {rest tokens' : List Token} (h : Thinned (t :: rest) tokens')
    (other : ¬ Inert t) : ∃ rest', tokens' = t :: rest' ∧ Thinned rest rest' := by
  cases h with
  | keep _ rest' => exact ⟨_, rfl, rest'⟩
  | drop inert => exact absurd inert other

/-- An angle that is closed is closed by the same token, if both searches begin behind a name or
neither does. -/
theorem closeAngle_thinned {afterName afterName' : Bool} {tokens tokens' : List Token}
    (h : Thinned tokens tokens') (same : headMark "<" tokens = true → afterName' = afterName) :
    Option.Rel Thinned (behind (closeAngle afterName tokens) tokens)
      (behind (closeAngle afterName' tokens') tokens') := by
  fun_induction closeAngle afterName tokens generalizing afterName' tokens' with
  | case1 =>
    cases h
    rw [closeAngle.eq_1]
    exact .none
  | case2 afterName t rest ends =>
    obtain ⟨rest', rfl, left⟩ := h.kept fun inert => by simp [inert.noEnd] at ends
    rw [closeAngle.eq_2, if_pos ends]
    exact .some left
  | case3 afterName t rest noEnd opens open_ =>
    obtain ⟨rest', rfl, left⟩ := h.kept fun inert => by simp [inert.isOpener] at opens
    have brackets := closeBrackets_thinned (.keep t left) []
    rw [open_] at brackets
    obtain ⟨_, open_'⟩ | ⟨k, k', found, _⟩ := behind_cases brackets
    · rw [closeAngle.eq_2, if_neg noEnd, if_pos opens, open_']
      exact .none
    · cases found
  | case4 afterName t rest noEnd opens k closed ih =>
    obtain ⟨rest', rfl, left⟩ := h.kept fun inert => by simp [inert.isOpener] at opens
    have brackets := closeBrackets_thinned (.keep t left) []
    rw [closed] at brackets
    obtain ⟨none_, _⟩ | ⟨j, k', found, closed', after⟩ := behind_cases brackets
    · cases none_
    · cases found
      rw [closeAngle.eq_2, if_neg noEnd, if_pos opens, closed']
      simp only [behind_add]
      exact ih after fun _ => rfl
  | case5 afterName t rest noEnd noOpener stops =>
    obtain ⟨rest', rfl, left⟩ := h.kept fun inert => by
      simp [inert.noCloser, inert.noStop] at stops
    rw [closeAngle.eq_2, if_neg noEnd, if_neg noOpener, if_pos stops]
    exact .none
  | case6 afterName t rest noEnd noOpener noStop nests open_ ih =>
    have angle := nests
    rw [Bool.and_eq_true] at angle
    obtain ⟨rest', rfl, left⟩ := h.kept fun inert => by simp [inert.noAngle] at angle
    have inner := ih left fun _ => rfl
    rw [open_] at inner
    obtain ⟨_, open_'⟩ | ⟨k, k', found, _⟩ := behind_cases inner
    · rw [closeAngle.eq_2, if_neg noEnd, if_neg noOpener, if_neg noStop, same angle.1,
        if_pos nests, open_']
      exact .none
    · cases found
  | case7 afterName t rest noEnd noOpener noStop nests k closed first ih =>
    have angle := nests
    rw [Bool.and_eq_true] at angle
    obtain ⟨rest', rfl, left⟩ := h.kept fun inert => by simp [inert.noAngle] at angle
    have inner := first left fun _ => rfl
    rw [closed] at inner
    obtain ⟨none_, _⟩ | ⟨j, k', found, closed', after⟩ := behind_cases inner
    · cases none_
    · cases found
      rw [closeAngle.eq_2, if_neg noEnd, if_neg noOpener, if_neg noStop, same angle.1,
        if_pos nests, closed']
      simp only [behind_add]
      exact ih after fun _ => rfl
  | case8 afterName t rest noEnd noOpener noStop single ih =>
    rw [behind_succ]
    cases h with
    | keep _ left =>
      have single' : ¬ (t.isMark "<" && afterName') = true := by
        intro nests
        rw [Bool.and_eq_true] at nests
        rw [same nests.1] at nests
        exact single (Bool.and_eq_true _ _ ▸ nests)
      rw [closeAngle.eq_2, if_neg noEnd, if_neg noOpener, if_neg noStop, if_neg single',
        behind_succ]
      exact ih left fun _ => rfl
    | drop _ noAngle left =>
      refine ih left fun angle => ?_
      rw [noAngle] at angle
      cases angle

/-- Items and what is left of them.  Only single tokens were taken out, none of them right in front
of an opening angle. -/
inductive Skimmed : List (List Token) → List (List Token) → Prop where
  | nil : Skimmed [] []
  | keep {items items' : List (List Token)} (t : Token) (inner : List Token) :
      Skimmed items items' → Skimmed ((t :: inner) :: items) ((t :: inner) :: items')
  | drop {items items' : List (List Token)} {t : Token} :
      Inert t → (∀ next ∈ items.head?, headMark "<" next = false) → Skimmed items items' →
        Skimmed ([t] :: items) items'

theorem Skimmed.refl {items : List (List Token)} (nonempty : ∀ item ∈ items, item ≠ []) :
    Skimmed items items := by
  induction items with
  | nil => exact .nil
  | cons item items ih =>
    obtain ⟨t, inner, rfl⟩ := List.exists_cons_of_ne_nil (nonempty item List.mem_cons_self)
    exact .keep t inner (ih fun other member => nonempty other (List.mem_cons_of_mem _ member))

theorem Skimmed.head {items items' : List (List Token)} (h : Skimmed items items')
    (noAngle : ∀ next ∈ items.head?, headMark "<" next = false) :
    headMark "<" items.flatten = false := by
  cases h with
  | nil => rfl
  | keep t inner _ => exact noAngle (t :: inner) rfl
  | @drop _ _ t _ _ _ => exact noAngle [t] rfl

theorem Skimmed.thinned {items items' : List (List Token)} (h : Skimmed items items') :
    Thinned items.flatten items'.flatten := by
  induction h with
  | nil => exact .nil
  | keep t inner _ ih => exact ih.append (t :: inner)
  | drop inert noAngle rest ih => exact .drop inert (rest.head noAngle) ih

theorem span_thinned {afterName afterName' : Bool} {t : Token} {rest rest' : List Token}
    (h : Thinned rest rest') (same : t.isMark "<" = true → afterName' = afterName)
    (single : span afterName t rest = none) : span afterName' t rest' = none := by
  unfold span at single ⊢
  by_cases opens : isOpener t = true
  · rw [if_pos opens] at single ⊢
    have brackets := closeBrackets_thinned (.keep t h) []
    rw [single] at brackets
    obtain ⟨_, open_⟩ | ⟨k, _, found, _⟩ := behind_cases brackets
    · exact open_
    · cases found
  · rw [if_neg opens] at single ⊢
    by_cases nests : (t.isMark "<" && afterName) = true
    · have angle := nests
      rw [Bool.and_eq_true] at angle
      rw [if_pos nests, Option.map_eq_none_iff] at single
      have inner := closeAngle_thinned h fun _ => Eq.refl false
      rw [single] at inner
      obtain ⟨_, open_⟩ | ⟨k, _, found, _⟩ := behind_cases inner
      · rw [same angle.1, if_pos nests, open_]
        rfl
      · cases found
    · rw [if_neg]
      intro nests'
      rw [Bool.and_eq_true] at nests'
      rw [same nests'.1] at nests'
      exact nests (Bool.and_eq_true _ _ ▸ nests')

theorem span_inert {t : Token} (inert : Inert t) (afterName : Bool) (rest : List Token) :
    span afterName t rest = none := by
  simp [span, inert.isOpener, inert.noAngle]

theorem items_inert {t : Token} (inert : Inert t) (afterName : Bool) (rest : List Token) :
    items afterName (t :: rest) = [t] :: items t.isIdentifier rest := by
  rw [items.eq_2, span_inert inert]

theorem items_inerts {front : List Token} (inert : ∀ t ∈ front, Inert t) {last : Token}
    (inert' : Inert last) (afterName : Bool) (rest : List Token) :
    items afterName (front ++ last :: rest) =
      (front ++ [last]).map (fun t => [t]) ++ items last.isIdentifier rest := by
  induction front generalizing afterName with
  | nil => exact items_inert inert' afterName rest
  | cons t front ih =>
    have behind := ih fun other member => inert other (List.mem_cons_of_mem t member)
    rw [List.cons_append, items_inert (inert t List.mem_cons_self), behind]
    rfl

/-- The items that are left are the items of what is left. -/
theorem items_skimmed {afterName afterName' : Bool} {tokens : List Token}
    {items' : List (List Token)} (h : Skimmed (items afterName tokens) items')
    (same : headMark "<" tokens = true → afterName' = afterName) :
    items afterName' items'.flatten = items' := by
  fun_induction items afterName tokens generalizing afterName' items' with
  | case1 =>
    cases h
    simp [items]
  | case2 afterName t rest k group ih =>
    obtain ⟨short, _⟩ := span_some group
    have length : (rest.take k).length = k := by
      rw [List.length_take]
      omega
    rw [← List.take_append_drop k rest] at group
    have front := span_front group (Nat.le_of_eq length.symm)
    rw [List.take_append_drop] at group
    generalize rest.take k = inner at h length front
    generalize after : items false (rest.drop k) = behind at h
    cases h with
    | @keep _ left _ _ skimmed =>
      have closed : span afterName' t (inner ++ left.flatten) = some k := by
        by_cases angle : t.isMark "<" = true
        · rw [same angle]
          exact front left.flatten
        · have whole := front left.flatten
          rw [Bool.not_eq_true] at angle
          simp only [span, angle, Bool.false_and] at whole ⊢
          exact whole
      rw [List.flatten_cons, List.cons_append, items.eq_2, closed]
      simp only
      rw [List.take_left' length, List.drop_left' length, ih (after ▸ skimmed) fun _ => rfl]
    | drop inert _ _ =>
      rw [span_inert inert] at group
      cases group
  | case3 afterName t rest single ih =>
    generalize after : items t.isIdentifier rest = behind at h
    cases h with
    | @keep _ left _ _ skimmed =>
      rw [← after] at skimmed
      have thinned := skimmed.thinned
      rw [items_flatten] at thinned
      rw [List.flatten_cons, List.singleton_append, items.eq_2, span_thinned thinned same single]
      simp only
      rw [ih skimmed fun _ => rfl]
    | drop inert noAngle skimmed =>
      rw [← after] at skimmed
      have plain := skimmed.head (after ▸ noAngle)
      rw [items_flatten] at plain
      refine ih skimmed fun angle => ?_
      rw [plain] at angle
      cases angle

end MemberLift.Group
