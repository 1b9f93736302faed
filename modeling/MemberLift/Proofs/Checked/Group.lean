import MemberLift.Checked.Group
import MemberLift.Proofs.Token.Angles
import MemberLift.Proofs.Token.Pieces
import MemberLift.Proofs.Token.Places

/-!
Group searches by index do not trap, and find what the searches on lists find.  A walk stands
between two items of its list, and the group that is opened there ends where the item ends
(`Group.groupEnd_item`), so the walk goes on between the next two.
-/
namespace MemberLift.Checked

open MemberLift.Group (itemsOf starts)

variable {tokens : List Token} {i : Nat}

/-- A search does not trap, and its result is the given one. -/
def Finds {low : Nat} (search : Except Trap (Option (From tokens low))) (result : Option Nat) :
    Prop :=
  ∃ found, search = .ok found ∧ found.map Subtype.val = result

theorem Finds.lower {low high : Nat} {search : Except Trap (Option (From tokens high))}
    {result : Option Nat} (le : low ≤ high) (h : Finds search result) :
    Finds (search.map (Option.map (From.lower le))) result := by
  obtain ⟨found, rfl, rfl⟩ := h
  refine ⟨found.map (From.lower le), rfl, ?_⟩
  rw [Option.map_map]
  rfl

theorem Finds.none {low : Nat} : Finds (.ok (.none : Option (From tokens low))) .none :=
  ⟨.none, rfl, rfl⟩

theorem matchingBracket_val :
    (matchingBracket tokens i).map Subtype.val = Group.matchingBracket tokens i := by
  unfold matchingBracket
  split
  · rename_i none_
    exact none_.symm
  · rename_i some_
    exact some_.symm

theorem followsName_ok (positive : 0 < i) (inside : i ≤ tokens.length) :
    followsName tokens i = .ok (Group.followsName tokens i) := by
  have here : tokens[i - 1]? = some tokens[i - 1] := List.getElem?_eq_getElem (by omega)
  have ne : (i != 0) = true := by simp; omega
  simp only [followsName, minus_of_le positive, Group.followsName, ne, here, bind, Except.bind,
    get_of_getElem? here]
  rfl

theorem opensList_ok (positive : 0 < i) (inside : i ≤ tokens.length) (t : Token) :
    opensList tokens i t = .ok (t.isMark "<" && Group.followsName tokens i) := by
  rw [opensList]
  cases t.isMark "<" with
  | false => rfl
  | true => exact followsName_ok positive inside

theorem followsName_succ {t : Token} (here : tokens[i]? = some t) :
    Group.followsName tokens (i + 1) = t.isIdentifier := by
  simp [Group.followsName, here]

def angleFrom (tokens : List Token) (i : Nat) : Option Nat :=
  (Group.closeAngle (Group.followsName tokens i) (tokens.drop i)).map (i + ·)

section

variable {t : Token} (here : tokens[i]? = some t)
include here

theorem angleFrom_end (ends : t.isMark ">" = true) : angleFrom tokens i = some i := by
  rw [angleFrom, Group.drop_of_getElem? here, Group.closeAngle.eq_2, if_pos ends]
  rfl

theorem angleFrom_stop (noEnd : t.isMark ">" = false) (noOpener : Group.isOpener t = false)
    (stops : (Group.isCloser t || t.isMark ";") = true) : angleFrom tokens i = none := by
  rw [angleFrom, Group.drop_of_getElem? here, Group.closeAngle.eq_2, noEnd, noOpener, if_pos stops]
  rfl

theorem angleFrom_succ {mark : String} (holds : t.isMark mark = true) : angleFrom tokens (i + 1) =
    (Group.closeAngle false (tokens.drop (i + 1))).map (i + 1 + ·) := by
  rw [angleFrom, followsName_succ here, Token.isIdentifier_of_isMark holds]

theorem angleFrom_opener (opens : Group.isOpener t = true) :
    angleFrom tokens i =
      (Group.matchingBracket tokens i).bind fun j => angleFrom tokens (j + 1) := by
  have punctuator : (t.kind = .punctuator && !Group.isOpener t) = false := by simp [opens]
  rw [angleFrom, Group.matchingBracket, here, Group.drop_of_getElem? here, Group.closeAngle.eq_2,
    Group.noEnd_of_isOpener opens, opens]
  simp only [punctuator]
  cases closed : Group.closeBrackets [] (t :: tokens.drop (i + 1)) with
  | none => rfl
  | some k =>
    obtain ⟨c, inner, u, after, _, split, rfl, fits⟩ := Group.closeBrackets_opener opens closed
    have last : tokens[i + 1 + inner.length]? = some u := by
      rw [← List.getElem?_drop, split]
      simp
    have place : i + (inner.length + 1) = i + 1 + inner.length := by omega
    have behind := angleFrom_succ last fits
    simp only [Bool.false_eq_true, if_false, if_true, Option.map_some, Option.bind_some, place,
      behind, List.drop_drop, Option.map_map]
    congr 1
    funext k
    simp only [Function.comp_apply]
    omega

theorem angleFrom_list (angle : t.isMark "<" = true) (named : Group.followsName tokens i = true) :
    angleFrom tokens i = (angleFrom tokens (i + 1)).bind fun j => angleFrom tokens (j + 1) := by
  rw [angleFrom_succ here angle, angleFrom, named, Group.drop_of_getElem? here]
  cases closed : Group.closeAngle false (tokens.drop (i + 1)) with
  | none =>
    have other (mark : String) (ne : "<".toList ≠ mark.toList) : t.isMark mark = false :=
      Token.not_isMark_of_mark angle ne
    have noOpener : Group.isOpener t = false := by simp [Group.isOpener, Group.closerFor, other]
    have noCloser : Group.isCloser t = false := by simp [Group.isCloser, Token.isMarkIn, other]
    simp [Group.closeAngle, other, noOpener, noCloser, angle, closed]
  | some k =>
    obtain ⟨inner, u, after, split, rfl, ends⟩ := Group.closeAngle_closer closed
    have last : tokens[i + 1 + inner.length]? = some u := by
      rw [← List.getElem?_drop, split]
      simp
    have behind := angleFrom_succ last ends
    have place : i + 1 + (inner.length + 1) = i + 1 + inner.length + 1 := by omega
    rw [Group.closeAngle_list angle closed]
    simp only [Option.map_some, Option.bind_some, behind, List.drop_drop, Option.map_map, place]
    congr 1
    funext k
    simp only [Function.comp_apply]
    omega

theorem angleFrom_single (noEnd : t.isMark ">" = false) (noOpener : Group.isOpener t = false)
    (goesOn : (Group.isCloser t || t.isMark ";") = false)
    (noList : (t.isMark "<" && Group.followsName tokens i) = false) :
    angleFrom tokens i = angleFrom tokens (i + 1) := by
  rw [angleFrom, angleFrom, followsName_succ here, Group.drop_of_getElem? here,
    Group.closeAngle.eq_2, noEnd, noOpener, goesOn, noList]
  simp only [Bool.false_eq_true, if_false, Option.map_map]
  congr 1
  funext k
  simp only [Function.comp_apply]
  omega

theorem matchingAngle_eq_angleFrom (angle : t.isMark "<" = true)
    (named : Group.followsName tokens i = true) :
    Group.matchingAngle tokens i = angleFrom tokens (i + 1) := by
  simp [Group.matchingAngle, here, angle, named, angleFrom_succ here angle]

end

theorem angleFrom_nil (outside : tokens.length ≤ i) : angleFrom tokens i = none := by
  rw [angleFrom, List.drop_eq_nil_of_le outside, Group.closeAngle.eq_1]
  rfl

theorem matchingAngle_of_closing
    (inside : Finds (closingAngle tokens (i + 1)) (angleFrom tokens (i + 1))) :
    Finds (matchingAngle tokens i) (Group.matchingAngle tokens i) := by
  unfold matchingAngle
  split
  · rename_i outside
    rw [Group.matchingAngle, outside]
    exact Finds.none
  · rename_i t here
    have short : i < tokens.length := (List.getElem?_eq_some_iff.mp here).1
    cases angle : t.isMark "<" with
    | false => simpa [Group.matchingAngle, here, angle] using Finds.none
    | true =>
      cases i with
      | zero => simpa [Group.matchingAngle, here, Group.followsName] using Finds.none
      | succ i =>
        rw [followsName_ok (Nat.succ_pos i) (Nat.le_of_lt short)]
        cases named : Group.followsName tokens (i + 1) with
        | false =>
          simp only [Group.matchingAngle, here, named, Bool.and_false]
          exact Finds.none
        | true =>
          rw [matchingAngle_eq_angleFrom here angle named]
          simpa using inside

theorem closingAngle_finds (positive : 0 < i) :
    Finds (closingAngle tokens i) (angleFrom tokens i) := by
  -- on the number of tokens left, as the search goes on behind a group however long that is
  induction left : tokens.length - i using Nat.strongRecOn generalizing i with
  | ind left ih =>
    have behind {j : Nat} (le : i ≤ j) (inside : i < tokens.length) :
        Finds (closingAngle tokens (j + 1)) (angleFrom tokens (j + 1)) :=
      ih _ (by omega) (Nat.succ_pos j) rfl
    unfold closingAngle
    split
    · rename_i inside
      have here : tokens[i]? = some tokens[i] := List.getElem?_eq_getElem inside
      rw [get_of_getElem? here, ok_bind]
      generalize tokens[i] = t at here
      cases ends : t.isMark ">" with
      | true =>
        rw [angleFrom_end here ends]
        exact ⟨_, rfl, rfl⟩
      | false =>
        cases opens : Group.isOpener t with
        | true =>
          rw [angleFrom_opener here opens, ← matchingBracket_val]
          simp only [Bool.false_eq_true, if_false, if_true]
          cases matchingBracket tokens i with
          | none => exact Finds.none
          | some j => exact (behind (Nat.le_of_succ_le j.2.1) inside).lower _
        | false =>
          cases stops : Group.isCloser t || t.isMark ";" with
          | true =>
            rw [angleFrom_stop here ends opens stops]
            exact Finds.none
          | false =>
            simp only [Bool.false_eq_true, if_false, opensList_ok positive (Nat.le_of_lt inside) t,
              ok_bind]
            cases list : t.isMark "<" && Group.followsName tokens i with
            | true =>
              obtain ⟨angle, named⟩ := Bool.and_eq_true_iff.mp list
              obtain ⟨found, search, value⟩ :=
                matchingAngle_of_closing (behind (Nat.le_refl i) inside)
              rw [angleFrom_list here angle named, ← matchingAngle_eq_angleFrom here angle named,
                ← value, if_pos rfl, search, ok_bind]
              cases found with
              | none => exact Finds.none
              | some j => exact (behind (Nat.le_of_succ_le j.2.1) inside).lower _
            | false =>
              rw [angleFrom_single here ends opens stops list]
              exact (behind (Nat.le_refl i) inside).lower _
    · rename_i outside
      rw [angleFrom_nil (Nat.le_of_not_lt outside)]
      exact Finds.none

theorem matchingAngle_finds : Finds (matchingAngle tokens i) (Group.matchingAngle tokens i) :=
  matchingAngle_of_closing (closingAngle_finds (Nat.succ_pos i))

theorem matchingAngle_template {t : Token} (template : t.isWord "template" = true)
    (rest : List Token) : Group.matchingAngle (t :: rest) 1 = Group.angleSpan rest := by
  have named : Group.followsName (t :: rest) 1 = true := by
    rw [Token.isWord, Bool.and_eq_true] at template
    exact template.1
  cases rest with
  | nil => rfl
  | cons u rest =>
    simp only [Group.matchingAngle, Group.angleSpan, named, List.getElem?_cons_succ,
      List.getElem?_cons_zero, Bool.and_true, List.drop_succ_cons, List.drop_zero]
    split
    · congr 1
      funext k
      omega
    · rfl

theorem groupEnd_finds : Finds (groupEnd tokens i) (Group.groupEnd tokens i) := by
  unfold groupEnd Group.groupEnd
  cases here : tokens[i]? with
  | none => exact Finds.none
  | some t =>
    cases opens : Group.isOpener t with
    | true =>
      refine ⟨matchingBracket tokens i, ?_, ?_⟩
      · simp [opens]
      · simpa [opens] using matchingBracket_val
    | false =>
      cases angle : t.isMark "<" with
      | true => simpa [opens, angle] using matchingAngle_finds
      | false => simpa [opens, angle, Group.matchingAngle, here] using Finds.none

theorem Finds.bounds {result : Option Nat} {search : Except Trap (Option (From tokens (i + 1)))}
    (h : Finds search result) : ∀ j ∈ result, i < j ∧ j < tokens.length := by
  obtain ⟨found, rfl, rfl⟩ := h
  intro j member
  obtain ⟨j', _, rfl⟩ := Option.map_eq_some_iff.mp member
  exact j'.2

section

variable {front back : List (List Token)}

theorem getElem?_item {t : Token} {inner : List Token}
    (split : itemsOf tokens = front ++ (t :: inner) :: back) :
    tokens[front.flatten.length]? = some t := by
  rw [Group.eq_of_itemsOf split]
  simp

theorem groupEnd_walk {t : Token} {inner : List Token}
    (split : itemsOf tokens = front ++ (t :: inner) :: back) :
    ∃ found, groupEnd tokens front.flatten.length = .ok found ∧
      From.last front.flatten.length found = front.flatten.length + inner.length ∧
      (found = none ↔ inner = []) := by
  obtain ⟨found, search, value⟩ : Finds (groupEnd tokens front.flatten.length) _ := groupEnd_finds
  rw [Group.groupEnd_item split] at value
  refine ⟨found, search, ?_, ?_⟩
  · rw [From.last, value]
    cases inner with
    | nil => rfl
    | cons u inner => rfl
  · rw [← Option.map_eq_none_iff, value]
    cases inner with
    | nil => simp
    | cons u inner => simp

end

theorem length_item (front : List (List Token)) (t : Token) (inner : List Token) :
    (front ++ [t :: inner]).flatten.length = front.flatten.length + inner.length + 1 := by
  simp [Nat.add_assoc]

/-- What holds behind the last item, and in front of an item if it holds behind it, holds at every
place where a walk can stand. -/
theorem walk {motive : List (List Token) → List (List Token) → Prop}
    (done : ∀ front, tokens = front.flatten → motive front [])
    (pass : ∀ front t inner back, itemsOf tokens = front ++ (t :: inner) :: back →
      motive (front ++ [t :: inner]) back → motive front ((t :: inner) :: back))
    (front back : List (List Token)) (split : itemsOf tokens = front ++ back) :
    motive front back := by
  induction back generalizing front with
  | nil =>
    have whole := Group.items_flatten false tokens
    rw [← itemsOf, split, List.append_nil] at whole
    exact done front whole.symm
  | cons item back ih =>
    have member : item ∈ Group.items false tokens := by
      rw [← itemsOf, split]
      simp
    obtain ⟨t, inner, rfl⟩ :=
      List.exists_cons_of_ne_nil (Group.items_ne_nil false tokens item member)
    exact pass front t inner back split (ih _ (by rw [split]; simp))

theorem topLevelFrom_items (front back : List (List Token))
    (split : itemsOf tokens = front ++ back) :
    topLevelFrom tokens front.flatten.length = .ok (starts front.flatten.length back) := by
  refine walk (motive := fun front back =>
    topLevelFrom tokens front.flatten.length = .ok (starts front.flatten.length back))
    (fun front whole => ?_) (fun front t inner back split behind => ?_) front back split
  · have outside : ¬ front.flatten.length < tokens.length := by simp [whole]
    rw [topLevelFrom, dif_neg outside]
    rfl
  · have inside := (List.getElem?_eq_some_iff.mp (getElem?_item split)).1
    obtain ⟨found, search, last, _⟩ := groupEnd_walk split
    rw [length_item] at behind
    rw [topLevelFrom, dif_pos inside, search, ok_bind, last, behind]
    rfl

theorem topLevel_ok (tokens : List Token) : topLevel tokens = .ok (Group.topLevel tokens) :=
  topLevelFrom_items [] _ (List.nil_append _).symm

theorem extendFirst_append (front middle : List Token) {pieces : List (List Token)}
    (nonempty : pieces ≠ []) : Group.extendFirst front (Group.extendFirst middle pieces) =
      Group.extendFirst (front ++ middle) pieces := by
  obtain ⟨piece, pieces, rfl⟩ := List.exists_cons_of_ne_nil nonempty
  simp [Group.extendFirst]

theorem pieces_items (separator : String) (front back : List (List Token)) {start : Nat}
    (split : itemsOf tokens = front ++ back) (le : start ≤ front.flatten.length) :
    pieces separator tokens start (starts front.flatten.length back) =
      .ok (Group.extendFirst (front.flatten.drop start) (Group.splitItems separator back)) := by
  refine walk (motive := fun front back => ∀ start ≤ front.flatten.length,
    pieces separator tokens start (starts front.flatten.length back) =
      .ok (Group.extendFirst (front.flatten.drop start) (Group.splitItems separator back)))
    (fun front whole start le => ?_) (fun front t inner back split behind start le => ?_)
    front back split start le
  · rw [starts, pieces, slice_of_le (whole ▸ le) (Nat.le_refl _), ok_bind, List.take_length, whole]
    simp [Group.splitItems, Group.extendFirst]
    rfl
  · have place : front.flatten.length + (t :: inner).length =
        (front ++ [t :: inner]).flatten.length := by simp
    have nonempty := Group.splitItems_ne_nil separator back
    rw [starts, pieces, get_of_getElem? (getElem?_item split), ok_bind, place, Group.splitItems,
      Group.headMark, List.head?_cons, Option.map_some, Option.getD_some]
    cases t.isMark separator with
    | true =>
      have inside := (List.getElem?_eq_some_iff.mp (getElem?_item split)).1
      have rest := behind (front.flatten.length + 1) (by rw [length_item]; omega)
      have cut : (tokens.take front.flatten.length).drop start = front.flatten.drop start := by
        rw [Group.eq_of_itemsOf split, List.take_left' rfl]
      have tail : (front ++ [t :: inner]).flatten.drop (front.flatten.length + 1) = inner := by
        simp [List.drop_append]
      rw [tail] at rest
      rw [if_pos rfl, if_pos rfl, slice_of_le le (Nat.le_of_lt inside), ok_bind, rest, ok_bind, cut,
        Group.extendFirst, List.append_nil]
      rfl
    | false =>
      have rest := behind start (by rw [length_item]; omega)
      have grown : (front ++ [t :: inner]).flatten.drop start =
          front.flatten.drop start ++ (t :: inner) := by
        simp [List.drop_append_of_le_length le]
      rw [grown] at rest
      rw [if_neg Bool.false_ne_true, if_neg Bool.false_ne_true, rest,
        extendFirst_append _ _ nonempty]

theorem splitTopLevel_ok (separator : String) (tokens : List Token) :
    splitTopLevel separator tokens = .ok (Group.splitTopLevel separator tokens) := by
  unfold splitTopLevel Group.splitTopLevel
  split
  · rfl
  · have whole := pieces_items separator [] (itemsOf tokens) rfl (Nat.le_refl 0)
    rw [topLevel_ok, ok_bind]
    refine whole.trans (congrArg Except.ok ?_)
    obtain ⟨piece, others, same⟩ :=
      List.exists_cons_of_ne_nil (Group.splitItems_ne_nil separator (itemsOf tokens))
    rw [same]
    rfl

end MemberLift.Checked
