import Mathlib.Data.List.Chain
import MemberLift.Proofs.Declaration.Account
import MemberLift.Proofs.Token.Thinned

/-!
Member syntax behind the parameters of a declaration.  In front of the arrow of a trailing return
type neither `override` nor `final` nor the mark of a pure function is kept.  Behind the arrow
everything is, so the kept part is free of them exactly if the trailing return type is
(`Declaration.ofTokens_unbound`).
-/
namespace MemberLift

open MemberLift.Group

namespace Declaration

/-- Items without syntax that binds them to a member: no `override`, no `final`, and no equals sign
with a zero at the end. -/
structure Unbound (items : List (List Token)) : Prop where
  noWord : ∀ item ∈ items, headWord "override" item = false ∧ headWord "final" item = false
  noPure : ¬ ∃ front equals zero, items.flatten = front ++ [equals, zero] ∧
    equals.isMark "=" = true ∧ zero.text = "0".toList

/-- The items in front of the arrow of a trailing return type. -/
def inFront (items : List (List Token)) : List (List Token) :=
  items.takeWhile fun item => !headMark "->" item

def returned (items : List (List Token)) : List (List Token) :=
  items.dropWhile fun item => !headMark "->" item

/-- Whether a token in front of a trailing return type may be taken out. -/
def isQualifier (t : Token) : Bool := isMemberMark t || t.isWord "const" || t.isWord "volatile"

theorem inert_of_isQualifier {t : Token} (holds : isQualifier t = true) : Inert t := by
  simp only [isQualifier, isMemberMark, Bool.or_eq_true] at holds
  rcases holds with ((((mark | mark) | word) | word) | word) | word
  · exact .of_mark mark (by decide)
  · exact .of_mark mark (by decide)
  · exact .of_word word
  · exact .of_word word
  · exact .of_word word
  · exact .of_word word

/-- No qualifier stands right in front of an opening angle, where it might be taken for the name of
a template. -/
def Separate (items : List (List Token)) : Prop :=
  items.IsChain fun item next => isOne isQualifier item = true → headMark "<" next = false

theorem Separate.tail {item : List Token} {items : List (List Token)}
    (h : Separate (item :: items)) : Separate items := List.IsChain.tail h

theorem Separate.next {item : List Token} {items : List (List Token)}
    (h : Separate (item :: items)) (qualifier : isOne isQualifier item = true) :
    ∀ next ∈ items.head?, headMark "<" next = false := by
  cases items with
  | nil => simp
  | cons next items =>
    intro other first
    cases first
    exact (List.isChain_cons_cons.mp h).1 qualifier

theorem isOne_mono {p q : Token → Bool} (implies : ∀ t, p t = true → q t = true)
    {item : List Token} (holds : isOne p item = true) : isOne q item = true := by
  rcases item with _ | ⟨t, _ | ⟨u, more⟩⟩
  · cases holds
  · exact implies t holds
  · cases holds

theorem skimmed_qualifier {item : List Token} {items items' : List (List Token)}
    (apart : Separate (item :: items)) (holds : isOne isQualifier item = true)
    (rest : Skimmed items items') : Skimmed (item :: items) items' := by
  have noAngle := apart.next holds
  rcases item with _ | ⟨t, _ | ⟨u, more⟩⟩
  · cases holds
  · exact .drop (inert_of_isQualifier holds) noAngle rest
  · cases holds

theorem skimmed_unqualified {stay tail tail' : List (List Token)}
    (nonempty : ∀ item ∈ stay, item ≠ []) (apart : Separate (stay ++ tail))
    (rest : Skimmed tail tail') (isConst isVolatile : Bool) :
    Skimmed (stay ++ tail) (unqualified isConst isVolatile stay ++ tail') := by
  induction stay generalizing isConst isVolatile with
  | nil =>
    rw [unqualified_nil]
    exact rest
  | cons item stay ih =>
    have behind := ih (fun other member => nonempty other (List.mem_cons_of_mem item member))
      apart.tail
    cases const : isOne (·.isWord "const") item && !isConst with
    | true =>
      rw [Bool.and_eq_true, Bool.not_eq_true'] at const
      rw [const.2, unqualified_const const.1]
      refine skimmed_qualifier apart (isOne_mono (fun t word => ?_) const.1) (behind _ _)
      simp [isQualifier, word]
    | false =>
      cases volatile : isOne (·.isWord "volatile") item && !isVolatile with
      | true =>
        rw [Bool.and_eq_true, Bool.not_eq_true'] at volatile
        rw [volatile.2, unqualified_volatile const volatile.1]
        refine skimmed_qualifier apart (isOne_mono (fun t word => ?_) volatile.1) (behind _ _)
        simp [isQualifier, word]
      | false =>
        rw [unqualified_cons const volatile]
        by_cases mark : isOne isMemberMark item = true
        · rw [if_pos mark]
          refine skimmed_qualifier apart (isOne_mono (fun t member => ?_) mark) (behind _ _)
          simp [isQualifier, member]
        · rw [if_neg mark]
          obtain ⟨t, inner, rfl⟩ := List.exists_cons_of_ne_nil (nonempty item List.mem_cons_self)
          exact .keep t inner (behind _ _)

theorem unqualified_sublist (isConst isVolatile : Bool) (items : List (List Token)) :
    (unqualified isConst isVolatile items).Sublist items := by
  have without (seen : Bool) (word : String) (items : List (List Token)) :
      (withoutFirst seen word items).Sublist items := by
    unfold withoutFirst
    split
    · exact List.Sublist.refl items
    · exact List.eraseP_sublist
  exact List.filter_sublist.trans ((without _ _ _).trans (without _ _ _))

theorem isMemberMark_of_unqualified {isConst isVolatile : Bool} {items : List (List Token)}
    {item : List Token} (member : item ∈ unqualified isConst isVolatile items) :
    isOne isMemberMark item = false := by
  simpa using (List.mem_filter.mp member).2

theorem pure_items {items : List (List Token)} (whole : ∀ item ∈ items, Whole item)
    {front : List Token} {equals zero : Token} (ends : items.flatten = front ++ [equals, zero])
    (mark : equals.isMark "=" = true) (text : zero.text = "0".toList) :
    ∃ before, items = before ++ [[equals], [zero]] := by
  rw [List.append_cons] at ends
  obtain ⟨start, rfl, inFront⟩ := last_item whole ends fun other member =>
    Token.not_isMark_of_text text (by revert other; decide)
  have wholeStart := fun item member => whole item (List.mem_append_left [[zero]] member)
  obtain ⟨before, rfl, _⟩ := last_item wholeStart inFront fun other member =>
    Token.not_isMark_of_mark mark (by revert other; decide)
  exact ⟨before, List.append_assoc ..⟩

theorem unbound_unqualified {stay : List (List Token)} (whole : ∀ item ∈ stay, Whole item)
    (noEquals : ∀ item ∈ stay, headMark "=" item = false) (isConst isVolatile : Bool) :
    Unbound (unqualified isConst isVolatile stay) where
  noWord := by
    intro item member
    have inside := (unqualified_sublist isConst isVolatile stay).mem member
    have mark := isMemberMark_of_unqualified member
    rw [isOne_isMemberMark (whole item inside)] at mark
    simp only [Bool.or_eq_false_iff] at mark
    exact mark.2
  noPure := by
    rintro ⟨front, equals, zero, ends, mark, text⟩
    have sub := unqualified_sublist isConst isVolatile stay
    obtain ⟨before, items⟩ :=
      pure_items (fun item member => whole item (sub.mem member)) ends mark text
    have plain := noEquals [equals] (sub.mem (by simp [items]))
    rw [headMark, List.head?_cons, Option.map_some, Option.getD_some, mark] at plain
    cases plain

theorem unbound_append {front back : List (List Token)} (free : Unbound front)
    (whole : ∀ item ∈ front ++ back, Whole item)
    (noEquals : ∀ item ∈ front, headMark "=" item = false) :
    Unbound (front ++ back) ↔ Unbound back := by
  constructor
  · intro all
    refine ⟨fun item member => all.noWord item (List.mem_append_right front member), ?_⟩
    rintro ⟨before, equals, zero, ends, pure⟩
    refine all.noPure ⟨front.flatten ++ before, equals, zero, ?_, pure⟩
    rw [List.flatten_append, ends, List.append_assoc]
  · intro returned
    refine ⟨fun item member => ?_, ?_⟩
    · rcases List.mem_append.mp member with inside | inside
      · exact free.noWord item inside
      · exact returned.noWord item inside
    · rintro ⟨start, equals, zero, ends, mark, text⟩
      obtain ⟨before, items⟩ := pure_items whole ends mark text
      rcases List.append_eq_append_iff.mp items with ⟨more, _, behind⟩ | ⟨more, within, behind⟩
      · refine returned.noPure ⟨more.flatten, equals, zero, ?_, mark, text⟩
        rw [behind]
        simp
      · cases more with
        | nil =>
          refine returned.noPure ⟨[], equals, zero, ?_, mark, text⟩
          rw [← List.nil_append back, ← behind]
          rfl
        | cons item more =>
          -- the equals sign would stand in front of the arrow
          obtain ⟨rfl, _⟩ := List.cons.inj behind
          have plain := noEquals [equals] (by simp [within])
          rw [headMark, List.head?_cons, Option.map_some, Option.getD_some, mark] at plain
          cases plain

theorem returned_append {front back : List (List Token)}
    (noArrow : ∀ item ∈ front, headMark "->" item = false)
    (arrow : ∀ item ∈ back.head?, headMark "->" item = true) :
    returned (front ++ back) = back := by
  rw [returned, List.dropWhile_append_of_pos fun item member => by simp [noArrow item member]]
  cases back with
  | nil => rfl
  | cons item rest => rw [List.dropWhile_cons_of_neg (by simp [arrow item rfl])]

theorem inFront_append {front back : List (List Token)}
    (noArrow : ∀ item ∈ front, headMark "->" item = false)
    (arrow : ∀ item ∈ back.head?, headMark "->" item = true) :
    inFront (front ++ back) = front := by
  rw [inFront, List.takeWhile_append_of_pos fun item member => by simp [noArrow item member]]
  cases back with
  | nil => exact List.append_nil front
  | cons item rest =>
    rw [List.takeWhile_cons_of_neg (by simp [arrow item rfl]), List.append_nil]

theorem skimmed_pure {pure back : List (List Token)}
    (h : pure = [] ∨ back = [] ∧ ∃ equals zero : Token, pure = [[equals], [zero]] ∧
      equals.isMark "=" = true ∧ zero.text = "0".toList)
    (whole : ∀ item ∈ back, Whole item) : Skimmed (pure ++ back) back := by
  rcases h with rfl | ⟨rfl, equals, zero, rfl, mark, text⟩
  · exact Skimmed.refl fun item member => (whole item member).ne_nil
  · have plain : Inert zero := .of_marks fun other member =>
      Token.not_isMark_of_text text (by revert other; decide)
    refine .drop (.of_mark mark (by decide)) ?_ (.drop plain (by simp) .nil)
    intro next first
    cases first
    exact plain.noAngle

section Leaves

variable {items stay pure back : List (List Token)} {kept : List Token}

theorem Leaves.whole (h : Leaves false false items stay pure back kept)
    (whole : ∀ item ∈ items, Whole item) :
    (∀ item ∈ stay, Whole item) ∧ ∀ item ∈ back, Whole item := by
  rw [h.items] at whole
  exact ⟨fun item member => whole item (by simp [member]),
    fun item member => whole item (by simp [member])⟩

theorem Leaves.noArrow (h : Leaves false false items stay pure back kept) :
    ∀ item ∈ unqualified false false stay, headMark "->" item = false := fun item member =>
  h.noReturn item (List.mem_append_left pure ((unqualified_sublist false false stay).mem member))

theorem Leaves.unbound (h : Leaves false false items stay pure back kept)
    (whole : ∀ item ∈ items, Whole item) :
    Unbound (unqualified false false stay ++ back) ↔ Unbound back := by
  have sub := unqualified_sublist false false stay
  obtain ⟨wholeStay, wholeBack⟩ := h.whole whole
  refine unbound_append (unbound_unqualified wholeStay h.noEquals false false)
    (fun item member => ?_) (fun item member => ?_)
  · rcases List.mem_append.mp member with inside | inside
    · exact wholeStay item (sub.mem inside)
    · exact wholeBack item inside
  · exact h.noEquals item (sub.mem member)

theorem Leaves.skimmed (h : Leaves false false items stay pure back kept)
    (whole : ∀ item ∈ items, Whole item) (apart : Separate items) :
    Skimmed items (unqualified false false stay ++ back) := by
  obtain ⟨wholeStay, wholeBack⟩ := h.whole whole
  rw [h.items, List.append_assoc] at apart ⊢
  exact skimmed_unqualified (fun item member => (wholeStay item member).ne_nil) apart
    (skimmed_pure h.last wholeBack) false false

end Leaves

/-- What is kept behind the parameters holds no `override`, no `final` and no mark of a pure
function in front of the arrow of a trailing return type, and it holds none at all exactly if the
trailing return type, which is kept as it stands, holds none. -/
theorem ofTokens_unbound {stripMacros : List Text} {source : List Token} {d : Declaration}
    (h : ofTokens stripMacros source = .ok d) :
    ∃ specifiers list after kept, Sourced stripMacros source d specifiers list after ∧
      d.trailing = kept.flatten ∧ kept.Sublist (itemsOf after) ∧
      Unbound (inFront kept) ∧ returned kept = returned (itemsOf after) ∧
      (Unbound kept ↔ Unbound (returned (itemsOf after))) ∧
      (Separate (itemsOf after) → itemsOf d.trailing = kept) := by
  obtain ⟨specifiers, list, after, sourced⟩ := ofTokens_sourced h
  obtain ⟨q, read, trailing⟩ := sourced.trailing
  have whole := items_whole false after
  obtain ⟨stay, pure, back, kept, same, leaves⟩ := readTrailing_leaves whole read
  have returnedSource : returned (itemsOf after) = back := by
    rw [itemsOf, leaves.items]
    exact returned_append leaves.noReturn leaves.returns
  have spelled : d.trailing = (unqualified false false stay ++ back).flatten := by
    rw [trailing, same, leaves.kept, List.flatten_append]
    rfl
  refine ⟨specifiers, list, after, unqualified false false stay ++ back, sourced, spelled, ?_, ?_,
    ?_, ?_, fun apart => ?_⟩
  · rw [itemsOf, leaves.items]
    exact ((unqualified_sublist false false stay).trans (List.sublist_append_left stay pure)).append
      (List.Sublist.refl back)
  · rw [inFront_append leaves.noArrow leaves.returns]
    exact unbound_unqualified (leaves.whole whole).1 leaves.noEquals false false
  · rw [returnedSource]
    exact returned_append leaves.noArrow leaves.returns
  · rw [returnedSource]
    exact leaves.unbound whole
  · rw [spelled]
    exact items_skimmed (leaves.skimmed whole apart) fun _ => rfl

def overrideTokens : List Token := (Lexer.lex 1 "auto f() const -> T override".toList).tokens

def overrideDeclaration : Declaration where
  templateHead := []
  head := overrideTokens.take 1
  name := ⟨.identifier, "f".toList, [' '], 1⟩
  params := []
  trailing := overrideTokens.drop 5
  isStatic := false
  isConst := true
  isVolatile := false
  refQualifier := none

theorem ofTokens_unbound_override : ofTokens [] overrideTokens = .ok overrideDeclaration ∧
    ∃ specifiers list after kept,
      Sourced [] overrideTokens overrideDeclaration specifiers list after ∧
      overrideDeclaration.trailing = kept.flatten ∧ kept.Sublist (itemsOf after) ∧
      Unbound (inFront kept) ∧ returned kept = returned (itemsOf after) ∧
      (Unbound kept ↔ Unbound (returned (itemsOf after))) ∧
      (Separate (itemsOf after) → itemsOf overrideDeclaration.trailing = kept) := by
  have read : ofTokens [] overrideTokens = .ok overrideDeclaration :=
    ok_of_mem_toOption (by decide +kernel)
  exact ⟨read, ofTokens_unbound read⟩

/-- The word behind the return type is kept. -/
example : (itemsOf overrideDeclaration.trailing).any (headWord "override") = true := by
  decide +kernel

end Declaration

end MemberLift
