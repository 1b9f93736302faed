import Mathlib.Data.List.TakeWhile
import MemberLift.Checked.Declaration
import MemberLift.Proofs.Checked.Group

/-!
Declarations are taken apart without a trap, and into the same parts.  Each loop over the indices at
top level is a walk over items.
-/
namespace MemberLift.Checked

open MemberLift.Group (itemsOf starts headMark headWord)

variable {tokens : List Token}

theorem length_starts (first : Nat) (pieces : List (List Token)) :
    (starts first pieces).length = pieces.length := by
  induction pieces generalizing first with
  | nil => rfl
  | cons piece pieces ih => rw [starts, List.length_cons, ih, List.length_cons]

theorem starts_get (front : List (List Token)) (item : List Token) (back : List (List Token)) :
    (starts 0 (front ++ item :: back))[front.length]? = some front.flatten.length := by
  have length : (starts 0 front).length = front.length := length_starts 0 front
  rw [Group.starts_append, List.getElem?_append_right (Nat.le_of_eq length), length, Nat.sub_self]
  simp [starts]

def headTest (test : Token → Bool) (item : List Token) : Bool :=
  (item.head?.map test).getD false

theorem firstAt_items (test : Token → Bool) (front back : List (List Token))
    (split : itemsOf tokens = front ++ back) :
    firstAt test tokens (starts front.flatten.length back) =
      .ok (if back.any (headTest test) then
        some (front ++ back.takeWhile fun item => !headTest test item).flatten.length
      else none) := by
  refine walk (motive := fun front back =>
    firstAt test tokens (starts front.flatten.length back) =
      .ok (if back.any (headTest test) then
        some (front ++ back.takeWhile fun item => !headTest test item).flatten.length else none))
    (fun front whole => rfl) (fun front t inner back split behind => ?_) front back split
  have place : front.flatten.length + (t :: inner).length =
      (front ++ [t :: inner]).flatten.length := by simp
  have here : headTest test (t :: inner) = test t := rfl
  rw [starts, firstAt, get_of_getElem? (getElem?_item split), ok_bind, place, behind,
    List.any_cons, List.takeWhile_cons, here]
  cases test t with
  | true => simp; rfl
  | false => simp

theorem exists_cons_of_split {front back : List (List Token)} {item : List Token}
    (split : itemsOf tokens = front ++ item :: back) : ∃ t inner, item = t :: inner := by
  have member : item ∈ Group.items false tokens := by
    rw [← itemsOf, split]
    simp
  exact List.exists_cons_of_ne_nil (Group.items_ne_nil false tokens item member)

theorem topLevel_get {front back : List (List Token)} {item : List Token}
    (split : itemsOf tokens = front ++ item :: back) :
    (Group.topLevel tokens)[front.length]? = some front.flatten.length := by
  rw [Group.topLevel, split, starts_get]

theorem dropExtents_items {before back : List (List Token)}
    (split : itemsOf tokens = before.reverse ++ back) :
    dropExtents tokens (Group.topLevel tokens) before.length =
      .ok (before.dropWhile (headMark "[")).length := by
  induction before generalizing back with
  | nil => rfl
  | cons item before ih =>
    rw [List.reverse_cons, List.append_assoc, List.singleton_append] at split
    obtain ⟨t, inner, rfl⟩ := exists_cons_of_split split
    have place := topLevel_get split
    rw [List.length_reverse] at place
    rw [List.length_cons, dropExtents, get_of_getElem? place, ok_bind,
      get_of_getElem? (getElem?_item split), ok_bind, List.dropWhile_cons]
    have here : headMark "[" (t :: inner) = t.isMark "[" := rfl
    rw [here]
    cases t.isMark "[" with
    | true => exact ih split
    | false => rfl

theorem isIdentifier_single {t : Token} {inner : List Token} (whole : Group.Whole (t :: inner))
    (identifier : t.isIdentifier = true) : inner = [] := by
  have noMark := Token.not_isMark_of_identifier identifier
  have noOpener : Group.closerFor t = none := Group.closerFor_of_ne fun mark _ => noMark mark
  exact (List.cons.inj (whole.singleton rfl noOpener (noMark "<"))).2

theorem size_reverse (items : List (List Token)) :
    items.reverse.flatten.length = Parameter.size items := by
  simp [Parameter.size, List.length_flatten]

theorem getElem?_before {front back : List (List Token)} {previous item : List Token}
    (split : itemsOf tokens = front ++ previous :: item :: back) :
    0 < (front ++ [previous]).flatten.length ∧
      tokens[(front ++ [previous]).flatten.length - 1]? = previous.getLast? := by
  obtain ⟨t, inner, rfl⟩ := exists_cons_of_split split
  have whole := Group.eq_of_itemsOf split
  have place : (front ++ [t :: inner]).flatten.length - 1 =
      front.flatten.length + inner.length := by
    rw [length_item]
    omega
  refine ⟨by rw [length_item]; omega, ?_⟩
  rw [place, whole, List.getElem?_append_right (Nat.le_add_right _ _), Nat.add_sub_cancel_left,
    List.getElem?_append_left (by simp), List.getLast?_eq_getElem?]
  rfl

theorem nameAt_ok {item : List Token} {before : List (List Token)}
    (kept : (itemsOf tokens).reverse.dropWhile (headMark "[") = item :: before)
    {back : List (List Token)} (split : itemsOf tokens = before.reverse ++ item :: back) :
    nameAt tokens before.reverse.flatten.length = .ok (Parameter.plainName (itemsOf tokens)) := by
  obtain ⟨t, inner, rfl⟩ := exists_cons_of_split split
  have whole : Group.Whole (t :: inner) :=
    Group.items_whole false tokens _ (by rw [← itemsOf, split]; simp)
  rw [nameAt, get_of_getElem? (getElem?_item split), ok_bind, Parameter.plainName, kept]
  cases identifier : t.isIdentifier with
  | false =>
    cases inner with
    | nil =>
      cases before with
      | nil => rfl
      | cons previous before => simp [identifier]; rfl
    | cons u inner => rfl
  | true =>
    -- an identifier is an item of its own, so the token in front of it ends the item before
    obtain rfl := isIdentifier_single whole identifier
    cases before with
    | nil => simp; rfl
    | cons previous before =>
      cases keyword : typeKeywords.contains t.text with
      | true =>
        simp only [identifier, keyword, Bool.not_true, Bool.or_true, if_true,
          Bool.and_false, Bool.false_and, Bool.false_eq_true, if_false]
        rfl
      | false =>
        rw [List.reverse_cons, List.append_assoc, List.singleton_append] at split
        obtain ⟨positive, here⟩ := getElem?_before split
        rw [← List.reverse_cons] at positive here
        obtain ⟨u, last⟩ := Option.isSome_iff_exists.mp (List.getLast?_isSome.mpr
          (Group.items_ne_nil false tokens previous (by rw [← itemsOf, split]; simp)))
        rw [last] at here
        rw [minus_of_le positive, ok_bind, get_of_getElem? here, ok_bind,
          if_neg (by simp), if_neg (Nat.ne_of_gt positive), size_reverse]
        simp only [last, identifier, keyword, Option.map_some, Option.getD_some]
        cases u.isMark "::" with
        | true => rfl
        | false => rfl

theorem plainName_ok (tokens : List Token) :
    plainName tokens (Group.topLevel tokens) = .ok (Parameter.plainName (itemsOf tokens)) := by
  have extents : dropExtents tokens (Group.topLevel tokens) (Group.topLevel tokens).length =
      .ok ((itemsOf tokens).reverse.dropWhile (headMark "[")).length := by
    have whole : itemsOf tokens = (itemsOf tokens).reverse.reverse ++ [] := by simp
    have counted := dropExtents_items whole
    rwa [List.length_reverse, ← length_starts 0] at counted
  obtain ⟨dropped, shape⟩ := List.dropWhile_suffix (headMark "[") (l := (itemsOf tokens).reverse)
  rw [plainName, extents, ok_bind]
  cases kept : (itemsOf tokens).reverse.dropWhile (headMark "[") with
  | nil => simp [Parameter.plainName, kept]; rfl
  | cons item before =>
    rw [kept] at shape
    have split : itemsOf tokens = before.reverse ++ item :: dropped.reverse := by
      have whole := congrArg List.reverse shape
      rw [List.reverse_reverse] at whole
      simp [← whole]
    have top : Group.topLevel tokens =
        (starts 0 before.reverse ++ [before.reverse.flatten.length]) ++
          starts (before.reverse.flatten.length + item.length) dropped.reverse := by
      rw [Group.topLevel, split, Group.starts_append, starts, Nat.zero_add]
      simp
    have cut : slice (Group.topLevel tokens) 0 (item :: before).length =
        .ok (starts 0 before.reverse ++ [before.reverse.flatten.length]) :=
      slice_of_split (top.trans (List.nil_append _).symm) rfl (by simp [length_starts])
    rw [cut, ok_bind, List.getLast?_concat]
    exact nameAt_ok kept split

theorem slice_item {front back : List (List Token)} {t : Token} {inner : List Token}
    (split : itemsOf tokens = front ++ (t :: inner) :: back) (group : inner ≠ []) :
    slice tokens (front.flatten.length + 1) (front.flatten.length + inner.length) =
      .ok inner.dropLast := by
  obtain ⟨body, last, rfl⟩ : ∃ body last, inner = body ++ [last] :=
    ⟨_, _, (List.dropLast_concat_getLast group).symm⟩
  have whole : tokens = (front.flatten ++ [t]) ++ (body ++ (last :: back.flatten)) := by
    rw [Group.eq_of_itemsOf split]
    simp
  rw [List.dropLast_concat]
  refine slice_of_split whole (by simp) ?_
  simp only [List.length_append, List.length_singleton]
  omega

theorem isPointer_ok {front back : List (List Token)} {t : Token} {inner : List Token}
    (split : itemsOf tokens = front ++ (t :: inner) :: back) (group : inner ≠ []) :
    isPointer tokens front.flatten.length (front.flatten.length + inner.length) =
      .ok (Parameter.isPointerGroup (t :: inner)) := by
  have positive := List.length_pos_iff.mpr group
  have long : decide (front.flatten.length + 1 < front.flatten.length + inner.length - 1) =
      decide (2 ≤ inner.dropLast.length) := by
    rw [List.length_dropLast]
    exact decide_eq_decide.mpr (by omega)
  rw [isPointer, slice_item split group, ok_bind, Parameter.isPointerGroup, List.tail_cons]
  split
  · rename_i marked
    rw [minus_of_le (by omega), ok_bind, long, marked]
    rfl
  · rename_i plain
    rw [Bool.eq_false_iff.mpr plain]
    rfl

theorem findName_items (front back : List (List Token)) (split : itemsOf tokens = front ++ back) :
    findName tokens (Group.topLevel tokens) (starts front.flatten.length back) =
      .ok (Parameter.findName (itemsOf tokens) front.flatten.length back) := by
  refine walk (motive := fun front back =>
    findName tokens (Group.topLevel tokens) (starts front.flatten.length back) =
      .ok (Parameter.findName (itemsOf tokens) front.flatten.length back))
    (fun front whole => plainName_ok tokens) (fun front t inner back split behind => ?_)
    front back split
  have place : front.flatten.length + (t :: inner).length =
      (front ++ [t :: inner]).flatten.length := by simp
  have here : headMark "(" (t :: inner) = t.isMark "(" := rfl
  rw [starts, findName, get_of_getElem? (getElem?_item split), ok_bind, Parameter.findName, here,
    place, behind]
  cases opens : t.isMark "(" with
  | false => rfl
  | true =>
    have value := Group.groupEnd_item split
    have opener : Group.isOpener t = true := Group.isOpener_of_isMark opens (by decide)
    simp only [Group.groupEnd, getElem?_item split, opener, if_true,
      ← matchingBracket_val] at value
    simp only [if_true]
    cases found : matchingBracket tokens front.flatten.length with
    | none =>
      rw [found] at value
      cases inner with
      | nil => rfl
      | cons u inner => cases value
    | some closing =>
      rw [found] at value
      cases inner with
      | nil => cases value
      | cons u inner =>
        have last : closing.1 = front.flatten.length + (u :: inner).length := Option.some.inj value
        have group : u :: inner ≠ [] := List.cons_ne_nil u inner
        have long : ¬ (t :: u :: inner).length = 1 := by simp
        have positive : 1 ≤ front.flatten.length + (u :: inner).length := by
          rw [List.length_cons]
          omega
        simp only [last, isPointer_ok split group, ok_bind, if_neg long, minus_of_le positive,
          ← place]
        cases Parameter.isPointerGroup (t :: u :: inner) with
        | true => rfl
        | false => rfl

theorem declaratorName_ok (declarator : List Token) : declaratorName declarator =
    .ok (Parameter.findName (itemsOf declarator) 0 (itemsOf declarator)) := by
  rw [declaratorName, topLevel_ok, ok_bind]
  exact findName_items [] (itemsOf declarator) rfl

theorem firstAt_topLevel (test : Token → Bool) (tokens : List Token) :
    firstAt test tokens (Group.topLevel tokens) = .ok (if (itemsOf tokens).any (headTest test) then
      some ((itemsOf tokens).takeWhile fun item => !headTest test item).flatten.length else none) :=
  firstAt_items test [] (itemsOf tokens) rfl

theorem slice_firstAt {test : Token → Bool} {found : Option Nat}
    (search : firstAt test tokens (Group.topLevel tokens) = .ok found) :
    slice tokens 0 (found.getD tokens.length) =
      .ok ((itemsOf tokens).takeWhile fun item => !headTest test item).flatten := by
  have whole : tokens = [] ++
      (((itemsOf tokens).takeWhile fun item => !headTest test item).flatten ++
        ((itemsOf tokens).dropWhile fun item => !headTest test item).flatten) := by
    rw [List.nil_append, ← List.flatten_append, List.takeWhile_append_dropWhile, itemsOf,
      Group.items_flatten]
  refine slice_of_split whole rfl ?_
  rw [firstAt_topLevel] at search
  obtain rfl := Except.ok.inj search
  split
  · simp
  · rename_i none_
    have all : ((itemsOf tokens).takeWhile fun item => !headTest test item) = itemsOf tokens := by
      refine List.takeWhile_eq_self_iff.mpr fun item member => ?_
      have other := List.any_eq_false.mp (Bool.of_not_eq_true none_) item member
      simpa using other
    rw [all, itemsOf, Group.items_flatten]
    simp

theorem parameter_ok (tokens : List Token) :
    parameter tokens = .ok (Parameter.ofTokens tokens) := by
  have found := firstAt_topLevel (·.isMark "=") tokens
  have dots := firstAt_topLevel (·.isMark "...") (Parameter.declarator tokens)
  have cut : slice tokens 0 _ = .ok (Parameter.declarator tokens) := slice_firstAt found
  rw [parameter, topLevel_ok, ok_bind, found, ok_bind, cut, ok_bind, topLevel_ok, ok_bind, dots,
    ok_bind, declaratorName_ok, ok_bind, Parameter.ofTokens]
  have same : headTest (·.isMark "...") = headMark "..." := rfl
  rw [same]
  cases (itemsOf (Parameter.declarator tokens)).any (headMark "...") with
  | true => rfl
  | false => rfl

theorem parametersOf_ok (pieces : List (List Token)) :
    parametersOf pieces = .ok (pieces.map Parameter.ofTokens) := by
  induction pieces with
  | nil => rfl
  | cons piece pieces ih =>
    rw [parametersOf, parameter_ok, ok_bind, ih]
    rfl

theorem isVoid_ok (tokens : List Token) : isVoid tokens = .ok (MemberLift.isVoid tokens) := by
  match tokens with
  | [] => rfl
  | [t] => rfl
  | t :: u :: rest => simp [isVoid, MemberLift.isVoid]

theorem parameters_ok (tokens : List Token) :
    parameters tokens = .ok (MemberLift.parameters tokens) := by
  rw [parameters, isVoid_ok, ok_bind, MemberLift.parameters, splitTopLevel_ok, ok_bind,
    parametersOf_ok]
  split
  · rfl
  · rfl

theorem topLevel_length (tokens : List Token) :
    (Group.topLevel tokens).length = (itemsOf tokens).length := length_starts 0 _

theorem initialiser_ok (name : Text) (q : Declaration.Qualifiers) {front back : List (List Token)}
    {item : List Token} (split : itemsOf tokens = front ++ item :: back) :
    initialiser name tokens (Group.topLevel tokens) q front.length =
      .ok (if Declaration.isPure back then .ok q
        else if Declaration.isDefaultedOrDeleted back then .error (.defaultedOrDeleted name)
        else .error (.initialiser name)) := by
  have length : (Group.topLevel tokens).length = front.length + 1 + back.length := by
    rw [topLevel_length, split, List.length_append, List.length_cons]
    omega
  cases back with
  | nil =>
    have outside : (Group.topLevel tokens)[front.length + 1]? = none :=
      List.getElem?_eq_none (Nat.le_of_eq length)
    rw [initialiser, outside]
    rfl
  | cons value back =>
    rw [List.append_cons] at split
    obtain ⟨t, inner, rfl⟩ := exists_cons_of_split split
    have place := topLevel_get split
    rw [List.length_append, List.length_singleton] at place
    have last : front.length + 2 = (Group.topLevel tokens).length ↔ back = [] := by
      rw [length, List.length_cons, ← List.length_eq_zero_iff]
      omega
    have pure_ : Declaration.isPure ((t :: inner) :: back) =
        (decide (t.text = "0".toList) && decide (back = [])) := by
      cases back with
      | nil => exact (Bool.and_true _).symm
      | cons other back => exact (Bool.and_false _).symm
    have named : Declaration.isDefaultedOrDeleted ((t :: inner) :: back) =
        ["default", "delete"].any fun word => t.text = word.toList := rfl
    rw [initialiser, place, pure_, named]
    simp only [get_of_getElem? (getElem?_item split), ok_bind, last, apply_ite Except.ok]
    rfl

theorem readTrailing_items (name : Text) (front back : List (List Token))
    (split : itemsOf tokens = front ++ back) (arrow : Bool) (q : Declaration.Qualifiers) :
    readTrailing name tokens (Group.topLevel tokens) arrow q front.length =
      .ok (Declaration.readTrailing name arrow q back) := by
  refine walk (motive := fun front back => itemsOf tokens = front ++ back → ∀ arrow q,
    readTrailing name tokens (Group.topLevel tokens) arrow q front.length =
      .ok (Declaration.readTrailing name arrow q back))
    (fun front whole split arrow q => ?_) (fun front t inner back split behind _ arrow q => ?_)
    front back split split arrow q
  · have outside : ¬ front.length < (Group.topLevel tokens).length := by
      rw [topLevel_length, split, List.append_nil]
      exact Nat.lt_irrefl _
    rw [readTrailing, if_neg outside]
    rfl
  · have inside : front.length < (Group.topLevel tokens).length := by
      rw [topLevel_length, split]
      simp
    have behind := behind (by rw [split]; simp)
    rw [List.length_append, List.length_singleton] at behind
    obtain ⟨closing, search, last, _⟩ := groupEnd_walk split
    have item : slice tokens front.flatten.length (From.last front.flatten.length closing + 1) =
        .ok (t :: inner) := by
      refine slice_of_split (Group.eq_of_itemsOf split) rfl ?_
      rw [last, List.length_cons]
      omega
    rw [readTrailing, if_pos inside, get_of_getElem? (topLevel_get split), ok_bind,
      get_of_getElem? (getElem?_item split), ok_bind, search, ok_bind, item, ok_bind,
      Declaration.readTrailing]
    have word (w : String) : headWord w (t :: inner) = t.isWord w := rfl
    have mark (m : String) : headMark m (t :: inner) = t.isMark m := rfl
    simp only [word, mark, behind, initialiser_ok name q split]
    -- behind an arrow every item but a requires-clause is kept
    cases arrow with
    | true =>
      simp only [Bool.not_true, Bool.false_and, Bool.false_eq_true, if_false, Bool.true_or, if_true,
        apply_ite Except.ok]
      rfl
    | false =>
      simp only [Bool.not_false, Bool.true_and, Bool.false_or, Bool.false_eq_true, if_false]
      cases t.isMark "&" with
      | true =>
        simp only [Bool.true_or, if_true, apply_ite Except.ok]
        rfl
      | false =>
        simp only [Bool.false_or, Bool.false_eq_true, if_false, apply_ite Except.ok]
        rfl

theorem templateHeads_ok (tokens : List Token) :
    templateHeads tokens = .ok (Declaration.templateHeads tokens) := by
  -- on the length, as a head has any number of tokens
  induction left : tokens.length using Nat.strongRecOn generalizing tokens with
  | ind n ih =>
    cases tokens with
    | nil =>
      rw [templateHeads, Declaration.templateHeads]
      rfl
    | cons t rest =>
      rw [templateHeads, Declaration.templateHeads, List.head?_cons, Option.map_some,
        Option.getD_some]
      cases template : t.isWord "template" with
      | false => rfl
      | true =>
        obtain ⟨found, search, value⟩ : Finds (matchingAngle (t :: rest) 1) _ :=
          matchingAngle_finds
        rw [matchingAngle_template template] at value
        rw [if_pos rfl, if_pos rfl, search, ok_bind]
        cases found with
        | none =>
          rw [← value]
          rfl
        | some closing =>
          have inside : closing.1 ≤ rest.length := Nat.le_of_lt_succ closing.2.2
          have head : slice (t :: rest) 0 (closing.1 + 1) = .ok (t :: rest.take closing.1) := by
            rw [slice_of_le (Nat.zero_le _) closing.2.2]
            rfl
          have behind : slice (t :: rest) (closing.1 + 1) (t :: rest).length =
              .ok (rest.drop closing.1) := by
            rw [slice_of_le closing.2.2 (Nat.le_refl _), List.take_length, List.drop_succ_cons]
          rw [← value]
          simp only [head, ok_bind, Option.map_some]
          split
          · rename_i trapped
            rw [behind] at trapped
            cases trapped
          · rename_i others same
            obtain rfl := Except.ok.inj (behind.symm.trans same)
            have size : rest.length + 1 = n := left
            rw [ih (rest.drop closing.1).length (by rw [List.length_drop]; omega) _ rfl]
            rfl

/-- What the search for the parameter list finds: a fault, or the item that is the list. -/
inductive Opens (tokens : List Token) :
    Except DeclarationFault Nat → Except DeclarationFault Declaration.Parts → Prop where
  | fault (f : DeclarationFault) : Opens tokens (.error f) (.error f)
  | list {front back : List (List Token)} {t : Token} {inner : List Token} :
      itemsOf tokens = front ++ (t :: inner) :: back → front.flatten ≠ [] →
        Opens tokens (.ok front.flatten.length)
          (if inner = [] then .error .parameterList
            else .ok ⟨front.flatten, t :: inner, back.flatten⟩)

theorem findOpening_items (front back : List (List Token))
    (split : itemsOf tokens = front ++ back) :
    ∃ found, findOpening tokens (starts front.flatten.length back) = .ok found ∧
      Opens tokens found (Declaration.findParameters front.flatten back) := by
  refine walk (motive := fun front back =>
    ∃ found, findOpening tokens (starts front.flatten.length back) = .ok found ∧
      Opens tokens found (Declaration.findParameters front.flatten back))
    (fun front whole => ⟨_, rfl, .fault _⟩) (fun front t inner back split behind => ?_)
    front back split
  have place : front.flatten.length + (t :: inner).length =
      (front ++ [t :: inner]).flatten.length := by simp
  have passed : front.flatten ++ (t :: inner) = (front ++ [t :: inner]).flatten := by simp
  have word : headWord "operator" (t :: inner) = t.isWord "operator" := rfl
  have mark : headMark "(" (t :: inner) = t.isMark "(" := rfl
  rw [starts, findOpening, get_of_getElem? (getElem?_item split), ok_bind,
    Declaration.findParameters, word, mark, place, passed]
  cases t.isWord "operator" with
  | true => exact ⟨_, rfl, .fault _⟩
  | false =>
    cases opens : t.isMark "(" with
    | false => exact behind
    | true =>
      rcases List.eq_nil_or_concat front.flatten with empty | ⟨before, previous, whole⟩
      · simpa [empty] using behind
      · rw [List.concat_eq_append] at whole
        have long : front.flatten.length = before.length + 1 := by simp [whole]
        have last : tokens[front.flatten.length - 1]? = some previous := by
          rw [Group.eq_of_itemsOf split, long, Nat.add_sub_cancel, whole]
          simp
        have name : front.flatten.getLast? = some previous := by
          rw [whole, List.getLast?_concat]
        have positive : 0 < front.flatten.length := by omega
        have single : (t :: inner).length = 1 ↔ inner = [] := by simp
        rw [name, minus_of_le positive, ok_bind, get_of_getElem? last, ok_bind]
        simp only [positive, single, Bool.false_eq_true, if_false, decide_true, Bool.and_true,
          if_true, Option.map_some, Option.getD_some, Bool.true_and]
        cases Declaration.mayBeName previous with
        | false => exact behind
        | true => exact ⟨_, rfl, .list split (List.ne_nil_of_length_pos positive)⟩

theorem ofPlaces_ok (stripMacros : List Text) (templateHead : List Token)
    {front back : List (List Token)} {t : Token} {inner : List Token}
    (split : itemsOf tokens = front ++ (t :: inner) :: back) (named : front.flatten ≠ [])
    (group : inner ≠ []) :
    ofPlaces stripMacros templateHead tokens front.flatten.length
        (front.flatten.length + inner.length) =
      .ok (Declaration.ofParts stripMacros templateHead
        ⟨front.flatten, t :: inner, back.flatten⟩) := by
  obtain ⟨before, name, whole⟩ : ∃ before name, front.flatten = before ++ [name] :=
    ⟨_, _, (List.dropLast_concat_getLast named).symm⟩
  have tokens_ := Group.eq_of_itemsOf split
  have long : front.flatten.length = before.length + 1 := by simp [whole]
  have here : tokens[before.length]? = some name := by
    rw [tokens_, whole]
    simp
  have specifiers : slice tokens 0 before.length = .ok before := by
    have front_ : tokens = [] ++ (before ++ ([name] ++ (t :: inner ++ back.flatten))) := by
      rw [tokens_, whole]
      simp
    exact slice_of_split front_ rfl (Nat.zero_add _)
  have after : slice tokens (front.flatten.length + inner.length + 1) tokens.length =
      .ok back.flatten := by
    have rest : tokens = (front.flatten ++ t :: inner) ++ (back.flatten ++ []) := by
      rw [tokens_]
      simp
    refine slice_of_split rest ?_ ?_
    · rw [List.length_append, List.length_cons, Nat.add_assoc]
    · rw [rest]
      simp only [List.length_append, List.length_cons, List.length_nil]
      omega
  have minus_ : minus front.flatten.length 1 = .ok before.length := by
    rw [minus_of_le (by omega), long, Nat.add_sub_cancel]
  have last : front.flatten.getLast? = some name := by rw [whole, List.getLast?_concat]
  have trailing := readTrailing_items name.text [] (itemsOf back.flatten) rfl false
    ⟨[], false, false, none⟩
  rw [ofPlaces, Declaration.ofParts, last, whole, List.dropLast_concat, ← whole]
  simp only [minus_, ok_bind, get_of_getElem? here, specifiers, slice_item split group,
    parameters_ok, after, topLevel_ok, List.tail_cons]
  split
  · rfl
  · cases Declaration.unnamed 1 (MemberLift.parameters inner.dropLast) with
    | some found => rfl
    | none =>
      rw [List.length_nil] at trailing
      simp only [trailing, ok_bind]
      rfl

theorem declaration_ok (stripMacros : List Text) (tokens : List Token) :
    declaration stripMacros tokens = .ok (Declaration.ofTokens stripMacros tokens) := by
  rw [declaration, templateHeads_ok, ok_bind, Declaration.ofTokens]
  cases Declaration.templateHeads tokens with
  | error fault => rfl
  | ok parts =>
    obtain ⟨templateHead, rest⟩ := parts
    obtain ⟨found, search, opens⟩ := findOpening_items [] (itemsOf rest) rfl
    have search : findOpening rest (Group.topLevel rest) = .ok found := search
    simp only [topLevel_ok, ok_bind, search]
    rw [List.flatten_nil] at opens
    generalize Declaration.findParameters [] (itemsOf rest) = parts at opens
    cases opens with
    | fault f => rfl
    | @list front back t inner split named =>
      obtain ⟨closing, group, last, single⟩ := groupEnd_walk split
      simp only [group, ok_bind]
      cases closing with
      | none =>
        rw [if_pos (single.mp rfl)]
        rfl
      | some closing =>
        have whole : inner ≠ [] := fun empty => by cases single.mpr empty
        have last : closing.1 = front.flatten.length + inner.length := last
        simp only [last, ofPlaces_ok stripMacros templateHead split named whole, if_neg whole]
        rfl

/-- Whether a search from an index finds only indices behind it in a list. -/
def StaysInside (tokens : List Token) (search : Nat → Option Nat) : Prop :=
  ∀ opening, ∀ j ∈ search opening, opening < j ∧ j < tokens.length

theorem pairwise_starts {pieces : List (List Token)} (nonempty : ∀ piece ∈ pieces, piece ≠ [])
    (first : Nat) : (starts first pieces).Pairwise (· < ·) := by
  induction pieces generalizing first with
  | nil => exact .nil
  | cons piece pieces ih =>
    have long := List.length_pos_iff.mpr (nonempty piece List.mem_cons_self)
    have others : ∀ other ∈ pieces, other ≠ [] :=
      fun other member => nonempty other (List.mem_cons_of_mem piece member)
    refine .cons (fun i member => ?_) (ih others _)
    have bounds := Group.starts_bounds others member
    omega

theorem topLevel_head? (tokens : List Token) :
    (Group.topLevel tokens).head? = if tokens = [] then none else some 0 := by
  have whole := Group.items_flatten false tokens
  rw [Group.topLevel, itemsOf]
  cases split : Group.items false tokens with
  | nil =>
    rw [split, List.flatten_nil] at whole
    rw [if_pos whole.symm]
    rfl
  | cons item back =>
    have some_ : tokens ≠ [] := by
      rintro rfl
      simp [Group.items] at split
    rw [if_neg some_]
    rfl

/-- Taking a declaration apart by index traps nowhere, whatever the tokens are, and gives the parts
or the fault that the lists give.  The searches for groups stay inside the list, and the indices at
top level are indices of the list, in order, the first of them included. -/
theorem declaration_safe (stripMacros : List Text) (tokens : List Token) :
    StaysInside tokens (Group.matchingBracket tokens) ∧
    StaysInside tokens (Group.matchingAngle tokens) ∧
    StaysInside tokens (Group.groupEnd tokens) ∧
    ((Group.topLevel tokens).Pairwise (· < ·) ∧ (∀ i ∈ Group.topLevel tokens, i < tokens.length) ∧
      (Group.topLevel tokens).head? = if tokens = [] then none else some 0) ∧
    (∀ opening, Finds (matchingAngle tokens opening) (Group.matchingAngle tokens opening) ∧
      Finds (groupEnd tokens opening) (Group.groupEnd tokens opening)) ∧
    topLevel tokens = .ok (Group.topLevel tokens) ∧
    (∀ separator, splitTopLevel separator tokens = .ok (Group.splitTopLevel separator tokens)) ∧
    declaratorName tokens = .ok (Parameter.findName (itemsOf tokens) 0 (itemsOf tokens)) ∧
    parameter tokens = .ok (Parameter.ofTokens tokens) ∧
    parameters tokens = .ok (MemberLift.parameters tokens) ∧
    (∀ name arrow q, readTrailing name tokens (Group.topLevel tokens) arrow q 0 =
      .ok (Declaration.readTrailing name arrow q (itemsOf tokens))) ∧
    declaration stripMacros tokens = .ok (Declaration.ofTokens stripMacros tokens) := by
  have bounds : ∀ i ∈ Group.topLevel tokens, i < tokens.length := by
    intro i member
    have inside := (Group.starts_bounds (Group.items_ne_nil false tokens) member).2
    rwa [Group.items_flatten, Nat.zero_add] at inside
  refine ⟨fun opening j => matchingBracket_bounds, fun opening => matchingAngle_finds.bounds,
    fun opening => groupEnd_finds.bounds, ⟨?_, bounds, topLevel_head? tokens⟩,
    fun opening => ⟨matchingAngle_finds, groupEnd_finds⟩, topLevel_ok tokens,
    fun separator => splitTopLevel_ok separator tokens, declaratorName_ok tokens,
    parameter_ok tokens, parameters_ok tokens, fun name arrow q => ?_,
    declaration_ok stripMacros tokens⟩
  · exact pairwise_starts (Group.items_ne_nil false tokens) 0
  · exact readTrailing_items name [] (itemsOf tokens) rfl arrow q

/-- Brackets that cross, and an angle that is never closed. -/
example : declaration [] (Lexer.lex 1 "a<b f(int (*c[1), d".toList).tokens =
    .ok (.error .parameterList) := by
  decide +kernel

end MemberLift.Checked
