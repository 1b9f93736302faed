import MemberLift.Proofs.Token.Pieces
import MemberLift.Proofs.Token.Places
import MemberLift.Token.Lexer

/-!
Splitting a list at its top level.  The pieces with the separators between them are the list again
(`splitItems_interleave`), and each piece has on its own the groups that it has in the list, because
nothing that was cut off matters for it (`splitTopLevel_place`).
-/
namespace MemberLift.Group

def interleave : List (List Token) → List Token → List Token
  | [], _ => []
  | piece :: pieces, [] => piece ++ pieces.flatten
  | piece :: pieces, t :: rest => piece ++ t :: interleave pieces rest

/-- The separators that stand in no group. -/
def separators (mark : String) (tokens : List Token) : List Token :=
  (topLevel tokens).filterMap fun i => (tokens[i]?).filter (·.isMark mark)

/-- Where the piece behind others begins, each of which is followed by a separator. -/
def offset : List (List Token) → Nat
  | [] => 0
  | piece :: before => piece.length + 1 + offset before

def separator? (mark : String) (item : List Token) : Option Token :=
  item.head?.filter (·.isMark mark)

theorem separator?_none {mark : String} {item : List Token} (other : headMark mark item = false) :
    separator? mark item = none := by
  cases item with
  | nil => rfl
  | cons t inner =>
    have here : t.isMark mark = false := other
    simp [separator?, here]

theorem separators_eq (mark : String) (tokens : List Token) :
    separators mark tokens = (itemsOf tokens).filterMap (separator? mark) := by
  have heads : (topLevel tokens).map (tokens[·]?) = (itemsOf tokens).map List.head? :=
    starts_getElem? (items_ne_nil false tokens) [] (items_flatten false tokens).symm
  have marks := congrArg (List.filterMap (Option.filter (·.isMark mark))) heads
  rw [List.filterMap_map, List.filterMap_map] at marks
  exact marks

theorem interleave_extendFirst (front : List Token) {pieces : List (List Token)}
    (nonempty : pieces ≠ []) (between : List Token) :
    interleave (extendFirst front pieces) between = front ++ interleave pieces between := by
  obtain ⟨piece, pieces, rfl⟩ := List.exists_cons_of_ne_nil nonempty
  cases between <;> simp [extendFirst, interleave]

theorem length_extendFirst (front : List Token) {pieces : List (List Token)}
    (nonempty : pieces ≠ []) : (extendFirst front pieces).length = pieces.length := by
  obtain ⟨piece, pieces, rfl⟩ := List.exists_cons_of_ne_nil nonempty
  rfl

section

-- a separator is an item of its own, so that nothing is left of it in the pieces
variable {mark : String} (inert : ∀ t : Token, t.isMark mark = true → Inert t)
include inert

theorem separator_alone {item : List Token} (whole : Whole item)
    (holds : headMark mark item = true) : ∃ t, item = [t] ∧ t.isMark mark = true := by
  obtain ⟨t, inner, rfl⟩ := List.exists_cons_of_ne_nil whole.ne_nil
  have here : t.isMark mark = true := holds
  have opensNothing := inert t here
  exact ⟨t, whole.singleton rfl opensNothing.noOpener opensNothing.noAngle, here⟩

theorem splitItems_interleave {items : List (List Token)} (whole : ∀ item ∈ items, Whole item) :
    interleave (splitItems mark items) (items.filterMap (separator? mark)) = items.flatten ∧
      (splitItems mark items).length = (items.filterMap (separator? mark)).length + 1 := by
  induction items with
  | nil => exact ⟨rfl, rfl⟩
  | cons item rest ih =>
    obtain ⟨again, count⟩ := ih fun other member => whole other (List.mem_cons_of_mem item member)
    have nonempty := splitItems_ne_nil mark rest
    by_cases holds : headMark mark item = true
    · obtain ⟨t, rfl, here⟩ := separator_alone inert (whole item List.mem_cons_self) holds
      have found : separator? mark [t] = some t := by simp [separator?, here]
      rw [splitItems, if_pos holds, List.tail_cons, extendFirst_nil nonempty,
        List.filterMap_cons_some found]
      exact ⟨congrArg (t :: ·) again, by simp [count]⟩
    · have other : separator? mark item = none := separator?_none (Bool.eq_false_iff.mpr holds)
      rw [splitItems, if_neg holds, List.filterMap_cons_none other]
      exact ⟨by rw [interleave_extendFirst item nonempty, again, List.flatten_cons],
        (length_extendFirst item nonempty).trans count⟩

theorem splitTopLevel_interleave (tokens : List Token) :
    interleave (splitTopLevel mark tokens) (separators mark tokens) = tokens ∧
      (splitTopLevel mark tokens).length =
        if tokens = [] then 0 else (separators mark tokens).length + 1 := by
  obtain ⟨again, count⟩ := splitItems_interleave inert (items_whole false tokens)
  rw [items_flatten] at again
  rw [separators_eq, splitTopLevel]
  cases tokens with
  | nil => exact ⟨rfl, rfl⟩
  | cons t rest => exact ⟨again, count⟩

theorem splitItems_cases {items : List (List Token)} (whole : ∀ item ∈ items, Whole item) :
    splitItems mark items = [items.flatten] ∨
      ∃ front t back, items = front ++ [t] :: back ∧ t.isMark mark = true ∧
        splitItems mark items = front.flatten :: splitItems mark back := by
  induction items with
  | nil => exact .inl rfl
  | cons item rest ih =>
    by_cases holds : headMark mark item = true
    · obtain ⟨t, rfl, here⟩ := separator_alone inert (whole item List.mem_cons_self) holds
      refine .inr ⟨[], t, rest, rfl, here, ?_⟩
      rw [splitItems, if_pos holds, List.tail_cons, extendFirst_nil (splitItems_ne_nil mark rest)]
      rfl
    · rw [splitItems, if_neg holds]
      rcases ih fun other member => whole other (List.mem_cons_of_mem item member) with
        alone | ⟨front, t, back, rfl, here, first⟩
      · rw [alone]
        exact .inl rfl
      · rw [first]
        exact .inr ⟨item :: front, t, back, rfl, here, rfl⟩

theorem splitItems_place {items before after : List (List Token)} {piece : List Token}
    (whole : ∀ item ∈ items, Whole item)
    (h : splitItems mark items = before ++ piece :: after) :
    ∃ front part back, items = front ++ part ++ back ∧ part.flatten = piece ∧
      front.flatten.length = offset before ∧ nameBefore false front.flatten = false ∧
      (after ≠ [] → ∃ t rest, back = [t] :: rest ∧ t.isMark mark = true) := by
  induction before generalizing items with
  | nil =>
    rcases splitItems_cases inert whole with alone | ⟨front, t, back, rfl, here, first⟩
    · rw [alone] at h
      cases h
      exact ⟨[], items, [], by simp, rfl, rfl, rfl, fun more => absurd rfl more⟩
    · rw [first] at h
      cases h
      exact ⟨[], front, [t] :: back, rfl, rfl, rfl, rfl, fun _ => ⟨t, back, rfl, here⟩⟩
  | cons earlier before ih =>
    rcases splitItems_cases inert whole with alone | ⟨front, t, back, rfl, here, first⟩
    · rw [alone] at h
      simp at h
    · rw [first] at h
      obtain ⟨rfl, behind⟩ := List.cons.inj h
      obtain ⟨passed, part, rest, rfl, flat, place, noName, ends⟩ :=
        ih (fun item member => whole item (by simp [member])) behind
      refine ⟨front ++ [t] :: passed, part, rest, by simp, flat, ?_, ?_, ends⟩
      · simp only [List.flatten_append, List.flatten_cons, List.length_append, List.length_cons,
          List.length_nil, offset, place]
        omega
      · rw [List.flatten_append, List.flatten_cons, nameBefore_append, nameBefore_append]
        have noName' : nameBefore (nameBefore false front.flatten) [t] = false :=
          Token.isIdentifier_of_isMark here
        rw [noName', noName]

theorem splitTopLevel_place {tokens piece : List Token} {before after : List (List Token)}
    (h : splitTopLevel mark tokens = before ++ piece :: after) :
    ∃ front back, itemsOf tokens = front ++ itemsOf piece ++ back ∧
      front.flatten.length = offset before ∧
      (after ≠ [] → ∃ t rest, back = [t] :: rest ∧ t.isMark mark = true) := by
  have split : splitItems mark (itemsOf tokens) = before ++ piece :: after := by
    rw [splitTopLevel] at h
    split at h
    · simp at h
    · exact h
  obtain ⟨front, part, back, whole, rfl, place, noName, ends⟩ :=
    splitItems_place inert (items_whole false tokens) split
  have behind := items_rest ((List.append_assoc front part back) ▸ whole)
  rw [noName] at behind
  have own : itemsOf part.flatten = part := items_front behind
  refine ⟨front, back, ?_, place, ends⟩
  rw [own]
  exact whole

end

/-- Splitting at the commas loses nothing but these, and each piece has on its own the top level and
the groups that it has in the whole list. -/
theorem splitTopLevel_local (tokens : List Token) :
    interleave (splitTopLevel "," tokens) (separators "," tokens) = tokens ∧
      (splitTopLevel "," tokens).length =
        (if tokens = [] then 0 else (separators "," tokens).length + 1) ∧
      ∀ before piece after, splitTopLevel "," tokens = before ++ piece :: after →
        (tokens.drop (offset before)).take piece.length = piece ∧
        (after ≠ [] → offset before + piece.length ∈ topLevel tokens ∧
          ∃ t, tokens[offset before + piece.length]? = some t ∧ t.isMark "," = true) ∧
        (∀ k, k ∈ topLevel piece ↔ k < piece.length ∧ offset before + k ∈ topLevel tokens) ∧
        ∀ k ∈ topLevel piece,
          groupEnd tokens (offset before + k) = (groupEnd piece k).map (offset before + ·) := by
  have inert (t : Token) (comma : t.isMark "," = true) : Inert t := .of_mark comma (by decide)
  obtain ⟨again, count⟩ := splitTopLevel_interleave inert tokens
  refine ⟨again, count, fun before piece after h => ?_⟩
  obtain ⟨front, back, split, place, ends⟩ := splitTopLevel_place inert h
  have whole : tokens = front.flatten ++ piece ++ back.flatten := by
    have parts := items_flatten false tokens
    rw [← itemsOf, split, List.flatten_append, List.flatten_append, itemsOf, items_flatten] at parts
    exact parts.symm
  rw [← place]
  refine ⟨?_, ?_, fun k => mem_topLevel_part split, fun k => groupEnd_part split⟩
  · rw [whole]
    simp
  · intro more
    obtain ⟨t, rest, rfl, comma⟩ := ends more
    refine ⟨mem_topLevel.mpr ⟨front ++ itemsOf piece, [t], rest, split, ?_⟩, t, ?_, comma⟩
    · rw [List.flatten_append, List.length_append, itemsOf, items_flatten]
    · rw [whole]
      simp

def pairTokens : List Token :=
  (Lexer.lex 1 "std::pair<int, int> p, a[2] < \x7b1, 2\x7d".toList).tokens

/-- The extent of an array behind a comma, in front of an angle that opens no list. -/
theorem splitTopLevel_local_pair :
    splitTopLevel "," pairTokens = [pairTokens.take 9] ++ pairTokens.drop 10 :: [] ∧
      1 ∈ topLevel (pairTokens.drop 10) ∧ groupEnd pairTokens 11 = some 13 := by
  have split : splitTopLevel "," pairTokens = [pairTokens.take 9] ++ pairTokens.drop 10 :: [] := by
    decide +kernel
  have bracket : 1 ∈ topLevel (pairTokens.drop 10) := by decide +kernel
  obtain ⟨_, _, parts⟩ := splitTopLevel_local pairTokens
  obtain ⟨_, _, _, groups⟩ := parts [pairTokens.take 9] (pairTokens.drop 10) [] split
  have own : groupEnd (pairTokens.drop 10) 1 = some 3 := by decide +kernel
  have place : offset [pairTokens.take 9] = 10 := by decide +kernel
  have whole := groups 1 bracket
  rw [own, place] at whole
  exact ⟨split, bracket, whole⟩

end MemberLift.Group
