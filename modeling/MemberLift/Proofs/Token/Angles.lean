import MemberLift.Proofs.Token.Brackets

/-!
Template argument lists.  Behind an identifier an opening angle opens a list exactly if arguments
and a closing angle follow (`closeAngle_iff`).  A nested list that is never closed leaves no way to
close the outer one either, so nothing is lost by giving up there instead of reading the angle as a
less-than sign (`closeAngle_eq_orCompare`).
-/
namespace MemberLift.Group

/-- The search of `closeAngle`, except that an angle behind an identifier is read as a less-than
sign if the list it would open is never closed. -/
def closeAngleOrCompare (afterName : Bool) (tokens : List Token) : Option Nat :=
  match tokens with
  | [] => none
  | t :: rest =>
    if t.isMark ">" then some 0
    else if isOpener t then
      match closeBrackets [] (t :: rest) with
      | none => none
      | some k => (closeAngleOrCompare false (rest.drop k)).map (· + (k + 1))
    else if isCloser t || t.isMark ";" then none
    else
      match if t.isMark "<" && afterName then closeAngleOrCompare false rest else none with
      | none => (closeAngleOrCompare t.isIdentifier rest).map (· + 1)
      | some k => (closeAngleOrCompare false (rest.drop (k + 1))).map (· + (k + 2))
termination_by tokens.length
decreasing_by all_goals simp; try omega

theorem closeAngle_eq_orCompare (afterName : Bool) (tokens : List Token) :
    closeAngle afterName tokens = closeAngleOrCompare afterName tokens := by
  fun_induction closeAngle afterName tokens with
  | case1 => simp [closeAngleOrCompare]
  | case2 afterName t rest ends => simp [closeAngleOrCompare, ends]
  | case3 afterName t rest noEnd opens open_ => simp [closeAngleOrCompare, noEnd, opens, open_]
  | case4 afterName t rest noEnd opens k closed ih =>
    simp [closeAngleOrCompare, noEnd, opens, closed, ih]
  | case5 afterName t rest noEnd noOpener stops =>
    simp [closeAngleOrCompare, noEnd, noOpener, stops]
  | case6 afterName t rest noEnd noOpener noStop nests open_ ih =>
    have noName : t.isIdentifier = false :=
      Token.isIdentifier_of_isMark (Bool.and_eq_true_iff.mp nests).1
    have again : closeAngleOrCompare false rest = none := ih.symm.trans open_
    simp [closeAngleOrCompare, noEnd, noOpener, noStop, nests, noName, again]
  | case7 afterName t rest noEnd noOpener noStop nests k closed first ih =>
    have again : closeAngleOrCompare false rest = some k := first.symm.trans closed
    simp [closeAngleOrCompare, noEnd, noOpener, noStop, nests, again, ih]
  | case8 afterName t rest noEnd noOpener noStop single ih =>
    simp [closeAngleOrCompare, noEnd, noOpener, noStop, single, ih]

/-- A token that is an argument, or a part of one, on its own. -/
structure Ordinary (afterName : Bool) (t : Token) : Prop where
  noOpener : isOpener t = false
  noCloser : isCloser t = false
  noStop : t.isMark ";" = false
  noEnd : t.isMark ">" = false
  noList : (t.isMark "<" && afterName) = false

/-- Tokens that may stand between the angles of a template argument list: single tokens, bracketed
groups, and nested lists behind identifiers. -/
inductive Arguments : Bool → List Token → Prop where
  | nil (afterName : Bool) : Arguments afterName []
  | single {afterName : Bool} {t : Token} {rest : List Token} :
      Ordinary afterName t → Arguments t.isIdentifier rest → Arguments afterName (t :: rest)
  | bracket {afterName : Bool} {t : Token} {inner rest : List Token} :
      isOpener t = true → matchingBracket (t :: inner) 0 = some inner.length →
        Arguments false rest → Arguments afterName (t :: inner ++ rest)
  | list {t u : Token} {inner rest : List Token} :
      t.isMark "<" = true → Arguments false inner → u.isMark ">" = true →
        Arguments false rest → Arguments true (t :: inner ++ u :: rest)

theorem matchingBracket_zero {t : Token} (opens : isOpener t = true) (rest : List Token) :
    matchingBracket (t :: rest) 0 = closeBrackets [] (t :: rest) := by
  simp [matchingBracket, opens]

theorem matchingBracket_take {t : Token} {rest : List Token} {k : Nat} (opens : isOpener t = true)
    (closed : closeBrackets [] (t :: rest) = some k) :
    (rest.take k).length = k ∧ matchingBracket (t :: rest.take k) 0 = some k := by
  have short := closeBrackets_opener_le opens closed
  have length : (rest.take k).length = k := by
    rw [List.length_take]
    omega
  refine ⟨length, ?_⟩
  rw [← List.take_append_drop k rest, ← List.cons_append] at closed
  have alone := closeBrackets_front closed (by simp [length]) []
  rwa [List.append_nil, ← matchingBracket_zero opens] at alone

theorem closeAngle_sound {afterName : Bool} {tokens : List Token} {k : Nat}
    (h : closeAngle afterName tokens = some k) :
    ∃ inner u after, tokens = inner ++ u :: after ∧ inner.length = k ∧ u.isMark ">" = true ∧
      Arguments afterName inner := by
  fun_induction closeAngle afterName tokens generalizing k with
  | case1 => cases h
  | case2 afterName t rest ends =>
    cases h
    exact ⟨[], t, rest, rfl, rfl, ends, .nil afterName⟩
  | case3 => cases h
  | case4 afterName t rest noEnd opens j closed ih =>
    obtain ⟨k', found, rfl⟩ := Option.map_eq_some_iff.mp h
    obtain ⟨inner, u, after, split, rfl, ends, behind⟩ := ih found
    obtain ⟨length, group⟩ := matchingBracket_take opens closed
    refine ⟨t :: rest.take j ++ inner, u, after, ?_, ?_, ends, .bracket opens ?_ behind⟩
    · rw [List.append_assoc, ← split, List.cons_append, List.take_append_drop]
    · simp only [List.cons_append, List.length_cons, List.length_append, length]
      omega
    · rw [length, group]
  | case5 => cases h
  | case6 => cases h
  | case7 afterName t rest noEnd noOpener noStop nests j closed first ih =>
    obtain ⟨k', found, rfl⟩ := Option.map_eq_some_iff.mp h
    obtain ⟨arguments, v, behind, rfl, rfl, ends, inside⟩ := first closed
    obtain ⟨inner, u, after, split, rfl, ends', others⟩ := ih found
    obtain ⟨angle, rfl⟩ := Bool.and_eq_true_iff.mp nests
    have rest : behind = inner ++ u :: after := by simpa using split
    refine ⟨t :: arguments ++ v :: inner, u, after, ?_, ?_, ends', .list angle inside ends others⟩
    · simp [rest]
    · simp only [List.cons_append, List.length_cons, List.length_append]
      omega
  | case8 afterName t rest noEnd noOpener noStop single ih =>
    obtain ⟨k', found, rfl⟩ := Option.map_eq_some_iff.mp h
    obtain ⟨inner, u, after, rfl, rfl, ends, behind⟩ := ih found
    have ordinary : Ordinary afterName t := by
      simp only [Bool.or_eq_true, not_or, Bool.not_eq_true] at noEnd noOpener noStop single
      exact ⟨noOpener, noStop.1, noStop.2, noEnd, single⟩
    exact ⟨t :: inner, u, after, rfl, rfl, ends, .single ordinary behind⟩

theorem noEnd_of_isOpener {t : Token} (opens : isOpener t = true) : t.isMark ">" = false := by
  refine Bool.eq_false_iff.mpr fun ends => ?_
  have other : closerFor t = none :=
    closerFor_of_ne fun mark member => Token.not_isMark_of_mark ends (by revert mark; decide)
  simp [isOpener, other] at opens

theorem closeAngle_bracket {t : Token} {group : List Token} (opens : isOpener t = true)
    (closed : matchingBracket (t :: group) 0 = some group.length) (afterName : Bool)
    (rest : List Token) :
    closeAngle afterName (t :: group ++ rest) =
      (closeAngle false rest).map (· + (group.length + 1)) := by
  rw [matchingBracket_zero opens, ← List.append_nil (t :: group)] at closed
  have again := closeBrackets_front closed (by simp) rest
  rw [List.cons_append] at again
  simp [closeAngle, noEnd_of_isOpener opens, opens, again]

theorem closeAngle_list {t : Token} (angle : t.isMark "<" = true) {rest : List Token} {k : Nat}
    (closed : closeAngle false rest = some k) :
    closeAngle true (t :: rest) = (closeAngle false (rest.drop (k + 1))).map (· + (k + 2)) := by
  have other (mark : String) (ne : "<".toList ≠ mark.toList) : t.isMark mark = false :=
    Token.not_isMark_of_mark angle ne
  have noOpener : isOpener t = false := by simp [isOpener, closerFor, other]
  have noCloser : isCloser t = false := by simp [isCloser, Token.isMarkIn, other]
  simp [closeAngle, other, noOpener, noCloser, angle, closed]

theorem closeAngle_complete {afterName : Bool} {inner : List Token}
    (arguments : Arguments afterName inner) {u : Token} (ends : u.isMark ">" = true)
    (after : List Token) : closeAngle afterName (inner ++ u :: after) = some inner.length := by
  induction arguments generalizing u after with
  | nil afterName => simp [closeAngle, ends]
  | @single afterName t rest ordinary _ ih =>
    obtain ⟨noOpener, noCloser, noStop, noEnd, noList⟩ := ordinary
    simp [closeAngle, noOpener, noCloser, noStop, noEnd, noList, ih ends after]
  | @bracket afterName t group rest opens closed _ ih =>
    have length : (t :: group ++ rest).length = rest.length + (group.length + 1) := by
      simp only [List.cons_append, List.length_cons, List.length_append]
      omega
    rw [length, List.append_assoc, closeAngle_bracket opens closed, ih ends after, Option.map_some]
  | @list t v inner rest angle _ ends' _ first ih =>
    have nested := first ends' (rest ++ u :: after)
    have length : (t :: inner ++ v :: rest).length = rest.length + (inner.length + 2) := by
      simp only [List.cons_append, List.length_cons, List.length_append]
      omega
    have behind : (inner ++ v :: (rest ++ u :: after)).drop (inner.length + 1) =
        rest ++ u :: after := by simp
    rw [length, List.append_assoc, List.cons_append, List.cons_append, closeAngle_list angle nested,
      behind, ih ends after, Option.map_some]

/-- A list is closed by the closing angle behind its arguments. -/
theorem closeAngle_iff {afterName : Bool} {tokens : List Token} {k : Nat} :
    closeAngle afterName tokens = some k ↔
      (∃ u, tokens[k]? = some u ∧ u.isMark ">" = true) ∧ Arguments afterName (tokens.take k) := by
  constructor
  · intro h
    obtain ⟨inner, u, after, rfl, rfl, ends, arguments⟩ := closeAngle_sound h
    exact ⟨⟨u, by simp, ends⟩, by simpa using arguments⟩
  · rintro ⟨⟨u, here, ends⟩, arguments⟩
    have short : k < tokens.length := (List.getElem?_eq_some_iff.mp here).1
    have found := closeAngle_complete arguments ends (tokens.drop (k + 1))
    rw [← drop_of_getElem? here, List.take_append_drop, List.length_take] at found
    rw [found, Nat.min_eq_left (Nat.le_of_lt short)]

/-- The index of the angle that closes the template argument list opened at an index, where an angle
behind an identifier may also be a less-than sign. -/
def matchingAngleOrCompare (tokens : List Token) (index : Nat) : Option Nat :=
  match tokens[index]? with
  | none => none
  | some t =>
    if t.isMark "<" && followsName tokens index then
      (closeAngleOrCompare false (tokens.drop (index + 1))).map (index + 1 + ·)
    else none

/-- What stands from one index to another is a template argument list behind an identifier. -/
structure ArgumentList (tokens : List Token) (index last : Nat) : Prop where
  opens : ∃ t, tokens[index]? = some t ∧ t.isMark "<" = true
  named : followsName tokens index = true
  lt : index < last
  ends : ∃ u, tokens[last]? = some u ∧ u.isMark ">" = true
  arguments : Arguments false ((tokens.take last).drop (index + 1))

theorem matchingAngle_iff {tokens : List Token} {index last : Nat} :
    matchingAngle tokens index = some last ↔ ArgumentList tokens index last := by
  have inside (k : Nat) :
      (tokens.take (index + 1 + k)).drop (index + 1) = (tokens.drop (index + 1)).take k := by
    rw [List.drop_take, Nat.add_sub_cancel_left]
  constructor
  · intro h
    unfold matchingAngle at h
    split at h
    · cases h
    · rename_i t here
      split at h
      · rename_i nests
        obtain ⟨angle, named⟩ := Bool.and_eq_true_iff.mp nests
        obtain ⟨k, closed, rfl⟩ := Option.map_eq_some_iff.mp h
        obtain ⟨⟨u, there, ends⟩, arguments⟩ := closeAngle_iff.mp closed
        rw [List.getElem?_drop] at there
        exact ⟨⟨t, here, angle⟩, named, by omega, ⟨u, there, ends⟩, (inside k).symm ▸ arguments⟩
      · cases h
  · rintro ⟨⟨t, here, angle⟩, named, lt, ⟨u, there, ends⟩, arguments⟩
    obtain ⟨k, rfl⟩ := Nat.exists_eq_add_of_le (Nat.succ_le_of_lt lt)
    have closed : closeAngle false (tokens.drop (index + 1)) = some k := by
      refine closeAngle_iff.mpr ⟨⟨u, ?_, ends⟩, inside k ▸ arguments⟩
      rw [List.getElem?_drop]
      exact there
    simp [matchingAngle, here, angle, named, closed]

/-- The search for the end of a template argument list finds what a search with second thoughts
would find, and it finds the end of every such list and nothing else. -/
theorem matchingAngle_arguments (tokens : List Token) (index : Nat) :
    matchingAngle tokens index = matchingAngleOrCompare tokens index ∧
      (∀ last, matchingAngle tokens index = some last ↔ ArgumentList tokens index last) ∧
      ∀ i j, ArgumentList tokens index i → ArgumentList tokens index j → i = j := by
  refine ⟨?_, fun last => matchingAngle_iff, fun i j first second => ?_⟩
  · cases here : tokens[index]? with
    | none => simp [matchingAngle, matchingAngleOrCompare, here]
    | some t => simp [matchingAngle, matchingAngleOrCompare, here, closeAngle_eq_orCompare]
  · have found := matchingAngle_iff.mpr first
    exact Option.some.inj (found.symm.trans (matchingAngle_iff.mpr second))

def nestedTokens : List Token := (Lexer.lex 1 "f<a<b, (1 < 2)> x".toList).tokens

/-- The only closing angle ends the inner list, with a comparison in a group, and so the outer angle
opens none. -/
theorem matchingAngle_arguments_nested :
    ArgumentList nestedTokens 3 11 ∧ ∀ last, ¬ ArgumentList nestedTokens 1 last := by
  obtain ⟨_, inner, _⟩ := matchingAngle_arguments nestedTokens 3
  obtain ⟨_, outer, _⟩ := matchingAngle_arguments nestedTokens 1
  refine ⟨(inner 11).mp (by decide +kernel), fun last list => ?_⟩
  have open_ : matchingAngle nestedTokens 1 = none := by decide +kernel
  rw [(outer last).mpr list] at open_
  cases open_

end MemberLift.Group
