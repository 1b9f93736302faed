import MemberLift.Proofs.Token.Group
import MemberLift.Token.Lexer

/-!
Which bracket closes which.  The brackets that are pending in `closeBrackets` are those that a
properly nested word has opened and not yet closed, so a search ends at the token up to which the
brackets close all of them (`closeBrackets_iff`), and a bracket is matched with the one that ends a
properly nested word with it (`matchingBracket_iff`).
-/
namespace MemberLift.Group

def isBracket (t : Token) : Bool := isOpener t || isCloser t

/-- The brackets of a list, without the tokens between them. -/
def brackets (tokens : List Token) : List Token := tokens.filter isBracket

/-- Properly nested words.  Each opening bracket is closed by one of its own kind, behind what the
two enclose. -/
inductive Nested : List Token → Prop where
  | nil : Nested []
  | group {t u : Token} {c : String} {inner rest : List Token} :
      closerFor t = some c → u.isMark c = true → Nested inner → Nested rest →
        Nested (t :: inner ++ u :: rest)

/-- Properly nested words whose first bracket is closed by the last. -/
inductive Enclosed : List Token → Prop where
  | mk {t u : Token} {c : String} {inner : List Token} :
      closerFor t = some c → u.isMark c = true → Nested inner → Enclosed (t :: inner ++ [u])

/-- Words that close the pending brackets and nothing else, from the innermost on. -/
inductive Closing : List String → List Token → Prop where
  | nil : Closing [] []
  | cons {c : String} {u : Token} {pending : List String} {inner rest : List Token} :
      Nested inner → isCloser u = true → u.isMark c = true → Closing pending rest →
        Closing (c :: pending) (inner ++ u :: rest)

theorem isCloser_of_closerFor {t u : Token} {c : String} (opens : closerFor t = some c)
    (fits : u.isMark c = true) : isCloser u = true :=
  List.any_eq_true.mpr ⟨c, closerFor_mem opens, fits⟩

theorem closerFor_of_isCloser {t : Token} (closes : isCloser t = true) : closerFor t = none := by
  obtain ⟨closer, listed, fits⟩ := List.any_eq_true.mp closes
  have ne : ∀ closer ∈ [")", "]", "\x7d"], ∀ opener ∈ ["(", "[", "\x7b"],
      closer.toList ≠ opener.toList := by decide
  exact closerFor_of_ne fun opener member =>
    Token.not_isMark_of_mark fits (ne closer listed opener member)

theorem Closing.ne_nil {c : String} {pending : List String} {word : List Token}
    (h : Closing (c :: pending) word) : word ≠ [] := by
  cases h with
  | cons => exact List.append_ne_nil_of_right_ne_nil _ (List.cons_ne_nil _ _)

theorem Enclosed.ne_nil {word : List Token} (h : Enclosed word) : word ≠ [] := by
  cases h with
  | mk => exact List.cons_ne_nil _ _

theorem closing_opener {t : Token} {c d : String} (opens : closerFor t = some c)
    {pending : List String} {word : List Token} :
    Closing (d :: pending) (t :: word) ↔ Closing (c :: d :: pending) word := by
  constructor
  · intro h
    generalize whole : t :: word = all at h
    cases h with
    | @cons _ u _ _ rest nested closes fits behind =>
      cases nested with
      | nil =>
        cases whole
        rw [closerFor_of_isCloser closes] at opens
        cases opens
      | @group _ v _ inner between opens' fits' nested between_nested =>
        cases whole
        cases opens.symm.trans opens'
        have outer := Closing.cons between_nested closes fits behind
        have inside := Closing.cons nested (isCloser_of_closerFor opens fits') fits' outer
        simpa using inside
  · intro h
    cases h with
    | @cons _ v _ inner _ nested closes fits behind =>
      cases behind with
      | @cons _ u _ between rest between_nested closes' fits' behind =>
        have group := Nested.group opens fits nested between_nested
        simpa using Closing.cons group closes' fits' behind

theorem closing_closer {t : Token} {c : String} (closes : isCloser t = true)
    {pending : List String} {word : List Token} :
    Closing (c :: pending) (t :: word) ↔ t.isMark c = true ∧ Closing pending word := by
  constructor
  · intro h
    generalize whole : t :: word = all at h
    cases h with
    | cons nested _ fits behind =>
      cases nested with
      | nil =>
        cases whole
        exact ⟨fits, behind⟩
      | group opens =>
        cases whole
        rw [closerFor_of_isCloser closes] at opens
        cases opens
  · rintro ⟨fits, behind⟩
    exact .cons .nil closes fits behind

theorem enclosed_opener {t : Token} {c : String} (opens : closerFor t = some c)
    {word : List Token} : Enclosed (t :: word) ↔ Closing [c] word := by
  constructor
  · rintro ⟨opens', fits, nested⟩
    cases opens.symm.trans opens'
    exact .cons nested (isCloser_of_closerFor opens fits) fits .nil
  · intro h
    cases h with
    | cons nested _ fits behind =>
      cases behind
      exact .mk opens fits nested

theorem brackets_cons_of_pos {t : Token} (bracket : isBracket t = true) (tokens : List Token) :
    brackets (t :: tokens) = t :: brackets tokens := List.filter_cons_of_pos bracket

theorem brackets_cons_of_neg {t : Token} (other : isBracket t = false) (tokens : List Token) :
    brackets (t :: tokens) = brackets tokens :=
  List.filter_cons_of_neg (by simp [other])

/-- The token at an offset is the one with which a word of brackets ends that closes all that is
pending. -/
def ClosesAt (pending : List String) (tokens : List Token) (k : Nat) : Prop :=
  ∃ u, tokens[k]? = some u ∧ isBracket u = true ∧ Closing pending (brackets (tokens.take (k + 1)))

theorem closesAt_opener {t : Token} {c d : String} (opens : closerFor t = some c)
    {pending : List String} {rest : List Token} {k : Nat} :
    ClosesAt (d :: pending) (t :: rest) k ↔
      ∃ j, ClosesAt (c :: d :: pending) rest j ∧ j + 1 = k := by
  have bracket : isBracket t = true := by simp [isBracket, isOpener, opens]
  cases k with
  | zero =>
    have alone : ¬ Closing (c :: d :: pending) (brackets []) := fun h => h.ne_nil rfl
    simp [ClosesAt, brackets_cons_of_pos bracket, closing_opener opens, alone]
  | succ k => simp [ClosesAt, brackets_cons_of_pos bracket, closing_opener opens]

theorem closesAt_other {t : Token} (other : isBracket t = false) {pending : List String}
    {rest : List Token} {k : Nat} :
    ClosesAt pending (t :: rest) k ↔ ∃ j, ClosesAt pending rest j ∧ j + 1 = k := by
  cases k with
  | zero => simp [ClosesAt, other]
  | succ k => simp [ClosesAt, brackets_cons_of_neg other]

theorem closesAt_closer {t : Token} {c d : String} (closes : isCloser t = true)
    {pending : List String} {rest : List Token} {k : Nat} :
    ClosesAt (c :: d :: pending) (t :: rest) k ↔
      t.isMark c = true ∧ ∃ j, ClosesAt (d :: pending) rest j ∧ j + 1 = k := by
  have bracket : isBracket t = true := by simp [isBracket, closes]
  cases k with
  | zero =>
    have alone : ¬ Closing (d :: pending) (brackets []) := fun h => h.ne_nil rfl
    simp [ClosesAt, brackets_cons_of_pos bracket, closing_closer closes, alone]
  | succ k =>
    simp only [ClosesAt, brackets_cons_of_pos bracket, closing_closer closes, List.take_succ_cons,
      List.getElem?_cons_succ, Nat.add_right_cancel_iff, exists_eq_right]
    constructor
    · rintro ⟨u, here, bracket', fits, behind⟩
      exact ⟨fits, u, here, bracket', behind⟩
    · rintro ⟨fits, u, here, bracket', behind⟩
      exact ⟨u, here, bracket', fits, behind⟩

theorem closesAt_last {t : Token} {c : String} (closes : isCloser t = true) {rest : List Token}
    {k : Nat} : ClosesAt [c] (t :: rest) k ↔ t.isMark c = true ∧ 0 = k := by
  have bracket : isBracket t = true := by simp [isBracket, closes]
  constructor
  · rintro ⟨u, here, bracket', behind⟩
    rw [List.take_succ_cons, brackets_cons_of_pos bracket, closing_closer closes] at behind
    refine ⟨behind.1, ?_⟩
    cases k with
    | zero => rfl
    | succ k =>
      -- the word would end with this token, but there is one more bracket behind it
      have member : u ∈ rest.take (k + 1) := List.mem_of_getElem? (i := k) (by simpa using here)
      have inside : u ∈ brackets (rest.take (k + 1)) := List.mem_filter.mpr ⟨member, bracket'⟩
      generalize brackets (rest.take (k + 1)) = word at inside behind
      cases behind.2
      cases inside
  · rintro ⟨fits, rfl⟩
    refine ⟨t, rfl, bracket, ?_⟩
    rw [List.take_succ_cons, brackets_cons_of_pos bracket, closing_closer closes]
    exact ⟨fits, .nil⟩

/-- The search for a closing bracket keeps track of what a word has still to close: an opening
bracket is one more to close, a closing one closes the innermost, any other token changes
nothing. -/
theorem closeBrackets_iff {c : String} {outer : List String} {tokens : List Token} {k : Nat} :
    closeBrackets (c :: outer) tokens = some k ↔ ClosesAt (c :: outer) tokens k := by
  induction tokens generalizing c outer k with
  | nil => simp [closeBrackets, ClosesAt]
  | cons t rest ih =>
    cases opens : closerFor t with
    | some d => simp [closeBrackets, opens, closesAt_opener opens, ih]
    | none =>
      cases closes : isCloser t with
      | false =>
        have other : isBracket t = false := by simp [isBracket, isOpener, opens, closes]
        simp [closeBrackets, opens, closes, closesAt_other other, ih]
      | true =>
        cases outer with
        | nil => simp [closeBrackets, opens, closes, closesAt_last closes]
        | cons d outer => simp [closeBrackets, opens, closes, closesAt_closer closes, ih]

/-- The brackets from one index to another are a properly nested word, whose first bracket is closed
by the token at the second index. -/
structure BracketGroup (tokens : List Token) (index last : Nat) : Prop where
  bracket : ∃ u, tokens[last]? = some u ∧ isBracket u = true
  enclosed : Enclosed (brackets ((tokens.take (last + 1)).drop index))

theorem drop_of_getElem? {tokens : List Token} {index : Nat} {t : Token}
    (here : tokens[index]? = some t) : tokens.drop index = t :: tokens.drop (index + 1) := by
  obtain ⟨short, rfl⟩ := List.getElem?_eq_some_iff.mp here
  exact List.drop_eq_getElem_cons short

theorem bracketGroup_iff {tokens : List Token} {index : Nat} {t : Token} {c : String}
    (here : tokens[index]? = some t) (opens : closerFor t = some c) {last : Nat} :
    BracketGroup tokens index last ↔
      ∃ k, ClosesAt [c] (tokens.drop (index + 1)) k ∧ index + (k + 1) = last := by
  have bracket : isBracket t = true := by simp [isBracket, isOpener, opens]
  have word (k : Nat) : Enclosed (brackets ((tokens.take (index + k + 1)).drop index)) ↔
      Closing [c] (brackets ((tokens.drop (index + 1)).take k)) := by
    have length : index + k + 1 - index = k + 1 := by omega
    rw [List.drop_take, length, drop_of_getElem? here, List.take_succ_cons,
      brackets_cons_of_pos bracket, enclosed_opener opens]
  have place (k : Nat) : (tokens.drop (index + 1))[k]? = tokens[index + (k + 1)]? := by
    rw [List.getElem?_drop, Nat.add_right_comm, Nat.add_assoc]
  constructor
  · rintro ⟨⟨u, there, bracket'⟩, enclosed⟩
    by_cases before : last < index
    · have short : (tokens.take (last + 1)).length ≤ index := by
        rw [List.length_take]
        omega
      rw [List.drop_eq_nil_of_le short] at enclosed
      exact absurd rfl enclosed.ne_nil
    · obtain ⟨k, rfl⟩ := Nat.exists_eq_add_of_le (Nat.le_of_not_lt before)
      have closing := (word k).mp enclosed
      cases k with
      | zero => exact absurd rfl closing.ne_nil
      | succ k => exact ⟨k, ⟨u, (place k).trans there, bracket', closing⟩, rfl⟩
  · rintro ⟨k, ⟨u, there, bracket', closing⟩, rfl⟩
    exact ⟨⟨u, (place k).symm.trans there, bracket'⟩, (word (k + 1)).mpr closing⟩

/-- A bracket is matched with the token that ends a properly nested word with it, and with none if
there is no such word. -/
theorem matchingBracket_iff {tokens : List Token} {index : Nat} {t : Token}
    (here : tokens[index]? = some t) (opens : isOpener t = true) {last : Nat} :
    matchingBracket tokens index = some last ↔ BracketGroup tokens index last := by
  obtain ⟨c, closer⟩ := Option.isSome_iff_exists.mp opens
  simp [matchingBracket, here, opens, drop_of_getElem? here, closeBrackets, closer,
    closeBrackets_iff, bracketGroup_iff here closer]

theorem BracketGroup.lt {tokens : List Token} {index last : Nat} {t : Token}
    (here : tokens[index]? = some t) (opens : isOpener t = true)
    (group : BracketGroup tokens index last) : index < last := by
  obtain ⟨c, closer⟩ := Option.isSome_iff_exists.mp opens
  obtain ⟨k, _, rfl⟩ := (bracketGroup_iff here closer).mp group
  omega

/-- An opening bracket is matched with the token that closes it in a properly nested word of
brackets.  There is at most one such token, it stands behind the bracket, and if there is none the
bracket is not matched. -/
theorem matchingBracket_nested {tokens : List Token} {index : Nat} {t : Token}
    (here : tokens[index]? = some t) (opens : isOpener t = true) :
    (∀ last, matchingBracket tokens index = some last ↔ BracketGroup tokens index last) ∧
      (matchingBracket tokens index = none ↔ ∀ last, ¬ BracketGroup tokens index last) ∧
      (∀ i j, BracketGroup tokens index i → BracketGroup tokens index j → i = j) ∧
      ∀ last, BracketGroup tokens index last → index < last := by
  have matched (last : Nat) : matchingBracket tokens index = some last ↔
      BracketGroup tokens index last := matchingBracket_iff here opens
  refine ⟨matched, ?_, ?_, fun last group => group.lt here opens⟩
  · simp only [Option.eq_none_iff_forall_ne_some, ne_eq, matched]
  · intro i j first second
    exact Option.some.inj (((matched i).mpr first).symm.trans ((matched j).mpr second))

def openParenthesis : Token := ⟨.punctuator, "(".toList, [], 1⟩

def mixedTokens : List Token := (Lexer.lex 1 "(a[1], \"]\" < \x7bb\x7d)".toList).tokens

def crossedTokens : List Token := (Lexer.lex 1 "(a[1)]".toList).tokens

/-- Brackets of all kinds around a literal with a bracket in it and an angle, and brackets that
cross. -/
theorem matchingBracket_nested_mixed :
    (mixedTokens[0]? = some openParenthesis ∧ BracketGroup mixedTokens 0 11) ∧
      crossedTokens[0]? = some openParenthesis ∧ isOpener openParenthesis = true ∧
      ∀ last, ¬ BracketGroup crossedTokens 0 last := by
  have mixed : mixedTokens[0]? = some openParenthesis := by decide +kernel
  have crossed : crossedTokens[0]? = some openParenthesis := by decide +kernel
  have opens : isOpener openParenthesis = true := by decide
  refine ⟨⟨mixed, ?_⟩, crossed, opens, ?_⟩
  · exact ((matchingBracket_nested mixed opens).1 11).mp (by decide +kernel)
  · exact (matchingBracket_nested crossed opens).2.1.mp (by decide +kernel)

end MemberLift.Group
