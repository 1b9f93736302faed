import MemberLift.Proofs.Declaration.Account

/-!
Constraints of declarations.  A requires-clause behind the parameters is a fault, in front of a
trailing return type and behind it.  A clause in front of the name is not looked for, so it is
carried into the head (`Declaration.ofTokens_constrained`).
-/
namespace MemberLift

open MemberLift.Group

namespace Declaration

/-- Whether a requires-clause stands among items. -/
def Constrained (items : List (List Token)) : Prop :=
  ∃ item ∈ items, headWord "requires" item = true

theorem readTrailing_unconstrained {name : Text} {arrow : Bool} {q q' : Qualifiers}
    {items : List (List Token)} (whole : ∀ item ∈ items, Whole item)
    (h : readTrailing name arrow q items = .ok q') : ¬ Constrained items := by
  induction items generalizing arrow q with
  | nil => simp [Constrained]
  | cons item rest ih =>
    have first := readTrailing_constraint h
    have wholeRest := fun other member => whole other (List.mem_cons_of_mem item member)
    have cons (behind : ¬ Constrained rest) : ¬ Constrained (item :: rest) := by
      rintro ⟨other, member, clause⟩
      rcases List.mem_cons.mp member with rfl | member
      · exact first clause
      · exact behind ⟨other, member, clause⟩
    refine cons ?_
    cases arrow with
    | true =>
      rw [readTrailing, if_neg first, if_pos rfl] at h
      exact ih wholeRest h
    | false =>
      cases readTrailing_step h with
      | isConst _ _ read => exact ih wholeRest read
      | isVolatile _ _ _ read => exact ih wholeRest read
      | skipped _ _ _ _ read => exact ih wholeRest read
      | arrow _ read => exact ih wholeRest read
      | kept _ _ _ _ _ read => exact ih wholeRest read
      | pure _ zero _ =>
        obtain ⟨t, rfl, text⟩ := isPure_some wholeRest zero
        rintro ⟨other, member, clause⟩
        rw [List.mem_singleton.mp member] at clause
        have spelled : t.isWord "requires" = true := clause
        simp [Token.isWord, text] at spelled

theorem itemsOf_specifiers {tokens specifiers : List Token} {passed back : List (List Token)}
    {name : Token} (items : itemsOf tokens = passed ++ back)
    (before : passed.flatten = specifiers ++ [name]) (identifier : name.isIdentifier = true) :
    passed = itemsOf specifiers ++ [[name]] := by
  have whole := items_whole false tokens
  rw [← itemsOf, items] at whole
  obtain ⟨start, rfl, spelled⟩ := last_item
    (fun item member => whole item (List.mem_append_left back member)) before
    fun mark _ => Token.not_isMark_of_identifier identifier mark
  rw [List.append_assoc] at items
  rw [itemsOf, ← spelled, items_front items]

theorem Constrained.append {front back : List (List Token)} (h : Constrained (front ++ back)) :
    Constrained front ∨ Constrained back := by
  obtain ⟨item, member, clause⟩ := h
  rcases List.mem_append.mp member with inside | inside
  · exact .inl ⟨item, inside, clause⟩
  · exact .inr ⟨item, inside, clause⟩

theorem head_constrained {specifiers : List Token} (h : Constrained (itemsOf specifiers))
    {stripMacros : List Text} (kept : "requires".toList ∉ stripMacros) :
    ∃ t ∈ specifiers.filter fun t => !isStripped stripMacros t, t.isWord "requires" = true := by
  obtain ⟨item, member, clause⟩ := h
  have inside : ∀ t ∈ item, t ∈ specifiers := fun t here => by
    rw [← items_flatten false specifiers]
    exact List.mem_flatten_of_mem member here
  cases item with
  | nil => cases clause
  | cons t more =>
    have word : t.isWord "requires" = true := clause
    refine ⟨t, List.mem_filter.mpr ⟨inside t List.mem_cons_self, ?_⟩, word⟩
    rw [Token.isWord, Bool.and_eq_true] at word
    have text : t.text = "requires".toList := of_decide_eq_true word.2
    have noSpecifier : memberWords.contains "requires".toList = false := by decide
    have noMacro : stripMacros.contains "requires".toList = false := by
      rw [List.contains_eq_mem]
      exact decide_eq_false kept
    rw [isStripped, Token.isWordIn, Token.isWordIn, text, noSpecifier, noMacro, Bool.and_false,
      Bool.or_false, Bool.not_false]

theorem not_isWord_of_mayBeName {t : Token} (named : mayBeName t = true) {word : String}
    (operand : word.toList ∈ operandWords) : t.isWord word = false := by
  rw [mayBeName, Bool.and_eq_true, Bool.not_eq_true'] at named
  rw [Token.isWord, Bool.and_eq_false_iff]
  refine .inr (decide_eq_false fun same => ?_)
  simp [same, operand] at named

theorem not_headWord_of_headMark {item : List Token} {mark : String}
    (opens : headMark mark item = true) (word : String) : headWord word item = false := by
  cases item with
  | nil => rfl
  | cons t more =>
    have holds : t.isMark mark = true := opens
    rw [headWord, List.head?_cons, Option.map_some, Option.getD_some, Bool.eq_false_iff]
    intro spelled
    rw [Token.not_isMark_of_word spelled mark] at holds
    cases holds

theorem constrained_specifiers {tokens : List Token} {parts : Parts} {name : Token}
    (found : findParameters [] (itemsOf tokens) = .ok parts)
    (last : parts.before.getLast? = some name) (clause : Constrained (itemsOf tokens))
    (noneBehind : ¬ Constrained (itemsOf parts.after)) :
    Constrained (itemsOf parts.before.dropLast) := by
  obtain ⟨passed, back, items, before, after, opens, closed, _⟩ := findParameters_ok found
  have named := findParameters_name found last
  have identifier := named
  rw [mayBeName, Bool.and_eq_true] at identifier
  obtain ⟨specifiers, split⟩ := List.getLast?_eq_some_iff.mp last
  rw [split, List.nil_append] at before
  rw [split, List.dropLast_concat]
  rw [after, itemsOf, items_behind items closed] at noneBehind
  rw [items, itemsOf_specifiers items before.symm identifier.1, List.append_assoc] at clause
  rcases clause.append with inFront | ⟨item, member, word⟩
  · exact inFront
  · rcases List.mem_cons.mp member with rfl | member
    · have operand : "requires".toList ∈ operandWords := by decide
      have noWord := not_isWord_of_mayBeName named operand
      rw [headWord, List.head?_cons, Option.map_some, Option.getD_some, noWord] at word
      cases word
    · rcases List.mem_cons.mp member with rfl | member
      · rw [not_headWord_of_headMark opens] at word
        cases word
      · exact absurd ⟨item, member, word⟩ noneBehind

/-- A declaration with a requires-clause at top level behind its template heads is a fault, unless
the clause stands in front of the name, where it is taken for a part of the head. -/
theorem ofTokens_constrained {stripMacros : List Text} {source heads rest : List Token}
    (split : templateHeads source = .ok (heads, rest)) (clause : Constrained (itemsOf rest)) :
    (∃ fault, ofTokens stripMacros source = .error fault) ∨
      ∃ d specifiers list after, ofTokens stripMacros source = .ok d ∧
        Sourced stripMacros source d specifiers list after ∧
        Constrained (itemsOf specifiers) ∧ ¬ Constrained (itemsOf after) ∧
        ("requires".toList ∉ stripMacros → ∃ t ∈ d.head, t.isWord "requires" = true) := by
  cases parsed : ofTokens stripMacros source with
  | error fault => exact .inl ⟨fault, rfl⟩
  | ok d =>
    obtain ⟨rest', parts, split', found, last, sourced⟩ := ofTokens_parts parsed
    rw [split] at split'
    cases split'
    obtain ⟨q, read, _⟩ := sourced.trailing
    have noneBehind := readTrailing_unconstrained (items_whole false parts.after) read
    have inFront := constrained_specifiers found last clause noneBehind
    refine .inr ⟨d, _, _, _, rfl, sourced, inFront, noneBehind, fun kept => ?_⟩
    rw [sourced.head]
    exact head_constrained inFront kept

def clauseTokens : List Token :=
  (Lexer.lex 1 "template <class T> requires C<T> void f(T x)".toList).tokens

theorem ofTokens_constrained_template :
    templateHeads clauseTokens = .ok (clauseTokens.take 5, clauseTokens.drop 5) ∧
      Constrained (itemsOf (clauseTokens.drop 5)) ∧
      ((∃ fault, ofTokens [] clauseTokens = .error fault) ∨
        ∃ d specifiers list after, ofTokens [] clauseTokens = .ok d ∧
          Sourced [] clauseTokens d specifiers list after ∧
          Constrained (itemsOf specifiers) ∧ ¬ Constrained (itemsOf after) ∧
          ("requires".toList ∉ ([] : List Text) → ∃ t ∈ d.head, t.isWord "requires" = true)) := by
  have split : templateHeads clauseTokens = .ok (clauseTokens.take 5, clauseTokens.drop 5) :=
    ok_of_mem_toOption (by decide +kernel)
  have clause : Constrained (itemsOf (clauseTokens.drop 5)) :=
    List.any_eq_true.mp (by decide +kernel)
  exact ⟨split, clause, ofTokens_constrained split clause⟩

example : (ofTokens [] clauseTokens).toOption.map (fun d => render d.head) =
    some "requires C<T> void".toList := by
  decide +kernel

end Declaration

end MemberLift
