import MemberLift.Proofs.Declaration.Account
import MemberLift.Proofs.Declaration.Declarator
import MemberLift.Proofs.Token.Thinned

/-!
Parameters without a name.  The last word of a declarator is taken for its name if another word
stands in front of it, so of a qualified or elaborated type without a name it is the type's name
that the parameter is said to declare, unless that is a keyword.  A keyword is never a name except
in the parenthesis of a function pointer or reference (`Declaration.ofTokens_typeNames`).
-/
namespace MemberLift

open MemberLift.Group

namespace Group

/-- Whether a token is an item of its own wherever it stands in a declarator. -/
structure Flat (t : Token) : Prop where
  inert : Inert t
  noParenthesis : t.isMark "(" = false
  noBracket : t.isMark "[" = false
  noEquals : t.isMark "=" = false

theorem Flat.of_identifier {t : Token} (identifier : t.isIdentifier = true) : Flat t where
  inert := .of_identifier identifier
  noParenthesis := Token.not_isMark_of_identifier identifier "("
  noBracket := Token.not_isMark_of_identifier identifier "["
  noEquals := Token.not_isMark_of_identifier identifier "="

theorem items_equals {t : Token} (mark : t.isMark "=" = true) (afterName : Bool)
    (rest : List Token) : ∃ behind, items afterName (t :: rest) = [t] :: behind :=
  ⟨_, items_inert (.of_mark mark (by decide)) afterName rest⟩

end Group

namespace Parameter

theorem itemsOf_declarator_flat {front : List Token} (flat : ∀ t ∈ front, Flat t) {last : Token}
    (identifier : last.isIdentifier = true) {default : List Token}
    (equals : ∀ t ∈ default.head?, t.isMark "=" = true) :
    itemsOf (declarator (front ++ last :: default)) = (front ++ [last]).map fun t => [t] := by
  have all : ∀ item ∈ (front ++ [last]).map (fun t => [t]), headMark "=" item = false := by
    simpa [headMark, or_imp, forall_and] using
      ⟨fun t member => (flat t member).noEquals, (Flat.of_identifier identifier).noEquals⟩
  have rest : (items last.isIdentifier default).takeWhile (!headMark "=" ·) = [] := by
    cases default with
    | nil => simp [items]
    | cons t more =>
      obtain ⟨behind, split⟩ := items_equals (equals t rfl) last.isIdentifier more
      rw [split, List.takeWhile_cons_of_neg]
      simp [headMark, equals t rfl]
  rw [itemsOf_declarator, itemsOf,
    items_inerts (fun t member => (flat t member).inert) (.of_identifier identifier),
    List.takeWhile_append_of_pos fun item member => by simp [all item member], rest,
    List.append_nil]

def Passed (item : List Token) : Prop :=
  headMark "(" item = true → item.length ≠ 1 ∧ isPointerGroup item = false

theorem findName_passed {all front : List (List Token)} (passed : ∀ item ∈ front, Passed item)
    (index : Nat) (rest : List (List Token)) :
    findName all index (front ++ rest) = findName all (index + size front) rest := by
  induction front generalizing index with
  | nil => rfl
  | cons item front ih =>
    have behind := ih (fun other member => passed other (List.mem_cons_of_mem item member))
      (index + item.length)
    have place : index + item.length + size front = index + size (item :: front) := by
      simp only [size, List.flatten_cons, List.length_append]
      omega
    have here := passed item List.mem_cons_self
    rw [List.cons_append, findName, behind, place]
    split
    · rename_i opens
      rw [if_neg (here opens).1, (here opens).2, if_neg Bool.false_ne_true]
    · rfl

theorem findName_plain {all items : List (List Token)} (passed : ∀ item ∈ items, Passed item)
    (index : Nat) : findName all index items = plainName all := by
  rw [← List.append_nil items, findName_passed passed, findName]

/-- The parts of a declarator whose first function pointer or reference has a name, which ends its
parenthesis. -/
structure Pointer (items front : List (List Token)) (inner : List Token) (name closer : Token)
    (back : List (List Token)) : Prop where
  items : items = front ++ (inner ++ [name, closer]) :: back
  passed : ∀ item ∈ front, Passed item
  opens : headMark "(" (inner ++ [name, closer]) = true
  group : isPointerGroup (inner ++ [name, closer]) = true

theorem Pointer.findName {items front back : List (List Token)} {inner : List Token}
    {name closer : Token} (h : Pointer items front inner name closer back)
    (all : List (List Token)) :
    findName all 0 items = some (size front + inner.length) := by
  have long : (inner ++ [name, closer]).length = inner.length + 2 := List.length_append
  rw [h.items, findName_passed h.passed, Parameter.findName, if_pos h.opens, if_neg (by omega),
    if_pos h.group, long, Nat.zero_add]
  rfl

theorem findName_cases {all items : List (List Token)} {index k : Nat}
    (h : findName all index items = some k) :
    plainName all = some k ∨ ∃ front inner name closer back,
      Pointer items front inner name closer back := by
  induction items generalizing index with
  | nil => exact .inl h
  | cons item rest ih =>
    by_cases passed : Passed item
    · have alone : ∀ other ∈ [item], Passed other := by simpa using passed
      rw [← List.singleton_append, findName_passed alone] at h
      refine (ih h).imp_right ?_
      rintro ⟨front, inner, name, closer, back, rfl, others, opens, group⟩
      exact ⟨item :: front, inner, name, closer, back, rfl,
        List.forall_mem_cons.mpr ⟨passed, others⟩, opens, group⟩
    · simp only [Passed, Classical.not_imp, not_and, Bool.not_eq_false] at passed
      obtain ⟨opens, stops⟩ := passed
      rw [findName, if_pos opens] at h
      split at h
      · cases h
      · rename_i long
        obtain ⟨inner, name, closer, rfl, _⟩ := isPointerGroup_name (stops long)
        exact .inr ⟨[], inner, name, closer, rest, rfl, by simp, opens, stops long⟩

theorem Plain.last_flat {tokens : List Token} (flat : ∀ t ∈ tokens, Flat t)
    {front extents : List (List Token)} {name : Token}
    (plain : Plain (tokens.map fun t => [t]) front name extents) : tokens.getLast? = some name := by
  have noExtents : extents = [] := by
    refine List.eq_nil_iff_forall_not_mem.mpr fun item member => ?_
    have inside : item ∈ tokens.map fun t => [t] := by
      rw [plain.items]
      simp [member]
    obtain ⟨t, listed, rfl⟩ := List.mem_map.mp inside
    have bracket := plain.extents [t] member
    exact absurd (bracket.symm.trans (flat t listed).noBracket) (by decide)
  have last := congrArg List.getLast? plain.items
  rw [noExtents, List.getLast?_concat, List.getLast?_map] at last
  obtain ⟨t, found, same⟩ := Option.map_eq_some_iff.mp last
  cases same
  exact found

theorem nameIndex_flat {front : List Token} (nonempty : front ≠ []) (flat : ∀ t ∈ front, Flat t)
    (unqualified : (front.getLast?.map (·.isMark "::")).getD false = false) {last : Token}
    (identifier : last.isIdentifier = true) {default : List Token}
    (equals : ∀ t ∈ default.head?, t.isMark "=" = true) :
    (ofTokens (front ++ last :: default)).nameIndex =
      if typeKeywords.contains last.text then none else some front.length := by
  have all : ∀ t ∈ front ++ [last], Flat t := by
    simpa [or_imp, forall_and] using ⟨flat, Flat.of_identifier identifier⟩
  have found : (ofTokens (front ++ last :: default)).nameIndex =
      plainName ((front ++ [last]).map fun t => [t]) := by
    have split := itemsOf_declarator_flat flat identifier equals
    simp only [ofTokens, split]
    refine findName_plain (fun item member opens => ?_) 0
    obtain ⟨t, listed, rfl⟩ := List.mem_map.mp member
    exact absurd (opens.symm.trans (all t listed).noParenthesis) (by decide)
  rw [found]
  cases keyword : typeKeywords.contains last.text with
  | true =>
    rw [if_pos rfl]
    refine Option.eq_none_iff_forall_ne_some.mpr fun k named => ?_
    obtain ⟨before, name, extents, plain, _⟩ := plain_of_plainName named
    have same := plain.last_flat all
    rw [List.getLast?_concat] at same
    cases same
    exact absurd (keyword.symm.trans plain.noKeyword) (by decide)
  | false =>
    have length : size (front.map fun t => [t]) = front.length := by
      rw [size, ← List.flatMap_def, List.flatMap_singleton']
    have plain : Plain ((front ++ [last]).map fun t => [t]) (front.map fun t => [t]) last [] := by
      refine ⟨by simp, mt List.map_eq_nil_iff.mp nonempty, identifier, keyword, ?_, by simp⟩
      rw [List.getLast?_map, Option.bind_map]
      cases ends : front.getLast? with
      | none => rfl
      | some t =>
        rw [ends] at unqualified
        exact unqualified
    rw [plain.plainName, length]
    rfl

/-- The name of a declarator of words is its last word, unless that is a keyword. -/
theorem nameIndex_words {words : List Token} (nonempty : words ≠ [])
    (identifiers : ∀ t ∈ words, t.isIdentifier = true) {last : Token}
    (identifier : last.isIdentifier = true) {default : List Token}
    (equals : ∀ t ∈ default.head?, t.isMark "=" = true) :
    (ofTokens (words ++ last :: default)).nameIndex =
      if typeKeywords.contains last.text then none else some words.length := by
  refine nameIndex_flat nonempty (fun t member => .of_identifier (identifiers t member)) ?_
    identifier equals
  cases ends : words.getLast? with
  | none => rfl
  | some t =>
    exact Token.not_isMark_of_identifier (identifiers t (List.mem_of_getLast? ends)) "::"

end Parameter

namespace Declaration

def typePrefixes : List Text :=
  ["const", "volatile", "typename", "struct", "class", "enum"].map String.toList

/-- A parameter is called by a keyword exactly if its first function pointer or reference ends its
parenthesis with one. -/
theorem keyword_iff {tokens : List Token} :
    (∃ k name, (Parameter.ofTokens tokens).nameIndex = some k ∧ tokens[k]? = some name ∧
        typeKeywords.contains name.text = true) ↔
      ∃ front inner name closer back,
        Parameter.Pointer (itemsOf (Parameter.declarator tokens)) front inner name closer back ∧
          typeKeywords.contains name.text = true := by
  have named {front back : List (List Token)} {inner : List Token} {name closer : Token}
      (pointer : Parameter.Pointer (itemsOf (Parameter.declarator tokens)) front inner name closer
        back) :
      (Parameter.ofTokens tokens).nameIndex = some (Parameter.size front + inner.length) ∧
        tokens[Parameter.size front + inner.length]? = some name := by
    have found := pointer.findName (itemsOf (Parameter.declarator tokens))
    obtain ⟨default, split⟩ := Parameter.declarator_append tokens
    have inside : (Parameter.declarator tokens)[Parameter.size front + inner.length]? =
        some name := by
      rw [← items_flatten false (Parameter.declarator tokens), ← itemsOf, pointer.items]
      simp [Parameter.size]
    refine ⟨found, ?_⟩
    rw [split, List.getElem?_append_left (List.getElem?_eq_some_iff.mp inside).1, inside]
  constructor
  · rintro ⟨k, name, found, place, keyword⟩
    obtain plain | ⟨front, inner, name', closer, back, pointer⟩ := Parameter.findName_cases found
    · obtain ⟨front, name', extents, split, rfl⟩ := Parameter.plain_of_plainName plain
      obtain ⟨name'', inside, place', _⟩ := Parameter.name?_ofTokens found
      have here := (Parameter.Names.plain split).getElem?
      rw [itemsOf, items_flatten, inside] at here
      rw [place'] at place
      cases here
      cases place
      exact absurd (keyword.symm.trans split.noKeyword) (by decide)
    · obtain ⟨found', place'⟩ := named pointer
      rw [found] at found'
      cases found'
      rw [place] at place'
      cases place'
      exact ⟨front, inner, name, closer, back, pointer, keyword⟩
  · rintro ⟨front, inner, name, closer, back, pointer, keyword⟩
    obtain ⟨found, place⟩ := named pointer
    exact ⟨_, name, found, place, keyword⟩

theorem error_of_unnamed {stripMacros : List Text} {source heads rest : List Token} {parts : Parts}
    (split : templateHeads source = .ok (heads, rest))
    (found : findParameters [] (itemsOf rest) = .ok parts) {p : Parameter}
    (listed : p ∈ parameters parts.group.tail.dropLast) (unnamed : p.nameIndex = none) :
    ∃ fault, ofTokens stripMacros source = .error fault := by
  cases parsed : ofTokens stripMacros source with
  | error fault => exact ⟨fault, rfl⟩
  | ok d =>
    obtain ⟨rest', parts', _, heads', found', _, _, _, params, named, _⟩ := ofTokens_ok parsed
    rw [split] at heads'
    cases heads'
    rw [found] at found'
    cases found'
    rw [← params] at listed
    exact absurd unnamed (named_of_unnamed named p listed)

/-- A parameter of a qualified or elaborated type and nothing else is said to declare the name of
the type, with or without a default argument, unless that name is a keyword.  It is called by a
keyword exactly if its first function pointer or reference is.  A declaration with a parameter that
is said to declare no name is a fault. -/
theorem ofTokens_typeNames (tokens : List Token) :
    (∀ (words : List Token) (last : Token) (default : List Token),
      tokens = words ++ last :: default → words ≠ [] →
        (∀ t ∈ words, t.isWordIn typePrefixes = true) → last.isIdentifier = true →
          (∀ t ∈ default.head?, t.isMark "=" = true) →
            (Parameter.ofTokens tokens).nameIndex =
              if typeKeywords.contains last.text then none else some words.length) ∧
    ((∃ k name, (Parameter.ofTokens tokens).nameIndex = some k ∧ tokens[k]? = some name ∧
        typeKeywords.contains name.text = true) ↔
      ∃ front inner name closer back,
        Parameter.Pointer (itemsOf (Parameter.declarator tokens)) front inner name closer back ∧
          typeKeywords.contains name.text = true) ∧
    ((Parameter.ofTokens tokens).nameIndex = none →
      ∀ (stripMacros : List Text) (source heads rest : List Token) (parts : Parts),
        templateHeads source = .ok (heads, rest) → findParameters [] (itemsOf rest) = .ok parts →
          Parameter.ofTokens tokens ∈ parameters parts.group.tail.dropLast →
            ∃ fault, ofTokens stripMacros source = .error fault) := by
  refine ⟨fun words last default whole nonempty prefixes identifier equals => ?_, keyword_iff,
    fun unnamed stripMacros source heads rest parts split found listed =>
      error_of_unnamed split found listed unnamed⟩
  rw [whole]
  refine Parameter.nameIndex_words nonempty (fun t member => ?_) identifier equals
  have holds := prefixes t member
  rw [Token.isWordIn, Bool.and_eq_true] at holds
  exact holds.1

def constWord : Token := ⟨.identifier, "const".toList, [], 1⟩

def handleWord : Token := ⟨.identifier, "handle".toList, [' '], 1⟩

def intWord : Token := ⟨.identifier, "int".toList, [' '], 1⟩

def pointerTokens : List Token := (Lexer.lex 1 "void (*const)(int)".toList).tokens

def unnamedTokens : List Token := (Lexer.lex 1 "void f(const int)".toList).tokens

/-- A name of a type behind const, with a default argument, a constant function pointer, and a
declaration with a keyword behind const. -/
theorem ofTokens_typeNames_const :
    (Parameter.ofTokens
        ([constWord] ++ handleWord :: (Lexer.lex 1 "= {}".toList).tokens)).nameIndex = some 1 ∧
      (∃ front inner name closer back,
        Parameter.Pointer (itemsOf (Parameter.declarator pointerTokens)) front inner name closer
            back ∧
          typeKeywords.contains name.text = true) ∧
      ∃ fault, ofTokens [] unnamedTokens = .error fault := by
  refine ⟨?_, ?_, ?_⟩
  · exact (ofTokens_typeNames ([constWord] ++ handleWord :: (Lexer.lex 1 "= {}".toList).tokens)).1
      [constWord] handleWord (Lexer.lex 1 "= {}".toList).tokens rfl (by decide) (by decide)
      (by decide) (by decide +kernel)
  · exact (ofTokens_typeNames pointerTokens).2.1.mp
      ⟨3, constWord, by decide +kernel, by decide +kernel, by decide⟩
  · exact (ofTokens_typeNames [constWord, intWord]).2.2 (by decide +kernel) [] unnamedTokens []
      unnamedTokens ⟨unnamedTokens.take 2, unnamedTokens.drop 2, []⟩
      (ok_of_mem_toOption (by decide +kernel)) (ok_of_mem_toOption (by decide +kernel))
      (by decide +kernel)

end Declaration

end MemberLift
