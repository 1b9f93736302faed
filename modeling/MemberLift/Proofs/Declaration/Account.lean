import MemberLift.Proofs.Declaration.Sources
import MemberLift.Proofs.Token.Group
import MemberLift.Token.Lexer

/-!
Where the tokens of a declaration are.  Its source is the template heads, the specifiers, the name
and the parameter list in parentheses, and what follows.  The head is the specifiers without the
stripped words, the parameters are the list without its commas, and the trailing part is what
follows without the qualifiers of the object, `override`, `final` and the mark of a pure function
(`Declaration.ofTokens_account`).
-/
namespace MemberLift

open MemberLift.Group

namespace Declaration

/-- Whether an item is a single token with a property. -/
def isOne (p : Token → Bool) : List Token → Bool
  | [t] => p t
  | _ => false

theorem isOne_eq {p : Token → Bool}
    (plain : ∀ t, p t = true → closerFor t = none ∧ t.isMark "<" = false)
    {item : List Token} (whole : Whole item) : (item.head?.map p).getD false = isOne p item := by
  cases holds : (item.head?.map p).getD false with
  | true =>
    cases head : item.head? with
    | none =>
      rw [head] at holds
      cases holds
    | some t =>
      rw [head] at holds
      obtain ⟨noCloser, noAngle⟩ := plain t holds
      rw [whole.singleton head noCloser noAngle]
      exact Eq.symm holds
  | false =>
    rcases item with _ | ⟨t, _ | ⟨u, more⟩⟩
    · rfl
    · exact Eq.symm holds
    · rfl

theorem headWord_eq_isOne {item : List Token} (whole : Whole item) (word : String) :
    headWord word item = isOne (·.isWord word) item := by
  refine isOne_eq (fun t holds => ?_) whole
  exact ⟨closerFor_of_ne fun mark _ => Token.not_isMark_of_word holds mark,
    Token.not_isMark_of_word holds "<"⟩

theorem plain_of_text {t : Token} {text : Text} (same : t.text = text)
    (ne : ∀ mark ∈ ["(", "[", "\x7b", "<"], text ≠ mark.toList) :
    closerFor t = none ∧ t.isMark "<" = false := by
  refine ⟨closerFor_of_ne fun mark member => ?_, Token.not_isMark_of_text same (ne "<" (by decide))⟩
  exact Token.not_isMark_of_text same (ne mark (List.mem_append_left ["<"] member))

theorem headMark_eq_isOne {item : List Token} (whole : Whole item) {mark : String}
    (ne : ∀ other ∈ ["(", "[", "\x7b", "<"], mark.toList ≠ other.toList) :
    headMark mark item = isOne (·.isMark mark) item := by
  refine isOne_eq (fun t holds => ?_) whole
  rw [Token.isMark, Bool.and_eq_true] at holds
  exact plain_of_text (of_decide_eq_true holds.2) ne

/-- The qualifiers of the object by their reference, and the words that only a member can have. -/
def isMemberMark (t : Token) : Bool :=
  t.isMark "&" || t.isMark "&&" || t.isWord "override" || t.isWord "final"

/-- Items without the first that is a given word, unless such a word was seen before. -/
def withoutFirst (seen : Bool) (word : String) (items : List (List Token)) : List (List Token) :=
  if seen then items else items.eraseP (isOne (·.isWord word))

/-- What is left of the items behind a parameter list if const and volatile may have been seen
already. -/
def unqualified (isConst isVolatile : Bool) (items : List (List Token)) : List (List Token) :=
  (withoutFirst isVolatile "volatile" (withoutFirst isConst "const" items)).filter
    fun item => !isOne isMemberMark item

theorem withoutFirst_cons {seen : Bool} {word : String} {item : List Token}
    (other : (isOne (·.isWord word) item && !seen) = false) (items : List (List Token)) :
    withoutFirst seen word (item :: items) = item :: withoutFirst seen word items := by
  cases seen with
  | true => rfl
  | false =>
    rw [Bool.not_false, Bool.and_true] at other
    simp [withoutFirst, other]

theorem unqualified_const {item : List Token} (isConst : isOne (·.isWord "const") item = true)
    (isVolatile : Bool) (items : List (List Token)) :
    unqualified false isVolatile (item :: items) = unqualified true isVolatile items := by
  simp [unqualified, withoutFirst, isConst]

theorem unqualified_volatile {isConst : Bool} {item : List Token}
    (noConst : (isOne (·.isWord "const") item && !isConst) = false)
    (isVolatile : isOne (·.isWord "volatile") item = true) (items : List (List Token)) :
    unqualified isConst false (item :: items) = unqualified isConst true items := by
  rw [unqualified, withoutFirst_cons noConst]
  simp [unqualified, withoutFirst, isVolatile]

theorem unqualified_cons {isConst isVolatile : Bool} {item : List Token}
    (noConst : (isOne (·.isWord "const") item && !isConst) = false)
    (noVolatile : (isOne (·.isWord "volatile") item && !isVolatile) = false)
    (items : List (List Token)) :
    unqualified isConst isVolatile (item :: items) =
      if isOne isMemberMark item then unqualified isConst isVolatile items
      else item :: unqualified isConst isVolatile items := by
  rw [unqualified, withoutFirst_cons noConst, withoutFirst_cons noVolatile, List.filter_cons]
  cases isOne isMemberMark item with
  | true => rfl
  | false => rfl

theorem unqualified_nil (isConst isVolatile : Bool) : unqualified isConst isVolatile [] = [] := by
  cases isConst <;> cases isVolatile <;> rfl

/-- What the items behind a parameter list leave: in front of a trailing return type the qualifiers
go, and the two tokens of a pure function if they end the declaration. -/
structure Leaves (isConst isVolatile : Bool) (items stay pure back : List (List Token))
    (kept : List Token) : Prop where
  items : items = stay ++ pure ++ back
  noReturn : ∀ item ∈ stay ++ pure, headMark "->" item = false
  returns : ∀ item ∈ back.head?, headMark "->" item = true
  noEquals : ∀ item ∈ stay, headMark "=" item = false
  last : pure = [] ∨ back = [] ∧ ∃ equals zero : Token, pure = [[equals], [zero]] ∧
    equals.isMark "=" = true ∧ zero.text = "0".toList
  kept : kept = (unqualified isConst isVolatile stay).flatten ++ back.flatten

theorem Leaves.cons {c v c' v' : Bool} {item : List Token}
    {items stay pure back : List (List Token)} {kept : List Token}
    (h : Leaves c v items stay pure back kept) (before : List Token)
    (noArrow : headMark "->" item = false) (noEquals : headMark "=" item = false)
    (step : (unqualified c' v' (item :: stay)).flatten =
      before ++ (unqualified c v stay).flatten) :
    Leaves c' v' (item :: items) (item :: stay) pure back (before ++ kept) where
  items := by rw [h.items, List.cons_append, List.cons_append]
  noReturn := by
    intro other member
    rcases List.mem_cons.mp member with rfl | member
    · exact noArrow
    · exact h.noReturn other member
  returns := h.returns
  noEquals := by
    intro other member
    rcases List.mem_cons.mp member with rfl | member
    · exact noEquals
    · exact h.noEquals other member
  last := h.last
  kept := by rw [h.kept, step, List.append_assoc]

theorem isMark_of_isMemberMark {t : Token} (holds : isMemberMark t = true) :
    t.isMark "->" = false ∧ t.isMark "=" = false := by
  simp only [isMemberMark, Bool.or_eq_true] at holds
  rcases holds with ((mark | mark) | word) | word
  · exact ⟨Token.not_isMark_of_mark mark (by decide), Token.not_isMark_of_mark mark (by decide)⟩
  · exact ⟨Token.not_isMark_of_mark mark (by decide), Token.not_isMark_of_mark mark (by decide)⟩
  · exact ⟨Token.not_isMark_of_word word "->", Token.not_isMark_of_word word "="⟩
  · exact ⟨Token.not_isMark_of_word word "->", Token.not_isMark_of_word word "="⟩

theorem headMark_of_isOne {p : Token → Bool} {mark : String} {item : List Token}
    (one : isOne p item = true) (apart : ∀ t, p t = true → t.isMark mark = false) :
    headMark mark item = false := by
  rcases item with _ | ⟨t, _ | ⟨u, more⟩⟩
  · rfl
  · exact apart t one
  · cases one

theorem isOne_isMemberMark {item : List Token} (whole : Whole item) :
    isOne isMemberMark item =
      (headMark "&" item || headMark "&&" item ||
        (headWord "override" item || headWord "final" item)) := by
  rw [headMark_eq_isOne whole (by decide), headMark_eq_isOne whole (by decide),
    headWord_eq_isOne whole, headWord_eq_isOne whole]
  rcases item with _ | ⟨t, _ | ⟨u, more⟩⟩
  · rfl
  · simp only [isOne, isMemberMark, Bool.or_assoc]
  · rfl

theorem readTrailing_constraint {name : Text} {arrow : Bool} {q q' : Qualifiers} {item : List Token}
    {rest : List (List Token)} (h : readTrailing name arrow q (item :: rest) = .ok q') :
    ¬ headWord "requires" item = true := by
  intro requires
  rw [readTrailing, if_pos requires] at h
  cases h

theorem readTrailing_return {name : Text} {q q' : Qualifiers} {items : List (List Token)}
    (h : readTrailing name true q items = .ok q') : q'.kept = q.kept ++ items.flatten := by
  induction items generalizing q with
  | nil =>
    cases h
    simp
  | cons item rest ih =>
    rw [readTrailing, if_neg (readTrailing_constraint h), if_pos rfl] at h
    rw [ih h, Qualifiers.keep, List.append_assoc, List.flatten_cons]

inductive TrailingStep (name : Text) (q q' : Qualifiers) (item : List Token)
    (rest : List (List Token)) : Prop where
  | isConst : headWord "const" item = true → q.isConst = false →
      readTrailing name false { q with isConst := true } rest = .ok q' →
        TrailingStep name q q' item rest
  | isVolatile : (headWord "const" item && !q.isConst) = false →
      headWord "volatile" item = true → q.isVolatile = false →
        readTrailing name false { q with isVolatile := true } rest = .ok q' →
          TrailingStep name q q' item rest
  | skipped (r : Option RefQualifier) : (headWord "const" item && !q.isConst) = false →
      (headWord "volatile" item && !q.isVolatile) = false →
        (headMark "&" item || headMark "&&" item ||
          (headWord "override" item || headWord "final" item)) = true →
        readTrailing name false { q with refQualifier := r } rest = .ok q' →
          TrailingStep name q q' item rest
  | pure : headMark "=" item = true → isPure rest = true → q' = q → TrailingStep name q q' item rest
  | arrow : headMark "->" item = true → readTrailing name true (q.keep item) rest = .ok q' →
      TrailingStep name q q' item rest
  | kept : (headWord "const" item && !q.isConst) = false →
      (headWord "volatile" item && !q.isVolatile) = false →
        (headMark "&" item || headMark "&&" item ||
          (headWord "override" item || headWord "final" item)) = false →
        headMark "=" item = false → headMark "->" item = false →
          readTrailing name false (q.keep item) rest = .ok q' → TrailingStep name q q' item rest

theorem readTrailing_step {name : Text} {q q' : Qualifiers} {item : List Token}
    {rest : List (List Token)} (h : readTrailing name false q (item :: rest) = .ok q') :
    TrailingStep name q q' item rest := by
  rw [readTrailing, if_neg (readTrailing_constraint h), if_neg Bool.false_ne_true] at h
  by_cases isConst : (headWord "const" item && !q.isConst) = true
  · rw [if_pos isConst] at h
    rw [Bool.and_eq_true, Bool.not_eq_true'] at isConst
    exact .isConst isConst.1 isConst.2 h
  rw [if_neg isConst] at h
  rw [Bool.not_eq_true] at isConst
  by_cases isVolatile : (headWord "volatile" item && !q.isVolatile) = true
  · rw [if_pos isVolatile] at h
    rw [Bool.and_eq_true, Bool.not_eq_true'] at isVolatile
    exact .isVolatile isConst isVolatile.1 isVolatile.2 h
  rw [if_neg isVolatile] at h
  rw [Bool.not_eq_true] at isVolatile
  by_cases lvalue : headMark "&" item = true
  · rw [if_pos lvalue] at h
    exact .skipped (some .lvalue) isConst isVolatile (by simp [lvalue]) h
  rw [if_neg lvalue] at h
  by_cases rvalue : headMark "&&" item = true
  · rw [if_pos rvalue] at h
    exact .skipped (some .rvalue) isConst isVolatile (by simp [rvalue]) h
  rw [if_neg rvalue] at h
  by_cases word : (headWord "override" item || headWord "final" item) = true
  · rw [if_pos word] at h
    exact .skipped q.refQualifier isConst isVolatile (by simp [word]) h
  rw [if_neg word] at h
  rw [Bool.not_eq_true] at lvalue rvalue word
  by_cases equals : headMark "=" item = true
  · rw [if_pos equals] at h
    split at h
    · rename_i zero
      cases h
      exact .pure equals zero rfl
    · split at h
      · cases h
      · cases h
  rw [if_neg equals] at h
  rw [Bool.not_eq_true] at equals
  cases arrow : headMark "->" item with
  | true =>
    rw [arrow] at h
    exact .arrow arrow h
  | false =>
    rw [arrow] at h
    exact .kept isConst isVolatile (by simp [lvalue, rvalue, word]) equals arrow h

theorem isPure_some {items : List (List Token)} (whole : ∀ item ∈ items, Whole item)
    (h : isPure items = true) : ∃ zero : Token, items = [[zero]] ∧ zero.text = "0".toList := by
  unfold isPure at h
  split at h
  · rename_i t more
    have same := of_decide_eq_true h
    have plain := plain_of_text same (by decide)
    have one := (whole (t :: more) List.mem_cons_self).singleton rfl plain.1 plain.2
    exact ⟨t, by rw [one], same⟩
  · cases h

theorem leaves_pure {c v : Bool} {item : List Token} {rest : List (List Token)}
    (whole : ∀ other ∈ item :: rest, Whole other) (equals : headMark "=" item = true)
    (pure : isPure rest = true) : Leaves c v (item :: rest) [] (item :: rest) [] [] := by
  have first := whole item List.mem_cons_self
  obtain ⟨zero, rfl, text⟩ :=
    isPure_some (fun other member => whole other (List.mem_cons_of_mem item member)) pure
  rw [headMark_eq_isOne first (by decide)] at equals
  rcases item with _ | ⟨t, _ | ⟨u, more⟩⟩
  · cases equals
  · have noArrow : t.isMark "->" = false := Token.not_isMark_of_mark equals (by decide)
    have zeroNoArrow : zero.isMark "->" = false := Token.not_isMark_of_text text (by decide)
    refine ⟨rfl, ?_, by simp, by simp, .inr ⟨rfl, t, zero, rfl, equals, text⟩, ?_⟩
    · simp [headMark, noArrow, zeroNoArrow]
    · rw [unqualified_nil]
      rfl
  · cases equals

theorem leaves_return {c v : Bool} {items : List (List Token)}
    (arrow : ∀ item ∈ items.head?, headMark "->" item = true) :
    Leaves c v items [] [] items items.flatten where
  items := rfl
  noReturn := by simp
  returns := arrow
  noEquals := by simp
  last := .inl rfl
  kept := by rw [unqualified_nil]; rfl

theorem readTrailing_leaves {name : Text} {q q' : Qualifiers} {items : List (List Token)}
    (whole : ∀ item ∈ items, Whole item) (h : readTrailing name false q items = .ok q') :
    ∃ stay pure back kept, q'.kept = q.kept ++ kept ∧
      Leaves q.isConst q.isVolatile items stay pure back kept := by
  induction items generalizing q with
  | nil =>
    cases h
    exact ⟨[], [], [], [], (List.append_nil _).symm, leaves_return (by simp)⟩
  | cons item rest ih =>
    have first := whole item List.mem_cons_self
    have behind := fun other member => whole other (List.mem_cons_of_mem item member)
    have asConst := headWord_eq_isOne first "const"
    have asVolatile := headWord_eq_isOne first "volatile"
    cases readTrailing_step h with
    | isConst word unseen read =>
      obtain ⟨stay, pure, back, kept, same, leaves⟩ := ih behind read
      rw [asConst] at word
      refine ⟨item :: stay, pure, back, kept, same, leaves.cons [] ?_ ?_ ?_⟩
      · exact headMark_of_isOne word fun t holds => Token.not_isMark_of_word holds "->"
      · exact headMark_of_isOne word fun t holds => Token.not_isMark_of_word holds "="
      · rw [unseen, unqualified_const word]
        rfl
    | isVolatile noConst word unseen read =>
      obtain ⟨stay, pure, back, kept, same, leaves⟩ := ih behind read
      rw [asConst] at noConst
      rw [asVolatile] at word
      refine ⟨item :: stay, pure, back, kept, same, leaves.cons [] ?_ ?_ ?_⟩
      · exact headMark_of_isOne word fun t holds => Token.not_isMark_of_word holds "->"
      · exact headMark_of_isOne word fun t holds => Token.not_isMark_of_word holds "="
      · rw [unseen, unqualified_volatile noConst word]
        rfl
    | skipped r noConst noVolatile mark read =>
      obtain ⟨stay, pure, back, kept, same, leaves⟩ := ih behind read
      rw [asConst] at noConst
      rw [asVolatile] at noVolatile
      rw [← isOne_isMemberMark first] at mark
      refine ⟨item :: stay, pure, back, kept, same, leaves.cons [] ?_ ?_ ?_⟩
      · exact headMark_of_isOne mark fun t holds => (isMark_of_isMemberMark holds).1
      · exact headMark_of_isOne mark fun t holds => (isMark_of_isMemberMark holds).2
      · rw [unqualified_cons noConst noVolatile, if_pos mark]
        rfl
    | pure equals zero done =>
      exact ⟨[], item :: rest, [], [], by rw [done, List.append_nil], leaves_pure whole equals zero⟩
    | arrow mark read =>
      refine ⟨[], [], item :: rest, (item :: rest).flatten, ?_, leaves_return (by simpa using mark)⟩
      rw [readTrailing_return read, Qualifiers.keep, List.append_assoc, List.flatten_cons]
    | kept noConst noVolatile noMark noEquals noArrow read =>
      obtain ⟨stay, pure, back, kept, same, leaves⟩ := ih behind read
      rw [asConst] at noConst
      rw [asVolatile] at noVolatile
      rw [← isOne_isMemberMark first] at noMark
      refine ⟨item :: stay, pure, back, item ++ kept, ?_, leaves.cons item noArrow noEquals ?_⟩
      · rw [same, Qualifiers.keep, List.append_assoc]
      · rw [unqualified_cons noConst noVolatile, noMark]
        rfl

/-- A run of template heads: of each, the word and an argument list that ends with its last
angle. -/
inductive TemplateHeads : List Token → Prop where
  | nil : TemplateHeads []
  | cons {word : Token} {list rest : List Token} :
      word.isWord "template" = true → angleSpan list = some list.length → TemplateHeads rest →
        TemplateHeads (word :: list ++ rest)

theorem angleSpan_take {tokens : List Token} {k : Nat} (h : angleSpan tokens = some k) :
    angleSpan (tokens.take k) = some (tokens.take k).length := by
  cases tokens with
  | nil => cases h
  | cons t rest =>
    rw [angleSpan] at h
    split at h
    · rename_i opens
      obtain ⟨j, found, rfl⟩ := Option.map_eq_some_iff.mp h
      obtain ⟨inner, u, after, rfl, rfl, _⟩ := closeAngle_closer found
      rw [List.append_cons] at found ⊢
      have length : (inner ++ [u]).length = inner.length + 1 := by simp
      have again := closeAngle_front found (by omega) []
      rw [List.append_nil] at again
      rw [List.take_succ_cons, List.take_left' length, angleSpan, if_pos opens, again]
      simp
    · cases h

theorem templateHeads_run {tokens heads rest : List Token}
    (h : templateHeads tokens = .ok (heads, rest)) : TemplateHeads heads := by
  fun_induction templateHeads tokens generalizing heads rest with
  | case1 =>
    cases h
    exact .nil
  | case2 => cases h
  | case3 t more template k closed ih =>
    cases found : templateHeads (more.drop k) with
    | error fault =>
      rw [found] at h
      cases h
    | ok p =>
      rw [found] at h
      cases h
      exact .cons template (angleSpan_take closed) (ih found)
  | case4 =>
    cases h
    exact .nil

theorem parenthesis {group : List Token} (whole : Whole group) (opens : headMark "(" group = true)
    (closed : group.length ≠ 1) :
    ∃ opener list closer, group = opener :: list ++ [closer] ∧ opener.isMark "(" = true ∧
      closer.isMark ")" = true := by
  cases whole with
  | single t => exact absurd rfl closed
  | @bracket t u c inner closer fits =>
    have mark : t.isMark "(" = true := opens
    rw [closerFor, if_pos mark] at closer
    cases closer
    exact ⟨t, inner, u, rfl, mark, fits⟩
  | @angle t u inner angle ends =>
    have mark : t.isMark "(" = true := opens
    rw [Token.not_isMark_of_mark mark (by decide)] at angle
    cases angle

/-- The parts of the source of a declaration around its template heads and its name. -/
structure Sourced (stripMacros : List Text) (source : List Token) (d : Declaration)
    (specifiers list after : List Token) : Prop where
  tokens : ∃ opener closer : Token, opener.isMark "(" = true ∧ closer.isMark ")" = true ∧
    source = d.templateHead ++ specifiers ++ [d.name, opener] ++ list ++ closer :: after
  heads : TemplateHeads d.templateHead
  head : d.head = specifiers.filter fun t => !isStripped stripMacros t
  isStatic : d.isStatic = specifiers.any (·.isWord "static")
  params : d.params = parameters list
  named : unnamed 1 d.params = none
  trailing : ∃ q, readTrailing d.name.text false ⟨[], false, false, none⟩ (itemsOf after) = .ok q ∧
    d.trailing = q.kept

theorem ofTokens_parts {stripMacros : List Text} {source : List Token} {d : Declaration}
    (h : ofTokens stripMacros source = .ok d) :
    ∃ rest parts, templateHeads source = .ok (d.templateHead, rest) ∧
      findParameters [] (itemsOf rest) = .ok parts ∧ parts.before.getLast? = some d.name ∧
      Sourced stripMacros source d parts.before.dropLast parts.group.tail.dropLast parts.after := by
  obtain ⟨rest, parts, q, heads, found, last, head, _, params, named, trailing, kept, isStatic,
    _⟩ := ofTokens_ok h
  obtain ⟨passed, behind, items, _, _, opens, closed, _⟩ := findParameters_ok found
  have whole : Whole parts.group := items_whole false rest _ (by
    rw [itemsOf] at items
    simp [items])
  obtain ⟨opener, list, closer, group, opens, closes⟩ := parenthesis whole opens closed
  have split := findParameters_append found
  rw [itemsOf, items_flatten] at split
  obtain ⟨specifiers, before⟩ := List.getLast?_eq_some_iff.mp last
  have inside : parts.group.tail.dropLast = list := by simp [group]
  refine ⟨rest, parts, heads, found, last, ⟨opener, closer, opens, closes, ?_⟩,
    templateHeads_run heads, head, isStatic, params, named, q, trailing, kept⟩
  rw [templateHeads_append heads, split, inside, before, group, List.dropLast_concat]
  simp

theorem ofTokens_sourced {stripMacros : List Text} {source : List Token} {d : Declaration}
    (h : ofTokens stripMacros source = .ok d) :
    ∃ specifiers list after, Sourced stripMacros source d specifiers list after := by
  obtain ⟨_, parts, _, _, _, sourced⟩ := ofTokens_parts h
  exact ⟨_, _, parts.after, sourced⟩

/-- What a declaration says about its source. -/
structure Account (stripMacros : List Text) (source : List Token) (d : Declaration)
    (specifiers list after : List Token) (opener closer : Token) : Prop where
  source : source = d.templateHead ++ specifiers ++ [d.name, opener] ++ list ++ closer :: after
  opener : opener.isMark "(" = true
  closer : closer.isMark ")" = true
  templateHead : TemplateHeads d.templateHead
  head : d.head = specifiers.filter fun t => !(t.isWordIn memberWords || t.isWordIn stripMacros)
  isStatic : d.isStatic = true ↔ ∃ t ∈ specifiers, t.isWord "static" = true
  list : Joined "," (d.params.map Parameter.tokens) list ∨
    d.params = [] ∧ (list = [] ∨ ∃ void : Token, list = [void] ∧ void.isWord "void" = true)
  trailing : ∃ stay pure back, Leaves false false (itemsOf after) stay pure back d.trailing

theorem parameters_list (list : List Token) :
    Joined "," ((parameters list).map Parameter.tokens) list ∨
      parameters list = [] ∧
        (list = [] ∨ ∃ void : Token, list = [void] ∧ void.isWord "void" = true) := by
  unfold parameters
  split
  · rename_i void
    unfold isVoid at void
    split at void
    · rename_i t
      exact .inr ⟨rfl, .inr ⟨t, rfl, void⟩⟩
    · cases void
  · cases list with
    | nil => exact .inr ⟨rfl, .inl rfl⟩
    | cons t rest =>
      have joined := splitTopLevel_joined "," (List.cons_ne_nil t rest)
      have same : ((splitTopLevel "," (t :: rest)).map Parameter.ofTokens).map Parameter.tokens =
          splitTopLevel "," (t :: rest) := by
        rw [List.map_map]
        exact List.map_id _
      rw [same]
      exact .inl joined

/-- Every token of the source of a declaration is accounted for. -/
theorem ofTokens_account {stripMacros : List Text} {source : List Token} {d : Declaration}
    (h : ofTokens stripMacros source = .ok d) :
    ∃ specifiers list after opener closer,
      Account stripMacros source d specifiers list after opener closer := by
  obtain ⟨specifiers, list, after, sourced⟩ := ofTokens_sourced h
  obtain ⟨opener, closer, opens, closes, split⟩ := sourced.tokens
  obtain ⟨q, read, kept⟩ := sourced.trailing
  obtain ⟨stay, pure, back, trailing, same, leaves⟩ :=
    readTrailing_leaves (items_whole false after) read
  refine ⟨specifiers, list, after, opener, closer, split, opens, closes, sourced.heads,
    sourced.head, ?_, ?_, ?_⟩
  · rw [sourced.isStatic, List.any_eq_true]
  · rw [sourced.params]
    exact parameters_list list
  · rw [kept, same, List.nil_append]
    exact ⟨stay, pure, back, leaves⟩

def pureTokens : List Token :=
  (Lexer.lex 1 ("template <class T> virtual M T f(int a, T b = g(1, 2)) " ++
    "const noexcept override = 0").toList).tokens

def pureDeclaration : Declaration where
  templateHead := pureTokens.take 5
  head := (pureTokens.drop 7).take 1
  name := ⟨.identifier, "f".toList, [' '], 1⟩
  params :=
    [⟨(pureTokens.drop 10).take 2, some 1, false⟩, ⟨(pureTokens.drop 13).take 9, some 1, false⟩]
  trailing := (pureTokens.drop 24).take 1
  isStatic := false
  isConst := true
  isVolatile := false
  refQualifier := none

theorem ofTokens_account_pure : ofTokens ["M".toList] pureTokens = .ok pureDeclaration ∧
    ∃ specifiers list after opener closer,
      Account ["M".toList] pureTokens pureDeclaration specifiers list after opener closer := by
  have read : ofTokens ["M".toList] pureTokens = .ok pureDeclaration :=
    ok_of_mem_toOption (by decide +kernel)
  exact ⟨read, ofTokens_account read⟩

end Declaration

end MemberLift
