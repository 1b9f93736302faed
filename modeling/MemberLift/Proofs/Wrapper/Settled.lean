import MemberLift.Proofs.Declaration.Joints
import MemberLift.Proofs.Lexer.Names
import MemberLift.Proofs.Wrapper.Qualified

/-!
Names that are qualified once.  One pass changes exactly the bare names of nested types, looked at
before or while the list is rewritten (`qualify_eq_foldl`).  A qualified name is one token when it
is written and three when it is read again; no pass over these changes anything (`qualify_settled`).
-/
namespace MemberLift

namespace Lexer

theorem Stands.ne_quote {t : Token} {s : Text} (h : Stands t s) :
    t.text ≠ [] ∧ t.text ≠ ['\''] := by
  obtain ⟨_, _, _, _, lexed, _⟩ := next_some h
  exact ⟨(lexeme_append lexed).2, lexeme_ne_quote lexed⟩

theorem stands_name {name : Text} (proper : isName name = true) (leading s : Text) (line : Nat) :
    Stands ⟨.identifier, name, leading, line⟩ (':' :: s) := by
  obtain ⟨c, rest, rfl, begins, _⟩ := isName_cons proper
  have dark : Alphabet.isBlank c = false := by
    cases blank : Alphabet.isBlank c with
    | false => rfl
    | true =>
      have continues := Alphabet.continues_of_starts c (startsIdentifier_of_beginsName begins)
      rw [Alphabet.continuesIdentifier_of_isBlank blank] at continues
      cases continues
  have stop : opensFiller (c :: (rest ++ ':' :: s)) = false := by
    simp [opensFiller, dark, ne_of_beginsName begins (d := '/') rfl]
  have none_ : Skips 1 (c :: (rest ++ ':' :: s)) [] ⟨[], 1, c :: (rest ++ ':' :: s)⟩ :=
    ⟨rfl, trivial, stop, rfl, rfl⟩
  exact next_of_skips none_ (lexeme_name proper s)

theorem stands_colons (leading s : Text) (line : Nat) :
    Stands ⟨.punctuator, "::".toList, leading, line⟩ s := by
  have none_ : Skips 1 (':' :: ':' :: s) [] ⟨[], 1, ':' :: ':' :: s⟩ :=
    ⟨rfl, trivial, rfl, rfl, rfl⟩
  exact next_of_skips none_ (lexeme_colons s)

theorem allStand_of_tokenize {line : Nat} {s : Text} {tokens : List Token}
    (h : tokenize line s = .ok tokens) : AllStand (flush tokens) := by
  have again : tokenize 1 (render tokens) = .ok (respaced 1 (flush tokens)) :=
    tokenize_render_flush h
  rw [tokenize_ok_iff, render_eq_renderSpaced] at again
  exact allStand_of_lex again (respaced_kinds 1 (flush tokens))

end Lexer

namespace Wrapper

open Lexer

variable {className : Text} {nested : List Text} {skip : Option Nat} {tokens : List Token} {i : Nat}

/-- Whether the token at an index is the name of a nested type, and no mark in front of it says to
whom it belongs. -/
structure Unowned (nested : List Text) (tokens : List Token) (i : Nat) : Prop where
  name : ∃ t, tokens[i]? = some t ∧ t.kind = .identifier ∧ t.text ∈ nested
  free : i ≠ 0 → ∀ u ∈ tokens[i - 1]?, u.kind = .punctuator →
    u.text ∉ ["::".toList, ".".toList, "->".toList]

theorem isAccess_iff (t : Token) : isAccess t = true ↔
    t.kind = .punctuator ∧ t.text ∈ ["::".toList, ".".toList, "->".toList] := by
  simp only [isAccess, Token.isMarkIn, List.any_cons, List.any_nil, Token.isMark, Bool.or_eq_true,
    Bool.and_eq_true, decide_eq_true_eq, List.mem_cons, List.not_mem_nil, Bool.or_false, or_false]
  tauto

theorem isWordIn_iff (t : Token) (words : List Text) : t.isWordIn words = true ↔
    t.kind = .identifier ∧ t.text ∈ words := by
  simp [Token.isWordIn]

theorem isAccess_of_identifier {t : Token} (h : t.kind = .identifier) : isAccess t = false := by
  rw [Bool.eq_false_iff]
  intro access
  rw [isAccess_iff, h] at access
  cases access.1

theorem isBare_iff : isBare nested (fun i => skip == some i) tokens i = true ↔
    skip ≠ some i ∧ Unowned nested tokens i := by
  have named : (tokens[i]?.map (·.isWordIn nested)).getD false = true ↔
      ∃ t, tokens[i]? = some t ∧ t.kind = .identifier ∧ t.text ∈ nested := by
    cases tokens[i]? with
    | none => simp
    | some t => simp [isWordIn_iff]
  have owned : (i != 0 && (tokens[i - 1]?.map isAccess).getD false) = true ↔
      i ≠ 0 ∧ ∃ u ∈ tokens[i - 1]?, u.kind = .punctuator ∧
        u.text ∈ ["::".toList, ".".toList, "->".toList] := by
    cases tokens[i - 1]? with
    | none => simp
    | some u => simp [isAccess_iff]
  rw [isBare, Bool.and_eq_true, Bool.and_eq_true, named, Bool.not_eq_true', Bool.not_eq_true',
    beq_eq_false_iff_ne, ← Bool.not_eq_true, owned]
  constructor
  · rintro ⟨⟨name, kept⟩, free⟩
    exact ⟨kept, name, fun behind u before mark access => free ⟨behind, u, before, mark, access⟩⟩
  · rintro ⟨kept, name, free⟩
    refine ⟨⟨name, kept⟩, ?_⟩
    rintro ⟨behind, u, before, mark, access⟩
    exact free behind u before mark access

/-- A list with the class in front of the token at an index, if it is bare in the list as it is
now. -/
def qualifyAt (className : Text) (nested : List Text) (skip : Option Nat) (tokens : List Token)
    (i : Nat) : List Token :=
  if isBare nested (fun i => skip == some i) tokens i then
    tokens.modify i fun t => { t with text := className ++ "::".toList ++ t.text }
  else tokens

theorem getElem?_qualify (className : Text) (nested : List Text) (skip : Option Nat)
    (tokens : List Token) (i : Nat) :
    (qualify className nested skip tokens)[i]? = tokens[i]?.map fun t =>
      if isBare nested (fun i => skip == some i) tokens i then
        { t with text := className ++ "::".toList ++ t.text }
      else t := by
  rw [qualify_eq_spelledOut, spelledOut, List.getElem?_mapIdx]

theorem isAccess_qualify (className : Text) (nested : List Text) (skip : Option Nat)
    (tokens : List Token) (i : Nat) :
    (qualify className nested skip tokens)[i]?.map isAccess = tokens[i]?.map isAccess := by
  rw [getElem?_qualify]
  cases here : tokens[i]? with
  | none => rfl
  | some t =>
    rw [Option.map_some, Option.map_some, Option.map_some]
    split
    · rename_i bare
      obtain ⟨_, ⟨t', same, named⟩, _⟩ := isBare_iff.mp bare
      obtain rfl := Option.some.inj (here.symm.trans same)
      rw [isAccess_of_identifier named.1]
      exact congrArg some (isAccess_of_identifier named.1)
    · rfl

/-- What is already rewritten does not matter to the next token. -/
theorem isBare_mixed (className : Text) (nested : List Text) (skip : Option Nat)
    (inside : i < tokens.length) :
    isBare nested (fun i => skip == some i)
        ((qualify className nested skip tokens).take i ++ tokens.drop i) i =
      isBare nested (fun i => skip == some i) tokens i := by
  have length : (qualify className nested skip tokens).length = tokens.length :=
    qualifyFrom_length ..
  have size : ((qualify className nested skip tokens).take i).length = i := by
    rw [List.length_take, length]
    omega
  have here : ((qualify className nested skip tokens).take i ++ tokens.drop i)[i]? =
      tokens[i]? := by
    rw [List.getElem?_append_right (Nat.le_of_eq size), size, List.getElem?_drop, Nat.sub_self,
      Nat.add_zero]
  rw [isBare, isBare, here]
  cases i with
  | zero => rfl
  | succ j =>
    have before : ((qualify className nested skip tokens).take (j + 1) ++
        tokens.drop (j + 1))[j]? = (qualify className nested skip tokens)[j]? := by
      rw [List.getElem?_append_left (by omega), List.getElem?_take_of_lt (by omega)]
    rw [Nat.add_sub_cancel, before, isAccess_qualify]

theorem qualifyAt_step (className : Text) (nested : List Text) (skip : Option Nat)
    (inside : i < tokens.length) :
    qualifyAt className nested skip
        ((qualify className nested skip tokens).take i ++ tokens.drop i) i =
      (qualify className nested skip tokens).take (i + 1) ++ tokens.drop (i + 1) := by
  have length : (qualify className nested skip tokens).length = tokens.length :=
    qualifyFrom_length ..
  have size : ((qualify className nested skip tokens).take i).length = i := by
    rw [List.length_take, length]
    omega
  have result := getElem?_qualify className nested skip tokens i
  rw [List.getElem?_eq_getElem inside, List.getElem?_eq_getElem (length ▸ inside)] at result
  rw [qualifyAt, isBare_mixed className nested skip inside,
    List.take_succ_eq_append_getElem (length ▸ inside), Option.some.inj result, List.append_assoc,
    List.singleton_append]
  split
  · rw [List.modify_eq_take_drop, List.take_left' size, List.drop_left' size,
      List.drop_eq_getElem_cons inside, List.modifyHead_cons]
  · rw [List.drop_eq_getElem_cons inside]

theorem foldl_qualifyAt (k : Nat) (inside : k ≤ tokens.length) :
    (List.range k).foldl (qualifyAt className nested skip) tokens =
      (qualify className nested skip tokens).take k ++ tokens.drop k := by
  induction k with
  | zero => rfl
  | succ k ih =>
    rw [List.range_succ, List.foldl_append, ih (Nat.le_of_succ_le inside)]
    exact qualifyAt_step className nested skip inside

/-- The pass may rewrite the list token by token. -/
theorem qualify_eq_foldl (className : Text) (nested : List Text) (skip : Option Nat)
    (tokens : List Token) :
    (List.range tokens.length).foldl (qualifyAt className nested skip) tokens =
      qualify className nested skip tokens := by
  have length : (qualify className nested skip tokens).length = tokens.length :=
    qualifyFrom_length ..
  rw [foldl_qualifyAt _ (Nat.le_refl _), List.drop_length, List.append_nil,
    List.take_of_length_le (Nat.le_of_eq length)]

theorem qualify_pointwise (className : Text) (nested : List Text) (skip : Option Nat)
    {tokens : List Token} {i : Nat} {t : Token} (here : tokens[i]? = some t) :
    ∃ t', (qualify className nested skip tokens)[i]? = some t' ∧
      (t' ≠ t ↔ skip ≠ some i ∧ Unowned nested tokens i) ∧
      (t' ≠ t → t' = { t with text := className ++ "::".toList ++ t.text }) := by
  have result := getElem?_qualify className nested skip tokens i
  rw [here, Option.map_some] at result
  refine ⟨_, result, ?_, ?_⟩
  · rw [← isBare_iff]
    constructor
    · intro changed
      by_contra kept
      exact changed (if_neg kept)
    · intro bare same
      have length := congrArg (fun t => t.text.length) same
      have colons : "::".toList.length = 2 := rfl
      simp only [if_pos bare, List.length_append] at length
      omega
  · intro changed
    split at changed
    · rename_i bare
      exact if_pos bare
    · exact absurd rfl changed

/-- A qualified name as it is read: the class, the mark behind it, and the name. -/
def unfolded (className : Text) (t : Token) : List Token :=
  [⟨.identifier, className, t.leading, t.line⟩, ⟨.punctuator, "::".toList, [], t.line⟩,
    { t with leading := [] }]

def unfoldFrom (className : Text) (nested : List Text) (accessed : Bool) : List Token → List Token
  | [] => []
  | t :: rest =>
    (if t.isWordIn nested && !accessed then unfolded className t else [t]) ++
      unfoldFrom className nested (isAccess t) rest

theorem renderSpaced_unfolded (className : Text) (t : Token) (rest : List Token) :
    renderSpaced (unfolded className t ++ rest) =
      t.spacing ++ (className ++ ("::".toList ++ (t.text ++ renderSpaced rest))) := by
  rw [unfolded, List.cons_append, List.cons_append, List.cons_append, List.nil_append,
    renderSpaced_cons, renderSpaced_cons, renderSpaced_cons]
  rfl

theorem renderSpaced_unfoldFrom (className : Text) (nested : List Text) (index : Nat)
    (accessed : Bool) (tokens : List Token) :
    renderSpaced (unfoldFrom className nested accessed tokens) =
      renderSpaced (qualifyFrom className nested none index accessed tokens) := by
  induction tokens generalizing index accessed with
  | nil => rfl
  | cons t rest ih =>
    have skipped : ((none : Option Nat) != some index) = true := rfl
    rw [unfoldFrom, qualifyFrom, skipped, Bool.and_true]
    split
    · rw [renderSpaced_unfolded, ih (index + 1), renderSpaced_cons]
      simp only [List.append_assoc]
      rfl
    · rw [List.singleton_append, renderSpaced_cons, renderSpaced_cons, ih (index + 1)]

theorem qualifyFrom_keep {index : Nat} {accessed : Bool} {t : Token}
    (kept : (t.isWordIn nested && !accessed) = false) (rest : List Token) :
    qualifyFrom className nested none index accessed (t :: rest) =
      t :: qualifyFrom className nested none (index + 1) (isAccess t) rest := by
  rw [qualifyFrom, kept]
  rfl

/-- A pass over what is read for qualified names changes nothing. -/
theorem qualifyFrom_unfoldFrom (owner : className ∉ nested) (line index : Nat) (accessed : Bool)
    (tokens : List Token) :
    qualifyFrom className nested none index accessed
        (respaced line (unfoldFrom className nested accessed tokens)) =
      respaced line (unfoldFrom className nested accessed tokens) := by
  induction tokens generalizing line index accessed with
  | nil => rfl
  | cons t rest ih =>
    have access (leading : Text) (line : Nat) :
        isAccess ⟨t.kind, t.text, leading, line⟩ = isAccess t := rfl
    rw [unfoldFrom]
    split
    · -- neither the class nor the mark behind it is a nested name, and that mark owns the name
      have first (leading : Text) (line : Nat) :
          Token.isWordIn ⟨.identifier, className, leading, line⟩ nested = false := by
        simp [Token.isWordIn, owner]
      rw [unfolded, List.cons_append, List.cons_append, List.cons_append, List.nil_append,
        respaced, respaced, respaced, qualifyFrom_keep (by rw [first]; rfl), qualifyFrom_keep rfl,
        qualifyFrom_keep (Bool.and_false _), access, ih]
    · rename_i kept
      have kept : (t.isWordIn nested && !accessed) = false := Bool.eq_false_iff.mpr kept
      rw [List.singleton_append, respaced,
        qualifyFrom_keep (t := ⟨t.kind, t.text, t.spacing, line⟩) kept, access, ih]

theorem unfoldFrom_cases (names : ∀ n ∈ nested, isName n = true) (owner : isName className = true)
    (accessed : Bool) {tokens : List Token} (stand : AllStand tokens) :
    renderSpaced (unfoldFrom className nested accessed tokens) = renderSpaced tokens ∨
      ∃ front c d s s', beginsName c = true ∧ beginsName d = true ∧ front ≠ ['\''] ∧
        renderSpaced tokens = front ++ c :: s ∧
        renderSpaced (unfoldFrom className nested accessed tokens) = front ++ d :: s' := by
  induction tokens generalizing accessed with
  | nil => exact .inl rfl
  | cons t rest ih =>
    obtain ⟨first, behind⟩ := allStand_cons.mp stand
    have noQuote : t.spacing ≠ ['\''] := by
      rw [Token.spacing]
      split
      · decide
      · decide
    rw [unfoldFrom]
    split
    · rename_i bare
      obtain ⟨named, _⟩ := Bool.and_eq_true_iff.mp bare
      obtain ⟨c, r, text, begins, _⟩ := isName_cons (names _ ((isWordIn_iff t nested).mp named).2)
      obtain ⟨d, r', rfl, begins', _⟩ := isName_cons owner
      have old : renderSpaced (t :: rest) = t.spacing ++ c :: (r ++ renderSpaced rest) := by
        rw [renderSpaced_cons, text, List.cons_append]
      exact .inr ⟨t.spacing, c, d, _, _, begins, begins', noQuote, old, renderSpaced_unfolded ..⟩
    · rw [List.singleton_append, renderSpaced_cons, renderSpaced_cons]
      rcases ih (isAccess t) behind with same | ⟨front, c, d, s, s', begins, begins', lone, old, new⟩
      · rw [same]
        exact .inl rfl
      · refine .inr ⟨t.spacing ++ (t.text ++ front), c, d, s, s', begins, begins', ?_, ?_, ?_⟩
        · intro quote
          obtain ⟨nonempty, noQuote'⟩ := first.ne_quote
          rcases List.append_eq_singleton_iff.mp quote with ⟨_, glued⟩ | ⟨lone', _⟩
          · rcases List.append_eq_singleton_iff.mp glued with ⟨empty, _⟩ | ⟨quote, _⟩
            · exact nonempty empty
            · exact noQuote' quote
          · exact noQuote lone'
        · rw [old, List.append_assoc, List.append_assoc]
        · rw [new, List.append_assoc, List.append_assoc]

theorem stops_unfoldFrom (names : ∀ n ∈ nested, isName n = true) (owner : isName className = true)
    (accessed : Bool) {tokens : List Token} (stand : AllStand tokens) :
    Stops (renderSpaced tokens) (renderSpaced (unfoldFrom className nested accessed tokens)) := by
  rcases unfoldFrom_cases names owner accessed stand with
    same | ⟨front, c, d, s, s', begins, begins', lone, old, new⟩
  · rw [same]
    exact (Alike.refl _).stops
  · rw [old, new]
    exact stops_name begins begins' lone s s'

theorem allStand_unfoldFrom (names : ∀ n ∈ nested, isName n = true) (owner : isName className = true)
    (accessed : Bool) {tokens : List Token} (stand : AllStand tokens) :
    AllStand (unfoldFrom className nested accessed tokens) := by
  induction tokens generalizing accessed with
  | nil => exact stand
  | cons t rest ih =>
    obtain ⟨first, behind⟩ := allStand_cons.mp stand
    have behind' := ih (isAccess t) behind
    have still := first.stops (stops_unfoldFrom names owner (isAccess t) behind)
    rw [unfoldFrom]
    split
    · rw [unfolded, List.cons_append, List.cons_append, List.cons_append, List.nil_append,
        allStand_cons, allStand_cons, allStand_cons]
      refine ⟨?_, ?_, ?_, behind'⟩
      · exact stands_name owner _ _ _
      · exact stands_colons _ _ _
      · exact still
    · exact allStand_cons.mpr ⟨still, behind'⟩

/-- A pass changes exactly the bare names of nested types, and it may rewrite the list token by
token.  If the class and its nested types have ASCII names and the class is none of them, then what
is written after a pass is read again, and another pass over it changes nothing. -/
theorem qualify_settled (className : Text) (nested : List Text) :
    (∀ skip tokens, (qualify className nested skip tokens).length = tokens.length ∧
      ∀ i t, tokens[i]? = some t → ∃ t', (qualify className nested skip tokens)[i]? = some t' ∧
        (t' ≠ t ↔ skip ≠ some i ∧ Unowned nested tokens i) ∧
        (t' ≠ t → t' = { t with text := className ++ "::".toList ++ t.text })) ∧
    (∀ skip tokens, (List.range tokens.length).foldl (qualifyAt className nested skip) tokens =
      qualify className nested skip tokens) ∧
    (isName className = true → (∀ n ∈ nested, isName n = true) → className ∉ nested →
      ∀ line line' s tokens, tokenize line s = .ok tokens →
        ∃ again, tokenize line' (render (qualify className nested none tokens)) = .ok again ∧
          qualify className nested none again = again) := by
  refine ⟨fun skip tokens => ⟨qualifyFrom_length .., fun i t here => ?_⟩,
    qualify_eq_foldl className nested, fun owner names apart line line' s tokens read => ?_⟩
  · exact qualify_pointwise className nested skip here
  · have stand : AllStand (flush tokens) := allStand_of_tokenize read
    have text : render (qualify className nested none tokens) =
        renderSpaced (unfoldFrom className nested false (flush tokens)) := by
      rw [render_eq_renderSpaced, ← qualify_flush, renderSpaced_unfoldFrom className nested 0]
      rfl
    refine ⟨respaced line' (unfoldFrom className nested false (flush tokens)), ?_, ?_⟩
    · rw [text, tokenize_ok_iff]
      exact lex_of_allStand (allStand_unfoldFrom names owner false stand) line'
    · exact qualifyFrom_unfoldFrom apart line' 0 false (flush tokens)

def modeTokens : List Token :=
  (lex 1 "mode x.mode y->mode z::mode mode&r".toList).tokens

theorem qualify_settled_mode :
    tokenize 1 "mode x.mode y->mode z::mode mode&r".toList = .ok modeTokens ∧
    isName "h".toList = true ∧ (∀ n ∈ ["mode".toList], isName n = true) ∧
    "h".toList ∉ ["mode".toList] ∧
    ∃ again, tokenize 1 (render (qualify "h".toList ["mode".toList] none modeTokens)) = .ok again ∧
      qualify "h".toList ["mode".toList] none again = again := by
  have read : tokenize 1 "mode x.mode y->mode z::mode mode&r".toList = .ok modeTokens :=
    ok_of_mem_toOption (by decide +kernel)
  have owner : isName "h".toList = true := by decide
  have names : ∀ n ∈ ["mode".toList], isName n = true := by decide
  have apart : "h".toList ∉ ["mode".toList] := by decide
  exact ⟨read, owner, names, apart,
    (qualify_settled "h".toList ["mode".toList]).2.2 owner names apart 1 1 _ modeTokens read⟩

example : render (qualify "h".toList ["mode".toList] none modeTokens) =
    "h::mode x.mode y->mode z::mode h::mode&r".toList := by
  decide +kernel

end Wrapper

end MemberLift
