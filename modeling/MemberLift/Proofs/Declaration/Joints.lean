import MemberLift.Proofs.Declaration.Sources
import MemberLift.Proofs.Lexer.Ends
import MemberLift.Proofs.Lexer.Respacing

/-!
Tokens that were taken out of their source.  What is written from some tokens of a source is read
as these tokens exactly if each of them still stands at its joints, where something else follows it
than in the source and no space is between (`Lexer.allStand_iff`).  So it is with the head of a
declaration, from which words were stripped, and with what follows its parameters
(`Declaration.readsAs_kept`).
-/
namespace MemberLift

namespace Lexer

/-- Whether a token is read in front of a text, and all of that text is left. -/
def Stands (t : Token) (s : Text) : Prop :=
  next 1 (t.text ++ s) = .ok (some ⟨⟨t.kind, t.text, [], 1⟩, 1 + t.text.newlines, s⟩)

def AllStand (tokens : List Token) : Prop :=
  ∀ front t following, tokens = front ++ t :: following → Stands t (renderSpaced following)

theorem allStand_cons {t : Token} {tokens : List Token} :
    AllStand (t :: tokens) ↔ Stands t (renderSpaced tokens) ∧ AllStand tokens := by
  constructor
  · intro all
    exact ⟨all [] t tokens rfl, fun front u following same =>
      all (t :: front) u following (by rw [same]; rfl)⟩
  · rintro ⟨first, all⟩ front u following same
    cases front with
    | nil =>
      cases same
      exact first
    | cons v front =>
      cases same
      exact all front u following rfl

theorem Alike.refl (s : Text) : Alike s s := ⟨rfl, id⟩

theorem Alike.trans {a b c : Text} (first : Alike a b) (second : Alike b c) : Alike a c :=
  ⟨first.ahead.trans second.ahead, fun slash => first.slash (second.slash slash)⟩

theorem Stands.next {t : Token} {s : Text} (h : Stands t s) (line : Nat) (u : Token) :
    Lexer.next line (u.spacing ++ (t.text ++ s)) =
      .ok (some ⟨⟨t.kind, t.text, u.spacing, line⟩, line + t.text.newlines, s⟩) :=
  next_again h (Alike.refl s).stops line u

theorem lex_of_allStand {tokens : List Token} (h : AllStand tokens) (line : Nat) :
    lex line (renderSpaced tokens) = ⟨respaced line tokens, none⟩ := by
  induction tokens generalizing line with
  | nil => exact lex_none (by simp [renderSpaced, next, skip])
  | cons t tokens ih =>
    obtain ⟨first, rest⟩ := allStand_cons.mp h
    rw [renderSpaced_cons, lex_some (first.next line t), ih rest]
    rfl

theorem next_split {line mid : Nat} {s rest : Text} {t : Token}
    (h : next line s = .ok (some ⟨t, mid, rest⟩)) :
    ∃ fs c tail, s = written fs ++ (t.text ++ rest) ∧ AllWhole (t.text ++ rest) fs ∧
      t.text = c :: tail ∧ Alphabet.isBlank c = false := by
  obtain ⟨fs, c, r, reads, lexed, _⟩ := next_some h
  obtain ⟨whole, nonempty⟩ := lexeme_append lexed
  obtain ⟨d, tail, text⟩ := List.exists_cons_of_ne_nil nonempty
  have pieces := reads.pieces
  have stop := reads.stop
  simp only at whole text
  rw [text, List.cons_append] at whole
  obtain rfl := (List.cons.inj whole).1
  rw [opensFiller, Bool.or_eq_false_iff] at stop
  refine ⟨fs, d, tail, ?_, ?_, text, stop.1⟩
  · rw [text, List.cons_append, whole, reads.split]
  · rw [text, List.cons_append, whole]
    exact pieces

theorem count_slash_lex {line : Nat} {s : Text} {tokens : List Token}
    (h : lex line s = ⟨tokens, none⟩) : (tokens.flatMap Token.text).count '/' ≤ s.count '/' := by
  induction tokens generalizing line s with
  | nil => exact Nat.zero_le _
  | cons t tokens ih =>
    obtain ⟨mid, rest, found, behind⟩ := lex_cons h
    obtain ⟨fs, _, _, split, _⟩ := next_split found
    have following := ih behind
    rw [split, List.count_append, List.count_append, List.flatMap_cons, List.count_append]
    omega

theorem count_slash_renderSpaced (tokens : List Token) :
    (renderSpaced tokens).count '/' = (tokens.flatMap Token.text).count '/' := by
  induction tokens with
  | nil => rfl
  | cons t tokens ih =>
    have space : t.spacing.count '/' = 0 := by
      rw [Token.spacing]
      split
      · rfl
      · rfl
    rw [renderSpaced_cons, List.count_append, List.count_append, ih, space, List.flatMap_cons,
      List.count_append, Nat.zero_add]

theorem isBlank_of_written {following : Text} {fs : List Filler} (h : AllWhole following fs)
    (noSlash : '/' ∉ written fs) : ∀ c ∈ written fs, Alphabet.isBlank c = true := by
  induction fs with
  | nil => simp
  | cons f fs ih =>
    obtain ⟨piece, pieces⟩ := h
    rw [written_cons, List.mem_append, not_or] at noSlash
    have rest := ih pieces noSlash.2
    cases f with
    | blank c =>
      intro d member
      rcases List.mem_cons.mp member with rfl | member
      · exact piece
      · exact rest d member
    | lineComment body => exact absurd (by simp [Filler.text]) noSlash.1
    | blockComment body => exact absurd (by simp [Filler.text]) noSlash.1

theorem takeWhile_isBlank {front : Text} (blank : ∀ c ∈ front, Alphabet.isBlank c = true) {c : Char}
    (dark : Alphabet.isBlank c = false) (tail : Text) :
    (front ++ c :: tail).takeWhile Alphabet.isBlank = front := by
  rw [List.takeWhile_append_of_pos blank]
  simp [dark]

theorem isBlank_of_spacing (t : Token) : ∀ c ∈ t.spacing, Alphabet.isBlank c = true := by
  intro c member
  rw [Token.spacing] at member
  split at member
  · cases member
  · rw [List.mem_singleton.mp member]
    rfl

/-- Tokens with the kinds and texts of those that they were written from are the same tokens, in the
same places: comments would have taken slashes away from them. -/
theorem allStand_of_lex {line : Nat} {tokens again : List Token}
    (h : lex line (renderSpaced tokens) = ⟨again, none⟩)
    (same : again.map (fun t => (t.kind, t.text)) = tokens.map (fun t => (t.kind, t.text))) :
    AllStand tokens := by
  induction tokens generalizing line again with
  | nil =>
    intro front t following split
    cases front <;> cases split
  | cons t tokens ih =>
    obtain ⟨t', again, rfl, first, rest⟩ := List.map_eq_cons_iff.mp same
    obtain ⟨kind, text⟩ := Prod.mk.inj first
    obtain ⟨mid, left, found, behind⟩ := lex_cons h
    obtain ⟨fs, c, tail, split, pieces, begins, dark⟩ := next_split found
    have texts : again.flatMap Token.text = tokens.flatMap Token.text := by
      have written_ := congrArg (List.flatMap Prod.snd) rest
      rw [List.flatMap_map, List.flatMap_map] at written_
      exact written_
    have noSlash : '/' ∉ written fs := by
      have following := count_slash_lex behind
      have whole := congrArg (List.count '/') split
      rw [count_slash_renderSpaced, List.count_append, List.count_append, List.flatMap_cons,
        List.count_append, text, ← texts] at whole
      exact List.count_eq_zero.mp (by omega)
    rw [renderSpaced_cons, ← text] at split
    have start : written fs = t.spacing := by
      have front := congrArg (List.takeWhile Alphabet.isBlank) split
      rw [begins, List.cons_append, List.cons_append, takeWhile_isBlank (isBlank_of_spacing t) dark,
        takeWhile_isBlank (isBlank_of_written pieces noSlash) dark] at front
      exact front.symm
    rw [start, List.append_cancel_left_eq, List.append_cancel_left_eq] at split
    rw [← split] at found behind
    refine allStand_cons.mpr ⟨?_, ih behind rest⟩
    have stands := next_again found (Alike.refl _).stops 1 ⟨t.kind, t.text, [], 1⟩
    rw [kind, text] at stands
    exact stands

theorem Stands.stops {t : Token} {s s' : Text} (h : Stands t s) (stops : Stops s s') : Stands t s' :=
  next_again h stops 1 ⟨t.kind, t.text, [], 1⟩

theorem stands_alone {line mid : Nat} {s rest : Text} {t : Token}
    (h : next line s = .ok (some ⟨t, mid, rest⟩)) : Stands t [] :=
  next_again h (stops_nil rest) 1 ⟨t.kind, t.text, [], 1⟩

theorem alike_nil_of_gap {tokens : List Token} (gap : ∀ u ∈ tokens.head?, u.leading ≠ []) :
    Alike [] (renderSpaced tokens) := by
  cases tokens with
  | nil => exact Alike.refl []
  | cons u tokens =>
    have space : u.spacing = [' '] := by
      rw [Token.spacing, if_neg]
      simpa using gap u rfl
    rw [renderSpaced_cons, space]
    exact ⟨rfl, fun slash => by cases slash⟩

theorem next_of_source {line : Nat} {s : Text} {front behind : List Token} {t : Token}
    (h : lex line s = ⟨front ++ t :: behind, none⟩) :
    ∃ line' s' mid rest, next line' s' = .ok (some ⟨t, mid, rest⟩) ∧
      lex mid rest = ⟨behind, none⟩ := by
  induction front generalizing line s with
  | nil =>
    obtain ⟨mid, rest, found, following⟩ := lex_cons h
    exact ⟨line, s, mid, rest, found, following⟩
  | cons u front ih =>
    obtain ⟨mid, rest, _, following⟩ := lex_cons h
    exact ih following

theorem text_ne_nil_of_source {line : Nat} {s : Text} {source : List Token}
    (h : lex line s = ⟨source, none⟩) : ∀ t ∈ source, t.text ≠ [] := by
  intro t member
  obtain ⟨front, behind, rfl⟩ := List.append_of_mem member
  obtain ⟨_, _, mid, rest, found, _⟩ := next_of_source h
  obtain ⟨_, c, tail, _, _, text, _⟩ := next_split found
  rw [text]
  exact List.cons_ne_nil c tail

theorem alike_append {front : Text} (long : 2 ≤ front.length) (s s' : Text) :
    Alike (front ++ s) (front ++ s') := by
  obtain ⟨c, tail, rfl⟩ := List.exists_cons_of_length_pos (Nat.zero_lt_of_lt long)
  refine ⟨?_, id⟩
  rw [ahead, ahead, List.take_append_of_le_length long, List.take_append_of_le_length long]

/-- The reader looks ahead for no more than two tokens. -/
theorem alike_of_take {tokens tokens' : List Token} (nonempty : ∀ t ∈ tokens, t.text ≠ [])
    (same : tokens.take 2 = tokens'.take 2) :
    Alike (renderSpaced tokens) (renderSpaced tokens') := by
  by_cases short : tokens.length < 2
  · rw [List.take_of_length_le (Nat.le_of_lt short)] at same
    have length := congrArg List.length same
    rw [List.length_take] at length
    rw [same, List.take_of_length_le (by omega)]
    exact Alike.refl _
  · have long : 2 ≤ (renderSpaced (tokens.take 2)).length := by
      rcases tokens with _ | ⟨t, _ | ⟨u, tokens⟩⟩
      · exact absurd Nat.two_pos short
      · exact absurd Nat.one_lt_two short
      · have first := List.length_pos_iff.mpr (nonempty t (by simp))
        have second := List.length_pos_iff.mpr (nonempty u (by simp))
        simp only [List.take_succ_cons, List.take_zero, renderSpaced_cons, List.length_append]
        omega
    have whole := List.take_append_drop 2 tokens
    have whole' := List.take_append_drop 2 tokens'
    rw [← same] at whole'
    rw [← whole, ← whole', renderSpaced_append, renderSpaced_append]
    exact alike_append long _ _

/-- Whether no space is between a token and what follows it now, and of the two tokens behind it in
the source one was taken out. -/
structure Joint (source : List Token) (t : Token) (following : List Token) : Prop where
  glued : ∃ u ∈ following.head?, u.leading = []
  changed : ∀ front behind, source = front ++ t :: behind → behind.take 2 ≠ following.take 2

/-- Whether tokens of a source stand where something was taken out behind them. -/
def StandAtJoints (source tokens : List Token) : Prop :=
  ∀ front t following, tokens = front ++ t :: following → Joint source t following →
    Stands t (renderSpaced following)

/-- Apart from its joints, every token stands as it did in the source. -/
theorem allStand_iff {line : Nat} {s : Text} {source tokens : List Token}
    (h : lex line s = ⟨source, none⟩) (inside : ∀ t ∈ tokens, t ∈ source) :
    AllStand tokens ↔ StandAtJoints source tokens := by
  constructor
  · intro all front t following split _
    exact all front t following split
  · intro joints front t following split
    have member : t ∈ source := inside t (split ▸ List.mem_append_right _ List.mem_cons_self)
    obtain ⟨before, after, whole⟩ := List.append_of_mem member
    by_cases glued : ∃ u ∈ following.head?, u.leading = []
    · by_cases changed : ∀ front behind, source = front ++ t :: behind →
          behind.take 2 ≠ following.take 2
      · exact joints front t following split ⟨glued, changed⟩
      · -- the token stands in front of what follows it in the source
        simp only [not_forall, not_not] at changed
        obtain ⟨before, after, whole, same⟩ := changed
        obtain ⟨_, _, mid, rest, found, behind⟩ := next_of_source (whole ▸ h)
        have texts : ∀ u ∈ after, u.text ≠ [] := fun u later => text_ne_nil_of_source h u (by
          rw [whole]
          exact List.mem_append_right _ (List.mem_cons_of_mem t later))
        have there := (lex_renderSpaced behind).1.trans (alike_of_take texts same)
        exact next_again found there.stops 1 ⟨t.kind, t.text, [], 1⟩
    · obtain ⟨_, _, mid, rest, found, _⟩ := next_of_source (whole ▸ h)
      refine (stands_alone found).stops (alike_nil_of_gap fun u first empty => ?_).stops
      exact glued ⟨u, first, empty⟩

/-- Whether a text is read as tokens of the kinds and texts of given ones. -/
def ReadsAs (line : Nat) (s : Text) (tokens : List Token) : Prop :=
  ∃ again, tokenize line s = .ok again ∧
    again.map (fun t => (t.kind, t.text)) = tokens.map fun t => (t.kind, t.text)

theorem respaced_kinds (line : Nat) (tokens : List Token) :
    (respaced line tokens).map (fun t => (t.kind, t.text)) =
      tokens.map fun t => (t.kind, t.text) := by
  induction tokens generalizing line with
  | nil => rfl
  | cons t tokens ih => rw [respaced, List.map_cons, List.map_cons, ih]

theorem readsAs_renderSpaced {line : Nat} {tokens : List Token} :
    ReadsAs line (renderSpaced tokens) tokens ↔ AllStand tokens := by
  constructor
  · rintro ⟨again, read, same⟩
    exact allStand_of_lex (tokenize_ok_iff.mp read) same
  · intro all
    exact ⟨respaced line tokens, tokenize_ok_iff.mpr (lex_of_allStand all line),
      respaced_kinds line tokens⟩

theorem readsAs_render {line : Nat} {tokens : List Token} :
    ReadsAs line (render tokens) tokens ↔ AllStand tokens := by
  have spaced : ReadsAs line (renderSpaced (flush tokens)) (flush tokens) ↔ AllStand (flush tokens) :=
    readsAs_renderSpaced
  have kinds : (flush tokens).map (fun t => (t.kind, t.text)) =
      tokens.map fun t => (t.kind, t.text) := by
    cases tokens with
    | nil => rfl
    | cons t tokens => rfl
  have stand : AllStand (flush tokens) ↔ AllStand tokens := by
    cases tokens with
    | nil => exact Iff.rfl
    | cons t tokens =>
      rw [flush, allStand_cons, allStand_cons]
      exact Iff.rfl
  rw [← stand, ← spaced, render_eq_renderSpaced, ReadsAs, ReadsAs, kinds]

end Lexer

namespace Declaration

open Lexer

/-- The head of a declaration and what follows its parameters are read again as they are written
exactly if each of their tokens still stands where others were taken out behind it. -/
theorem readsAs_kept {line line' : Nat} {s : Text} {source : List Token} {stripMacros : List Text}
    {d : Declaration} (read : tokenize line s = .ok source)
    (h : ofTokens stripMacros source = .ok d) :
    (ReadsAs line' (render d.head) d.head ↔ StandAtJoints source d.head) ∧
      (ReadsAs line' (renderSpaced d.trailing) d.trailing ↔ StandAtJoints source d.trailing) := by
  have known := ofTokens_mem h
  rw [tokenize_ok_iff] at read
  rw [readsAs_render, readsAs_renderSpaced]
  refine ⟨allStand_iff read fun t inside => ?_, allStand_iff read fun t inside => ?_⟩
  · exact known t (by simp [tokens, inside])
  · exact known t (by simp [tokens, inside])

def fusedSource : Text := "void close() AFIO_CONST &noexcept".toList

def fusedTokens : List Token := (lex 1 fusedSource).tokens

def fusedDeclaration : Declaration where
  templateHead := []
  head := fusedTokens.take 1
  name := ⟨.identifier, "close".toList, [' '], 1⟩
  params := []
  trailing :=
    [⟨.identifier, "AFIO_CONST".toList, [' '], 1⟩, ⟨.identifier, "noexcept".toList, [], 1⟩]
  isStatic := false
  isConst := false
  isVolatile := false
  refQualifier := some .lvalue

theorem readsAs_kept_fused : tokenize 1 fusedSource = .ok fusedTokens ∧
    ofTokens [] fusedTokens = .ok fusedDeclaration ∧
    (ReadsAs 1 (render fusedDeclaration.head) fusedDeclaration.head ↔
      StandAtJoints fusedTokens fusedDeclaration.head) ∧
    (ReadsAs 1 (renderSpaced fusedDeclaration.trailing) fusedDeclaration.trailing ↔
      StandAtJoints fusedTokens fusedDeclaration.trailing) := by
  have read : tokenize 1 fusedSource = .ok fusedTokens := ok_of_mem_toOption (by decide +kernel)
  have parsed : ofTokens [] fusedTokens = .ok fusedDeclaration :=
    ok_of_mem_toOption (by decide +kernel)
  exact ⟨read, parsed, readsAs_kept read parsed⟩

/-- The two words behind the parameters are written as one. -/
example : (tokenize 1 (renderSpaced fusedDeclaration.trailing)).toOption.map (List.map Token.text) =
    some ["AFIO_CONSTnoexcept".toList] := by
  decide +kernel

end Declaration

end MemberLift
