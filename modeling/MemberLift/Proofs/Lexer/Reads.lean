import MemberLift.Proofs.Lexer.Ahead

/-!
Runs of the reader over the beginning of a text.  `Reads.congr` says that such a run does not change
if the text behind it is changed, as long as what can matter right behind it stays.
-/
namespace MemberLift.Lexer

/-- Whether two texts are alike for a token in front of them. -/
structure Alike (s s' : Text) : Prop where
  ahead : ahead s = ahead s'
  slash : s'.head? = some '/' → s.head? = some '/'

theorem Alike.append {s s' : Text} (same : Alike s s') (t : Text) : Alike (t ++ s) (t ++ s') where
  ahead := ahead_append t same.ahead
  slash := by
    cases t with
    | nil => exact same.slash
    | cons c t => exact id

theorem Alike.stops {s s' : Text} (same : Alike s s') : Stops s s' where
  comment c opener first := by
    rcases opener with rfl | rfl
    · exact same.slash first
    · exact (sameHead_of_ahead same.ahead.symm).head rfl first
  word ends := by
    rwa [← (sameHead_of_ahead same.ahead).test _ fun _ => isVisible_of_continues]
  quote c quote first := by
    refine (sameHead_of_ahead same.ahead.symm).head ?_ first
    rcases quote with rfl | rfl
    · rfl
    · rfl
  digit ends := by
    rwa [← (sameHead_of_ahead same.ahead).test _ fun d digit =>
      isVisible_of_isAlphanum d (by simp [Char.isAlphanum, digit])]
  number _ _ stop := numberTail_stop stop same.ahead
  mark mark inside c t begins := by
    obtain ⟨nonempty, sees, short⟩ := longMarks_visible mark inside
    obtain ⟨a, m, shape⟩ := List.exists_cons_of_ne_nil nonempty
    rw [shape] at sees short begins ⊢
    have equal :=
      isPrefixOf_ahead (a := a) (c := c) (m := m) (ahead_append t same.ahead) sees short
    rw [← List.isPrefixOf_iff_prefix] at begins ⊢
    rwa [equal]

theorem alike_front {front : Text} {c : Char} (inside : c ∈ front) (hidden : isVisible c = false)
    (s s' : Text) : Alike (front ++ s) (front ++ s') := by
  obtain ⟨before, after, rfl⟩ := List.append_of_mem inside
  have here : Alike (c :: (after ++ s)) (c :: (after ++ s')) := by
    refine ⟨?_, id⟩
    rw [ahead_cons, ahead_cons, hidden]
    rfl
  rw [List.append_assoc, List.append_assoc]
  exact here.append before

theorem AllWhole.congr {s s' : Text} {fs : List Filler} (h : AllWhole s fs)
    (same : s.head? = s'.head?) : AllWhole s' fs := by
  induction fs with
  | nil => trivial
  | cons f fs ih =>
    obtain ⟨piece, pieces⟩ := h
    refine ⟨?_, ih pieces⟩
    cases f with
    | blank c => exact piece
    | blockComment body => exact piece
    | lineComment body =>
      refine ⟨piece.1, fun c first => piece.2 c ?_⟩
      rw [List.head?_append, same, ← List.head?_append]
      exact first

theorem opensFiller_stops {c : Char} {tail rest rest' : Text}
    (stop : opensFiller (c :: (tail ++ rest)) = false) (stops : Stops rest rest') :
    opensFiller (c :: (tail ++ rest')) = false := by
  simp only [opensFiller, Bool.or_eq_false_iff, Bool.and_eq_false_imp, decide_eq_true_eq,
    decide_eq_false_iff_not] at stop ⊢
  refine ⟨stop.1, fun slash => ?_⟩
  obtain ⟨noLine, noBlock⟩ := stop.2 slash
  cases tail with
  | nil =>
    exact ⟨fun line => noLine (stops.comment _ (.inl rfl) line),
      fun block => noBlock (stops.comment _ (.inr rfl) block)⟩
  | cons d tail => exact ⟨noLine, noBlock⟩

theorem next_of_skips {line start : Nat} {s leading : Text} {fs : List Filler} {c : Char} {r : Text}
    {l : Lexeme} (reads : Skips line s fs ⟨leading, start, c :: r⟩) (lexed : lexeme c r = .ok l) :
    next line s =
      .ok (some ⟨⟨l.kind, l.text, leading, start⟩, start + l.text.newlines, l.rest⟩) := by
  simp only [next, skip_complete reads, lexed]

/-- A token is read again if the text behind it is changed for one that is alike. -/
theorem next_congr {line mid : Nat} {s rest : Text} {t : Token}
    (h : next line s = .ok (some ⟨t, mid, rest⟩)) :
    ∃ u, s = u ++ rest ∧ mid = line + u.newlines ∧ ∀ rest', Alike rest rest' →
      next line (u ++ rest') = .ok (some ⟨t, mid, rest'⟩) := by
  obtain ⟨fs, c, r, reads, lexed, lines⟩ := next_some h
  obtain ⟨kind, text, leading, start⟩ := t
  simp only at reads lexed lines
  have whole : text ++ rest = c :: r := (lexeme_append lexed).1
  refine ⟨written fs ++ text, ?_, ?_, fun rest' same => ?_⟩
  · rw [reads.split, List.append_assoc, whole]
  · have start := reads.lines
    simp only [newlines_append] at start ⊢
    omega
  · obtain ⟨tail, rfl, again⟩ := lexeme_stops lexed same.stops
    obtain rfl := (List.cons.inj whole).2
    have reads' : Skips line (written fs ++ c :: tail ++ rest') fs
        ⟨leading, start, c :: (tail ++ rest')⟩ := by
      refine ⟨?_, reads.pieces.congr rfl, ?_, reads.leading, reads.lines⟩
      · rw [List.append_assoc, List.cons_append]
      · exact opensFiller_stops reads.stop same.stops
    rw [next_of_skips reads' again, ← lines]

/-- Some tokens at the beginning of a text, with the line and the text behind them. -/
inductive Reads : Nat → Text → List Token → Nat → Text → Prop where
  | done {line : Nat} {s : Text} : Reads line s [] line s
  | step {line mid line' : Nat} {s r rest : Text} {t : Token} {tokens : List Token} :
      next line s = .ok (some ⟨t, mid, r⟩) → Reads mid r tokens line' rest →
        Reads line s (t :: tokens) line' rest

namespace Reads

theorem congr {line line' : Nat} {s rest : Text} {tokens : List Token}
    (h : Reads line s tokens line' rest) :
    ∃ u, s = u ++ rest ∧ line' = line + u.newlines ∧ ∀ rest', Alike rest rest' →
      Reads line (u ++ rest') tokens line' rest' := by
  induction h with
  | done => exact ⟨[], rfl, rfl, fun _ _ => .done⟩
  | step found _ ih =>
    obtain ⟨u, split, lines, again⟩ := next_congr found
    obtain ⟨v, split', lines', again'⟩ := ih
    refine ⟨u ++ v, ?_, ?_, fun rest' same => ?_⟩
    · rw [split, split', List.append_assoc]
    · rw [lines', lines, newlines_append, Nat.add_assoc]
    · have behind := same.append v
      rw [← split'] at behind
      rw [List.append_assoc]
      exact .step (again _ behind) (again' rest' same)

theorem lex {line line' : Nat} {s rest : Text} {tokens : List Token}
    (h : Reads line s tokens line' rest) :
    lex line s = ⟨tokens ++ (lex line' rest).tokens, (lex line' rest).fault⟩ := by
  induction h with
  | done => rfl
  | step found _ ih =>
    rw [lex_some found, ih]
    rfl

theorem of_lex {line : Nat} {s : Text} {tokens more : List Token}
    (h : (Lexer.lex line s).tokens = tokens ++ more) :
    ∃ line' rest, Reads line s tokens line' rest := by
  induction tokens generalizing line s with
  | nil => exact ⟨line, s, .done⟩
  | cons t tokens ih =>
    have whole : Lexer.lex line s = ⟨t :: (tokens ++ more), (Lexer.lex line s).fault⟩ := by
      rw [← List.cons_append, ← h]
    obtain ⟨mid, behind, found, following⟩ := lex_cons whole
    obtain ⟨line', rest, reads⟩ := ih (congrArg Lexed.tokens following)
    exact ⟨line', rest, .step found reads⟩

end Reads

end MemberLift.Lexer
