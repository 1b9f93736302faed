import MemberLift.Proofs.Lexer.Reads

/-!
Texts of comments alone, in which a run finds no tokens.  What a text put into a comment does to it
depends on the comment: a block comment goes on behind a line feed, a line comment does not.
-/
namespace MemberLift.Lexer

def OnlyComments (s : Text) : Prop := ∃ fs, s = written fs ∧ AllWhole [] fs

/-- What stands in front of a place in a line comment. -/
def InLineComment (before : Text) : Prop :=
  ∃ fs body, before = written fs ++ '/' :: '/' :: body ∧ AllWhole ['/'] fs ∧ '\n' ∉ body

/-- What stands in front of a place in a block comment. -/
def InBlockComment (before : Text) : Prop :=
  ∃ fs body, before = written fs ++ '/' :: '*' :: body ∧ AllWhole ['/'] fs ∧
    ¬ ['*', '/'] <:+: body

theorem onlyComments_iff_skip (line : Nat) {s : Text} :
    OnlyComments s ↔ ∃ leading last, skip line s = .ok ⟨leading, last, []⟩ := by
  constructor
  · rintro ⟨fs, rfl, pieces⟩
    have reads : Skips line (written fs) fs ⟨counted fs, line + (written fs).newlines, []⟩ :=
      ⟨(List.append_nil _).symm, pieces, rfl, rfl, rfl⟩
    exact ⟨_, _, skip_complete reads⟩
  · rintro ⟨leading, last, skipped⟩
    obtain ⟨fs, reads⟩ := skip_sound skipped
    exact ⟨fs, reads.split.trans (List.append_nil _), reads.pieces⟩

/-- A run finds no tokens in comments, and in no other text. -/
theorem tokenize_eq_nil_iff {line : Nat} {s : Text} :
    tokenize line s = .ok [] ↔ OnlyComments s := by
  rw [tokenize_ok_iff]
  constructor
  · intro empty
    cases found : next line s with
    | error fault =>
      rw [lex_error found] at empty
      cases empty
    | ok first =>
      cases first with
      | none => exact next_none found
      | some n =>
        rw [lex_some found] at empty
        cases empty
  · intro comments
    obtain ⟨leading, last, skipped⟩ := (onlyComments_iff_skip line).mp comments
    apply lex_none
    simp only [next, skipped]

theorem onlyComments_append {fs : List Filler} {s : Text} (pieces : AllWhole s fs) :
    OnlyComments (written fs ++ s) ↔ OnlyComments s := by
  induction fs with
  | nil => exact Iff.rfl
  | cons f fs ih =>
    obtain ⟨piece, pieces⟩ := pieces
    rw [← ih pieces, written_cons, List.append_assoc, onlyComments_iff_skip 0,
      onlyComments_iff_skip (0 + f.text.newlines), skip_piece f piece]
    constructor
    · rintro ⟨leading, last, skipped⟩
      obtain ⟨g, found, same⟩ := ok_of_map_widen skipped
      cases g
      cases same
      exact ⟨_, _, found⟩
    · rintro ⟨leading, last, skipped⟩
      exact ⟨_, _, by rw [skipped]; rfl⟩

theorem not_onlyComments {c : Char} {r : Text} (stop : opensFiller (c :: r) = false) :
    ¬ OnlyComments (c :: r) := by
  intro comments
  obtain ⟨leading, last, skipped⟩ := (onlyComments_iff_skip 0).mp comments
  rw [skip_stop stop] at skipped
  cases skipped

theorem onlyComments_blank {blank s : Text} (all : ∀ c ∈ blank, Alphabet.isBlank c = true) :
    OnlyComments (blank ++ s) ↔ OnlyComments s := by
  induction blank with
  | nil => exact Iff.rfl
  | cons c blank ih =>
    have first : AllWhole (blank ++ s) [.blank c] := ⟨all c List.mem_cons_self, trivial⟩
    have tail := ih fun d inside => all d (List.mem_cons_of_mem c inside)
    exact (onlyComments_append first).trans tail

theorem onlyComments_line {body : Text} (single : '\n' ∉ body) (s : Text) :
    OnlyComments ('/' :: '/' :: (body ++ '\n' :: s)) ↔ OnlyComments s := by
  have pieces : AllWhole s [.lineComment body, .blank '\n'] := by
    refine ⟨⟨single, ?_⟩, rfl, trivial⟩
    intro c first
    exact (Option.some.inj first).symm
  have whole := onlyComments_append pieces
  simpa [Filler.text] using whole

theorem onlyComments_block {s : Text} :
    OnlyComments ('/' :: '*' :: s) ↔
      ∃ rest ∈ (commentTail s).map Prod.snd, OnlyComments rest := by
  constructor
  · rintro ⟨fs, split, pieces⟩
    cases fs with
    | nil => cases split
    | cons f fs =>
      cases f with
      | blank c =>
        have blank : Alphabet.isBlank c = true := pieces.1
        obtain ⟨rfl, _⟩ := List.cons.inj split
        cases blank
      | lineComment body => cases split
      | blockComment body =>
        simp only [written_cons, Filler.text, List.cons_append, List.append_assoc,
          List.nil_append, List.cons.injEq, true_and] at split
        rw [split, commentTail_complete pieces.1]
        exact ⟨_, rfl, fs, rfl, pieces.2⟩
  · rintro ⟨rest, found, comments⟩
    obtain ⟨⟨closed, rest⟩, taken, rfl⟩ := Option.map_eq_some_iff.mp found
    obtain ⟨body, rfl, rfl, free⟩ := commentTail_sound taken
    have piece : AllWhole rest [.blockComment body] := ⟨free, trivial⟩
    have whole := onlyComments_append piece
    simp only [written_cons, written_nil, Filler.text, List.append_nil, List.cons_append,
      List.append_assoc, List.nil_append] at whole
    exact whole.mpr comments

theorem exists_closer {s : Text} (closed : ['*', '/'] <:+: s) :
    ∃ body behind, s = body ++ '*' :: '/' :: behind ∧ ¬ ['*', '/'] <:+: body := by
  have found : ∃ p, commentTail s = some p := by
    fun_induction commentTail s with
    | case1 => simp at closed
    | case2 rest => exact ⟨_, rfl⟩
    | case3 c rest open_ ih =>
      rcases List.infix_cons_iff.mp closed with ⟨tail, here⟩ | behind
      · cases here
        exact absurd rfl (open_ _ rfl)
      · obtain ⟨p, found⟩ := ih behind
        exact ⟨_, by rw [found]; rfl⟩
  obtain ⟨⟨body, rest⟩, found⟩ := found
  obtain ⟨body, _, split, free⟩ := commentTail_sound found
  exact ⟨body, rest, split, free⟩

theorem written_append (fs gs : List Filler) : written (fs ++ gs) = written fs ++ written gs :=
  List.flatMap_append

theorem allWhole_append {following : Text} {fs gs : List Filler} :
    AllWhole following (fs ++ gs) ↔
      AllWhole (written gs ++ following) fs ∧ AllWhole following gs := by
  induction fs with
  | nil => simp [AllWhole]
  | cons f fs ih =>
    simp only [List.cons_append, AllWhole, ih, written_append, List.append_assoc, and_assoc]

theorem written_eq_append_cons {fs : List Filler} {before after : Text} {c : Char}
    (h : written fs = before ++ c :: after) :
    ∃ front f behind start rest, fs = front ++ f :: behind ∧ before = written front ++ start ∧
      f.text = start ++ c :: rest := by
  induction fs generalizing before with
  | nil => simp at h
  | cons f fs ih =>
    rw [written_cons] at h
    rcases List.append_eq_append_iff.mp h with ⟨more, rfl, tail⟩ | ⟨rest, split, tail⟩
    · obtain ⟨front, g, behind, start, rest, rfl, rfl, text⟩ := ih tail
      refine ⟨f :: front, g, behind, start, rest, rfl, ?_, text⟩
      rw [written_cons, List.append_assoc]
    · cases rest with
      | nil =>
        rw [List.append_nil] at split
        have tail : written fs = [] ++ c :: after := tail.symm
        obtain ⟨front, g, behind, start, rest, rfl, empty, text⟩ := ih tail
        refine ⟨f :: front, g, behind, start, rest, rfl, ?_, text⟩
        rw [written_cons, List.append_assoc, ← empty, List.append_nil, split]
      | cons d rest =>
        cases tail
        exact ⟨[], f, fs, before, rest, rfl, rfl, split⟩

theorem in_comment {before after : Text} {c : Char} (dark : Alphabet.isBlank c = false)
    (noSlash : c ≠ '/') (noStar : c ≠ '*') (comments : OnlyComments (before ++ c :: after)) :
    InLineComment before ∨ InBlockComment before := by
  obtain ⟨fs, split, pieces⟩ := comments
  obtain ⟨front, f, behind, start, rest, rfl, rfl, text⟩ := written_eq_append_cons split.symm
  obtain ⟨whole, piece, _⟩ := allWhole_append.mp pieces
  cases f with
  | blank d =>
    have blank : Alphabet.isBlank d = true := piece
    cases start with
    | nil => cases text; rw [dark] at blank; cases blank
    | cons e start => simp [Filler.text] at text
  | lineComment body =>
    left
    rcases start with _ | ⟨a, _ | ⟨b, start⟩⟩
    · cases text; exact absurd rfl noSlash
    · cases text; exact absurd rfl noSlash
    · cases text
      refine ⟨front, start, rfl, whole.congr rfl, fun inside => ?_⟩
      exact piece.1 (List.mem_append_left _ inside)
  | blockComment body =>
    right
    rcases start with _ | ⟨a, _ | ⟨b, start⟩⟩
    · cases text; exact absurd rfl noSlash
    · cases text; exact absurd rfl noStar
    · simp only [Filler.text, List.cons_append, List.cons.injEq] at text
      obtain ⟨rfl, rfl, text⟩ := text
      refine ⟨front, start, rfl, whole.congr rfl, fun inside => ?_⟩
      -- The place is in front of the closer, so the body goes on at least up to there.
      rcases List.append_eq_append_iff.mp text with ⟨more, rfl, closer⟩ | ⟨more, rfl, _⟩
      · rcases more with _ | ⟨a, _ | ⟨b, more⟩⟩
        · cases closer; exact absurd rfl noStar
        · cases closer; exact absurd rfl noSlash
        · simp at closer
      · exact piece (inside.trans (List.prefix_append start more).isInfix)

theorem InLineComment.append {before : Text} (h : InLineComment before) {fs : List Filler}
    (pieces : AllWhole before fs) : InLineComment (written fs ++ before) := by
  obtain ⟨gs, body, rfl, whole, single⟩ := h
  refine ⟨fs ++ gs, body, ?_, allWhole_append.mpr ⟨pieces.congr ?_, whole⟩, single⟩
  · rw [written_append, List.append_assoc]
  · cases gs <;> simp [List.head?_append]

theorem InLineComment.insert {before body : Text} (h : InLineComment before) (single : '\n' ∉ body)
    (after : Text) : OnlyComments (before ++ (body ++ '\n' :: after)) ↔ OnlyComments after := by
  obtain ⟨fs, start, rfl, pieces, started⟩ := h
  have whole : '\n' ∉ start ++ body := by
    intro inside
    exact (List.mem_append.mp inside).elim started single
  have front : AllWhole ('/' :: '/' :: (start ++ body ++ '\n' :: after)) fs := pieces.congr rfl
  have line := (onlyComments_append front).trans (onlyComments_line whole after)
  simpa using line

theorem commentTail_inside {body after : Text} (free : ¬ ['*', '/'] <:+: body)
    (apart : after.head? ≠ some '/') :
    (commentTail (body ++ after)).map Prod.snd = (commentTail after).map Prod.snd := by
  induction body with
  | nil => rfl
  | cons c body ih =>
    rw [List.infix_cons_iff, not_or] at free
    have open_ : ∀ tail, c = '*' → body ++ after = '/' :: tail → False := by
      intro tail star slash
      cases body with
      | nil =>
        rw [List.nil_append] at slash
        rw [slash] at apart
        exact apart rfl
      | cons d body =>
        cases slash
        exact free.1 ⟨body, by rw [star]; rfl⟩
    rw [List.cons_append, commentTail.eq_3 c _ open_, Option.map_map, ← ih free.2]
    rfl

theorem InBlockComment.onlyComments_iff {before after : Text} (h : InBlockComment before)
    (apart : after.head? ≠ some '/') :
    OnlyComments (before ++ after) ↔
      ∃ rest ∈ (commentTail after).map Prod.snd, OnlyComments rest := by
  obtain ⟨fs, start, rfl, pieces, free⟩ := h
  have front : AllWhole ('/' :: '*' :: (start ++ after)) fs := pieces.congr rfl
  have block := (onlyComments_append front).trans onlyComments_block
  rw [commentTail_inside free apart] at block
  simpa using block

theorem InBlockComment.insert {before inserted after : Text} (h : InBlockComment before)
    (noSlash : '/' ∉ inserted) (noStar : '*' ∉ inserted) (apart : after.head? ≠ some '/') :
    OnlyComments (before ++ (inserted ++ after)) ↔ OnlyComments (before ++ after) := by
  have free : ¬ ['*', '/'] <:+: inserted := fun inside => noStar (inside.subset List.mem_cons_self)
  have apart' : (inserted ++ after).head? ≠ some '/' := by
    cases inserted with
    | nil => exact apart
    | cons c inserted =>
      intro slash
      exact noSlash (Option.some.inj slash ▸ List.mem_cons_self)
  rw [h.onlyComments_iff apart, h.onlyComments_iff apart', commentTail_inside free apart]

end MemberLift.Lexer
