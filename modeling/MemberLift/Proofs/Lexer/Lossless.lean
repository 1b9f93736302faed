import MemberLift.Proofs.Lexer.Filler

/-!
Nothing of a source is lost in its tokens.  Between them stand whole pieces of blank space and
comments, and every token knows its line.
-/
namespace MemberLift.Lexer

theorem next_some {line : Nat} {s : Text} {n : Next} (h : next line s = .ok (some n)) :
    ∃ fs c r, Skips line s fs ⟨n.token.leading, n.token.line, c :: r⟩ ∧
      lexeme c r = .ok ⟨n.token.kind, n.token.text, n.rest⟩ ∧
      n.line = n.token.line + n.token.text.newlines := by
  simp only [next] at h
  split at h
  · cases h
  · cases h
  · rename_i leading start c r skipped
    split at h
    · cases h
    · rename_i l found
      cases h
      obtain ⟨fs, reads⟩ := skip_sound skipped
      exact ⟨fs, c, r, reads, found, rfl⟩

theorem next_none {line : Nat} {s : Text} (h : next line s = .ok none) :
    ∃ fs, s = written fs ∧ AllWhole [] fs := by
  simp only [next] at h
  split at h
  · cases h
  · rename_i skipped
    obtain ⟨fs, reads⟩ := skip_sound skipped
    exact ⟨fs, by simpa using reads.split, reads.pieces⟩
  · split at h <;> cases h

theorem lex_error {line : Nat} {s : Text} {fault : Fault} (h : next line s = .error fault) :
    lex line s = ⟨[], some fault⟩ := by
  rw [lex.eq_def]
  split <;> simp_all

theorem lex_none {line : Nat} {s : Text} (h : next line s = .ok none) :
    lex line s = ⟨[], none⟩ := by
  rw [lex.eq_def]
  split <;> simp_all

theorem lex_some {line : Nat} {s : Text} {n : Next} (h : next line s = .ok (some n)) :
    lex line s = (lex n.line n.rest).push n.token := by
  rw [lex.eq_def]
  split <;> simp_all

theorem lex_cons {line : Nat} {s : Text} {t : Token} {tokens : List Token} {fault : Option Fault}
    (h : lex line s = ⟨t :: tokens, fault⟩) :
    ∃ mid rest, next line s = .ok (some ⟨t, mid, rest⟩) ∧ lex mid rest = ⟨tokens, fault⟩ := by
  cases found : next line s with
  | error cause =>
    rw [lex_error found] at h
    cases h
  | ok first =>
    cases first with
    | none =>
      rw [lex_none found] at h
      cases h
    | some n =>
      obtain ⟨u, mid, rest⟩ := n
      rw [lex_some found] at h
      cases more : lex mid rest with
      | mk following fault' =>
        rw [more] at h
        cases h
        exact ⟨mid, rest, rfl, more⟩

theorem tokenize_ok_iff {line : Nat} {s : Text} {tokens : List Token} :
    tokenize line s = .ok tokens ↔ lex line s = ⟨tokens, none⟩ := by
  simp only [tokenize]
  split
  · rename_i found
    simp [found]
  · rename_i found
    simp [found]

/-- A text put together from tokens and the pieces in front of each. -/
def spread (parts : List (List Filler × Token)) : Text :=
  parts.flatMap fun p => written p.1 ++ p.2.text

@[simp] theorem spread_cons (fs : List Filler) (t : Token) (parts : List (List Filler × Token)) :
    spread ((fs, t) :: parts) = written fs ++ t.text ++ spread parts := rfl

/-- What a token tells about its place between two texts: its leading space is all the blank space
and comments in front of it, and its line counts the line feeds in front of its first character. -/
structure Placed (line : Nat) (before following : Text) (fs : List Filler) (t : Token) : Prop where
  nonempty : t.text ≠ []
  pieces : AllWhole (t.text ++ following) fs
  stop : opensFiller (t.text ++ following) = false
  leading : t.leading = counted fs
  lines : t.line = line + (before ++ written fs).newlines

/-- Every part of a text is placed where it stands. -/
def AllPlaced (line : Nat) (parts : List (List Filler × Token)) (last : List Filler) : Prop :=
  ∀ before fs t after, parts = before ++ (fs, t) :: after →
    Placed line (spread before) (spread after ++ written last) fs t

theorem AllPlaced.cons {line : Nat} {fs : List Filler} {t : Token}
    {parts : List (List Filler × Token)} {last : List Filler}
    (first : Placed line [] (spread parts ++ written last) fs t)
    (rest : AllPlaced (t.line + t.text.newlines) parts last) :
    AllPlaced line ((fs, t) :: parts) last := by
  intro before fs' t' after same
  cases before with
  | nil =>
    cases same
    exact first
  | cons p before =>
    cases same
    have placed := rest before fs' t' after rfl
    have start := first.lines
    have lines := placed.lines
    refine ⟨placed.nonempty, placed.pieces, placed.stop, placed.leading, ?_⟩
    simp only [spread_cons, newlines_append, newlines_nil] at start lines ⊢
    omega

theorem lex_parts {line : Nat} {s : Text} {tokens : List Token} (h : lex line s = ⟨tokens, none⟩) :
    ∃ parts last, tokens = parts.map Prod.snd ∧ s = spread parts ++ written last ∧
      AllWhole [] last ∧ AllPlaced line parts last := by
  fun_induction lex line s generalizing tokens with
  | case1 => cases h
  | case2 line s found =>
    cases h
    obtain ⟨fs, rfl, pieces⟩ := next_none found
    exact ⟨[], fs, rfl, rfl, pieces, fun before _ _ _ same => by cases before <;> cases same⟩
  | case3 line s n found ih =>
    cases rest : lex n.line n.rest with
    | mk more fault =>
      rw [rest] at h
      cases h
      obtain ⟨parts, last, rfl, split, pieces, placed⟩ := ih rest
      obtain ⟨fs, c, r, reads, lexed, lines⟩ := next_some found
      obtain ⟨whole, nonempty⟩ := lexeme_append lexed
      have behind : c :: r = n.token.text ++ (spread parts ++ written last) := by
        rw [← split, ← whole]
      refine ⟨(fs, n.token) :: parts, last, rfl, ?_, pieces, ?_⟩
      · rw [reads.split, behind, spread_cons]
        simp
      · apply AllPlaced.cons
        · exact ⟨nonempty, behind ▸ reads.pieces, behind ▸ reads.stop, reads.leading, reads.lines⟩
        · exact lines ▸ placed

/-- A source is its tokens with whole pieces of blank space and comments between them. -/
theorem tokenize_lossless {line : Nat} {s : Text} {tokens : List Token}
    (h : tokenize line s = .ok tokens) :
    ∃ parts last, tokens = parts.map Prod.snd ∧ s = spread parts ++ written last ∧
      AllWhole [] last ∧ AllPlaced line parts last :=
  lex_parts (tokenize_ok_iff.mp h)

def commented : Text := "int /* size */ x // first\n = ".toList

theorem tokenize_commented :
    ∃ parts last, [⟨.identifier, "int".toList, [], 7⟩, ⟨.identifier, "x".toList, "   ".toList, 7⟩,
        ⟨.punctuator, "=".toList, "  \n ".toList, 8⟩] = parts.map Prod.snd ∧
      commented = spread parts ++ written last ∧ AllWhole [] last ∧ AllPlaced 7 parts last :=
  tokenize_lossless (tokenize_ok_iff.mpr (by decide +kernel))

end MemberLift.Lexer
