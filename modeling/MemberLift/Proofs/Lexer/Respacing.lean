import MemberLift.Proofs.Lexer.Reads
import MemberLift.Proofs.Token.Recast

/-!
Reading what was written from tokens.  Comments are gone and every gap is one space, but the same
tokens are read again.
-/
namespace MemberLift.Lexer

/-- Tokens as they stand in a text that was written from them. -/
def respaced (line : Nat) : List Token → List Token
  | [] => []
  | t :: rest => ⟨t.kind, t.text, t.spacing, line⟩ :: respaced (line + t.text.newlines) rest

def flush : List Token → List Token
  | [] => []
  | t :: rest => { t with leading := [] } :: rest

theorem renderSpaced_cons (t : Token) (tokens : List Token) :
    renderSpaced (t :: tokens) = t.spacing ++ (t.text ++ renderSpaced tokens) := by
  simp only [renderSpaced, List.flatMap_cons, Token.spaced, Token.spacing]
  split <;> simp

theorem ahead_written {fs : List Filler} {following : Text} (pieces : AllWhole following fs)
    (nonempty : fs ≠ []) : ahead (written fs ++ following) = [] := by
  cases fs with
  | nil => exact absurd rfl nonempty
  | cons f fs =>
    cases f with
    | blank c =>
      have blank : Alphabet.isBlank c = true := pieces.1
      rw [written_cons, Filler.text, List.append_assoc, List.singleton_append, ahead_cons,
        if_neg (by simp [isVisible, blank])]
    | lineComment body => rfl
    | blockComment body => rfl

/-- A token is read again behind the space that is written in front of it. -/
theorem next_again {line mid : Nat} {s rest rest' : Text} {t : Token}
    (h : next line s = .ok (some ⟨t, mid, rest⟩)) (stops : Stops rest rest') (line' : Nat)
    (u : Token) :
    next line' (u.spacing ++ (t.text ++ rest')) =
      .ok (some ⟨⟨t.kind, t.text, u.spacing, line'⟩, line' + t.text.newlines, rest'⟩) := by
  obtain ⟨fs, c, r, reads, lexed, lines⟩ := next_some h
  obtain ⟨kind, text, leading, start⟩ := t
  simp only at lexed
  have whole : text ++ rest = c :: r := (lexeme_append lexed).1
  obtain ⟨tail, rfl, again⟩ := lexeme_stops lexed stops
  obtain rfl := (List.cons.inj whole).2
  have stop := opensFiller_stops reads.stop stops
  rw [Token.spacing]
  split
  · have none_ : Skips line' (c :: (tail ++ rest')) [] ⟨[], line', c :: (tail ++ rest')⟩ :=
      ⟨rfl, trivial, stop, rfl, rfl⟩
    exact next_of_skips none_ again
  · have one : Skips line' (' ' :: c :: (tail ++ rest')) [.blank ' ']
        ⟨[' '], line', c :: (tail ++ rest')⟩ :=
      ⟨rfl, ⟨rfl, trivial⟩, stop, rfl, rfl⟩
    exact next_of_skips one again

theorem alike_cons {line mid : Nat} {s rest : Text} {t : Token} {tokens : List Token}
    (h : next line s = .ok (some ⟨t, mid, rest⟩)) (same : Alike rest (renderSpaced tokens)) :
    Alike s (renderSpaced (t :: tokens)) := by
  obtain ⟨fs, c, r, reads, lexed, _⟩ := next_some h
  have whole : t.text ++ rest = c :: r := (lexeme_append lexed).1
  rw [renderSpaced_cons, reads.split]
  simp only
  rw [← whole]
  have leading : t.leading = counted fs := reads.leading
  cases fs with
  | nil =>
    rw [Token.spacing, leading]
    exact same.append t.text
  | cons f fs =>
    have gap := ahead_written reads.pieces (by simp)
    rw [← whole] at gap
    rw [Token.spacing, leading]
    exact ⟨gap, fun first => by cases first⟩

theorem lex_renderSpaced {line : Nat} {s : Text} {tokens : List Token}
    (h : lex line s = ⟨tokens, none⟩) :
    Alike s (renderSpaced tokens) ∧
      ∀ line', lex line' (renderSpaced tokens) = ⟨respaced line' tokens, none⟩ := by
  fun_induction lex line s generalizing tokens with
  | case1 => cases h
  | case2 line s found =>
    cases h
    obtain ⟨fs, rfl, pieces⟩ := next_none found
    refine ⟨⟨?_, fun first => by cases first⟩, fun line' => ?_⟩
    · cases fs with
      | nil => rfl
      | cons f fs =>
        have gap := ahead_written pieces (by simp)
        rw [List.append_nil] at gap
        exact gap
    · exact lex_none (by simp [renderSpaced, next, skip])
  | case3 line s n found ih =>
    obtain ⟨t, mid, r⟩ := n
    cases rest : lex mid r with
    | mk more fault =>
      rw [rest] at h
      cases h
      obtain ⟨same, again⟩ := ih rest
      refine ⟨alike_cons found same, fun line' => ?_⟩
      rw [renderSpaced_cons, lex_some (next_again found same.stops line' t), again]
      rfl

theorem render_eq_renderSpaced (tokens : List Token) :
    render tokens = renderSpaced (flush tokens) := by
  cases tokens with
  | nil => rfl
  | cons t tokens =>
    rw [flush, renderSpaced_cons]
    rfl

theorem tokenize_render_flush {line line' : Nat} {s : Text} {tokens : List Token}
    (h : tokenize line s = .ok tokens) :
    tokenize line' (render tokens) = .ok (respaced line' (flush tokens)) := by
  rw [tokenize_ok_iff] at h ⊢
  rw [render_eq_renderSpaced]
  cases tokens with
  | nil => exact (lex_renderSpaced h).2 line'
  | cons t tokens =>
    obtain ⟨mid, rest, found, behind⟩ := lex_cons h
    obtain ⟨same, again⟩ := lex_renderSpaced behind
    rw [flush, renderSpaced_cons, lex_some (next_again found same.stops line' _), again]
    rfl

end MemberLift.Lexer
