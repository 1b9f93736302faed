import MemberLift.Token.Lexer

/-!
What may stand between tokens: blank space and whole comments.  `skip_ok_iff` says that skipping
reads exactly such pieces, as many as there are.
-/
namespace MemberLift.Lexer

theorem commentTail_sound {s closed rest : Text} (h : commentTail s = some (closed, rest)) :
    ∃ body, closed = body ++ ['*', '/'] ∧ s = body ++ '*' :: '/' :: rest ∧
      ¬ ['*', '/'] <:+: body := by
  fun_induction commentTail s generalizing closed rest with
  | case1 => cases h
  | case2 r =>
    cases h
    exact ⟨[], rfl, rfl, by simp⟩
  | case3 c r open_ ih =>
    obtain ⟨⟨b, a⟩, found, same⟩ := Option.map_eq_some_iff.mp h
    cases same
    obtain ⟨body, rfl, whole, free⟩ := ih found
    refine ⟨c :: body, rfl, by rw [whole]; rfl, ?_⟩
    rw [List.infix_cons_iff]
    rintro (⟨tail, begins⟩ | inside)
    · cases body with
      | nil => cases begins
      | cons d body =>
        cases begins
        exact open_ _ rfl whole
    · exact free inside

theorem commentTail_complete {body : Text} (free : ¬ ['*', '/'] <:+: body) (rest : Text) :
    commentTail (body ++ '*' :: '/' :: rest) = some (body ++ ['*', '/'], rest) := by
  induction body with
  | nil => rfl
  | cons c body ih =>
    rw [List.infix_cons_iff, not_or] at free
    have open_ : ∀ tail, c = '*' → body ++ '*' :: '/' :: rest = '/' :: tail → False := by
      intro tail star slash
      cases body with
      | nil => cases slash
      | cons d body =>
        cases slash
        exact free.1 ⟨body, by rw [star]; rfl⟩
    rw [List.cons_append, commentTail.eq_3 c _ open_, ih free.2]
    rfl

/-- A piece of what may stand between tokens. -/
inductive Filler where
  | blank (c : Char)
  | lineComment (body : Text)
  | blockComment (body : Text)
  deriving DecidableEq, Repr

namespace Filler

def text : Filler → Text
  | blank c => [c]
  | lineComment body => '/' :: '/' :: body
  | blockComment body => '/' :: '*' :: (body ++ ['*', '/'])

/-- What a piece counts as in front of a token. -/
def mark : Filler → Char
  | blank c => c
  | lineComment _ => ' '
  | blockComment _ => ' '

/-- Whether a piece ends where it should in front of a text: a line comment at the end of its line,
a block comment at its first closer. -/
def Whole (following : Text) : Filler → Prop
  | blank c => Alphabet.isBlank c = true
  | lineComment body => '\n' ∉ body ∧ ∀ c ∈ following.head?, c = '\n'
  | blockComment body => ¬ ['*', '/'] <:+: body

end Filler

def written (fillers : List Filler) : Text := fillers.flatMap Filler.text

def counted (fillers : List Filler) : Text := fillers.map Filler.mark

def AllWhole (following : Text) : List Filler → Prop
  | [] => True
  | f :: fs => f.Whole (written fs ++ following) ∧ AllWhole following fs

def opensFiller : Text → Bool
  | [] => false
  | c :: r => Alphabet.isBlank c || (c = '/' && (r.head? = some '/' || r.head? = some '*'))

@[simp] theorem written_nil : written [] = [] := rfl

@[simp] theorem written_cons (f : Filler) (fs : List Filler) :
    written (f :: fs) = f.text ++ written fs := rfl

@[simp] theorem counted_cons (f : Filler) (fs : List Filler) :
    counted (f :: fs) = f.mark :: counted fs := rfl

@[simp] theorem newlines_nil : Text.newlines [] = 0 := rfl

@[simp] theorem newlines_append (a b : Text) : (a ++ b).newlines = a.newlines + b.newlines :=
  List.count_append

@[simp] theorem newlines_cons (c : Char) (t : Text) :
    Text.newlines (c :: t) = (if c = '\n' then 1 else 0) + t.newlines := by
  simp only [Text.newlines, List.count_cons, beq_iff_eq]
  omega

theorem newlines_eq_zero {t : Text} (h : '\n' ∉ t) : t.newlines = 0 := List.count_eq_zero.mpr h

theorem lines_blank (line : Nat) (c : Char) :
    line + (Filler.blank c).text.newlines = if c = '\n' then line + 1 else line := by
  simp only [Filler.text, newlines_cons, newlines_nil]
  split <;> rfl

theorem newlines_lineComment {following body : Text}
    (piece : Filler.Whole following (.lineComment body)) :
    (Filler.lineComment body).text.newlines = 0 := by
  simp only [Filler.text, newlines_cons, newlines_eq_zero piece.1]
  rfl

theorem newlines_blockComment (body : Text) :
    (Filler.blockComment body).text.newlines = (body ++ ['*', '/']).newlines := by
  simp only [Filler.text, newlines_cons]
  simp

/-- What skipping is to read: whole pieces, as many as there are. -/
structure Skips (line : Nat) (s : Text) (fs : List Filler) (g : Gap) : Prop where
  split : s = written fs ++ g.rest
  pieces : AllWhole g.rest fs
  stop : opensFiller g.rest = false
  leading : g.leading = counted fs
  lines : g.line = line + (written fs).newlines

theorem Skips.cons {line : Nat} {s : Text} {fs : List Filler} {g : Gap} (f : Filler)
    (h : Skips (line + f.text.newlines) s fs g) (piece : f.Whole s) :
    Skips line (f.text ++ s) (f :: fs) (g.widen f.mark) where
  split := by rw [h.split, written_cons, List.append_assoc]; rfl
  pieces := ⟨h.split ▸ piece, h.pieces⟩
  stop := h.stop
  leading := by rw [Gap.widen, h.leading, counted_cons]
  lines := by
    have lines := h.lines
    simp only [Gap.widen, written_cons, newlines_append] at lines ⊢
    omega

theorem ok_of_map_widen {e : Except Fault Gap} {c : Char} {g : Gap}
    (h : e.map (Gap.widen c) = .ok g) : ∃ g', e = .ok g' ∧ g = g'.widen c := by
  cases e with
  | error fault => cases h
  | ok g' =>
    cases h
    exact ⟨g', rfl, rfl⟩

theorem opensFiller_eq_false {c : Char} {r : Text} (dark : ¬ Alphabet.isBlank c = true)
    (noLine : ∀ r', c = '/' → r = '/' :: r' → False)
    (noBlock : ∀ r', c = '/' → r = '*' :: r' → False) : opensFiller (c :: r) = false := by
  cases r with
  | nil => simp [opensFiller, dark]
  | cons d r =>
    have line : c = '/' → d ≠ '/' := fun slash same => noLine r slash (by rw [same])
    have block : c = '/' → d ≠ '*' := fun slash same => noBlock r slash (by rw [same])
    simp only [opensFiller, dark, List.head?_cons, Option.some.injEq, Bool.false_or,
      Bool.and_eq_false_imp, decide_eq_true_eq, Bool.or_eq_false_iff, decide_eq_false_iff_not]
    exact fun slash => ⟨line slash, block slash⟩

theorem lineComment_whole (r : Text) :
    Filler.Whole (r.dropWhile fun c => decide (c ≠ '\n'))
      (.lineComment (r.takeWhile fun c => decide (c ≠ '\n'))) := by
  constructor
  · intro inside
    have := List.all_eq_true.mp List.all_takeWhile _ inside
    simp at this
  · intro c first
    have ends := List.head?_dropWhile_not (fun c => decide (c ≠ '\n')) r
    rw [Option.mem_def.mp first] at ends
    simpa using ends

theorem skip_sound {line : Nat} {s : Text} {g : Gap} (h : skip line s = .ok g) :
    ∃ fs, Skips line s fs g := by
  fun_induction skip line s generalizing g with
  | case1 line =>
    cases h
    exact ⟨[], rfl, trivial, rfl, rfl, rfl⟩
  | case2 line c r blank ih =>
    obtain ⟨g', found, rfl⟩ := ok_of_map_widen h
    obtain ⟨fs, reads⟩ := ih found
    rw [dite_eq_ite, ← lines_blank] at reads
    exact ⟨_, Skips.cons (.blank c) reads blank⟩
  | case3 line r dark ih =>
    obtain ⟨g', found, rfl⟩ := ok_of_map_widen h
    obtain ⟨fs, reads⟩ := ih found
    have piece := lineComment_whole r
    have comment := Skips.cons _ (by rwa [newlines_lineComment piece, Nat.add_zero]) piece
    simp only [Filler.text, List.cons_append, List.takeWhile_append_dropWhile] at comment
    exact ⟨_, comment⟩
  | case4 => cases h
  | case5 line r body rest closed dark ih =>
    obtain ⟨g', found, rfl⟩ := ok_of_map_widen h
    obtain ⟨fs, reads⟩ := ih found
    obtain ⟨inner, rfl, rfl, free⟩ := commentTail_sound closed
    have comment := Skips.cons (.blockComment inner) (by rwa [newlines_blockComment]) free
    simp only [Filler.text, List.cons_append, List.append_assoc] at comment
    exact ⟨_, comment⟩
  | case6 line c r dark noLine noBlock =>
    cases h
    exact ⟨[], rfl, trivial, opensFiller_eq_false dark noLine noBlock, rfl, rfl⟩

theorem skip_stop {line : Nat} {s : Text} (stop : opensFiller s = false) :
    skip line s = .ok ⟨[], line, s⟩ := by
  cases s with
  | nil => rw [skip]
  | cons c r =>
    simp only [opensFiller, Bool.or_eq_false_iff, Bool.and_eq_false_imp, decide_eq_true_eq,
      decide_eq_false_iff_not] at stop
    obtain ⟨dark, plain⟩ := stop
    rw [skip.eq_def]
    simp only [dark, Bool.false_eq_true, if_false]
    split
    · exact absurd rfl (plain rfl).1
    · exact absurd rfl (plain rfl).2
    · rfl

theorem dropWhile_lineComment {body s : Text} (piece : Filler.Whole s (.lineComment body)) :
    (body ++ s).dropWhile (fun c => decide (c ≠ '\n')) = s := by
  have inside : ∀ c ∈ body, decide (c ≠ '\n') = true := by
    intro c member
    have other : c ≠ '\n' := fun same => piece.1 (same ▸ member)
    simpa using other
  rw [List.dropWhile_append_of_pos inside]
  cases s with
  | nil => rfl
  | cons c r =>
    have first := piece.2 c rfl
    simp [first]

theorem skip_piece {s : Text} (f : Filler) (piece : f.Whole s) (line : Nat) :
    skip line (f.text ++ s) = (skip (line + f.text.newlines) s).map (Gap.widen f.mark) := by
  cases f with
  | blank c =>
    have blank : Alphabet.isBlank c = true := piece
    rw [lines_blank, Filler.text, List.singleton_append, skip.eq_def]
    simp only [blank, if_true]
    rfl
  | lineComment body =>
    rw [newlines_lineComment piece, Filler.text, List.cons_append, List.cons_append, skip.eq_def]
    simp only [show Alphabet.isBlank '/' = false from rfl, Bool.false_eq_true, if_false,
      dropWhile_lineComment piece]
    rfl
  | blockComment body =>
    have closed := commentTail_complete piece s
    rw [newlines_blockComment, Filler.text, List.cons_append, List.cons_append, List.append_assoc,
      skip.eq_def]
    simp only [show Alphabet.isBlank '/' = false from rfl, Bool.false_eq_true, if_false]
    split
    · rename_i open_
      rw [List.cons_append, List.cons_append, List.nil_append, closed] at open_
      cases open_
    · rename_i found
      rw [List.cons_append, List.cons_append, List.nil_append, closed] at found
      cases found
      rfl

theorem skip_complete {line : Nat} {s : Text} {fs : List Filler} {g : Gap}
    (h : Skips line s fs g) : skip line s = .ok g := by
  induction fs generalizing line s g with
  | nil =>
    obtain ⟨leading, lines, rest⟩ := g
    obtain ⟨rfl, -, stop, rfl, rfl⟩ := h
    exact skip_stop stop
  | cons f fs ih =>
    obtain ⟨leading, lines, rest⟩ := g
    obtain ⟨rfl, ⟨piece, pieces⟩, stop, rfl, rfl⟩ := h
    have reads : Skips (line + f.text.newlines) (written fs ++ rest) fs
        ⟨counted fs, line + f.text.newlines + (written fs).newlines, rest⟩ :=
      ⟨rfl, pieces, stop, rfl, rfl⟩
    have tail := ih reads
    rw [written_cons, List.append_assoc, skip_piece f piece, tail]
    simp [Except.map, Gap.widen, Nat.add_assoc]

/-- Skipping reads exactly the pieces that a text begins with. -/
theorem skip_ok_iff {line : Nat} {s : Text} {g : Gap} :
    skip line s = .ok g ↔ ∃ fs, Skips line s fs g := by
  constructor
  · exact skip_sound
  · rintro ⟨fs, h⟩
    exact skip_complete h

end MemberLift.Lexer
