import MemberLift.Proofs.Lexer.Lossless
import MemberLift.Proofs.Lexer.Ahead
import MemberLift.Proofs.Text.Endings
import MemberLift.Proofs.Token.Recast

/-!
Reading a text with other line endings.  Line comments take the carriage return along, raw strings
keep it, and quoted literals never see it, so the tokens are the same up to the spacing and the line
feeds in raw strings.
-/
namespace MemberLift.Lexer

/-- A text with line feeds that can be replaced by any line ending. -/
def Convertible (t : Text) : Prop := '\r' ∉ t ∧ ¬ ['\\', '\n'] <:+: t

theorem Convertible.part {s t : Text} (h : Convertible t) (inside : s <:+: t) : Convertible s :=
  ⟨fun member => h.1 (inside.subset member), fun found => h.2 (found.trans inside)⟩

theorem Convertible.tail {c : Char} {t : Text} (h : Convertible (c :: t)) : Convertible t :=
  h.part (List.infix_cons List.infix_rfl)

theorem Convertible.left {s t : Text} (h : Convertible (s ++ t)) : Convertible s :=
  h.part (List.prefix_append s t).isInfix

theorem Convertible.right {s t : Text} (h : Convertible (s ++ t)) : Convertible t :=
  h.part (List.suffix_append s t).isInfix

variable {e : LineEnding}

theorem newlines_apply (e : LineEnding) (t : Text) : (e.apply t).newlines = t.newlines := by
  induction t with
  | nil => rfl
  | cons c t ih =>
    by_cases feed : c = '\n'
    · rw [feed, LineEnding.apply_newline, newlines_append, newlines_cons, ih]
      cases e with
      | lf => rfl
      | crlf => rfl
    · rw [LineEnding.apply_cons e feed, newlines_cons, newlines_cons, ih]

theorem commentTail_text (e : LineEnding) (t : Text) :
    commentTail (e.text ++ t) = (commentTail t).map fun p => (e.text ++ p.1, p.2) := by
  cases e with
  | lf => simp [LineEnding.text, commentTail]
  | crlf => simp [LineEnding.text, commentTail, Function.comp_def]

theorem commentTail_apply (e : LineEnding) (s : Text) :
    commentTail (e.apply s) = (commentTail s).map (Prod.map e.apply e.apply) := by
  fun_induction commentTail s with
  | case1 => rfl
  | case2 rest =>
    rw [LineEnding.apply_cons e (by decide), LineEnding.apply_cons e (by decide), commentTail]
    rfl
  | case3 c r open_ ih =>
    by_cases feed : c = '\n'
    · rw [feed, LineEnding.apply_newline, commentTail_text, ih]
      cases commentTail r with
      | none => rfl
      | some p => simp [LineEnding.apply_newline]
    · have still : ∀ rest, c = '*' → e.apply r = '/' :: rest → False := by
        intro rest star slash
        obtain ⟨v, behind, _⟩ := LineEnding.apply_eq_cons e slash (by decide) (by decide)
        exact open_ v star behind
      rw [LineEnding.apply_cons e feed, commentTail.eq_3 c _ still, ih]
      cases commentTail r with
      | none => rfl
      | some p => simp [LineEnding.apply_cons e feed]

/-- Whether a gap is another one as it is read with other line endings. -/
inductive GapIn (e : LineEnding) : Except Fault Gap → Except Fault Gap → Prop where
  | error (fault : Fault) : GapIn e (.error fault) (.error fault)
  | ok {leading' leading : Text} (line : Nat) (rest : Text) :
      leading'.isEmpty = leading.isEmpty →
        GapIn e (.ok ⟨leading', line, e.apply rest⟩) (.ok ⟨leading, line, rest⟩)

theorem GapIn.widen {x' x : Except Fault Gap} (h : GapIn e x' x) (c' c : Char) :
    GapIn e (x'.map (Gap.widen c')) (x.map (Gap.widen c)) := by
  cases h with
  | error fault => exact .error fault
  | ok line rest _ => exact .ok line rest rfl

theorem GapIn.widen_again {x' x : Except Fault Gap} (h : GapIn e x' x) (c' d' c : Char) :
    GapIn e ((x'.map (Gap.widen d')).map (Gap.widen c')) (x.map (Gap.widen c)) := by
  cases h with
  | error fault => exact .error fault
  | ok line rest _ => exact .ok line rest rfl

theorem GapIn.of_widen {x' x : Except Fault Gap} {d' : Char} (h : GapIn e (x'.map (Gap.widen d')) x)
    (c' c : Char) : GapIn e (x'.map (Gap.widen c')) (x.map (Gap.widen c)) := by
  cases x' with
  | error fault =>
    cases h
    exact .error fault
  | ok g' =>
    obtain ⟨leading, start, left⟩ := g'
    cases h with
    | ok => exact .ok _ _ rfl

theorem skip_blank {c : Char} (blank : Alphabet.isBlank c = true) (line : Nat) (s : Text) :
    skip line (c :: s) = (skip (if c = '\n' then line + 1 else line) s).map (Gap.widen c) := by
  rw [skip.eq_def]
  simp only [blank, if_true]

theorem skip_comment (line : Nat) (r : Text) :
    skip line ('/' :: '*' :: r) = match commentTail r with
      | none => .error ⟨line, .comment⟩
      | some (body, rest) => (skip (line + body.newlines) rest).map (Gap.widen ' ') := by
  rw [skip.eq_def]
  simp only [show Alphabet.isBlank '/' = false from rfl, Bool.false_eq_true, if_false]
  split
  · rename_i open_
    rw [open_]
  · rename_i closed
    rw [closed]

theorem opensFiller_apply (e : LineEnding) {c : Char} (other : c ≠ '\n') (r : Text) :
    opensFiller (e.apply (c :: r)) = opensFiller (c :: r) := by
  rw [LineEnding.apply_cons e other, opensFiller, opensFiller]
  simp only [LineEnding.head?_apply_iff e (c := '/') (by decide) (by decide),
    LineEnding.head?_apply_iff e (c := '*') (by decide) (by decide)]

theorem dropWhile_comment (e : LineEnding) (r : Text) :
    e.apply (r.dropWhile fun c => decide (c ≠ '\n')) =
        (e.apply r).dropWhile (fun c => decide (c ≠ '\n')) ∨
      e.apply (r.dropWhile fun c => decide (c ≠ '\n')) =
        '\r' :: (e.apply r).dropWhile fun c => decide (c ≠ '\n') := by
  induction r with
  | nil => exact .inl rfl
  | cons c r ih =>
    by_cases feed : c = '\n'
    · rw [feed, List.dropWhile_cons_of_neg (by decide), LineEnding.apply_newline]
      cases e with
      | lf => exact .inl rfl
      | crlf => exact .inr rfl
    · rw [LineEnding.apply_cons e feed, List.dropWhile_cons_of_pos (by simpa using feed),
        List.dropWhile_cons_of_pos (by simpa using feed)]
      exact ih

theorem skip_apply (e : LineEnding) (line : Nat) (s : Text) :
    GapIn e (skip line (e.apply s)) (skip line s) := by
  fun_induction skip line s with
  | case1 line =>
    rw [LineEnding.apply_nil, skip]
    exact .ok line [] rfl
  | case2 line c r blank ih =>
    rw [dite_eq_ite] at ih
    by_cases feed : c = '\n'
    · rw [feed, if_pos rfl] at ih ⊢
      rw [LineEnding.apply_newline]
      cases e with
      | lf =>
        have first := skip_blank (c := '\n') rfl line (LineEnding.lf.apply r)
        rw [if_pos rfl] at first
        exact first ▸ ih.widen '\n' '\n'
      | crlf =>
        have first := skip_blank (c := '\r') rfl line ('\n' :: LineEnding.crlf.apply r)
        have second := skip_blank (c := '\n') rfl line (LineEnding.crlf.apply r)
        rw [if_neg (by decide), second, if_pos rfl] at first
        exact first ▸ ih.widen_again '\r' '\n' '\n'
    · rw [if_neg feed] at ih ⊢
      rw [LineEnding.apply_cons e feed, skip_blank blank, if_neg feed]
      exact ih.widen c c
  | case3 line r dark ih =>
    have opens : skip line (e.apply ('/' :: '/' :: r)) =
        (skip line ((e.apply r).dropWhile fun c => decide (c ≠ '\n'))).map (Gap.widen ' ') := by
      rw [LineEnding.apply_cons e (by decide), LineEnding.apply_cons e (by decide), skip.eq_def]
      simp only [dark, Bool.false_eq_true, if_false]
    rw [opens]
    rcases dropWhile_comment e r with same | longer
    · rw [same] at ih
      exact ih.widen ' ' ' '
    · rw [longer, skip_blank (c := '\r') rfl, if_neg (by decide)] at ih
      exact ih.of_widen ' ' ' '
  | case4 line r unclosed dark =>
    have open_ := commentTail_apply e r
    rw [unclosed] at open_
    rw [LineEnding.apply_cons e (by decide), LineEnding.apply_cons e (by decide), skip_comment,
      open_]
    exact .error ⟨line, .comment⟩
  | case5 line r body rest closed dark ih =>
    have closes := commentTail_apply e r
    rw [closed] at closes
    rw [LineEnding.apply_cons e (by decide), LineEnding.apply_cons e (by decide), skip_comment,
      closes]
    simp only [Option.map_some, Prod.map, newlines_apply]
    exact ih.widen ' ' ' '
  | case6 line c r dark noLine noBlock =>
    have other : c ≠ '\n' := fun feed => dark (by rw [feed]; rfl)
    have stop := opensFiller_eq_false dark noLine noBlock
    rw [← opensFiller_apply e other] at stop
    rw [skip_stop stop]
    exact .ok line (c :: r) rfl

theorem continuesNumber_apply (e : LineEnding) (hex : Bool) (previous c : Char) (r : Text) :
    continuesNumber hex previous c (e.apply r) = continuesNumber hex previous c r := by
  rw [continuesNumber, continuesNumber, LineEnding.head_apply e rfl rfl]

theorem numberTail_text (e : LineEnding) (hex : Bool) (previous : Char) (r : Text) :
    numberTail hex previous (e.text ++ r) = ([], e.text ++ r) := by
  cases e with
  | lf => rfl
  | crlf => rfl

theorem numberTail_apply (e : LineEnding) (hex : Bool) (previous : Char) (s : Text) :
    numberTail hex previous (e.apply s) =
      ((numberTail hex previous s).1, e.apply (numberTail hex previous s).2) := by
  induction s generalizing previous with
  | nil => rfl
  | cons c s ih =>
    by_cases feed : c = '\n'
    · rw [feed, LineEnding.apply_newline, numberTail_text,
        show '\n' :: s = LineEnding.lf.text ++ s from rfl, numberTail_text]
      exact congrArg _ (LineEnding.apply_newline e s).symm
    · rw [LineEnding.apply_cons e feed, numberTail, numberTail, continuesNumber_apply, ih]
      split
      · rfl
      · rw [LineEnding.apply_cons e feed]

theorem newline_notMem_numberTail (hex : Bool) (previous : Char) (s : Text) :
    '\n' ∉ (numberTail hex previous s).1 := by
  induction s generalizing previous with
  | nil => simp [numberTail]
  | cons c s ih =>
    rw [numberTail]
    split
    · rename_i continues
      have sees := isVisible_of_continuesNumber continues
      rw [List.mem_cons, not_or]
      refine ⟨?_, ih c⟩
      rintro rfl
      cases sees
    · simp

theorem quotedTail_newline (quote : Char) (other : quote ≠ '\r') (e : LineEnding) (r : Text) :
    quotedTail quote (e.text ++ r) = none := by
  cases e with
  | lf => rfl
  | crlf =>
    rw [LineEnding.text, List.cons_append, quotedTail_of_ne (by decide), if_neg (by decide),
      if_neg (Ne.symm other)]
    rfl

theorem quotedTail_apply (e : LineEnding) {quote : Char} (noReturn : quote ≠ '\r') {s : Text}
    (h : Convertible s) :
    quotedTail quote (e.apply s) = (quotedTail quote s).map (Prod.map e.apply e.apply) := by
  fun_induction quotedTail quote s with
  | case1 => rfl
  | case2 c r ih =>
    have noFeed : c ≠ '\n' := by
      rintro rfl
      exact h.2 ⟨[], r, rfl⟩
    rw [LineEnding.apply_cons e (by decide), LineEnding.apply_cons e noFeed, quotedTail,
      ih h.tail.tail]
    cases quotedTail quote r with
    | none => rfl
    | some p => simp [LineEnding.apply_cons e noFeed, LineEnding.apply_cons e (c := '\\')]
  | case3 c r slash ends =>
    simp only [Bool.or_eq_true, decide_eq_true_eq] at ends
    rcases ends with rfl | rfl
    · rw [LineEnding.apply_newline, quotedTail_newline quote noReturn]
      rfl
    · cases r with
      | nil => rfl
      | cons d r => exact (slash d r rfl rfl).elim
  | case4 r _ ends =>
    simp only [Bool.or_eq_true, decide_eq_true_eq, not_or] at ends
    rw [LineEnding.apply_cons e ends.1, quotedTail_of_ne ends.2, if_neg ends.1, if_pos rfl]
    simp [LineEnding.apply_cons e ends.1]
  | case5 c r _ ends other ih =>
    simp only [Bool.or_eq_true, decide_eq_true_eq, not_or] at ends
    rw [LineEnding.apply_cons e ends.1, quotedTail_of_ne ends.2, if_neg ends.1, if_neg other,
      ih h.tail]
    cases quotedTail quote r with
    | none => rfl
    | some p => simp [LineEnding.apply_cons e ends.1]

theorem newline_notMem_quotedTail {quote : Char} {s tail rest : Text} (h : Convertible s)
    (other : quote ≠ '\n') (found : quotedTail quote s = some (tail, rest)) : '\n' ∉ tail := by
  fun_induction quotedTail quote s generalizing tail rest with
  | case1 => cases found
  | case2 c r ih =>
    obtain ⟨⟨b, a⟩, inner, same⟩ := Option.map_eq_some_iff.mp found
    cases same
    have noFeed : c ≠ '\n' := by
      rintro rfl
      exact h.2 ⟨[], r, rfl⟩
    simp only [List.mem_cons, not_or]
    exact ⟨by decide, Ne.symm noFeed, ih h.tail.tail inner⟩
  | case3 => cases found
  | case4 r _ ends =>
    cases found
    simpa using Ne.symm other
  | case5 c r _ ends _ ih =>
    obtain ⟨⟨b, a⟩, inner, same⟩ := Option.map_eq_some_iff.mp found
    cases same
    simp only [Bool.or_eq_true, decide_eq_true_eq, not_or] at ends
    simp only [List.mem_cons, not_or]
    exact ⟨Ne.symm ends.1, ih h.tail inner⟩

theorem rawDelimiter_apply (e : LineEnding) (s : Text) :
    rawDelimiter (e.apply s) = (rawDelimiter s).map (Prod.map id e.apply) := by
  induction s with
  | nil => rfl
  | cons c r ih =>
    by_cases feed : c = '\n'
    · rw [feed, LineEnding.apply_newline]
      cases e with
      | lf => rfl
      | crlf => rfl
    · rw [LineEnding.apply_cons e feed, rawDelimiter, rawDelimiter, ih]
      split
      · rfl
      · split
        · cases rawDelimiter r with
          | none => rfl
          | some p => rfl
        · rfl

theorem rawDelimiter_plain {s delimiter rest : Text} (h : rawDelimiter s = some (delimiter, rest)) :
    LineEnding.Plain delimiter := by
  induction s generalizing delimiter rest with
  | nil => cases h
  | cons c r ih =>
    rw [rawDelimiter] at h
    split at h
    · cases h
      exact ⟨by simp, by simp⟩
    · split at h
      · rename_i inside
        obtain ⟨⟨b, a⟩, found, same⟩ := Option.map_eq_some_iff.mp h
        cases same
        obtain ⟨noFeed, noReturn⟩ := ih found
        simp only [LineEnding.Plain, List.mem_cons, not_or]
        refine ⟨⟨?_, noFeed⟩, ?_, noReturn⟩
        · rintro rfl
          cases inside
        · rintro rfl
          cases inside
      · cases h

theorem cutAround_apply (e : LineEnding) {needle : Text} (plain : LineEnding.Plain needle)
    (nonempty : needle ≠ []) (t : Text) :
    Text.cutAround needle (e.apply t) =
      (Text.cutAround needle t).map (Prod.map e.apply e.apply) := by
  rw [Text.cutAround, Text.cutAround, LineEnding.cutBefore_apply e plain nonempty]
  cases found : Text.cutBefore needle t with
  | none => rfl
  | some parts =>
    obtain ⟨-, rest, whole⟩ := Text.cutBefore_append needle t parts.1 parts.2 found
    simp only [Option.map_some, Prod.map, ← whole, LineEnding.apply_append,
      LineEnding.apply_eq_self e plain.1, List.drop_left]

theorem rawTail_apply (e : LineEnding) (s : Text) :
    rawTail (e.apply s) = (rawTail s).map (Prod.map e.apply e.apply) := by
  rw [rawTail, rawTail, rawDelimiter_apply]
  cases opened : rawDelimiter s with
  | none => rfl
  | some p =>
    obtain ⟨delimiter, content⟩ := p
    obtain ⟨noFeed, noReturn⟩ := rawDelimiter_plain opened
    have closer : LineEnding.Plain (')' :: delimiter ++ ['"']) := by
      simp [LineEnding.Plain, noFeed, noReturn]
    simp only [Option.map_some, Prod.map, id]
    rw [cutAround_apply e closer (by simp)]
    cases Text.cutAround (')' :: delimiter ++ ['"']) content with
    | none => rfl
    | some parts =>
      have open_ (t : Text) : e.apply ('(' :: t) = '(' :: e.apply t :=
        LineEnding.apply_cons e (by decide) t
      simp only [Option.map_some, Prod.map, Except.map, LineEnding.apply_append, open_,
        LineEnding.apply_eq_self e noFeed, LineEnding.apply_eq_self e closer.1]

def Lexeme.inStyle (e : LineEnding) (l : Lexeme) : Lexeme :=
  { l with text := e.apply l.text, rest := e.apply l.rest }

theorem quoted_apply (e : LineEnding) {quote : Char} (plain : LineEnding.Plain [quote])
    (kind : Token.Kind) (cause : Cause) {before s : Text} (single : '\n' ∉ before)
    (h : Convertible s) :
    quoted quote kind cause before (e.apply s) =
      (quoted quote kind cause before s).map (Lexeme.inStyle e) := by
  simp only [LineEnding.Plain, List.mem_singleton] at plain
  rw [quoted, quoted, quotedTail_apply e (Ne.symm plain.2) h]
  cases quotedTail quote s with
  | none => rfl
  | some p =>
    simp only [Option.map_some, Prod.map, Except.map, Lexeme.inStyle, LineEnding.apply_append,
      LineEnding.apply_eq_self e single, LineEnding.apply_cons e (Ne.symm plain.1)]

theorem raw_apply (e : LineEnding) {before : Text} (single : '\n' ∉ before) (s : Text) :
    raw before (e.apply s) = (raw before s).map (Lexeme.inStyle e) := by
  rw [raw, raw, rawTail_apply]
  cases rawTail s with
  | error cause => rfl
  | ok p =>
    have quote (t : Text) : e.apply ('"' :: t) = '"' :: e.apply t :=
      LineEnding.apply_cons e (by decide) t
    simp only [Prod.map, Except.map, Lexeme.inStyle, LineEnding.apply_append, quote,
      LineEnding.apply_eq_self e single]

theorem wordOrLiteral_apply (e : LineEnding) {word s : Text} (single : '\n' ∉ word)
    (h : Convertible s) :
    wordOrLiteral word (e.apply s) = (wordOrLiteral word s).map (Lexeme.inStyle e) := by
  unfold wordOrLiteral
  split
  · rename_i r starts
    obtain ⟨r, rfl, rfl⟩ := LineEnding.apply_eq_cons e starts (by decide) (by decide)
    simp only
    split
    · exact raw_apply e single r
    · split
      · exact quoted_apply e (by decide) _ _ single h.tail
      · simp only [Except.map, Lexeme.inStyle, LineEnding.apply_eq_self e single,
          LineEnding.apply_cons e (c := '"') (by decide)]
  · rename_i r starts
    obtain ⟨r, rfl, rfl⟩ := LineEnding.apply_eq_cons e starts (by decide) (by decide)
    simp only
    split
    · exact quoted_apply e (by decide) _ _ single h.tail
    · simp only [Except.map, Lexeme.inStyle, LineEnding.apply_eq_self e single,
        LineEnding.apply_cons e (c := '\'') (by decide)]
  · rename_i noDouble noSingle
    split
    · rename_i r
      exact absurd (LineEnding.apply_cons e (by decide) r) (noDouble (e.apply r))
    · rename_i r
      exact absurd (LineEnding.apply_cons e (by decide) r) (noSingle (e.apply r))
    · simp only [Except.map, Lexeme.inStyle, LineEnding.apply_eq_self e single]

theorem markLength_apply (e : LineEnding) {c : Char} (other : c ≠ '\n') (r : Text) :
    markLength (c :: e.apply r) = markLength (c :: r) := by
  have plain : ∀ mark ∈ longMarks, LineEnding.Plain mark.toList := by decide
  have found := find?_congr (l := longMarks)
    (p := fun mark => mark.toList.isPrefixOf (c :: e.apply r))
    (q := fun mark => mark.toList.isPrefixOf (c :: r)) fun mark inside => by
      rw [← LineEnding.apply_cons e other, LineEnding.isPrefixOf_apply e (plain mark inside)]
  rw [markLength, markLength, found]

theorem newline_notMem_mark {c : Char} (r : Text) : '\n' ∉ r.take (markLength (c :: r) - 1) := by
  rw [markLength]
  cases found : longMarks.find? fun mark => mark.toList.isPrefixOf (c :: r) with
  | none => simp
  | some mark =>
    have plain : ∀ mark ∈ longMarks, '\n' ∉ mark.toList := by decide
    have begins := List.find?_some found
    have member := List.mem_of_find?_eq_some found
    have single := plain mark member
    obtain ⟨a, m, shape⟩ := List.exists_cons_of_ne_nil (longMarks_visible mark member).1
    have size : mark.length - 1 = m.length := by
      rw [← String.length_toList, shape]
      rfl
    rw [shape, List.isPrefixOf_iff_prefix, List.cons_prefix_cons] at begins
    obtain ⟨-, rest, rfl⟩ := begins
    rw [shape, List.mem_cons, not_or] at single
    simpa [size] using single.2

theorem newline_notMem_takeWhile {p : Char → Bool} (noFeed : p '\n' = false) (t : Text) :
    '\n' ∉ t.takeWhile p := by
  intro inside
  have passes := List.all_eq_true.mp List.all_takeWhile _ inside
  rw [noFeed] at passes
  cases passes

theorem lexeme_apply (e : LineEnding) {c : Char} {r : Text} (other : c ≠ '\n')
    (h : Convertible r) :
    lexeme c (e.apply r) = (lexeme c r).map (Lexeme.inStyle e) := by
  have whole (t : Text) : e.apply (c :: t) = c :: e.apply t := LineEnding.apply_cons e other t
  have noFeed : Alphabet.continuesIdentifier '\n' = false := rfl
  have noReturn : Alphabet.continuesIdentifier '\r' = false := rfl
  unfold lexeme
  split
  · rename_i starts
    have single : '\n' ∉ c :: r.takeWhile Alphabet.continuesIdentifier := by
      rw [List.mem_cons, not_or]
      exact ⟨Ne.symm other, newline_notMem_takeWhile noFeed r⟩
    rw [LineEnding.takeWhile_apply e noFeed noReturn, LineEnding.dropWhile_apply e noFeed noReturn]
    exact wordOrLiteral_apply e single (h.part (List.dropWhile_suffix _).isInfix)
  · have number : startsNumber c (e.apply r) = startsNumber c r := by
      rw [startsNumber, startsNumber, LineEnding.head_apply e rfl rfl]
    have hex : isHex (c :: e.apply r) = isHex (c :: r) := by
      rw [isHex, isHex, ← whole, LineEnding.isPrefixOf_apply e (by decide),
        LineEnding.isPrefixOf_apply e (by decide)]
    rw [number, hex, numberTail_apply]
    split
    · have single := newline_notMem_numberTail (isHex (c :: r)) c r
      simp only [Except.map, Lexeme.inStyle, whole, LineEnding.apply_eq_self e single]
    · split
      · exact quoted_apply e (by decide) _ _ (by simp) h
      · split
        · exact quoted_apply e (by decide) _ _ (by simp) h
        · have single := newline_notMem_mark (c := c) r
          have size := List.length_take_of_le (markLength_le c r)
          have split := LineEnding.apply_append e (r.take (markLength (c :: r) - 1))
            (r.drop (markLength (c :: r) - 1))
          rw [List.take_append_drop, LineEnding.apply_eq_self e single] at split
          simp only [markLength_apply e other]
          simp only [split, Except.map, Lexeme.inStyle, whole,
            LineEnding.apply_eq_self e single, List.take_left' size, List.drop_left' size]

theorem newline_notMem_quoted {quote : Char} {kind : Token.Kind} {cause : Cause} {before s : Text}
    {l : Lexeme} (other : quote ≠ '\n') (single : '\n' ∉ before) (h : Convertible s)
    (found : quoted quote kind cause before s = .ok l) : '\n' ∉ l.text := by
  rw [quoted] at found
  split at found
  · cases found
  · rename_i tail rest closed
    cases found
    have inner := newline_notMem_quotedTail h other closed
    simp [single, inner, Ne.symm other]

theorem raw_kind {before s : Text} {l : Lexeme} (found : raw before s = .ok l) :
    l.kind = .stringLiteral := by
  rw [raw] at found
  cases read : rawTail s with
  | error cause => rw [read] at found; cases found
  | ok p =>
    rw [read] at found
    cases found
    rfl

theorem newline_notMem_lexeme {c : Char} {r : Text} {l : Lexeme} (noFeed : c ≠ '\n')
    (h : Convertible r) (found : lexeme c r = .ok l) (other : l.kind ≠ .stringLiteral) :
    '\n' ∉ l.text := by
  unfold lexeme at found
  split at found
  · have single : '\n' ∉ c :: r.takeWhile Alphabet.continuesIdentifier := by
      rw [List.mem_cons, not_or]
      exact ⟨Ne.symm noFeed, newline_notMem_takeWhile rfl r⟩
    have rest : Convertible (r.dropWhile Alphabet.continuesIdentifier) :=
      h.part (List.dropWhile_suffix _).isInfix
    unfold wordOrLiteral at found
    split at found
    · rename_i starts
      rw [starts] at rest
      split at found
      · exact absurd (raw_kind found) other
      · split at found
        · exact newline_notMem_quoted (by decide) single rest.tail found
        · cases found
          exact single
    · rename_i starts
      rw [starts] at rest
      split at found
      · exact newline_notMem_quoted (by decide) single rest.tail found
      · cases found
        exact single
    · cases found
      exact single
  · split at found
    · cases found
      rw [List.mem_cons, not_or]
      exact ⟨Ne.symm noFeed, newline_notMem_numberTail _ c r⟩
    · split at found
      · exact newline_notMem_quoted (by decide) (by simp) h found
      · split at found
        · exact newline_notMem_quoted (by decide) (by simp) h found
        · cases found
          rw [List.mem_cons, not_or]
          exact ⟨Ne.symm noFeed, newline_notMem_mark r⟩

/-- What is left of a token that is read with other line endings. -/
def bareIn (e : LineEnding) (t : Token) : Token :=
  { t.bare with text := if t.kind = .stringLiteral then e.apply t.text else t.text }

/-- Whether what is read first is the same with other line endings. -/
inductive NextIn (e : LineEnding) : Except Fault (Option Next) → Except Fault (Option Next) → Prop
  | error (fault : Fault) : NextIn e (.error fault) (.error fault)
  | none : NextIn e (.ok none) (.ok none)
  | some {t' t : Token} (line : Nat) (rest : Text) :
      t'.bare = bareIn e t →
        NextIn e (.ok (some ⟨t', line, e.apply rest⟩)) (.ok (some ⟨t, line, rest⟩))

theorem notMem_of_opensFiller {c : Char} {r : Text} (stop : opensFiller (c :: r) = false) :
    c ≠ '\n' := by
  rintro rfl
  cases stop

theorem Skips.convertible {line : Nat} {s : Text} {fs : List Filler} {g : Gap}
    (reads : Skips line s fs g) (h : Convertible s) : Convertible g.rest :=
  h.part (reads.split ▸ (List.suffix_append (written fs) g.rest).isInfix)

theorem next_apply (e : LineEnding) (line : Nat) {s : Text} (h : Convertible s) :
    NextIn e (next line (e.apply s)) (next line s) := by
  have gaps := skip_apply e line s
  rw [next, next]
  cases skipped : skip line s with
  | error fault =>
    rw [skipped] at gaps
    generalize skip line (e.apply s) = there at gaps ⊢
    cases gaps
    exact .error fault
  | ok g =>
    rw [skipped] at gaps
    obtain ⟨leading, start, rest⟩ := g
    generalize skip line (e.apply s) = there at gaps ⊢
    cases gaps with
    | @ok leading' _ _ _ same =>
      cases rest with
      | nil => exact .none
      | cons c r =>
        obtain ⟨fs, reads⟩ := skip_sound skipped
        have other : c ≠ '\n' := notMem_of_opensFiller reads.stop
        have behind : Convertible r := (reads.convertible h).tail
        simp only [LineEnding.apply_cons e other, lexeme_apply e other behind]
        cases found : lexeme c r with
        | error cause => exact .error ⟨start, cause⟩
        | ok l =>
          have lines := newlines_apply e l.text
          simp only [Except.map, Lexeme.inStyle, lines]
          have text : e.apply l.text =
              if l.kind = .stringLiteral then e.apply l.text else l.text := by
            split
            · rfl
            · rename_i noString
              exact LineEnding.apply_eq_self e (newline_notMem_lexeme other behind found noString)
          refine .some _ _ ?_
          rw [Token.bare, bareIn, Token.bare, Token.spacing, Token.spacing, same, ← text]

theorem lex_apply (e : LineEnding) (line : Nat) {s : Text} (h : Convertible s) :
    (lex line (e.apply s)).tokens.map Token.bare = (lex line s).tokens.map (bareIn e) ∧
      (lex line (e.apply s)).fault = (lex line s).fault := by
  fun_induction lex line s with
  | case1 line s fault found =>
    have there := next_apply e line h
    rw [found] at there
    cases read : next line (e.apply s) with
    | error fault' =>
      rw [read] at there
      cases there
      rw [lex_error read]
      exact ⟨rfl, rfl⟩
    | ok first => rw [read] at there; cases there
  | case2 line s found =>
    have there := next_apply e line h
    rw [found] at there
    cases read : next line (e.apply s) with
    | error fault' => rw [read] at there; cases there
    | ok first =>
      rw [read] at there
      cases there
      rw [lex_none read]
      exact ⟨rfl, rfl⟩
  | case3 line s n found ih =>
    have there := next_apply e line h
    rw [found] at there
    obtain ⟨fs, c, r, reads, lexed, _⟩ := next_some found
    have whole := (lexeme_append lexed).1
    have rest : Convertible n.rest := (whole ▸ reads.convertible h).right
    cases read : next line (e.apply s) with
    | error fault' => rw [read] at there; cases there
    | ok first =>
      obtain ⟨t, mid, behind⟩ := n
      rw [read] at there
      cases there with
      | some _ _ same =>
        obtain ⟨tokens, fault⟩ := ih rest
        rw [lex_some read]
        exact ⟨congrArg₂ List.cons same tokens, fault⟩

theorem newline_notMem_lex (line : Nat) {s : Text} (h : Convertible s) :
    ∀ t ∈ (lex line s).tokens, t.kind ≠ .stringLiteral → '\n' ∉ t.text := by
  fun_induction lex line s with
  | case1 => simp
  | case2 => simp
  | case3 line s n found ih =>
    obtain ⟨fs, c, r, reads, lexed, _⟩ := next_some found
    have whole := (lexeme_append lexed).1
    have other := notMem_of_opensFiller reads.stop
    intro t inside
    rcases List.mem_cons.mp inside with rfl | inside
    · exact newline_notMem_lexeme other (reads.convertible h).tail lexed
    · exact ih (whole ▸ reads.convertible h).right t inside

theorem bareIn_recast (e : LineEnding) : Recast (bareIn e) where
  kind _ := rfl
  text t other := if_neg other
  spells t word single := by
    simp only [bareIn]
    split
    · constructor
      · intro same
        exact LineEnding.apply_injective e (same.trans (LineEnding.apply_eq_self e single).symm)
      · intro same
        rw [same, LineEnding.apply_eq_self e single]
    · rfl

end MemberLift.Lexer
