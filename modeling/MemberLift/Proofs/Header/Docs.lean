import MemberLift.Proofs.Header.Scan.Functions
import MemberLift.Proofs.Lexer.Comments
import MemberLift.Proofs.Text.Lines

/-!
What the documentation of a marked member can be: a run of line comments, or a text that begins with
a block comment, behind which code may stand on the comment's last line or on the lines below.
-/
namespace MemberLift

open Lexer

namespace Docs

/-- Lines that can be documentation, nearest first. -/
inductive Lines : List Text → Prop
  | block {inside : List Text} {opening : Text} :
      opensBlockDoc opening = true →
      (∀ previous ∈ (inside ++ [opening]).head?, endsBlockDoc previous = true) →
      Lines (inside ++ [opening])
  | run {lines : List Text} : (∀ line ∈ lines, isLineDoc line = true) → Lines lines

theorem takeWhile_concat {p : Text → Bool} {lines : List Text} {line : Text}
    (found : lines[(lines.takeWhile p).length]? = some line) :
    lines.takeWhile p ++ [line] <+: lines := by
  induction lines with
  | nil => cases found
  | cons first rest ih =>
    by_cases here : p first = true
    · rw [List.takeWhile_cons_of_pos here] at found ⊢
      exact (List.prefix_cons_inj first).mpr (ih found)
    · rw [List.takeWhile_cons_of_neg here] at found ⊢
      cases found
      exact ⟨rest, rfl⟩

theorem split_of_opensBlockDoc {line : Text} (opens : opensBlockDoc line = true) :
    ∃ first body, line.trimStart = '/' :: '*' :: first :: body ∧ first ≠ '/' := by
  unfold opensBlockDoc at opens
  rcases Bool.or_eq_true_iff.mp opens with begins | begins
  · obtain ⟨body, rest⟩ := List.isPrefixOf_iff_prefix.mp begins
    exact ⟨'!', body, rest.symm, by decide⟩
  · obtain ⟨body, rest⟩ := List.isPrefixOf_iff_prefix.mp begins
    exact ⟨'*', body, rest.symm, by decide⟩

theorem opensComment_of_opensBlockDoc {line : Text} (opens : opensBlockDoc line = true) :
    opensComment line = true := by
  obtain ⟨first, body, split, _⟩ := split_of_opensBlockDoc opens
  have opener : ['/', '*'] <+: line.trimStart := ⟨first :: body, split.symm⟩
  exact (Text.occursIn_iff _ _).mpr
    (opener.isInfix.trans (List.dropWhile_suffix Alphabet.isBlank).isInfix)

/-- The nearest line with an opener decides what a block comment is. -/
theorem height_nearest {lookahead : Nat} {inside behind : List Text} {opening previous : Text}
    (nearest : (inside ++ opening :: behind).head? = some previous)
    (ends : endsBlockDoc previous = true) (plain : ∀ line ∈ inside, opensComment line = false)
    (holds : opensComment opening = true) (near : inside.length < lookahead) :
    height lookahead (inside ++ opening :: behind) =
      if opensBlockDoc opening then some (inside.length + 1) else none := by
  obtain ⟨rest, whole⟩ := List.head?_eq_some_iff.mp nearest
  obtain ⟨more, size⟩ : ∃ more, lookahead - inside.length = more + 1 :=
    ⟨lookahead - inside.length - 1, by omega⟩
  have seen : (previous :: rest).take lookahead = inside ++ opening :: behind.take more := by
    rw [← whole, List.take_append, List.take_of_length_le (Nat.le_of_lt near), size,
      List.take_succ_cons]
  have run : (inside ++ opening :: behind.take more).takeWhile (fun line => !opensComment line) =
      inside := by
    rw [List.takeWhile_append_of_pos fun line within => by rw [plain line within]; rfl]
    simp [holds]
  rw [whole, height, if_pos ends]
  simp [seen, run]

/-- A block comment goes back to the nearest line with an opener, if that one opens documentation
and can be seen from here. -/
theorem height_block_iff {lookahead n : Nat} {above : List Text} {previous : Text}
    (nearest : above.head? = some previous) (ends : endsBlockDoc previous = true) :
    height lookahead above = some n ↔
      ∃ inside opening behind, above = inside ++ opening :: behind ∧
        (∀ line ∈ inside, opensComment line = false) ∧ opensBlockDoc opening = true ∧
        inside.length < lookahead ∧ n = inside.length + 1 := by
  constructor
  · intro found
    obtain ⟨rest, rfl⟩ := List.head?_eq_some_iff.mp nearest
    rw [height, if_pos ends] at found
    simp only at found
    split at found
    · rename_i opening here
      split at found
      · rename_i opens
        cases found
        have front := takeWhile_concat here
        obtain ⟨behind, whole⟩ := front.trans (List.take_prefix _ _)
        have length := front.length_le
        rw [List.length_append, List.length_singleton, List.length_take] at length
        refine ⟨_, opening, behind, whole.symm.trans (List.append_assoc _ _ _),
          fun line inside => ?_, opens, by omega, rfl⟩
        simpa using List.all_eq_true.mp List.all_takeWhile line inside
      · cases found
    · cases found
  · rintro ⟨inside, opening, behind, rfl, plain, opens, near, rfl⟩
    have holds := opensComment_of_opensBlockDoc opens
    rw [height_nearest nearest ends plain holds near, if_pos opens]

theorem lines_of_height {lookahead n : Nat} {above : List Text}
    (h : height lookahead above = some n) : Lines (above.take n) := by
  cases above with
  | nil => cases h
  | cons previous rest =>
    cases ends : endsBlockDoc previous with
    | true =>
      obtain ⟨inside, opening, behind, whole, _, opens, _, rfl⟩ :=
        (height_block_iff rfl ends).mp h
      have lines : (previous :: rest).take (inside.length + 1) = inside ++ [opening] := by
        rw [whole, ← List.singleton_append, ← List.append_assoc]
        exact List.take_left' (List.length_append ..)
      rw [lines]
      refine .block opens fun line first => ?_
      have same := congrArg List.head? lines
      rw [Option.mem_def.mp first] at same
      cases same
      exact ends
    | false =>
      rw [height, ends, if_neg Bool.false_ne_true] at h
      split at h
      · cases h
        have lines := List.prefix_iff_eq_take.mp
          (List.takeWhile_prefix isLineDoc (l := previous :: rest))
        rw [← lines]
        exact .run fun line inside => List.all_eq_true.mp List.all_takeWhile line inside
      · cases h

theorem dedent_blank (n : Nat) (line : Text) :
    ∃ blank, line = blank ++ dedent n line ∧ ∀ c ∈ blank, Alphabet.isBlank c = true := by
  induction n generalizing line with
  | zero => exact ⟨[], rfl, by simp⟩
  | succ n ih =>
    cases line with
    | nil => exact ⟨[], rfl, by simp⟩
    | cons c rest =>
      by_cases here : (c = ' ' || c = '\t') = true
      · obtain ⟨blank, split, all⟩ := ih rest
        refine ⟨c :: blank, ?_, ?_⟩
        · rw [dedent, if_pos here, List.cons_append, ← split]
        · intro d inside
          rcases List.mem_cons.mp inside with rfl | inside
          · rw [Bool.or_eq_true, decide_eq_true_eq, decide_eq_true_eq] at here
            rcases here with rfl | rfl <;> rfl
          · exact all d inside
      · exact ⟨[], by rw [dedent, if_neg here]; rfl, by simp⟩

theorem trimStart_dedent (n : Nat) (line : Text) : (dedent n line).trimStart = line.trimStart := by
  obtain ⟨blank, split, all⟩ := dedent_blank n line
  conv => rhs; rw [split]
  exact (List.dropWhile_append_of_pos all).symm

theorem isLineDoc_dedent (n : Nat) (line : Text) : isLineDoc (dedent n line) = isLineDoc line := by
  unfold isLineDoc Text.trim
  rw [trimStart_dedent]

theorem complete_dedent (n : Nat) {line : Text} (complete : Text.Complete line) :
    Text.Complete (dedent n line) := by
  obtain ⟨body, single, rfl⟩ := complete
  induction n generalizing body with
  | zero => exact ⟨body, single, rfl⟩
  | succ n ih =>
    cases body with
    | nil => exact ⟨[], single, rfl⟩
    | cons c body =>
      rw [List.cons_append, dedent]
      split
      · exact ih body fun inside => single (List.mem_cons_of_mem c inside)
      · exact ⟨c :: body, single, rfl⟩

theorem trimEnd_begins (t : Text) : t.trimEnd <+: t := by
  have suffix := List.dropWhile_suffix Alphabet.isBlank (l := t.reverse)
  have front := List.reverse_prefix.mpr suffix
  rwa [List.reverse_reverse] at front

theorem split_of_isLineDoc {line : Text} (doc : isLineDoc line = true) :
    ∃ blank body, line = blank ++ '/' :: '/' :: body ∧
      ∀ c ∈ blank, Alphabet.isBlank c = true := by
  have slashes : ['/', '/'] <+: line.trimStart := by
    unfold isLineDoc at doc
    rcases Bool.or_eq_true_iff.mp doc with begins | begins
    · have opener : ['/', '/'] <+: "//!".toList := ⟨['!'], rfl⟩
      exact (opener.trans (List.isPrefixOf_iff_prefix.mp begins)).trans (trimEnd_begins _)
    · have opener : ['/', '/'] <+: "///".toList := ⟨['/'], rfl⟩
      exact (opener.trans (List.isPrefixOf_iff_prefix.mp begins)).trans (trimEnd_begins _)
  obtain ⟨body, rest⟩ := slashes
  refine ⟨line.indentation, body, ?_, fun c inside => ?_⟩
  · have split := Text.indentation_append_trimStart line
    rw [← rest] at split
    exact split.symm
  · exact List.all_eq_true.mp List.all_takeWhile c inside

theorem allWhole_blanks {blank : Text} (all : ∀ c ∈ blank, Alphabet.isBlank c = true) (s : Text) :
    written (blank.map Filler.blank) = blank ∧ AllWhole s (blank.map Filler.blank) := by
  induction blank with
  | nil => exact ⟨rfl, trivial⟩
  | cons c blank ih =>
    obtain ⟨whole, pieces⟩ := ih fun d inside => all d (List.mem_cons_of_mem c inside)
    refine ⟨?_, all c List.mem_cons_self, pieces⟩
    rw [List.map_cons, written_cons, whole]
    rfl

theorem pieces_of_isLineDoc {line : Text} (doc : isLineDoc line = true)
    (complete : Text.Complete line) : ∃ fs, line = written fs ∧ ∀ s, AllWhole s fs := by
  obtain ⟨blank, body, rfl, all⟩ := split_of_isLineDoc doc
  obtain ⟨_, comment⟩ := complete.parts (by simp)
  have some_ : body ≠ [] := by
    rintro rfl
    obtain ⟨inner, _, same⟩ := comment
    simpa using congrArg List.getLast? same
  have slashes : Text.Complete (['/', '/'] ++ body) := comment
  obtain ⟨_, inner, single, rfl⟩ := slashes.parts some_
  refine ⟨blank.map .blank ++ [.lineComment inner, .blank '\n'], ?_, fun s => ?_⟩
  · rw [written_append, (allWhole_blanks all []).1]
    simp [Filler.text]
  · refine allWhole_append.mpr ⟨(allWhole_blanks all _).2, ⟨single, ?_⟩, rfl, trivial⟩
    intro c first
    exact (Option.some.inj first).symm

theorem inLineComment_of_isLineDoc {line before after : Text} (doc : isLineDoc line = true)
    (single : '\n' ∉ before) (split : line = before ++ '\\' :: after) : InLineComment before := by
  obtain ⟨blank, body, rfl, all⟩ := split_of_isLineDoc doc
  rcases List.append_eq_append_iff.mp split with ⟨more, rfl, tail⟩ | ⟨more, rfl, tail⟩
  · rcases more with _ | ⟨a, _ | ⟨b, more⟩⟩
    · cases tail
    · cases tail
    · cases tail
      obtain ⟨whole, pieces⟩ := allWhole_blanks all ['/']
      refine ⟨_, more, by rw [whole], pieces, fun inside => single ?_⟩
      exact List.mem_append_right _ (List.mem_cons_of_mem _ (List.mem_cons_of_mem _ inside))
  · cases more with
    | nil => cases tail
    | cons c more =>
      cases tail
      cases all '\\' (List.mem_append_right _ List.mem_cons_self)

section

variable {docs : Text} (run : ∀ line ∈ docs.lines, isLineDoc line = true)

include run

theorem onlyComments_of_run : OnlyComments docs := by
  induction docs using Text.lineInduction with
  | nil => exact ⟨[], rfl, trivial⟩
  | last line nonempty single =>
    rw [Text.lines_single nonempty single] at run
    obtain ⟨blank, body, rfl, all⟩ := split_of_isLineDoc (run line List.mem_cons_self)
    rw [onlyComments_blank all]
    refine ⟨[.lineComment body], (List.append_nil _).symm, ⟨fun inside => single ?_, ?_⟩, trivial⟩
    · exact List.mem_append_right _ (List.mem_cons_of_mem _ (List.mem_cons_of_mem _ inside))
    · intro c first
      cases first
  | line first rest complete ih =>
    rw [Text.lines_complete complete] at run
    obtain ⟨fs, rfl, pieces⟩ := pieces_of_isLineDoc (run first List.mem_cons_self) complete
    exact (onlyComments_append (pieces rest)).mpr
      (ih fun line inside => run line (List.mem_cons_of_mem _ inside))

theorem inLineComment_of_run {before after : Text} (split : docs = before ++ '\\' :: after) :
    InLineComment before := by
  induction docs using Text.lineInduction generalizing before with
  | nil => simp at split
  | last line nonempty single =>
    rw [Text.lines_single nonempty single] at run
    refine inLineComment_of_isLineDoc (run line List.mem_cons_self) ?_ split
    intro inside
    rw [split] at single
    exact single (List.mem_append_left _ inside)
  | line first rest complete ih =>
    rw [Text.lines_complete complete] at run
    have doc := run first List.mem_cons_self
    rcases List.append_eq_append_iff.mp split with ⟨more, rfl, tail⟩ | ⟨more, rfl, tail⟩
    · obtain ⟨fs, rfl, pieces⟩ := pieces_of_isLineDoc doc complete
      have behind := ih (fun line inside => run line (List.mem_cons_of_mem _ inside)) tail
      exact behind.append (pieces more)
    · cases more with
      | nil =>
        obtain ⟨fs, whole, pieces⟩ := pieces_of_isLineDoc doc complete
        have start : rest = [] ++ '\\' :: after := tail.symm
        have behind := ih (fun line inside => run line (List.mem_cons_of_mem _ inside)) start
        have first := behind.append (pieces [])
        rw [← whole] at first
        simpa using first
      | cons c more =>
        cases tail
        obtain ⟨single, _⟩ := complete.parts (by simp)
        exact inLineComment_of_isLineDoc doc single rfl

end

theorem closer_of_endsBlockDoc {line : Text} (ends : endsBlockDoc line = true) :
    ['*', '/'] <:+: line.trimStart := by
  unfold endsBlockDoc at ends
  have closer := (List.isSuffixOf_iff_suffix.mp ends).isInfix
  exact closer.trans (trimEnd_begins _).isInfix

theorem block_of_lines {inside : List Text} {opening : Text} (indent : Nat)
    (opens : opensBlockDoc opening = true)
    (ends : ∀ previous ∈ (inside ++ [opening]).head?, endsBlockDoc previous = true) :
    ∃ front body behind, (inside ++ [opening]).reverse.flatMap (dedent indent) =
        front ++ '/' :: '*' :: (body ++ '*' :: '/' :: behind) ∧
      (∀ c ∈ front, Alphabet.isBlank c = true) ∧ ¬ ['*', '/'] <:+: body := by
  obtain ⟨first, start, split, noSlash⟩ := split_of_opensBlockDoc opens
  have closed : ['*', '/'] <:+: first :: start ++ inside.reverse.flatMap (dedent indent) := by
    cases inside with
    | nil =>
      have closer := closer_of_endsBlockDoc (ends opening rfl)
      rw [split] at closer
      -- The closer is not the star of the opener and what follows it.
      rcases List.infix_cons_iff.mp closer with ⟨tail, here⟩ | closer
      · cases here
      · rcases List.infix_cons_iff.mp closer with ⟨tail, here⟩ | closer
        · cases here
          exact absurd rfl noSlash
        · exact closer.trans (List.prefix_append _ _).isInfix
    | cons previous inside =>
      have closer := closer_of_endsBlockDoc (ends previous rfl)
      rw [← trimStart_dedent indent] at closer
      have line := closer.trans (List.dropWhile_suffix Alphabet.isBlank).isInfix
      refine line.trans ⟨first :: start ++ inside.reverse.flatMap (dedent indent), [], ?_⟩
      simp
  obtain ⟨body, behind, whole, free⟩ := exists_closer closed
  have line : dedent indent opening =
      (dedent indent opening).indentation ++ '/' :: '*' :: first :: start := by
    rw [← split, ← trimStart_dedent indent, Text.indentation_append_trimStart]
  refine ⟨(dedent indent opening).indentation, body, behind, ?_, ?_, free⟩
  · have docs : (inside ++ [opening]).reverse.flatMap (dedent indent) =
        dedent indent opening ++ inside.reverse.flatMap (dedent indent) := by
      simp
    rw [docs, ← whole]
    conv => lhs; rw [line]
    simp
  · exact fun c member => List.all_eq_true.mp List.all_takeWhile c member

theorem lines_of_run {run : List Text} (indent : Nat)
    (complete : ∀ line ∈ run, Text.Complete line) :
    Text.lines (run.flatMap (dedent indent)) = run.map (dedent indent) := by
  have each : ∀ line ∈ run.map (dedent indent), Text.Complete line := by
    intro line inside
    obtain ⟨whole, member, rfl⟩ := List.mem_map.mp inside
    exact complete_dedent indent (complete whole member)
  have lines := Text.lines_flatten_append each []
  simpa [Text.lines, List.flatMap_def] using lines

/-- Documentation is a run of line comments, or begins with a block comment. -/
theorem form_of_ofAbove {indent lookahead : Nat} {above : List Text} {docs : Text}
    (complete : ∀ line ∈ above, Text.Complete line)
    (found : ofAbove indent lookahead above = some docs) :
    (∀ line ∈ docs.lines, isLineDoc line = true) ∨
      ∃ front body behind, docs = front ++ '/' :: '*' :: (body ++ '*' :: '/' :: behind) ∧
        (∀ c ∈ front, Alphabet.isBlank c = true) ∧ ¬ ['*', '/'] <:+: body := by
  obtain ⟨n, tall, rfl⟩ := Option.map_eq_some_iff.mp found
  have whole : ∀ line ∈ above.take n, Text.Complete line := fun line inside =>
    complete line (List.mem_of_mem_take inside)
  have lines := lines_of_height tall
  generalize above.take n = taken at whole lines
  cases lines with
  | block opens ends => exact .inr (block_of_lines indent opens ends)
  | run docs =>
    left
    intro line inside
    rw [lines_of_run indent fun line inside => whole line (List.mem_reverse.mp inside)] at inside
    obtain ⟨source, member, rfl⟩ := List.mem_map.mp inside
    rw [isLineDoc_dedent]
    exact docs source (List.mem_reverse.mp member)

end Docs

namespace Scan

variable {c : Conventions}

theorem Scans.documented {lines : List Text} {scan : Scan}
    (h : Scans c [] none .absent lines scan) :
    ∀ m ∈ scan.functions, ∃ before line after, lines = before ++ line :: after ∧
      m.docs = Docs.ofAbove line.indentation.length c.maxLookahead (before.reverse ++ []) := by
  intro m member
  obtain ⟨index, found⟩ := h.exists_found member
  obtain ⟨line, here, docs⟩ := found.documented
  obtain ⟨place, rfl⟩ := List.getElem?_eq_some_iff.mp here
  refine ⟨lines.take index, _, lines.drop (index + 1), ?_, by rw [docs, List.append_nil]⟩
  exact (List.take_append_drop index lines).symm.trans (by rw [List.drop_eq_getElem_cons place])

end Scan

end MemberLift
