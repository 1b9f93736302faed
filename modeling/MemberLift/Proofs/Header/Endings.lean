import MemberLift.Proofs.Header.Rewrite
import MemberLift.Proofs.Header.Scan.Endings
import MemberLift.Proofs.Wrapper.Recast

/-!
Headers with other line endings.  `liftHeader_apply` says that a header and the same header with
every line feed replaced by a line ending are transformed alike.
-/
namespace MemberLift

open Lexer

variable {c : Conventions} {e : LineEnding}

theorem LineEnding.detect_lf {t : Text} (noReturn : '\r' ∉ t) : detect t = .lf := by
  rw [detect, if_neg]
  intro ends
  have first : t.lines.headD [] <:+: t := by
    have whole := Text.lines_flatten t
    cases lines : t.lines with
    | nil => exact List.nil_infix
    | cons line rest =>
      rw [lines] at whole
      exact ⟨[], rest.flatten, whole⟩
  have inside := (List.isSuffixOf_iff_suffix.mp ends).subset List.mem_cons_self
  exact noReturn (first.subset inside)

theorem LineEnding.detect_apply {t : Text} (noReturn : '\r' ∉ t) (feed : '\n' ∈ t) :
    detect (e.apply t) = e := by
  cases t using Text.lineInduction with
  | nil => cases feed
  | last t _ single => exact absurd feed single
  | line first rest complete _ =>
    obtain ⟨body, single, rfl⟩ := complete
    rw [detect, Text.lines_apply, Text.lines_complete ⟨body, single, rfl⟩, List.map_cons,
      List.headD_cons, apply_snoc_newline, apply_eq_self e single]
    cases e with
    | lf =>
      rw [if_neg]
      intro ends
      have inside := (List.isSuffixOf_iff_suffix.mp ends).subset List.mem_cons_self
      exact noReturn (List.mem_append_left rest inside)
    | crlf => rw [if_pos (List.isSuffixOf_iff_suffix.mpr (List.suffix_append body _))]

theorem bareIn_restyled {t : Token} (single : t.kind ≠ .stringLiteral → '\n' ∉ t.text) :
    Token.Restyled e (bareIn e t) t where
  text := by
    rw [bareIn]
    split
    · rfl
    · rename_i other
      exact (LineEnding.apply_eq_self e (single other)).symm
  leading := t.spacing_isEmpty

namespace Header

theorem ofMarked_apply {m' m : Marked} (single : m.SingleLine) (same : m'.bare = m.bareIn e) :
    (Wrapper.ofMarked c e m').toOption =
      (Wrapper.ofMarked c .lf m).toOption.map (Wrapper.restyle e) := by
  have ends : e.apply LineEnding.lf.text = e.text := by
    rw [LineEnding.text, LineEnding.apply_newline, LineEnding.apply_nil, List.append_nil]
  have read := Wrapper.ofMarked_recast (bareIn_recast e) c ends m
    (LineEnding.apply_eq_self e single.className)
    fun t inside => bareIn_restyled (single.tokens t inside)
  have bare := Wrapper.ofMarked_bare c e m'
  rw [Marked.bare, Marked.bareIn] at same
  rw [← bare, same, read]

theorem wrappers_apply {functions' functions : List Marked}
    (single : ∀ m ∈ functions, m.SingleLine)
    (same : functions'.map Marked.bare = functions.map (Marked.bareIn e)) :
    (wrappers c e functions').toOption =
      (wrappers c .lf functions).toOption.map (List.map (Wrapper.restyle e)) := by
  induction functions generalizing functions' with
  | nil =>
    cases List.map_eq_nil_iff.mp same
    rfl
  | cons m rest ih =>
    cases functions' with
    | nil => cases same
    | cons m' rest' =>
      obtain ⟨first, others⟩ := List.cons.inj same
      have head := ofMarked_apply (c := c) (single m List.mem_cons_self) first
      have tail := ih (fun m inside => single m (List.mem_cons_of_mem _ inside)) others
      rw [wrappers, wrappers]
      cases found : Wrapper.ofMarked c .lf m with
      | error fault =>
        rw [found] at head
        cases there : Wrapper.ofMarked c e m' with
        | error fault' => rfl
        | ok w' => rw [there] at head; cases head
      | ok w =>
        rw [found] at head
        cases there : Wrapper.ofMarked c e m' with
        | error fault' => rw [there] at head; cases head
        | ok w' =>
          rw [there] at head
          cases head
          generalize wrappers c e rest' = read' at tail ⊢
          generalize wrappers c .lf rest = read at tail ⊢
          cases read with
          | error fault =>
            cases read' with
            | error fault' => rfl
            | ok ws' => cases tail
          | ok ws =>
            cases read' with
            | error fault' => cases tail
            | ok ws' => cases tail; rfl

theorem text_restyle (w : Wrapper) : (w.restyle e).text = e.apply w.text := by
  obtain ⟨docs, definition, summary⟩ := w
  cases docs with
  | none => rfl
  | some docs => exact (LineEnding.apply_append e docs definition).symm

theorem flatMap_text_restyle (ws : List Wrapper) :
    (ws.map (Wrapper.restyle e)).flatMap Wrapper.text = e.apply (ws.flatMap Wrapper.text) := by
  rw [LineEnding.apply_flatMap, List.flatMap_map]
  exact congrArg (ws.flatMap ·) (funext text_restyle)

theorem map_summary_restyle (ws : List Wrapper) :
    (ws.map (Wrapper.restyle e)).map Wrapper.summary = ws.map Wrapper.summary := by
  rw [List.map_map]
  rfl

theorem cutAtLast_map {p : Text → Bool} {g : Text → Text} (same : ∀ line, p (g line) = p line)
    (lines : List Text) :
    cutAtLast p (lines.map g) = (cutAtLast p lines).map (Prod.map (List.map g) (List.map g)) := by
  induction lines with
  | nil => rfl
  | cons line rest ih =>
    rw [List.map_cons, cutAtLast, cutAtLast, ih]
    cases cutAtLast p rest with
    | none =>
      simp only [Option.map_none, same]
      split
      · rfl
      · rfl
    | some parts => rfl

theorem newBlock_apply (single : c.SingleLine) (generated : Text) :
    newBlock c e (e.apply generated) = e.apply (newBlock c .lf generated) := by
  have ends : e.apply LineEnding.lf.text = e.text := by
    rw [LineEnding.text, LineEnding.apply_newline, LineEnding.apply_nil, List.append_nil]
  simp only [newBlock, LineEnding.apply_append, ends,
    LineEnding.apply_eq_self e single.blockBegin.1, LineEnding.apply_eq_self e single.blockEnd.1]

theorem splice_apply (single : c.SingleLine) (lines : List Text) (block : Option Block)
    (generated : Text) :
    splice c e (lines.map e.apply) block (e.apply generated) =
      (splice c .lf lines block generated).map e.apply := by
  cases block with
  | some b =>
    simp only [splice, Except.map, LineEnding.apply_append, LineEnding.apply_flatten, List.map_take,
      List.map_drop]
  | none =>
    have anchor (line : Text) : isAnchor c (e.apply line) = isAnchor c line :=
      LineEnding.isPrefixOf_apply e single.namespaceEnd line
    rw [splice, splice, cutAtLast_map anchor]
    cases cutAtLast (isAnchor c) lines with
    | none => rfl
    | some parts =>
      simp only [Option.map_some, Prod.map, Except.map, LineEnding.apply_append,
        LineEnding.apply_flatten, newBlock_apply single]

theorem newline_mem_of_scan {t : Text} {s : Scan} (found : scan c t = .ok s)
    (nonempty : s.functions ≠ []) : '\n' ∈ t := by
  have scans := scan_ok_iff.mp found
  by_contra single
  have last (enclosing : Option Text) (progress : Scan.Progress) (above : List Text) (s : Scan)
      (done : Scan.Scans c above enclosing progress [] s) : s.functions = [] := by
    cases done
    rfl
  by_cases empty : t = []
  · rw [empty] at scans
    exact nonempty (last _ _ _ _ scans)
  · rw [Text.lines_single empty single] at scans
    cases scans with
    | sentinel _ _ rest => exact nonempty (last _ _ _ _ rest)
    | inside _ _ rest => exact nonempty (last _ _ _ _ rest)
    | classHead _ _ _ rest => exact nonempty (last _ _ _ _ rest)
    | plain _ _ _ _ rest => exact nonempty (last _ _ _ _ rest)

theorem scan_apply (e : LineEnding) (valid : c.Valid) (single : c.SingleLine) {t : Text}
    (h : Convertible t) :
    (scan c (e.apply t)).toOption.map (Scan.mapFunctions Marked.bare) =
      (scan c t).toOption.map (Scan.mapFunctions (Marked.bareIn e)) := by
  have whole := Text.lines_flatten t
  have part : Convertible t.lines.flatten := by rwa [whole]
  have scans := Scan.scanBelow_apply e valid single [] none .absent part (congrArg Text.lines whole)
  rw [List.map_nil, ← Text.lines_apply] at scans
  rw [scan, scan, Scan.ofLines, Scan.ofLines]
  generalize Scan.scanBelow c [] none .absent t.lines = read at scans ⊢
  generalize Scan.scanBelow c [] none .absent (e.apply t).lines = read' at scans ⊢
  cases read with
  | error fault =>
    cases read' with
    | error fault' => rfl
    | ok s' => cases scans
  | ok s =>
    cases read' with
    | error fault' => cases scans
    | ok s' => exact congrArg some (Except.ok.inj scans)

theorem apply_bne (s t : Text) : (e.apply s != e.apply t) = (s != t) := by
  rw [Bool.eq_iff_iff, bne_iff_ne, bne_iff_ne, ne_eq, ne_eq]
  exact not_congr ⟨LineEnding.apply_injective e, congrArg e.apply⟩

theorem rewrite_apply (single : c.SingleLine) (t : Text) {s' s : Scan}
    (clean : ∀ m ∈ s.functions, m.SingleLine)
    (functions : s'.functions.map Marked.bare = s.functions.map (Marked.bareIn e))
    (block : s'.block = s.block) :
    (rewrite c e (e.apply t) s').toOption =
      (rewrite c .lf t s).toOption.map fun l => { l with output := e.apply l.output } := by
  have written_ := wrappers_apply (c := c) clean functions
  rw [rewrite, rewrite, block, Text.lines_apply]
  generalize wrappers c e s'.functions = read' at written_ ⊢
  generalize wrappers c .lf s.functions = read at written_ ⊢
  cases read with
  | error fault =>
    cases read' with
    | error fault' => rfl
    | ok ws' => cases written_
  | ok ws =>
    cases read' with
    | error fault' => cases written_
    | ok ws' =>
      cases written_
      simp only [Except.bind, flatMap_text_restyle, splice_apply single, map_summary_restyle]
      cases splice c .lf t.lines s.block (ws.flatMap Wrapper.text) with
      | error fault => rfl
      | ok output => simp only [Except.map, Except.toOption, Option.map_some, apply_bne]

end Header

/-- A header is transformed in the same way whatever ends its lines. -/
theorem liftHeader_apply (valid : c.Valid) (single : c.SingleLine) {t : Text} (noReturn : '\r' ∉ t)
    (noSplice : ¬ ['\\', '\n'] <:+: t) (e : LineEnding) :
    (liftHeader c (e.apply t)).toOption =
      (liftHeader c t).toOption.map fun l => { l with output := e.apply l.output } := by
  have scans := Header.scan_apply e valid single ⟨noReturn, noSplice⟩
  cases found : Header.scan c t with
  | error fault =>
    rw [found] at scans
    rw [liftHeader, liftHeader, found]
    cases there : Header.scan c (e.apply t) with
    | error fault' => rfl
    | ok s' => rw [there] at scans; cases scans
  | ok s =>
    rw [found] at scans
    cases there : Header.scan c (e.apply t) with
    | error fault' => rw [there] at scans; cases scans
    | ok s' =>
      rw [there] at scans
      have same := Option.some.inj scans
      have functions : s'.functions.map Marked.bare = s.functions.map (Marked.bareIn e) :=
        congrArg Scan.functions same
      have block := congrArg Scan.block same
      simp only [Scan.mapFunctions] at block
      by_cases nonempty : s.functions = []
      · rw [nonempty, List.map_nil, List.map_eq_nil_iff] at functions
        rw [liftHeader_of_scan_nil found nonempty, liftHeader_of_scan_nil there functions]
        rfl
      · have some_ : s'.functions ≠ [] := by
          intro none_
          rw [none_, List.map_nil] at functions
          exact nonempty (List.map_eq_nil_iff.mp functions.symm)
        rw [liftHeader_of_scan found nonempty, liftHeader_of_scan there some_,
          LineEnding.detect_lf noReturn,
          LineEnding.detect_apply noReturn (Header.newline_mem_of_scan found nonempty)]
        have part : Convertible t.lines.flatten := by
          rw [Text.lines_flatten]
          exact ⟨noReturn, noSplice⟩
        have clean := (Header.scan_ok_iff.mp found).singleLine part (by simp)
        exact Header.rewrite_apply single t clean functions block

def closeHeader : Text :=
  ("class AFIO_DECL handle\n\x7b\n  //! Closes it.\n  AFIO_MAKE_FREE_FUNCTION\n" ++
    "  void close() noexcept;\n\x7d;\nAFIO_V2_NAMESPACE_END\n").toList

theorem liftHeader_apply_close :
    (liftHeader .standard (LineEnding.crlf.apply closeHeader)).toOption =
      (liftHeader .standard closeHeader).toOption.map fun l =>
        { l with output := LineEnding.crlf.apply l.output } :=
  have single : Conventions.standard.SingleLine :=
    ⟨by decide +kernel, by decide +kernel, by decide +kernel, by decide +kernel⟩
  liftHeader_apply (by decide +kernel) single (by decide +kernel) (by decide +kernel) .crlf

end MemberLift
