import Mathlib.Data.List.DropRight
import MemberLift.Proofs.Header.Again

/-!
New blocks.  The sentinels of a new block are written as lines, and a scan looks for them in lines.
`Legible` says when a scan finds them where they were written, and `splice_replaceable` that only
then the next transformation replaces the block.
-/
namespace MemberLift

open Lexer Scan

variable {c : Conventions}

namespace Text

/-- What stands behind the last line feed of a text. -/
def unfinished (t : Text) : Text := t.rtakeWhile (· != '\n')

theorem newline_notMem_unfinished (t : Text) : '\n' ∉ t.unfinished := by
  intro inside
  have differs := List.mem_rtakeWhile_imp inside
  exact absurd rfl (bne_iff_ne.mp differs)

theorem unfinished_of_feed {t : Text} (feed : ['\n'] <:+ t) : t.unfinished = [] := by
  obtain ⟨front, rfl⟩ := feed
  exact List.rtakeWhile_concat_neg _ _ _ (by simp)

theorem newlines_of_feed {t : Text} (feed : ['\n'] <:+ t) : t.newlines = t.lines.length := by
  have whole : lines (t ++ ['\n']) = lines t ++ [['\n']] := lines_append_of_feed feed _
  obtain ⟨_, complete⟩ := lines_eq_append whole
  have counted := newlines_flatten (complete (by simp))
  rwa [lines_flatten] at counted

theorem exists_finished (t : Text) :
    ∃ done, t = done ++ t.unfinished ∧ t.newlines = done.lines.length ∧
      ∀ more, lines (done ++ more) = lines done ++ lines more := by
  have whole : t.rdropWhile (· != '\n') ++ t.unfinished = t := List.rdropWhile_append_rtakeWhile
  have count : t.newlines = Text.newlines (t.rdropWhile (· != '\n')) := by
    have parts : Text.newlines (t.rdropWhile (· != '\n') ++ t.unfinished) = _ :=
      newlines_append _ _
    have none_ := newlines_eq_zero (newline_notMem_unfinished t)
    rw [whole] at parts
    omega
  refine ⟨t.rdropWhile (· != '\n'), whole.symm, ?_⟩
  rw [count]
  by_cases empty : t.rdropWhile (· != '\n') = []
  · rw [empty]
    exact ⟨rfl, fun _ => rfl⟩
  · have last : (t.rdropWhile (· != '\n')).getLast empty = '\n' := by
      simpa using List.rdropWhile_last_not (· != '\n') t empty
    have feed : ['\n'] <:+ t.rdropWhile (· != '\n') := by
      have split := List.dropLast_append_getLast empty
      rw [last] at split
      exact ⟨_, split⟩
    exact ⟨newlines_of_feed feed, lines_append_of_feed feed⟩

theorem lines_sentinel (start : Text) {needle : Text} (started : '\n' ∉ start)
    (nonempty : needle ≠ []) (single : '\n' ∉ needle.dropLast) (e : LineEnding) :
    ∃ line more, (∀ t, lines (start ++ needle ++ e.text ++ t) = line :: (more ++ lines t)) ∧
      needle <:+: line ∧ (∀ other ∈ more, other = e.text) ∧
      (start ++ needle ++ e.text).newlines = 1 + more.length := by
  by_cases feed : '\n' ∈ needle
  · -- The line feed of the sentinel ends the line, and its line ending makes another one.
    have split := List.dropLast_append_getLast nonempty
    have last : needle.getLast nonempty = '\n' := by
      rw [← split] at feed
      rcases List.mem_append.mp feed with inside | last
      · exact absurd inside single
      · exact (List.mem_singleton.mp last).symm
    rw [last] at split
    have complete : Complete (start ++ needle) := by
      refine ⟨start ++ needle.dropLast, ?_, ?_⟩
      · intro inside
        exact (List.mem_append.mp inside).elim started single
      · rw [List.append_assoc, split]
    have ending : Complete e.text := complete_append_text List.not_mem_nil e
    refine ⟨start ++ needle, [e.text], ?_, (List.suffix_append _ _).isInfix, ?_, ?_⟩
    · intro t
      rw [List.append_assoc, lines_complete complete, lines_complete ending, List.singleton_append]
    · intro other inside
      exact List.mem_singleton.mp inside
    · rw [newlines_append, newlines_complete complete, newlines_complete ending]
      rfl
  · have clean : '\n' ∉ start ++ needle := by
      intro inside
      exact (List.mem_append.mp inside).elim started feed
    have complete := complete_append_text clean e
    refine ⟨start ++ needle ++ e.text, [], ?_, ?_, ?_, newlines_complete complete⟩
    · intro t
      exact lines_complete complete t
    · exact ⟨start, e.text, rfl⟩
    · intro other inside
      cases inside

end Text

/-- What a scan has to be able to read: sentinels on one line each, and no begin sentinel on the
line of the end sentinel, which may have an unfinished line in front of it. -/
structure Conventions.Legible (c : Conventions) (ending : LineEnding) (generated : Text) :
    Prop where
  beginLine : '\n' ∉ c.blockBegin.dropLast
  endLine : '\n' ∉ c.blockEnd.dropLast
  apart : ¬ Text.occursIn c.blockBegin (generated.unfinished ++ c.blockEnd ++ ending.text) = true

theorem Header.legible_wrappers {ending : LineEnding} {functions : List Marked} {ws : List Wrapper}
    (written : wrappers c ending functions = .ok ws) :
    c.Legible ending (ws.flatMap Wrapper.text) ↔
      '\n' ∉ c.blockBegin.dropLast ∧ '\n' ∉ c.blockEnd.dropLast ∧
        ¬ Text.occursIn c.blockBegin (c.blockEnd ++ ending.text) = true := by
  have finished : Text.unfinished (ws.flatMap Wrapper.text) = [] := by
    by_cases none_ : functions = []
    · rw [none_] at written
      cases written
      rfl
    · exact Text.unfinished_of_feed (wrappers_feed written none_)
  constructor
  · rintro ⟨beginLine, endLine, apart⟩
    rw [finished, List.nil_append] at apart
    exact ⟨beginLine, endLine, apart⟩
  · rintro ⟨beginLine, endLine, apart⟩
    refine ⟨beginLine, endLine, ?_⟩
    rwa [finished, List.nil_append]

/-- Texts with a block that the next transformation finds and replaces. -/
structure Header.Replaceable (c : Conventions) (t : Text) (block : Block) : Prop where
  once : sentinels c t.lines = [(block.opening, .opening), (block.closing, .closing)]
  found : ∀ s, scan c t = .ok s → s.block = some block
  balanced : ∀ line cause, scan c t ≠ .error (.unbalanced line cause)
  replaced : ∀ ending (generated : Text), generated.unfinished = [] → Free c generated.lines →
    ∃ output, splice c ending t.lines (some block) generated = .ok output ∧
      sentinels c output.lines =
        [(block.opening, .opening), (block.opening + 1 + generated.lines.length, .closing)]

namespace Header

theorem unbalanced_of_scan {t : Text} {line : Nat} {cause : BlockFault}
    (failed : scan c t = .error (.unbalanced line cause)) :
    Scan.ofLines c t.lines = .error (.unbalanced line cause) := by
  unfold scan at failed
  cases scanned : Scan.ofLines c t.lines with
  | ok s => rw [scanned] at failed; cases failed
  | error fault =>
    rw [scanned] at failed
    cases fault <;> cases failed
    rfl

theorem Replaceable.of_sentinels {t : Text} {block : Block}
    (once : sentinels c t.lines = [(block.opening, .opening), (block.closing, .closing)]) :
    Replaceable c t block := by
  have follows : Progress.absent.follow (sentinels c t.lines) = .ok (some block) := by
    rw [once]
    rfl
  refine ⟨once, ?_, ?_, ?_⟩
  · intro s scanned
    have found := (scan_ok_iff.mp scanned).follow
    exact (Except.ok.inj (follows.symm.trans found)).symm
  · intro line cause failed
    have faulted := follow_of_unbalanced (unbalanced_of_scan failed)
    cases follows.symm.trans faulted
  · intro ending generated finished clean
    obtain ⟨front, first, inside, last, back, divided, opening, closing⟩ :=
      divided_of_sentinels once
    obtain ⟨whole, free, opens, middle, closes, behind⟩ := divided
    have same : block = ⟨front.length, front.length + 1 + inside.length⟩ := by
      cases block
      rw [Block.mk.injEq]
      exact ⟨opening, closing⟩
    subst same
    refine ⟨_, splice_block whole ending generated, ?_⟩
    -- The lines in front of the end sentinel are complete, and so are the generated ones.
    obtain ⟨_, complete⟩ := Text.lines_eq_append whole
    rw [List.append_cons, ← List.append_assoc] at whole
    obtain ⟨rest, complete⟩ := Text.lines_eq_append whole
    obtain ⟨done, split, _, append⟩ := Text.exists_finished generated
    rw [finished, List.append_nil] at split
    subst split
    have before : ∀ line ∈ front ++ [first], Text.Complete line := fun line member =>
      complete (by simp) line (List.mem_append_left inside member)
    have lines : Text.lines (front.flatten ++ first ++ generated ++ (last :: back).flatten) =
        front ++ first :: (generated.lines ++ last :: back) := by
      have flat := Text.lines_flatten_append before (generated ++ (last :: back).flatten)
      rw [append, rest] at flat
      simpa using flat
    rw [lines]
    exact Divided.sentinels ⟨rfl, free, opens, clean, closes, behind⟩

section

variable {generated : Text}

/-- The line of an end sentinel opens a block if a begin sentinel occurs in what is written. -/
theorem sentinel?_last (valid : c.Valid) (beginLine : '\n' ∉ c.blockBegin.dropLast)
    {ending : LineEnding} {t line : Text} {more : List Text} (lines : t.lines = line :: more)
    (same : ∀ other ∈ more, other = ending.text) (closes : c.blockEnd <:+: line) :
    sentinel? c line =
      some (if Text.occursIn c.blockBegin t then .opening else .closing) := by
  obtain ⟨_, _, blockBegin, _, _⟩ := Conventions.valid_iff.mp valid
  have somewhere := Text.occursIn_lines valid.sentinels_ne_nil.1 beginLine t
  rw [lines] at somewhere
  by_cases occurs : Text.occursIn c.blockBegin t = true
  · rw [if_pos occurs]
    obtain ⟨other, inside, here⟩ := somewhere.mp occurs
    rcases List.mem_cons.mp inside with rfl | behind
    · exact sentinel?_opening here
    · rw [same other behind] at here
      exact absurd here (not_occursIn_text blockBegin ending)
  · rw [if_neg occurs]
    refine sentinel?_closing (fun here => occurs ?_) ((Text.occursIn_iff _ _).mpr closes)
    exact somewhere.mpr ⟨line, List.mem_cons_self, here⟩

theorem sentinels_newBlock (valid : c.Valid) (beginLine : '\n' ∉ c.blockBegin.dropLast)
    (endLine : '\n' ∉ c.blockEnd.dropLast) (ending : LineEnding) (clean : Free c generated.lines) :
    ∃ lines, (∀ t, Text.lines (newBlock c ending generated ++ t) = lines ++ Text.lines t) ∧
      ∀ index, sentinelsFrom c index lines = [(index, .opening),
        (index + Text.newlines (c.blockBegin ++ ending.text ++ generated),
          if Text.occursIn c.blockBegin (generated.unfinished ++ c.blockEnd ++ ending.text) then
            .opening else .closing)] := by
  obtain ⟨beginSome, endSome⟩ := valid.sentinels_ne_nil
  obtain ⟨first, more, opening, inFirst, same, count⟩ :=
    Text.lines_sentinel [] List.not_mem_nil beginSome beginLine ending
  rw [List.nil_append] at count
  simp only [List.nil_append] at opening
  obtain ⟨done, split, finished, append⟩ := Text.exists_finished generated
  obtain ⟨last, more', closing, inLast, same', _⟩ :=
    Text.lines_sentinel _ (Text.newline_notMem_unfinished generated) endSome endLine ending
  have emptyLine (t : Text) : Text.lines (ending.text ++ t) = ending.text :: Text.lines t := by
    cases ending <;> rfl
  have freeDone : Free c done.lines := by
    have parts := append generated.unfinished
    rw [← split] at parts
    rw [parts] at clean
    exact (free_append clean).1
  refine ⟨first :: (more ++ (done.lines ++ last :: (more' ++ [ending.text]))), ?_, ?_⟩
  · intro t
    have parts : newBlock c ending generated ++ t = c.blockBegin ++ ending.text ++ (done ++
        (generated.unfinished ++ c.blockEnd ++ ending.text ++ (ending.text ++ t))) := by
      unfold newBlock
      conv => lhs; rw [split]
      simp only [List.append_assoc]
    rw [parts, opening, append, closing, emptyLine]
    simp only [List.append_assoc, List.cons_append, List.nil_append]
  · intro index
    have opens : sentinel? c first = some .opening :=
      sentinel?_opening ((Text.occursIn_iff _ _).mpr inFirst)
    have lines := closing []
    rw [List.append_nil, Text.lines, List.append_nil] at lines
    have closes := sentinel?_last valid beginLine lines same' inLast
    have behind : Free c (more' ++ [ending.text]) := by
      refine free_text (e := ending) valid fun other inside => ?_
      rcases List.mem_append.mp inside with inside | inside
      · exact same' other inside
      · exact List.mem_singleton.mp inside
    have place : index + 1 + more.length + done.lines.length =
        index + Text.newlines (c.blockBegin ++ ending.text ++ generated) := by
      rw [newlines_append, count, finished]
      omega
    rw [sentinelsFrom_some opens, sentinelsFrom_append, sentinelsFrom_eq_nil.mpr
      (free_text valid same), sentinelsFrom_append, sentinelsFrom_eq_nil.mpr freeDone,
      sentinelsFrom_some closes, sentinelsFrom_eq_nil.mpr behind, place]
    rfl

theorem Replaceable.beginLine {t : Text} {block : Block} (h : Replaceable c t block) :
    '\n' ∉ c.blockBegin.dropLast := by
  have inside : (block.opening, Sentinel.opening) ∈ sentinels c t.lines := by
    rw [h.once]
    exact List.mem_cons_self
  obtain ⟨line, member, opens⟩ := exists_of_mem_sentinelsFrom inside
  exact Text.single_of_occursIn member (occursIn_of_opening opens)

theorem Replaceable.endLine {t : Text} {block : Block} (h : Replaceable c t block) :
    '\n' ∉ c.blockEnd.dropLast := by
  have inside : (block.closing, Sentinel.closing) ∈ sentinels c t.lines := by
    rw [h.once]
    exact List.mem_cons_of_mem _ List.mem_cons_self
  obtain ⟨line, member, closes⟩ := exists_of_mem_sentinelsFrom inside
  exact Text.single_of_occursIn member (occursIn_of_closing closes)

theorem cutAtLast_append {p : Text → Bool} {line : Text} {after : List Text} (here : p line = true)
    (last : ∀ other ∈ after, p other = false) (before : List Text) :
    cutAtLast p (before ++ line :: after) = some (before, line :: after) := by
  have absent : cutAtLast p after = none := by
    induction after with
    | nil => rfl
    | cons first after ih =>
      have behind := ih fun other inside => last other (List.mem_cons_of_mem first inside)
      rw [cutAtLast, behind, last first List.mem_cons_self]
      rfl
  induction before with
  | nil => rw [List.nil_append, cutAtLast, absent, here]; rfl
  | cons first before ih => rw [List.cons_append, cutAtLast, ih]

theorem sentinels_spliced (valid : c.Valid) (beginLine : '\n' ∉ c.blockBegin.dropLast)
    (endLine : '\n' ∉ c.blockEnd.dropLast) {before after : List Text} {t : Text}
    (whole : t.lines = before ++ after) (some_ : after ≠ []) (free : Free c t.lines)
    (ending : LineEnding) (clean : Free c generated.lines) :
    sentinels c (Text.lines (before.flatten ++ newBlock c ending generated ++ after.flatten)) =
      [(before.length, .opening),
        (before.length + Text.newlines (c.blockBegin ++ ending.text ++ generated),
          if Text.occursIn c.blockBegin (generated.unfinished ++ c.blockEnd ++ ending.text) then
            .opening else .closing)] := by
  obtain ⟨behind, complete⟩ := Text.lines_eq_append whole
  rw [whole] at free
  obtain ⟨freeBefore, freeAfter⟩ := free_append free
  obtain ⟨lines, block, read⟩ := sentinels_newBlock valid beginLine endLine ending clean
  rw [List.append_assoc, Text.lines_flatten_append (complete some_), block, behind, sentinels,
    sentinelsFrom_append, sentinelsFrom_eq_nil.mpr freeBefore, sentinelsFrom_append, read,
    sentinelsFrom_eq_nil.mpr freeAfter, Nat.zero_add]
  rfl

end

end Header

/-- A new block stands in front of the last line that ends the namespace.  The next transformation
finds it there and replaces it, if and only if its sentinels are legible. -/
theorem splice_replaceable (valid : c.Valid) {t : Text} (free : Free c t.lines)
    {before after : List Text} {anchor : Text} (whole : t.lines = before ++ anchor :: after)
    (here : c.namespaceEnd <+: anchor) (last : ∀ line ∈ after, ¬ c.namespaceEnd <+: line)
    (ending : LineEnding) (ws : List Wrapper)
    (clean : Free c (Text.lines (ws.flatMap Wrapper.text))) :
    ∃ output, Header.splice c ending t.lines none (ws.flatMap Wrapper.text) = .ok output ∧
      (Header.Replaceable c output ⟨before.length, before.length +
          Text.newlines (c.blockBegin ++ ending.text ++ ws.flatMap Wrapper.text)⟩ ↔
        c.Legible ending (ws.flatMap Wrapper.text)) := by
  have cut : Header.cutAtLast (Header.isAnchor c) t.lines = some (before, anchor :: after) := by
    rw [whole]
    refine Header.cutAtLast_append (List.isPrefixOf_iff_prefix.mpr here) ?_ before
    intro line inside
    exact Bool.eq_false_iff.mpr fun begins =>
      last line inside (List.isPrefixOf_iff_prefix.mp begins)
  refine ⟨before.flatten ++ Header.newBlock c ending (ws.flatMap Wrapper.text) ++
    (anchor :: after).flatten, by rw [Header.splice, cut], ?_⟩
  constructor
  · intro replaceable
    have beginLine := replaceable.beginLine
    have endLine := replaceable.endLine
    refine ⟨beginLine, endLine, fun occurs => ?_⟩
    have written := Header.sentinels_spliced valid beginLine endLine whole (by simp) free
      ending clean
    rw [if_pos occurs] at written
    -- Two lines would open a block.
    cases written.symm.trans replaceable.once
  · rintro ⟨beginLine, endLine, apart⟩
    have written := Header.sentinels_spliced valid beginLine endLine whole (by simp) free
      ending clean
    rw [if_neg apart] at written
    exact .of_sentinels written

theorem splice_replaceable_close :
    ∃ s ws output, Header.scan .standard closeHeader = .ok s ∧
      Header.wrappers .standard .lf s.functions = .ok ws ∧ ws ≠ [] ∧
      Header.splice .standard .lf closeHeader.lines none (ws.flatMap Wrapper.text) = .ok output ∧
      Header.Replaceable .standard output ⟨6, 12⟩ := by
  obtain ⟨s, found, ws, written, some_, clean, place⟩ :
      ∃ s ∈ (Header.scan .standard closeHeader).toOption,
        ∃ ws ∈ (Header.wrappers .standard .lf s.functions).toOption,
          ws ≠ [] ∧ Free .standard (Text.lines (ws.flatMap Wrapper.text)) ∧
          6 + Text.newlines (Conventions.standard.blockBegin ++ LineEnding.lf.text ++
            ws.flatMap Wrapper.text) = 12 := by
    decide +kernel
  have written := ok_of_mem_toOption written
  have legible := (Header.legible_wrappers written).mpr
    ⟨by decide +kernel, by decide +kernel, by decide +kernel⟩
  have whole : closeHeader.lines =
      closeHeader.lines.take 6 ++ "AFIO_V2_NAMESPACE_END\n".toList :: [] := by
    decide +kernel
  obtain ⟨output, spliced, replaceable⟩ := splice_replaceable (c := .standard) (by decide +kernel)
    (by decide +kernel) whole (by decide +kernel) (by decide +kernel) .lf ws clean
  have here := replaceable.mpr legible
  have size : (closeHeader.lines.take 6).length = 6 := by decide +kernel
  rw [size, place] at here
  exact ⟨s, ws, output, ok_of_mem_toOption found, written, some_, spliced, here⟩

/-- Conventions whose blocks end like they begin, with another word behind. -/
def resumed : Conventions where
  __ := Conventions.standard
  blockBegin := "// FREE".toList
  blockEnd := "// FREE END".toList

example : resumed.Valid ∧ ((liftHeader resumed closeHeader).bind fun l =>
    liftHeader resumed l.output) = .error (.unbalanced 13 .secondBegin) := by
  decide +kernel

end MemberLift
