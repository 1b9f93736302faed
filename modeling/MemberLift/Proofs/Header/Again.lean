import MemberLift.Proofs.Header.Endings
import MemberLift.Proofs.Header.Scan.Front
import MemberLift.Proofs.Header.Scan.Sentinels
import MemberLift.Proofs.Header.Splice

/-!
Transforming a header again.  `liftHeader_again` says when the second transformation leaves the
result of the first one as it is.
-/
namespace MemberLift

open Scan

variable {c : Conventions}

theorem LineEnding.text_feed (e : LineEnding) : ['\n'] <:+ e.text := by
  rw [e.text_snoc]
  exact List.suffix_append _ _

theorem definitionText_feed (ending : LineEnding) (className : Text) (d : Declaration) :
    ['\n'] <:+ Wrapper.definitionText ending className d := by
  unfold Wrapper.definitionText
  simp only [List.flatMap_cons, List.flatMap_nil, List.append_nil]
  simp only [← List.append_assoc]
  exact ending.text_feed.trans (List.suffix_append _ _)

theorem ofMarked_feed {ending : LineEnding} {m : Marked} {w : Wrapper}
    (written : Wrapper.ofMarked c ending m = .ok w) : ['\n'] <:+ w.text := by
  obtain ⟨d, _, rfl⟩ := Wrapper.ofMarked_ok written
  exact (definitionText_feed _ _ _).trans (List.suffix_append _ _)

theorem Header.wrappers_feed {ending : LineEnding} {functions : List Marked} {ws : List Wrapper}
    (written : wrappers c ending functions = .ok ws) (nonempty : functions ≠ []) :
    ['\n'] <:+ ws.flatMap Wrapper.text := by
  induction functions generalizing ws with
  | nil => exact absurd rfl nonempty
  | cons m rest ih =>
    rw [wrappers] at written
    split at written
    · cases written
    · rename_i w first
      cases behind : wrappers c ending rest with
      | error fault => rw [behind] at written; cases written
      | ok ws =>
        rw [behind] at written
        cases written
        rw [List.flatMap_cons]
        by_cases last : rest = []
        · rw [last] at behind
          cases behind
          rw [List.flatMap_nil, List.append_nil]
          exact ofMarked_feed first
        · exact (ih behind last).trans (List.suffix_append _ _)

namespace Scan

theorem scans_empty (valid : c.Valid) (e : LineEnding) {above below : List Text}
    {enclosing : Option Text} {progress : Progress} {scan : Scan}
    (outside : progress.isOpen = false)
    (rest : Scans c (e.text :: above) enclosing progress below scan) :
    Scans c above enclosing progress (e.text :: below) scan := by
  obtain ⟨a, m, marker, _⟩ := valid.marker
  refine .plain (sentinel?_text valid e) outside ?_ ?_ rest
  · cases e with
    | lf => rfl
    | crlf => rfl
  · rw [afterMarker?, marker]
    cases e with
    | lf => rfl
    | crlf => rfl

end Scan

namespace Header

theorem lines_block {front : List Text} {opening generated : Text}
    (complete : ∀ line ∈ front, Text.Complete line) (first : Text.Complete opening)
    (feed : ['\n'] <:+ generated) (more : Text) :
    Text.lines (front.flatten ++ opening ++ generated ++ more) =
      front ++ opening :: (Text.lines generated ++ Text.lines more) := by
  rw [List.append_assoc, List.append_assoc, Text.lines_flatten_append complete,
    Text.lines_complete first, Text.lines_append_of_feed feed]

/-- A header whose block holds the wrappers of its functions is not changed. -/
theorem liftHeader_of_block {t : Text} {functions : List Marked} {front after : List Text}
    {opening closing : Text} {ws : List Wrapper} (marked : functions ≠ [])
    {inside : List Text} (middle : Text.lines (ws.flatMap Wrapper.text) = inside)
    (whole : t.lines = front ++ opening :: (inside ++ closing :: after))
    (found : Scans c [] none .absent t.lines
      ⟨functions, some ⟨front.length, front.length + 1 + inside.length⟩⟩)
    (written : wrappers c (LineEnding.detect t) functions = .ok ws) :
    liftHeader c t = .ok ⟨t, false, ws.map Wrapper.summary⟩ := by
  have same : front.flatten ++ opening ++ ws.flatMap Wrapper.text ++ (closing :: after).flatten =
      t := by
    have flat := Text.lines_flatten t
    rw [whole, ← middle] at flat
    simpa [Text.lines_flatten] using flat
  rw [liftHeader_of_scan (scan_ok_iff.mpr found) marked, rewrite, written]
  simp only [Except.bind, splice_block whole, Except.map, same, bne_self_eq_false]

/-- The index of the line where the block begins, or where a new block would begin. -/
def place (c : Conventions) (lines : List Text) : Option Block → Option Nat
  | some b => some b.opening
  | none => (cutAtLast (isAnchor c) lines).map fun parts => parts.1.length

section

variable {t output : Text} {s : Scan} {ws : List Wrapper}

/-- A header is not changed if it holds the block of another header behind all functions of that. -/
theorem again_of_lines (valid : c.Valid) (marked : s.functions ≠ [])
    (found : Scans c [] none .absent t.lines s) {front behind after : List Text}
    {opening closing : Text} (whole : t.lines = front ++ behind)
    (complete : ∀ line ∈ front, Text.Complete line) (free : Free c front)
    (inFront : ∀ m ∈ s.functions, InFront c t.lines front.length m)
    (written : wrappers c (LineEnding.detect t) s.functions = .ok ws)
    (clean : Free c (Text.lines (ws.flatMap Wrapper.text)))
    (opens : sentinel? c opening = some .opening) (closes : sentinel? c closing = some .closing)
    (lines : output.lines =
      front ++ opening :: (Text.lines (ws.flatMap Wrapper.text) ++ closing :: after))
    (rest : ∀ enclosing, Scans c front.reverse enclosing .absent behind ⟨[], s.block⟩ →
      ∀ above (b : Block), Scans c above enclosing (.closed b) after ⟨[], some b⟩) :
    liftHeader c output = .ok ⟨output, false, ws.map Wrapper.summary⟩ := by
  have nonempty : front ≠ [] := found.front_nonempty marked fun m member => (inFront m member).1
  have ending := LineEnding.detect_front nonempty whole lines
  refine liftHeader_of_block marked rfl lines ?_ (ending ▸ written)
  -- The scan finds the same functions in front of the block, and none behind it.
  rw [whole] at found inFront
  obtain ⟨enclosing, scans, again⟩ := found.behind_functions valid complete free inFront
  have blocked := scans_block front.reverse enclosing opens clean closes (rest enclosing scans)
  rw [List.length_reverse] at blocked
  rw [lines]
  exact again _ _ blocked

theorem not_again_of_lines (valid : c.Valid) {front inside after : List Text}
    {opening closing : Text} (complete : ∀ line ∈ front, Text.Complete line) (free : Free c front)
    (clean : Free c inside) (opens : sentinel? c opening = some .opening)
    (opensAgain : sentinel? c closing = some .opening)
    (lines : output.lines = front ++ opening :: (inside ++ closing :: after)) (l : Lifted) :
    liftHeader c output ≠ .ok l := by
  intro unchanged
  cases scanned : scan c output with
  | error fault =>
    rw [liftHeader, scanned] at unchanged
    cases unchanged
  | ok s' =>
    have scans := scan_ok_iff.mp scanned
    rw [lines] at scans
    obtain ⟨_, _, _, behind, _⟩ := scans.front valid complete free
    exact not_scans_of_opening clean opensAgain (behind.behind_opening opens)

theorem again_block (valid : c.Valid) (marked : s.functions ≠ [])
    (found : Scans c [] none .absent t.lines s) {b : Block} (block : s.block = some b)
    (inFront : ∀ m ∈ s.functions, InFront c t.lines b.opening m)
    (written : wrappers c (LineEnding.detect t) s.functions = .ok ws)
    (clean : Free c (Text.lines (ws.flatMap Wrapper.text)))
    (spliced : splice c (LineEnding.detect t) t.lines (some b) (ws.flatMap Wrapper.text) =
      .ok output) :
    liftHeader c output = .ok ⟨output, false, ws.map Wrapper.summary⟩ := by
  rcases found.absent with ⟨none_, _⟩ | ⟨front, opening, inside, closing, after, divided, there⟩
  · rw [none_] at block
    cases block
  · obtain ⟨whole, free, opens, middle, closes, back⟩ := divided
    rw [block, List.length_nil, Nat.zero_add] at there
    cases there
    rw [splice_block whole] at spliced
    cases spliced
    -- The lines in front of the closing sentinel all end in line feeds.
    obtain ⟨behind, complete⟩ := Text.lines_eq_append whole
    have completeFront := complete (by simp)
    obtain ⟨_, behindOpening, first⟩ := Text.lines_eq_cons behind
    have completeOpening : Text.Complete opening := by
      rcases first with first | ⟨_, none_⟩
      · exact first
      · simp at none_
    obtain ⟨behindInside, _⟩ := Text.lines_eq_append behindOpening
    have feed := wrappers_feed written marked
    have lines := lines_block completeFront completeOpening feed (closing :: after).flatten
    rw [behindInside] at lines
    refine again_of_lines valid marked found whole completeFront free inFront written clean opens
      closes lines fun enclosing scans above b' => ?_
    have behind := ((scans.behind_opening opens).behind_inside middle).behind_closing closes
    exact behind.unmarked rfl back rfl above enclosing rfl rfl

theorem splice_new (beginLine : '\n' ∉ c.blockBegin) (endLine : '\n' ∉ c.blockEnd)
    {ending : LineEnding} {generated : Text} (feed : ['\n'] <:+ generated)
    (spliced : splice c ending t.lines none generated = .ok output) :
    ∃ front after, place c t.lines none = some front.length ∧ t.lines = front ++ after ∧
      (∀ line ∈ front, Text.Complete line) ∧
      output.lines = front ++ (c.blockBegin ++ ending.text) ::
        (generated.lines ++ (c.blockEnd ++ ending.text) :: ending.text :: after) := by
  rw [splice] at spliced
  cases cut : cutAtLast (isAnchor c) t.lines with
  | none => rw [cut] at spliced; cases spliced
  | some parts =>
    obtain ⟨front, after⟩ := parts
    rw [cut] at spliced
    cases spliced
    obtain ⟨whole, line, rest, shape, _⟩ := cutAtLast_some cut
    obtain ⟨behind, complete⟩ := Text.lines_eq_append whole
    have completeFront := complete (by simp [shape])
    refine ⟨front, after, by rw [place, cut]; rfl, whole, completeFront, ?_⟩
    have lines := lines_block completeFront (Text.complete_append_text beginLine ending) feed
      ((c.blockEnd ++ ending.text) ++ (ending.text ++ after.flatten))
    have last := Text.complete_append_text endLine ending
    have empty : Text.Complete ending.text := Text.complete_append_text List.not_mem_nil ending
    rw [Text.lines_complete last, Text.lines_complete empty, behind] at lines
    rw [← lines, newBlock]
    simp only [List.append_assoc]

theorem again_new (valid : c.Valid) (beginLine : '\n' ∉ c.blockBegin)
    (endLine : '\n' ∉ c.blockEnd) (marked : s.functions ≠ [])
    (found : Scans c [] none .absent t.lines s) (block : s.block = none)
    (inFront : ∀ n ∈ place c t.lines none, ∀ m ∈ s.functions, InFront c t.lines n m)
    (written : wrappers c (LineEnding.detect t) s.functions = .ok ws)
    (clean : Free c (Text.lines (ws.flatMap Wrapper.text)))
    (spliced : splice c (LineEnding.detect t) t.lines none (ws.flatMap Wrapper.text) = .ok output) :
    liftHeader c output = .ok ⟨output, false, ws.map Wrapper.summary⟩ ↔
      ¬ Text.occursIn c.blockBegin (c.blockEnd ++ (LineEnding.detect t).text) = true := by
  obtain ⟨front, after, here, whole, complete, lines⟩ :=
    splice_new beginLine endLine (wrappers_feed written marked) spliced
  have before := inFront _ here
  have free := found.free block
  rw [whole] at free
  obtain ⟨freeFront, freeAfter⟩ := free_append free
  have opens := sentinel?_opening (occursIn_append c.blockBegin (LineEnding.detect t).text)
  constructor
  · intro unchanged occurs
    -- The line that should close the block opens a second one.
    exact not_again_of_lines valid complete freeFront clean opens (sentinel?_opening occurs) lines _
      unchanged
  · intro noBegin
    have closes := sentinel?_closing noBegin (occursIn_append c.blockEnd (LineEnding.detect t).text)
    refine again_of_lines valid marked found whole complete freeFront before written clean opens
      closes lines fun enclosing scans above b' => ?_
    refine scans_empty valid (LineEnding.detect t) rfl ?_
    exact scans.unmarked rfl freeAfter rfl _ enclosing rfl rfl

end

end Header

/-- A second transformation changes nothing if all marked functions stand in front of the block and
no line of the wrappers holds a sentinel, except where the first one makes a block whose last line
opens another block. -/
theorem liftHeader_again (valid : c.Valid) (beginLine : '\n' ∉ c.blockBegin)
    (endLine : '\n' ∉ c.blockEnd) {t : Text} {s : Scan} {ws : List Wrapper} {l : Lifted}
    (found : Header.scan c t = .ok s) (marked : s.functions ≠ [])
    (inFront : ∀ n ∈ Header.place c t.lines s.block, ∀ m ∈ s.functions, InFront c t.lines n m)
    (written : Header.wrappers c (LineEnding.detect t) s.functions = .ok ws)
    (clean : ∀ line ∈ Text.lines (ws.flatMap Wrapper.text), sentinel? c line = none)
    (lifted : liftHeader c t = .ok l) :
    liftHeader c l.output = .ok { l with changed := false } ↔
      (s.block = none →
        ¬ Text.occursIn c.blockBegin (c.blockEnd ++ (LineEnding.detect t).text) = true) := by
  rw [liftHeader_of_scan found marked] at lifted
  obtain ⟨ws', again, spliced, _, freed⟩ := Header.rewrite_ok lifted
  rw [written] at again
  cases again
  rw [freed]
  have scans := Header.scan_ok_iff.mp found
  cases block : s.block with
  | some b =>
    rw [block] at inFront spliced
    have unchanged := Header.again_block valid marked scans block (inFront _ rfl) written clean
      spliced
    exact iff_of_true unchanged fun none_ => by cases none_
  | none =>
    rw [block] at inFront spliced
    have unchanged := Header.again_new valid beginLine endLine marked scans block inFront written
      clean spliced
    rw [unchanged]
    exact ⟨fun noBegin _ => noBegin, fun noBegin => noBegin rfl⟩

theorem liftHeader_again_close : ∃ l, liftHeader .standard closeHeader = .ok l ∧
    liftHeader .standard l.output = .ok { l with changed := false } := by
  obtain ⟨s, found, marked, inFront, ws, written, clean⟩ :
      ∃ s ∈ (Header.scan .standard closeHeader).toOption, s.functions ≠ [] ∧
        (∀ n ∈ Header.place .standard closeHeader.lines s.block,
          ∀ m ∈ s.functions, InFront .standard closeHeader.lines n m) ∧
        ∃ ws ∈ (Header.wrappers .standard (LineEnding.detect closeHeader) s.functions).toOption,
          ∀ line ∈ Text.lines (ws.flatMap Wrapper.text), sentinel? .standard line = none := by
    decide +kernel
  obtain ⟨l, lifted, _⟩ : ∃ l ∈ (liftHeader .standard closeHeader).toOption, True := by
    decide +kernel
  have noBegin : ¬ Text.occursIn Conventions.standard.blockBegin
      (Conventions.standard.blockEnd ++ (LineEnding.detect closeHeader).text) = true := by
    decide +kernel
  have again := liftHeader_again (by decide +kernel) (by decide +kernel) (by decide +kernel)
    (ok_of_mem_toOption found) marked inFront (ok_of_mem_toOption written) clean
    (ok_of_mem_toOption lifted)
  exact ⟨l, ok_of_mem_toOption lifted, again.mpr fun _ => noBegin⟩

/-- Conventions whose block ends, in front of a carriage return, like it begins. -/
def crossed : Conventions where
  __ := Conventions.standard
  blockBegin := "// FREE\r".toList
  blockEnd := "// END // FREE".toList

example : crossed.Valid ∧ ((liftHeader crossed (LineEnding.crlf.apply closeHeader)).bind fun l =>
    liftHeader crossed l.output) = .error (.unbalanced 13 .secondBegin) := by
  decide +kernel

end MemberLift
