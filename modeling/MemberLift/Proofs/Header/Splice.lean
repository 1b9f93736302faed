import Mathlib.Data.List.Forall2
import MemberLift.Proofs.Header.Endings
import MemberLift.Proofs.Header.Rewrite
import MemberLift.Proofs.Header.Scan.Blocks

/-!
What a transformation changes in a header.  `Edit` says where generated text goes and that all other
text stays; `liftHeader_edit` says that every transformation is such an edit.
-/
namespace MemberLift

open Scan

variable {c : Conventions} {t output : Text} {s : Scan}

theorem LineEnding.detect_front {s t : Text} {front behind behind' : List Text} (some_ : front ≠ [])
    (lines : t.lines = front ++ behind) (lines' : s.lines = front ++ behind') :
    detect s = detect t := by
  obtain ⟨line, rest, rfl⟩ := List.exists_cons_of_ne_nil some_
  rw [detect, detect, lines, lines']
  rfl

namespace Header

theorem cutAtLast_some {p : Text → Bool} {lines before after : List Text}
    (h : cutAtLast p lines = some (before, after)) :
    lines = before ++ after ∧
      ∃ line rest, after = line :: rest ∧ p line = true ∧ ∀ other ∈ rest, p other = false := by
  have absent {lines : List Text} (none_ : cutAtLast p lines = none) :
      ∀ line ∈ lines, p line = false := by
    induction lines with
    | nil => exact fun line inside => by cases inside
    | cons first rest ih =>
      rw [cutAtLast] at none_
      cases behind : cutAtLast p rest with
      | some parts => rw [behind] at none_; cases none_
      | none =>
        rw [behind] at none_
        by_cases here : p first = true
        · simp only [here, if_true] at none_
          cases none_
        · intro line inside
          rcases List.mem_cons.mp inside with rfl | inside
          · exact Bool.eq_false_iff.mpr here
          · exact ih behind line inside
  induction lines generalizing before with
  | nil => cases h
  | cons first rest ih =>
    rw [cutAtLast] at h
    cases behind : cutAtLast p rest with
    | some parts =>
      rw [behind] at h
      cases h
      obtain ⟨whole, last⟩ := ih behind
      exact ⟨congrArg (first :: ·) whole, last⟩
    | none =>
      rw [behind] at h
      by_cases here : p first = true
      · simp only [here, if_true] at h
        cases h
        exact ⟨rfl, first, rest, rfl, here, absent behind⟩
      · simp only [here] at h
        cases h

theorem splice_block {lines front inside after : List Text} {opening closing : Text}
    (whole : lines = front ++ opening :: (inside ++ closing :: after)) (ending : LineEnding)
    (generated : Text) :
    splice c ending lines (some ⟨front.length, front.length + 1 + inside.length⟩) generated =
      .ok (front.flatten ++ opening ++ generated ++ (closing :: after).flatten) := by
  have first : lines.take (front.length + 1) = front ++ [opening] := by
    rw [whole, List.take_append, List.take_of_length_le (Nat.le_succ _)]
    simp
  have last : lines.drop (front.length + 1 + inside.length) = closing :: after := by
    rw [whole, List.append_cons, ← List.append_assoc]
    refine List.drop_left' ?_
    simp only [List.length_append, List.length_cons, List.length_nil]
  rw [splice, first, last, List.flatten_append, List.flatten_singleton]

/-- How generated text gets into a header: in place of what stands between the sentinels of its
block, or as a new block in front of the last line that ends the namespace. -/
inductive Edit (c : Conventions) (t generated output : Text) : Option Block → Prop
  | replace {front inside after : List Text} {opening closing : Text} :
      Divided c t.lines front opening inside closing after →
      t = (front.flatten ++ opening) ++ inside.flatten ++ (closing ++ after.flatten) →
      output = (front.flatten ++ opening) ++ generated ++ (closing ++ after.flatten) →
      Edit c t generated output (some ⟨front.length, front.length + 1 + inside.length⟩)
  | insert {before after : List Text} {anchor nl : Text} :
      Free c t.lines → t.lines = before ++ anchor :: after → c.namespaceEnd <+: anchor →
      (∀ line ∈ after, ¬ c.namespaceEnd <+: line) → nl = (LineEnding.detect t).text →
      t = before.flatten ++ (anchor ++ after.flatten) →
      output = before.flatten ++ (c.blockBegin ++ nl ++ generated ++ c.blockEnd ++ nl ++ nl) ++
        (anchor ++ after.flatten) →
      Edit c t generated output none

theorem edit_of_splice (found : Scans c [] none .absent t.lines s) {generated : Text}
    (spliced : splice c (LineEnding.detect t) t.lines s.block generated = .ok output) :
    Edit c t generated output s.block := by
  rcases found.absent with ⟨none_, free⟩ | ⟨front, opening, inside, closing, after, divided, block⟩
  · rw [none_, splice] at spliced
    rw [none_]
    cases cut : cutAtLast (isAnchor c) t.lines with
    | none => rw [cut] at spliced; cases spliced
    | some parts =>
      obtain ⟨before, behind⟩ := parts
      rw [cut] at spliced
      cases spliced
      obtain ⟨whole, anchor, after, rfl, here, last⟩ := cutAtLast_some cut
      refine .insert free whole (List.isPrefixOf_iff_prefix.mp here) ?_ rfl ?_ rfl
      · intro line inside begins
        have none_ := last line inside
        rw [isAnchor, List.isPrefixOf_iff_prefix.mpr begins] at none_
        cases none_
      · rw [← List.flatten_cons, ← List.flatten_append, ← whole, Text.lines_flatten]
  · rw [List.length_nil, Nat.zero_add] at block
    rw [block, splice_block divided.whole] at spliced
    cases spliced
    rw [block]
    refine .replace divided ?_ rfl
    have whole := Text.lines_flatten t
    rw [divided.whole] at whole
    rw [← whole]
    simp only [List.flatten_append, List.flatten_cons, List.append_assoc]

theorem wrappers_ok_iff {ending : LineEnding} {functions : List Marked} {ws : List Wrapper} :
    wrappers c ending functions = .ok ws ↔
      List.Forall₂ (fun m w => Wrapper.ofMarked c ending m = .ok w) functions ws := by
  induction functions generalizing ws with
  | nil =>
    constructor
    · intro h
      cases h
      exact .nil
    · intro h
      cases h
      rfl
  | cons m rest ih =>
    rw [wrappers]
    constructor
    · intro h
      cases first : Wrapper.ofMarked c ending m with
      | error fault => rw [first] at h; cases h
      | ok w =>
        rw [first] at h
        cases behind : wrappers c ending rest with
        | error fault => rw [behind] at h; cases h
        | ok ws' =>
          rw [behind] at h
          cases h
          exact .cons first (ih.mp behind)
    · intro h
      cases h with
      | cons first behind =>
        simp only [first, ih.mpr behind]
        rfl

theorem ofMarked_summary {ending : LineEnding} {m : Marked} {w : Wrapper}
    (written : Wrapper.ofMarked c ending m = .ok w) :
    w.summary.className = m.className ∧ w.summary.line = m.line := by
  obtain ⟨d, _, rfl⟩ := Wrapper.ofMarked_ok written
  exact ⟨rfl, rfl⟩

theorem wrappers_summary {ending : LineEnding} {functions : List Marked} {ws : List Wrapper}
    (written : List.Forall₂ (fun m w => Wrapper.ofMarked c ending m = .ok w) functions ws) :
    (ws.map Wrapper.summary).map (fun f => (f.className, f.line)) =
      functions.map fun m => (m.className, m.line) := by
  induction written with
  | nil => rfl
  | cons first _ ih =>
    obtain ⟨name, line⟩ := ofMarked_summary first
    rw [List.map_cons, List.map_cons, List.map_cons, ih, name, line]

end Header

theorem Scan.Scans.lines_increase {above below : List Text} {enclosing : Option Text}
    {progress : Progress} {scan : Scan} (h : Scans c above enclosing progress below scan) :
    scan.functions.Pairwise fun m n => m.line < n.line := by
  induction h with
  | done => exact .nil
  | sentinel _ _ _ ih => exact ih
  | inside _ _ _ ih => exact ih
  | classHead _ _ _ _ ih => exact ih
  | plain _ _ _ _ _ ih => exact ih
  | marker _ _ _ _ _ rest ih => exact .cons rest.line_lt ih

/-- A header without marked functions stays as it is.  Otherwise the wrappers of all marked
functions, in their order, get into its block or into a new one, and nothing else changes. -/
theorem liftHeader_edit {l : Lifted} (lifted : liftHeader c t = .ok l) :
    ∃ s, Header.scan c t = .ok s ∧ l.changed = (l.output != t) ∧
      l.freed.map (fun f => (f.className, f.line)) =
        s.functions.map (fun m => (m.className, m.line)) ∧
      l.freed.Pairwise (fun f g => f.line < g.line) ∧
      (s.functions = [] → l.output = t) ∧
      (s.functions ≠ [] → ∃ ws,
        List.Forall₂ (fun m w => Wrapper.ofMarked c (LineEnding.detect t) m = .ok w)
          s.functions ws ∧ l.freed = ws.map Wrapper.summary ∧
        Header.Edit c t (ws.flatMap fun w => w.docs.getD [] ++ w.definition) l.output s.block) := by
  cases found : Header.scan c t with
  | error fault =>
    rw [liftHeader, found] at lifted
    cases lifted
  | ok s =>
    refine ⟨s, rfl, ?_⟩
    by_cases none_ : s.functions = []
    · rw [liftHeader_of_scan_nil found none_] at lifted
      cases lifted
      exact ⟨(bne_self_eq_false t).symm, by rw [none_]; rfl, .nil, fun _ => rfl,
        fun some_ => absurd none_ some_⟩
    · rw [liftHeader_of_scan found none_] at lifted
      obtain ⟨ws, written, spliced, changed, freed⟩ := Header.rewrite_ok lifted
      have scans := Header.scan_ok_iff.mp found
      have each := Header.wrappers_ok_iff.mp written
      have lines := Header.wrappers_summary each
      rw [← freed] at lines
      refine ⟨changed, lines, ?_, fun empty => absurd empty none_,
        fun _ => ⟨ws, each, freed, Header.edit_of_splice scans spliced⟩⟩
      -- The lines of the wrappers are those of the functions, which increase.
      have increase := List.pairwise_map.mpr scans.lines_increase
      have same : l.freed.map Freed.line = s.functions.map Marked.line := by
        have second := congrArg (List.map Prod.snd) lines
        simpa only [List.map_map, Function.comp_def] using second
      rw [← same] at increase
      exact List.pairwise_map.mp increase

theorem liftHeader_edit_close : ∃ l, liftHeader .standard closeHeader = .ok l ∧
    l.output ≠ closeHeader ∧ ∃ s, Header.scan .standard closeHeader = .ok s ∧
      l.freed.map (fun f => (f.className, f.line)) =
        s.functions.map (fun m => (m.className, m.line)) ∧
      ∃ ws : List Wrapper, l.freed = ws.map Wrapper.summary ∧ Header.Edit .standard closeHeader
        (ws.flatMap fun w => w.docs.getD [] ++ w.definition) l.output s.block := by
  obtain ⟨l, lifted, changed⟩ : ∃ l ∈ (liftHeader .standard closeHeader).toOption,
      l.output ≠ closeHeader := by
    decide +kernel
  have lifted := ok_of_mem_toOption lifted
  obtain ⟨s, found, _, lines, _, unmarked, marked⟩ := liftHeader_edit lifted
  obtain ⟨ws, _, freed, edit⟩ := marked fun none_ => changed (unmarked none_)
  exact ⟨l, lifted, changed, s, found, lines, ws, freed, edit⟩

end MemberLift
