import MemberLift.Header
import MemberLift.Proofs.Declaration.Sources

/-!
What a transformation is made of: a scan, and the rewriting of a header in which the scan found
marked functions.
-/
namespace MemberLift

variable {c : Conventions} {t : Text} {s : Scan}

/-- A header with the wrappers of the functions that a scan found. -/
def Header.rewrite (c : Conventions) (ending : LineEnding) (t : Text) (s : Scan) :
    Except HeaderFault Lifted :=
  (wrappers c ending s.functions).bind fun ws =>
    (splice c ending t.lines s.block (ws.flatMap Wrapper.text)).map fun output =>
      ⟨output, output != t, ws.map Wrapper.summary⟩

theorem liftHeader_of_scan (found : Header.scan c t = .ok s) (nonempty : s.functions ≠ []) :
    liftHeader c t = Header.rewrite c (LineEnding.detect t) t s := by
  have some_ : s.functions.isEmpty = false := by
    rw [Bool.eq_false_iff, ne_eq, List.isEmpty_iff]
    exact nonempty
  simp only [liftHeader, found, bind, Except.bind, some_, Bool.false_eq_true, if_false]
  rfl

theorem liftHeader_of_scan_nil (found : Header.scan c t = .ok s) (empty : s.functions = []) :
    liftHeader c t = .ok ⟨t, false, []⟩ := by
  simp only [liftHeader, found, bind, Except.bind, empty, List.isEmpty_nil, if_true]
  rfl

theorem Header.rewrite_ok {ending : LineEnding} {l : Lifted}
    (h : rewrite c ending t s = .ok l) :
    ∃ ws, wrappers c ending s.functions = .ok ws ∧
      splice c ending t.lines s.block (ws.flatMap Wrapper.text) = .ok l.output ∧
      l.changed = (l.output != t) ∧ l.freed = ws.map Wrapper.summary := by
  rw [rewrite] at h
  cases written_ : wrappers c ending s.functions with
  | error fault => rw [written_] at h; cases h
  | ok ws =>
    rw [written_] at h
    simp only [Except.bind] at h
    cases spliced : splice c ending t.lines s.block (ws.flatMap Wrapper.text) with
    | error fault => rw [spliced] at h; cases h
    | ok output =>
      rw [spliced] at h
      cases h
      exact ⟨ws, rfl, spliced, rfl, rfl⟩

theorem liftHeader_changed {l : Lifted} (lifted : liftHeader c t = .ok l) :
    l.changed = (l.output != t) := by
  cases found : Header.scan c t with
  | error fault => rw [liftHeader, found] at lifted; cases lifted
  | ok s =>
    by_cases empty : s.functions = []
    · rw [liftHeader_of_scan_nil found empty] at lifted
      cases lifted
      exact (bne_self_eq_false t).symm
    · rw [liftHeader_of_scan found empty] at lifted
      obtain ⟨_, _, _, changed, _⟩ := Header.rewrite_ok lifted
      exact changed

end MemberLift
