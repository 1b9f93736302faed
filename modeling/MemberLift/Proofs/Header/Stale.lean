import MemberLift.Proofs.Header.Scan.Front
import MemberLift.Proofs.Header.Splice

/-!
Headers that differ in what their blocks hold.  `liftHeader_stale` says that what a block held has
no part in what it will hold.
-/
namespace MemberLift

open Scan

variable {c : Conventions} {t t' : Text} {s : Scan}
variable {front inside inside' after : List Text} {opening closing : Text}

namespace Header

/-- The functions in front of a block are found whatever the block holds. -/
theorem scan_stale (valid : c.Valid) (old : Divided c t.lines front opening inside closing after)
    (new : Divided c t'.lines front opening inside' closing after)
    (found : scan c t = .ok s) (inFront : ∀ m ∈ s.functions, InFront c t.lines front.length m) :
    scan c t' = .ok ⟨s.functions, some ⟨front.length, front.length + 1 + inside'.length⟩⟩ := by
  have scans := scan_ok_iff.mp found
  have complete : ∀ line ∈ front, Text.Complete line :=
    (Text.lines_eq_append old.whole).2 (List.cons_ne_nil _ _)
  rw [old.whole] at scans inFront
  obtain ⟨enclosing, behind, again⟩ := scans.behind_functions valid complete old.front inFront
  -- Behind the block nothing is found, so it does not matter what stands above.
  have last :=
    ((behind.behind_opening old.opens).behind_inside old.middle).behind_closing old.closes
  have blocked := scans_block front.reverse enclosing new.opens new.middle new.closes
    fun above b => last.unmarked rfl old.back rfl above enclosing rfl rfl
  rw [List.length_reverse] at blocked
  rw [scan_ok_iff, new.whole]
  exact again _ _ blocked

end Header

/-- If all marked functions stand in front of a block, its contents have no part in the result. -/
theorem liftHeader_stale (valid : c.Valid)
    (old : Divided c t.lines front opening inside closing after)
    (new : Divided c t'.lines front opening inside' closing after)
    (found : Header.scan c t = .ok s) (marked : s.functions ≠ [])
    (inFront : ∀ m ∈ s.functions, InFront c t.lines front.length m)
    {l : Lifted} (lifted : liftHeader c t = .ok l) :
    ∃ l', liftHeader c t' = .ok l' ∧ l'.output = l.output ∧ l'.freed = l.freed := by
  have found' := Header.scan_stale valid old new found inFront
  have scans := Header.scan_ok_iff.mp found
  have nonempty := scans.front_nonempty marked fun m member => (inFront m member).1
  have ending := LineEnding.detect_front nonempty old.whole new.whole
  -- The block of the first header is the one it is divided by.
  have block : s.block = some ⟨front.length, front.length + 1 + inside.length⟩ := by
    have same := Header.scan_stale valid old old found inFront
    rw [found] at same
    exact congrArg Scan.block (Except.ok.inj same)
  rw [liftHeader_of_scan found marked] at lifted
  obtain ⟨ws, written, spliced, _, freed⟩ := Header.rewrite_ok lifted
  rw [block, Header.splice_block old.whole] at spliced
  have output := Except.ok.inj spliced
  rw [liftHeader_of_scan found' marked, Header.rewrite, ending, written]
  simp only [Except.bind, Header.splice_block new.whole, Except.map]
  exact ⟨_, rfl, output, freed.symm⟩

def memberLines : List Text :=
  ["class AFIO_DECL handle\n", "\x7b\n", "  AFIO_MAKE_FREE_FUNCTION\n",
    "  void close() noexcept;\n", "\x7d;\n"].map String.toList

def openingLine : Text := Conventions.standard.blockBegin ++ ['\n']

def closingLine : Text := Conventions.standard.blockEnd ++ ['\n']

def endLines : List Text := ["\n", "AFIO_V2_NAMESPACE_END\n"].map String.toList

def staleHeader (stale : List Text) : Text :=
  (memberLines ++ openingLine :: (stale ++ closingLine :: endLines)).flatten

def staleLines : List Text :=
  ["class other\n", "  AFIO_MAKE_FREE_FUNCTION\n", "/* \"\n"].map String.toList

theorem liftHeader_stale_close : ∃ l l', liftHeader .standard (staleHeader []) = .ok l ∧
    l.freed ≠ [] ∧ liftHeader .standard (staleHeader staleLines) = .ok l' ∧
    l'.output = l.output ∧ l'.freed = l.freed := by
  obtain ⟨s, found, marked, inFront⟩ : ∃ s ∈ (Header.scan .standard (staleHeader [])).toOption,
      s.functions ≠ [] ∧ ∀ m ∈ s.functions,
        InFront .standard (staleHeader []).lines memberLines.length m := by
    decide +kernel
  obtain ⟨l, lifted, freed⟩ : ∃ l ∈ (liftHeader .standard (staleHeader [])).toOption,
      l.freed ≠ [] := by
    decide +kernel
  have old : Divided .standard (staleHeader []).lines memberLines openingLine [] closingLine
      endLines :=
    ⟨by decide +kernel, by decide +kernel, by decide +kernel, by decide +kernel,
      by decide +kernel, by decide +kernel⟩
  have new : Divided .standard (staleHeader staleLines).lines memberLines openingLine staleLines
      closingLine endLines :=
    ⟨by decide +kernel, by decide +kernel, by decide +kernel, by decide +kernel,
      by decide +kernel, by decide +kernel⟩
  obtain ⟨l', lifted', output, freed'⟩ :=
    liftHeader_stale (by decide +kernel) old new (ok_of_mem_toOption found) marked inFront
      (ok_of_mem_toOption lifted)
  exact ⟨l, l', ok_of_mem_toOption lifted, freed, lifted', output, freed'⟩

end MemberLift
