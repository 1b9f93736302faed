import MemberLift.Proofs.Tabs.Columns
import MemberLift.Proofs.Text.Utf8

/-!
Tabs of a text.  No byte inside a character is a tab or ends a line, so expanding the bytes of a
text expands the text (`expandFrom_encode`), and reading the result back substitutes nothing.
-/
namespace MemberLift

namespace Tabs

/-- Bytes that only move the column on. -/
def Passed (bytes : Bytes) : Prop := ∀ b ∈ bytes, b ≠ tab ∧ endsLine b = false

theorem expandFrom_passed (width column : Nat) {front : Bytes} (passed : Passed front)
    (rest : Bytes) :
    expandFrom width column (front ++ rest) =
      front ++ expandFrom width (column + front.length) rest := by
  induction front generalizing column with
  | nil => rfl
  | cons b front ih =>
    obtain ⟨⟨noTab, noEnd⟩, behind⟩ := List.forall_mem_cons.mp passed
    have noEnd : ¬endsLine b = true := Bool.eq_false_iff.mp noEnd
    rw [List.cons_append, expandFrom, if_neg noTab, if_neg noEnd, ih _ behind, List.length_cons,
      Nat.add_right_comm, Nat.add_assoc]
    rfl

theorem encoded_tab : String.utf8EncodeChar '\t' = [tab] := rfl

theorem encoded_cases (c : Char) :
    c = '\t' ∨ (∃ b, String.utf8EncodeChar c = [b] ∧ endsLine b = true) ∨
      Passed (String.utf8EncodeChar c) := by
  by_cases isTab : c = '\t'
  · exact .inl isTab
  by_cases ends : ∃ b ∈ String.utf8EncodeChar c, endsLine b = true
  · obtain ⟨b, inside, ends⟩ := ends
    have small : b.toNat < 0x80 := by
      rcases Bool.or_eq_true_iff.mp ends with feed | carriage
      · rw [of_decide_eq_true feed]
        decide
      · rw [of_decide_eq_true carriage]
        decide
    exact .inr (.inl ⟨b, Utf8.eq_of_mem_encoded inside small, ends⟩)
  · refine .inr (.inr fun b inside => ⟨?_, ?_⟩)
    · rintro rfl
      have same : Utf8.encode [c] = Utf8.encode ['\t'] := by
        rw [Utf8.encode_cons, Utf8.eq_of_mem_encoded inside (by decide)]
        rfl
      exact isTab (List.singleton_inj.mp (Utf8.encode_injective same))
    · exact Bool.eq_false_iff.mpr fun found => ends ⟨b, inside, found⟩

theorem encode_spaces (n : Nat) :
    Utf8.encode (List.replicate n ' ') = List.replicate n space := by
  induction n with
  | zero => rfl
  | succ n ih =>
    rw [List.replicate_succ, List.replicate_succ, Utf8.encode_cons, ih]
    rfl

/-- The bytes of a text are expanded to the bytes of a text. -/
theorem expandFrom_encode (width column : Nat) (t : Text) :
    ∃ t', expandFrom width column (Utf8.encode t) = Utf8.encode t' := by
  induction t generalizing column with
  | nil => exact ⟨[], rfl⟩
  | cons c t ih =>
    rw [Utf8.encode_cons]
    rcases encoded_cases c with rfl | ⟨b, written, ends⟩ | passed
    · obtain ⟨t', same⟩ := ih (column + padding width column)
      refine ⟨List.replicate (padding width column) ' ' ++ t', ?_⟩
      rw [encoded_tab, List.singleton_append, expandFrom_tab, same, Utf8.encode_append,
        encode_spaces]
    · obtain ⟨t', same⟩ := ih 0
      refine ⟨c :: t', ?_⟩
      rw [Utf8.encode_cons, written, List.singleton_append, expandFrom,
        if_neg (ne_tab_of_endsLine ends), if_pos ends, same]
      rfl
    · obtain ⟨t', same⟩ := ih (column + (String.utf8EncodeChar c).length)
      exact ⟨c :: t', by rw [expandFrom_passed width column passed, same, Utf8.encode_cons]⟩

theorem encode_expandText (width : Nat) (t : Text) :
    Utf8.encode (expandText width t) = expand width (Utf8.encode t) := by
  obtain ⟨t', same⟩ := expandFrom_encode width 0 t
  have same : expand width (Utf8.encode t) = Utf8.encode t' := same
  rw [expandText, same, Utf8.decodeLossy_encode]

example : expandText 4 "é\tx\n\tß".toList = "é  x\n    ß".toList := by decide +kernel

end Tabs

end MemberLift
