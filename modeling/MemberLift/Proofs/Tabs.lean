import MemberLift.Transformer

/-!
What tab expansion makes of bytes.  No tab is left of any width, so expanded bytes are not expanded
again.
-/
namespace MemberLift

namespace Tabs

theorem tab_notMem_expandFrom (width column : Nat) (bytes : Bytes) :
    tab ∉ expandFrom width column bytes := by
  induction bytes generalizing column with
  | nil => exact List.not_mem_nil
  | cons b rest ih =>
    rw [expandFrom]
    split
    · rw [List.mem_append, not_or]
      refine ⟨fun inside => ?_, ih _⟩
      exact absurd (List.eq_of_mem_replicate inside) (by decide)
    · rename_i noTab
      split
      · rw [List.mem_cons, not_or]
        exact ⟨Ne.symm noTab, ih _⟩
      · rw [List.mem_cons, not_or]
        exact ⟨Ne.symm noTab, ih _⟩

end Tabs

namespace Transformer

open Tabs

theorem expandBytes_of_notMem {bytes : Bytes} (noTab : tab ∉ bytes) (width : Nat) :
    expandBytes width bytes = ⟨bytes, false, []⟩ := by
  rw [expandBytes, if_neg (by simpa using noTab)]

theorem expandBytes_changed (width : Nat) (bytes : Bytes) :
    (expandBytes width bytes).changed = true ↔ tab ∈ bytes := by
  rw [expandBytes]
  split
  · rename_i some_
    simpa using some_
  · rename_i noTab
    simpa using noTab

theorem tab_notMem_expandBytes (width : Nat) (bytes : Bytes) :
    tab ∉ (expandBytes width bytes).output := by
  by_cases some_ : tab ∈ bytes
  · rw [expandBytes, if_pos (by simpa using some_)]
    exact tab_notMem_expandFrom width 0 bytes
  · rw [expandBytes_of_notMem some_]
    exact some_

theorem freed_expandBytes (width : Nat) (bytes : Bytes) : (expandBytes width bytes).freed = [] := by
  unfold expandBytes
  split
  · rfl
  · rfl

end Transformer

end MemberLift
