import MemberLift.Proofs.Tabs

/-!
Where tabs end.  The column that expansion counts is the one of what it has written
(`expandFrom_of_column`), so every tab ends at a stop, and only one text does that with runs no
longer than the width (`expands_iff`).
-/
namespace MemberLift.Tabs

/-- The bytes since the last line end. -/
def column (written : Bytes) : Nat := (written.reverse.takeWhile fun b => !endsLine b).length

theorem column_snoc (written : Bytes) (b : UInt8) :
    column (written ++ [b]) = if endsLine b then 0 else column written + 1 := by
  rw [column, column, List.reverse_append, List.reverse_singleton, List.singleton_append,
    List.takeWhile_cons]
  cases endsLine b with
  | false => rfl
  | true => rfl

theorem column_spaces (written : Bytes) (n : Nat) :
    column (written ++ List.replicate n space) = column written + n := by
  induction n with
  | zero => rw [List.replicate_zero, List.append_nil, Nat.add_zero]
  | succ n ih =>
    have noEnd : ¬endsLine space = true := by decide
    rw [List.replicate_succ', ← List.append_assoc, column_snoc, if_neg noEnd, ih, Nat.add_assoc]

/-- Whether a run of spaces behind what is written is what a tab stands for there. -/
structure Fills (width : Nat) (written : Bytes) (size : Nat) : Prop where
  dropped : width = 0 → size = 0
  bounds : 0 < width → 1 ≤ size ∧ size ≤ width
  stop : 0 < width → width ∣ column (written ++ List.replicate size space)

theorem padding_pos {width : Nat} (pos : 0 < width) (column : Nat) :
    padding width column = width - column % width := if_neg (Nat.ne_of_gt pos)

theorem fills_iff {width : Nat} {written : Bytes} {size : Nat} :
    Fills width written size ↔ size = padding width (column written) := by
  rcases Nat.eq_zero_or_pos width with rfl | pos
  · exact ⟨fun fills => fills.dropped rfl,
      fun same => ⟨fun _ => same, (absurd · (Nat.lt_irrefl 0)), (absurd · (Nat.lt_irrefl 0))⟩⟩
  · rw [padding_pos pos]
    have inside : column written % width < width := Nat.mod_lt _ pos
    have parts : width * (column written / width) + column written % width = column written :=
      Nat.div_add_mod _ _
    constructor
    · intro fills
      obtain ⟨least, most⟩ := fills.bounds pos
      have stop : width ∣ column written % width + size := by
        have stop := fills.stop pos
        rw [column_spaces, ← parts, Nat.add_assoc] at stop
        exact (Nat.dvd_add_right (Nat.dvd_mul_right _ _)).mp stop
      have next := Nat.eq_of_dvd_of_lt_two_mul (by omega) stop (by omega)
      omega
    · intro same
      refine ⟨fun zero => absurd zero (Nat.ne_of_gt pos), fun _ => by omega, fun _ => ?_⟩
      have next : column written % width + size = width := by omega
      rw [column_spaces, ← parts, Nat.add_assoc, next]
      exact Nat.dvd_add (Nat.dvd_mul_right _ _) (Nat.dvd_refl _)

/-- What bytes may be written as behind what is written: a run of spaces that fits for each tab, and
every other byte as it is. -/
inductive Expands (width : Nat) : Bytes → Bytes → Bytes → Prop where
  | nil {written : Bytes} : Expands width written [] []
  | tab {written rest out : Bytes} {size : Nat} (fits : Fills width written size)
      (behind : Expands width (written ++ List.replicate size space) rest out) :
      Expands width written (tab :: rest) (List.replicate size space ++ out)
  | kept {written rest out : Bytes} {b : UInt8} (other : b ≠ Tabs.tab)
      (behind : Expands width (written ++ [b]) rest out) :
      Expands width written (b :: rest) (b :: out)

theorem expandFrom_tab (width column : Nat) (rest : Bytes) :
    expandFrom width column (tab :: rest) = List.replicate (padding width column) space ++
      expandFrom width (column + padding width column) rest := by
  rw [expandFrom, if_pos rfl]

theorem expandFrom_of_column (width : Nat) (written : Bytes) {b : UInt8} (other : b ≠ tab)
    (rest : Bytes) :
    expandFrom width (column written) (b :: rest) =
      b :: expandFrom width (column (written ++ [b])) rest := by
  rw [expandFrom, if_neg other, column_snoc]
  split
  · rfl
  · rfl

/-- Bytes are written in one way only. -/
theorem expands_iff {width : Nat} {written bytes out : Bytes} :
    Expands width written bytes out ↔ out = expandFrom width (column written) bytes := by
  constructor
  · intro expands
    induction expands with
    | nil => rfl
    | tab fits _ ih => rw [expandFrom_tab, ← fills_iff.mp fits, ← column_spaces, ih]
    | kept other _ ih => rw [expandFrom_of_column width _ other, ih]
  · rintro rfl
    induction bytes generalizing written with
    | nil => exact .nil
    | cons b rest ih =>
      by_cases isTab : b = tab
      · rw [isTab, expandFrom_tab, ← column_spaces]
        exact .tab (fills_iff.mpr rfl) ih
      · rw [expandFrom_of_column width written isTab]
        exact .kept isTab ih

theorem ne_tab_of_endsLine {b : UInt8} (ends : endsLine b = true) : b ≠ tab := by
  rintro rfl
  cases ends

theorem expandFrom_endsLine (width column : Nat) {b : UInt8} (ends : endsLine b = true)
    (front behind : Bytes) :
    expandFrom width column (front ++ b :: behind) =
      expandFrom width column (front ++ [b]) ++ expand width behind := by
  induction front generalizing column with
  | nil =>
    have other := ne_tab_of_endsLine ends
    rw [List.nil_append, List.nil_append, expandFrom, if_neg other, if_pos ends, expandFrom,
      if_neg other, if_pos ends]
    rfl
  | cons c front ih =>
    rw [List.cons_append, List.cons_append, expandFrom, expandFrom]
    split
    · rw [ih, List.append_assoc]
    · split
      · rw [ih, List.cons_append]
      · rw [ih, List.cons_append]

theorem expandFrom_of_notMem (width column : Nat) {bytes : Bytes} (noTab : tab ∉ bytes) :
    expandFrom width column bytes = bytes := by
  induction bytes generalizing column with
  | nil => rfl
  | cons b rest ih =>
    obtain ⟨other, behind⟩ := not_or.mp (mt List.mem_cons.mpr noTab)
    rw [expandFrom, if_neg (Ne.symm other), ih _ behind, ih _ behind, ite_self]

theorem output_expandBytes (width : Nat) (bytes : Bytes) :
    (Transformer.expandBytes width bytes).output = expand width bytes := by
  by_cases some_ : tab ∈ bytes
  · rw [Transformer.expandBytes, if_pos (by simpa using some_)]
  · rw [Transformer.expandBytes_of_notMem some_, expand, expandFrom_of_notMem width 0 some_]

end MemberLift.Tabs
