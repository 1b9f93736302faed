import MemberLift.Text.Alphabet

/-!
What the classes of characters have to do with each other.
-/
namespace MemberLift.Alphabet

/-- The code points of white space. -/
def blankCodes : List Nat :=
  [0x20, 0x85, 0xA0, 0x1680, 0x2028, 0x2029, 0x202F, 0x205F, 0x3000] ++ List.range' 0x09 5 ++
    List.range' 0x2000 11

theorem toNat_mem_blankCodes {c : Char} (h : isBlank c = true) : c.toNat ∈ blankCodes := by
  simp only [isBlank] at h
  split at h
  · simp only [Bool.or_eq_true, Bool.and_eq_true, decide_eq_true_eq] at h
    rcases h with rfl | ⟨lower, upper⟩
    · decide
    · simp [blankCodes, List.mem_range'_1]
      omega
  · simp [blanks, inRanges] at h
    simp [blankCodes, List.mem_range'_1]
    omega

theorem continuesIdentifier_ofNat :
    ∀ n ∈ blankCodes, continuesIdentifier (Char.ofNat n) = false := by
  decide +kernel

theorem continuesIdentifier_of_isBlank {c : Char} (h : isBlank c = true) :
    continuesIdentifier c = false := by
  rw [← Char.ofNat_toNat c]
  exact continuesIdentifier_ofNat _ (toNat_mem_blankCodes h)

theorem toNat_of_isAlphanum {c : Char} (h : c.isAlphanum = true) : c.toNat < 0x80 := by
  delta Char.isAlphanum Char.isAlpha Char.isUpper Char.isLower Char.isDigit at h
  simp only [Bool.or_eq_true, Bool.and_eq_true, decide_eq_true_eq, UInt32.le_iff_toNat_le,
    ge_iff_le] at h
  have upper : 'Z'.val.toNat = 90 := rfl
  have lower : 'z'.val.toNat = 122 := rfl
  have digit : '9'.val.toNat = 57 := rfl
  simp only [Char.toNat]
  omega

theorem continuesIdentifier_of_isAlphanum {c : Char} (h : c.isAlphanum = true) :
    continuesIdentifier c = true := by
  simp only [continuesIdentifier, isLetterOrNumeral, isLetter, isNumeral,
    if_pos (toNat_of_isAlphanum h), Bool.or_eq_true]
  exact .inr (Bool.or_eq_true_iff.mp h)

theorem isAlphanum_of_isAlpha {c : Char} (h : c.isAlpha = true) : c.isAlphanum = true :=
  Bool.or_eq_true_iff.mpr (.inl h)

theorem startsIdentifier_of_isAlpha {c : Char} (h : c.isAlpha = true) :
    startsIdentifier c = true := by
  rw [startsIdentifier, isLetter, if_pos (toNat_of_isAlphanum (isAlphanum_of_isAlpha h)), h,
    Bool.or_true]

theorem not_isDigit_of_isAlpha {c : Char} (h : c.isAlpha = true) : c.isDigit = false := by
  delta Char.isAlpha Char.isUpper Char.isLower at h
  delta Char.isDigit
  simp only [Bool.or_eq_true, Bool.and_eq_true, decide_eq_true_eq, UInt32.le_iff_toNat_le,
    ge_iff_le] at h
  have upper : 'A'.val.toNat = 65 := rfl
  have lower : 'a'.val.toNat = 97 := rfl
  have digit : '9'.val.toNat = 57 := rfl
  simp only [Bool.and_eq_false_iff, decide_eq_false_iff_not, UInt32.le_iff_toNat_le, ge_iff_le]
  omega

end MemberLift.Alphabet
