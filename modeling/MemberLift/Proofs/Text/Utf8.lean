import MemberLift.Text.Utf8

/-!
Reading UTF-8 and writing it again.  What is read as a text is written as the same bytes, different
texts are written as different bytes, and what is written is read as the same text, with no
replacement character.
-/
namespace MemberLift.Utf8

theorem toNat_ofNat {n : Nat} (valid : n.isValidChar) : (Char.ofNat n).val.toNat = n := by
  rw [Char.ofNat, dif_pos valid]
  rfl

theorem ofNat_eq {n : Nat} {b : UInt8} (h : n = b.toNat) : UInt8.ofNat n = b := by
  rw [h, UInt8.ofNat_toNat]

/-- The second bytes that make a character with a first byte. -/
structure Second (first second : UInt8) : Prop where
  continues : 0x80 ≤ second.toNat ∧ second.toNat ≤ 0xBF
  notOverlong : first.toNat = 0xE0 → 0xA0 ≤ second.toNat
  noSurrogate : first.toNat = 0xED → second.toNat ≤ 0x9F
  notOverlong' : first.toNat = 0xF0 → 0x90 ≤ second.toNat
  inRange : first.toNat = 0xF4 → second.toNat ≤ 0x8F

theorem isContinuation_iff {b : UInt8} :
    isContinuation b = true ↔ 0x80 ≤ b.toNat ∧ b.toNat ≤ 0xBF := by
  simp [isContinuation, UInt8.le_iff_toNat_le]

theorem allowsSecond_iff {a b : UInt8} : allowsSecond a b = true ↔ Second a b := by
  have byte {n : UInt8} : a = n ↔ a.toNat = n.toNat := UInt8.toNat_inj.symm
  simp only [allowsSecond, byte, isContinuation, Bool.ite_eq_true_distrib, Bool.and_eq_true,
    decide_eq_true_eq, UInt8.le_iff_toNat_le, UInt8.reduceToNat]
  constructor
  · intro h
    constructor <;> (repeat' split at h) <;> omega
  · rintro ⟨continues, notOverlong, noSurrogate, notOverlong', inRange⟩
    (repeat' split) <;> omega

theorem encode_one {a : UInt8} (small : a.toNat < 0x80) :
    String.utf8EncodeChar (assemble a 1 []) = [a] := by
  have value : (assemble a 1 []).val.toNat = a.toNat :=
    toNat_ofNat (n := a.toNat) (.inl (by omega))
  rw [String.utf8EncodeChar]
  simp only [value]
  rw [if_pos (by omega), ofNat_eq rfl]

theorem encode_two {a b : UInt8} (lead : 0xC2 ≤ a.toNat ∧ a.toNat ≤ 0xDF)
    (second : 0x80 ≤ b.toNat ∧ b.toNat ≤ 0xBF) :
    String.utf8EncodeChar (assemble a 2 [b]) = [a, b] := by
  have value : (assemble a 2 [b]).val.toNat = 64 * (a.toNat % 32) + b.toNat % 64 :=
    toNat_ofNat (n := 64 * (a.toNat % 32) + b.toNat % 64) (.inl (by omega))
  rw [String.utf8EncodeChar]
  simp only [value]
  rw [if_neg (by omega), if_pos (by omega), ofNat_eq (b := a) (by omega),
    ofNat_eq (b := b) (by omega)]

theorem encode_three {a b c : UInt8} (lead : 0xE0 ≤ a.toNat ∧ a.toNat ≤ 0xEF)
    (second : Second a b) (third : 0x80 ≤ c.toNat ∧ c.toNat ≤ 0xBF) :
    String.utf8EncodeChar (assemble a 3 [b, c]) = [a, b, c] := by
  obtain ⟨continues, notOverlong, noSurrogate, _, _⟩ := second
  have value : (assemble a 3 [b, c]).val.toNat =
      64 * (64 * (a.toNat % 16) + b.toNat % 64) + c.toNat % 64 :=
    toNat_ofNat (n := 64 * (64 * (a.toNat % 16) + b.toNat % 64) + c.toNat % 64) (by
      rw [Nat.isValidChar]
      omega)
  rw [String.utf8EncodeChar]
  simp only [value]
  rw [if_neg (by omega), if_neg (by omega), if_pos (by omega), ofNat_eq (b := a) (by omega),
    ofNat_eq (b := b) (by omega), ofNat_eq (b := c) (by omega)]

theorem encode_four {a b c d : UInt8} (lead : 0xF0 ≤ a.toNat ∧ a.toNat ≤ 0xF4)
    (second : Second a b) (third : 0x80 ≤ c.toNat ∧ c.toNat ≤ 0xBF)
    (fourth : 0x80 ≤ d.toNat ∧ d.toNat ≤ 0xBF) :
    String.utf8EncodeChar (assemble a 4 [b, c, d]) = [a, b, c, d] := by
  obtain ⟨continues, _, _, notOverlong, inRange⟩ := second
  have value : (assemble a 4 [b, c, d]).val.toNat =
      64 * (64 * (64 * (a.toNat % 8) + b.toNat % 64) + c.toNat % 64) + d.toNat % 64 :=
    toNat_ofNat (n := 64 * (64 * (64 * (a.toNat % 8) + b.toNat % 64) + c.toNat % 64) +
      d.toNat % 64) (by
      rw [Nat.isValidChar]
      omega)
  rw [String.utf8EncodeChar]
  simp only [value]
  rw [if_neg (by omega), if_neg (by omega), if_neg (by omega), ofNat_eq (b := a) (by omega),
    ofNat_eq (b := b) (by omega), ofNat_eq (b := c) (by omega), ofNat_eq (b := d) (by omega)]

theorem width_iff {a : UInt8} {n : Nat} : width a = some n ↔
    (n = 1 ∧ a.toNat < 0x80) ∨ (n = 2 ∧ 0xC2 ≤ a.toNat ∧ a.toNat ≤ 0xDF) ∨
      (n = 3 ∧ 0xE0 ≤ a.toNat ∧ a.toNat ≤ 0xEF) ∨ (n = 4 ∧ 0xF0 ≤ a.toNat ∧ a.toNat ≤ 0xF4) := by
  simp only [width, Bool.and_eq_true, decide_eq_true_eq, UInt8.le_iff_toNat_le,
    UInt8.lt_iff_toNat_lt, UInt8.reduceToNat]
  (repeat' split) <;> simp only [Option.some.injEq, reduceCtorEq, false_iff] <;> omega

theorem step_char {first : UInt8} {rest : Bytes} {c : Char} {size : Nat}
    (h : step first rest = .char c size) :
    String.utf8EncodeChar c ++ rest.drop (size - 1) = first :: rest := by
  rw [step] at h
  split at h
  · cases h
  · rename_i lead
    cases h
    have lead := width_iff.mp lead
    rw [encode_one (by omega)]
    rfl
  · rename_i w notOne lead
    have notOne : w ≠ 1 := notOne
    have lead := width_iff.mp lead
    split at h
    · cases h
    · rename_i b rest
      split at h
      · cases h
      · rename_i second
        have second : Second first b := allowsSecond_iff.mp (by simpa using second)
        split at h
        · rename_i two
          cases h
          rw [encode_two (by omega) second.continues]
          rfl
        · split at h
          · cases h
          · rename_i c rest
            split at h
            · cases h
            · rename_i third
              have third : 0x80 ≤ c.toNat ∧ c.toNat ≤ 0xBF :=
                isContinuation_iff.mp (by simpa using third)
              split at h
              · rename_i three
                cases h
                rw [encode_three (by omega) second third]
                rfl
              · split at h
                · cases h
                · rename_i d rest
                  split at h
                  · cases h
                  · rename_i fourth
                    have fourth : 0x80 ≤ d.toNat ∧ d.toNat ≤ 0xBF :=
                      isContinuation_iff.mp (by simpa using fourth)
                    cases h
                    rw [encode_four (by omega) second third fourth]
                    rfl

/-- The bytes that make a character. -/
inductive Sequence : UInt8 → Bytes → Prop where
  | one {a : UInt8} (lead : a.toNat < 0x80) : Sequence a []
  | two {a b : UInt8} (lead : 0xC2 ≤ a.toNat ∧ a.toNat ≤ 0xDF) (second : Second a b) :
      Sequence a [b]
  | three {a b c : UInt8} (lead : 0xE0 ≤ a.toNat ∧ a.toNat ≤ 0xEF) (second : Second a b)
      (third : 0x80 ≤ c.toNat ∧ c.toNat ≤ 0xBF) : Sequence a [b, c]
  | four {a b c d : UInt8} (lead : 0xF0 ≤ a.toNat ∧ a.toNat ≤ 0xF4) (second : Second a b)
      (third : 0x80 ≤ c.toNat ∧ c.toNat ≤ 0xBF) (fourth : 0x80 ≤ d.toNat ∧ d.toNat ≤ 0xBF) :
      Sequence a [b, c, d]

theorem Sequence.step {a : UInt8} {r : Bytes} (h : Sequence a r) (tail : Bytes) :
    step a (r ++ tail) = .char (assemble a (r.length + 1) r) (r.length + 1) := by
  cases h with
  | one lead =>
    have one : width a = some 1 := width_iff.mpr (by omega)
    simp [Utf8.step, one]
  | two lead second =>
    have two : width a = some 2 := width_iff.mpr (by omega)
    simp [Utf8.step, two, allowsSecond_iff.mpr second]
  | three lead second third =>
    have three : width a = some 3 := width_iff.mpr (by omega)
    simp [Utf8.step, three, allowsSecond_iff.mpr second, isContinuation_iff.mpr third]
  | four lead second third fourth =>
    have four : width a = some 4 := width_iff.mpr (by omega)
    simp [Utf8.step, four, allowsSecond_iff.mpr second, isContinuation_iff.mpr third,
      isContinuation_iff.mpr fourth]

theorem Sequence.large {a : UInt8} {r : Bytes} (h : Sequence a r) (more : r ≠ []) :
    ∀ b ∈ a :: r, 0x80 ≤ b.toNat := by
  cases h with
  | one => exact absurd rfl more
  | two lead second =>
    have second := second.continues
    simp only [List.forall_mem_cons, List.not_mem_nil, false_implies, implies_true, and_true]
    omega
  | three lead second third =>
    have second := second.continues
    simp only [List.forall_mem_cons, List.not_mem_nil, false_implies, implies_true, and_true]
    omega
  | four lead second third fourth =>
    have second := second.continues
    simp only [List.forall_mem_cons, List.not_mem_nil, false_implies, implies_true, and_true]
    omega

theorem sequence_of_char (c : Char) :
    ∃ a r, String.utf8EncodeChar c = a :: r ∧ Sequence a r := by
  have valid : c.val.toNat < 0xD800 ∨ 0xDFFF < c.val.toNat ∧ c.val.toNat < 0x110000 := c.valid
  have byte (n : Nat) : (UInt8.ofNat n).toNat = n % 256 := UInt8.toNat_ofNat'
  rw [String.utf8EncodeChar]
  split
  · refine ⟨_, _, rfl, .one ?_⟩
    rw [byte]
    omega
  · split
    · refine ⟨_, _, rfl, .two ?_ ?_⟩
      · rw [byte]
        omega
      · constructor <;> simp only [byte] <;> omega
    · split
      · refine ⟨_, _, rfl, .three ?_ ?_ ?_⟩
        · rw [byte]
          omega
        · constructor <;> simp only [byte] <;> omega
        · rw [byte]
          omega
      · refine ⟨_, _, rfl, .four ?_ ?_ ?_ ?_⟩
        · rw [byte]
          omega
        · constructor <;> simp only [byte] <;> omega
        · rw [byte]
          omega
        · rw [byte]
          omega

theorem encode_of_decodeFrom {offset : Nat} {bytes : Bytes} {t : Text}
    (h : decodeFrom offset bytes = .ok t) : encode t = bytes := by
  induction size : bytes.length using Nat.strongRecOn generalizing offset bytes t with
  | ind n ih =>
    cases bytes with
    | nil =>
      rw [decodeFrom] at h
      cases h
      rfl
    | cons first rest =>
      rw [decodeFrom] at h
      split at h
      · rename_i c width read
        cases behind : decodeFrom (offset + width) (rest.drop (width - 1)) with
        | error fault => rw [behind] at h; cases h
        | ok t' =>
          rw [behind] at h
          cases h
          have shorter : (rest.drop (width - 1)).length < n := by
            rw [← size, List.length_drop, List.length_cons]
            omega
          have written := ih _ shorter behind rfl
          rw [encode, List.flatMap_cons, ← encode, written]
          exact step_char read
      · cases h
      · cases h

theorem encode_of_decode {bytes : Bytes} {t : Text} (h : decode bytes = .ok t) :
    encode t = bytes := encode_of_decodeFrom h

theorem encode_cons (c : Char) (t : Text) : encode (c :: t) = String.utf8EncodeChar c ++ encode t :=
  List.flatMap_cons

theorem encode_append (s t : Text) : encode (s ++ t) = encode s ++ encode t := List.flatMap_append

theorem encode_injective {s t : Text} (h : encode s = encode t) : s = t := by
  have bytes : (String.ofList s).toByteArray = (String.ofList t).toByteArray := by
    rw [String.toByteArray_ofList, String.toByteArray_ofList]
    exact congrArg List.toByteArray h
  exact String.ofList_injective (String.toByteArray_inj.mp bytes)

/-- What is written for a character is read as the character, whatever stands behind. -/
theorem step_encoded (c : Char) (tail : Bytes) :
    ∃ a r, String.utf8EncodeChar c = a :: r ∧ step a (r ++ tail) = .char c (r.length + 1) := by
  obtain ⟨a, r, written, sequence⟩ := sequence_of_char c
  have read := sequence.step tail
  have again := step_char (sequence.step [])
  have bytes : encode [assemble a (r.length + 1) r] = encode [c] := by
    rw [encode_cons, encode_cons, written]
    simpa [encode] using again
  rw [List.singleton_inj.mp (encode_injective bytes)] at read
  exact ⟨a, r, written, read⟩

theorem decodeFrom_encode (offset : Nat) (t : Text) : decodeFrom offset (encode t) = .ok t := by
  induction t generalizing offset with
  | nil => rw [encode, List.flatMap_nil, decodeFrom]
  | cons c t ih =>
    obtain ⟨a, r, written, read⟩ := step_encoded c (encode t)
    rw [encode_cons, written, List.cons_append, decodeFrom, read]
    simp only [Nat.add_sub_cancel, List.drop_left, ih]
    rfl

theorem decode_encode (t : Text) : decode (encode t) = .ok t := decodeFrom_encode 0 t

theorem decodeLossy_encode (t : Text) : decodeLossy (encode t) = t := by
  induction t with
  | nil => rw [encode, List.flatMap_nil, decodeLossy]
  | cons c t ih =>
    obtain ⟨a, r, written, read⟩ := step_encoded c (encode t)
    rw [encode_cons, written, List.cons_append, decodeLossy, read]
    simp only [Nat.add_sub_cancel, List.drop_left, ih]

theorem eq_of_mem_encoded {c : Char} {b : UInt8} (inside : b ∈ String.utf8EncodeChar c)
    (small : b.toNat < 0x80) : String.utf8EncodeChar c = [b] := by
  obtain ⟨a, r, written, sequence⟩ := sequence_of_char c
  rw [written] at inside ⊢
  by_cases alone : r = []
  · subst alone
    rw [List.mem_singleton.mp inside]
  · exact absurd (sequence.large alone b inside) (Nat.not_le_of_lt small)

end MemberLift.Utf8
