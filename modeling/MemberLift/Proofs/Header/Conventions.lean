import MemberLift.Header.Conventions
import MemberLift.Proofs.Alphabet

/-!
What conventions without a fault promise.
-/
namespace MemberLift.Conventions

variable {c : Conventions}

theorem valid_iff :
    c.Valid ↔ c.marker.trim ≠ [] ∧ c.namespaceEnd.trim ≠ [] ∧ c.blockBegin.trim ≠ [] ∧
      c.blockEnd.trim ≠ [] ∧ c.blockBegin.trim ≠ c.blockEnd.trim ∧ c.maxLookahead ≠ 0 ∧
      c.marker.all Alphabet.continuesIdentifier = true := by
  have absent : (c.required.find? fun setting => setting.2.trim.isEmpty) = none ↔
      c.marker.trim ≠ [] ∧ c.namespaceEnd.trim ≠ [] ∧ c.blockBegin.trim ≠ [] ∧
        c.blockEnd.trim ≠ [] := by
    simp [required]
  rw [Valid, fault?]
  split
  · rename_i found
    simp only [found] at absent
    constructor
    · intro none_
      cases none_
    · intro all
      cases absent.mpr ⟨all.1, all.2.1, all.2.2.1, all.2.2.2.1⟩
  · rename_i none_
    obtain ⟨marker, namespaceEnd, blockBegin, blockEnd⟩ := absent.mp none_
    constructor
    · intro sound
      split at sound
      · cases sound
      · rename_i differ
        split at sound
        · cases sound
        · rename_i some_
          split at sound
          · cases sound
          · rename_i identifier
            have all : c.marker.all Alphabet.continuesIdentifier = true := by simpa using identifier
            exact ⟨marker, namespaceEnd, blockBegin, blockEnd, differ, some_, all⟩
    · rintro ⟨_, _, _, _, differ, some_, identifier⟩
      rw [if_neg differ, if_neg some_, if_neg (by simp [identifier])]

theorem Valid.marker (valid : c.Valid) :
    ∃ a rest, c.marker = a :: rest ∧ Alphabet.isBlank a = false := by
  obtain ⟨nonempty, _, _, _, _, _, identifier⟩ := valid_iff.mp valid
  cases shape : c.marker with
  | nil =>
    rw [shape] at nonempty
    exact absurd rfl nonempty
  | cons a rest =>
    rw [shape, List.all_cons, Bool.and_eq_true] at identifier
    refine ⟨a, rest, rfl, ?_⟩
    cases blank : Alphabet.isBlank a with
    | false => rfl
    | true =>
      rw [Alphabet.continuesIdentifier_of_isBlank blank] at identifier
      cases identifier.1

theorem Valid.newline_notMem_marker (valid : c.Valid) : '\n' ∉ c.marker := by
  obtain ⟨_, _, _, _, _, _, identifier⟩ := valid_iff.mp valid
  intro inside
  have continues := List.all_eq_true.mp identifier _ inside
  cases continues

theorem Valid.sentinels_ne_nil (valid : c.Valid) : c.blockBegin ≠ [] ∧ c.blockEnd ≠ [] := by
  obtain ⟨_, _, blockBegin, blockEnd, _⟩ := valid_iff.mp valid
  constructor
  · intro empty
    exact blockBegin (by rw [empty]; rfl)
  · intro empty
    exact blockEnd (by rw [empty]; rfl)

end MemberLift.Conventions
