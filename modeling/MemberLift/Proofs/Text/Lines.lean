import MemberLift.Proofs.Text.Endings

/-!
Texts line by line.  Complete lines stay lines when they are put together again, and only the last
line of a text may lack its line feed.
-/
namespace MemberLift.Text

/-- A line with the line feed that ends it. -/
def Complete (line : Text) : Prop := ∃ body, '\n' ∉ body ∧ line = body ++ ['\n']

theorem Complete.parts {front rest : Text} (complete : Complete (front ++ rest))
    (nonempty : rest ≠ []) : '\n' ∉ front ∧ Complete rest := by
  obtain ⟨body, single, whole⟩ := complete
  rcases List.append_eq_append_iff.mp whole with ⟨more, rfl, last⟩ | ⟨more, rfl, last⟩
  · exact ⟨fun inside => single (List.mem_append_left _ inside),
      more, fun inside => single (List.mem_append_right _ inside), last⟩
  · cases more with
    | nil => exact ⟨by simpa using single, [], List.not_mem_nil, last.symm⟩
    | cons c more => simp [nonempty] at last

theorem complete_append_text {body : Text} (single : '\n' ∉ body) (e : LineEnding) :
    Complete (body ++ e.text) := by
  cases e with
  | lf => exact ⟨body, single, rfl⟩
  | crlf => exact ⟨body ++ ['\r'], by simp [single], by simp [LineEnding.text]⟩

theorem lines_body {body : Text} (single : '\n' ∉ body) (t : Text) :
    lines (body ++ '\n' :: t) = (body ++ ['\n']) :: lines t := by
  induction body with
  | nil => rfl
  | cons c body ih =>
    simp only [List.mem_cons, not_or] at single
    simp only [List.cons_append, lines, if_neg (Ne.symm single.1), ih single.2]

theorem lines_single {t : Text} (nonempty : t ≠ []) (single : '\n' ∉ t) : lines t = [t] := by
  induction t with
  | nil => exact absurd rfl nonempty
  | cons c t ih =>
    simp only [List.mem_cons, not_or] at single
    cases t with
    | nil => simp [lines, Ne.symm single.1]
    | cons d t => rw [lines, if_neg (Ne.symm single.1), ih (by simp) single.2]

theorem lines_complete {line : Text} (complete : Complete line) (t : Text) :
    lines (line ++ t) = line :: lines t := by
  obtain ⟨body, single, rfl⟩ := complete
  rw [List.append_assoc, List.singleton_append, lines_body single]

/-- Induction over the lines of a text. -/
@[elab_as_elim]
theorem lineInduction {P : Text → Prop} (nil : P [])
    (last : ∀ line, line ≠ [] → '\n' ∉ line → P line)
    (line : ∀ first rest, Complete first → P rest → P (first ++ rest)) (t : Text) : P t := by
  induction size : t.length using Nat.strongRecOn generalizing t with
  | ind n ih =>
    by_cases single : '\n' ∈ t
    · obtain ⟨body, rest, rfl, before⟩ := List.eq_append_cons_of_mem single
      have shorter : rest.length < n := by
        rw [← size, List.length_append, List.length_cons]
        omega
      have first := line (body ++ ['\n']) rest ⟨body, before, rfl⟩ (ih _ shorter rest rfl)
      rwa [List.append_assoc] at first
    · by_cases empty : t = []
      · rw [empty]
        exact nil
      · exact last t empty single

theorem lines_eq_cons {t line : Text} {rest : List Text} (h : lines t = line :: rest) :
    line ≠ [] ∧ lines rest.flatten = rest ∧ (Complete line ∨ ('\n' ∉ line ∧ rest = [])) := by
  cases t using lineInduction with
  | nil => cases h
  | last t nonempty single =>
    rw [lines_single nonempty single] at h
    cases h
    exact ⟨nonempty, rfl, .inr ⟨single, rfl⟩⟩
  | line first behind complete _ =>
    rw [lines_complete complete] at h
    cases h
    rw [lines_flatten]
    obtain ⟨body, single, rfl⟩ := complete
    exact ⟨by simp, rfl, .inl ⟨body, single, rfl⟩⟩

theorem lines_eq_append {t : Text} {before after : List Text} (h : lines t = before ++ after) :
    lines after.flatten = after ∧ (after ≠ [] → ∀ line ∈ before, Complete line) := by
  induction before generalizing t with
  | nil =>
    rw [List.nil_append] at h
    rw [← h, lines_flatten]
    exact ⟨rfl, fun _ line inside => by cases inside⟩
  | cons line before ih =>
    obtain ⟨_, same, shape⟩ := lines_eq_cons h
    obtain ⟨rest, complete⟩ := ih same
    refine ⟨rest, fun nonempty other inside => ?_⟩
    rcases List.mem_cons.mp inside with rfl | inside
    · rcases shape with first | ⟨_, none_⟩
      · exact first
      · exact absurd (List.append_eq_nil_iff.mp none_).2 nonempty
    · exact complete nonempty other inside

theorem lines_flatten_append {before : List Text} (complete : ∀ line ∈ before, Complete line)
    (t : Text) : lines (before.flatten ++ t) = before ++ lines t := by
  induction before with
  | nil => rfl
  | cons line before ih =>
    rw [List.flatten_cons, List.append_assoc, lines_complete (complete line List.mem_cons_self),
      ih fun other inside => complete other (List.mem_cons_of_mem line inside)]
    rfl

theorem lines_append_of_feed {t : Text} (ends : ['\n'] <:+ t) (more : Text) :
    lines (t ++ more) = lines t ++ lines more := by
  induction t using lineInduction with
  | nil => rfl
  | last t _ single => exact absurd (ends.subset List.mem_cons_self) single
  | line first rest complete ih =>
    rw [List.append_assoc, lines_complete complete, lines_complete complete]
    cases rest with
    | nil => rfl
    | cons c rest =>
      have last : ['\n'] <:+ c :: rest :=
        List.suffix_of_suffix_length_le ends (List.suffix_append first _) (by simp)
      rw [ih last]
      rfl

theorem occursIn_lines {needle : Text} (nonempty : needle ≠ []) (single : '\n' ∉ needle.dropLast)
    (t : Text) : occursIn needle t = true ↔ ∃ line ∈ lines t, occursIn needle line = true := by
  simp only [occursIn_iff]
  induction t using lineInduction with
  | nil => simp [lines, nonempty]
  | last t some_ whole => simp [lines_single some_ whole]
  | line first rest complete ih =>
    rw [lines_complete complete, List.exists_mem_cons_iff, ← ih, List.infix_append_iff]
    constructor
    · rintro (here | behind | ⟨front, back, split, ends, begins⟩)
      · exact .inl here
      · exact .inr behind
      · -- The part in the first line would hold the line feed of that line.
        by_cases empty : front = []
        · rw [empty, List.nil_append] at split
          exact .inr (split ▸ begins.isInfix)
        · by_cases all : back = []
          · rw [all, List.append_nil] at split
            exact .inl (split ▸ ends.isInfix)
          · obtain ⟨body, _, rfl⟩ := complete
            have feed : '\n' ∈ front := by
              have last := ends.getLast empty
              rw [List.getLast_append_singleton] at last
              exact last ▸ List.getLast_mem empty
            rw [split, List.dropLast_append_of_ne_nil all] at single
            exact absurd (List.mem_append_left _ feed) single
    · rintro (here | behind)
      · exact .inl here
      · exact .inr (.inl behind)

theorem single_of_occursIn {t line needle : Text} (inside : line ∈ lines t)
    (occurs : occursIn needle line = true) : '\n' ∉ needle.dropLast := by
  have single : '\n' ∉ line.dropLast := by
    obtain ⟨before, after, whole⟩ := List.append_of_mem inside
    obtain ⟨behind, _⟩ := lines_eq_append whole
    obtain ⟨_, _, ⟨body, single, rfl⟩ | ⟨single, _⟩⟩ := lines_eq_cons behind
    · rwa [List.dropLast_concat]
    · exact fun feed => single (List.dropLast_subset _ feed)
  intro feed
  obtain ⟨front, back, whole⟩ := (occursIn_iff _ _).mp occurs
  have some_ : needle ≠ [] := fun empty => by simp [empty] at feed
  apply single
  rw [← whole]
  by_cases last : back = []
  · rw [last, List.append_nil, List.dropLast_append_of_ne_nil some_]
    exact List.mem_append_right _ feed
  · rw [List.dropLast_append_of_ne_nil last, List.append_assoc]
    exact List.mem_append_right _ (List.mem_append_left _ (List.dropLast_subset _ feed))

/-- The lines of a text with other line endings. -/
theorem lines_apply (e : LineEnding) (t : Text) : lines (e.apply t) = (lines t).map e.apply := by
  induction t using lineInduction with
  | nil => rfl
  | last t nonempty single =>
    rw [LineEnding.apply_eq_self e single, lines_single nonempty single, List.map_singleton,
      LineEnding.apply_eq_self e single]
  | line first rest complete ih =>
    obtain ⟨body, single, rfl⟩ := complete
    have first : Complete (e.apply (body ++ ['\n'])) := by
      rw [LineEnding.apply_snoc_newline, LineEnding.apply_eq_self e single]
      exact complete_append_text single e
    rw [LineEnding.apply_append, lines_complete first, ih, lines_complete ⟨body, single, rfl⟩]
    rfl

end MemberLift.Text
