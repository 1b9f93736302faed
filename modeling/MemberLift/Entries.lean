import MemberLift.Text.Basic

/-!
Lists of entries with names, in which a name stands for the first entry that has it.
-/
namespace MemberLift.Entries

variable {α : Type}

/-- Puts a value under a name, in the place of the one that is there. -/
def put (name : Text) (a : α) : List (Text × α) → List (Text × α)
  | [] => [(name, a)]
  | (other, old) :: rest =>
    if other = name then (name, a) :: rest else (other, old) :: put name a rest

def erase (name : Text) (entries : List (Text × α)) : List (Text × α) :=
  entries.filter fun entry => entry.1 ≠ name

theorem lookup_cons (key name : Text) (a : α) (rest : List (Text × α)) :
    ((key, a) :: rest).lookup name = if key = name then some a else rest.lookup name := by
  by_cases here : key = name
  · subst here
    simp
  · have differs : (name == key) = false := beq_false_of_ne (Ne.symm here)
    simp only [List.lookup_cons, differs, if_neg here]

theorem lookup_put (name other : Text) (a : α) (entries : List (Text × α)) :
    (put name a entries).lookup other =
      if other = name then some a else entries.lookup other := by
  induction entries with
  | nil =>
    unfold put
    rw [lookup_cons]
    simp only [eq_comm]
  | cons head rest ih =>
    obtain ⟨key, old⟩ := head
    unfold put
    split
    · rename_i here
      subst here
      rw [lookup_cons, lookup_cons]
      by_cases same : key = other
      · rw [if_pos same, if_pos same.symm]
      · rw [if_neg same, if_neg (Ne.symm same), if_neg same]
    · rename_i elsewhere
      rw [lookup_cons, lookup_cons, ih]
      by_cases same : key = other
      · subst same
        rw [if_pos rfl, if_neg elsewhere, if_pos rfl]
      · rw [if_neg same, if_neg same]

theorem lookup_erase (name other : Text) (entries : List (Text × α)) :
    (erase name entries).lookup other = if other = name then none else entries.lookup other := by
  induction entries with
  | nil => simp [erase]
  | cons head rest ih =>
    obtain ⟨key, a⟩ := head
    by_cases here : key = name
    · have gone : erase name ((key, a) :: rest) = erase name rest := by simp [erase, here]
      rw [gone, ih, lookup_cons, here]
      by_cases same : other = name
      · rw [if_pos same, if_pos same]
      · rw [if_neg same, if_neg same, if_neg (Ne.symm same)]
    · have kept : erase name ((key, a) :: rest) = (key, a) :: erase name rest := by
        simp [erase, here]
      rw [kept, lookup_cons, lookup_cons, ih]
      by_cases same : key = other
      · rw [if_pos same, if_pos same, if_neg fun again => here (same.trans again)]
      · rw [if_neg same, if_neg same]

/-- Where the names are different, a name stands for every entry that has it. -/
theorem lookup_eq_some_iff {name : Text} {a : α} {entries : List (Text × α)}
    (different : (entries.map Prod.fst).Nodup) :
    entries.lookup name = some a ↔ (name, a) ∈ entries := by
  induction entries with
  | nil => simp
  | cons head rest ih =>
    obtain ⟨key, b⟩ := head
    rw [List.map_cons, List.nodup_cons] at different
    obtain ⟨first, behind⟩ := different
    rw [lookup_cons, List.mem_cons, Prod.mk.injEq]
    by_cases here : key = name
    · rw [if_pos here, Option.some.injEq]
      have absent : (name, a) ∉ rest := fun inside =>
        first (List.mem_map.mpr ⟨_, inside, here.symm⟩)
      simp [here, absent, eq_comm]
    · rw [if_neg here, ih behind]
      simp [Ne.symm here]

end MemberLift.Entries
