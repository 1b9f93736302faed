import MemberLift.Disk.Action
import MemberLift.Proofs.Disk.Confined

/-!
What actions do to a disk: how they follow each other, and the two that prepare directories.
-/
namespace MemberLift

namespace Action

variable {ε δ α β : Type} {d d' : Disk}

theorem perform_bind (action : Action ε α) (f : α → Action ε β) (d : Disk) :
    (action >>= f).perform d = match action.perform d with
      | (.ok a, after) => (f a).perform after
      | (.error fault, after) => (.error fault, after) := by
  change (match action d with | (r, after) => ExceptT.bindCont f r after) = _
  rw [perform]
  obtain ⟨r, after⟩ := action d
  cases r with
  | error fault => rfl
  | ok a => rfl

theorem perform_bind_ok {action : Action ε α} {f : α → Action ε β} {b : β} :
    (action >>= f).perform d = (.ok b, d') ↔
      ∃ a d₁, action.perform d = (.ok a, d₁) ∧ (f a).perform d₁ = (.ok b, d') := by
  rw [perform_bind]
  constructor
  · intro h
    split at h
    · rename_i a d₁ first
      exact ⟨a, d₁, first, h⟩
    · cases h
  · rintro ⟨a, d₁, first, second⟩
    rw [first]
    exact second

@[simp] theorem perform_pure (a : α) (d : Disk) : (pure a : Action ε α).perform d = (.ok a, d) :=
  rfl

@[simp] theorem perform_query (f : Disk → α) (d : Disk) :
    (query f : Action ε α).perform d = (.ok (f d), d) := rfl

@[simp] theorem perform_ofExcept (e : Except ε α) (d : Disk) : (ofExcept e).perform d = (e, d) :=
  rfl

@[simp] theorem perform_fetch (wrap : OsFault → ε) (f : Disk → Except OsFault α) (d : Disk) :
    (fetch wrap f).perform d = ((f d).mapError wrap, d) := rfl

theorem perform_change (wrap : OsFault → ε) (f : Disk → Except OsFault Disk) (d : Disk) :
    (change wrap f).perform d = match f d with
      | .ok after => (.ok (), after)
      | .error fault => (.error (wrap fault), d) := rfl

theorem perform_mapFault (f : ε → δ) (action : Action ε α) (d : Disk) :
    (mapFault f action).perform d = ((action.perform d).1.mapError f, (action.perform d).2) := by
  rw [perform, mapFault, perform]
  obtain ⟨r, after⟩ := action d
  cases r with
  | error fault => rfl
  | ok a => rfl

theorem perform_change_ok {wrap : OsFault → ε} {f : Disk → Except OsFault Disk} {u : Unit} :
    (change wrap f).perform d = (.ok u, d') ↔ f d = .ok d' := by
  rw [perform_change]
  cases f d with
  | error fault => simp
  | ok after => simp

theorem perform_fetch_ok {wrap : OsFault → ε} {f : Disk → Except OsFault α} {a : α} :
    (fetch wrap f).perform d = (.ok a, d') ↔ f d = .ok a ∧ d' = d := by
  rw [perform_fetch]
  cases f d with
  | error fault => simp [Except.mapError]
  | ok after => simp [Except.mapError, eq_comm]

theorem perform_mapFault_ok {f : ε → δ} {action : Action ε α} {a : α} :
    (mapFault f action).perform d = (.ok a, d') ↔ action.perform d = (.ok a, d') := by
  rw [perform_mapFault]
  obtain ⟨r, after⟩ := action.perform d
  cases r with
  | error fault => simp [Except.mapError]
  | ok a => simp [Except.mapError]

theorem perform_map_ok {f : α → β} {action : Action ε α} {b : β} :
    (f <$> action).perform d = (.ok b, d') ↔ ∃ a, action.perform d = (.ok a, d') ∧ b = f a := by
  rw [map_eq_pure_bind, perform_bind_ok]
  constructor
  · rintro ⟨a, d₁, first, second⟩
    cases second
    exact ⟨a, first, rfl⟩
  · rintro ⟨a, first, rfl⟩
    exact ⟨a, d', first, rfl⟩

/-- An action that leaves the disk as it is. -/
def Quiet (action : Action ε α) : Prop := ∀ d, (action.perform d).2 = d

theorem quiet_pure (a : α) : Quiet (pure a : Action ε α) := fun _ => rfl

theorem quiet_query (f : Disk → α) : Quiet (query f : Action ε α) := fun _ => rfl

theorem quiet_fail (fault : ε) : Quiet (fail fault : Action ε α) := fun _ => rfl

theorem quiet_ofExcept (e : Except ε α) : Quiet (ofExcept e) := fun _ => rfl

theorem quiet_fetch (wrap : OsFault → ε) (f : Disk → Except OsFault α) : Quiet (fetch wrap f) :=
  fun _ => rfl

theorem Quiet.mapFault {action : Action ε α} (quiet : Quiet action) (f : ε → δ) :
    Quiet (mapFault f action) := by
  intro d
  rw [perform_mapFault]
  exact quiet d

theorem Quiet.bind {action : Action ε α} {f : α → Action ε β} (first : Quiet action)
    (rest : ∀ a, Quiet (f a)) : Quiet (action >>= f) := by
  intro d
  have same := first d
  rw [perform_bind]
  split
  · rename_i a after performed
    rw [performed] at same
    exact (rest a after).trans same
  · rename_i fault after performed
    rw [performed] at same
    exact same

theorem exists_of_toOption {result : Except ε α × Disk} {P : α → Prop}
    (h : ∃ a ∈ result.1.toOption, P a) : ∃ a d', result = (.ok a, d') ∧ P a := by
  obtain ⟨a, mem, holds⟩ := h
  obtain ⟨r, d'⟩ := result
  cases r with
  | error fault => cases mem
  | ok b =>
    cases mem
    exact ⟨a, d', rfl, holds⟩

end Action

namespace Disk

variable {d d' : Disk} {p q : Path} {front name : Text} {contents : Bytes}

theorem ensureDir_of_isDir (h : d.isDir p = true) : (ensureDir p).perform d = (.ok (), d) := by
  obtain ⟨reaches, dir⟩ := isDir_iff.mp h
  have there : d.exists? p = true := exists?_iff.mpr ⟨reaches, by simp [dir]⟩
  rw [ensureDir, Action.perform_bind, Action.perform_query, there]
  simp only [if_true]
  rw [Action.perform_bind, Action.perform_query, h]
  rfl

theorem makeDirsFrom_append {start next : Location} {s : List Text}
    (entered : d.enterAll start s = .ok next) (t : List Text) :
    d.makeDirsFrom start (s ++ t) = d.makeDirsFrom next t := by
  induction s generalizing start with
  | nil =>
    cases entered
    rfl
  | cons segment s ih =>
    rw [enterAll] at entered
    cases first : d.enter start segment with
    | error fault => rw [first] at entered; cases entered
    | ok inner =>
      rw [first] at entered
      obtain ⟨same, allowed⟩ := enter_ok_iff.mp first
      rw [List.cons_append, makeDirsFrom]
      rw [stepTo] at same
      by_cases here : segment = dot
      · rw [if_pos here] at same ⊢
        exact ih (same ▸ entered)
      · by_cases up : segment = dotDot
        · rw [if_neg here, if_pos up] at same ⊢
          exact ih (same ▸ entered)
        · rw [if_neg here, if_neg up] at same ⊢
          obtain ⟨entries, there⟩ :=
            look_dir_iff.mp ((allowed.resolve_left here).resolve_left up)
          rw [there]
          exact ih (same ▸ entered)

theorem ensureDir_ok (named : Named p front name) (reaches : d.Reaches p)
    (parent : d.look (walk (d.base p) (parts front)) = some .dir)
    (h : (ensureDir p).perform d = (.ok (), d')) :
    d.look (d.place p) = some .dir ∧ d' = d ∨
      d.look (d.place p) = none ∧ Puts d d' (d.place p) (some .dir) := by
  rw [ensureDir, Action.perform_bind_ok] at h
  obtain ⟨there, d₁, asked, h⟩ := h
  cases asked
  by_cases something : d.exists? p = true
  · rw [if_pos something, Action.perform_bind_ok] at h
    obtain ⟨dir, d₁, asked, h⟩ := h
    cases asked
    by_cases isDir : d.isDir p = true
    · rw [if_pos isDir] at h
      cases h
      exact .inl ⟨(isDir_iff.mp isDir).2, rfl⟩
    · rw [if_neg isDir] at h
      cases h
  · rw [if_neg something, Action.perform_change_ok, makeDirs, named.segments,
      makeDirsFrom_append (named.reaches_iff.mp reaches), makeDirsFrom,
      if_neg named.proper.notHere, if_neg named.proper.notUp, ← named.place] at h
    have empty : d.look (d.place p) = none := by
      by_contra full
      exact something (exists?_iff.mpr ⟨reaches, full⟩)
    have none_ : d.root.get? (d.place p) = none := Option.map_eq_none_iff.mp empty
    rw [none_] at h
    cases h
    refine .inr ⟨empty, ?_⟩
    rw [named.place] at empty ⊢
    exact puts_insert parent (by simp [empty]) fun _ _ => rfl

theorem Named.parent_isDir (named : Named p front name) (reaches : d.Reaches p)
    (parent : d.look (walk (d.base p) (parts front)) = some .dir) (h : p.parent? = some q)
    (nonempty : q.text ≠ []) : d.isDir q = true := by
  obtain ⟨q', found, ⟨k, same⟩, absolute, _⟩ := named.parent?
  cases h.symm.trans found
  have entered := named.reaches_iff.mp reaches
  rw [same, enterAll_append_dots, walk_append_dots, ← base_eq d absolute] at entered
  rw [same, walk_append_dots, ← base_eq d absolute] at parent
  exact isDir_iff.mpr ⟨reaches_of_enterAll nonempty entered, parent⟩

theorem writeFile_eq (named : Named p front name) (reaches : d.Reaches p)
    (parent : d.look (walk (d.base p) (parts front)) = some .dir) (contents : Bytes) :
    (writeFile p contents).perform d =
      (Action.change .ofOs (·.write p contents) : Action StorageFault Unit).perform d := by
  obtain ⟨q, found, _⟩ := named.parent?
  rw [writeFile, found]
  by_cases empty : q.text.isEmpty
  · simp only [if_pos empty]
  · have isDir := named.parent_isDir reaches parent found (by simpa using empty)
    simp only [if_neg empty, Action.perform_bind, ensureDir_of_isDir isDir]

end Disk

end MemberLift
