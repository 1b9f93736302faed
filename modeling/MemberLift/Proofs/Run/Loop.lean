import MemberLift.Proofs.Run.Step

/-!
Runs that write, file by file.  `Runs` lists what happened to each file; properties of a whole run
are shown by induction on it.
-/
namespace MemberLift.Run

open Disk

variable {d d' : Disk} {options : RunOptions} {t : Transformer} {n : Nat} {paths : List Path}
  {changes : List FileChange}

theorem files_cons (options : RunOptions) (t : Transformer) (n : Nat) (p : Path)
    (rest : List Path) (d : Disk) : (files options t n (p :: rest)).perform d =
    match (file options t n p).perform d with
    | (.error fault, d₁) => (.error (.file p fault), d₁)
    | (.ok change, d₁) =>
      match (files options t (n + 1) rest).perform d₁ with
      | (.error fault, d') => (.error fault, d')
      | (.ok changes, d') => (.ok (change.toList ++ changes), d') := by
  rw [files, Action.perform_bind, Action.perform_mapFault]
  obtain ⟨result, d₁⟩ := (file options t n p).perform d
  cases result with
  | error fault => rfl
  | ok change =>
    simp only [Except.mapError, Action.perform_bind]
    obtain ⟨result, d'⟩ := (files options t (n + 1) rest).perform d₁
    cases result with
    | error fault => rfl
    | ok changes => rfl

/-- A run over files, the first of which has a given number, from one disk to another. -/
inductive Runs (options : RunOptions) (t : Transformer) :
    Nat → Disk → List Path → List FileChange → Disk → Prop
  | done {n : Nat} {d : Disk} : Runs options t n d [] [] d
  | kept {n : Nat} {d d' : Disk} {p : Path} {source : Bytes} {r : Rewritten} {rest : List Path}
      {changes : List FileChange} (read : d.read p = .ok source)
      (applied : t.apply p source = .ok r) (unchanged : r.changed = false)
      (after : Runs options t (n + 1) d rest changes d') :
      Runs options t n d (p :: rest) changes d'
  | changed {n : Nat} {d d₁ d' : Disk} {p : Path} {source : Bytes} {r : Rewritten}
      {backup : Option Path} {rest : List Path} {changes : List FileChange}
      (read : d.read p = .ok source) (applied : t.apply p source = .ok r)
      (changed : r.changed = true)
      (replaced : Replaced t.policy (options.stamps.ofFile n) p source r.output d backup d₁)
      (after : Runs options t (n + 1) d₁ rest changes d') :
      Runs options t n d (p :: rest) ({ plan options p source r with backup } :: changes) d'

theorem runs_of_files (writes : options.dryRun = false)
    (noSlash : t.policy = .timestamped → ∀ n, '/' ∉ options.stamps.ofFile n)
    (h : (files options t n paths).perform d = (.ok changes, d')) :
    Runs options t n d paths changes d' := by
  induction paths generalizing n d changes with
  | nil =>
    cases h
    exact .done
  | cons p rest ih =>
    rw [files_cons, file_perform, writes] at h
    cases found : transformed t d p with
    | error fault => rw [found] at h; cases h
    | ok x =>
      obtain ⟨source, r⟩ := x
      obtain ⟨read, applied⟩ := transformed_ok.mp found
      rw [found] at h
      cases changed : r.changed with
      | false =>
        simp only [changed, Bool.false_eq_true, if_false] at h
        split at h
        · cases h
        · rename_i changes' _ later
          cases h
          exact .kept read applied changed (ih later)
      | true =>
        simp only [changed, Bool.false_eq_true, if_true, if_false] at h
        cases replacing : (replaceFile t.policy (options.stamps.ofFile n) p r.output).perform d with
        | mk result d₁ =>
          rw [replacing] at h
          cases result with
          | error fault => cases h
          | ok backup =>
            simp only at h
            split at h
            · cases h
            · rename_i changes' _ later
              cases h
              have replaced := replaceFile_ok read (fun stamps => noSlash stamps n) replacing
              exact .changed read applied changed replaced (ih later)

/-- The places of the files that were changed and of their backups. -/
def touched (d : Disk) (changes : List FileChange) : Set Location :=
  {place | ∃ c ∈ changes, place ∈ Backup.touched d c.path c.backup}

def made (policy : BackupPolicy) (d : Disk) (changes : List FileChange) : Set Location :=
  {place | ∃ c ∈ changes, place ∈ Backup.made policy d c.backup}

theorem touched_congr (same : d'.current = d.current) (changes : List FileChange) :
    touched d' changes = touched d changes := by
  simp only [touched, Backup.touched, place_congr same]

theorem made_congr (same : d'.current = d.current) (policy : BackupPolicy)
    (changes : List FileChange) : made policy d' changes = made policy d changes := by
  simp only [made, Backup.made, place_congr same]

theorem Runs.confined (runs : Runs options t n d paths changes d') :
    Confined d d' (touched d changes) (made t.policy d changes) := by
  induction runs with
  | done => exact .refl _ _ _
  | kept _ _ _ _ ih => exact ih
  | changed _ _ _ replaced _ ih =>
    have whole := replaced.confined.trans ih
    rw [touched_congr replaced.confined.current, made_congr replaced.confined.current] at whole
    refine whole.mono ?_ ?_
    · rintro place (inside | ⟨c, mem, inside⟩)
      · exact ⟨_, List.mem_cons_self, inside⟩
      · exact ⟨c, List.mem_cons_of_mem _ mem, inside⟩
    · rintro place (inside | ⟨c, mem, inside⟩)
      · exact ⟨_, List.mem_cons_self, inside⟩
      · exact ⟨c, List.mem_cons_of_mem _ mem, inside⟩

theorem Runs.named (runs : Runs options t n d paths changes d') (stands : d.Stands) :
    ∀ p ∈ paths, ∃ front name, Named p front name := by
  induction runs with
  | done =>
    intro p mem
    cases mem
  | kept read _ _ _ ih =>
    intro p mem
    rcases List.mem_cons.mp mem with rfl | mem
    · exact named_of_read stands read
    · exact ih stands p mem
  | changed _ _ _ replaced _ ih =>
    intro p mem
    rcases List.mem_cons.mp mem with rfl | mem
    · exact replaced.named
    · exact ih (replaced.confined.stands stands) p mem

theorem Runs.listed (runs : Runs options t n d paths changes d') {c : FileChange}
    (mem : c ∈ changes) : ∃ m, (c.path, m) ∈ paths.zipIdx n ∧
      c.backup = Backup.path? t.policy (options.stamps.ofFile m) c.path ∧
      ∃ front name, Named c.path front name := by
  induction runs with
  | done => cases mem
  | kept _ _ _ _ ih =>
    obtain ⟨m, inside, rest⟩ := ih mem
    exact ⟨m, List.mem_cons_of_mem _ inside, rest⟩
  | @changed n _ _ _ _ _ _ _ _ _ _ _ _ replaced _ ih =>
    rcases List.mem_cons.mp mem with rfl | mem
    · exact ⟨n, List.mem_cons_self, replaced.path, replaced.named⟩
    · obtain ⟨m, inside, rest⟩ := ih mem
      exact ⟨m, List.mem_cons_of_mem _ inside, rest⟩

end MemberLift.Run
