import MemberLift.Run
import MemberLift.Proofs.Disk.Backup
import MemberLift.Proofs.Header.Rewrite
import MemberLift.Proofs.Text.Utf8

/-!
What the transformation of one file does.  A file is read and transformed first; only if it changed,
and only outside of a dry run, the disk changes with it.
-/
namespace MemberLift

namespace Transformer

theorem liftBytes_ok {c : Conventions} {p : Path} {source : Bytes} {r : Rewritten}
    (h : liftBytes c p source = .ok r) : ∃ t l, Utf8.encode t = source ∧
      liftHeader c t = .ok l ∧ r = ⟨Utf8.encode l.output, l.changed, l.freed⟩ := by
  rw [liftBytes] at h
  split at h
  · cases h
  · rename_i t decoded
    split at h
    · cases h
    · rename_i l lifted
      cases h
      exact ⟨t, l, Utf8.encode_of_decode decoded, lifted, rfl⟩

theorem apply_unchanged {t : Transformer} {p : Path} {source : Bytes} {r : Rewritten}
    (h : t.apply p source = .ok r) (unchanged : r.changed = false) : r.output = source := by
  cases t with
  | freeFunctions c policy =>
    obtain ⟨t, l, rfl, lifted, rfl⟩ := liftBytes_ok h
    have same : l.output = t := by
      have said := liftHeader_changed lifted
      rw [show l.changed = false from unchanged] at said
      simpa using said.symm
    rw [same]
  | expandTabs width =>
    cases h
    rw [expandBytes] at unchanged ⊢
    split at unchanged
    · cases unchanged
    · rename_i noTab
      rw [if_neg noTab]

theorem apply_changed {c : Conventions} {policy : BackupPolicy} {p : Path} {source : Bytes}
    {r : Rewritten} (h : (Transformer.freeFunctions c policy).apply p source = .ok r)
    (changed : r.changed = true) : r.output ≠ source := by
  obtain ⟨t, l, rfl, lifted, rfl⟩ := liftBytes_ok h
  have said := liftHeader_changed lifted
  rw [show l.changed = true from changed] at said
  intro same
  rw [Utf8.encode_injective same] at said
  simp at said

end Transformer

namespace Run

open Disk

variable {d d' : Disk} {p : Path} {options : RunOptions} {t : Transformer} {n : Nat}
  {policy : BackupPolicy} {stamp : Text} {source output : Bytes}

/-- A disk on which a file has been overwritten and its former contents are kept. -/
structure Replaced (policy : BackupPolicy) (stamp : Text) (p : Path) (source output : Bytes)
    (d : Disk) (backup : Option Path) (d' : Disk) : Prop where
  named : ∃ front name, Named p front name
  path : backup = Backup.path? policy stamp p
  confined : Confined d d' (Backup.touched d p backup) (Backup.made policy d backup)
  output : d'.read p = .ok output
  copy : ∀ q ∈ backup, d'.read q = .ok source

theorem named_of_writeFile {u : Unit}
    (h : (writeFile p output).perform d = (.ok u, d')) : ∃ front name, Named p front name := by
  have written {d₁ : Disk} {u : Unit} (h : (Action.change .ofOs (·.write p output) :
      Action StorageFault Unit).perform d₁ = (.ok u, d')) : ∃ front name, Named p front name := by
    obtain ⟨front, name, named, _⟩ := named_of_write (Action.perform_change_ok.mp h)
    exact ⟨front, name, named⟩
  rw [writeFile] at h
  split at h
  · split at h
    · exact written h
    · obtain ⟨_, _, _, h⟩ := Action.perform_bind_ok.mp h
      exact written h
  · exact written h

theorem writeFile_over {front name : Text} {u : Unit} (named : Named p front name)
    (reaches : d.Reaches p) (parent : d.look (walk (d.base p) (parts front)) = some .dir)
    (h : (writeFile p output).perform d = (.ok u, d')) :
    Puts d d' (d.place p) (some (.file output)) := by
  rw [writeFile_eq named reaches parent] at h
  exact puts_write named parent (Action.perform_change_ok.mp h)

theorem replaceFile_ok {b : Option Path} (read : d.read p = .ok source)
    (noSlash : policy = .timestamped → '/' ∉ stamp)
    (h : (replaceFile policy stamp p output).perform d = (.ok b, d')) :
    Replaced policy stamp p source output d b d' := by
  rw [replaceFile, Action.perform_bind_ok] at h
  obtain ⟨backup, d₁, keeping, h⟩ := h
  obtain ⟨_, d₂, writing, h⟩ := Action.perform_bind_ok.mp h
  cases h
  obtain ⟨front, name, named⟩ := named_of_writeFile writing
  have kept := Backup.keep_ok named read noSlash keeping
  obtain ⟨reaches, stands⟩ := read_ok_iff.mp read
  have parent := named.dir_of_read read
  have same := kept.confined.current
  have written := writeFile_over named (kept.confined.reaches reaches)
    (by rw [base_congr same]; exact kept.confined.dirs _ parent) writing
  rw [place_congr same] at written
  have after := written.confined (by simp)
  have whole := kept.confined.trans after
  refine ⟨⟨front, name, named⟩, kept.path, whole.mono ?_ ?_, ?_, ?_⟩
  · rintro place (inside | rfl)
    · exact inside
    · exact .inl rfl
  · rw [Set.union_empty]
  · refine read_ok_iff.mpr ⟨whole.reaches reaches, ?_⟩
    rw [place_congr whole.current]
    exact written.here
  · intro q mem
    refine after.read ?_ (kept.copy q mem)
    rw [place_congr same]
    exact Backup.path?_place_ne named noSlash (kept.path.symm.trans mem) d

def transformed (t : Transformer) (d : Disk) (p : Path) : Except Fault (Bytes × Rewritten) :=
  match d.read p with
  | .error fault => .error (.io (.os fault))
  | .ok source => (t.apply p source).map fun r => (source, r)

theorem transformed_ok {r : Rewritten} : transformed t d p = .ok (source, r) ↔
    d.read p = .ok source ∧ t.apply p source = .ok r := by
  rw [transformed]
  constructor
  · intro h
    split at h
    · cases h
    · rename_i contents read
      cases applied : t.apply p contents with
      | error fault => rw [applied] at h; cases h
      | ok r' =>
        rw [applied] at h
        cases h
        exact ⟨read, applied⟩
  · rintro ⟨read, applied⟩
    rw [read]
    simp only [applied]
    rfl

/-- The four ends of one file's transformation: a fault in front of any effect, no change, a change
that is only shown, and a change that is made. -/
theorem file_perform : (file options t n p).perform d =
    match transformed t d p with
    | .error fault => (.error fault, d)
    | .ok (source, r) =>
      if r.changed then
        if options.dryRun then (.ok (some (plan options p source r)), d)
        else match (replaceFile t.policy (options.stamps.ofFile n) p r.output).perform d with
          | (.ok backup, d') => (.ok (some { plan options p source r with backup }), d')
          | (.error fault, d') => (.error (.storage fault), d')
      else (.ok none, d) := by
  rw [file, transformed, Action.perform_bind, Action.perform_fetch]
  cases d.read p with
  | error fault => rfl
  | ok source =>
    simp only [Except.mapError, Action.perform_bind, Action.perform_ofExcept]
    cases t.apply p source with
    | error fault => rfl
    | ok r =>
      simp only [Except.map]
      cases r.changed with
      | false => rfl
      | true =>
        cases options.dryRun with
        | true => rfl
        | false =>
          simp only [Bool.not_true, Bool.false_eq_true, if_false, if_true]
          rw [Action.perform_bind, Action.perform_mapFault]
          obtain ⟨result, after⟩ :=
            (replaceFile t.policy (options.stamps.ofFile n) p r.output).perform d
          cases result with
          | error fault => rfl
          | ok b => rfl

end Run

end MemberLift
