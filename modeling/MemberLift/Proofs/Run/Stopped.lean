import Mathlib.Data.List.Nodup
import MemberLift.Proofs.Disk.Unkept
import MemberLift.Proofs.Run.Completed

/-!
Runs that fail.  A file that cannot be read, transformed or kept is left as it is, so a run that
fails ends at one file, on the disk that the files in front of it have left: `run_stopped`.
-/
namespace MemberLift

namespace Run

open Disk

variable {d d₁ d' : Disk} {options : RunOptions} {t : Transformer} {n : Nat} {p : Path}
  {paths : List Path} {changes : List FileChange} {policy : BackupPolicy} {stamp : Text}
  {source output : Bytes}

theorem replaceFile_error {fault : StorageFault} (named : ∃ front name, Named p front name)
    (read : d.read p = .ok source) (noSlash : policy = .timestamped → '/' ∉ stamp)
    (h : (replaceFile policy stamp p output).perform d = (.error fault, d')) :
    d' = d ∧ (Backup.keep policy stamp p).perform d = (.error fault, d) := by
  obtain ⟨front, name, named⟩ := named
  rw [replaceFile] at h
  rcases Action.perform_bind_error.mp h with unkept | ⟨backup, d₁, keeping, h⟩
  · obtain rfl := Backup.keep_error named read noSlash unkept
    exact ⟨rfl, unkept⟩
  · have kept := (Backup.keep_ok named read noSlash keeping).confined
    have reaches := kept.reaches (read_ok_iff.mp read).1
    have parent : d₁.look (walk (d₁.base p) (parts front)) = some .dir := by
      rw [base_congr kept.current]
      exact kept.dirs _ (named.dir_of_read read)
    obtain ⟨d₂, written⟩ :=
      write_ok named reaches (Backup.keep_room named read noSlash keeping) output
    rcases Action.perform_bind_error.mp h with refused | ⟨_, _, _, done⟩
    · rw [writeFile_eq named reaches parent] at refused
      obtain ⟨_, cause, refused⟩ := Action.perform_change_error refused
      rw [written] at refused
      cases refused
    · cases done

/-- Why the file of a number is not transformed: it cannot be read, its contents cannot be
transformed, or it would change and cannot be kept. -/
inductive Hindered (options : RunOptions) (t : Transformer) (n : Nat) (d : Disk) (p : Path) :
    Fault → Prop
  | unread {fault : OsFault} : d.read p = .error fault → Hindered options t n d p (.io (.os fault))
  | rejected {source : Bytes} {fault : Fault} :
      d.read p = .ok source → t.apply p source = .error fault → Hindered options t n d p fault
  | unkept {source : Bytes} {r : Rewritten} {fault : StorageFault} :
      d.read p = .ok source → t.apply p source = .ok r → r.changed = true →
        (Backup.keep t.policy (options.stamps.ofFile n) p).perform d = (.error fault, d) →
          Hindered options t n d p (.storage fault)

theorem hindered_of_transformed {fault : Fault} (h : transformed t d p = .error fault) :
    Hindered options t n d p fault := by
  rw [transformed] at h
  split at h
  · rename_i unread
    cases h
    exact .unread unread
  · rename_i source read
    cases applied : t.apply p source with
    | error fault' =>
      rw [applied] at h
      cases h
      exact .rejected read applied
    | ok r =>
      rw [applied] at h
      cases h

theorem file_error {fault : Fault} (writes : options.dryRun = false) (stands : d.Stands)
    (noSlash : t.policy = .timestamped → '/' ∉ options.stamps.ofFile n)
    (h : (file options t n p).perform d = (.error fault, d')) :
    d' = d ∧ Hindered options t n d p fault := by
  rw [file_perform, writes] at h
  cases found : transformed t d p with
  | error fault' =>
    rw [found] at h
    cases h
    exact ⟨rfl, hindered_of_transformed found⟩
  | ok x =>
    obtain ⟨source, r⟩ := x
    obtain ⟨read, applied⟩ := transformed_ok.mp found
    rw [found] at h
    cases changed : r.changed with
    | false =>
      simp only [changed, Bool.false_eq_true, if_false] at h
      cases h
    | true =>
      simp only [changed, Bool.false_eq_true, if_true, if_false] at h
      split at h
      · cases h
      · rename_i fault' d₁ replacing
        cases h
        obtain ⟨rfl, unkept⟩ :=
          replaceFile_error (named_of_read stands read) read noSlash replacing
        exact ⟨rfl, .unkept read applied changed unkept⟩

theorem file_stands {change : Option FileChange} (writes : options.dryRun = false)
    (stands : d.Stands) (noSlash : t.policy = .timestamped → '/' ∉ options.stamps.ofFile n)
    (h : (file options t n p).perform d = (.ok change, d₁)) : d₁.Stands := by
  rw [file_perform, writes] at h
  cases found : transformed t d p with
  | error fault => rw [found] at h; cases h
  | ok x =>
    obtain ⟨source, r⟩ := x
    obtain ⟨read, _⟩ := transformed_ok.mp found
    rw [found] at h
    cases changed : r.changed with
    | false =>
      simp only [changed, Bool.false_eq_true, if_false] at h
      cases h
      exact stands
    | true =>
      simp only [changed, Bool.false_eq_true, if_true, if_false] at h
      split at h
      · rename_i backup d₂ replacing
        cases h
        exact (replaceFile_ok read noSlash replacing).confined.stands stands
      · cases h

theorem files_error {fault : Fault} (writes : options.dryRun = false) (stands : d.Stands)
    (noSlash : t.policy = .timestamped → ∀ n, '/' ∉ options.stamps.ofFile n)
    (h : (files options t n paths).perform d = (.error fault, d')) :
    ∃ k p cause changes, paths[k]? = some p ∧ fault = .file p cause ∧
      Hindered options t (n + k) d' p cause ∧
      (files options t n (paths.take k)).perform d = (.ok changes, d') := by
  induction paths generalizing n d with
  | nil => cases h
  | cons p rest ih =>
    rw [files_cons] at h
    have here (stamps : t.policy = .timestamped) := noSlash stamps n
    cases first : (file options t n p).perform d with
    | mk result d₁ =>
      rw [first] at h
      cases result with
      | error cause =>
        cases h
        obtain ⟨rfl, hindered⟩ := file_error writes stands here first
        exact ⟨0, p, cause, [], rfl, rfl, hindered, rfl⟩
      | ok change =>
        simp only at h
        cases later : (files options t (n + 1) rest).perform d₁ with
        | mk result d₂ =>
          rw [later] at h
          cases result with
          | ok changes => cases h
          | error fault' =>
            cases h
            obtain ⟨k, q, cause, changes, listed, same, hindered, front⟩ :=
              ih (file_stands writes stands here first) later
            refine ⟨k + 1, q, cause, change.toList ++ changes, listed, same, ?_, ?_⟩
            · rwa [Nat.add_right_comm, Nat.add_assoc] at hindered
            · rw [List.take_succ_cons, files_cons, first]
              simp only [front]

theorem Runs.behind_untouched {front behind : List Path}
    (runs : Runs options t n d front changes d')
    (apart : Apart t.policy options.stamps d n (front ++ behind)) :
    ∀ p ∈ behind, d.place p ∉ touched d changes := by
  rw [Apart, List.zipIdx_append, List.pairwise_append] at apart
  rintro p mem ⟨c, changed, inside⟩
  obtain ⟨m, listed, path, _⟩ := runs.listed changed
  obtain ⟨i, bound, rfl⟩ := List.getElem_of_mem mem
  have numbered : (behind[i], n + front.length + i) ∈ behind.zipIdx (n + front.length) :=
    List.mk_mem_zipIdx_iff_le_and_getElem?_sub.mpr ⟨Nat.le_add_right _ _, by simp⟩
  have separate := apart.2.2 _ listed _ numbered
  exact later_untouched separate path inside

theorem Apart.nodup (apart : Apart t.policy options.stamps d n paths) : paths.Nodup := by
  have different : (paths.zipIdx n).Pairwise fun a b => a.1 ≠ b.1 :=
    List.Pairwise.imp (fun separate same => separate.different (congrArg d.place same)) apart
  have names := List.pairwise_map.mpr different
  rwa [List.zipIdx_map_fst] at names

end Run

open Run Disk

/-- A run that failed at the file of an index, and the disk behind it. -/
structure Stopped (options : RunOptions) (t : Transformer) (paths : List Path) (d : Disk)
    (fault : Fault) (d' : Disk) (k : Nat) : Prop where
  /-- The fault names the file, and says why that file is left as it is. -/
  cause : ∃ p cause, paths[k]? = some p ∧ fault = .file p cause ∧ Hindered options t k d' p cause
  /-- The run over the files in front of it comes to its end on the same disk. -/
  front : ∃ report, (run options t (paths.take k)).perform d = (.ok report, d')
  /-- Neither that file nor a later one has changed. -/
  contents : ∀ p ∈ paths.drop k, d'.contents? (d'.place p) = d.contents? (d.place p)
  reads : ∀ p ∈ paths.drop k, ∀ contents, d.read p = .ok contents → d'.read p = .ok contents

/-- A run that fails stops at the one file that its fault names. -/
theorem run_stopped {options : RunOptions} {t : Transformer} {paths : List Path} {d d' : Disk}
    {fault : Fault} (writes : options.dryRun = false) (stands : d.Stands)
    (apart : Apart t.policy options.stamps d 0 paths)
    (noSlash : t.policy = .timestamped → ∀ n, '/' ∉ options.stamps.ofFile n)
    (h : (run options t paths).perform d = (.error fault, d')) :
    ∃ k, Stopped options t paths d fault d' k ∧
      ∀ j p cause, paths[j]? = some p → fault = .file p cause → j = k := by
  rw [run] at h
  rcases Action.perform_bind_error.mp h with failed | ⟨_, _, _, done⟩
  · obtain ⟨k, p, cause, changes, listed, rfl, hindered, front⟩ :=
      files_error writes stands noSlash failed
    have runs := runs_of_files writes noSlash front
    rw [← List.take_append_drop k paths] at apart
    have outside := runs.behind_untouched apart
    rw [List.take_append_drop] at apart
    rw [Nat.zero_add] at hindered
    refine ⟨k, ⟨⟨p, cause, listed, rfl, hindered⟩, ?_, ?_, ?_⟩, ?_⟩
    · exact ⟨_, Action.perform_bind_ok.mpr ⟨changes, d', front, rfl⟩⟩
    · intro q mem
      rw [place_congr runs.confined.current]
      exact runs.confined.contents? (outside q mem)
    · intro q mem contents read
      exact runs.confined.read (outside q mem) read
    · intro j q cause' listed' same
      cases same
      obtain ⟨bound, rfl⟩ := List.getElem?_eq_some_iff.mp listed'
      obtain ⟨bound', same⟩ := List.getElem?_eq_some_iff.mp listed
      exact ((List.Nodup.getElem_inj_iff apart.nodup).mp same).symm
  · cases done

def barred : Disk where
  root := .dir [("a.cpp".toList, .file (Utf8.encode "\tint x;\n".toList)),
    ("b.cpp".toList, .file (Utf8.encode "\tint y;\n".toList)), ("b.cpp.orig".toList, .dir [])]
  current := []

def barredPaths : List Path := [⟨"a.cpp".toList⟩, ⟨"b.cpp".toList⟩]

def barredFault : Fault := .file ⟨"b.cpp".toList⟩ (.storage (.io (.os .isADirectory)))

theorem run_stopped_barred : ∃ d',
    (run copying (.expandTabs 4) barredPaths).perform barred = (.error barredFault, d') ∧
      Stopped copying (.expandTabs 4) barredPaths barred barredFault d' 1 := by
  have failed : ((run copying (.expandTabs 4) barredPaths).perform barred).1 =
      .error barredFault := by
    decide +kernel
  refine ⟨_, Prod.ext failed rfl, ?_⟩
  obtain ⟨k, stopped, only⟩ := run_stopped rfl (by decide +kernel) (by decide +kernel)
    (fun policy => by cases policy) (Prod.ext failed rfl)
  rwa [only 1 _ _ rfl rfl]

end MemberLift
