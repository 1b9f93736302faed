import MemberLift.Proofs.Disk.Backup

/-!
Files that cannot be kept.  An older backup is only taken away if the file can be moved to its
place, and a directory for copies is only made if the copy can be written, so keeping a file either
succeeds or leaves the disk as it is.
-/
namespace MemberLift

namespace Action

variable {ε δ α β : Type} {d d' : Disk} {fault : ε}

theorem perform_bind_error {action : Action ε α} {f : α → Action ε β} :
    (action >>= f).perform d = (.error fault, d') ↔ action.perform d = (.error fault, d') ∨
      ∃ a d₁, action.perform d = (.ok a, d₁) ∧ (f a).perform d₁ = (.error fault, d') := by
  rw [perform_bind]
  obtain ⟨result, after⟩ := action.perform d
  cases result with
  | error fault' => simp
  | ok a => simp

theorem perform_change_error {wrap : OsFault → ε} {f : Disk → Except OsFault Disk}
    (h : (change wrap f).perform d = (.error fault, d')) :
    d' = d ∧ ∃ cause, f d = .error cause := by
  rw [perform_change] at h
  cases changed : f d with
  | error cause =>
    rw [changed] at h
    cases h
    exact ⟨rfl, cause, rfl⟩
  | ok after =>
    rw [changed] at h
    cases h

theorem perform_map_error {f : α → β} {action : Action ε α}
    (h : (f <$> action).perform d = (.error fault, d')) :
    action.perform d = (.error fault, d') := by
  rw [map_eq_pure_bind, perform_bind_error] at h
  rcases h with failed | ⟨a, d₁, _, done⟩
  · exact failed
  · cases done

end Action

namespace Disk

variable {d d' : Disk} {p q : Path} {front name : Text} {contents : Bytes} {fault : StorageFault}

theorem rename_ok (reaches : d.Reaches p) (reaches' : d.Reaches q)
    (stands : d.look (d.place p) = some (.file contents))
    (notDir : d.look (d.place q) ≠ some .dir) (beside : ¬ d.place p <+: d.place q) :
    ∃ d', d.rename p q = .ok d' := by
  have different : d.place p ≠ d.place q := fun same => beside (same ▸ List.prefix_refl _)
  rw [rename, reaches, reaches']
  simp only [bind, Except.bind, look_file_iff.mp stands]
  split
  · rename_i none_
    cases none_
  · rename_i dir
    exact absurd (look_dir_iff.mpr ⟨_, dir⟩) notDir
  · rw [if_neg different, if_neg (by simpa using beside)]
    exact ⟨_, rfl⟩

theorem ensureDir_error (h : (ensureDir p).perform d = (.error fault, d')) : d' = d := by
  rw [ensureDir, Action.perform_bind, Action.perform_query] at h
  simp only at h
  split at h
  · rw [Action.perform_bind, Action.perform_query] at h
    simp only at h
    split at h
    · cases h
    · cases h
      rfl
  · exact (Action.perform_change_error h).1

theorem write_ok (named : Named p front name) (reaches : d.Reaches p)
    (notDir : d.look (d.place p) ≠ some .dir) (contents : Bytes) :
    ∃ d', d.write p contents = .ok d' := by
  rw [write_eq named reaches]
  split
  · rename_i dir
    exact absurd (look_dir_iff.mpr ⟨_, dir⟩) notDir
  · exact ⟨_, rfl⟩

end Disk

open Disk

namespace Backup

variable {d d' : Disk} {p : Path} {front name stamp : Text} {policy : BackupPolicy}
  {contents : Bytes} {fault : StorageFault}

theorem not_prefix_orig (named : Named p front name) (d : Disk) :
    ¬ d.place p <+: d.place p.orig := by
  intro inside
  refine orig_place_ne named d (inside.eq_of_length ?_)
  rw [orig_place named, named.place]
  simp

theorem moveToOrig_error (named : Named p front name) (read : d.read p = .ok contents)
    (h : (moveToOrig p).perform d = (.error fault, d')) : d' = d := by
  obtain ⟨reaches, stands⟩ := read_ok_iff.mp read
  rw [moveToOrig, Action.perform_bind, Action.perform_query] at h
  simp only at h
  split at h
  · rcases Action.perform_bind_error.mp h with refused | ⟨_, d₁, removed, h⟩
    · exact (Action.perform_change_error refused).1
    · -- Behind an older backup that could be removed there is room for the file.
      have out := puts_remove named.orig (Action.perform_change_ok.mp removed)
      have after := out.confined (by simp)
      have stands₁ : d₁.look (d₁.place p) = some (.file contents) := by
        rw [place_congr out.current]
        exact (after.file_iff (orig_place_ne named d)).mpr stands
      have room : d₁.look (d₁.place p.orig) ≠ some .dir := by
        rw [place_congr out.current, out.here]
        exact fun dir => by cases dir
      obtain ⟨d₂, renamed⟩ := rename_ok (after.reaches reaches)
        (after.reaches (orig_reaches named reaches)) stands₁ room (not_prefix_orig named d₁)
      rcases Action.perform_bind_error.mp h with refused | ⟨_, _, _, done⟩
      · obtain ⟨_, cause, refused⟩ := Action.perform_change_error refused
        rw [renamed] at refused
        cases refused
      · cases done
  · rcases Action.perform_bind_error.mp h with refused | ⟨_, _, _, done⟩
    · exact (Action.perform_change_error refused).1
    · cases done

theorem Copy.ensured_room {dir target : Path} (copy : Copy p front name stamp dir target)
    (named : Named p front name) (reaches : d.Reaches p)
    (parent : d.look (walk (d.base p) (parts front)) = some .dir)
    (h : (ensureDir dir).perform d = (.ok (), d')) :
    d' = d ∨ d'.look (d'.place target) ≠ some .dir := by
  obtain ⟨f, k, dirNamed, same⟩ := copy.dirNamed
  rw [same, walk_append_dots, ← base_eq d copy.dirBase] at parent
  rcases ensureDir_ok dirNamed (copy.dir_reaches named reaches) parent h with
    ⟨_, rfl⟩ | ⟨empty, made⟩
  · exact .inl rfl
  · refine .inr ?_
    have none_ : d.look (d.place target) = none := by
      rw [copy.target_place]
      exact Node.look_none_below empty _
    rw [place_congr made.current, made.elsewhere (by simp [copy.target_place]), none_]
    exact fun dir => by cases dir

theorem copyStamped_error {dir target : Path} (copy : Copy p front name stamp dir target)
    (named : Named p front name) (read : d.read p = .ok contents)
    (h : (copyStamped stamp p).perform d = (.error fault, d')) : d' = d := by
  obtain ⟨reaches, stands⟩ := read_ok_iff.mp read
  have parent := named.dir_of_read read
  have isFile : d.isFile p = true := isFile_iff.mpr ⟨reaches, contents, stands⟩
  rw [copyStamped, Action.perform_bind, Action.perform_query] at h
  simp only [isFile, if_true] at h
  rw [copy.path, Action.perform_bind, Action.perform_ofExcept] at h
  simp only [Except.mapError, copy.parent] at h
  rcases Action.perform_bind_error.mp h with refused | ⟨_, d₁, ensured, h⟩
  · exact ensureDir_error refused
  have there := copy.ensured_room named reaches parent ensured
  obtain ⟨made, isDir⟩ := copy.ensured named reaches parent ensured
  rw [Action.perform_bind, Action.perform_fetch, made.read (fun inside => inside) read] at h
  simp only [Except.mapError] at h
  rcases Action.perform_bind_error.mp h with refused | ⟨_, _, _, done⟩
  · obtain ⟨rfl, cause, refused⟩ := Action.perform_change_error refused
    rcases there with rfl | room
    · rfl
    · -- In a directory that is new there is room for the copy.
      obtain ⟨f, targetNamed, _⟩ := copy.targetNamed
      have reaches₁ := made.reaches (copy.dir_reaches named reaches)
      obtain ⟨d₂, written⟩ := write_ok targetNamed
        (copy.target_reaches reaches₁ (place_congr made.current dir ▸ isDir)) room contents
      rw [written] at refused
      cases refused
  · cases done

theorem keep_room {backup : Option Path} (named : Named p front name)
    (read : d.read p = .ok contents) (noSlash : policy = .timestamped → '/' ∉ stamp)
    (h : (keep policy stamp p).perform d = (.ok backup, d')) :
    d'.look (d'.place p) ≠ some .dir := by
  have stands := (read_ok_iff.mp read).2
  have file {d₁ : Disk} (stands : d₁.look (d₁.place p) = some (.file contents)) :
      d₁.look (d₁.place p) ≠ some .dir := by
    rw [stands]
    exact fun dir => by cases dir
  cases policy with
  | none =>
    cases h
    exact file stands
  | origSuffix =>
    obtain ⟨q, moved, rfl⟩ := Action.perform_map_ok.mp h
    obtain ⟨rfl, confined, _⟩ := moveToOrig_ok named read moved
    rw [place_congr confined.current]
    intro dir
    exact file stands ((confined.newDirs _ dir).resolve_right fun inside => inside)
  | timestamped =>
    obtain ⟨q, copied, rfl⟩ := Action.perform_map_ok.mp h
    obtain ⟨dir, target, copy⟩ := exists_copy named (noSlash rfl)
    obtain ⟨rfl, confined, _⟩ := copyStamped_ok copy named read copied
    have path : path? .timestamped stamp p = some q := by
      rw [path?, copy.path]
      rfl
    have elsewhere := path?_place_ne named noSlash path d
    exact file (read_ok_iff.mp (confined.read elsewhere.symm read)).2

/-- A file that cannot be kept stays as it is, with everything around it. -/
theorem keep_error (named : Named p front name) (read : d.read p = .ok contents)
    (noSlash : policy = .timestamped → '/' ∉ stamp)
    (h : (keep policy stamp p).perform d = (.error fault, d')) : d' = d := by
  cases policy with
  | none => cases h
  | origSuffix => exact moveToOrig_error named read (Action.perform_map_error h)
  | timestamped =>
    obtain ⟨dir, target, copy⟩ := exists_copy named (noSlash rfl)
    exact copyStamped_error copy named read (Action.perform_map_error h)

end Backup

end MemberLift
