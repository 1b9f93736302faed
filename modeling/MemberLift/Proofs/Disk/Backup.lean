import Mathlib.Data.Nat.Digits.Defs
import MemberLift.Disk.Backup
import MemberLift.Moment
import MemberLift.Proofs.Disk.Action

/-!
What keeping a file does to a disk.  The kept contents stand where the policy says; the file itself
may be gone, and the directory of copies may be new, but nothing else changes.
-/
namespace MemberLift

open Disk

variable {d d' : Disk} {p q : Path} {front name stamp : Text} {policy : BackupPolicy}
  {contents : Bytes}

namespace Backup

/-- The path that a policy keeps a file under. -/
def path? (policy : BackupPolicy) (stamp : Text) (p : Path) : Option Path :=
  match policy with
  | .none => none
  | .origSuffix => some p.orig
  | .timestamped => (stampedPath stamp p).toOption

/-- The places that keeping a file and overwriting it is about. -/
def touched (d : Disk) (p : Path) (backup : Option Path) : Set Location :=
  {place | place = d.place p ∨ ∃ q ∈ backup, place = d.place q}

def made (policy : BackupPolicy) (d : Disk) (backup : Option Path) : Set Location :=
  {place | policy = .timestamped ∧ ∃ q ∈ backup, place = (d.place q).dropLast}

theorem directory_proper : ProperName directory := by
  constructor <;> decide

def copyName (name stamp : Text) : Text := name ++ (".backup.".toList ++ stamp)

theorem copyName_proper (proper : ProperName name) (noSlash : '/' ∉ stamp) :
    ProperName (copyName name stamp) := by
  refine proper_append proper ?_ ?_
  · rw [List.mem_append, not_or]
    exact ⟨by decide, noSlash⟩
  · rw [List.length_append]
    have eight : (".backup.".toList).length = 8 := by decide
    omega

/-- A copy with a time stamp and the directory that it is in, beside a file. -/
structure Copy (p : Path) (front name stamp : Text) (dir target : Path) : Prop where
  path : stampedPath stamp p = .ok target
  parent : target.parent? = some dir
  dirNamed : ∃ f k, Named dir f directory ∧ parts front = parts f ++ List.replicate k dot
  targetNamed : ∃ f, Named target f (copyName name stamp) ∧ parts f = segments dir
  dirBase : dir.isAbsolute = p.isAbsolute
  targetBase : target.isAbsolute = p.isAbsolute

theorem exists_copy (named : Named p front name) (noSlash : '/' ∉ stamp) :
    ∃ dir target, Copy p front name stamp dir target := by
  obtain ⟨q, parent, ⟨k, same⟩, absolute, _⟩ := named.parent?
  obtain ⟨f, dirNamed, inner, dirBase⟩ := named_joinText q directory_proper
  have proper := copyName_proper named.proper noSlash
  obtain ⟨f', targetNamed, inner', targetBase⟩ :=
    named_joinText (q.joinText directory) proper
  refine ⟨q.joinText directory, (q.joinText directory).joinText (copyName name stamp), ?_, ?_,
    ⟨f, k, dirNamed, ?_⟩, ⟨f', targetNamed, inner'⟩, ?_, ?_⟩
  · rw [stampedPath, named.fileName?, parent]
    simp [copyName]
  · exact dirNamed.parent?_joinText proper
  · rw [same, inner]
  · rw [dirBase, absolute]
  · rw [targetBase, dirBase, absolute]

namespace Copy

variable {dir target : Path}

theorem dir_place (copy : Copy p front name stamp dir target) (d : Disk) :
    d.place dir = walk (d.base p) (parts front) ++ [directory] := by
  obtain ⟨f, k, named, same⟩ := copy.dirNamed
  rw [named.place, same, walk_append_dots, base_eq d copy.dirBase]

theorem target_place (copy : Copy p front name stamp dir target) (d : Disk) :
    d.place target = d.place dir ++ [copyName name stamp] := by
  obtain ⟨f, named, same⟩ := copy.targetNamed
  rw [named.place, same, Disk.place, base_eq d (copy.targetBase.trans copy.dirBase.symm)]

theorem dir_reaches (copy : Copy p front name stamp dir target) (named : Named p front name)
    (reaches : d.Reaches p) : d.Reaches dir := by
  obtain ⟨f, k, dirNamed, same⟩ := copy.dirNamed
  rw [named.reaches_iff, same, enterAll_append_dots, walk_append_dots,
    ← base_eq d copy.dirBase] at reaches
  exact dirNamed.reaches_iff.mpr reaches

theorem target_reaches (copy : Copy p front name stamp dir target) (reaches : d.Reaches dir)
    (isDir : d.look (d.place dir) = some .dir) : d.Reaches target := by
  obtain ⟨_, _, dirNamed, _⟩ := copy.dirNamed
  obtain ⟨f, targetNamed, same⟩ := copy.targetNamed
  rw [targetNamed.reaches_iff, same, base_eq d (copy.targetBase.trans copy.dirBase.symm)]
  exact dirNamed.enterAll reaches isDir

theorem ensured (copy : Copy p front name stamp dir target) (named : Named p front name)
    (reaches : d.Reaches p) (parent : d.look (walk (d.base p) (parts front)) = some .dir)
    (h : (ensureDir dir).perform d = (.ok (), d')) :
    Confined d d' ∅ {d.place dir} ∧ d'.look (d.place dir) = some .dir := by
  obtain ⟨f, k, dirNamed, same⟩ := copy.dirNamed
  rw [same, walk_append_dots, ← base_eq d copy.dirBase] at parent
  rcases ensureDir_ok dirNamed (copy.dir_reaches named reaches) parent h with
    ⟨isDir, rfl⟩ | ⟨empty, made⟩
  · exact ⟨.refl _ _ _, isDir⟩
  · exact ⟨made.makes empty, made.here⟩

end Copy

/-- A disk on which a file is kept as a policy says. -/
structure Kept (policy : BackupPolicy) (stamp : Text) (p : Path) (contents : Bytes) (d : Disk)
    (backup : Option Path) (d' : Disk) : Prop where
  path : backup = path? policy stamp p
  confined : Confined d d' (touched d p backup) (made policy d backup)
  copy : ∀ q ∈ backup, d'.read q = .ok contents

theorem orig_place (named : Named p front name) (d : Disk) :
    d.place p.orig = walk (d.base p) (parts front) ++ [name ++ ".orig".toList] := by
  rw [named.orig.place, base_eq d named.orig_isAbsolute]

theorem orig_reaches (named : Named p front name) (reaches : d.Reaches p) : d.Reaches p.orig := by
  rw [named.orig.reaches_iff, base_eq d named.orig_isAbsolute]
  exact named.reaches_iff.mp reaches

theorem orig_place_ne (named : Named p front name) (d : Disk) : d.place p ≠ d.place p.orig := by
  rw [orig_place named, named.place]
  intro same
  have longer := congrArg List.length (List.append_inj_right' same rfl)
  have names := congrArg List.length (List.cons.inj (List.append_inj_right' same rfl)).1
  rw [List.length_append] at names
  have five : (".orig".toList).length = 5 := by decide
  omega

theorem renamed_to_orig {d₁ : Disk} (named : Named p front name) (read : d.read p = .ok contents)
    (before : Confined d d₁ {d.place p.orig} ∅) (h : d₁.rename p p.orig = .ok d') :
    Confined d d' {d.place p, d.place p.orig} ∅ ∧
      d'.look (d.place p.orig) = some (.file contents) := by
  obtain ⟨reaches, stands⟩ := read_ok_iff.mp read
  have parent := named.dir_of_read read
  have different := orig_place_ne named d
  have samePlaces := place_congr before.current
  have stands₁ : d₁.look (d₁.place p) = some (.file contents) := by
    rw [samePlaces]
    exact (before.file_iff different).mpr stands
  have parent₁ : d₁.look (walk (d₁.base p.orig) (parts front)) = some .dir := by
    rw [base_congr before.current, base_eq d named.orig_isAbsolute]
    exact before.dirs _ parent
  have different₁ : d₁.place p ≠ d₁.place p.orig := by rwa [samePlaces, samePlaces]
  obtain ⟨d₂, out, into⟩ := puts_rename named named.orig different₁ stands₁ parent₁ h
  rw [samePlaces] at out into
  have whole := (before.trans (out.confined (by simp))).trans (into.confined (by simp))
  refine ⟨whole.mono ?_ (by simp), into.here⟩
  intro place inside
  rcases inside with (inside | inside) | inside
  · exact .inr inside
  · exact .inl inside
  · exact .inr inside

theorem moveToOrig_ok {b : Path} (named : Named p front name) (read : d.read p = .ok contents)
    (h : (moveToOrig p).perform d = (.ok b, d')) : b = p.orig ∧
      Confined d d' {d.place p, d.place p.orig} ∅ ∧ d'.read p.orig = .ok contents := by
  have ending {d₁ : Disk} (before : Confined d d₁ {d.place p.orig} ∅)
      (h : (do Action.change .ofOs (·.rename p p.orig); return p.orig :
        Action StorageFault Path).perform d₁ = (.ok b, d')) : b = p.orig ∧
      Confined d d' {d.place p, d.place p.orig} ∅ ∧ d'.read p.orig = .ok contents := by
    obtain ⟨_, d₂, renamed, h⟩ := Action.perform_bind_ok.mp h
    cases h
    obtain ⟨confined, stands⟩ :=
      renamed_to_orig named read before (Action.perform_change_ok.mp renamed)
    have reaches := confined.reaches (orig_reaches named (read_ok_iff.mp read).1)
    refine ⟨rfl, confined, read_ok_iff.mpr ⟨reaches, ?_⟩⟩
    rw [place_congr confined.current]
    exact stands
  rw [moveToOrig, Action.perform_bind_ok] at h
  obtain ⟨there, d₁, asked, h⟩ := h
  cases asked
  by_cases something : d.exists? p.orig = true
  · rw [if_pos something, Action.perform_bind_ok] at h
    obtain ⟨_, d₁, removed, h⟩ := h
    have out := puts_remove named.orig (Action.perform_change_ok.mp removed)
    exact ending (out.confined (by simp)) h
  · rw [if_neg something] at h
    exact ending (.refl _ _ _) h

theorem copyStamped_ok {b dir target : Path} (copy : Copy p front name stamp dir target)
    (named : Named p front name) (read : d.read p = .ok contents)
    (h : (copyStamped stamp p).perform d = (.ok b, d')) : b = target ∧
      Confined d d' {d.place target} {d.place dir} ∧ d'.read target = .ok contents := by
  obtain ⟨reaches, stands⟩ := read_ok_iff.mp read
  have parent := named.dir_of_read read
  have isFile : d.isFile p = true := isFile_iff.mpr ⟨reaches, contents, stands⟩
  rw [copyStamped, Action.perform_bind_ok] at h
  obtain ⟨_, _, asked, h⟩ := h
  cases asked
  rw [if_pos isFile, copy.path, Action.perform_bind_ok] at h
  obtain ⟨_, _, given, h⟩ := h
  cases given
  rw [copy.parent, Action.perform_bind_ok] at h
  obtain ⟨_, _, ensured, h⟩ := h
  rw [Action.perform_bind_ok] at h
  obtain ⟨again, d₁, fetched, h⟩ := h
  obtain ⟨readAgain, rfl⟩ := Action.perform_fetch_ok.mp fetched
  obtain ⟨_, d₂, written, h⟩ := Action.perform_bind_ok.mp h
  obtain rfl : target = b := by cases h; rfl
  obtain rfl : d₂ = d' := by cases h; rfl
  obtain ⟨made, isDir⟩ := copy.ensured named reaches parent ensured
  have same : again = contents := by
    have kept := made.read (fun inside => inside) read
    rw [readAgain] at kept
    exact Except.ok.inj kept
  subst same
  obtain ⟨f, targetNamed, inner⟩ := copy.targetNamed
  have parent₁ : d₁.look (walk (d₁.base target) (parts f)) = some .dir := by
    rw [inner, base_eq d₁ (copy.targetBase.trans copy.dirBase.symm)]
    exact (congrArg d₁.look (place_congr made.current dir)).trans isDir
  have into := puts_write targetNamed parent₁ (Action.perform_change_ok.mp written)
  have whole := made.trans (into.confined (by simp))
  rw [place_congr made.current] at whole
  refine ⟨rfl, whole.mono (by simp) (by simp), read_ok_iff.mpr ⟨?_, ?_⟩⟩
  · refine (into.confined (by simp)).reaches (copy.target_reaches ?_ ?_)
    · exact made.reaches (copy.dir_reaches named reaches)
    · rw [place_congr made.current]
      exact isDir
  · rw [place_congr into.current]
    exact into.here

theorem keep_ok {b : Option Path} (named : Named p front name) (read : d.read p = .ok contents)
    (noSlash : policy = .timestamped → '/' ∉ stamp)
    (h : (keep policy stamp p).perform d = (.ok b, d')) : Kept policy stamp p contents d b d' := by
  cases policy with
  | none =>
    cases h
    exact ⟨rfl, .refl _ _ _, fun q some_ => by cases some_⟩
  | origSuffix =>
    obtain ⟨q, moved, rfl⟩ := Action.perform_map_ok.mp h
    obtain ⟨rfl, confined, kept⟩ := moveToOrig_ok named read moved
    refine ⟨rfl, confined.mono ?_ (Set.empty_subset _), fun q same => ?_⟩
    · rintro place (inside | inside)
      · exact .inl inside
      · exact .inr ⟨_, rfl, inside⟩
    · cases same
      exact kept
  | timestamped =>
    obtain ⟨q, copied, rfl⟩ := Action.perform_map_ok.mp h
    obtain ⟨dir, target, copy⟩ := exists_copy named (noSlash rfl)
    obtain ⟨rfl, confined, kept⟩ := copyStamped_ok copy named read copied
    refine ⟨?_, confined.mono ?_ ?_, fun q' same => ?_⟩
    · rw [path?, copy.path]
      rfl
    · rintro place rfl
      exact .inr ⟨_, rfl, rfl⟩
    · rintro place rfl
      refine ⟨rfl, _, rfl, ?_⟩
      rw [copy.target_place, List.dropLast_concat]
    · cases same
      exact kept

/-- A stamp that a copy can have: all are of one length, and names of files can hold them. -/
structure IsStamp (stamp : Text) : Prop where
  length : stamp.length = 19
  noSlash : '/' ∉ stamp

theorem length_padded {digits n : Nat} (some_ : 0 < digits) (small : n < 10 ^ digits) :
    (Moment.padded digits n).length = digits := by
  have bound : (Text.ofNat n).length ≤ digits := Nat.toDigits_length 10 n digits some_ small
  rw [Moment.padded, List.length_append, List.length_replicate]
  omega

theorem slash_not_mem_padded (digits n : Nat) : '/' ∉ Moment.padded digits n := by
  intro slash
  rcases List.mem_append.mp slash with zero | digit
  · exact absurd (List.eq_of_mem_replicate zero) (by decide)
  · exact absurd (Nat.isDigit_of_mem_toDigits (by decide) (by decide) digit) (by decide)

/-- Moments up to the year 9999 have such stamps. -/
theorem isStamp_stamp {m : Moment} (year : m.year < 10000) (month : m.month < 100)
    (day : m.day < 100) (hour : m.hour < 100) (minute : m.minute < 100) (second : m.second < 100)
    (nanosecond : m.nanosecond < 1000000000) : IsStamp m.stamp := by
  have two {n : Nat} (small : n < 100) : (Moment.padded 2 n).length = 2 :=
    length_padded (by decide) small
  have four : (Moment.padded 4 m.year).length = 4 := length_padded (by decide) year
  have three : (Moment.padded 3 (m.nanosecond / 1000000)).length = 3 :=
    length_padded (by decide) (by omega)
  constructor
  · simp only [Moment.stamp, List.length_append, List.length_cons, four, two month, two day,
      two hour, two minute, two second, three]
  · simp [Moment.stamp, slash_not_mem_padded]

theorem path?_place (named : Named p front name) (noSlash : policy = .timestamped → '/' ∉ stamp)
    (h : path? policy stamp p = some q) (d : Disk) :
    policy = .origSuffix ∧
        d.place q = walk (d.base p) (parts front) ++ [name ++ ".orig".toList] ∨
      policy = .timestamped ∧
        d.place q = walk (d.base p) (parts front) ++ [directory] ++ [copyName name stamp] := by
  cases policy with
  | none => cases h
  | origSuffix =>
    cases h
    exact .inl ⟨rfl, orig_place named d⟩
  | timestamped =>
    obtain ⟨dir, target, copy⟩ := exists_copy named (noSlash rfl)
    rw [path?, copy.path] at h
    cases h
    exact .inr ⟨rfl, by rw [copy.target_place, copy.dir_place]⟩

theorem path?_place_ne (named : Named p front name)
    (noSlash : policy = .timestamped → '/' ∉ stamp) (h : path? policy stamp p = some q) (d : Disk) :
    d.place q ≠ d.place p := by
  intro same
  have size := congrArg List.length same
  rw [named.place] at size
  rcases path?_place named noSlash h d with ⟨rfl, place⟩ | ⟨rfl, place⟩
  · cases h
    exact orig_place_ne named d same.symm
  · rw [place, List.length_append, List.length_append, List.length_append] at size
    simp at size

end Backup

end MemberLift
