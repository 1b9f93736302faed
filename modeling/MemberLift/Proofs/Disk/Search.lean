import MemberLift.Disk.Search
import Mathlib.Data.Char
import Mathlib.Data.List.Lex
import Mathlib.Data.List.Nodup
import Mathlib.Data.Prod.Lex
import MemberLift.Proofs.Disk.Action

/-!
The files that a search finds.  Which places a tree has files at, apart from skipped directories, is
read off the tree place by place (`mem_files_iff`).  The paths of these places are in order, and the
order in which the tree lists its directories does not matter (`filesWhere_exact`).
-/
namespace MemberLift

namespace Path

/-- The root, a leading dot and steps up come before all names. -/
def Component.key : Component → Nat ×ₗ Text
  | .root => toLex (0, [])
  | .here => toLex (1, [])
  | .up => toLex (2, [])
  | .name text => toLex (3, text)

/-- Whether a path comes before another one, component by component. -/
def Before (p q : Path) : Prop :=
  p.components.map Component.key < q.components.map Component.key

theorem Before.ne {p q : Path} (h : p.Before q) : p ≠ q := by
  rintro rfl
  exact lt_irrefl _ h

end Path

namespace Search

open Disk (ProperName)

-- The library's lemma of this name is about the order of lists that the linear order replaces.
theorem cons_le_cons_iff {α : Type} [LinearOrder α] {a b : α} {s t : List α} :
    a :: s ≤ b :: t ↔ a < b ∨ a = b ∧ s ≤ t := by
  rw [← not_lt, List.cons_lt_cons_iff, ← not_lt]
  rcases lt_trichotomy a b with less | rfl | more
  · simp [less, less.not_gt, less.ne']
  · simp
  · simp [more, more.not_gt, more.ne']

theorem nil_le {α : Type} [LinearOrder α] (s : List α) : [] ≤ s :=
  not_lt.mp (List.not_lt_nil s)

theorem not_cons_le_nil {α : Type} [LinearOrder α] (a : α) (s : List α) : ¬a :: s ≤ [] :=
  not_le.mpr (List.nil_lt_cons a s)

theorem textLe_iff {s t : Text} : textLe s t = true ↔ s ≤ t := by
  induction s generalizing t with
  | nil => exact ⟨fun _ => nil_le t, fun _ => rfl⟩
  | cons a s ih =>
    cases t with
    | nil => exact ⟨fun h => (Bool.false_ne_true h).elim, fun h => absurd h (not_cons_le_nil a s)⟩
    | cons b t =>
      rw [textLe, cons_le_cons_iff, Bool.or_eq_true, Bool.and_eq_true, decide_eq_true_eq,
        decide_eq_true_eq, ih]

theorem locationLe_iff {s t : Location} : locationLe s t = true ↔ s ≤ t := by
  induction s generalizing t with
  | nil => exact ⟨fun _ => nil_le t, fun _ => rfl⟩
  | cons a s ih =>
    cases t with
    | nil => exact ⟨fun h => (Bool.false_ne_true h).elim, fun h => absurd h (not_cons_le_nil a s)⟩
    | cons b t =>
      rw [locationLe, cons_le_cons_iff]
      split
      · rename_i same
        rw [ih]
        exact ⟨fun h => .inr ⟨same, h⟩, fun h => (h.resolve_left same.not_lt).2⟩
      · rename_i other
        rw [textLe_iff]
        exact ⟨fun h => .inl (lt_of_le_of_ne h other), fun h => h.elim le_of_lt fun h => h.1.le⟩

theorem components_pathBelow (root : Path) {place : Location}
    (proper : ∀ name ∈ place, ProperName name) :
    (pathBelow root place).components = root.components ++ place.map Path.Component.name := by
  induction place generalizing root with
  | nil => exact (List.append_nil _).symm
  | cons name place ih =>
    obtain ⟨first, behind⟩ := List.forall_mem_cons.mp proper
    have longer : pathBelow root (name :: place) = pathBelow (root.joinText name) place := rfl
    rw [longer, ih _ behind, Disk.components_joinText root first, List.append_assoc,
      List.singleton_append, List.map_cons]

theorem before_pathBelow (root : Path) {place place' : Location}
    (proper : ∀ name ∈ place, ProperName name) (proper' : ∀ name ∈ place', ProperName name)
    (less : place < place') : (pathBelow root place).Before (pathBelow root place') := by
  rw [Path.Before, components_pathBelow root proper, components_pathBelow root proper',
    List.map_append, List.map_append, List.map_map, List.map_map]
  apply List.append_left_lt
  refine List.map_lt (fun name name' less => ?_) less
  exact Prod.Lex.toLex_lt_toLex.mpr (.inr ⟨rfl, less⟩)

end Search

namespace Node

open Disk (ProperName)

variable {n n' : Node} {entries : List (Text × Node)} {name : Text} {place : Location}
  {skip : Text → Bool}

/-- Whether the names in every directory are different and can stand in paths. -/
inductive WellNamed : Node → Prop where
  | file {contents : Bytes} : WellNamed (.file contents)
  | dir {entries : List (Text × Node)} (different : (entries.map Prod.fst).Nodup)
      (proper : ∀ entry ∈ entries, ProperName entry.1)
      (below : ∀ entry ∈ entries, WellNamed entry.2) : WellNamed (.dir entries)

theorem WellNamed.proper (named : WellNamed n) (there : n.look place ≠ none) :
    ∀ name ∈ place, ProperName name := by
  induction named generalizing place with
  | file =>
    cases place with
    | nil => exact fun _ inside => absurd inside List.not_mem_nil
    | cons name rest => exact absurd rfl there
  | dir different proper _ ih =>
    cases place with
    | nil => exact fun _ inside => absurd inside List.not_mem_nil
    | cons name rest =>
      obtain ⟨_, child, whole, found, same⟩ := look_cons there
      cases whole
      have inside := (Entries.lookup_eq_some_iff different).mp found
      exact List.forall_mem_cons.mpr ⟨proper _ inside, ih _ inside (same ▸ there)⟩

/-- The places that an entry adds to those of its directory. -/
def filesOf (skip : Text → Bool) (entry : Text × Node) : List Location :=
  if entry.2.isDir && skip entry.1 then [] else (entry.2.files skip).map (entry.1 :: ·)

theorem mem_filesOf {entry : Text × Node} : place ∈ filesOf skip entry ↔
    (entry.2.isDir = true → skip entry.1 = false) ∧
      ∃ rest ∈ entry.2.files skip, entry.1 :: rest = place := by
  rw [filesOf]
  split
  · rename_i skipped
    rw [Bool.and_eq_true] at skipped
    simp [skipped.1, skipped.2]
  · rename_i kept
    have kept : entry.2.isDir = true → skip entry.1 = false := by
      simpa [Bool.and_eq_true] using kept
    rw [List.mem_map, and_iff_right kept]

theorem files_dir (skip : Text → Bool) (entries : List (Text × Node)) :
    (Node.dir entries).files skip = entries.flatMap (filesOf skip) := by
  rw [files]
  induction entries with
  | nil => rw [filesIn, List.flatMap_nil]
  | cons head rest ih => rw [filesIn, ih, List.flatMap_cons, filesOf]

theorem get?_append (n : Node) (front rest : Location) :
    n.get? (front ++ rest) = (n.get? front).bind fun inner => inner.get? rest := by
  induction front generalizing n with
  | nil => rfl
  | cons name front ih =>
    cases n with
    | file contents => rfl
    | dir entries =>
      rw [List.cons_append, get?, get?]
      cases entries.lookup name with
      | none => rfl
      | some child => exact ih child

theorem isDir_iff_of_look {contents : Bytes} (file : n.look place = some (.file contents)) :
    n.isDir = true ↔ place ≠ [] := by
  cases n with
  | file contents =>
    cases place with
    | nil => exact ⟨fun h => (Bool.false_ne_true h).elim, fun h => absurd rfl h⟩
    | cons name rest => cases file
  | dir entries =>
    refine ⟨fun _ empty => ?_, fun _ => rfl⟩
    rw [empty] at file
    cases file

theorem forall_dropLast_cons {P : Text → Prop} :
    (∀ a ∈ (name :: place).dropLast, P a) ↔ (place ≠ [] → P name) ∧ ∀ a ∈ place.dropLast, P a := by
  cases place with
  | nil => simp
  | cons next rest => simp

/-- The files are those in no skipped directory; their own names and that of the tree do not
matter. -/
theorem mem_files_iff (named : WellNamed n) : place ∈ n.files skip ↔
    (∃ contents, n.look place = some (.file contents)) ∧
      ∀ name ∈ place.dropLast, skip name = false := by
  induction named generalizing place with
  | @file contents =>
    rw [files, List.mem_singleton]
    cases place with
    | nil => exact ⟨fun _ => ⟨⟨contents, rfl⟩, fun _ inside => absurd inside List.not_mem_nil⟩,
        fun _ => rfl⟩
    | cons name rest =>
      refine ⟨fun same => absurd same (List.cons_ne_nil _ _), ?_⟩
      rintro ⟨⟨_, file⟩, _⟩
      cases file
  | @dir entries different _ _ ih =>
    simp only [files_dir, List.mem_flatMap, mem_filesOf]
    -- the name in front is that of a directory exactly if the place goes on behind it
    constructor
    · rintro ⟨⟨name, node⟩, inside, kept, rest, listed, rfl⟩
      obtain ⟨⟨contents, file⟩, behind⟩ := (ih _ inside).mp listed
      have found := (Entries.lookup_eq_some_iff different).mpr inside
      refine ⟨⟨contents, by rw [look_dir, found]; exact file⟩, ?_⟩
      exact forall_dropLast_cons.mpr ⟨kept ∘ (isDir_iff_of_look file).mpr, behind⟩
    · rintro ⟨⟨contents, file⟩, kept⟩
      cases place with
      | nil => cases file
      | cons name rest =>
        rw [look_dir, Option.bind_eq_some_iff] at file
        obtain ⟨node, found, file⟩ := file
        have inside := (Entries.lookup_eq_some_iff different).mp found
        obtain ⟨first, behind⟩ := forall_dropLast_cons.mp kept
        exact ⟨(name, node), inside, first ∘ (isDir_iff_of_look file).mp, rest,
          (ih _ inside).mpr ⟨⟨contents, file⟩, behind⟩, rfl⟩

theorem nodup_files (named : WellNamed n) : (n.files skip).Nodup := by
  induction named with
  | file =>
    rw [files]
    exact List.pairwise_singleton _ _
  | @dir entries different _ _ ih =>
    rw [files_dir, List.nodup_flatMap]
    constructor
    · intro entry inside
      rw [filesOf]
      split
      · exact List.nodup_nil
      · exact (ih entry inside).map fun _ _ same => (List.cons.inj same).2
    · -- places of different entries begin with different names
      refine (List.pairwise_map.mp different).imp fun other place inside inside' => other ?_
      obtain ⟨_, _, _, rfl⟩ := mem_filesOf.mp inside
      obtain ⟨_, _, _, same⟩ := mem_filesOf.mp inside'
      exact (List.cons.inj same).1.symm

/-- Whether two trees differ in the order of the entries in their directories at most. -/
inductive Reordered : Node → Node → Prop where
  | refl (n : Node) : Reordered n n
  | trans {a b c : Node} (first : Reordered a b) (second : Reordered b c) : Reordered a c
  | entries {entries entries' : List (Text × Node)} (perm : entries.Perm entries') :
      Reordered (.dir entries) (.dir entries')
  | inside {name : Text} {n n' : Node} (below : Reordered n n')
      (front behind : List (Text × Node)) :
      Reordered (.dir (front ++ (name, n) :: behind)) (.dir (front ++ (name, n') :: behind))

theorem Reordered.isDir (same : Reordered n n') : n.isDir = n'.isDir := by
  induction same with
  | refl => rfl
  | trans _ _ ih ih' => exact ih.trans ih'
  | entries => rfl
  | inside => rfl

theorem Reordered.files (same : Reordered n n') (skip : Text → Bool) :
    (n.files skip).Perm (n'.files skip) := by
  induction same with
  | refl => exact .refl _
  | trans _ _ ih ih' => exact ih.trans ih'
  | entries perm =>
    rw [files_dir, files_dir]
    exact perm.flatMap_right _
  | inside below front behind ih =>
    rw [files_dir, files_dir, List.flatMap_append, List.flatMap_append, List.flatMap_cons,
      List.flatMap_cons]
    refine .append_left _ (.append_right _ ?_)
    rw [filesOf, filesOf, below.isDir]
    split
    · exact .refl _
    · exact ih.map _

end Node

namespace Disk

open Search (pathBelow)

variable {d : Disk} {p : Path} {place : Location} {contents : Bytes}

theorem enterAll_of_dir (reaches : d.Reaches p) (dir : d.look (d.place p) = some .dir) :
    d.enterAll (d.base p) (segments p) = .ok (d.place p) := by
  cases last : lastName? p with
  | some name =>
    obtain ⟨front, named⟩ := named_of_lastName last
    exact named.enterAll reaches dir
  | none =>
    rw [Reaches, locate, last] at reaches
    split at reaches
    · cases reaches
    · exact reaches

theorem find_pathBelow (proper : ∀ name ∈ place, ProperName name) (nonempty : place ≠ [])
    (entered : d.enterAll (d.base p) (segments p) = .ok (d.place p))
    (file : d.look (d.place p ++ place) = some (.file contents)) :
    d.find (pathBelow p place) = .ok (.file contents) := by
  induction place generalizing p with
  | nil => exact absurd rfl nonempty
  | cons name rest ih =>
    obtain ⟨first, behind⟩ := List.forall_mem_cons.mp proper
    obtain ⟨front, named, same, absolute⟩ := named_joinText p first
    have base : d.base (p.joinText name) = d.base p := base_eq d absolute
    have here : d.place p = walk (d.base p) (parts p.text) := rfl
    have place : d.place (p.joinText name) = d.place p ++ [name] := by
      rw [named.place, base, same, here]
    have reaches : d.Reaches (p.joinText name) := by
      rw [named.reaches_iff, base, same, ← here]
      exact entered
    cases rest with
    | nil =>
      rw [← place, look_file_iff] at file
      exact find_ok_iff.mpr ⟨reaches, file⟩
    | cons next rest =>
      have dir : d.look (d.place (p.joinText name)) = some .dir := by
        rw [place]
        rw [List.append_cons] at file
        exact Node.look_above (by rw [← Disk.look, file]; exact Option.some_ne_none _)
      rw [List.append_cons, ← place] at file
      exact ih behind (List.cons_ne_nil _ _) (named.enterAll reaches dir) file

theorem look_append {n : Node} (h : d.root.get? (d.place p) = some n) (place : Location) :
    d.look (d.place p ++ place) = n.look place := by
  rw [look, Node.look, Node.look, Node.get?_append, h, Option.bind_some]

end Disk

namespace Search

open MemberLift.Action Node

variable {n n' : Node} {skip wanted : Text → Bool} {place : Location}

theorem perm_placesBelow (skip wanted : Text → Bool) (n : Node) :
    (placesBelow skip wanted n).Perm
      ((n.files skip).filter fun place => wanted (relativeText place)) :=
  List.mergeSort_perm _ _

theorem mem_placesBelow (named : WellNamed n) : place ∈ placesBelow skip wanted n ↔
    (∃ contents, n.look place = some (.file contents)) ∧ wanted (relativeText place) = true ∧
      ∀ name ∈ place.dropLast, skip name = false := by
  rw [(perm_placesBelow skip wanted n).mem_iff, List.mem_filter, mem_files_iff named, and_assoc,
    and_comm (a := ∀ name ∈ place.dropLast, skip name = false)]

theorem sorted_placesBelow (skip wanted : Text → Bool) (n : Node) :
    (placesBelow skip wanted n).Pairwise (· ≤ ·) := by
  have trans (s t u : Location) (h : locationLe s t = true) (h' : locationLe t u = true) :
      locationLe s u = true :=
    locationLe_iff.mpr (le_trans (locationLe_iff.mp h) (locationLe_iff.mp h'))
  have total (s t : Location) : (locationLe s t || locationLe t s) = true := by
    rw [Bool.or_eq_true, locationLe_iff, locationLe_iff]
    exact le_total s t
  exact (List.pairwise_mergeSort trans total _).imp locationLe_iff.mp

theorem strict_placesBelow (named : WellNamed n) :
    (placesBelow skip wanted n).Pairwise (· < ·) := by
  have different : (placesBelow skip wanted n).Nodup :=
    (perm_placesBelow skip wanted n).nodup_iff.mpr ((nodup_files named).filter _)
  exact ((sorted_placesBelow skip wanted n).and different).imp fun h => lt_of_le_of_ne h.1 h.2

theorem placesBelow_reordered (same : Reordered n n') :
    placesBelow skip wanted n = placesBelow skip wanted n' := by
  have perm : (placesBelow skip wanted n).Perm (placesBelow skip wanted n') :=
    (perm_placesBelow skip wanted n).trans
      (((same.files skip).filter _).trans (perm_placesBelow skip wanted n').symm)
  exact perm.eq_of_pairwise (fun _ _ _ _ => le_antisymm) (sorted_placesBelow ..)
    (sorted_placesBelow ..)

theorem filesWhere_of_dir {d : Disk} {root : Path} {entries : List (Text × Node)}
    (found : d.find root = .ok (.dir entries)) (excluded : List Text) (wanted : Text → Bool) :
    (filesWhere root excluded wanted).perform d =
      (.ok ((placesBelow (fun name => (Path.mk name).hasComponentIn excluded) wanted
        (.dir entries)).map (pathBelow root)), d) := by
  rw [filesWhere, perform_bind, perform_query, found]
  rfl

theorem proper_of_look {d : Disk} {root : Path} {contents : Bytes}
    (there : d.root.get? (d.place root) = some n) (named : WellNamed n)
    (file : d.look (d.place root ++ place) = some (.file contents)) :
    ∀ name ∈ place, Disk.ProperName name := by
  rw [Disk.look_append there] at file
  exact named.proper (by rw [file]; exact Option.some_ne_none _)

theorem mem_found {d : Disk} {root : Path} (there : d.root.get? (d.place root) = some n)
    (named : WellNamed n) (excluded : List Text) :
    place ∈ placesBelow (fun name => (Path.mk name).hasComponentIn excluded) wanted n ↔
      (∃ contents, d.look (d.place root ++ place) = some (.file contents)) ∧
        wanted (relativeText place) = true ∧ ∀ name ∈ place.dropLast, name ∉ excluded := by
  rw [mem_placesBelow named, Disk.look_append there]
  apply and_congr_right
  rintro ⟨contents, stands⟩
  rw [← Disk.look_append there] at stands
  apply and_congr_right
  intro _
  refine forall₂_congr fun name inside => ?_
  have proper := proper_of_look there named stands name (List.dropLast_subset _ inside)
  rw [Disk.hasComponentIn_of_proper proper, List.contains_eq_mem, decide_eq_false_iff_not]

theorem before_found {d : Disk} {root : Path} (there : d.root.get? (d.place root) = some n)
    (named : WellNamed n) (excluded : List Text) (wanted : Text → Bool) :
    ((placesBelow (fun name => (Path.mk name).hasComponentIn excluded) wanted n).map
      (pathBelow root)).Pairwise Path.Before := by
  refine List.pairwise_map.mpr ((strict_placesBelow named).imp_of_mem ?_)
  intro place place' inside inside' less
  obtain ⟨⟨_, file⟩, _⟩ := (mem_found there named excluded).mp inside
  obtain ⟨⟨_, file'⟩, _⟩ := (mem_found there named excluded).mp inside'
  have proper := proper_of_look there named file
  have proper' := proper_of_look there named file'
  exact before_pathBelow root proper proper' less

/-- Exactly the wanted files in no excluded directory below the root are found, each once and in
order.  The names of the files and of the root are never looked for among the excluded ones. -/
theorem filesWhere_exact {d : Disk} {root : Path} {entries : List (Text × Node)}
    (found : d.find root = .ok (.dir entries)) (named : WellNamed (.dir entries))
    (excluded : List Text) (wanted : Text → Bool) :
    ∃ paths, (filesWhere root excluded wanted).perform d = (.ok paths, d) ∧
      (∀ p, p ∈ paths ↔ ∃ place contents, p = pathBelow root place ∧
        d.look (d.place root ++ place) = some (.file contents) ∧
        wanted (relativeText place) = true ∧ ∀ name ∈ place.dropLast, name ∉ excluded) ∧
      (∀ p ∈ paths, d.isFile p = true) ∧
      paths.Pairwise Path.Before ∧ paths.Nodup ∧
      ∀ d' entries', d'.find root = .ok (.dir entries') →
        Reordered (.dir entries) (.dir entries') →
        (filesWhere root excluded wanted).perform d' = (.ok paths, d') := by
  obtain ⟨reaches, there⟩ := Disk.find_ok_iff.mp found
  have entered := Disk.enterAll_of_dir reaches (Disk.look_dir_iff.mpr ⟨entries, there⟩)
  have ordered := before_found there named excluded wanted
  refine ⟨_, filesWhere_of_dir found excluded wanted, fun p => ?_, fun p listed => ?_, ordered,
    ordered.imp Path.Before.ne, fun d' entries' found' same => ?_⟩
  · rw [List.mem_map]
    constructor
    · rintro ⟨place, inside, rfl⟩
      obtain ⟨⟨contents, file⟩, rest⟩ := (mem_found there named excluded).mp inside
      exact ⟨place, contents, rfl, file, rest⟩
    · rintro ⟨place, contents, rfl, file, rest⟩
      exact ⟨place, (mem_found there named excluded).mpr ⟨⟨contents, file⟩, rest⟩, rfl⟩
  · obtain ⟨place, inside, rfl⟩ := List.mem_map.mp listed
    obtain ⟨⟨contents, file⟩, _⟩ := (mem_found there named excluded).mp inside
    have nonempty : place ≠ [] := by
      rintro rfl
      rw [Disk.look_append there] at file
      cases file
    rw [Disk.isFile, Disk.find_pathBelow (proper_of_look there named file) nonempty entered file]
  · rw [filesWhere_of_dir found' excluded wanted, placesBelow_reordered same]

def builtEntries : List (Text × Node) :=
  [("src".toList, .dir [("build".toList, .file []), ("b.hpp".toList, .file [])]),
    (".git".toList, .dir [("d.hpp".toList, .file [])]), ("a.hpp".toList, .file [])]

def builtDisk (entries : List (Text × Node)) : Disk := ⟨.dir [("build".toList, .dir entries)], []⟩

theorem wellNamed_built : WellNamed (.dir builtEntries) := by
  have src : WellNamed (.dir [("build".toList, .file []), ("b.hpp".toList, .file [])]) :=
    .dir (by decide) (by decide)
      (List.forall_mem_cons.mpr ⟨.file, List.forall_mem_singleton.mpr .file⟩)
  have git : WellNamed (.dir [("d.hpp".toList, .file [])]) :=
    .dir (by decide) (by decide) (List.forall_mem_singleton.mpr .file)
  exact .dir (by decide) (by decide) (List.forall_mem_cons.mpr
    ⟨src, List.forall_mem_cons.mpr ⟨git, List.forall_mem_singleton.mpr .file⟩⟩)

theorem filesWhere_exact_build :
    (builtDisk builtEntries).find (.ofString "build") = .ok (.dir builtEntries) ∧
      WellNamed (.dir builtEntries) ∧
      Reordered (.dir builtEntries) (.dir builtEntries.reverse) ∧
      ∃ paths, (filesWhere (.ofString "build") excludedNames fun _ => true).perform
          (builtDisk builtEntries) = (.ok paths, builtDisk builtEntries) ∧
        paths.Pairwise Path.Before ∧
        (filesWhere (.ofString "build") excludedNames fun _ => true).perform
          (builtDisk builtEntries.reverse) = (.ok paths, builtDisk builtEntries.reverse) := by
  have found (entries : List (Text × Node)) :
      (builtDisk entries).find (.ofString "build") = .ok (.dir entries) := rfl
  have same : Reordered (.dir builtEntries) (.dir builtEntries.reverse) :=
    .entries (List.reverse_perm _).symm
  obtain ⟨paths, performed, _, _, ordered, _, reordered⟩ :=
    filesWhere_exact (found builtEntries) wellNamed_built excludedNames fun _ => true
  exact ⟨found builtEntries, wellNamed_built, same, paths, performed, ordered,
    reordered _ _ (found builtEntries.reverse) same⟩

example : ((filesWhere (.ofString "build") excludedNames fun _ => true).perform
    (builtDisk builtEntries)).1.toOption =
      some (["build/a.hpp", "build/src/b.hpp", "build/src/build"].map Path.ofString) := by
  cbv

end Search

end MemberLift
