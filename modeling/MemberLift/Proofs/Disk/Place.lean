import MemberLift.Proofs.Disk.Names
import MemberLift.Proofs.Disk.Tree

/-!
The places that paths name.  A path names one place whatever stands there; looking it up follows
the path to that place through directories, or fails.
-/
namespace MemberLift.Disk

variable {d d' : Disk} {p q : Path} {front name : Text} {start next : Location}

def look (d : Disk) (place : Location) : Option Entry := d.root.look place

/-- The contents of the file at a place, if a file stands there. -/
def contents? (d : Disk) (place : Location) : Option Bytes :=
  match d.look place with
  | some (.file contents) => some contents
  | _ => none

theorem contents?_eq_some {place : Location} {contents : Bytes} :
    d.contents? place = some contents ↔ d.look place = some (.file contents) := by
  rw [contents?]
  cases d.look place with
  | none => simp
  | some e => cases e <;> simp

def stepTo (place : Location) (segment : Text) : Location :=
  if segment = dot then place
  else if segment = dotDot then place.dropLast
  else place ++ [segment]

def walk (place : Location) (segments : List Text) : Location := segments.foldl stepTo place

/-- The place that a path names, whatever is there. -/
def place (d : Disk) (p : Path) : Location := walk (d.base p) (segments p)

theorem stepTo_proper (proper : ProperName name) (place : Location) :
    stepTo place name = place ++ [name] := by
  rw [stepTo, if_neg proper.notHere, if_neg proper.notUp]

theorem walk_append (place : Location) (s t : List Text) :
    walk place (s ++ t) = walk (walk place s) t := List.foldl_append

theorem walk_dots (place : Location) (k : Nat) : walk place (List.replicate k dot) = place := by
  induction k with
  | zero => rfl
  | succ k ih => exact ih

theorem walk_append_dots (place : Location) (s : List Text) (k : Nat) :
    walk place (s ++ List.replicate k dot) = walk place s := by
  rw [walk_append, walk_dots]

theorem base_eq (d : Disk) (absolute : q.isAbsolute = p.isAbsolute) : d.base q = d.base p := by
  rw [base, base, absolute]

theorem base_congr (same : d'.current = d.current) (p : Path) : d'.base p = d.base p := by
  rw [base, base, same]

theorem place_congr (same : d'.current = d.current) (p : Path) : d'.place p = d.place p := by
  rw [Disk.place, Disk.place, base_congr same]

theorem Named.place (named : Named p front name) (d : Disk) :
    d.place p = walk (d.base p) (parts front) ++ [name] := by
  rw [Disk.place, named.segments, walk_append]
  exact stepTo_proper named.proper _

theorem enter_ok_iff {segment : Text} :
    d.enter start segment = .ok next ↔ next = stepTo start segment ∧
      (segment = dot ∨ segment = dotDot ∨ d.look (start ++ [segment]) = some .dir) := by
  rw [enter, stepTo, look, Node.look]
  by_cases here : segment = dot
  · simp [here, eq_comm]
  · by_cases up : segment = dotDot
    · simp [up, show dotDot ≠ dot by decide, eq_comm]
    · rw [if_neg here, if_neg up, if_neg here, if_neg up]
      cases there : d.root.get? (start ++ [segment]) with
      | none => simp [here, up]
      | some node =>
        cases node with
        | file contents => simp [here, up, Node.entry]
        | dir entries => simp [Node.entry, eq_comm]

theorem enter_proper (proper : ProperName name) :
    d.enter start name = .ok (start ++ [name]) ↔ d.look (start ++ [name]) = some .dir := by
  rw [enter_ok_iff, stepTo_proper proper]
  simp [proper.notHere, proper.notUp]

theorem enterAll_append (d : Disk) (start : Location) (s t : List Text) :
    d.enterAll start (s ++ t) = (d.enterAll start s).bind fun next => d.enterAll next t := by
  induction s generalizing start with
  | nil => rfl
  | cons segment s ih =>
    rw [List.cons_append, enterAll, enterAll]
    cases d.enter start segment with
    | error fault => rfl
    | ok next => exact ih next

theorem enterAll_ok {segments : List Text} (h : d.enterAll start segments = .ok next) :
    next = walk start segments := by
  induction segments generalizing start with
  | nil =>
    cases h
    rfl
  | cons segment segments ih =>
    rw [enterAll] at h
    cases entered : d.enter start segment with
    | error fault => rw [entered] at h; cases h
    | ok inner =>
      rw [entered] at h
      rw [ih h, (enter_ok_iff.mp entered).1]
      rfl

theorem enterAll_mono (dirs : ∀ place, d.look place = some .dir → d'.look place = some .dir)
    {segments : List Text} (h : d.enterAll start segments = .ok next) :
    d'.enterAll start segments = .ok next := by
  induction segments generalizing start with
  | nil => exact h
  | cons segment segments ih =>
    rw [enterAll] at h ⊢
    cases entered : d.enter start segment with
    | error fault => rw [entered] at h; cases h
    | ok inner =>
      have entered' : d'.enter start segment = .ok inner := by
        obtain ⟨same, allowed⟩ := enter_ok_iff.mp entered
        exact enter_ok_iff.mpr ⟨same, allowed.imp_right fun rest => rest.imp_right (dirs _)⟩
      rw [entered] at h
      rw [entered']
      exact ih h

theorem enterAll_dots (d : Disk) (start : Location) (k : Nat) :
    d.enterAll start (List.replicate k dot) = .ok start := by
  induction k with
  | zero => rfl
  | succ k ih =>
    rw [List.replicate_succ, enterAll, enter, if_pos rfl]
    exact ih

/-- Whether a path can be followed to its place. -/
def Reaches (d : Disk) (p : Path) : Prop := d.locate p = .ok (d.place p)

instance (d : Disk) (p : Path) : Decidable (d.Reaches p) :=
  inferInstanceAs (Decidable (_ = _))

theorem Named.locate (named : Named p front name) (d : Disk) :
    d.locate p = (d.enterAll (d.base p) (parts front)).map (· ++ [name]) := by
  rw [Disk.locate, if_neg (by simp [named.text_ne_nil]), named.lastName?, named.segments,
    List.dropLast_concat]

theorem locate_ok (h : d.locate p = .ok next) : next = d.place p := by
  cases last : lastName? p with
  | some name =>
    obtain ⟨front, named⟩ := named_of_lastName last
    rw [named.locate] at h
    cases entered : d.enterAll (d.base p) (parts front) with
    | error fault => rw [entered] at h; cases h
    | ok inner =>
      rw [entered] at h
      cases h
      rw [named.place, enterAll_ok entered]
  | none =>
    rw [locate, last] at h
    split at h
    · cases h
    · exact enterAll_ok h

theorem reaches_iff : d.Reaches p ↔ ∃ next, d.locate p = .ok next := by
  constructor
  · intro reaches
    exact ⟨_, reaches⟩
  · rintro ⟨next, h⟩
    rw [Reaches, h, locate_ok h]

theorem Reaches.mono (dirs : ∀ place, d.look place = some .dir → d'.look place = some .dir)
    (same : d'.current = d.current) (reaches : d.Reaches p) : d'.Reaches p := by
  rw [reaches_iff]
  obtain ⟨next, h⟩ := reaches_iff.mp reaches
  refine ⟨next, ?_⟩
  rw [locate] at h ⊢
  split at h
  · cases h
  · rename_i nonempty
    rw [if_neg nonempty, base_congr same]
    split at h
    · exact enterAll_mono dirs h
    · cases entered : d.enterAll (d.base p) (segments p).dropLast with
      | error fault => rw [entered] at h; cases h
      | ok inner =>
        rw [entered] at h
        rw [enterAll_mono dirs entered]
        exact h

theorem Named.reaches_iff (named : Named p front name) :
    d.Reaches p ↔ d.enterAll (d.base p) (parts front) = .ok (walk (d.base p) (parts front)) := by
  rw [Disk.reaches_iff, named.locate]
  cases entered : d.enterAll (d.base p) (parts front) with
  | error fault => simp [Except.map]
  | ok inner => simp [Except.map, enterAll_ok entered]

theorem reaches_of_enterAll (nonempty : p.text ≠ [])
    (h : d.enterAll (d.base p) (segments p) = .ok next) : d.Reaches p := by
  cases last : lastName? p with
  | some name =>
    obtain ⟨front, named⟩ := named_of_lastName last
    rw [named.segments, enterAll_append] at h
    rw [named.reaches_iff]
    cases entered : d.enterAll (d.base p) (parts front) with
    | error fault => rw [entered] at h; cases h
    | ok inner => rw [enterAll_ok entered]
  | none =>
    rw [Disk.reaches_iff, locate, if_neg (by simpa using nonempty), last]
    exact ⟨_, h⟩

theorem enterAll_append_dots (d : Disk) (start : Location) (s : List Text) (k : Nat) :
    d.enterAll start (s ++ List.replicate k dot) = d.enterAll start s := by
  rw [enterAll_append]
  cases d.enterAll start s with
  | error fault => rfl
  | ok next => exact enterAll_dots d next k

theorem Named.enterAll (named : Named p front name) (reaches : d.Reaches p)
    (dir : d.look (d.place p) = some .dir) :
    d.enterAll (d.base p) (Disk.segments p) = .ok (d.place p) := by
  rw [named.place] at dir ⊢
  rw [named.segments, enterAll_append, named.reaches_iff.mp reaches, Except.bind, Disk.enterAll,
    (enter_proper named.proper).mpr dir]
  rfl

def Stands (d : Disk) : Prop := d.look d.current = some .dir

instance (d : Disk) : Decidable d.Stands := inferInstanceAs (Decidable (_ = _))

theorem look_base (stands : d.Stands) (p : Path) : d.look (d.base p) = some .dir := by
  rw [base]
  split
  · exact @Node.look_front d.root [] d.current stands
  · exact stands

theorem look_of_enterAll {segments : List Text} (h : d.enterAll start segments = .ok next)
    (dir : d.look start = some .dir) : d.look next = some .dir := by
  induction segments generalizing start with
  | nil =>
    cases h
    exact dir
  | cons segment segments ih =>
    rw [Disk.enterAll] at h
    cases entered : d.enter start segment with
    | error fault => rw [entered] at h; cases h
    | ok inner =>
      rw [entered] at h
      refine ih h ?_
      obtain ⟨rfl, allowed⟩ := enter_ok_iff.mp entered
      rw [stepTo]
      split
      · exact dir
      · rename_i notHere
        split
        · have whole := List.take_append_drop (start.length - 1) start
          rw [List.dropLast_eq_take]
          exact @Node.look_front d.root _ (start.drop (start.length - 1)) (whole.symm ▸ dir)
        · rename_i notUp
          exact (allowed.resolve_left notHere).resolve_left notUp

theorem find_ok_iff {node : Node} :
    d.find p = .ok node ↔ d.Reaches p ∧ d.root.get? (d.place p) = some node := by
  rw [find, Reaches]
  cases followed : d.locate p with
  | error fault => simp
  | ok next =>
    rw [locate_ok followed]
    cases there : d.root.get? (d.place p) with
    | none => simp [there]
    | some other => simp [there]

theorem look_file_iff {place : Location} {contents : Bytes} :
    d.look place = some (.file contents) ↔ d.root.get? place = some (.file contents) := by
  rw [look, Node.look]
  cases d.root.get? place with
  | none => simp
  | some node => cases node <;> simp [Node.entry]

theorem look_dir_iff {place : Location} :
    d.look place = some .dir ↔ ∃ entries, d.root.get? place = some (.dir entries) := by
  rw [look, Node.look]
  cases d.root.get? place with
  | none => simp
  | some node => cases node <;> simp [Node.entry]

theorem read_ok_iff {contents : Bytes} :
    d.read p = .ok contents ↔ d.Reaches p ∧ d.look (d.place p) = some (.file contents) := by
  rw [look_file_iff, ← find_ok_iff, read]
  cases d.find p with
  | error fault => simp
  | ok node => cases node <;> simp

theorem exists?_iff : d.exists? p = true ↔ d.Reaches p ∧ d.look (d.place p) ≠ none := by
  rw [exists?, look, Node.look, ne_eq, Option.map_eq_none_iff, ← ne_eq, Option.ne_none_iff_exists']
  constructor
  · intro h
    cases found : d.find p with
    | error fault => rw [found] at h; cases h
    | ok node => exact ⟨(find_ok_iff.mp found).1, node, (find_ok_iff.mp found).2⟩
  · rintro ⟨reaches, node, there⟩
    rw [find_ok_iff.mpr ⟨reaches, there⟩]
    rfl

theorem isDir_iff : d.isDir p = true ↔ d.Reaches p ∧ d.look (d.place p) = some .dir := by
  rw [look_dir_iff, isDir]
  constructor
  · intro h
    split at h
    · rename_i entries found
      exact ⟨(find_ok_iff.mp found).1, entries, (find_ok_iff.mp found).2⟩
    · cases h
  · rintro ⟨reaches, entries, there⟩
    rw [find_ok_iff.mpr ⟨reaches, there⟩]

theorem isFile_iff :
    d.isFile p = true ↔ d.Reaches p ∧ ∃ contents, d.look (d.place p) = some (.file contents) := by
  simp only [look_file_iff]
  rw [isFile]
  constructor
  · intro h
    split at h
    · rename_i contents found
      exact ⟨(find_ok_iff.mp found).1, contents, (find_ok_iff.mp found).2⟩
    · cases h
  · rintro ⟨reaches, contents, there⟩
    rw [find_ok_iff.mpr ⟨reaches, there⟩]

theorem named_of_read (stands : d.Stands) {contents : Bytes} (h : d.read p = .ok contents) :
    ∃ front name, Named p front name := by
  cases last : lastName? p with
  | some name =>
    obtain ⟨front, named⟩ := named_of_lastName last
    exact ⟨front, name, named⟩
  | none =>
    obtain ⟨reaches, file⟩ := read_ok_iff.mp h
    rw [Reaches, locate, last] at reaches
    split at reaches
    · cases reaches
    · rw [look_of_enterAll reaches (look_base stands p)] at file
      cases file

end MemberLift.Disk
