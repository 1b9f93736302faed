import Mathlib.Data.Set.Basic
import MemberLift.Proofs.Disk.Place

/-!
What changes of a disk leave alone.  `Puts` is the effect of a single change: another thing stands
at one place.  `Confined` is what is left of it when changes follow each other: files outside of
the touched places stay as they were, and directories are only made.
-/
namespace MemberLift.Disk

open Function

variable {d d₁ d' : Disk} {p q : Path} {front name : Text} {place : Location} {e : Option Entry}
  {touched touched' made made' : Set Location} {contents : Bytes}

/-- What stands at one place, where no directory was, is replaced. -/
structure Puts (d d' : Disk) (place : Location) (e : Option Entry) : Prop where
  current : d'.current = d.current
  look : d'.look = update d.look place e
  notDir : d.look place ≠ some .dir

theorem Puts.here (puts : Puts d d' place e) : d'.look place = e := by
  rw [puts.look, update_self]

theorem Puts.elsewhere (puts : Puts d d' place e) {other : Location} (different : other ≠ place) :
    d'.look other = d.look other := by
  rw [puts.look, update_of_ne different]

/-- The touched places apart, everything is as it was or a directory that was made where nothing
was; directories stay. -/
structure Confined (d d' : Disk) (touched made : Set Location) : Prop where
  current : d'.current = d.current
  dirs : ∀ place, d.look place = some .dir → d'.look place = some .dir
  newDirs : ∀ place, d'.look place = some .dir → d.look place = some .dir ∨ place ∈ made
  elsewhere : ∀ place, place ∉ touched → d'.look place = d.look place ∨
    place ∈ made ∧ d.look place = none ∧ d'.look place = some .dir

theorem Puts.confined (puts : Puts d d' place e) (notDir : e ≠ some .dir) :
    Confined d d' {place} ∅ := by
  refine ⟨puts.current, ?_, ?_, ?_⟩
  · intro other dir
    rw [puts.elsewhere, dir]
    rintro rfl
    exact puts.notDir dir
  · intro other dir
    rw [puts.elsewhere] at dir
    · exact .inl dir
    · rintro rfl
      exact notDir (puts.here.symm.trans dir)
  · intro other different
    exact .inl (puts.elsewhere different)

theorem Puts.makes (puts : Puts d d' place (some .dir)) (empty : d.look place = none) :
    Confined d d' ∅ {place} := by
  refine ⟨puts.current, ?_, ?_, ?_⟩
  · intro other dir
    rw [puts.elsewhere, dir]
    rintro rfl
    exact puts.notDir dir
  · intro other dir
    by_cases same : other = place
    · exact .inr same
    · exact .inl (puts.elsewhere same ▸ dir)
  · intro other _
    by_cases same : other = place
    · subst same
      exact .inr ⟨rfl, empty, puts.here⟩
    · exact .inl (puts.elsewhere same)

namespace Confined

theorem refl (d : Disk) (touched made : Set Location) : Confined d d touched made :=
  ⟨rfl, fun _ dir => dir, fun _ dir => .inl dir, fun _ _ => .inl rfl⟩

theorem mono (h : Confined d d' touched made) (more : touched ⊆ touched') (more' : made ⊆ made') :
    Confined d d' touched' made' := by
  refine ⟨h.current, h.dirs, ?_, ?_⟩
  · intro place dir
    exact (h.newDirs place dir).imp_right fun inside => more' inside
  · intro place outside
    rcases h.elsewhere place fun inside => outside (more inside) with same | ⟨inside, rest⟩
    · exact .inl same
    · exact .inr ⟨more' inside, rest⟩

theorem trans (first : Confined d d₁ touched made) (second : Confined d₁ d' touched' made') :
    Confined d d' (touched ∪ touched') (made ∪ made') := by
  refine ⟨second.current.trans first.current, ?_, ?_, ?_⟩
  · intro place dir
    exact second.dirs place (first.dirs place dir)
  · intro place dir
    rcases second.newDirs place dir with dir | inside
    · exact (first.newDirs place dir).imp_right .inl
    · exact .inr (.inr inside)
  · intro place outside
    have before := first.elsewhere place fun inside => outside (.inl inside)
    have after := second.elsewhere place fun inside => outside (.inr inside)
    rcases after with same | ⟨inside, empty, dir⟩
    · rw [same]
      exact before.imp_right fun made => ⟨.inl made.1, made.2⟩
    · rcases before with same | ⟨_, _, dir'⟩
      · exact .inr ⟨.inr inside, same ▸ empty, dir⟩
      · rw [dir'] at empty
        cases empty

theorem file_iff (h : Confined d d' touched made) (outside : place ∉ touched) :
    d'.look place = some (.file contents) ↔ d.look place = some (.file contents) := by
  rcases h.elsewhere place outside with same | ⟨_, empty, dir⟩
  · rw [same]
  · simp [empty, dir]

theorem contents? (h : Confined d d' touched made) (outside : place ∉ touched) :
    d'.contents? place = d.contents? place := by
  apply Option.ext
  intro contents
  rw [contents?_eq_some, contents?_eq_some, h.file_iff outside]

theorem reaches (h : Confined d d' touched made) (reaches : d.Reaches p) : d'.Reaches p :=
  reaches.mono h.dirs h.current

theorem reaches_iff (h : Confined d d' touched ∅) : d'.Reaches p ↔ d.Reaches p := by
  constructor
  · intro reaches
    refine reaches.mono (fun place dir => ?_) h.current.symm
    exact (h.newDirs place dir).resolve_right fun inside => inside
  · exact h.reaches

theorem stands (h : Confined d d' touched made) (stands : d.Stands) : d'.Stands := by
  rw [Stands, h.current]
  exact h.dirs _ stands

theorem read (h : Confined d d' touched made) (outside : d.place p ∉ touched)
    (read : d.read p = .ok contents) : d'.read p = .ok contents := by
  obtain ⟨reaches, stands⟩ := read_ok_iff.mp read
  refine read_ok_iff.mpr ⟨h.reaches reaches, ?_⟩
  rw [place_congr h.current]
  exact (h.file_iff outside).mpr stands

end Confined

variable {inside : Location}

theorem Named.dir_of_read (named : Named p front name) (read : d.read p = .ok contents) :
    d.look (walk (d.base p) (parts front)) = some .dir := by
  have stands := (read_ok_iff.mp read).2
  rw [named.place] at stands
  refine @Node.look_above d.root name _ [] ?_
  exact ne_of_eq_of_ne stands (Option.some_ne_none _)

theorem puts_insert {new : Node} (parent : d.look inside = some .dir)
    (notDir : d.look (inside ++ [name]) ≠ some .dir)
    (leaf : ∀ a rest, new.look (a :: rest) = none) :
    Puts d { d with root := d.root.insert (inside ++ [name]) new } (inside ++ [name])
      (some new.entry) := by
  refine ⟨rfl, Node.look_insert parent leaf ?_, notDir⟩
  intro a rest
  have whole : inside ++ name :: a :: rest = (inside ++ [name]) ++ a :: rest := by simp
  rw [whole]
  rw [look] at notDir
  cases found : d.root.look (inside ++ [name]) with
  | none => exact Node.look_none_below found _
  | some e =>
    cases e with
    | dir => exact absurd found notDir
    | file contents => exact Node.look_file_below found a rest

theorem puts_erase (nonempty : place ≠ []) (file : d.look place = some (.file contents)) :
    Puts d { d with root := d.root.erase place } place none := by
  refine ⟨rfl, Node.look_erase nonempty file, ?_⟩
  rw [file]
  exact fun same => by cases same

theorem named_of_write (h : d.write p contents = .ok d') :
    ∃ front name, Named p front name ∧ d.Reaches p := by
  rw [write] at h
  split at h
  · cases h
  · rename_i nonempty
    split at h
    · cases h
    · cases h
    · rename_i start name entered last
      obtain ⟨front, named⟩ := named_of_lastName last
      refine ⟨front, name, named, ?_⟩
      rw [named.segments, List.dropLast_concat] at entered
      rw [named.reaches_iff, entered, enterAll_ok entered]

theorem write_eq (named : Named p front name) (reaches : d.Reaches p) :
    d.write p contents = match d.root.get? (d.place p) with
      | some (.dir _) => .error .isADirectory
      | _ => .ok { d with root := d.root.insert (d.place p) (.file contents) } := by
  have followed : d.enterAll (d.base p) (segments p).dropLast =
      .ok (walk (d.base p) (parts front)) := by
    rw [named.segments, List.dropLast_concat]
    exact named.reaches_iff.mp reaches
  have nonempty : p.text.isEmpty = false := by simp [named.text_ne_nil]
  rw [named.place]
  cases there : d.root.get? (walk (d.base p) (parts front) ++ [name]) with
  | none =>
    simp only [write, nonempty, followed, named.lastName?, there, Bool.false_eq_true, if_false]
  | some node =>
    cases node with
    | file former =>
      simp only [write, nonempty, followed, named.lastName?, there, Bool.false_eq_true, if_false]
    | dir entries =>
      simp only [write, nonempty, followed, named.lastName?, there, Bool.false_eq_true, if_false]

theorem puts_write (named : Named p front name)
    (parent : d.look (walk (d.base p) (parts front)) = some .dir)
    (h : d.write p contents = .ok d') : Puts d d' (d.place p) (some (.file contents)) := by
  obtain ⟨_, _, _, reaches⟩ := named_of_write h
  rw [write_eq named reaches] at h
  have notDir : d.look (d.place p) ≠ some .dir := by
    intro dir
    obtain ⟨entries, there⟩ := look_dir_iff.mp dir
    rw [there] at h
    cases h
  split at h
  · cases h
  · cases h
    rw [named.place] at notDir ⊢
    exact puts_insert parent notDir fun _ _ => rfl

theorem write_over (named : Named p front name) {former : Bytes} (h : d.read p = .ok former)
    (contents : Bytes) : ∃ d', d.write p contents = .ok d' := by
  obtain ⟨reaches, stands⟩ := read_ok_iff.mp h
  rw [write_eq named reaches, look_file_iff.mp stands]
  exact ⟨_, rfl⟩

theorem puts_remove (named : Named p front name) (h : d.remove p = .ok d') :
    Puts d d' (d.place p) none := by
  rw [remove] at h
  split at h
  · cases h
  · rename_i place followed
    cases locate_ok followed
    split at h
    · cases h
    · cases h
    · rename_i contents there
      cases h
      refine puts_erase ?_ (look_file_iff.mpr there)
      rw [named.place]
      exact List.concat_ne_nil _ _

theorem rename_file (stands : d.look (d.place p) = some (.file contents))
    (different : d.place p ≠ d.place q) (h : d.rename p q = .ok d') :
    d.look (d.place q) ≠ some .dir ∧
      d' = { d with root := (d.root.erase (d.place p)).insert (d.place q) (.file contents) } := by
  cases origin : d.locate p with
  | error fault => rw [rename, origin] at h; cases h
  | ok start =>
    cases locate_ok origin
    cases destination : d.locate q with
    | error fault => rw [rename, origin, destination] at h; cases h
    | ok goal =>
      cases locate_ok destination
      rw [rename, origin, destination] at h
      simp only [bind, Except.bind, look_file_iff.mp stands] at h
      split at h
      · rename_i none_
        cases none_
      · cases h
      · rename_i same notDir
        cases same
        rw [if_neg different] at h
        split at h
        · cases h
        · cases h
          refine ⟨fun dir => ?_, rfl⟩
          obtain ⟨entries, there⟩ := look_dir_iff.mp dir
          exact notDir entries there

theorem puts_rename (named : Named p front name) {front' name' : Text}
    (named' : Named q front' name') (different : d.place p ≠ d.place q)
    (stands : d.look (d.place p) = some (.file contents))
    (parent : d.look (walk (d.base q) (parts front')) = some .dir)
    (h : d.rename p q = .ok d') :
    ∃ d₁, Puts d d₁ (d.place p) none ∧ Puts d₁ d' (d.place q) (some (.file contents)) := by
  have nonempty : d.place p ≠ [] := by
    rw [named.place]
    exact List.concat_ne_nil _ _
  have out : Puts d { d with root := d.root.erase (d.place p) } (d.place p) none :=
    puts_erase nonempty stands
  obtain ⟨notDir, rfl⟩ := rename_file stands different h
  refine ⟨_, out, ?_⟩
  have apart : walk (d.base q) (parts front') ≠ d.place p := by
    intro same
    rw [same, stands] at parent
    cases parent
  have kept := out.elsewhere different.symm
  rw [named'.place] at notDir kept ⊢
  exact puts_insert ((out.elsewhere apart).trans parent) (kept ▸ notDir) fun _ _ => rfl

def isDirectory : Entry → Bool
  | .file _ => false
  | .dir => true

/-- Two disks with the same places, of which the same are directories. -/
structure SameShape (d d' : Disk) : Prop where
  current : d'.current = d.current
  shape : ∀ place, (d'.look place).map isDirectory = (d.look place).map isDirectory

theorem SameShape.refl (d : Disk) : SameShape d d := ⟨rfl, fun _ => rfl⟩

theorem SameShape.trans (first : SameShape d d₁) (second : SameShape d₁ d') : SameShape d d' :=
  ⟨second.current.trans first.current,
    fun place => (second.shape place).trans (first.shape place)⟩

theorem Puts.sameShape (puts : Puts d d' place (some (.file contents))) {former : Bytes}
    (stands : d.look place = some (.file former)) : SameShape d d' := by
  refine ⟨puts.current, fun other => ?_⟩
  by_cases same : other = place
  · subst same
    rw [puts.here, stands]
    rfl
  · rw [puts.elsewhere same]

theorem enter_eq (d : Disk) (start : Location) (segment : Text) : d.enter start segment =
    if segment = dot then .ok start
    else if segment = dotDot then .ok start.dropLast
    else match (d.look (start ++ [segment])).map isDirectory with
      | none => .error .notFound
      | some false => .error .notADirectory
      | some true => .ok (start ++ [segment]) := by
  rw [enter, look, Node.look]
  cases d.root.get? (start ++ [segment]) with
  | none => rfl
  | some node =>
    cases node with
    | file contents => rfl
    | dir entries => rfl

theorem read_eq (d : Disk) (p : Path) : d.read p =
    match d.locate p with
    | .error fault => .error fault
    | .ok place =>
      match d.look place with
      | none => .error .notFound
      | some .dir => .error .isADirectory
      | some (.file contents) => .ok contents := by
  rw [Disk.read, find]
  cases d.locate p with
  | error fault => rfl
  | ok place =>
    simp only [look, Node.look]
    cases d.root.get? place with
    | none => rfl
    | some node =>
      cases node with
      | file contents => rfl
      | dir entries => rfl

namespace SameShape

theorem enterAll (h : SameShape d d') (start : Location) (segments : List Text) :
    d'.enterAll start segments = d.enterAll start segments := by
  induction segments generalizing start with
  | nil => rfl
  | cons segment segments ih =>
    have first : d'.enter start segment = d.enter start segment := by
      rw [enter_eq, enter_eq, h.shape]
    rw [Disk.enterAll, Disk.enterAll, first]
    cases d.enter start segment with
    | error fault => rfl
    | ok next => exact ih next

theorem locate (h : SameShape d d') (p : Path) : d'.locate p = d.locate p := by
  simp only [Disk.locate, base_congr h.current, h.enterAll]

theorem read (h : SameShape d d') (same : d'.look (d.place p) = d.look (d.place p)) :
    d'.read p = d.read p := by
  rw [read_eq, read_eq, h.locate]
  cases followed : d.locate p with
  | error fault => rfl
  | ok place =>
    cases locate_ok followed
    simp only [same]

end SameShape

end MemberLift.Disk
