import MemberLift.Proofs.Run.Completed

/-!
Dry runs.  A dry run reads every file as it was, while a run that writes reads a file after those in
front of it were written.  The two agree as long as the files do not stand in each other's way and
no path leads through a directory that only the run makes.
-/
namespace MemberLift

open Disk

/-- What a change comes to, apart from how it is shown and where the file is kept. -/
def FileChange.figures (c : FileChange) : Path × List Freed × Nat × Nat :=
  (c.path, c.freed, c.linesAdded, c.linesRemoved)

namespace Run

variable {d d₀ d' : Disk} {options shown : RunOptions} {t : Transformer} {n : Nat} {p : Path}
  {paths : List Path} {changes : List FileChange} {touched made : Set Location}

/-- The answer of a dry run: all files are read from one disk. -/
def planned (options : RunOptions) (t : Transformer) (d : Disk) :
    List Path → Except Fault (List FileChange)
  | [] => .ok []
  | p :: rest =>
    match transformed t d p with
    | .error fault => .error (.file p fault)
    | .ok (source, r) =>
      (planned options t d rest).map fun changes =>
        (if r.changed then [plan options p source r] else []) ++ changes

theorem files_dry (dry : options.dryRun = true) (t : Transformer) (n : Nat) (paths : List Path)
    (d : Disk) : (files options t n paths).perform d = (planned options t d paths, d) := by
  induction paths generalizing n with
  | nil => rfl
  | cons p rest ih =>
    rw [files_cons, file_perform, planned, dry]
    cases transformed t d p with
    | error fault => rfl
    | ok x =>
      obtain ⟨source, r⟩ := x
      cases changed : r.changed with
      | false =>
        simp only [changed, Bool.false_eq_true, if_false, ih]
        cases planned options t d rest with
        | error fault => rfl
        | ok changes => rfl
      | true =>
        simp only [changed, if_true, ih]
        cases planned options t d rest with
        | error fault => rfl
        | ok changes => rfl

theorem run_dry (dry : options.dryRun = true) (t : Transformer) (paths : List Path) (d : Disk) :
    (run options t paths).perform d =
      ((planned options t d paths).map fun changes =>
        { transformation := t.transformation, status := .dryRun, changes, scanned := paths.length },
        d) := by
  rw [run, Action.perform_bind, files_dry dry, dry]
  cases planned options t d paths with
  | error fault => rfl
  | ok changes => rfl

theorem read_back (before : Confined d₀ d touched made) (outside : d₀.place p ∉ touched)
    (reaches : d₀.Reaches p) {source : Bytes} (read : d.read p = .ok source) :
    d₀.read p = .ok source := by
  have stands := (read_ok_iff.mp read).2
  rw [place_congr before.current] at stands
  exact read_ok_iff.mpr ⟨reaches, (before.file_iff outside).mp stands⟩

theorem made_none {policy : BackupPolicy} (bare : policy ≠ .timestamped) {backup : Option Path} :
    Backup.made policy d backup = ∅ := by
  ext place
  exact ⟨fun inside => bare inside.1, fun inside => inside.elim⟩

theorem Runs.reaches (runs : Runs options t n d paths changes d') (bare : t.policy ≠ .timestamped) :
    ∀ p ∈ paths, d.Reaches p := by
  induction runs with
  | done =>
    intro p mem
    cases mem
  | kept read _ _ _ ih =>
    intro p mem
    rcases List.mem_cons.mp mem with rfl | mem
    · exact (read_ok_iff.mp read).1
    · exact ih p mem
  | changed read _ _ replaced _ ih =>
    intro p mem
    rcases List.mem_cons.mp mem with rfl | mem
    · exact (read_ok_iff.mp read).1
    · have confined := replaced.confined
      rw [made_none bare] at confined
      exact confined.reaches_iff.mp (ih p mem)

theorem planned_of_runs (runs : Runs options t n d paths changes d')
    (apart : Apart t.policy options.stamps d n paths) (before : Confined d₀ d touched made)
    (outside : ∀ x ∈ paths.zipIdx n, d₀.place x.1 ∉ touched) (reach : ∀ p ∈ paths, d₀.Reaches p)
    (shown : RunOptions) : ∃ expected, planned shown t d₀ paths = .ok expected ∧
      expected.map FileChange.figures = changes.map FileChange.figures := by
  induction runs generalizing touched made with
  | done => exact ⟨[], rfl, rfl⟩
  | @kept n _ _ p _ _ _ _ read applied unchanged _ ih =>
    have read₀ := read_back before (outside (p, n) List.mem_cons_self)
      (reach p List.mem_cons_self) read
    obtain ⟨expected, later, same⟩ := ih (apart.later rfl) before
      (fun x mem => outside x (List.mem_cons_of_mem _ mem))
      (fun q mem => reach q (List.mem_cons_of_mem _ mem))
    refine ⟨expected, ?_, same⟩
    rw [planned, transformed_ok.mpr ⟨read₀, applied⟩, later]
    simp [Except.map, unchanged]
  | @changed n d d₁ _ p source r backup rest _ read applied changed replaced _ ih =>
    have read₀ := read_back before (outside (p, n) List.mem_cons_self)
      (reach p List.mem_cons_self) read
    have between := before.trans replaced.confined
    have outside' : ∀ x ∈ rest.zipIdx (n + 1),
        d₀.place x.1 ∉ touched ∪ Backup.touched d p backup := by
      rintro x mem (inside | inside)
      · exact outside x (List.mem_cons_of_mem _ mem) inside
      · rw [← place_congr before.current] at inside
        exact later_untouched (apart.first rfl x mem) replaced.path inside
    obtain ⟨expected, later, same⟩ := ih (apart.later replaced.confined.current) between outside'
      (fun q mem => reach q (List.mem_cons_of_mem _ mem))
    refine ⟨plan shown p source r :: expected, ?_, ?_⟩
    · rw [planned, transformed_ok.mpr ⟨read₀, applied⟩, later]
      simp [Except.map, changed]
    · rw [List.map_cons, List.map_cons, same]
      rfl

theorem replaceFile_none (stands : d.Stands) {source : Bytes} (read : d.read p = .ok source)
    (stamp : Text) (output : Bytes) :
    ∃ d₁, (replaceFile .none stamp p output).perform d = (.ok none, d₁) ∧
      Puts d d₁ (d.place p) (some (.file output)) := by
  obtain ⟨front, name, named⟩ := named_of_read stands read
  have reaches := (read_ok_iff.mp read).1
  have parent := named.dir_of_read read
  obtain ⟨d₁, written⟩ := write_over named read output
  refine ⟨d₁, ?_, puts_write named parent written⟩
  rw [replaceFile, Action.perform_bind]
  simp only [Backup.keep, Action.perform_pure]
  rw [Action.perform_bind, writeFile_eq named reaches parent, Action.perform_change, written]
  rfl

theorem transformed_congr {d₁ : Disk} (same : d₁.read p = d.read p) :
    transformed t d₁ p = transformed t d p := by
  rw [transformed, transformed, same]

theorem figures_append {front front' : List FileChange} {a b : Except Fault (List FileChange)}
    (fronts : front.map FileChange.figures = front'.map FileChange.figures)
    (rest : a.map (List.map FileChange.figures) = b.map (List.map FileChange.figures)) :
    (a.map (front ++ ·)).map (List.map FileChange.figures) =
      (b.map (front' ++ ·)).map (List.map FileChange.figures) := by
  cases a with
  | error fault =>
    cases b with
    | error fault' => exact rest
    | ok changes' => simp [Except.map] at rest
  | ok changes =>
    cases b with
    | error fault' => simp [Except.map] at rest
    | ok changes' =>
      simp only [Except.map, Except.ok.injEq] at rest ⊢
      rw [List.map_append, List.map_append, fronts, rest]

theorem files_cons_answer (options : RunOptions) (t : Transformer) (n : Nat) (p : Path)
    (rest : List Path) (d : Disk) : ((files options t n (p :: rest)).perform d).1 =
    match (file options t n p).perform d with
    | (.error fault, _) => .error (.file p fault)
    | (.ok change, d₁) =>
      ((files options t (n + 1) rest).perform d₁).1.map (change.toList ++ ·) := by
  rw [files_cons]
  obtain ⟨result, d₁⟩ := (file options t n p).perform d
  cases result with
  | error fault => rfl
  | ok change =>
    simp only
    obtain ⟨result, d'⟩ := (files options t (n + 1) rest).perform d₁
    cases result with
    | error fault => rfl
    | ok changes => rfl

theorem planned_figures (options shown : RunOptions) (t : Transformer) (d : Disk)
    (paths : List Path) : (planned options t d paths).map (List.map FileChange.figures) =
      (planned shown t d paths).map (List.map FileChange.figures) := by
  induction paths with
  | nil => rfl
  | cons p rest ih =>
    rw [planned, planned]
    cases transformed t d p with
    | error fault => rfl
    | ok x =>
      refine figures_append ?_ ih
      cases x.2.changed with
      | false => rfl
      | true => rfl

/-- Without backups a run that writes goes as a dry run goes, to its end or to the same fault. -/
theorem files_unkept (unkept : t.policy = .none) (writes : options.dryRun = false)
    (stands : d.Stands) (shape : SameShape d₀ d)
    (same : ∀ x ∈ paths.zipIdx n, d.look (d₀.place x.1) = d₀.look (d₀.place x.1))
    (apart : Apart t.policy options.stamps d n paths) (shown : RunOptions) :
    ((files options t n paths).perform d).1.map (List.map FileChange.figures) =
      (planned shown t d₀ paths).map (List.map FileChange.figures) := by
  induction paths generalizing n d with
  | nil => rfl
  | cons p rest ih =>
    have later := fun x mem => same x (List.mem_cons_of_mem _ mem)
    have read := shape.read (same (p, n) List.mem_cons_self)
    rw [files_cons_answer, file_perform, planned, transformed_congr read, writes, unkept]
    cases found : transformed t d₀ p with
    | error fault => rfl
    | ok x =>
      obtain ⟨source, r⟩ := x
      cases changed : r.changed with
      | false =>
        simp only [changed, Bool.false_eq_true, if_false]
        exact figures_append rfl (ih stands shape later (apart.later rfl))
      | true =>
        have read' := read.trans (transformed_ok.mp found).1
        obtain ⟨d₁, replaced, puts⟩ :=
          replaceFile_none stands read' (options.stamps.ofFile n) r.output
        have between := puts.confined (by simp)
        have stands₁ : d₁.Stands := by
          rw [Disk.Stands, puts.current]
          exact between.dirs _ stands
        have later₁ : ∀ x ∈ rest.zipIdx (n + 1),
            d₁.look (d₀.place x.1) = d₀.look (d₀.place x.1) := by
          intro x mem
          rw [← later x mem]
          refine puts.elsewhere ?_
          rw [← place_congr shape.current]
          exact (apart.first rfl x mem).different.symm
        simp only [changed, Bool.false_eq_true, if_true, if_false, replaced]
        refine figures_append rfl (ih stands₁ ?_ later₁ (apart.later puts.current))
        exact shape.trans (puts.sameShape (read_ok_iff.mp read').2)

end Run

open Run

/-- What a dry run says of a run that writes: if that one comes to its end, so does the dry run, on
the disk as it is and with the same files and figures. -/
def Foretold (real dry : Except Fault Report × Disk) (d : Disk) : Prop :=
  ∀ report d', real = (.ok report, d') → ∃ expected, dry = (.ok expected, d) ∧
    expected.filesModified = report.filesModified ∧ expected.statistics = report.statistics ∧
    expected.changes.map FileChange.figures = report.changes.map FileChange.figures

/-- The copies with time stamps do not open new ways: every path of a run can be followed before. -/
def Followed (policy : BackupPolicy) (stamps : Stamps) (d : Disk) (paths : List Path) : Prop :=
  policy = .timestamped → (∀ p ∈ paths, d.Reaches p) ∧ ∀ n, '/' ∉ stamps.ofFile n

variable {d d' : Disk} {options shown : RunOptions} {t : Transformer} {paths : List Path}

theorem filesModified_of_figures {a b : Report}
    (same : a.changes.map FileChange.figures = b.changes.map FileChange.figures) :
    a.filesModified = b.filesModified := by
  have paths := congrArg (List.map Prod.fst) same
  rw [List.map_map, List.map_map] at paths
  exact paths

theorem statistics_of_figures {a b : Report} (scanned : a.scanned = b.scanned)
    (same : a.changes.map FileChange.figures = b.changes.map FileChange.figures) :
    a.statistics = b.statistics := by
  have sums (size : Path × List Freed × Nat × Nat → Nat) :
      (a.changes.map fun c => size c.figures).sum =
        (b.changes.map fun c => size c.figures).sum := by
    have sizes := congrArg (List.map size) same
    rw [List.map_map, List.map_map] at sizes
    exact congrArg List.sum sizes
  have number := congrArg List.length same
  rw [List.length_map, List.length_map] at number
  rw [Report.statistics, Report.statistics, scanned, number]
  simp only [total_eq_sum]
  congr 1
  · exact sums fun figures => figures.2.1.length
  · exact sums fun figures => figures.2.2.1
  · exact sums fun figures => figures.2.2.2

theorem run_foretold (writes : options.dryRun = false) (dry : shown.dryRun = true)
    (apart : Apart t.policy options.stamps d 0 paths)
    (followed : Followed t.policy options.stamps d paths) :
    Foretold ((run options t paths).perform d) ((run shown t paths).perform d) d := by
  intro report d' h
  obtain ⟨files, scanned⟩ := run_ok h
  have runs := runs_of_files writes (fun stamps => (followed stamps).2) files
  have reach : ∀ p ∈ paths, d.Reaches p := by
    by_cases stamps : t.policy = .timestamped
    · exact (followed stamps).1
    · exact runs.reaches stamps
  obtain ⟨expected, planned, same⟩ := planned_of_runs runs apart (.refl d ∅ ∅)
    (fun _ _ inside => inside) reach shown
  rw [run_dry dry, planned]
  exact ⟨_, rfl, filesModified_of_figures same, statistics_of_figures scanned.symm same, same⟩

theorem run_dry_foretold {other : RunOptions} (dry : shown.dryRun = true)
    (dry' : other.dryRun = true) (t : Transformer) (paths : List Path) (d : Disk) :
    Foretold ((run other t paths).perform d) ((run shown t paths).perform d) d := by
  intro report d' h
  have same := planned_figures shown other t d paths
  rw [run_dry dry'] at h
  rw [run_dry dry]
  cases planned_ : planned other t d paths with
  | error fault => rw [planned_] at h; cases h
  | ok changes =>
    rw [planned_] at h same
    cases h
    cases expected_ : planned shown t d paths with
    | error fault => rw [expected_] at same; simp [Except.map] at same
    | ok expected =>
      rw [expected_] at same
      have figures : expected.map FileChange.figures = changes.map FileChange.figures :=
        Except.ok.inj same
      exact ⟨_, rfl, filesModified_of_figures figures, statistics_of_figures rfl figures, figures⟩

theorem run_answer (options : RunOptions) (t : Transformer) (paths : List Path) (d : Disk) :
    ((run options t paths).perform d).1 = ((Run.files options t 0 paths).perform d).1.map
      fun changes => {
        transformation := t.transformation
        status := if options.dryRun then .dryRun else .completed
        changes
        scanned := paths.length } := by
  rw [run, Action.perform_bind]
  obtain ⟨result, after⟩ := (Run.files options t 0 paths).perform d
  cases result with
  | error fault => rfl
  | ok changes => rfl

theorem map_eq_error {ε α β : Type} {f : α → β} {result : Except ε α} {fault : ε} :
    result.map f = .error fault ↔ result = .error fault := by
  cases result with
  | error fault' => simp [Except.map]
  | ok a => simp [Except.map]

/-- Without backups both runs come to their ends, or both end with the same fault. -/
theorem run_unkept (writes : options.dryRun = false) (dry : shown.dryRun = true)
    (apart : Apart t.policy options.stamps d 0 paths) (unkept : t.policy = .none)
    (stands : d.Stands) (fault : Fault) :
    ((run options t paths).perform d).1 = .error fault ↔
      ((run shown t paths).perform d).1 = .error fault := by
  have same := files_unkept unkept writes stands (.refl d) (fun _ _ => rfl) apart shown
  rw [run_answer, run_answer, files_dry dry, map_eq_error, map_eq_error,
    ← map_eq_error (f := List.map FileChange.figures), same, map_eq_error]

/-- The second path leads through the directory that the first file's copy is put in. -/
def detourPaths : List Path := [⟨"a.hpp".toList⟩, ⟨".freefn_backups/../b.hpp".toList⟩]

/-- A run with copies may come to its end where the dry run does not. -/
theorem not_foretold_detour : Backup.IsStamp "20240229_120000_000".toList ∧
    Apart liftWithCopies.policy copying.stamps twoHeaders 0 detourPaths ∧
    ¬ Foretold ((run copying liftWithCopies detourPaths).perform twoHeaders)
      ((run { copying with dryRun := true } liftWithCopies detourPaths).perform twoHeaders)
      twoHeaders := by
  refine ⟨⟨by decide, by decide⟩, by decide +kernel, fun foretold => ?_⟩
  have computed : ∃ report ∈
      ((run copying liftWithCopies detourPaths).perform twoHeaders).1.toOption,
      report.filesModified = detourPaths := by
    decide +kernel
  have stopped : ((run { copying with dryRun := true } liftWithCopies detourPaths).perform
      twoHeaders).1.toOption = none := by
    decide +kernel
  obtain ⟨report, d', real, _⟩ := Action.exists_of_toOption computed
  obtain ⟨expected, dry, _⟩ := foretold report d' real
  rw [dry] at stopped
  cases stopped

end MemberLift
