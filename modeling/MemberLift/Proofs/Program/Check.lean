import MemberLift.Program
import MemberLift.Proofs.Run.DryRun

/-!
The command that checks headers.  It is a dry run that ends with another status if a run would
change something; `dry_run_predicts` says what dry runs and checks tell of the runs that write.
-/
namespace MemberLift

open Run CommandLine

variable {ε α β : Type} {d d' : Disk}

namespace Program

open MemberLift.Action

theorem quiet_load (p : Path) : Quiet (Settings.load p) := by
  rw [Settings.load]
  refine (quiet_fetch _ _).bind fun bytes => ?_
  split
  · exact quiet_fail _
  · split
    · exact quiet_fail _
    · split
      · exact quiet_pure _
      · exact quiet_fail _

theorem quiet_loadSettings (r : Request) : Quiet (loadSettings r) := by
  refine Quiet.mapFault ?_ _
  unfold Settings.loadOrStandard
  split
  · exact quiet_load _
  · refine (quiet_query _).bind fun found => ?_
    split
    · exact quiet_load _
    · exact quiet_pure _

theorem quiet_findFiles (what : String) (root : Path) (patterns : List Text) :
    Quiet (findFiles what root patterns) := by
  refine Quiet.mapFault ?_ _
  rw [Search.matching]
  refine (quiet_ofExcept _).bind fun set => Quiet.mapFault ?_ _
  rw [Search.filesWhere]
  refine (quiet_query _).bind fun found => ?_
  split
  · exact quiet_pure _
  · exact quiet_fail _

def lifting (c : Conventions) (policy : BackupPolicy) (paths : List Path) :
    Action Failure (Transformer × List Path) := do
  let t ← within "Invalid free function configuration".toList Fault.chain
    (Action.ofExcept (Transformer.ofConventions c policy))
  return (t, paths)

def prepared (r : Request) (headers : List Path) (marker namespaceEnd : Option Text)
    (policy : BackupPolicy) : Action Failure (Transformer × List Path) := do
  let settings ← loadSettings r
  let c := override settings.conventions marker namespaceEnd
  let paths ← if headers.isEmpty then findFiles "headers" r.root c.headers
    else pure (headers.map (resolve r.root))
  lifting c policy paths

theorem quiet_lifting (c : Conventions) (policy : BackupPolicy) (paths : List Path) :
    Quiet (lifting c policy paths) :=
  (Quiet.mapFault (quiet_ofExcept _) _).bind fun _ => quiet_pure _

theorem quiet_prepared (r : Request) (headers : List Path) (marker namespaceEnd : Option Text)
    (policy : BackupPolicy) : Quiet (prepared r headers marker namespaceEnd policy) := by
  refine (quiet_loadSettings r).bind fun settings => ?_
  dsimp only
  split
  · exact (quiet_findFiles _ _ _).bind fun paths => quiet_lifting _ _ _
  · exact (quiet_pure _).bind fun paths => quiet_lifting _ _ _

theorem perform_free (clock : Clock) (r : Request) (headers : List Path)
    (marker namespaceEnd : Option Text) (policy : BackupPolicy) (dryRun check json : Bool) :
    perform clock { r with task := .free headers marker namespaceEnd policy dryRun check json } =
      (do
        let (t, paths) ← prepared r headers marker namespaceEnd policy
        let report ← runOver clock t paths (dryRun || check)
        return { success (reportText clock json report) with
          status := if check && report.hasChanges then 1 else 0 }) := by
  simp only [perform, prepared, lifting, bind_assoc, pure_bind]
  refine congrArg (loadSettings r >>= ·) (funext fun settings => ?_)
  split
  · simp only [bind_assoc, pure_bind]
  · simp only [bind_assoc, pure_bind]

variable {e : Environment} {words words' : List Text} {r : Request} {headers : List Path}
  {marker namespaceEnd : Option Text} {policy : BackupPolicy} {dryRun check json : Bool}
  {t : Transformer} {paths : List Path}

theorem lifting_ok {c : Conventions} {listed : List Path}
    (h : (lifting c policy listed).perform d = (.ok (t, paths), d')) :
    t = .freeFunctions c policy := by
  obtain ⟨_, _, made, h⟩ := perform_bind_ok.mp h
  cases h
  have made' := congrArg Prod.fst (perform_mapFault_ok.mp made)
  rw [perform_ofExcept] at made'
  simp only [Transformer.ofConventions] at made'
  split at made'
  · cases made'
  · cases made'
    rfl

theorem prepared_lifts (listed : (prepared r headers marker namespaceEnd policy).perform d =
    (.ok (t, paths), d')) : ∃ c, t = .freeFunctions c policy := by
  obtain ⟨settings, _, _, h⟩ := perform_bind_ok.mp listed
  dsimp only at h
  split at h
  · obtain ⟨_, _, _, h⟩ := perform_bind_ok.mp h
    exact ⟨_, lifting_ok h⟩
  · obtain ⟨_, _, _, h⟩ := perform_bind_ok.mp h
    exact ⟨_, lifting_ok h⟩

theorem answer_free (clock : Clock)
    (read : CommandLine.read e words =
      .ok { r with task := .free headers marker namespaceEnd policy dryRun check json })
    (listed : (prepared r headers marker namespaceEnd policy).perform d = (.ok (t, paths), d)) :
    answer clock e words d =
      match (run ⟨dryRun || check, defaultContext, clock.stamps⟩ t paths).perform d with
      | (.ok report, d') =>
        ({ success (reportText clock json report) with
          status := if check && report.hasChanges then 1 else 0 }, d')
      | (.error fault, d') =>
        (⟨1, [], Failure.text ⟨t.transformation.title ++ " failed".toList, fault.chain⟩⟩, d') := by
  rw [answer, read]
  simp only [perform_free, perform_bind, listed, runOver, within, perform_mapFault]
  obtain ⟨result, d'⟩ :=
    (run ⟨dryRun || check, defaultContext, clock.stamps⟩ t paths).perform d
  cases result with
  | error fault => rfl
  | ok report => rfl

/-- Two command lines that ask for wrappers in the same headers, the second of them for a check. -/
def Checks (e : Environment) (words words' : List Text) (d : Disk) (t : Transformer)
    (paths : List Path) (dryRun json : Bool) : Prop :=
  ∃ r headers marker namespaceEnd policy,
    CommandLine.read e words =
      .ok { r with task := .free headers marker namespaceEnd policy dryRun false json } ∧
    CommandLine.read e words' =
      .ok { r with task := .free headers marker namespaceEnd policy dryRun true json } ∧
    ((prepared r headers marker namespaceEnd policy).perform d).1 = .ok (t, paths)

/-- A check leaves the disk as it is and ends with one if the run lists a changed file, with zero if
not.  A run that writes lists one exactly if the contents of some file change. -/
def Tells (clock : Clock) (dryRun json : Bool) (d : Disk) (run check : Outcome × Disk) : Prop :=
  check.2 = d ∧ ∃ report : Report, run.1.output = reportText clock json report ∧
    check.1.status = (if report.filesModified = [] then 0 else 1) ∧
    (dryRun = false → (report.filesModified ≠ [] ↔ ∃ place contents,
      d.contents? place = some contents ∧ run.2.contents? place ≠ some contents))

theorem status_of_filesModified (a b : Report) (same : a.filesModified = b.filesModified) :
    (if a.hasChanges = true then 1 else 0) = if b.filesModified = [] then 0 else 1 := by
  rw [← same, Report.hasChanges, Report.filesModified]
  cases a.changes with
  | nil => rfl
  | cons c changes => rfl

theorem check_tells {clock : Clock} (clock' : Clock)
    (apart : Apart t.policy clock.stamps d 0 paths)
    (followed : Followed t.policy clock.stamps d paths)
    (checks : Checks e words words' d t paths dryRun json)
    (succeeds : (answer clock e words d).1.status = 0) :
    Tells clock dryRun json d (answer clock e words d) (answer clock' e words' d) := by
  obtain ⟨r, headers, marker, namespaceEnd, policy, free, check, listed⟩ := checks
  have listed' : (prepared r headers marker namespaceEnd policy).perform d =
      (.ok (t, paths), d) := Prod.ext listed (quiet_prepared _ _ _ _ _ d)
  obtain ⟨c, lifts⟩ := prepared_lifts listed'
  have foretold : Foretold ((run ⟨dryRun, defaultContext, clock.stamps⟩ t paths).perform d)
      ((run ⟨true, defaultContext, clock'.stamps⟩ t paths).perform d) d := by
    cases dryRun with
    | false => exact run_foretold rfl rfl apart followed
    | true => exact run_dry_foretold rfl rfl t paths d
  rw [answer_free clock free listed'] at succeeds ⊢
  rw [answer_free clock' check listed']
  simp only [Bool.or_false, Bool.or_true, Bool.false_and, Bool.true_and] at succeeds ⊢
  cases real : (run ⟨dryRun, defaultContext, clock.stamps⟩ t paths).perform d with
  | mk result d' =>
    cases result with
    | error fault => simp [real] at succeeds
    | ok report =>
      obtain ⟨expected, dry, modified, _⟩ := foretold report d' real
      simp only [dry]
      refine ⟨rfl, report, rfl, status_of_filesModified expected report modified, ?_⟩
      rintro rfl
      obtain ⟨files, _⟩ := run_ok real
      have runs := runs_of_files rfl (fun stamps => (followed stamps).2) files
      rw [Report.filesModified, ne_eq, List.map_eq_nil_iff]
      exact runs.changes_ne_nil_iff apart lifts

end Program

/-- What dry runs tell of the runs that write.  A dry run leaves the disk as it is.  If the files do
not stand in each other's way and, with copies, every path can be followed from the start, the dry
run has the figures of the run that writes, without backups also its fault, and a check ends with
one exactly if the command it checks for changes a file. -/
theorem dry_run_predicts {options shown : RunOptions} {t : Transformer} {paths : List Path}
    (writes : options.dryRun = false) (dry : shown.dryRun = true) (d : Disk) :
    ((run shown t paths).perform d).2 = d ∧
    (Apart t.policy options.stamps d 0 paths → Followed t.policy options.stamps d paths →
      Foretold ((run options t paths).perform d) ((run shown t paths).perform d) d ∧
      (t.policy = .none → d.Stands → ∀ fault,
        ((run options t paths).perform d).1 = .error fault ↔
          ((run shown t paths).perform d).1 = .error fault) ∧
      ∀ (clock clock' : Clock) e words words' dryRun json, clock.stamps = options.stamps →
        Program.Checks e words words' d t paths dryRun json →
        (Program.answer clock e words d).1.status = 0 →
        Program.Tells clock dryRun json d (Program.answer clock e words d)
          (Program.answer clock' e words' d)) := by
  refine ⟨by rw [run_dry dry], fun apart followed => ⟨?_, ?_, ?_⟩⟩
  · exact run_foretold writes dry apart followed
  · intro unkept stands fault
    exact run_unkept writes dry apart unkept stands fault
  · intro clock clock' e words words' dryRun json same checks succeeds
    rw [← same] at apart followed
    exact Program.check_tells clock' apart followed checks succeeds

def copyingClock : Clock where
  stamps := copying.stamps
  started := "2024-02-29T12:00:00Z".toList
  finished := "2024-02-29T12:00:01Z".toList

def copyWords : List Text :=
  ["free", "--backup", "timestamped", "a.hpp", "b.hpp"].map String.toList

def checkWords : List Text := copyWords ++ ["--check".toList]

theorem dry_run_predicts_two : (∃ report d' expected,
    (run copying liftWithCopies twoPaths).perform twoHeaders = (.ok report, d') ∧
    (run { copying with dryRun := true } liftWithCopies twoPaths).perform twoHeaders =
      (.ok expected, twoHeaders) ∧
    expected.filesModified = twoPaths ∧ expected.statistics = report.statistics) ∧
    (Program.answer copyingClock [] checkWords twoHeaders).1.status = 1 ∧
    Program.Tells copyingClock false false twoHeaders
      (Program.answer copyingClock [] copyWords twoHeaders)
      (Program.answer copyingClock [] checkWords twoHeaders) := by
  have checks : Program.Checks [] copyWords checkWords twoHeaders liftWithCopies twoPaths false
      false := by
    refine ⟨⟨.info, none, ⟨['.']⟩, .config⟩, twoPaths, none, none, .timestamped, ?_, ?_, ?_⟩
    · decide +kernel
    · decide +kernel
    · apply ok_of_mem_toOption
      decide +kernel
  have computed : ∃ report ∈
      ((run copying liftWithCopies twoPaths).perform twoHeaders).1.toOption,
      report.filesModified = twoPaths := by
    decide +kernel
  have noSlash : '/' ∉ "20240229_120000_000".toList := by decide
  obtain ⟨report, d', real, modified⟩ := Action.exists_of_toOption computed
  have apart : Apart liftWithCopies.policy copying.stamps twoHeaders 0 twoPaths := by
    decide +kernel
  have followed : Followed liftWithCopies.policy copying.stamps twoHeaders twoPaths :=
    fun _ => ⟨by decide +kernel, fun _ => noSlash⟩
  obtain ⟨foretold, _, tells⟩ := (@dry_run_predicts copying { copying with dryRun := true }
    liftWithCopies twoPaths rfl rfl twoHeaders).2 apart followed
  obtain ⟨expected, dry, same, statistics, _⟩ := foretold report d' real
  exact ⟨⟨report, d', expected, real, dry, same.trans modified, statistics⟩, by decide +kernel,
    tells copyingClock copyingClock [] copyWords checkWords false false rfl checks
      (by decide +kernel)⟩

end MemberLift
