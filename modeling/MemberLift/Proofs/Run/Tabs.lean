import MemberLift.Proofs.Run.Completed
import MemberLift.Proofs.Run.DryRun
import MemberLift.Proofs.Tabs

/-!
Tab expansion run a second time.  Once a run has come to its end no file of it has tabs, so a later
run of any width leaves the disk, and with it every kept file, as it is: `run_expandTabs_again`.
-/
namespace MemberLift

namespace Run

open Disk Tabs

variable {d d₁ d' : Disk} {options : RunOptions} {width n : Nat} {p q : Path} {paths : List Path}
  {changes : List FileChange} {source : Bytes} {front name front' name' : Text}

theorem source_eq {contents : Bytes} (read : d.read p = .ok source)
    (there : d.contents? (d.place p) = some contents) : contents = source :=
  Option.some.inj (there.symm.trans (contents?_of_read read))

theorem expanded_touched {backup : Option Path} {place : Location}
    (path : backup = Backup.path? .origSuffix (options.stamps.ofFile n) p)
    (file : place ≠ d.place p) (orig : place ≠ d.place p.orig) :
    place ∉ Backup.touched d p backup := by
  subst path
  rintro (same | ⟨q, mem, same⟩)
  · exact file same
  · cases mem
    exact orig same

/-- A file without tabs stays as it is, if no file is kept where it stands. -/
theorem Runs.keeps {place : Location} {contents : Bytes}
    (runs : Runs options (.expandTabs width) n d paths changes d')
    (there : d.contents? place = some contents) (noTab : tab ∉ contents)
    (apart : ∀ p ∈ paths, d.place p.orig ≠ place) : d'.contents? place = some contents := by
  induction runs with
  | done => exact there
  | kept _ _ _ _ ih => exact ih there fun p mem => apart p (List.mem_cons_of_mem _ mem)
  | @changed n d _ _ p source r _ _ _ read applied changed replaced _ ih =>
    cases applied
    have same := replaced.confined.current
    have different : place ≠ d.place p := by
      rintro rfl
      rw [source_eq read there] at noTab
      exact noTab ((Transformer.expandBytes_changed width source).mp changed)
    have outside := expanded_touched replaced.path different (apart p List.mem_cons_self).symm
    refine ih ((replaced.confined.contents? outside).trans there) fun q mem => ?_
    rw [place_congr same]
    exact apart q (List.mem_cons_of_mem _ mem)

theorem Runs.expanded (runs : Runs options (.expandTabs width) n d paths changes d')
    (apart : ∀ p ∈ paths, ∀ q ∈ paths, d.place p.orig ≠ d.place q) :
    ∀ p ∈ paths, ∃ contents, d'.read p = .ok contents ∧ tab ∉ contents := by
  have last {d d' : Disk} {n : Nat} {rest : List Path} {changes : List FileChange} {p : Path}
      {contents : Bytes} (after : Runs options (.expandTabs width) n d rest changes d')
      (read : d.read p = .ok contents) (noTab : tab ∉ contents)
      (apart : ∀ q ∈ rest, d.place q.orig ≠ d.place p) :
      ∃ contents, d'.read p = .ok contents ∧ tab ∉ contents := by
    have kept := after.keeps (contents?_of_read read) noTab apart
    have reaches := after.confined.reaches (read_ok_iff.mp read).1
    rw [← place_congr after.confined.current, contents?_eq_some] at kept
    exact ⟨contents, read_ok_iff.mpr ⟨reaches, kept⟩, noTab⟩
  induction runs with
  | done =>
    intro p mem
    cases mem
  | @kept n d _ p source r rest _ read applied unchanged after ih =>
    cases applied
    have later : ∀ q ∈ rest, d.place q.orig ≠ d.place p := fun q mem =>
      apart q (List.mem_cons_of_mem _ mem) p List.mem_cons_self
    have noTab : tab ∉ source := by
      rw [← Transformer.expandBytes_changed width, unchanged]
      exact Bool.false_ne_true
    intro q mem
    rcases List.mem_cons.mp mem with rfl | mem
    · exact last after read noTab later
    · exact ih (fun a inA b inB => apart a (List.mem_cons_of_mem _ inA) b
        (List.mem_cons_of_mem _ inB)) q mem
  | @changed n d d₁ _ p source r _ rest _ read applied changed replaced after ih =>
    cases applied
    have same := place_congr replaced.confined.current
    intro q mem
    rcases List.mem_cons.mp mem with rfl | mem
    · refine last after replaced.output (Transformer.tab_notMem_expandBytes width source) ?_
      intro a inA
      rw [same, same]
      exact apart a (List.mem_cons_of_mem _ inA) q List.mem_cons_self
    · refine ih (fun a inA b inB => ?_) q mem
      rw [same, same]
      exact apart a (List.mem_cons_of_mem _ inA) b (List.mem_cons_of_mem _ inB)

theorem files_without_tabs (options : RunOptions) (width n : Nat)
    (clean : ∀ p ∈ paths, ∃ contents, d.read p = .ok contents ∧ tab ∉ contents) :
    (files options (.expandTabs width) n paths).perform d = (.ok [], d) := by
  induction paths generalizing n with
  | nil => rfl
  | cons p rest ih =>
    obtain ⟨contents, read, noTab⟩ := clean p List.mem_cons_self
    have applied : (Transformer.expandTabs width).apply p contents = .ok ⟨contents, false, []⟩ :=
      congrArg _ (Transformer.expandBytes_of_notMem noTab width)
    rw [files_cons, file_perform, transformed_ok.mpr ⟨read, applied⟩]
    simp only [Bool.false_eq_true, if_false]
    rw [ih (n + 1) fun q mem => clean q (List.mem_cons_of_mem _ mem)]
    rfl

theorem orig_place_eq_iff (named : Named p front name) (named' : Named q front' name') :
    d.place p.orig = d.place q.orig ↔ d.place p = d.place q := by
  rw [named.place, named'.place, Backup.orig_place named, Backup.orig_place named']
  constructor
  · intro same
    obtain ⟨dirs, names⟩ := List.append_inj' same rfl
    rw [dirs, List.append_cancel_right (List.cons.inj names).1]
  · intro same
    obtain ⟨dirs, names⟩ := List.append_inj' same rfl
    rw [dirs, (List.cons.inj names).1]

theorem Runs.leaves_orig {contents : Bytes} (named : Named p front name)
    (runs : Runs options (.expandTabs width) n d paths changes d')
    (there : d.contents? (d.place p) = some contents) (noTab : tab ∉ contents)
    (orig : ∀ q ∈ paths, d.place p.orig ≠ d.place q)
    (file : ∀ q ∈ paths, d.place q.orig ≠ d.place p) :
    d'.look (d.place p.orig) = d.look (d.place p.orig) := by
  induction runs with
  | done => rfl
  | kept _ _ _ _ ih =>
    exact ih there (fun q mem => orig q (List.mem_cons_of_mem _ mem))
      fun q mem => file q (List.mem_cons_of_mem _ mem)
  | @changed n d d₁ d' q source r _ _ _ read applied changed replaced _ ih =>
    cases applied
    have same := place_congr replaced.confined.current
    have different : d.place p ≠ d.place q := by
      intro samePlace
      rw [samePlace] at there
      rw [source_eq read there] at noTab
      exact noTab ((Transformer.expandBytes_changed width source).mp changed)
    obtain ⟨front', name', named'⟩ := replaced.named
    have outsideOrig := expanded_touched replaced.path (orig q List.mem_cons_self)
      fun samePlace => different ((orig_place_eq_iff named named').mp samePlace)
    have outside := expanded_touched replaced.path different (file q List.mem_cons_self).symm
    have later := ih (by rw [same, replaced.confined.contents? outside, there])
      (fun a mem => by rw [same, same]; exact orig a (List.mem_cons_of_mem _ mem))
      (fun a mem => by rw [same, same]; exact file a (List.mem_cons_of_mem _ mem))
    rw [same] at later
    rw [later]
    have bare : (Transformer.expandTabs width).policy ≠ .timestamped := fun same => by cases same
    have confined := replaced.confined
    rw [made_none bare] at confined
    rcases confined.elsewhere _ outsideOrig with kept | ⟨inside, _⟩
    · exact kept
    · exact inside.elim

theorem Runs.originals (named : ∀ p ∈ paths, ∃ front name, Named p front name)
    (runs : Runs options (.expandTabs width) n d paths changes d')
    (apart : ∀ p ∈ paths, ∀ q ∈ paths, d.place p.orig ≠ d.place q) :
    ∀ p ∈ paths, ∃ contents, d.contents? (d.place p) = some contents ∧
      (tab ∈ contents → d'.contents? (d.place p.orig) = some contents) := by
  induction runs with
  | done =>
    intro p mem
    cases mem
  | @kept n d _ p source r rest _ read applied unchanged after ih =>
    cases applied
    have inRest := fun a mem => List.mem_cons_of_mem p (a := a) (l := rest) mem
    intro q mem
    rcases List.mem_cons.mp mem with rfl | mem
    · refine ⟨source, contents?_of_read read, fun some_ => ?_⟩
      rw [← Transformer.expandBytes_changed width, unchanged] at some_
      cases some_
    · exact ih (fun a inA => named a (inRest a inA))
        (fun a inA b inB => apart a (inRest a inA) b (inRest b inB)) q mem
  | @changed n d d₁ d' p source r backup rest _ read applied changed replaced after ih =>
    cases applied
    have inRest := fun a mem => List.mem_cons_of_mem p (a := a) (l := rest) mem
    have same := place_congr replaced.confined.current
    have written := replaced.output
    -- The file itself was kept, and no later change touches what was kept.
    have here : d'.contents? (d.place p.orig) = some source := by
      obtain ⟨front, name, namedP⟩ := replaced.named
      have kept := contents?_of_read (replaced.copy p.orig (by rw [replaced.path]; rfl))
      have still := after.leaves_orig namedP (contents?_of_read written)
        (Transformer.tab_notMem_expandBytes width source)
        (fun a mem => by rw [same, same]; exact apart p List.mem_cons_self a (inRest a mem))
        (fun a mem => by rw [same, same]; exact apart a (inRest a mem) p List.mem_cons_self)
      rw [same] at still kept
      rw [contents?_eq_some] at kept ⊢
      rw [still, kept]
    intro q mem
    by_cases samePlace : d.place q = d.place p
    · refine ⟨source, samePlace ▸ contents?_of_read read, fun _ => ?_⟩
      obtain ⟨front, name, namedP⟩ := replaced.named
      obtain ⟨front', name', namedQ⟩ := named q mem
      rw [(orig_place_eq_iff namedQ namedP).mpr samePlace]
      exact here
    · have later := (List.mem_cons.mp mem).resolve_left fun eq => samePlace (congrArg d.place eq)
      obtain ⟨contents, there, kept⟩ := ih (fun a inA => named a (inRest a inA))
        (fun a inA b inB => by rw [same, same]; exact apart a (inRest a inA) b (inRest b inB))
        q later
      have outside := expanded_touched replaced.path samePlace
        (apart p List.mem_cons_self q mem).symm
      rw [same, replaced.confined.contents? outside] at there
      rw [same] at kept
      exact ⟨contents, there, kept⟩

end Run

open Run Disk

/-- A later run of tab expansion over the same files, of whatever width, changes nothing: no file
has tabs any more.  What a file with tabs held is still kept beside it, and what stood beside a file
without tabs is still there. -/
theorem run_expandTabs_again {options : RunOptions} {width : Nat} {paths : List Path} {d d' : Disk}
    {report : Report} (writes : options.dryRun = false) (stands : d.Stands)
    (apart : ∀ p ∈ paths, ∀ q ∈ paths, p ≠ q → d.place p.orig ≠ d.place q)
    (h : (run options (.expandTabs width) paths).perform d = (.ok report, d'))
    (again : RunOptions) (width' : Nat) :
    (∃ report', (run again (.expandTabs width') paths).perform d' = (.ok report', d') ∧
      report'.changes = []) ∧
    ∀ p ∈ paths, ∃ source, d.contents? (d.place p) = some source ∧
      (Tabs.tab ∈ source → d'.read p.orig = .ok source) ∧
      (Tabs.tab ∉ source → d'.look (d'.place p.orig) = d.look (d.place p.orig)) := by
  obtain ⟨files, _⟩ := run_ok h
  have runs := runs_of_files writes (fun policy => by cases policy) files
  have same := place_congr runs.confined.current
  have named := runs.named stands
  have apart' : ∀ p ∈ paths, ∀ q ∈ paths, d.place p.orig ≠ d.place q := by
    intro p inP q inQ
    by_cases eq : p = q
    · obtain ⟨front, name, namedP⟩ := named p inP
      exact eq ▸ (Backup.orig_place_ne namedP d).symm
    · exact apart p inP q inQ eq
  have clean := runs.expanded apart'
  have none_ := files_without_tabs again width' 0 clean
  refine ⟨⟨_, Action.perform_bind_ok.mpr ⟨[], d', none_, rfl⟩, rfl⟩, fun p mem => ?_⟩
  obtain ⟨source, there, kept⟩ := runs.originals named apart' p mem
  obtain ⟨front, name, namedP⟩ := named p mem
  obtain ⟨contents, read, _⟩ := clean p mem
  refine ⟨source, there, fun some_ => read_ok_iff.mpr ⟨?_, ?_⟩, fun noTab => ?_⟩
  · exact Backup.orig_reaches namedP (read_ok_iff.mp read).1
  · rw [same]
    exact contents?_eq_some.mp (kept some_)
  · rw [same]
    exact runs.leaves_orig namedP there noTab (apart' p mem) fun q inQ => apart' q inQ p mem

/-- Files with tabs, one of which is not in UTF-8 and was kept before. -/
def tabbed : Disk where
  root := .dir [("a.cpp".toList, .file (Utf8.encode "\tint x;\n".toList)),
    ("b.cpp".toList, .file [0xE9, 0x09, 0x0A]), ("b.cpp.orig".toList, .file [0x0A])]
  current := []

def tabbedPaths : List Path := [⟨"a.cpp".toList⟩, ⟨"b.cpp".toList⟩, ⟨"a.cpp".toList⟩]

theorem run_expandTabs_again_tabbed : ∃ report d',
    (run copying (.expandTabs 0) tabbedPaths).perform tabbed = (.ok report, d') ∧
      report.filesModified = tabbedPaths.take 2 ∧
      (∃ report', (run copying (.expandTabs 8) tabbedPaths).perform d' = (.ok report', d') ∧
        report'.changes = []) ∧
      d'.read ⟨"b.cpp.orig".toList⟩ = .ok [0xE9, 0x09, 0x0A] := by
  have computed : ∃ report ∈
      ((run copying (.expandTabs 0) tabbedPaths).perform tabbed).1.toOption,
      report.filesModified = tabbedPaths.take 2 := by
    decide +kernel
  obtain ⟨report, d', h, modified⟩ := Action.exists_of_toOption computed
  obtain ⟨unchanged, kept⟩ := run_expandTabs_again rfl (by decide +kernel) (by decide +kernel) h
    copying 8
  obtain ⟨source, there, orig, _⟩ := kept ⟨"b.cpp".toList⟩ (by decide)
  have contents : tabbed.contents? (tabbed.place ⟨"b.cpp".toList⟩) = some [0xE9, 0x09, 0x0A] := by
    decide +kernel
  cases there.symm.trans contents
  exact ⟨report, d', h, modified, unchanged, orig (by decide)⟩

end MemberLift
