import Mathlib.Data.List.Infix
import Mathlib.Data.List.TakeWhile
import MemberLift.Proofs.Header.Conventions
import MemberLift.Proofs.Header.Scan.Blocks
import MemberLift.Proofs.Text.Endings

/-!
The sentinels of some lines, with the indices of their lines.  They alone decide which block a scan
finds and whether it faults the block; what the other lines hold does not matter for that.  A header
has no sentinels, or one that begins a block and one behind it that ends the block
(`ofLines_sentinels`).
-/
namespace MemberLift.Scan

variable {c : Conventions}

theorem sentinel?_opening {line : Text} (occurs : Text.occursIn c.blockBegin line = true) :
    sentinel? c line = some .opening := by
  rw [sentinel?, if_pos occurs]

theorem sentinel?_closing {line : Text} (noBegin : ¬ Text.occursIn c.blockBegin line = true)
    (occurs : Text.occursIn c.blockEnd line = true) : sentinel? c line = some .closing := by
  rw [sentinel?, if_neg noBegin, if_pos occurs]

theorem occursIn_of_opening {line : Text} (opens : sentinel? c line = some .opening) :
    Text.occursIn c.blockBegin line = true := by
  rw [sentinel?] at opens
  split at opens
  · assumption
  · split at opens <;> cases opens

theorem occursIn_of_closing {line : Text} (closes : sentinel? c line = some .closing) :
    Text.occursIn c.blockEnd line = true := by
  rw [sentinel?] at closes
  split at closes
  · cases closes
  · split at closes
    · assumption
    · cases closes

theorem occursIn_append (needle t : Text) : Text.occursIn needle (needle ++ t) = true :=
  (Text.occursIn_iff _ _).mpr (List.prefix_append needle t).isInfix

theorem not_occursIn_text {needle : Text} (nonblank : needle.trim ≠ []) (e : LineEnding) :
    ¬ Text.occursIn needle e.text = true := by
  intro occurs
  have blank : ∀ a ∈ needle, Alphabet.isBlank a = true := fun a inside =>
    e.text_blank a (((Text.occursIn_iff _ _).mp occurs).subset inside)
  apply nonblank
  rw [Text.trim, Text.trimStart, List.dropWhile_eq_nil_iff.mpr blank]
  rfl

theorem sentinel?_text (valid : c.Valid) (e : LineEnding) : sentinel? c e.text = none := by
  obtain ⟨_, _, blockBegin, blockEnd, _⟩ := Conventions.valid_iff.mp valid
  rw [sentinel?, if_neg (not_occursIn_text blockBegin e), if_neg (not_occursIn_text blockEnd e)]

theorem free_text (valid : c.Valid) {e : LineEnding} {lines : List Text}
    (same : ∀ line ∈ lines, line = e.text) : Free c lines := by
  intro line inside
  rw [same line inside]
  exact sentinel?_text valid e

/-- The sentinels of lines of which the first has the given index. -/
def sentinelsFrom (c : Conventions) : Nat → List Text → List (Nat × Sentinel)
  | _, [] => []
  | index, line :: below =>
    match sentinel? c line with
    | some sentinel => (index, sentinel) :: sentinelsFrom c (index + 1) below
    | none => sentinelsFrom c (index + 1) below

def sentinels (c : Conventions) (lines : List Text) : List (Nat × Sentinel) :=
  sentinelsFrom c 0 lines

theorem sentinelsFrom_some {line : Text} {sentinel : Sentinel}
    (here : sentinel? c line = some sentinel) (index : Nat) (below : List Text) :
    sentinelsFrom c index (line :: below) =
      (index, sentinel) :: sentinelsFrom c (index + 1) below := by
  rw [sentinelsFrom, here]

theorem sentinelsFrom_none {line : Text} (here : sentinel? c line = none) (index : Nat)
    (below : List Text) :
    sentinelsFrom c index (line :: below) = sentinelsFrom c (index + 1) below := by
  rw [sentinelsFrom, here]

theorem sentinelsFrom_append (index : Nat) (before after : List Text) :
    sentinelsFrom c index (before ++ after) =
      sentinelsFrom c index before ++ sentinelsFrom c (index + before.length) after := by
  induction before generalizing index with
  | nil => rfl
  | cons line before ih =>
    have size : index + 1 + before.length = index + (line :: before).length := by
      rw [List.length_cons]
      omega
    cases here : sentinel? c line with
    | some sentinel =>
      rw [List.cons_append, sentinelsFrom_some here, sentinelsFrom_some here, ih, size]
      rfl
    | none => rw [List.cons_append, sentinelsFrom_none here, sentinelsFrom_none here, ih, size]

theorem sentinelsFrom_eq_nil {index : Nat} {lines : List Text} :
    sentinelsFrom c index lines = [] ↔ Free c lines := by
  induction lines generalizing index with
  | nil => exact iff_of_true rfl Free.nil
  | cons line lines ih =>
    cases here : sentinel? c line with
    | some sentinel =>
      rw [sentinelsFrom_some here]
      refine iff_of_false (List.cons_ne_nil _ _) fun free => ?_
      rw [free.head] at here
      cases here
    | none =>
      rw [sentinelsFrom_none here, ih]
      exact ⟨Free.cons here, Free.tail⟩

theorem exists_of_mem_sentinelsFrom {index place : Nat} {lines : List Text} {sentinel : Sentinel}
    (inside : (place, sentinel) ∈ sentinelsFrom c index lines) :
    ∃ line ∈ lines, sentinel? c line = some sentinel := by
  induction lines generalizing index with
  | nil => cases inside
  | cons line lines ih =>
    have below (inside : (place, sentinel) ∈ sentinelsFrom c (index + 1) lines) :
        ∃ other ∈ line :: lines, sentinel? c other = some sentinel := by
      obtain ⟨other, member, found⟩ := ih inside
      exact ⟨other, List.mem_cons_of_mem line member, found⟩
    cases here : sentinel? c line with
    | some first =>
      rw [sentinelsFrom_some here] at inside
      rcases List.mem_cons.mp inside with same | inside
      · cases same
        exact ⟨line, List.mem_cons_self, here⟩
      · exact below inside
    | none =>
      rw [sentinelsFrom_none here] at inside
      exact below inside

theorem sentinelsFrom_eq_cons {index place : Nat} {lines : List Text} {sentinel : Sentinel}
    {rest : List (Nat × Sentinel)}
    (h : sentinelsFrom c index lines = (place, sentinel) :: rest) :
    ∃ before line after, lines = before ++ line :: after ∧ Free c before ∧
      sentinel? c line = some sentinel ∧ place = index + before.length ∧
      sentinelsFrom c (place + 1) after = rest := by
  induction lines generalizing index with
  | nil => cases h
  | cons line lines ih =>
    cases here : sentinel? c line with
    | some first =>
      rw [sentinelsFrom_some here] at h
      cases h
      exact ⟨[], line, lines, rfl, Free.nil, here, rfl, rfl⟩
    | none =>
      rw [sentinelsFrom_none here] at h
      obtain ⟨before, other, after, rfl, free, found, rfl, behind⟩ := ih h
      refine ⟨line :: before, other, after, rfl, free.cons here, found, ?_, behind⟩
      rw [List.length_cons]
      omega

theorem divided_of_sentinels {lines : List Text} {opening closing : Nat}
    (h : sentinels c lines = [(opening, .opening), (closing, .closing)]) :
    ∃ front first inside last back, Divided c lines front first inside last back ∧
      opening = front.length ∧ closing = front.length + 1 + inside.length := by
  obtain ⟨front, first, behind, rfl, free, opens, place, rest⟩ := sentinelsFrom_eq_cons h
  obtain ⟨inside, last, back, rfl, middle, closes, place', rest⟩ := sentinelsFrom_eq_cons rest
  rw [Nat.zero_add] at place
  exact ⟨front, first, inside, last, back,
    ⟨rfl, free, opens, middle, closes, sentinelsFrom_eq_nil.mp rest⟩, place, place ▸ place'⟩

theorem Divided.sentinels {lines front inside back : List Text} {first last : Text}
    (h : Divided c lines front first inside last back) :
    sentinels c lines =
      [(front.length, .opening), (front.length + 1 + inside.length, .closing)] := by
  obtain ⟨rfl, free, opens, middle, closes, behind⟩ := h
  rw [Scan.sentinels, sentinelsFrom_append, sentinelsFrom_eq_nil.mpr free, sentinelsFrom_some opens,
    sentinelsFrom_append, sentinelsFrom_eq_nil.mpr middle, sentinelsFrom_some closes,
    sentinelsFrom_eq_nil.mpr behind, Nat.zero_add]
  rfl

/-- What sentinels make of the block, one after the other. -/
def Progress.follow : Progress → List (Nat × Sentinel) → Except ScanFault (Option Block)
  | progress, [] => progress.finish
  | progress, (index, sentinel) :: rest =>
    (progress.advance index sentinel).bind fun next => next.follow rest

variable {above below : List Text} {enclosing : Option Text} {progress : Progress}

/-- A scan that succeeds finds the block that the sentinels make. -/
theorem Scans.follow {scan : Scan} (h : Scans c above enclosing progress below scan) :
    progress.follow (sentinelsFrom c above.length below) = .ok scan.block := by
  induction h with
  | done finished => exact finished
  | sentinel here advanced _ ih =>
    rw [sentinelsFrom_some here, Progress.follow, advanced]
    exact ih
  | inside here _ _ ih => rw [sentinelsFrom_none here]; exact ih
  | classHead here _ _ _ ih => rw [sentinelsFrom_none here]; exact ih
  | plain here _ _ _ _ ih => rw [sentinelsFrom_none here]; exact ih
  | marker here _ _ _ _ _ ih => rw [sentinelsFrom_none here]; exact ih

theorem declaration_ne_unbalanced {line lookahead index : Nat} {rest : Text} {below : List Text}
    {cause : BlockFault} :
    declaration line lookahead rest below ≠ .error (.unbalanced index cause) := by
  rw [declaration]
  generalize Lexer.lex line (rest ++ (below.take lookahead).flatten) = lexed
  intro failed
  split at failed <;> cases failed

theorem follow_of_unbalanced {line : Nat} {cause : BlockFault}
    (h : scanBelow c above enclosing progress below = .error (.unbalanced line cause)) :
    progress.follow (sentinelsFrom c above.length below) = .error (.unbalanced line cause) := by
  induction below generalizing above enclosing progress with
  | nil =>
    rw [scanBelow] at h
    rw [sentinelsFrom, Progress.follow]
    cases finished : progress.finish with
    | error fault => rw [finished] at h; cases h; rfl
    | ok block => rw [finished] at h; cases h
  | cons first below ih =>
    cases role c enclosing progress first with
    | @sentinel sentinel here =>
      rw [scanBelow_sentinel here] at h
      rw [sentinelsFrom_some here, Progress.follow]
      cases advanced : progress.advance above.length sentinel with
      | error fault => rw [advanced] at h; cases h; rfl
      | ok next =>
        rw [advanced] at h
        exact ih h
    | inside here open_ =>
      rw [sentinelsFrom_none here]
      exact ih (scanBelow_inside here open_ ▸ h)
    | classHead here open_ named =>
      rw [sentinelsFrom_none here]
      exact ih (scanBelow_class here open_ named ▸ h)
    | plain here open_ named marked =>
      rw [sentinelsFrom_none here]
      exact ih (scanBelow_plain here open_ named marked ▸ h)
    | orphan here open_ named marked nowhere =>
      rw [nowhere, scanBelow_noClass here open_ named marked] at h
      cases h
    | @marker rest name here open_ named marked member =>
      subst member
      rw [sentinelsFrom_none here]
      rw [scanBelow_marker here open_ named marked] at h
      cases declared : declaration (above.length + 1) c.maxLookahead rest below with
      | error fault =>
        rw [declared] at h
        cases h
        exact absurd declared declaration_ne_unbalanced
      | ok tokens =>
        rw [declared] at h
        simp only [Except.bind] at h
        cases scanned : scanBelow c (first :: above) (some name) progress below with
        | error fault => rw [scanned] at h; cases h; exact ih scanned
        | ok scan => rw [scanned] at h; cases h

/-- The sentinels of some lines in order: a line with the begin text opens a block, and one with the
end text alone closes it. -/
def sentinelWord (c : Conventions) (lines : List Text) : List Sentinel :=
  lines.filterMap fun line =>
    if c.blockBegin <:+: line then some .opening
    else if c.blockEnd <:+: line then some .closing
    else none

theorem sentinelWord_eq (lines : List Text) :
    sentinelWord c lines = lines.filterMap (sentinel? c) := by
  refine congrArg (List.filterMap · lines) (funext fun line => ?_)
  simp only [sentinel?, Text.occursIn_iff]

theorem sentinelWord_free {lines : List Text} (free : Free c lines) :
    sentinelWord c lines = [] := by
  rw [sentinelWord_eq]
  exact List.filterMap_eq_nil_iff.mpr free

theorem sentinelsFrom_word (index : Nat) (lines : List Text) :
    (sentinelsFrom c index lines).map Prod.snd = sentinelWord c lines := by
  induction lines generalizing index with
  | nil => rfl
  | cons line lines ih =>
    cases here : sentinel? c line with
    | some sentinel =>
      rw [sentinelsFrom_some here, List.map_cons, ih, sentinelWord_eq, sentinelWord_eq,
        List.filterMap_cons_some here]
    | none =>
      rw [sentinelsFrom_none here, ih, sentinelWord_eq, sentinelWord_eq,
        List.filterMap_cons_none here]

/-- Whether a block is the one that the sentinels of some lines bound. -/
def Bounds (c : Conventions) (lines : List Text) : Option Block → Prop
  | none => sentinelWord c lines = []
  | some block =>
    sentinelWord c lines = [.opening, .closing] ∧ block.opening < block.closing ∧
      (∃ line ∈ lines[block.opening]?, c.blockBegin <:+: line) ∧
      ∃ line ∈ lines[block.closing]?, ¬ c.blockBegin <:+: line ∧ c.blockEnd <:+: line

theorem Divided.bounds {lines front inside back : List Text} {first last : Text}
    (h : Divided c lines front first inside last back) :
    Bounds c lines (some ⟨front.length, front.length + 1 + inside.length⟩) := by
  have word : sentinelWord c lines = [.opening, .closing] := by
    have places : sentinelsFrom c 0 lines = _ := h.sentinels
    rw [← sentinelsFrom_word 0, places]
    rfl
  obtain ⟨rfl, _, opens, _, closes, _⟩ := h
  have after : front ++ first :: (inside ++ last :: back) =
      (front ++ first :: inside) ++ last :: back := by simp
  have place : front.length + 1 + inside.length = (front ++ first :: inside).length := by
    simp only [List.length_append, List.length_cons]
    omega
  have begins := (Text.occursIn_iff _ _).mp (occursIn_of_opening opens)
  have ends := (Text.occursIn_iff _ _).mp (occursIn_of_closing closes)
  have alone : ¬ c.blockBegin <:+: last := by
    intro occurs
    rw [sentinel?_opening ((Text.occursIn_iff _ _).mpr occurs)] at closes
    cases closes
  refine ⟨word, by simp only; omega, ⟨first, by simp, begins⟩, ⟨last, ?_, alone, ends⟩⟩
  simp only [after, place]
  simp

theorem bounds_of_ok {lines : List Text} {scan : Scan} (h : ofLines c lines = .ok scan) :
    Bounds c lines scan.block := by
  rcases (scans_of_ok h).absent with ⟨block, free⟩ | ⟨_, _, _, _, _, divided, block⟩
  · rw [block]
    exact sentinelWord_free free
  · rw [block, List.length_nil, Nat.zero_add]
    exact divided.bounds

theorem follow_balanced {lines : List Text}
    (word : sentinelWord c lines = [] ∨ sentinelWord c lines = [.opening, .closing]) :
    ∃ block, Progress.absent.follow (sentinels c lines) = .ok block := by
  rw [← sentinelsFrom_word 0, ← sentinels] at word
  rcases word with none_ | two
  · rw [List.map_eq_nil_iff.mp none_]
    exact ⟨none, rfl⟩
  · obtain ⟨opening, rest, whole, opens, behind⟩ := List.map_eq_cons_iff.mp two
    obtain ⟨closing, rest', rfl, closes, none_⟩ := List.map_eq_cons_iff.mp behind
    obtain rfl := List.map_eq_nil_iff.mp none_
    obtain ⟨begin_, _⟩ := opening
    obtain ⟨end_, _⟩ := closing
    cases opens
    cases closes
    rw [whole]
    exact ⟨some ⟨begin_, end_⟩, rfl⟩

/-- A header must have no sentinels or those of one block.  Otherwise its scan fails; and if so, no
scan of it faults the block, and one that succeeds finds the block that they bound. -/
theorem ofLines_sentinels (c : Conventions) (lines : List Text) :
    (sentinelWord c lines ≠ [] → sentinelWord c lines ≠ [.opening, .closing] →
      ∃ fault, ofLines c lines = .error fault) ∧
    (sentinelWord c lines = [] ∨ sentinelWord c lines = [.opening, .closing] →
      ∀ line cause, ofLines c lines ≠ .error (.unbalanced line cause)) ∧
    ∀ scan, ofLines c lines = .ok scan → Bounds c lines scan.block := by
  refine ⟨fun some_ unbalanced => ?_, fun balanced line cause failed => ?_,
    fun scan found => bounds_of_ok found⟩
  · cases found : ofLines c lines with
    | error fault => exact ⟨fault, rfl⟩
    | ok scan =>
      have bounds := bounds_of_ok found
      cases block : scan.block with
      | none =>
        rw [block] at bounds
        exact absurd bounds some_
      | some b =>
        rw [block] at bounds
        exact absurd bounds.1 unbalanced
  · obtain ⟨block, followed⟩ := follow_balanced balanced
    have fault : Progress.absent.follow (sentinels c lines) = .error (.unbalanced line cause) :=
      follow_of_unbalanced failed
    rw [followed] at fault
    cases fault

def blockLines : List Text :=
  ["// BEGIN make_free_functions.py\n", "AFIO_MAKE_FREE_FUNCTION\n",
    "// END make_free_functions.py\n"].map String.toList

theorem ofLines_sentinels_twice :
    (∃ fault, ofLines .standard (blockLines ++ blockLines) = .error fault) ∧
      (∀ line cause, ofLines .standard blockLines ≠ .error (.unbalanced line cause)) ∧
      ofLines .standard blockLines = .ok ⟨[], some ⟨0, 2⟩⟩ ∧
      Bounds .standard blockLines (some ⟨0, 2⟩) := by
  have found : ofLines .standard blockLines = .ok ⟨[], some ⟨0, 2⟩⟩ := by decide +kernel
  obtain ⟨fails, _, _⟩ := ofLines_sentinels .standard (blockLines ++ blockLines)
  obtain ⟨_, balanced, bounds⟩ := ofLines_sentinels .standard blockLines
  exact ⟨fails (by decide +kernel) (by decide +kernel), balanced (.inr (by decide +kernel)), found,
    bounds _ found⟩

end MemberLift.Scan
