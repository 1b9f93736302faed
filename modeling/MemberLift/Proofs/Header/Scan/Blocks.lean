import MemberLift.Proofs.Header.Scan

/-!
Where the sentinels of a header stand.  A scan that succeeds goes over no sentinel at all, or
over one that opens the block and one behind it that closes the block.
-/
namespace MemberLift.Scan

variable {c : Conventions}

def Free (c : Conventions) (lines : List Text) : Prop := ∀ line ∈ lines, sentinel? c line = none

instance (c : Conventions) (lines : List Text) : Decidable (Free c lines) :=
  inferInstanceAs (Decidable (∀ line ∈ lines, _))

theorem Free.nil : Free c [] := fun line inside => by cases inside

theorem Free.cons {line : Text} {lines : List Text} (first : sentinel? c line = none)
    (rest : Free c lines) : Free c (line :: lines) := by
  intro other inside
  rcases List.mem_cons.mp inside with rfl | inside
  · exact first
  · exact rest other inside

theorem free_append {before after : List Text} (h : Free c (before ++ after)) :
    Free c before ∧ Free c after := by
  constructor
  · intro line inside
    exact h line (List.mem_append_left after inside)
  · intro line inside
    exact h line (List.mem_append_right before inside)

theorem Free.head {line : Text} {lines : List Text} (h : Free c (line :: lines)) :
    sentinel? c line = none := h line List.mem_cons_self

theorem Free.tail {line : Text} {lines : List Text} (h : Free c (line :: lines)) : Free c lines :=
  fun other inside => h other (List.mem_cons_of_mem line inside)

/-- Lines that the two sentinels of a block divide. -/
structure Divided (c : Conventions) (lines before : List Text) (opening : Text)
    (inside : List Text) (closing : Text) (after : List Text) : Prop where
  whole : lines = before ++ opening :: (inside ++ closing :: after)
  front : Free c before
  opens : sentinel? c opening = some .opening
  middle : Free c inside
  closes : sentinel? c closing = some .closing
  back : Free c after

theorem Scans.closed {above below : List Text} {enclosing : Option Text} {block : Block}
    {scan : Scan} (h : Scans c above enclosing (.closed block) below scan) :
    scan.block = some block ∧ Free c below := by
  generalize state : Progress.closed block = progress at h
  induction h with
  | done finished =>
    cases state
    cases finished
    exact ⟨rfl, Free.nil⟩
  | @sentinel _ _ _ _ _ _ _ sentinel _ advanced _ _ =>
    cases state
    cases sentinel <;> cases advanced
  | inside _ open_ _ _ =>
    cases state
    cases open_
  | classHead plain _ _ _ ih => exact ⟨(ih state).1, (ih state).2.cons plain⟩
  | plain plain _ _ _ _ ih => exact ⟨(ih state).1, (ih state).2.cons plain⟩
  | marker plain _ _ _ _ _ ih => exact ⟨(ih state).1, (ih state).2.cons plain⟩

theorem Scans.opened {above below : List Text} {enclosing : Option Text} {opening : Nat}
    {scan : Scan} (h : Scans c above enclosing (.opened opening) below scan) :
    ∃ inside closing after, below = inside ++ closing :: after ∧ Free c inside ∧
      sentinel? c closing = some .closing ∧
      Scans c (closing :: (inside.reverse ++ above)) enclosing
        (.closed ⟨opening, above.length + inside.length⟩) after scan := by
  generalize state : Progress.opened opening = progress at h
  induction h with
  | done finished =>
    cases state
    cases finished
  | @sentinel above below enclosing _ _ line _ sentinel found advanced rest _ =>
    cases state
    cases sentinel with
    | opening => cases advanced
    | closing =>
      cases advanced
      exact ⟨[], line, below, rfl, Free.nil, found, rest⟩
  | @inside above below enclosing _ line _ plain _ _ ih =>
    cases state
    obtain ⟨inside, closing, after, rfl, free, found, rest⟩ := ih rfl
    refine ⟨line :: inside, closing, after, rfl, free.cons plain, found, ?_⟩
    have size : (line :: above).length + inside.length =
        above.length + (line :: inside).length := by
      simp only [List.length_cons]
      omega
    rw [size] at rest
    simpa using rest
  | classHead _ outside _ _ _ => cases state; cases outside
  | plain _ outside _ _ _ _ => cases state; cases outside
  | marker _ outside _ _ _ _ _ => cases state; cases outside

theorem Scans.absent {above below : List Text} {enclosing : Option Text} {scan : Scan}
    (h : Scans c above enclosing .absent below scan) :
    (scan.block = none ∧ Free c below) ∨
      ∃ before opening inside closing after, Divided c below before opening inside closing after ∧
        scan.block = some ⟨above.length + before.length,
          above.length + before.length + 1 + inside.length⟩ := by
  generalize state : Progress.absent = progress at h
  -- A line without a sentinel stands in front of the block, if there is one.
  have front {above below : List Text} {line : Text} {scan : Scan}
      (plain : sentinel? c line = none)
      (rest : (scan.block = none ∧ Free c below) ∨
        ∃ before opening inside closing after, Divided c below before opening inside closing after ∧
          scan.block = some ⟨(line :: above).length + before.length,
            (line :: above).length + before.length + 1 + inside.length⟩) :
      (scan.block = none ∧ Free c (line :: below)) ∨
        ∃ before opening inside closing after,
          Divided c (line :: below) before opening inside closing after ∧
            scan.block = some ⟨above.length + before.length,
              above.length + before.length + 1 + inside.length⟩ := by
    rcases rest with ⟨none_, free⟩ | ⟨before, opening, inside, closing, after, divided, block⟩
    · exact .inl ⟨none_, free.cons plain⟩
    · obtain ⟨whole, front, opens, middle, closes, back⟩ := divided
      refine .inr ⟨line :: before, opening, inside, closing, after,
        ⟨congrArg (line :: ·) whole, front.cons plain, opens, middle, closes, back⟩, ?_⟩
      have size : (line :: above).length + before.length =
          above.length + (line :: before).length := by
        simp only [List.length_cons]
        omega
      rw [block, size]
  induction h with
  | done finished =>
    cases state
    cases finished
    exact .inl ⟨rfl, Free.nil⟩
  | @sentinel above below enclosing _ _ line scan sentinel found advanced rest _ =>
    cases state
    cases sentinel with
    | closing => cases advanced
    | opening =>
      cases advanced
      obtain ⟨inside, closing, after, rfl, middle, closes, behind⟩ := rest.opened
      obtain ⟨block, back⟩ := behind.closed
      refine .inr ⟨[], line, inside, closing, after,
        ⟨rfl, Free.nil, found, middle, closes, back⟩, ?_⟩
      rw [block]
      rfl
  | inside _ open_ _ _ =>
    cases state
    cases open_
  | classHead plain _ _ _ ih => exact front plain (ih state)
  | plain plain _ _ _ _ ih => exact front plain (ih state)
  | marker plain _ _ _ _ _ ih => exact front plain (ih state)

theorem Scans.free {above below : List Text} {enclosing : Option Text} {scan : Scan}
    (h : Scans c above enclosing .absent below scan) (none_ : scan.block = none) :
    Free c below := by
  rcases h.absent with ⟨_, free⟩ | ⟨_, _, _, _, _, _, there⟩
  · exact free
  · rw [none_] at there
    cases there

theorem scans_inside {above inside below : List Text} {enclosing : Option Text} {opening : Nat}
    {scan : Scan} (free : Free c inside)
    (rest : Scans c (inside.reverse ++ above) enclosing (.opened opening) below scan) :
    Scans c above enclosing (.opened opening) (inside ++ below) scan := by
  induction inside generalizing above with
  | nil => exact rest
  | cons line inside ih =>
    rw [List.reverse_cons, List.append_assoc] at rest
    exact .inside free.head rfl (ih free.tail rest)

theorem Scans.behind_inside {above inside below : List Text} {enclosing : Option Text}
    {opening : Nat} {scan : Scan} (free : Free c inside)
    (h : Scans c above enclosing (.opened opening) (inside ++ below) scan) :
    Scans c (inside.reverse ++ above) enclosing (.opened opening) below scan := by
  induction inside generalizing above with
  | nil => exact h
  | cons line inside ih =>
    cases h with
    | sentinel found => rw [free.head] at found; cases found
    | inside _ _ rest => simpa using ih free.tail rest
    | classHead _ outside => cases outside
    | plain _ outside => cases outside
    | marker _ outside => cases outside

theorem Scans.at_sentinel {above below : List Text} {enclosing : Option Text} {progress : Progress}
    {line : Text} {scan : Scan} {sentinel : Sentinel} (here : sentinel? c line = some sentinel)
    (h : Scans c above enclosing progress (line :: below) scan) :
    ∃ next, progress.advance above.length sentinel = .ok next ∧
      Scans c (line :: above) enclosing next below scan := by
  cases h with
  | sentinel found advanced rest =>
    rw [here] at found
    cases found
    exact ⟨_, advanced, rest⟩
  | inside plain => rw [here] at plain; cases plain
  | classHead plain => rw [here] at plain; cases plain
  | plain plain => rw [here] at plain; cases plain
  | marker plain => rw [here] at plain; cases plain

theorem Scans.behind_opening {above below : List Text} {enclosing : Option Text} {line : Text}
    {scan : Scan} (opens : sentinel? c line = some .opening)
    (h : Scans c above enclosing .absent (line :: below) scan) :
    Scans c (line :: above) enclosing (.opened above.length) below scan := by
  obtain ⟨next, advanced, rest⟩ := h.at_sentinel opens
  cases advanced
  exact rest

theorem Scans.behind_closing {above below : List Text} {enclosing : Option Text} {line : Text}
    {opening : Nat} {scan : Scan} (closes : sentinel? c line = some .closing)
    (h : Scans c above enclosing (.opened opening) (line :: below) scan) :
    Scans c (line :: above) enclosing (.closed ⟨opening, above.length⟩) below scan := by
  obtain ⟨next, advanced, rest⟩ := h.at_sentinel closes
  cases advanced
  exact rest

theorem Scans.line_lt {above below : List Text} {enclosing : Option Text} {progress : Progress}
    {scan : Scan} (h : Scans c above enclosing progress below scan) :
    ∀ m ∈ scan.functions, above.length < m.line := by
  induction h with
  | done => simp
  | sentinel _ _ _ ih => exact fun m member => Nat.lt_of_succ_lt (ih m member)
  | inside _ _ _ ih => exact fun m member => Nat.lt_of_succ_lt (ih m member)
  | classHead _ _ _ _ ih => exact fun m member => Nat.lt_of_succ_lt (ih m member)
  | plain _ _ _ _ _ ih => exact fun m member => Nat.lt_of_succ_lt (ih m member)
  | marker _ _ _ _ _ _ ih =>
    intro m member
    rcases List.mem_cons.mp member with rfl | member
    · exact Nat.lt_succ_self _
    · exact Nat.lt_of_succ_lt (ih m member)

/-- Lines without markers are scanned in the same way wherever they stand. -/
theorem Scans.unmarked {above below : List Text} {enclosing : Option Text} {progress : Progress}
    {scan : Scan} (h : Scans c above enclosing progress below scan)
    (outside : progress.isOpen = false) (free : Free c below) (none_ : scan.functions = [])
    (above' : List Text) (enclosing' : Option Text) {progress' : Progress} {block : Option Block}
    (outside' : progress'.isOpen = false) (finished : progress'.finish = .ok block) :
    Scans c above' enclosing' progress' below ⟨[], block⟩ := by
  induction h generalizing above' enclosing' with
  | done => exact .done finished
  | sentinel found => rw [free.head] at found; cases found
  | inside _ open_ => rw [outside] at open_; cases open_
  | classHead plain _ named _ ih =>
    exact .classHead plain outside' named (ih outside free.tail none_ _ _)
  | plain plain _ noClass noMarker _ ih =>
    exact .plain plain outside' noClass noMarker (ih outside free.tail none_ _ _)
  | marker => cases none_

theorem scans_block (above : List Text) (enclosing : Option Text) {inside after : List Text}
    {opening closing : Text} (opens : sentinel? c opening = some .opening) (free : Free c inside)
    (closes : sentinel? c closing = some .closing)
    (rest : ∀ above (block : Block),
      Scans c above enclosing (.closed block) after ⟨[], some block⟩) :
    Scans c above enclosing .absent (opening :: (inside ++ closing :: after))
      ⟨[], some ⟨above.length, above.length + 1 + inside.length⟩⟩ := by
  refine .sentinel opens rfl (scans_inside free (.sentinel closes rfl ?_))
  have size : (inside.reverse ++ opening :: above).length = above.length + 1 + inside.length := by
    simp only [List.length_append, List.length_reverse, List.length_cons]
    omega
  rw [size]
  exact rest _ _

theorem not_scans_of_opening {above inside after : List Text} {enclosing : Option Text}
    {opening : Nat} {line : Text} {scan : Scan} (free : Free c inside)
    (opens : sentinel? c line = some .opening) :
    ¬ Scans c above enclosing (.opened opening) (inside ++ line :: after) scan := by
  intro h
  obtain ⟨next, advanced, _⟩ := (h.behind_inside free).at_sentinel opens
  cases advanced

end MemberLift.Scan
