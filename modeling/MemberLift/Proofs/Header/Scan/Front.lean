import MemberLift.Proofs.Header.Conventions
import MemberLift.Proofs.Header.Scan.Blocks
import MemberLift.Proofs.Lexer.Reads
import MemberLift.Proofs.Text.Lines

/-!
Declarations that end in front of a line.  What stands from that line on can be changed without a
scan finding anything else in front of it.
-/
namespace MemberLift.Scan

open Lexer

variable {c : Conventions}

theorem newlines_complete {line : Text} (complete : Text.Complete line) : line.newlines = 1 := by
  obtain ⟨body, single, rfl⟩ := complete
  rw [newlines_append, newlines_eq_zero single]
  rfl

theorem newlines_flatten {lines : List Text} (complete : ∀ line ∈ lines, Text.Complete line) :
    Text.newlines lines.flatten = lines.length := by
  induction lines with
  | nil => rfl
  | cons line lines ih =>
    rw [List.flatten_cons, newlines_append, newlines_complete (complete line List.mem_cons_self),
      ih fun other inside => complete other (List.mem_cons_of_mem line inside), List.length_cons,
      Nat.add_comm]

theorem Reads_line {line line' : Nat} {s rest : Text} {tokens : List Token} {t : Token}
    (h : Reads line s (tokens ++ [t]) line' rest) : line' = t.line + t.text.newlines := by
  induction tokens generalizing line s with
  | nil =>
    cases h with
    | step found done =>
      cases done
      obtain ⟨_, _, _, _, _, lines⟩ := next_some found
      exact lines
  | cons u tokens ih =>
    cases h with
    | step _ rest => exact ih rest

theorem reads_front {line : Nat} {front s : Text} {tokens more : List Token} {t : Token}
    (h : (lex line (front ++ s)).tokens = tokens ++ t :: more) (single : t.text.newlines = 0)
    (inFront : t.line < line + front.newlines) (s' : Text) :
    ∃ more', (lex line (front ++ s')).tokens = tokens ++ t :: more' := by
  have start : (lex line (front ++ s)).tokens = (tokens ++ [t]) ++ more := by
    rw [h, List.append_assoc, List.singleton_append]
  obtain ⟨line', rest, reads⟩ := Reads.of_lex start
  have lines := Reads_line reads
  obtain ⟨u, whole, count, again⟩ := reads.congr
  -- The text that is read ends in front of the last line feed of the first part.
  obtain ⟨a, rfl, rfl⟩ : ∃ a, front = u ++ a ∧ rest = a ++ s := by
    rcases List.append_eq_append_iff.mp whole with ⟨a, same, behind⟩ | ⟨a, same, behind⟩
    · rw [same, newlines_append] at count
      omega
    · exact ⟨a, same, behind⟩
  have feed : '\n' ∈ a := by
    by_contra none_
    rw [newlines_append, newlines_eq_zero none_] at inFront
    omega
  have read := (again (a ++ s') (alike_front feed rfl s s')).lex
  rw [← List.append_assoc] at read
  refine ⟨(lex line' (a ++ s')).tokens, ?_⟩
  rw [read, List.append_assoc, List.singleton_append]

theorem Ends.newlines {t : Token} (h : Ends t) : t.text.newlines = 0 := by
  rcases h with text | text
  · rw [text]
    rfl
  · rw [text]
    rfl

/-- A declaration that ends in front of a line does not depend on the text from that line on. -/
theorem declaration_front {line lookahead : Nat} {rest : Text} {front behind : List Text}
    {tokens : List Token} (start : Text.Complete rest)
    (complete : ∀ line ∈ front, Text.Complete line)
    (found : declaration line lookahead rest (front ++ behind) = .ok tokens)
    (inFront : ∀ t ∈ (lex line (rest ++ ((front ++ behind).take lookahead).flatten)).tokens[
      tokens.length]?, t.line ≤ line + front.length) (behind' : List Text) :
    declaration line lookahead rest (front ++ behind') = .ok tokens := by
  by_cases short : lookahead ≤ front.length
  · have same (lines : List Text) : (front ++ lines).take lookahead = front.take lookahead :=
      List.take_append_of_le_length short
    rw [declaration, same] at found ⊢
    exact found
  · have long (lines : List Text) : rest ++ ((front ++ lines).take lookahead).flatten =
        (rest ++ front.flatten) ++ (lines.take (lookahead - front.length)).flatten := by
      rw [List.take_append, List.take_of_length_le (by omega), List.flatten_append,
        List.append_assoc]
    have declared := declaration_ok found
    rw [long] at declared inFront
    obtain ⟨t, more, read, ends, again⟩ := declarationTokens?_stop declared
    rw [read] at inFront
    have line_ := inFront t (by simp)
    have lines : (rest ++ front.flatten).newlines = 1 + front.length := by
      rw [newlines_append, newlines_complete start, newlines_flatten complete]
    obtain ⟨more', read'⟩ := reads_front read ends.newlines (by omega)
      (behind'.take (lookahead - front.length)).flatten
    rw [declaration, long]
    simp only [read', again]

/-- The token that ends the declaration of a marked function. -/
def terminator? (c : Conventions) (lines : List Text) (m : Marked) : Option Token := do
  let line ← lines[m.line - 1]?
  let rest ← afterMarker? c.marker line
  (lex m.line (rest ++ ((lines.drop m.line).take c.maxLookahead).flatten)).tokens[m.tokens.length]?

theorem terminator?_at {above below : List Text} {line rest : Text} {m : Marked}
    (marked : afterMarker? c.marker line = some rest) (place : m.line = above.length + 1) :
    terminator? c (above.reverse ++ line :: below) m =
      (lex (above.length + 1) (rest ++ (below.take c.maxLookahead).flatten)).tokens[
        m.tokens.length]? := by
  have here : (above.reverse ++ line :: below)[above.length + 1 - 1]? = some line := by
    simp
  have behind : (above.reverse ++ line :: below).drop (above.length + 1) = below := by
    simp [List.drop_append]
  simp only [terminator?, place, here, behind, Option.bind_eq_bind, Option.bind_some, marked]

/-- Whether a marked function begins and ends in front of the line of an index. -/
def InFront (c : Conventions) (lines : List Text) (index : Nat) (m : Marked) : Prop :=
  m.line ≤ index ∧ ∀ t ∈ terminator? c lines m, t.line ≤ index

instance (c : Conventions) (lines : List Text) (index : Nat) (m : Marked) :
    Decidable (InFront c lines index m) :=
  inferInstanceAs (Decidable (_ ∧ _))

theorem complete_afterMarker (valid : c.Valid) {line rest : Text} (complete : Text.Complete line)
    (marked : afterMarker? c.marker line = some rest) : Text.Complete rest := by
  obtain ⟨body, single, rfl⟩ := complete
  have whole := Text.indentation_append_trimStart (body ++ ['\n'])
  rw [afterMarker?_some marked] at whole
  have ends : rest <:+ body ++ ['\n'] := ⟨_, by rw [← whole, List.append_assoc]⟩
  rcases List.suffix_concat_iff.mp ends with rfl | ⟨inner, rfl, behind⟩
  · obtain ⟨a, m, marker, _⟩ := valid.marker
    rw [List.append_nil] at whole
    have last : c.marker <:+ body ++ ['\n'] := ⟨_, whole⟩
    rcases List.suffix_concat_iff.mp last with none_ | ⟨inner, same, _⟩
    · rw [marker] at none_
      cases none_
    · have inside : '\n' ∈ c.marker := by
        rw [same]
        exact List.mem_append_right _ List.mem_cons_self
      exact absurd inside valid.newline_notMem_marker
  · exact ⟨inner, fun inside => single (behind.subset inside), rfl⟩

/-- The lines in front of a line are scanned in the same way if their declarations end there. -/
theorem Scans.front (valid : c.Valid) {above front behind : List Text} {enclosing : Option Text}
    {scan : Scan} (complete : ∀ line ∈ front, Text.Complete line) (free : Free c front)
    (h : Scans c above enclosing .absent (front ++ behind) scan) :
    ∃ fs enclosing' rest, Scans c (front.reverse ++ above) enclosing' .absent behind rest ∧
      scan = ⟨fs ++ rest.functions, rest.block⟩ ∧
      ((∀ m ∈ fs, ∀ t ∈ terminator? c (above.reverse ++ (front ++ behind)) m,
          t.line ≤ above.length + front.length) →
        ∀ behind' rest', Scans c (front.reverse ++ above) enclosing' .absent behind' rest' →
          Scans c above enclosing .absent (front ++ behind')
            ⟨fs ++ rest'.functions, rest'.block⟩) := by
  induction front generalizing above enclosing scan with
  | nil =>
    exact ⟨[], enclosing, scan, h, rfl, fun _ _ _ again => again⟩
  | cons line front ih =>
    have here : (line :: above).reverse ++ (front ++ behind) =
        above.reverse ++ (line :: front ++ behind) := by simp
    have size : (line :: above).length + front.length = above.length + (line :: front).length := by
      simp only [List.length_cons]
      omega
    have place : front.reverse ++ line :: above = (line :: front).reverse ++ above := by simp
    have inner (enclosing : Option Text) {scan : Scan}
        (rest : Scans c (line :: above) enclosing .absent (front ++ behind) scan) :=
      ih (fun other inside => complete other (List.mem_cons_of_mem line inside)) free.tail rest
    simp only [here, size, place] at inner
    cases h with
    | sentinel found => rw [free.head] at found; cases found
    | inside _ open_ => cases open_
    | classHead plain outside named rest =>
      obtain ⟨fs, enclosing', last, behind_, same, again⟩ := inner _ rest
      exact ⟨fs, enclosing', last, behind_, same, fun inFront behind' rest' scans =>
        .classHead plain outside named (again inFront behind' rest' scans)⟩
    | plain plain outside noClass noMarker rest =>
      obtain ⟨fs, enclosing', last, behind_, same, again⟩ := inner _ rest
      exact ⟨fs, enclosing', last, behind_, same, fun inFront behind' rest' scans =>
        .plain plain outside noClass noMarker (again inFront behind' rest' scans)⟩
    | @marker _ _ _ _ behind_ name tokens scan plain outside noClass marked declared rest =>
      obtain ⟨fs, enclosing', last, behind_, same, again⟩ := inner _ rest
      refine ⟨_ :: fs, enclosing', last, behind_, congrArg (push _) same,
        fun inFront behind' rest' scans => ?_⟩
      have later := again (fun m inside => inFront m (List.mem_cons_of_mem _ inside)) behind' rest'
        scans
      have ends := inFront _ List.mem_cons_self
      rw [List.cons_append, terminator?_at marked rfl] at ends
      have first := complete_afterMarker valid (complete line List.mem_cons_self) marked
      have front_ := fun other inside => complete other (List.mem_cons_of_mem line inside)
      have again' := declaration_front first front_ declared
        (fun t member => by rw [Nat.add_assoc, Nat.add_comm 1]; exact ends t member) behind'
      exact .marker plain outside noClass marked again' later

theorem Scans.behind_functions (valid : c.Valid) {front behind : List Text} {scan : Scan}
    (complete : ∀ line ∈ front, Text.Complete line) (free : Free c front)
    (h : Scans c [] none .absent (front ++ behind) scan)
    (inFront : ∀ m ∈ scan.functions, InFront c (front ++ behind) front.length m) :
    ∃ enclosing, Scans c front.reverse enclosing .absent behind ⟨[], scan.block⟩ ∧
      ∀ behind' block, Scans c front.reverse enclosing .absent behind' ⟨[], block⟩ →
        Scans c [] none .absent (front ++ behind') ⟨scan.functions, block⟩ := by
  obtain ⟨fs, enclosing, ⟨functions, block⟩, behind_, rfl, again⟩ := h.front valid complete free
  have none_ : functions = [] := by
    refine List.eq_nil_iff_forall_not_mem.mpr fun m member => ?_
    have later := behind_.line_lt m member
    have sooner := (inFront m (List.mem_append_right fs member)).1
    simp only [List.append_nil, List.length_reverse] at later
    omega
  subst none_
  rw [List.append_nil] at behind_ again inFront ⊢
  refine ⟨enclosing, behind_, fun behind' block' scans => ?_⟩
  have later := again (fun m member t ends => by simpa using (inFront m member).2 t ends) behind' _
    scans
  simpa using later

theorem Scans.front_nonempty {below : List Text} {enclosing : Option Text} {progress : Progress}
    {scan : Scan} (h : Scans c [] enclosing progress below scan) (marked : scan.functions ≠ [])
    {front : List Text} (inFront : ∀ m ∈ scan.functions, m.line ≤ front.length) : front ≠ [] := by
  rintro rfl
  obtain ⟨m, rest, functions⟩ := List.exists_cons_of_ne_nil marked
  have member : m ∈ scan.functions := by
    rw [functions]
    exact List.mem_cons_self
  exact absurd (Nat.lt_of_lt_of_le (h.line_lt m member) (inFront m member)) (Nat.lt_irrefl _)

end MemberLift.Scan
