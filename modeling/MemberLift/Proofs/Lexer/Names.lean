import MemberLift.Proofs.Lexer.Ends

/-!
Names of ASCII letters, digits and underscores.  To a token in front of it, one name is like another
(`stops_name`).
-/
namespace MemberLift.Lexer

def beginsName (c : Char) : Bool := c = '_' || c.isAlpha

def isName : Text → Bool
  | [] => false
  | c :: rest => beginsName c && rest.all fun d => d = '_' || d.isAlphanum

theorem isName_cons {t : Text} (h : isName t = true) :
    ∃ c rest, t = c :: rest ∧ beginsName c = true ∧
      ∀ d ∈ rest, Alphabet.continuesIdentifier d = true := by
  cases t with
  | nil => cases h
  | cons c rest =>
    obtain ⟨begins, inside⟩ := Bool.and_eq_true_iff.mp h
    refine ⟨c, rest, rfl, begins, fun d member => ?_⟩
    rcases Bool.or_eq_true_iff.mp (List.all_eq_true.mp inside d member) with underscore | alphanum
    · rw [of_decide_eq_true underscore]
      rfl
    · exact Alphabet.continuesIdentifier_of_isAlphanum alphanum

theorem startsIdentifier_of_beginsName {c : Char} (h : beginsName c = true) :
    Alphabet.startsIdentifier c = true := by
  rcases Bool.or_eq_true_iff.mp h with underscore | alpha
  · rw [of_decide_eq_true underscore]
    rfl
  · exact Alphabet.startsIdentifier_of_isAlpha alpha

theorem not_isDigit_of_beginsName {c : Char} (h : beginsName c = true) : c.isDigit = false := by
  rcases Bool.or_eq_true_iff.mp h with underscore | alpha
  · rw [of_decide_eq_true underscore]
    rfl
  · exact Alphabet.not_isDigit_of_isAlpha alpha

theorem continuesNumber_of_beginsName {c : Char} (h : beginsName c = true) (hex : Bool)
    (previous : Char) (following : Text) : continuesNumber hex previous c following = true := by
  rcases Bool.or_eq_true_iff.mp h with underscore | alpha
  · simp [continuesNumber, of_decide_eq_true underscore]
  · simp [continuesNumber, Alphabet.isAlphanum_of_isAlpha alpha]

theorem ne_of_beginsName {c d : Char} (h : beginsName c = true) (other : beginsName d = false) :
    c ≠ d := by
  rintro rfl
  rw [h] at other
  cases other

theorem longMarks_nameless : ∀ mark ∈ longMarks, mark.toList.any beginsName = false := by
  decide

theorem prefix_of_notMem {m front s : Text} {c : Char} (absent : c ∉ m) (h : m <+: front ++ c :: s) :
    m <+: front := by
  induction front generalizing m with
  | nil =>
    cases m with
    | nil => exact List.nil_prefix
    | cons a m =>
      rw [List.nil_append, List.cons_prefix_cons] at h
      exact absurd (h.1 ▸ List.mem_cons_self) absent
  | cons d front ih =>
    cases m with
    | nil => exact List.nil_prefix
    | cons a m =>
      rw [List.cons_append, List.cons_prefix_cons] at h
      rw [List.cons_prefix_cons]
      exact ⟨h.1, ih (fun inside => absent (List.mem_cons_of_mem a inside)) h.2⟩

/-- Another name does not continue a number, unless it stands behind a lone quote, which goes on
with letters only. -/
theorem numberTail_name {c d : Char} (begins : beginsName c = true) {front : Text}
    (lone : front ≠ ['\'']) {s s' : Text} {hex : Bool} {previous : Char}
    (stop : numberTail hex previous (front ++ c :: s) = ([], front ++ c :: s)) :
    numberTail hex previous (front ++ d :: s') = ([], front ++ d :: s') := by
  cases front with
  | nil =>
    rw [List.nil_append, numberTail, if_pos (continuesNumber_of_beginsName begins ..)] at stop
    cases stop
  | cons a front =>
    have same : continuesNumber hex previous a (front ++ d :: s') =
        continuesNumber hex previous a (front ++ c :: s) := by
      cases front with
      | nil =>
        have noQuote : a ≠ '\'' := fun quote => lone (by rw [quote])
        simp only [continuesNumber, noQuote, decide_false, Bool.false_and]
      | cons b front => rfl
    rw [List.cons_append, numberTail] at stop ⊢
    rw [same]
    split at stop
    · cases stop
    · rename_i ends
      rw [if_neg ends]

theorem stops_name {c d : Char} (begins : beginsName c = true) (begins' : beginsName d = true)
    {front : Text} (lone : front ≠ ['\'']) (s s' : Text) :
    Stops (front ++ c :: s) (front ++ d :: s') where
  comment a opener first := by
    cases front with
    | nil =>
      rcases opener with rfl | rfl
      · exact absurd (Option.some.inj first) (ne_of_beginsName begins' rfl)
      · exact absurd (Option.some.inj first) (ne_of_beginsName begins' rfl)
    | cons e front => exact first
  word ends := by
    cases front with
    | nil =>
      have continues := Alphabet.continues_of_starts c (startsIdentifier_of_beginsName begins)
      exact absurd continues (Bool.eq_false_iff.mp ends)
    | cons e front => exact ends
  quote a quote first := by
    cases front with
    | nil =>
      rcases quote with rfl | rfl
      · exact absurd (Option.some.inj first) (ne_of_beginsName begins' rfl)
      · exact absurd (Option.some.inj first) (ne_of_beginsName begins' rfl)
    | cons e front => exact first
  digit ends := by
    cases front with
    | nil => exact not_isDigit_of_beginsName begins'
    | cons e front => exact ends
  number _ _ stop := numberTail_name begins lone stop
  mark mark inside a t begun := by
    have absent : d ∉ mark.toList := fun member =>
      absurd begins' (List.any_eq_false.mp (longMarks_nameless mark inside) d member)
    have short : mark.toList <+: a :: t ++ front := prefix_of_notMem absent (by simpa using begun)
    exact short.trans ⟨c :: s, by simp⟩

theorem quotedTail_ne_nil {quote : Char} {s tail rest : Text}
    (h : quotedTail quote s = some (tail, rest)) : tail ≠ [] := by
  unfold quotedTail at h
  split at h
  · cases h
  · obtain ⟨p, _, same⟩ := Option.map_eq_some_iff.mp h
    cases same
    exact List.cons_ne_nil _ _
  · split at h
    · cases h
    · split at h
      · cases h
        exact List.cons_ne_nil _ _
      · obtain ⟨p, _, same⟩ := Option.map_eq_some_iff.mp h
        cases same
        exact List.cons_ne_nil _ _

theorem lexeme_ne_quote {c : Char} {r : Text} {l : Lexeme} (h : lexeme c r = .ok l) :
    l.text ≠ ['\''] := by
  intro alone
  obtain ⟨tail, text, _⟩ := lexeme_stops h (stops_nil l.rest)
  rw [alone] at text
  cases text
  have quoted_ : lexeme '\'' r = quoted '\'' .charLiteral .character [] r := rfl
  rw [quoted_, quoted] at h
  split at h
  · cases h
  · rename_i tail rest found
    cases h
    exact quotedTail_ne_nil found (List.cons.inj alone).2

theorem lexeme_name {c : Char} {rest : Text} (name : isName (c :: rest) = true) (s : Text) :
    lexeme c (rest ++ ':' :: s) = .ok ⟨.identifier, c :: rest, ':' :: s⟩ := by
  obtain ⟨_, _, same, begins, inside⟩ := isName_cons name
  cases same
  have colon : Alphabet.continuesIdentifier ':' = false := rfl
  rw [lexeme, if_pos (startsIdentifier_of_beginsName begins),
    List.takeWhile_append_of_pos inside, List.dropWhile_append_of_pos inside]
  simp [colon, wordOrLiteral]

theorem lexeme_colons (s : Text) : lexeme ':' (':' :: s) = .ok ⟨.punctuator, "::".toList, s⟩ := rfl

end MemberLift.Lexer
