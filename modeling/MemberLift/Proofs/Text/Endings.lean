import Mathlib.Data.List.Basic
import Mathlib.Data.List.Induction
import MemberLift.Text.Line

/-!
Texts whose line feeds are replaced by a line ending.  Searches for texts without line feeds and
carriage returns, and the trimming of blank space, do not see the replacement.
-/
namespace MemberLift.LineEnding

/-- A text with every line feed replaced by a line ending. -/
def apply (e : LineEnding) (t : Text) : Text := t.flatMap fun c => if c = '\n' then e.text else [c]

def Plain (t : Text) : Prop := '\n' ∉ t ∧ '\r' ∉ t

instance (t : Text) : Decidable (Plain t) := inferInstanceAs (Decidable (_ ∧ _))

variable (e : LineEnding)

@[simp] theorem apply_nil : e.apply [] = [] := rfl

@[simp] theorem apply_append (a b : Text) : e.apply (a ++ b) = e.apply a ++ e.apply b :=
  List.flatMap_append

theorem apply_newline (t : Text) : e.apply ('\n' :: t) = e.text ++ e.apply t := by
  simp [apply]

theorem apply_cons {c : Char} (other : c ≠ '\n') (t : Text) :
    e.apply (c :: t) = c :: e.apply t := by
  simp [apply, other]

theorem apply_eq_self {t : Text} (single : '\n' ∉ t) : e.apply t = t := by
  induction t with
  | nil => rfl
  | cons c t ih =>
    simp only [List.mem_cons, not_or] at single
    rw [apply_cons e (Ne.symm single.1), ih single.2]

theorem apply_lf (t : Text) : lf.apply t = t := by
  induction t with
  | nil => rfl
  | cons c t ih =>
    by_cases feed : c = '\n'
    · rw [feed, apply_newline, ih]
      rfl
    · rw [apply_cons lf feed, ih]

theorem apply_flatten (ts : List Text) : e.apply ts.flatten = (ts.map e.apply).flatten := by
  induction ts with
  | nil => rfl
  | cons t ts ih => rw [List.flatten_cons, apply_append, ih, List.map_cons, List.flatten_cons]

theorem apply_flatMap {α : Type} (f : α → Text) (l : List α) :
    e.apply (l.flatMap f) = l.flatMap fun x => e.apply (f x) := List.flatMap_assoc

theorem apply_join (separator : Text) (pieces : List Text) :
    e.apply (Text.join separator pieces) =
      Text.join (e.apply separator) (pieces.map e.apply) := by
  induction pieces with
  | nil => rfl
  | cons piece rest ih =>
    cases rest with
    | nil => rfl
    | cons next rest =>
      rw [Text.join, apply_append, apply_append, ih]
      rfl
      intro none_
      cases none_

theorem text_eq : e.text = ['\n'] ∨ e.text = ['\r', '\n'] := by
  cases e with
  | lf => exact .inl rfl
  | crlf => exact .inr rfl

theorem text_snoc : e.text = e.text.dropLast ++ ['\n'] := by
  cases e with
  | lf => rfl
  | crlf => rfl

theorem text_blank : ∀ c ∈ e.text, Alphabet.isBlank c = true := by
  have feed : Alphabet.isBlank '\n' = true := by decide
  have return_ : Alphabet.isBlank '\r' = true := by decide
  cases e with
  | lf => simp [text, feed]
  | crlf => simp [text, feed, return_]

theorem apply_snoc_newline (t : Text) : e.apply (t ++ ['\n']) = e.apply t ++ e.text := by
  rw [apply_append, apply_newline, apply_nil, List.append_nil]

theorem apply_snoc {c : Char} (other : c ≠ '\n') (t : Text) :
    e.apply (t ++ [c]) = e.apply t ++ [c] := by
  rw [apply_append, apply_cons e other, apply_nil]

theorem apply_eq_nil_iff (t : Text) : e.apply t = [] ↔ t = [] := by
  cases t with
  | nil => simp
  | cons c t =>
    by_cases feed : c = '\n'
    · rcases e.text_eq with text | text
      · simp [feed, apply_newline, text]
      · simp [feed, apply_newline, text]
    · simp [apply_cons e feed]

theorem apply_injective {s t : Text} (same : e.apply s = e.apply t) : s = t := by
  induction s generalizing t with
  | nil => exact ((apply_eq_nil_iff e t).mp same.symm).symm
  | cons c s ih =>
    cases t with
    | nil => cases (apply_eq_nil_iff e _).mp same
    | cons d t =>
      -- A carriage return in front of a line feed cannot stand for itself.
      have clash {d : Char} {u v : Text} (other : d ≠ '\n')
          (h : e.text ++ e.apply u = d :: e.apply v) : False := by
        rcases e.text_eq with text | text
        · rw [text] at h
          exact other (List.cons.inj h).1.symm
        · rw [text] at h
          have behind : '\n' :: e.apply u = e.apply v := (List.cons.inj h).2
          cases v with
          | nil => cases behind
          | cons a v =>
            by_cases feed : a = '\n'
            · rw [feed, apply_newline, text] at behind
              cases (List.cons.inj behind).1
            · rw [apply_cons e feed] at behind
              exact feed (List.cons.inj behind).1.symm
      by_cases feed : c = '\n'
      · by_cases feed' : d = '\n'
        · rw [feed, feed', apply_newline, apply_newline, List.append_cancel_left_eq] at same
          rw [feed, feed', ih same]
        · rw [feed, apply_newline, apply_cons e feed'] at same
          exact (clash feed' same).elim
      · by_cases feed' : d = '\n'
        · rw [feed', apply_newline, apply_cons e feed] at same
          exact (clash feed same.symm).elim
        · rw [apply_cons e feed, apply_cons e feed'] at same
          obtain ⟨rfl, rest⟩ := List.cons.inj same
          rw [ih rest]

theorem apply_eq_cons {c : Char} {t u : Text} (h : e.apply t = c :: u) (noFeed : c ≠ '\n')
    (noReturn : c ≠ '\r') : ∃ v, t = c :: v ∧ u = e.apply v := by
  cases t with
  | nil => cases h
  | cons d v =>
    by_cases feed : d = '\n'
    · rw [feed, apply_newline] at h
      rcases e.text_eq with text | text
      · rw [text] at h
        exact absurd (List.cons.inj h).1.symm noFeed
      · rw [text] at h
        exact absurd (List.cons.inj h).1.symm noReturn
    · rw [apply_cons e feed] at h
      obtain ⟨rfl, rfl⟩ := List.cons.inj h
      exact ⟨v, rfl, rfl⟩

theorem head?_apply_iff {c : Char} (noFeed : c ≠ '\n') (noReturn : c ≠ '\r') (t : Text) :
    (e.apply t).head? = some c ↔ t.head? = some c := by
  constructor
  · intro first
    obtain ⟨u, whole⟩ := List.head?_eq_some_iff.mp first
    obtain ⟨v, rfl, _⟩ := apply_eq_cons e whole noFeed noReturn
    rfl
  · intro first
    obtain ⟨u, rfl⟩ := List.head?_eq_some_iff.mp first
    rw [apply_cons e noFeed]
    rfl

section Tests

variable {p : Char → Bool} (noFeed : p '\n' = false) (noReturn : p '\r' = false)

include noFeed noReturn

theorem head_text (t : Text) : ((e.text ++ t).head?.map p).getD false = false := by
  rcases e.text_eq with text | text
  · rw [text]
    exact noFeed
  · rw [text]
    exact noReturn

theorem head_apply (t : Text) :
    ((e.apply t).head?.map p).getD false = (t.head?.map p).getD false := by
  cases t with
  | nil => rfl
  | cons c t =>
    by_cases feed : c = '\n'
    · rw [feed, apply_newline, head_text e noFeed noReturn]
      exact noFeed.symm
    · rw [apply_cons e feed]
      rfl

theorem span_text (t : Text) :
    (e.text ++ t).takeWhile p = [] ∧ (e.text ++ t).dropWhile p = e.text ++ t := by
  cases e with
  | lf => simp [text, noFeed]
  | crlf => simp [text, noReturn]

theorem takeWhile_apply (t : Text) : (e.apply t).takeWhile p = t.takeWhile p := by
  induction t with
  | nil => rfl
  | cons c t ih =>
    by_cases feed : c = '\n'
    · rw [feed, apply_newline, (span_text e noFeed noReturn _).1, List.takeWhile_cons, noFeed]
      rfl
    · rw [apply_cons e feed, List.takeWhile_cons, List.takeWhile_cons, ih]

theorem dropWhile_apply (t : Text) : (e.apply t).dropWhile p = e.apply (t.dropWhile p) := by
  induction t with
  | nil => rfl
  | cons c t ih =>
    by_cases feed : c = '\n'
    · rw [feed, apply_newline, (span_text e noFeed noReturn _).2, List.dropWhile_cons, noFeed]
      exact (apply_newline e t).symm
    · rw [apply_cons e feed, List.dropWhile_cons, List.dropWhile_cons, ih]
      split
      · rfl
      · rw [apply_cons e feed]

end Tests

theorem Plain.not_prefix {needle : Text} (plain : Plain needle) (nonempty : needle ≠ []) {c : Char}
    (ends : c = '\n' ∨ c = '\r') (t : Text) : needle.isPrefixOf (c :: t) = false := by
  obtain ⟨a, rest, rfl⟩ := List.exists_cons_of_ne_nil nonempty
  rw [Bool.eq_false_iff, ne_eq, List.isPrefixOf_iff_prefix, List.cons_prefix_cons]
  rintro ⟨rfl, _⟩
  rcases ends with rfl | rfl
  · exact plain.1 List.mem_cons_self
  · exact plain.2 List.mem_cons_self

theorem Plain.tail {a : Char} {needle : Text} (plain : Plain (a :: needle)) : Plain needle :=
  ⟨fun inside => plain.1 (List.mem_cons_of_mem a inside),
    fun inside => plain.2 (List.mem_cons_of_mem a inside)⟩

theorem isPrefixOf_apply {needle : Text} (plain : Plain needle) (t : Text) :
    needle.isPrefixOf (e.apply t) = needle.isPrefixOf t := by
  induction needle generalizing t with
  | nil => rfl
  | cons a needle ih =>
    cases t with
    | nil => rfl
    | cons c t =>
      by_cases feed : c = '\n'
      · rw [feed, apply_newline, plain.not_prefix (by simp) (.inl rfl)]
        rcases e.text_eq with text | text
        · rw [text]
          exact plain.not_prefix (by simp) (.inl rfl) _
        · rw [text]
          exact plain.not_prefix (by simp) (.inr rfl) _
      · rw [apply_cons e feed, List.isPrefixOf, List.isPrefixOf, ih plain.tail]

theorem occursIn_text {needle : Text} (plain : Plain needle) (nonempty : needle ≠ []) (t : Text) :
    Text.occursIn needle (e.text ++ t) = Text.occursIn needle t := by
  have noFeed := plain.not_prefix nonempty (.inl rfl)
  have noReturn := plain.not_prefix nonempty (.inr rfl)
  cases e with
  | lf => simp [text, Text.occursIn, noFeed]
  | crlf => simp [text, Text.occursIn, noFeed, noReturn]

theorem occursIn_apply {needle : Text} (plain : Plain needle) (t : Text) :
    Text.occursIn needle (e.apply t) = Text.occursIn needle t := by
  by_cases nonempty : needle = []
  · have always (s : Text) : Text.occursIn [] s = true := by cases s <;> simp [Text.occursIn]
    rw [nonempty, always, always]
  · induction t with
    | nil => rfl
    | cons c t ih =>
      by_cases feed : c = '\n'
      · have one := occursIn_text lf plain nonempty t
        rw [feed, apply_newline, occursIn_text e plain nonempty, ih, ← one]
        rfl
      · have here := isPrefixOf_apply e plain (c :: t)
        rw [apply_cons e feed] at here ⊢
        rw [Text.occursIn, Text.occursIn, here, ih]

theorem cutBefore_text {needle : Text} (plain : Plain needle) (nonempty : needle ≠ []) (t : Text) :
    Text.cutBefore needle (e.text ++ t) =
      (Text.cutBefore needle t).map fun parts => (e.text ++ parts.1, parts.2) := by
  have noFeed := plain.not_prefix nonempty (.inl rfl)
  have noReturn := plain.not_prefix nonempty (.inr rfl)
  cases e with
  | lf => simp [text, Text.cutBefore, noFeed]
  | crlf => simp [text, Text.cutBefore, noFeed, noReturn, Function.comp_def]

theorem cutBefore_apply {needle : Text} (plain : Plain needle) (nonempty : needle ≠ [])
    (t : Text) :
    Text.cutBefore needle (e.apply t) =
      (Text.cutBefore needle t).map (Prod.map e.apply e.apply) := by
  induction t with
  | nil => simp [Text.cutBefore, nonempty]
  | cons c t ih =>
    by_cases feed : c = '\n'
    · have one := cutBefore_text lf plain nonempty t
      rw [feed, apply_newline, cutBefore_text e plain nonempty, ih,
        show '\n' :: t = lf.text ++ t from rfl, one]
      cases Text.cutBefore needle t with
      | none => rfl
      | some parts => simp [text, apply_newline]
    · have here := isPrefixOf_apply e plain (c :: t)
      rw [apply_cons e feed] at here ⊢
      rw [Text.cutBefore, Text.cutBefore, here, ih]
      split
      · simp [apply_cons e feed]
      · cases Text.cutBefore needle t with
        | none => rfl
        | some parts => simp [apply_cons e feed]

theorem isSuffixOf_apply {needle : Text} (plain : Plain needle) (t : Text) :
    needle.isSuffixOf (e.apply t) = needle.isSuffixOf t := by
  rw [Bool.eq_iff_iff, List.isSuffixOf_iff_suffix, List.isSuffixOf_iff_suffix]
  constructor
  · intro ends
    induction t using List.reverseRecOn generalizing needle with
    | nil => exact ends
    | append_singleton t c ih =>
      rcases needle.eq_nil_or_concat' with rfl | ⟨needle, a, rfl⟩
      · exact List.nil_suffix
      · obtain ⟨before, whole⟩ := ends
        rw [← List.append_assoc] at whole
        have inner : Plain needle :=
          ⟨fun inside => plain.1 (List.mem_append_left _ inside),
            fun inside => plain.2 (List.mem_append_left _ inside)⟩
        by_cases feed : c = '\n'
        · rw [feed, apply_snoc_newline, text_snoc, ← List.append_assoc] at whole
          obtain ⟨-, last⟩ := List.append_inj' whole rfl
          cases last
          exact absurd (List.mem_append_right _ List.mem_cons_self) plain.1
        · rw [apply_snoc e feed] at whole
          obtain ⟨rest, last⟩ := List.append_inj' whole rfl
          rw [last]
          exact List.suffix_append_self_iff.mpr (ih inner ⟨before, rest⟩)
  · rintro ⟨before, rfl⟩
    exact ⟨e.apply before, by rw [apply_append, apply_eq_self e plain.1]⟩

theorem trimStart_apply (t : Text) :
    Text.trimStart (e.apply t) = e.apply (Text.trimStart t) := by
  rw [Text.trimStart, Text.trimStart]
  induction t with
  | nil => rfl
  | cons c t ih =>
    by_cases feed : c = '\n'
    · rw [feed, apply_newline, List.dropWhile_append_of_pos e.text_blank, ih]
      rfl
    · rw [apply_cons e feed, List.dropWhile_cons, List.dropWhile_cons, ih]
      split
      · rfl
      · rw [apply_cons e feed]

theorem indentation_apply (t : Text) :
    Text.indentation (e.apply t) = e.apply (Text.indentation t) := by
  rw [Text.indentation, Text.indentation]
  induction t with
  | nil => rfl
  | cons c t ih =>
    by_cases feed : c = '\n'
    · rw [feed, apply_newline, List.takeWhile_append_of_pos e.text_blank, ih,
        List.takeWhile_cons_of_pos rfl, apply_newline]
    · rw [apply_cons e feed, List.takeWhile_cons, List.takeWhile_cons, ih]
      split
      · rw [apply_cons e feed]
      · rfl

theorem trimEnd_append_blank {t u : Text} (blank : ∀ c ∈ u, Alphabet.isBlank c = true) :
    Text.trimEnd (t ++ u) = Text.trimEnd t := by
  rw [Text.trimEnd, Text.trimEnd, List.reverse_append,
    List.dropWhile_append_of_pos fun c inside => blank c (List.mem_reverse.mp inside)]

theorem trimEnd_snoc {c : Char} (dark : ¬ Alphabet.isBlank c = true) (t : Text) :
    Text.trimEnd (t ++ [c]) = t ++ [c] := by
  rw [Text.trimEnd, List.reverse_append]
  simp [dark]

theorem trimEnd_apply (t : Text) : Text.trimEnd (e.apply t) = e.apply (Text.trimEnd t) := by
  induction t using List.reverseRecOn with
  | nil => rfl
  | append_singleton t c ih =>
    by_cases blank : Alphabet.isBlank c = true
    · rw [trimEnd_append_blank (u := [c]) (by simpa using blank), ← ih]
      by_cases feed : c = '\n'
      · rw [feed, apply_snoc_newline, trimEnd_append_blank e.text_blank]
      · rw [apply_snoc e feed, trimEnd_append_blank (by simpa using blank)]
    · have other : c ≠ '\n' := fun feed => blank (by rw [feed]; rfl)
      rw [apply_snoc e other, trimEnd_snoc blank, trimEnd_snoc blank, apply_snoc e other]

theorem trim_apply (t : Text) : Text.trim (e.apply t) = e.apply (Text.trim t) := by
  rw [Text.trim, trimStart_apply, trimEnd_apply]
  rfl

end MemberLift.LineEnding
