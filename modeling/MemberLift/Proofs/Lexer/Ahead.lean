import MemberLift.Proofs.Lexer.Ends

/-!
How far the reader looks ahead.  A token depends on its own characters and on at most two behind it,
and neither blank space nor a slash, a semicolon or an opening brace behind a token belongs to it.
-/
namespace MemberLift.Lexer

def isVisible (c : Char) : Bool :=
  !Alphabet.isBlank c && c != '/' && c != ';' && c != '\x7b'

/-- What of a text can matter to the token in front of it. -/
def ahead (s : Text) : Text := (s.take 2).takeWhile isVisible

theorem ahead_head? (s : Text) : (ahead s).head? = s.head?.filter isVisible := by
  rw [ahead, List.head?_takeWhile, List.head?_take, if_neg (by decide)]

theorem ahead_cons (c : Char) (s : Text) :
    ahead (c :: s) = if isVisible c then c :: (s.take 1).takeWhile isVisible else [] := by
  rw [ahead, List.take_succ_cons, List.takeWhile_cons]

theorem ahead_cons_of_ahead (c : Char) {s s' : Text} (same : ahead s = ahead s') :
    ahead (c :: s) = ahead (c :: s') := by
  have first := congrArg (List.take 1) same
  simp only [ahead, List.take_takeWhile, List.take_take, show min 1 2 = 1 from rfl] at first
  rw [ahead_cons, ahead_cons, first]

theorem ahead_append (t : Text) {s s' : Text} (same : ahead s = ahead s') :
    ahead (t ++ s) = ahead (t ++ s') := by
  induction t with
  | nil => exact same
  | cons c t ih => exact ahead_cons_of_ahead c ih

/-- Whether two texts begin with the same character, as far as it can matter. -/
def SameHead (s s' : Text) : Prop := s.head?.filter isVisible = s'.head?.filter isVisible

theorem sameHead_of_ahead {s s' : Text} (same : ahead s = ahead s') : SameHead s s' := by
  rw [SameHead, ← ahead_head?, ← ahead_head?, same]

theorem sameHead_of_ahead_cons {c : Char} {s s' : Text} (sees : isVisible c = true)
    (same : ahead (c :: s) = ahead (c :: s')) : SameHead s s' := by
  rw [ahead_cons, ahead_cons, if_pos sees, if_pos sees] at same
  have heads := congrArg List.head? (List.cons.inj same).2
  rw [List.head?_takeWhile, List.head?_takeWhile, List.head?_take, List.head?_take] at heads
  exact heads

theorem SameHead.head {s s' : Text} (same : SameHead s s') {c : Char} (sees : isVisible c = true)
    (first : s.head? = some c) : s'.head? = some c := by
  rw [SameHead, first, Option.filter_some, if_pos sees] at same
  exact (Option.filter_eq_some_iff.mp same.symm).1

theorem SameHead.test {s s' : Text} (same : SameHead s s') (p : Char → Bool)
    (sees : ∀ c, p c = true → isVisible c = true) :
    (s.head?.map p).getD false = (s'.head?.map p).getD false := by
  have one {a b : Text} (same : SameHead a b) (passes : (a.head?.map p).getD false = true) :
      (b.head?.map p).getD false = true := by
    cases a with
    | nil => cases passes
    | cons c a =>
      rw [same.head (sees c passes) rfl]
      exact passes
  exact Bool.eq_iff_iff.mpr ⟨one same, one same.symm⟩

theorem prefix_takeWhile_take_iff {p : Char → Bool} {m s : Text} {n : Nat}
    (passes : ∀ c ∈ m, p c = true) (short : m.length ≤ n) :
    m <+: (s.take n).takeWhile p ↔ m <+: s := by
  induction m generalizing s n with
  | nil => simp
  | cons a m ih =>
    cases n with
    | zero => cases short
    | succ n =>
      cases s with
      | nil => simp
      | cons b s =>
        have inner := ih (s := s) (fun c inside => passes c (List.mem_cons_of_mem a inside))
          (Nat.le_of_succ_le_succ short)
        rw [List.take_succ_cons, List.takeWhile_cons]
        split
        · rw [List.cons_prefix_cons, List.cons_prefix_cons, inner]
        · rename_i fails
          have differ : a ≠ b := by
            rintro rfl
            exact fails (passes a List.mem_cons_self)
          simp [List.cons_prefix_cons, differ]

theorem isPrefixOf_ahead {a c : Char} {m s s' : Text} (same : ahead s = ahead s')
    (sees : m.all isVisible = true) (short : m.length ≤ 2) :
    (a :: m).isPrefixOf (c :: s) = (a :: m).isPrefixOf (c :: s') := by
  have passes := List.all_eq_true.mp sees
  rw [Bool.eq_iff_iff, List.isPrefixOf_iff_prefix, List.isPrefixOf_iff_prefix,
    List.cons_prefix_cons, List.cons_prefix_cons, ← prefix_takeWhile_take_iff passes short,
    ← prefix_takeWhile_take_iff (s := s') passes short]
  have seen : (s.take 2).takeWhile isVisible = (s'.take 2).takeWhile isVisible := same
  rw [seen]

theorem isVisible_of_continues {c : Char} (h : Alphabet.continuesIdentifier c = true) :
    isVisible c = true := by
  have noMark : c ≠ '/' ∧ c ≠ ';' ∧ c ≠ '\x7b' := by
    refine ⟨?_, ?_, ?_⟩
    all_goals
      rintro rfl
      cases h
  cases blank : Alphabet.isBlank c with
  | false => simp [isVisible, blank, noMark]
  | true => rw [Alphabet.continuesIdentifier_of_isBlank blank] at h; cases h

theorem isVisible_of_isAlphanum (c : Char) (h : c.isAlphanum = true) : isVisible c = true :=
  isVisible_of_continues (Alphabet.continuesIdentifier_of_isAlphanum h)

theorem isVisible_of_continuesNumber {hex : Bool} {previous c : Char} {following : Text}
    (h : continuesNumber hex previous c following = true) : isVisible c = true := by
  simp only [continuesNumber, Bool.or_eq_true, Bool.and_eq_true, decide_eq_true_eq] at h
  rcases h with (((h | rfl) | rfl) | ⟨⟨rfl | rfl, _⟩, _⟩) | ⟨rfl, _⟩
  · exact isVisible_of_isAlphanum c h
  all_goals rfl

theorem continuesNumber_congr {s s' : Text} (same : SameHead s s') (hex : Bool)
    (previous c : Char) : continuesNumber hex previous c s = continuesNumber hex previous c s' := by
  rw [continuesNumber, continuesNumber, same.test Char.isAlphanum isVisible_of_isAlphanum]

theorem numberTail_stop {hex : Bool} {previous : Char} {s s' : Text}
    (stop : numberTail hex previous s = ([], s)) (same : ahead s = ahead s') :
    numberTail hex previous s' = ([], s') := by
  cases s' with
  | nil => rfl
  | cons c s' =>
    rw [numberTail]
    split
    · rename_i continues
      have sees := isVisible_of_continuesNumber continues
      obtain ⟨r, rfl⟩ := List.head?_eq_some_iff.mp ((sameHead_of_ahead same.symm).head sees rfl)
      rw [← continuesNumber_congr (sameHead_of_ahead_cons sees same)] at continues
      rw [numberTail, if_pos continues] at stop
      cases stop
    · rfl

theorem find?_congr {α : Type} {p q : α → Bool} {l : List α} (h : ∀ x ∈ l, p x = q x) :
    l.find? p = l.find? q := by
  induction l with
  | nil => rfl
  | cons x l ih =>
    rw [List.find?_cons, List.find?_cons, h x List.mem_cons_self,
      ih fun y inside => h y (List.mem_cons_of_mem x inside)]

theorem longMarks_visible : ∀ mark ∈ longMarks, mark.toList ≠ [] ∧
    mark.toList.tail.all isVisible = true ∧ mark.toList.tail.length ≤ 2 := by
  decide

end MemberLift.Lexer
