import Mathlib.Data.List.Basic
import MemberLift.Disk

/-!
Paths that end in a name.  `Named` cuts a path in front of its last name; from it follow the names
of the path's parent, of its siblings and of what stands in a directory beside it.
-/
namespace MemberLift

namespace Text

theorem splitAt_single {separator : Char} {t : Text} (single : separator ∉ t) :
    splitAt separator t = [t] := by
  induction t with
  | nil => rfl
  | cons c t ih =>
    simp only [List.mem_cons, not_or] at single
    rw [splitAt, if_neg (Ne.symm single.1), ih single.2]

theorem splitAt_ne_nil (separator : Char) (t : Text) : splitAt separator t ≠ [] := by
  cases t with
  | nil => exact List.cons_ne_nil _ _
  | cons c t =>
    rw [splitAt]
    split
    · exact List.cons_ne_nil _ _
    · split
      · exact List.cons_ne_nil _ _
      · exact List.cons_ne_nil _ _

theorem splitAt_append (separator : Char) (s t : Text) :
    splitAt separator (s ++ separator :: t) = splitAt separator s ++ splitAt separator t := by
  induction s with
  | nil =>
    rw [List.nil_append, splitAt.eq_2, if_pos rfl]
    rfl
  | cons c s ih =>
    rw [List.cons_append, splitAt, splitAt]
    by_cases here : c = separator
    · rw [if_pos here, if_pos here, ih]
      rfl
    · rw [if_neg here, if_neg here, ih]
      obtain ⟨piece, rest, pieces⟩ := List.exists_cons_of_ne_nil (splitAt_ne_nil separator s)
      rw [pieces]
      rfl

end Text

namespace Disk

def parts (t : Text) : List Text := (t.splitAt '/').filter fun segment => !segment.isEmpty

theorem segments_eq (p : Path) : segments p = parts p.text := rfl

/-- A name that can stand at the end of a path. -/
structure ProperName (name : Text) : Prop where
  nonempty : name ≠ []
  noSlash : '/' ∉ name
  notHere : name ≠ dot
  notUp : name ≠ dotDot

instance (name : Text) : Decidable (ProperName name) :=
  decidable_of_iff (name ≠ [] ∧ '/' ∉ name ∧ name ≠ dot ∧ name ≠ dotDot)
    ⟨fun ⟨nonempty, noSlash, notHere, notUp⟩ => ⟨nonempty, noSlash, notHere, notUp⟩,
      fun proper => ⟨proper.nonempty, proper.noSlash, proper.notHere, proper.notUp⟩⟩

/-- The text in front of a name: nothing, or something up to a slash. -/
def Leads (front : Text) : Prop := front = [] ∨ ['/'] <:+ front

/-- A path cut in front of its last name. -/
structure Named (p : Path) (front name : Text) : Prop where
  text : p.text = front ++ name
  leads : Leads front
  proper : ProperName name

variable {p q : Path} {front name : Text}

theorem Leads.splitAt (leads : Leads front) (noSlash : '/' ∉ name) :
    ∃ before, Text.splitAt '/' (front ++ name) = before ++ [name] ∧
      parts front = before.filter fun segment => !segment.isEmpty := by
  rcases leads with rfl | ⟨f, rfl⟩
  · exact ⟨[], Text.splitAt_single noSlash, rfl⟩
  · refine ⟨Text.splitAt '/' f, ?_, ?_⟩
    · rw [List.append_assoc, List.singleton_append, Text.splitAt_append,
        Text.splitAt_single noSlash]
    · rw [parts, Text.splitAt_append, List.filter_append]
      exact List.append_nil _

theorem parts_slash (t : Text) : parts (t ++ ['/']) = parts t := by
  rw [parts, Text.splitAt_append, List.filter_append]
  exact List.append_nil _

namespace Named

theorem segments (named : Named p front name) : Disk.segments p = parts front ++ [name] := by
  obtain ⟨before, pieces, same⟩ := named.leads.splitAt named.proper.noSlash
  rw [segments_eq, parts, named.text, pieces, List.filter_append, ← same]
  simp [named.proper.nonempty]

theorem lastName? (named : Named p front name) : Disk.lastName? p = some name := by
  obtain ⟨before, pieces, _⟩ := named.leads.splitAt named.proper.noSlash
  rw [Disk.lastName?, named.text, pieces, List.getLast?_concat]
  simp [named.proper.nonempty, named.proper.notHere, named.proper.notUp]

theorem text_ne_nil (named : Named p front name) : p.text ≠ [] := by
  rw [named.text]
  exact List.append_ne_nil_of_right_ne_nil _ named.proper.nonempty

theorem isAbsolute (named : Named p front name) : p.isAbsolute = (front.head? = some '/') := by
  rw [Path.isAbsolute, named.text, decide_eq_true_eq]
  rcases named.leads with rfl | ⟨f, rfl⟩
  · have other : name.head? ≠ some '/' := fun first =>
      named.proper.noSlash (List.mem_of_mem_head? first)
    simp [other]
  · rw [List.head?_append_of_ne_nil _ (List.concat_ne_nil _ _)]

end Named

theorem named_of_lastName (h : lastName? p = some name) : ∃ front, Named p front name := by
  have last {t : Text} {name : Text} (h : (t.splitAt '/').getLast? = some name) :
      ∃ front, t = front ++ name ∧ Leads front ∧ '/' ∉ name := by
    by_cases slash : '/' ∈ t
    · obtain ⟨after, before, reversed, single⟩ :=
        List.eq_append_cons_of_mem (List.mem_reverse.mpr slash)
      have whole : t = before.reverse ++ '/' :: after.reverse := by
        have back := congrArg List.reverse reversed
        simpa using back
      have single : '/' ∉ after.reverse := fun inside => single (List.mem_reverse.mp inside)
      rw [whole, Text.splitAt_append, Text.splitAt_single single, List.getLast?_concat] at h
      cases h
      exact ⟨before.reverse ++ ['/'], by simp [whole], .inr (List.suffix_append _ _), single⟩
    · rw [Text.splitAt_single slash] at h
      cases h
      exact ⟨[], rfl, .inl rfl, slash⟩
  rw [lastName?] at h
  split at h
  · cases h
  · rename_i piece found
    split at h
    · cases h
    · rename_i proper
      cases h
      simp only [Bool.or_eq_true, decide_eq_true_eq, not_or, List.isEmpty_iff] at proper
      obtain ⟨front, text, leads, noSlash⟩ := last found
      exact ⟨front, text, leads, proper.1.1, noSlash, proper.1.2, proper.2⟩

theorem proper_append (proper : ProperName name) {more : Text} (noSlash : '/' ∉ more)
    (long : 2 < more.length) : ProperName (name ++ more) := by
  have size : 2 < (name ++ more).length := by
    rw [List.length_append]
    omega
  refine ⟨?_, ?_, ?_, ?_⟩
  · exact List.append_ne_nil_of_left_ne_nil proper.nonempty _
  · simp [proper.noSlash, noSlash]
  · intro same
    rw [same] at size
    exact absurd size (by decide)
  · intro same
    rw [same] at size
    exact absurd size (by decide)

theorem Named.orig (named : Named p front name) :
    Named p.orig front (name ++ ".orig".toList) := by
  refine ⟨?_, named.leads, proper_append named.proper (by decide) (by decide)⟩
  rw [Path.orig, named.text, List.append_assoc]

theorem Named.orig_isAbsolute (named : Named p front name) :
    p.orig.isAbsolute = p.isAbsolute := by
  rw [Bool.eq_iff_iff, named.orig.isAbsolute, named.isAbsolute]

theorem component?_of_proper (proper : ProperName name) :
    Path.component? name = some (.name name) := by
  have notHere : name ≠ ['.'] := proper.notHere
  have notUp : name ≠ ['.', '.'] := proper.notUp
  simp [Path.component?, proper.nonempty, notHere, notUp]

theorem Named.fileName? (named : Named p front name) : p.fileName? = some name := by
  obtain ⟨before, pieces, _⟩ := named.leads.splitAt named.proper.noSlash
  have last : Path.component? name = some (.name name) := component?_of_proper named.proper
  have inner : ((p.text.splitAt '/').filterMap Path.component?).getLast? = some (.name name) := by
    rw [named.text, pieces, List.filterMap_append]
    simp [last]
  have whole : p.components.getLast? = some (.name name) := by
    obtain ⟨a, rest, shape⟩ : ∃ a rest,
        (p.text.splitAt '/').filterMap Path.component? = a :: rest := by
      cases empty : (p.text.splitAt '/').filterMap Path.component? with
      | nil => rw [empty] at inner; cases inner
      | cons a rest => exact ⟨a, rest, rfl⟩
    rw [shape] at inner
    simp only [Path.components, shape]
    split
    · rw [List.getLast?_cons_cons, inner]
    · split
      · rw [List.getLast?_cons_cons, inner]
      · exact inner
  rw [Path.fileName?, whole]

theorem parts_trimReversed (t : Text) :
    ∃ k, parts t.reverse = parts (Path.trimReversed t).reverse ++ List.replicate k dot := by
  induction t using Path.trimReversed.induct with
  | case1 => exact ⟨0, by rw [Path.trimReversed]; exact (List.append_nil _).symm⟩
  | case2 rest more ih =>
    rw [Path.trimReversed.eq_2 _ more, List.reverse_cons, parts_slash]
    exact ih
  | case3 rest ih =>
    obtain ⟨k, same⟩ := ih
    refine ⟨k + 1, ?_⟩
    have dotted : parts (rest.reverse ++ ['/'] ++ ['.']) = parts rest.reverse ++ [dot] := by
      rw [List.append_assoc, List.singleton_append, parts, Text.splitAt_append, List.filter_append]
      rfl
    rw [List.reverse_cons, parts_slash] at same
    rw [Path.trimReversed, List.reverse_cons, List.reverse_cons, dotted, same,
      List.replicate_succ', List.append_assoc]
  | case4 t notRoot notSlash notDot =>
    rw [Path.trimReversed.eq_4 t notRoot notSlash notDot]
    exact ⟨0, (List.append_nil _).symm⟩

theorem getLast?_trimReversed (t : Text) : (Path.trimReversed t).getLast? = t.getLast? := by
  induction t using Path.trimReversed.induct with
  | case1 => rw [Path.trimReversed]
  | case2 rest more ih =>
    rw [Path.trimReversed.eq_2 _ more, ih]
    obtain ⟨a, rest, rfl⟩ := List.exists_cons_of_ne_nil more
    rw [List.getLast?_cons_cons]
  | case3 rest ih => rw [Path.trimReversed, ih, List.getLast?_cons_cons]
  | case4 t notRoot notSlash notDot => rw [Path.trimReversed.eq_4 t notRoot notSlash notDot]

theorem trimReversed_of_proper (proper : ProperName name) (rest : Text) :
    Path.trimReversed (name.reverse ++ rest) = name.reverse ++ rest := by
  obtain ⟨a, shape⟩ : ∃ a tail, name.reverse = a :: tail :=
    List.exists_cons_of_ne_nil (by simpa using proper.nonempty)
  obtain ⟨tail, shape⟩ := shape
  have noSlash : '/' ∉ a :: tail := by
    rw [← shape, List.mem_reverse]
    exact proper.noSlash
  have notHere : a :: tail ≠ ['.'] := by
    rw [← shape]
    intro same
    have back := congrArg List.reverse same
    rw [List.reverse_reverse] at back
    exact proper.notHere back
  simp only [List.mem_cons, not_or] at noSlash
  rw [shape, List.cons_append]
  apply Path.trimReversed.eq_4
  · intro same
    exact noSlash.1 (List.cons.inj same).1.symm
  · intro rest same
    exact noSlash.1 (List.cons.inj same).1.symm
  · intro rest' same
    obtain ⟨rfl, behind⟩ := List.cons.inj same
    cases tail with
    | nil => exact notHere rfl
    | cons b tail =>
      have here : b = '/' := (List.cons.inj behind).1
      exact noSlash.2 (here ▸ List.mem_cons_self)

theorem Named.parent?_text (named : Named p front name) :
    p.parent? = some ⟨(Path.trimReversed front.reverse).reverse⟩ := by
  have reversed : p.text.reverse = name.reverse ++ front.reverse := by
    rw [named.text, List.reverse_append]
  have kept := trimReversed_of_proper named.proper front.reverse
  have noSlash : ∀ a ∈ name.reverse, (a ≠ '/' : Bool) = true := by
    intro a inside
    simp only [decide_eq_true_eq]
    rintro rfl
    exact named.proper.noSlash (List.mem_reverse.mp inside)
  have cut : (name.reverse ++ front.reverse).dropWhile (· ≠ '/') = front.reverse := by
    rw [List.dropWhile_append_of_pos noSlash]
    rcases named.leads with rfl | ⟨f, rfl⟩
    · rfl
    · rw [List.reverse_append]
      rfl
  rw [Path.parent?, reversed, kept]
  split
  · rename_i none_
    simp [named.proper.nonempty] at none_
  · rename_i root
    cases shape : name.reverse with
    | nil => simp [named.proper.nonempty] at shape
    | cons a tail =>
      rw [shape] at root noSlash
      have first : a = '/' := (List.cons.inj root).1
      simpa [first] using noSlash a List.mem_cons_self
  · rw [cut]

theorem Named.parent? (named : Named p front name) :
    ∃ q, p.parent? = some q ∧ (∃ k, parts front = parts q.text ++ List.replicate k dot) ∧
      q.isAbsolute = p.isAbsolute ∧ (q.text = [] ↔ front = []) := by
  have last := getLast?_trimReversed front.reverse
  rw [List.getLast?_reverse] at last
  refine ⟨_, named.parent?_text, ?_, ?_, ?_⟩
  · have same := parts_trimReversed front.reverse
    rwa [List.reverse_reverse] at same
  · rw [Bool.eq_iff_iff, named.isAbsolute, Path.isAbsolute, decide_eq_true_eq, List.head?_reverse,
      last]
  · constructor
    · intro empty
      rw [List.reverse_eq_nil_iff] at empty
      rw [empty] at last
      simpa using last.symm
    · rintro rfl
      rfl

theorem relative_of_proper (proper : ProperName name) : (Path.mk name).isAbsolute = false := by
  rw [Path.isAbsolute, decide_eq_false_iff_not]
  exact fun first => proper.noSlash (List.mem_of_mem_head? first)

theorem named_joinText (q : Path) (proper : ProperName name) :
    ∃ front, Named (q.joinText name) front name ∧ parts front = parts q.text ∧
      (q.joinText name).isAbsolute = q.isAbsolute := by
  rw [Path.joinText, Path.join, relative_of_proper proper]
  simp only [Bool.false_eq_true, if_false]
  split
  · rename_i bare
    have leads : Leads q.text := by
      rw [Bool.or_eq_true, List.isEmpty_iff, decide_eq_true_eq] at bare
      refine bare.imp_right fun last => ?_
      obtain ⟨front, whole⟩ := List.getLast?_eq_some_iff.mp last
      exact ⟨front, whole.symm⟩
    have named : Named ⟨q.text ++ name⟩ q.text name := ⟨rfl, leads, proper⟩
    refine ⟨q.text, named, rfl, ?_⟩
    rw [Bool.eq_iff_iff, named.isAbsolute, Path.isAbsolute, decide_eq_true_eq]
  · rename_i more
    have named : Named ⟨q.text ++ '/' :: name⟩ (q.text ++ ['/']) name :=
      ⟨by simp, .inr (List.suffix_append _ _), proper⟩
    refine ⟨_, named, parts_slash _, ?_⟩
    have nonempty : q.text ≠ [] := by
      intro empty
      simp [empty] at more
    rw [Bool.eq_iff_iff, named.isAbsolute, Path.isAbsolute, decide_eq_true_eq,
      List.head?_append_of_ne_nil _ nonempty]

theorem components_of_pieces (proper : ProperName name) {before after : List Text}
    (nonempty : before ≠ []) (absolute : p.isAbsolute = q.isAbsolute)
    (longer : p.text.splitAt '/' = before ++ [name]) (shorter : q.text.splitAt '/' = before ++ after)
    (bare : after.filterMap Path.component? = []) :
    p.components = q.components ++ [.name name] := by
  have last : [name].filterMap Path.component? = [.name name] := by
    rw [List.filterMap_cons_some (component?_of_proper proper), List.filterMap_nil]
  simp only [Path.components, longer, shorter, absolute, List.filterMap_append, bare, last,
    List.append_nil, List.head?_append_of_ne_nil _ nonempty]
  split
  · rfl
  · split
    · rfl
    · rfl

theorem components_of_proper (proper : ProperName name) :
    (Path.mk name).components = [.name name] := by
  have here : [name].head? ≠ some ['.'] := fun same => proper.notHere (Option.some.inj same)
  rw [Path.components, relative_of_proper proper, Text.splitAt_single proper.noSlash]
  simp only [Bool.false_eq_true, if_false, if_neg here]
  rw [List.filterMap_cons_some (component?_of_proper proper), List.filterMap_nil]

theorem hasComponentIn_of_proper (proper : ProperName name) (names : List Text) :
    (Path.mk name).hasComponentIn names = names.contains name := by
  unfold Path.hasComponentIn
  rw [components_of_proper proper, List.any_cons, List.any_nil, Bool.or_false]
  rfl

theorem components_joinText (q : Path) (proper : ProperName name) :
    (q.joinText name).components = q.components ++ [.name name] := by
  have single : Text.splitAt '/' name = [name] := Text.splitAt_single proper.noSlash
  obtain ⟨_, _, _, absolute⟩ := named_joinText q proper
  rw [Path.joinText, Path.join, relative_of_proper proper, if_neg Bool.false_ne_true] at absolute ⊢
  split
  · rename_i bare
    rw [if_pos bare] at absolute
    rw [Bool.or_eq_true, List.isEmpty_iff, decide_eq_true_eq] at bare
    rcases bare with empty | slash
    · obtain rfl : q = ⟨[]⟩ := congrArg Path.mk empty
      exact components_of_proper proper
    · obtain ⟨f, whole⟩ := List.getLast?_eq_some_iff.mp slash
      have longer : Text.splitAt '/' (q.text ++ name) = Text.splitAt '/' f ++ [name] := by
        rw [whole, List.append_assoc, List.singleton_append, Text.splitAt_append, single]
      have shorter : Text.splitAt '/' q.text = Text.splitAt '/' f ++ [[]] := by
        rw [whole, Text.splitAt_append]
        rfl
      exact components_of_pieces proper (Text.splitAt_ne_nil '/' f) absolute longer shorter rfl
  · rename_i more
    rw [if_neg more] at absolute
    have longer : Text.splitAt '/' (q.text ++ '/' :: name) = Text.splitAt '/' q.text ++ [name] := by
      rw [Text.splitAt_append, single]
    exact components_of_pieces proper (Text.splitAt_ne_nil '/' q.text) absolute longer
      (List.append_nil _).symm rfl

theorem Named.joinText_text (named : Named p front name) {name' : Text}
    (proper : ProperName name') : (p.joinText name').text = p.text ++ '/' :: name' := by
  have noSlash : p.text.getLast? ≠ some '/' := by
    rw [named.text, List.getLast?_append_of_ne_nil _ named.proper.nonempty]
    exact fun last => named.proper.noSlash (List.mem_of_getLast? last)
  rw [Path.joinText, Path.join, relative_of_proper proper]
  simp [named.text_ne_nil, noSlash]

theorem Named.parent?_joinText (named : Named p front name) {name' : Text}
    (proper : ProperName name') : (p.joinText name').parent? = some p := by
  have inner : Named (p.joinText name') (p.text ++ ['/']) name' :=
    ⟨by simp [named.joinText_text proper], .inr (List.suffix_append _ _), proper⟩
  have kept := trimReversed_of_proper named.proper front.reverse
  rw [← List.reverse_append, ← named.text] at kept
  rw [inner.parent?_text, List.reverse_append, List.reverse_singleton, List.singleton_append,
    Path.trimReversed.eq_2 _ (by simp [named.text_ne_nil]), kept, List.reverse_reverse]

end Disk

end MemberLift
