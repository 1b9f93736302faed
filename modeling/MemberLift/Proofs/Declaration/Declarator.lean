import Mathlib.Data.List.TakeWhile
import MemberLift.Proofs.Declaration.Recast
import MemberLift.Proofs.Token.Group

/-!
The names of parameters.  A name is an identifier in front of the default argument, which does not
matter for it (`Parameter.ofTokens_declarator`).  Once there is a name, neither does the spelling of
the other identifiers (`Parameter.ofTokens_alike`).
-/
namespace MemberLift

open MemberLift.Group

namespace Parameter

theorem itemsOf_declarator (tokens : List Token) :
    itemsOf (declarator tokens) = (itemsOf tokens).takeWhile fun item => !headMark "=" item :=
  items_front List.takeWhile_append_dropWhile.symm

theorem declarator_append (tokens : List Token) :
    ∃ default, tokens = declarator tokens ++ default := by
  refine ⟨((itemsOf tokens).dropWhile fun item => !headMark "=" item).flatten, ?_⟩
  rw [declarator, ← List.flatten_append, List.takeWhile_append_dropWhile, itemsOf, items_flatten]

theorem declarator_declarator (tokens : List Token) :
    declarator (declarator tokens) = declarator tokens := by
  rw [declarator, itemsOf_declarator, List.takeWhile_idem, declarator]

/-- The parts of a declarator with a plain name: something in front of it, the name itself, and
array extents behind it. -/
structure Plain (items front : List (List Token)) (name : Token) (extents : List (List Token)) :
    Prop where
  items : items = front ++ [name] :: extents
  preceded : front ≠ []
  identifier : name.isIdentifier = true
  noKeyword : typeKeywords.contains name.text = false
  unqualified : ((front.getLast?.bind List.getLast?).map (·.isMark "::")).getD false = false
  extents : ∀ item ∈ extents, headMark "[" item = true

theorem size_reverse (items : List (List Token)) : size items.reverse = size items := by
  simp [size, List.length_flatten, List.sum_reverse]

theorem plain_of_plainName {items : List (List Token)} {k : Nat} (h : plainName items = some k) :
    ∃ front name extents, Plain items front name extents ∧ k = size front := by
  have split := List.takeWhile_append_dropWhile (p := headMark "[") (l := items.reverse)
  unfold plainName at h
  split at h
  · rename_i name previous before found
    split at h
    · rename_i holds
      simp only [Bool.and_eq_true, Bool.not_eq_true'] at holds
      obtain ⟨⟨identifier, noKeyword⟩, unqualified⟩ := holds
      cases h
      rw [found] at split
      refine ⟨(previous :: before).reverse, name, (items.reverse.takeWhile (headMark "[")).reverse,
        ⟨?_, by simp, identifier, noKeyword, ?_, ?_⟩, (size_reverse _).symm⟩
      · have whole := congrArg List.reverse split
        rw [List.reverse_reverse, List.reverse_append, List.reverse_cons,
          List.append_assoc] at whole
        exact whole.symm
      · rw [List.getLast?_reverse]
        exact unqualified
      · intro item member
        exact List.mem_takeWhile_imp (List.mem_reverse.mp member)
    · cases h
  · cases h

theorem Plain.plainName {items front extents : List (List Token)} {name : Token}
    (h : Plain items front name extents) : plainName items = some (size front) := by
  have noExtent : headMark "[" [name] = false := Token.not_isMark_of_identifier h.identifier "["
  have found : items.reverse.dropWhile (headMark "[") = [name] :: front.reverse := by
    rw [h.items, List.reverse_append, List.reverse_cons, List.append_assoc,
      List.dropWhile_append_of_pos fun item member => h.extents item (List.mem_reverse.mp member)]
    simp [noExtent]
  have previous := h.unqualified
  rw [← List.head?_reverse] at previous
  rw [Parameter.plainName, found, ← size_reverse front]
  cases behind : front.reverse with
  | nil => exact absurd (List.reverse_eq_nil_iff.mp behind) h.preceded
  | cons last before =>
    rw [behind] at previous
    have allowed : (name.isIdentifier && !typeKeywords.contains name.text &&
        !(last.getLast?.map (·.isMark "::")).getD false) = true := by
      rw [h.identifier, h.noKeyword]
      simpa using previous
    simp only [allowed, if_true]

theorem isPointerGroup_name {item : List Token} (h : isPointerGroup item = true) :
    ∃ inner name closer, item = inner ++ [name, closer] ∧ name.isIdentifier = true := by
  simp only [isPointerGroup, Bool.and_eq_true, decide_eq_true_eq] at h
  obtain ⟨⟨_, last⟩, long⟩ := h
  rcases item with _ | ⟨opener, rest⟩
  · cases long
  · rw [List.tail_cons] at last long
    obtain ⟨start, closer, rfl⟩ : ∃ start closer, rest = start ++ [closer] := by
      refine ⟨rest.dropLast, rest.getLast ?_, (List.dropLast_concat_getLast _).symm⟩
      rintro rfl
      cases long
    rw [List.dropLast_concat] at last long
    cases found : start.getLast? with
    | none =>
      rw [found] at last
      cases last
    | some name =>
      obtain ⟨front, rfl⟩ := List.getLast?_eq_some_iff.mp found
      rw [found] at last
      exact ⟨opener :: front, name, closer, by simp, last⟩

/-- The name at an index of a declarator: that of a function pointer or reference, or the plain
name. -/
inductive Names (items : List (List Token)) : Nat → Token → Prop where
  | pointer {front back : List (List Token)} {inner : List Token} {name closer : Token} :
      items = front ++ (inner ++ [name, closer]) :: back → name.isIdentifier = true →
        headMark "(" (inner ++ [name, closer]) = true →
          isPointerGroup (inner ++ [name, closer]) = true →
            Names items (size front + inner.length) name
  | plain {front extents : List (List Token)} {name : Token} :
      Plain items front name extents → Names items (size front) name

theorem Names.getElem? {items : List (List Token)} {k : Nat} {name : Token}
    (h : Names items k name) : items.flatten[k]? = some name := by
  cases h with
  | pointer split => simp [split, size]
  | plain h => simp [h.items, size]

theorem Names.isIdentifier {items : List (List Token)} {k : Nat} {name : Token}
    (h : Names items k name) : name.isIdentifier = true := by
  cases h with
  | pointer _ identifier => exact identifier
  | plain h => exact h.identifier

theorem findName_names {passed items : List (List Token)} {k : Nat}
    (h : findName (passed ++ items) (size passed) items = some k) :
    ∃ name, Names (passed ++ items) k name := by
  induction items generalizing passed with
  | nil =>
    obtain ⟨front, name, extents, plain, rfl⟩ := plain_of_plainName h
    exact ⟨name, .plain plain⟩
  | cons item rest ih =>
    have later
        (found : findName (passed ++ item :: rest) (size passed + item.length) rest = some k) :
        ∃ name, Names (passed ++ item :: rest) k name := by
      have place : size passed + item.length = size (passed ++ [item]) := by simp [size]
      rw [place, List.append_cons] at found
      rw [List.append_cons]
      exact ih found
    rw [findName] at h
    split at h
    · rename_i opens
      split at h
      · cases h
      · split at h
        · rename_i group
          obtain ⟨inner, name, closer, rfl, identifier⟩ := isPointerGroup_name group
          cases h
          rw [List.length_append]
          exact ⟨name, .pointer rfl identifier opens group⟩
        · exact later h
    · exact later h

theorem names_of_ofTokens {tokens : List Token} {k : Nat}
    (h : (ofTokens tokens).nameIndex = some k) :
    ∃ name, Names (itemsOf (declarator tokens)) k name := by
  have found : findName ([] ++ itemsOf (declarator tokens)) (size []) (itemsOf (declarator tokens)) =
      some k := h
  exact findName_names found

theorem Names.pos {items : List (List Token)} {k : Nat} {name : Token} (h : Names items k name)
    (nonempty : ∀ item ∈ items, item ≠ []) : 0 < k := by
  cases h with
  | pointer split _ _ group =>
    rename_i inner _ _
    simp only [isPointerGroup, Bool.and_eq_true, decide_eq_true_eq] at group
    have long := group.2
    simp only [List.length_dropLast, List.length_tail, List.length_append, List.length_cons,
      List.length_nil] at long
    omega
  | plain plain =>
    rename_i front extents
    obtain ⟨item, rest, rfl⟩ := List.exists_cons_of_ne_nil plain.preceded
    have first := List.length_pos_iff.mpr (nonempty item (by simp [plain.items]))
    rw [size, List.flatten_cons, List.length_append]
    omega

theorem Plain.single {tokens : List Token} {front extents : List (List Token)} {name t : Token}
    (plain : Plain (itemsOf (declarator tokens)) front name extents) {k : Nat}
    (place : size front = k + 1) (inside : tokens[k]? = some t)
    (noCloser : ∀ mark ∈ [")", "]", "\x7d", ">"], t.isMark mark = false) :
    [t] ∈ itemsOf (declarator tokens) := by
  obtain ⟨front, item, rfl⟩ : ∃ before item, front = before ++ [item] :=
    ⟨_, _, (List.dropLast_concat_getLast plain.preceded).symm⟩
  have member : item ∈ itemsOf (declarator tokens) := by
    rw [plain.items]
    simp
  obtain ⟨before, last, rfl⟩ : ∃ before last, item = before ++ [last] :=
    ⟨_, _, (List.dropLast_concat_getLast (items_ne_nil false _ item member)).symm⟩
  have length : (front.flatten ++ before).length = k := by
    simp only [size, List.flatten_append, List.flatten_singleton, List.length_append,
      List.length_singleton] at place ⊢
    omega
  have here : tokens[k]? = some last := by
    obtain ⟨default, split⟩ := declarator_append tokens
    have whole := items_flatten false (declarator tokens)
    rw [← itemsOf, plain.items] at whole
    rw [split, ← whole, ← length]
    simp
  rw [here] at inside
  cases inside
  have whole : Whole (before ++ [t]) := items_whole false _ _ member
  rw [whole.singleton_of_last List.getLast?_concat noCloser] at member
  exact member

theorem name?_ofTokens {tokens : List Token} {k : Nat} (h : (ofTokens tokens).nameIndex = some k) :
    ∃ name, (declarator tokens)[k]? = some name ∧ tokens[k]? = some name ∧
      name.isIdentifier = true ∧ (ofTokens tokens).name? = some name.text := by
  obtain ⟨name, names⟩ := names_of_ofTokens h
  have found := names.getElem?
  rw [itemsOf, items_flatten] at found
  obtain ⟨default, split⟩ := declarator_append tokens
  have inside : tokens[k]? = some name := by
    rw [split, List.getElem?_append_left (List.getElem?_eq_some_iff.mp found).1, found]
  refine ⟨name, found, inside, names.isIdentifier, ?_⟩
  rw [name?, h]
  exact congrArg (Option.map Token.text) inside

/-- A default argument does not matter for what a parameter declares. -/
theorem ofTokens_declarator (tokens : List Token) :
    (ofTokens (declarator tokens)).nameIndex = (ofTokens tokens).nameIndex ∧
      (ofTokens (declarator tokens)).isPack = (ofTokens tokens).isPack := by
  simp only [ofTokens, declarator_declarator, and_self]

variable {f : Token → Token}

theorem lastMark_map (h : KeepsMarks f) (items : List (List Token)) (mark : String) :
    (((items.map (List.map f)).getLast?.bind List.getLast?).map (·.isMark mark)).getD false =
      ((items.getLast?.bind List.getLast?).map (·.isMark mark)).getD false := by
  rw [List.getLast?_map]
  cases items.getLast? with
  | none => rfl
  | some item => exact Recast.getLast? (h.isMark · mark) item

theorem plainName_alike (h : KeepsMarks f) {items items' : List (List Token)}
    (same : items'.map (List.map f) = items.map (List.map f)) {k : Nat}
    (found : plainName items = some k)
    (spelled : (items'.flatten[k]?).map Token.text = (items.flatten[k]?).map Token.text) :
    plainName items' = some k := by
  obtain ⟨front, name, extents, plain, rfl⟩ := plain_of_plainName found
  rw [plain.items, List.map_append, List.map_cons, List.map_eq_append_iff] at same
  obtain ⟨front', back', rfl, fronts, backs⟩ := same
  obtain ⟨item, extents', rfl, names, ends⟩ := List.map_eq_cons_iff.mp backs
  obtain ⟨name', rfl, alike⟩ := List.map_eq_singleton_iff.mp names
  have place : size front' = size front := by
    rw [← size_map (f := f) front', fronts, size_map]
  have text : name'.text = name.text := by
    have here : (front' ++ [name'] :: extents').flatten[size front']? = some name' := by simp [size]
    rw [(Names.plain plain).getElem?, ← place, here] at spelled
    exact Option.some.inj spelled
  rw [← place]
  suffices plain' : Plain (front' ++ [name'] :: extents') front' name' extents' from plain'.plainName
  refine ⟨rfl, ?_, ?_, ?_, ?_, ?_⟩
  · rintro rfl
    exact plain.preceded (List.map_eq_nil_iff.mp fronts.symm)
  · rw [← h.isIdentifier, alike, h.isIdentifier, plain.identifier]
  · rw [text, plain.noKeyword]
  · rw [← lastMark_map h, fronts, lastMark_map h, plain.unqualified]
  · intro item member
    have image : item.map f ∈ extents.map (List.map f) := ends ▸ List.mem_map_of_mem member
    obtain ⟨extent, listed, equal⟩ := List.mem_map.mp image
    rw [← headMark_map h, ← equal, headMark_map h, plain.extents extent listed]

theorem findName_alike (h : KeepsMarks f) {all all' items items' : List (List Token)} {k : Nat}
    (plain : plainName all = some k → plainName all' = some k)
    (same : items'.map (List.map f) = items.map (List.map f)) {index : Nat}
    (found : findName all index items = some k) : findName all' index items' = some k := by
  induction items generalizing items' index with
  | nil =>
    rw [List.map_nil, List.map_eq_nil_iff] at same
    rw [same]
    exact plain found
  | cons item rest ih =>
    obtain ⟨item', rest', rfl, first, behind⟩ := List.map_eq_cons_iff.mp same
    have mark : headMark "(" item' = headMark "(" item := by
      rw [← headMark_map h, first, headMark_map h]
    have group : isPointerGroup item' = isPointerGroup item := by
      rw [← isPointerGroup_map h, first, isPointerGroup_map h]
    have length : item'.length = item.length := by
      rw [← List.length_map f, first, List.length_map]
    rw [findName] at found ⊢
    rw [mark, group, length]
    split at found
    · rename_i opens
      rw [if_pos opens]
      split at found
      · cases found
      · rename_i closed
        rw [if_neg closed]
        split at found
        · rename_i points
          rw [if_pos points]
          exact found
        · rename_i other
          rw [if_neg other]
          exact ih behind found
    · rename_i other
      rw [if_neg other]
      exact ih behind found

/-- A parameter of which only other identifiers are spelled in another way declares the same. -/
theorem ofTokens_alike (h : KeepsMarks f) {tokens tokens' : List Token}
    (same : tokens'.map f = tokens.map f) {k : Nat} (found : (ofTokens tokens).nameIndex = some k)
    (spelled : (tokens'[k]?).map Token.text = (tokens[k]?).map Token.text) :
    (ofTokens tokens').nameIndex = some k ∧
      (ofTokens tokens').isPack = (ofTokens tokens).isPack := by
  have declarators : (declarator tokens').map f = (declarator tokens).map f := by
    rw [← declarator_map h, same, declarator_map h]
  have items : (itemsOf (declarator tokens')).map (List.map f) =
      (itemsOf (declarator tokens)).map (List.map f) := by
    rw [← itemsOf_map h, declarators, itemsOf_map h]
  constructor
  · refine findName_alike h (fun plain => plainName_alike h items plain ?_) items found
    obtain ⟨name, front, inside, _⟩ := name?_ofTokens found
    obtain ⟨default, split⟩ := declarator_append tokens'
    have short : k < (declarator tokens').length := by
      rw [← List.length_map f, declarators, List.length_map]
      exact (List.getElem?_eq_some_iff.mp front).1
    rw [itemsOf, itemsOf, items_flatten, items_flatten, front, ← inside, ← spelled, split,
      List.getElem?_append_left short, ← split]
  · have marks := congrArg (List.any · (headMark "...")) items
    simp only [List.any_map, Function.comp_def, headMark_map h] at marks
    exact marks

theorem name?_alike (h : KeepsMarks f) {tokens tokens' : List Token}
    (same : tokens'.map f = tokens.map f) {k : Nat} (found : (ofTokens tokens).nameIndex = some k)
    (spelled : (tokens'[k]?).map Token.text = (tokens[k]?).map Token.text) :
    (ofTokens tokens').name? = (ofTokens tokens).name? := by
  rw [name?, name?, (ofTokens_alike h same found spelled).1, found]
  exact spelled

end Parameter

end MemberLift
