import MemberLift.Proofs.Token.Recast
import MemberLift.Proofs.Token.Thinned

/-!
Lists that are joined of pieces.  If pieces differ from those of some list only in what does not
matter for marks, the list that they are joined to is split into them again (`splitTopLevel_alike`).
Pieces that are written with commas between them are written from one list (`render_listed`).
-/
namespace MemberLift.Group

theorem Joined.length_le {separator : String} {pieces : List (List Token)} {tokens : List Token}
    (h : Joined separator pieces tokens) : ∀ piece ∈ pieces, piece.length ≤ tokens.length := by
  induction h with
  | last piece => simp
  | more piece _ _ ih =>
    intro other member
    rw [List.length_append, List.length_cons]
    rcases List.mem_cons.mp member with rfl | member
    · exact Nat.le_add_right _ _
    · exact Nat.le_trans (ih other member) (by omega)

theorem Joined.unique {separator : String} {pieces pieces' : List (List Token)}
    {tokens : List Token} (h : Joined separator pieces tokens)
    (h' : Joined separator pieces' tokens)
    (same : pieces.map List.length = pieces'.map List.length) : pieces = pieces' := by
  induction h generalizing pieces' with
  | last piece =>
    cases h' with
    | last => rfl
    | more _ _ rest => cases rest <;> simp at same
  | @more t pieces tokens piece _ rest ih =>
    generalize whole : piece ++ t :: tokens = all at h'
    cases h' with
    | last => cases rest <;> simp at same
    | more piece' _ rest' =>
      obtain ⟨length, lengths⟩ := List.cons.inj same
      obtain ⟨rfl, behind⟩ := List.append_inj whole length
      obtain ⟨_, rfl⟩ := List.cons.inj behind
      rw [ih rest' lengths]

theorem Joined.map_eq {separator : String} {f : Token → Token}
    (separators : ∀ t u, t.isMark separator = true → u.isMark separator = true → f t = f u)
    {pieces pieces' : List (List Token)} {tokens tokens' : List Token}
    (h : Joined separator pieces tokens) (h' : Joined separator pieces' tokens')
    (same : pieces'.map (List.map f) = pieces.map (List.map f)) : tokens'.map f = tokens.map f := by
  induction h generalizing pieces' tokens' with
  | last piece =>
    cases h' with
    | last => exact (List.cons.inj same).1
    | more _ _ rest => cases rest <;> cases (List.cons.inj same).2
  | more piece mark rest ih =>
    cases h' with
    | last => cases rest <;> cases (List.cons.inj same).2
    | more piece' mark' rest' =>
      obtain ⟨first, behind⟩ := List.cons.inj same
      rw [List.map_append, List.map_append, List.map_cons, List.map_cons, first,
        separators _ _ mark' mark, ih rest' behind]

theorem splitTopLevel_alike {separator : String} {f : Token → Token} (keeps : KeepsMarks f)
    (separators : ∀ t u, t.isMark separator = true → u.isMark separator = true → f t = f u)
    {tokens tokens' : List Token} (nonempty : tokens ≠ []) {pieces : List (List Token)}
    (joined : Joined separator pieces tokens')
    (same : pieces.map (List.map f) = (splitTopLevel separator tokens).map (List.map f)) :
    splitTopLevel separator tokens' = pieces := by
  have images := (splitTopLevel_joined separator nonempty).map_eq separators joined same
  have nonempty' : tokens' ≠ [] := by
    rintro rfl
    exact nonempty (List.map_eq_nil_iff.mp images.symm)
  have split : (splitTopLevel separator tokens').map (List.map f) = pieces.map (List.map f) := by
    rw [← splitTopLevel_map keeps, images, splitTopLevel_map keeps, same]
  refine (splitTopLevel_joined separator nonempty').unique joined ?_
  have lengths := congrArg (List.map List.length) split
  simpa only [List.map_map, Function.comp_def, List.length_map] using lengths

theorem splitItems_ne_nil (separator : String) (items : List (List Token)) :
    splitItems separator items ≠ [] := by
  cases items with
  | nil => exact List.cons_ne_nil [] []
  | cons item rest =>
    rw [splitItems]
    split
    · exact List.cons_ne_nil _ _
    · cases splitItems separator rest with
      | nil => exact List.cons_ne_nil _ _
      | cons piece pieces => exact List.cons_ne_nil _ _

theorem extendFirst_nil {pieces : List (List Token)} (nonempty : pieces ≠ []) :
    extendFirst [] pieces = pieces := by
  cases pieces with
  | nil => exact absurd rfl nonempty
  | cons piece rest => rfl

theorem splitItems_front {separator : String} {front : List (List Token)}
    (other : ∀ item ∈ front, headMark separator item = false) (items : List (List Token)) :
    splitItems separator (front ++ items) =
      extendFirst front.flatten (splitItems separator items) := by
  induction front with
  | nil => exact (extendFirst_nil (splitItems_ne_nil separator items)).symm
  | cons item front ih =>
    have here : ¬ headMark separator item = true := by simp [other item List.mem_cons_self]
    rw [List.cons_append, splitItems, if_neg here,
      ih fun next member => other next (List.mem_cons_of_mem item member)]
    cases splitItems separator items <;> simp [extendFirst]

theorem splitItems_singles {separator : String} {front : List Token}
    (other : ∀ t ∈ front, t.isMark separator = false) (items : List (List Token)) :
    splitItems separator (front.map (fun t => [t]) ++ items) =
      extendFirst front (splitItems separator items) := by
  have singles : ∀ item ∈ front.map (fun t => [t]), headMark separator item = false := by
    simpa [headMark] using other
  have flat : (front.map fun t => [t]).flatten = front := by
    rw [← List.flatMap_def, List.flatMap_singleton']
  rw [splitItems_front singles, flat]

theorem splitTopLevel_inerts {separator : String} {front : List Token}
    (inert : ∀ t ∈ front, Inert t) (other : ∀ t ∈ front, t.isMark separator = false) {t : Token}
    (inert' : Inert t) (mark : t.isMark separator = true) {rest : List Token}
    (nonempty : rest ≠ []) :
    splitTopLevel separator (front ++ t :: rest) = front :: splitTopLevel separator rest := by
  have noName : t.isIdentifier = false := Token.isIdentifier_of_isMark mark
  have here : headMark separator [t] = true := mark
  rw [splitTopLevel, splitTopLevel, if_neg (by simp), if_neg (by simpa using nonempty), itemsOf,
    items_inerts inert inert', noName, List.map_append, List.append_assoc,
    splitItems_singles other, List.map_singleton, List.singleton_append, splitItems, if_pos here,
    List.tail_cons, extendFirst_nil (splitItems_ne_nil separator _), extendFirst, List.append_nil,
    itemsOf]

theorem splitTopLevel_alone {separator : String} {front : List Token}
    (inert : ∀ t ∈ front, Inert t) (other : ∀ t ∈ front, t.isMark separator = false) {last : Token}
    (inert' : Inert last) (other' : last.isMark separator = false) :
    splitTopLevel separator (front ++ [last]) = [front ++ [last]] := by
  have all : ∀ t ∈ front ++ [last], t.isMark separator = false := by
    simpa [or_imp, forall_and] using ⟨other, other'⟩
  rw [splitTopLevel, if_neg (by simp), itemsOf, items_inerts inert inert', splitItems_singles all]
  simp [items, splitItems, extendFirst]

def comma : Token := ⟨.punctuator, ",".toList, [], 1⟩

/-- Tokens with a space in front of the first. -/
def indent : List Token → List Token
  | [] => []
  | t :: rest => { t with leading := [' '] } :: rest

def listed : List (List Token) → List Token
  | [] => []
  | piece :: rest => piece ++ rest.flatMap fun next => comma :: indent next

theorem listed_cons (piece next : List Token) (rest : List (List Token)) :
    listed (piece :: next :: rest) = piece ++ comma :: listed (indent next :: rest) := rfl

theorem listed_joined (piece : List Token) (rest : List (List Token)) :
    Joined "," (piece :: rest.map indent) (listed (piece :: rest)) := by
  induction rest generalizing piece with
  | nil =>
    have alone : listed [piece] = piece := List.append_nil piece
    rw [alone]
    exact .last piece
  | cons next rest ih =>
    rw [listed_cons]
    exact .more piece rfl (ih (indent next))

theorem render_listed {pieces : List (List Token)} (nonempty : ∀ piece ∈ pieces, piece ≠ []) :
    render (listed pieces) = Text.join ", ".toList (pieces.map render) := by
  cases pieces with
  | nil => rfl
  | cons piece rest =>
    induction rest generalizing piece with
    | nil => rw [listed, List.flatMap_nil, List.append_nil, List.map_singleton, Text.join]
    | cons next rest ih =>
      have behind := ih next fun other member => nonempty other (List.mem_cons_of_mem piece member)
      obtain ⟨t, inner, rfl⟩ := List.exists_cons_of_ne_nil (nonempty piece List.mem_cons_self)
      obtain ⟨u, inner', rfl⟩ := List.exists_cons_of_ne_nil (nonempty next (by simp))
      have spaced : renderSpaced (comma :: listed (indent (u :: inner') :: rest)) =
          ", ".toList ++ render (listed ((u :: inner') :: rest)) := rfl
      rw [listed_cons, render_append, spaced, behind]
      simp [Text.join]

end MemberLift.Group
