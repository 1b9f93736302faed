import Mathlib.Logic.Function.Basic
import MemberLift.Disk

/-!
Trees seen place by place.  `look` says what stands at a place; putting something in and taking a
file out change what stands there and nowhere else.
-/
namespace MemberLift

open Function

inductive Entry where
  | file (contents : Bytes)
  | dir
  deriving DecidableEq, Repr

namespace Node

def entry : Node → Entry
  | .file contents => .file contents
  | .dir _ => .dir

def look (n : Node) (place : Location) : Option Entry := (n.get? place).map entry

variable {n child new : Node} {entries : List (Text × Node)} {name : Text} {place : Location}

theorem look_nil : n.look [] = some n.entry := by
  cases n with
  | file contents => rfl
  | dir entries => rfl

theorem look_dir (entries : List (Text × Node)) (name : Text) (place : Location) :
    (Node.dir entries).look (name :: place) =
      (entries.lookup name).bind fun child => child.look place := by
  rw [look, get?]
  cases entries.lookup name with
  | none => rfl
  | some child => rfl

theorem eq_dir_of_look (h : n.look [] = some .dir) : ∃ entries, n = .dir entries := by
  cases n with
  | file contents => cases h
  | dir entries => exact ⟨entries, rfl⟩

theorem look_cons (h : n.look (name :: place) ≠ none) :
    ∃ entries child, n = .dir entries ∧ entries.lookup name = some child ∧
      n.look (name :: place) = child.look place := by
  cases n with
  | file contents => exact absurd rfl h
  | dir entries =>
    rw [look_dir] at h ⊢
    cases found : entries.lookup name with
    | none => rw [found] at h; exact absurd rfl h
    | some child => exact ⟨entries, child, rfl, found, rfl⟩

theorem look_file_below {contents : Bytes} (h : n.look place = some (.file contents))
    (name : Text) (rest : Location) : n.look (place ++ name :: rest) = none := by
  induction place generalizing n with
  | nil =>
    cases n with
    | file contents => rfl
    | dir entries => cases h
  | cons first place ih =>
    obtain ⟨entries, child, rfl, found, same⟩ := look_cons (by rw [h]; exact Option.some_ne_none _)
    rw [List.cons_append, look_dir, found]
    exact ih (same ▸ h)

theorem look_none_below (h : n.look place = none) (rest : Location) :
    n.look (place ++ rest) = none := by
  induction place generalizing n with
  | nil => rw [look_nil] at h; cases h
  | cons first place ih =>
    by_contra something
    rw [List.cons_append] at something
    obtain ⟨entries, child, rfl, found, same⟩ := look_cons something
    rw [look_dir, found] at h
    exact something (same.trans (ih h))

theorem look_above {rest : Location} (h : n.look (place ++ name :: rest) ≠ none) :
    n.look place = some .dir := by
  cases found : n.look place with
  | none => exact absurd (look_none_below found _) h
  | some e =>
    cases e with
    | dir => rfl
    | file contents => exact absurd (look_file_below found name rest) h

theorem look_front {rest : Location} (h : n.look (place ++ rest) = some .dir) :
    n.look place = some .dir := by
  cases rest with
  | nil => rwa [List.append_nil] at h
  | cons name rest => exact look_above (by rw [h]; exact Option.some_ne_none _)

theorem insert_cons (entries : List (Text × Node)) (name : Text) {rest : Location}
    (more : rest ≠ []) (new : Node) : insert (.dir entries) (name :: rest) new =
      match entries.lookup name with
      | none => .dir entries
      | some child => .dir (Entries.put name (child.insert rest new) entries) := by
  obtain ⟨next, rest, rfl⟩ := List.exists_cons_of_ne_nil more
  rfl

theorem erase_cons (entries : List (Text × Node)) (name : Text) {rest : Location}
    (more : rest ≠ []) : erase (.dir entries) (name :: rest) =
      match entries.lookup name with
      | none => .dir entries
      | some child => .dir (Entries.put name (child.erase rest) entries) := by
  obtain ⟨next, rest, rfl⟩ := List.exists_cons_of_ne_nil more
  rfl

theorem look_put (name : Text) (child : Node) (entries : List (Text × Node))
    (other : Text) (rest : Location) :
    (Node.dir (Entries.put name child entries)).look (other :: rest) =
      if other = name then child.look rest else (Node.dir entries).look (other :: rest) := by
  rw [look_dir, look_dir, Entries.lookup_put]
  by_cases same : other = name
  · rw [if_pos same, if_pos same]
    rfl
  · rw [if_neg same, if_neg same]

theorem look_insert {dir : Location} (parent : n.look dir = some .dir)
    (leaf : ∀ a rest, new.look (a :: rest) = none)
    (empty : ∀ a rest, n.look (dir ++ name :: a :: rest) = none) :
    (n.insert (dir ++ [name]) new).look = update n.look (dir ++ [name]) (some new.entry) := by
  induction dir generalizing n with
  | nil =>
    obtain ⟨entries, rfl⟩ := eq_dir_of_look parent
    funext other
    rw [List.nil_append, insert]
    cases other with
    | nil => rw [update_of_ne (List.cons_ne_nil _ _).symm, look_nil, look_nil]; rfl
    | cons a rest =>
      rw [look_put]
      by_cases same : a = name
      · subst same
        rw [if_pos rfl]
        cases rest with
        | nil => rw [update_self, look_nil]
        | cons b rest =>
          rw [update_of_ne (by simp), leaf]
          exact (empty b rest).symm
      · rw [if_neg same, update_of_ne fun whole => same (List.cons.inj whole).1]
  | cons first dir ih =>
    obtain ⟨entries, child, rfl, found, same⟩ :=
      look_cons (by rw [parent]; exact Option.some_ne_none _)
    have inner := ih (n := child) (same ▸ parent) fun a rest => by
      have none_ := empty a rest
      rw [List.cons_append, look_dir, found] at none_
      exact none_
    funext other
    rw [List.cons_append, insert_cons _ _ (by simp), found]
    cases other with
    | nil => rw [update_of_ne (List.cons_ne_nil _ _).symm, look_nil, look_nil]; rfl
    | cons a rest =>
      rw [look_put, inner]
      by_cases here : a = first
      · subst here
        rw [if_pos rfl]
        by_cases there : rest = dir ++ [name]
        · rw [there, update_self, update_self]
        · rw [update_of_ne there, update_of_ne fun whole => there (List.cons.inj whole).2, look_dir,
            found]
          rfl
      · rw [if_neg here, update_of_ne fun whole => here (List.cons.inj whole).1]

theorem look_erase {contents : Bytes} (nonempty : place ≠ [])
    (file : n.look place = some (.file contents)) :
    (n.erase place).look = update n.look place none := by
  induction place generalizing n with
  | nil => exact absurd rfl nonempty
  | cons first place ih =>
    obtain ⟨entries, child, rfl, found, same⟩ :=
      look_cons (by rw [file]; exact Option.some_ne_none _)
    rw [same] at file
    funext other
    by_cases last : place = []
    · subst last
      rw [erase]
      cases other with
      | nil => rw [update_of_ne (List.cons_ne_nil _ _).symm, look_nil, look_nil]; rfl
      | cons a rest =>
        rw [look_dir, Entries.lookup_erase]
        by_cases here : a = first
        · subst here
          rw [if_pos rfl]
          cases rest with
          | nil => rw [update_self]; rfl
          | cons b rest =>
            rw [update_of_ne (by simp), look_dir, found]
            exact (look_file_below file b rest).symm
        · rw [if_neg here, update_of_ne (fun whole => here (List.cons.inj whole).1), look_dir]
    · rw [erase_cons _ _ last, found]
      cases other with
      | nil => rw [update_of_ne (List.cons_ne_nil _ _).symm, look_nil, look_nil]; rfl
      | cons a rest =>
        rw [look_put, ih last file]
        by_cases here : a = first
        · subst here
          rw [if_pos rfl]
          by_cases there : rest = place
          · rw [there, update_self, update_self]
          · rw [update_of_ne there, update_of_ne fun whole => there (List.cons.inj whole).2,
              look_dir, found]
            rfl
        · rw [if_neg here, update_of_ne fun whole => here (List.cons.inj whole).1]

end Node

end MemberLift
