import MemberLift.Text.Basic

/-!
Accesses that can stop a run: reading a list or a text at a place, and arithmetic on machine words.
The modules below take the steps of the program one access at a time; what they compute is what the
functions on whole lists compute, as long as no access traps.
-/
namespace MemberLift.Checked

/-- Why a run stops without a result. -/
inductive Trap where
  | index
  | slice
  | boundary
  | underflow
  | overflow
  | capacity
  deriving DecidableEq, Repr

/-- The number of values of a machine word. -/
def words : Nat := UInt64.size

/-- What becomes of a sum that is no machine word: a trap, or the sum without its carry. -/
inductive Carry where
  | traps
  | wraps
  deriving DecidableEq, Repr

@[simp] theorem ok_bind {ε α β : Type} (a : α) (f : α → Except ε β) :
    (Except.ok a >>= f) = f a := rfl

theorem ok_of_bind {ε α β : Type} {x : Except ε α} {f : α → Except ε β} {b : β}
    (h : (x >>= f) = .ok b) : ∃ a, x = .ok a ∧ f a = .ok b := by
  cases x with
  | error e => cases h
  | ok a => exact ⟨a, rfl, h⟩

section

variable {α : Type}

def get (l : List α) (i : Nat) : Except Trap α :=
  match l[i]? with
  | some a => .ok a
  | none => .error .index

def slice (l : List α) (start stop : Nat) : Except Trap (List α) :=
  if start ≤ stop ∧ stop ≤ l.length then .ok ((l.take stop).drop start) else .error .slice

theorem get_of_getElem? {l : List α} {i : Nat} {a : α} (here : l[i]? = some a) :
    get l i = .ok a := by
  rw [get, here]

theorem slice_of_le {l : List α} {start stop : Nat} (ordered : start ≤ stop)
    (inside : stop ≤ l.length) : slice l start stop = .ok ((l.take stop).drop start) :=
  if_pos ⟨ordered, inside⟩

theorem slice_of_split {l before part after : List α} {start stop : Nat}
    (split : l = before ++ (part ++ after)) (first : before.length = start)
    (last : start + part.length = stop) : slice l start stop = .ok part := by
  subst split first last
  rw [slice_of_le (Nat.le_add_right _ _) (by simp), ← List.append_assoc,
    List.take_left' List.length_append, List.drop_left]

theorem slice_of_lt {l : List α} {start stop : Nat} (reversed : stop < start) :
    slice l start stop = .error .slice :=
  if_neg fun bounds => Nat.not_lt_of_ge bounds.1 reversed

theorem length_of_slice {l part : List α} {start stop : Nat} (h : slice l start stop = .ok part) :
    part.length = stop - start ∧ stop ≤ l.length := by
  unfold slice at h
  split at h
  · rename_i bounds
    cases h
    rw [List.length_drop, List.length_take, Nat.min_eq_left bounds.2]
    exact ⟨rfl, bounds.2⟩
  · cases h

end

def minus (a b : Nat) : Except Trap Nat :=
  if b ≤ a then .ok (a - b) else .error .underflow

def plus (carry : Carry) (a b : Nat) : Except Trap Nat :=
  if a + b < words then .ok (a + b)
  else match carry with
    | .traps => .error .overflow
    | .wraps => .ok ((a + b) % words)

theorem minus_of_le {a b : Nat} (le : b ≤ a) : minus a b = .ok (a - b) := if_pos le

theorem plus_of_lt {carry : Carry} {a b : Nat} (lt : a + b < words) :
    plus carry a b = .ok (a + b) := if_pos lt

theorem plus_traps {a b : Nat} (far : words ≤ a + b) : plus .traps a b = .error .overflow :=
  if_neg (Nat.not_lt_of_ge far)

theorem plus_wraps {a b : Nat} (left : a < words) (right : b < words) (far : words ≤ a + b) :
    plus .wraps a b = .ok (a + b - words) := by
  have wrapped : (a + b) % words = a + b - words := by
    rw [Nat.mod_eq_sub_mod far, Nat.mod_eq_of_lt (by omega)]
  rw [← wrapped]
  exact if_neg (Nat.not_lt_of_ge far)

def byteLength : Text → Nat
  | [] => 0
  | c :: rest => c.utf8Size + byteLength rest

def takeBytes : Nat → Text → Except Trap Text
  | 0, _ => .ok []
  | _ + 1, [] => .error .slice
  | n + 1, c :: rest =>
    if c.utf8Size ≤ n + 1 then (takeBytes (n + 1 - c.utf8Size) rest).map (c :: ·)
    else .error .boundary

def dropBytes : Nat → Text → Except Trap Text
  | 0, t => .ok t
  | _ + 1, [] => .error .slice
  | n + 1, c :: rest =>
    if c.utf8Size ≤ n + 1 then dropBytes (n + 1 - c.utf8Size) rest else .error .boundary

end MemberLift.Checked
