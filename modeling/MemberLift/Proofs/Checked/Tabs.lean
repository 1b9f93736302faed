import MemberLift.Checked.Tabs
import MemberLift.Proofs.Tabs.Utf8

/-!
Tab expansion on machine words gives what tabs stand for if a vector has room for that, and only
then (`expandTabs_ok_iff`).  Otherwise the run stops at the first byte for which there is no room,
or it goes on from a vector that was cut there (`expandTabs_over`).
-/
namespace MemberLift

namespace Tabs

variable {width : Nat}

def writeOn (width : Nat) (written : Bytes) (b : UInt8) : Bytes :=
  if b = tab then written ++ List.replicate (padding width (column written)) space
  else written ++ [b]

theorem writeOn_tab (width : Nat) (written : Bytes) : writeOn width written tab =
    written ++ List.replicate (padding width (column written)) space := if_pos rfl

theorem writeOn_kept (width : Nat) (written : Bytes) {b : UInt8} (other : b ≠ tab) :
    writeOn width written b = written ++ [b] := if_neg other

theorem foldl_writeOn (width : Nat) (written bytes : Bytes) :
    bytes.foldl (writeOn width) written = written ++ expandFrom width (column written) bytes := by
  induction bytes generalizing written with
  | nil => exact (List.append_nil written).symm
  | cons b rest ih =>
    rw [List.foldl_cons, ih]
    by_cases isTab : b = tab
    · subst isTab
      simp only [writeOn_tab, expandFrom_tab, column_spaces, List.append_assoc]
    · simp only [writeOn_kept width written isTab, expandFrom_of_column width written isTab,
        List.append_assoc, List.singleton_append]

theorem expand_eq_foldl (width : Nat) (bytes : Bytes) :
    expand width bytes = bytes.foldl (writeOn width) [] :=
  (foldl_writeOn width [] bytes).symm

theorem length_le_foldl (width : Nat) (written bytes : Bytes) :
    written.length ≤ (bytes.foldl (writeOn width) written).length := by
  rw [foldl_writeOn, List.length_append]
  omega

theorem column_le (written : Bytes) : column written ≤ written.length := by
  have short := (written.reverse.takeWhile_sublist fun b => !endsLine b).length_le
  rwa [List.length_reverse] at short

theorem exists_over {bound : Nat} {written bytes : Bytes} (held : written.length ≤ bound)
    (beyond : bound < (bytes.foldl (writeOn width) written).length) :
    ∃ front b behind, bytes = front ++ b :: behind ∧
      (front.foldl (writeOn width) written).length ≤ bound ∧
      bound < ((front ++ [b]).foldl (writeOn width) written).length := by
  induction bytes generalizing written with
  | nil => exact absurd beyond (Nat.not_lt_of_ge held)
  | cons b rest ih =>
    by_cases here : bound < (writeOn width written b).length
    · exact ⟨[], b, rest, rfl, held, here⟩
    · obtain ⟨front, c, behind, rfl, before, after⟩ := ih (Nat.le_of_not_lt here) beyond
      exact ⟨b :: front, c, behind, rfl, before, after⟩

end Tabs

namespace Checked

open MemberLift.Tabs (tab space endsLine writeOn)

variable {carry : Carry} {width : Nat}

def Written.of (bytes : Bytes) : Written := ⟨bytes.toArray, Tabs.column bytes⟩

theorem room_lt_words : room + 1 < words := by decide

section

variable {written : Bytes}

theorem push_ok {b : UInt8} (fits : written.length < room) :
    push written.toArray b = .ok (written ++ [b]).toArray := by
  unfold push
  simp [fits]

theorem push_full {b : UInt8} (full : room ≤ written.length) :
    push written.toArray b = .error .capacity := by
  unfold push
  simp [Nat.not_lt_of_ge full]

theorem resize_ok {n : Nat} (fits : written.length + n ≤ room) :
    resize written.toArray (written.length + n) =
      .ok (written ++ List.replicate n space).toArray := by
  unfold resize
  cases n with
  | zero => simp
  | succ n =>
    have longer : ¬ written.length + (n + 1) ≤ written.length := by omega
    have spaces : written.length + (n + 1) - written.length = n + 1 := by omega
    simp only [List.size_toArray, if_neg longer, if_pos fits, spaces, ← List.toArray_replicate,
      List.append_toArray]

theorem resize_full {length : Nat} (held : written.length ≤ room) (beyond : room < length) :
    resize written.toArray length = .error .capacity := by
  have longer : ¬ length ≤ written.length := by omega
  unfold resize
  simp [longer, Nat.not_le_of_lt beyond]

theorem resize_cut {length : Nat} (short : length ≤ written.length) :
    resize written.toArray length = .ok (written.take length).toArray := by
  unfold resize
  simp [short]

theorem writeTab_of (pos : 0 < width) : writeTab carry width (.of written) = do
    let length ← plus carry written.length (Tabs.padding width (Tabs.column written))
    let bytes ← resize written.toArray length
    let column ← plus carry (Tabs.column written) (Tabs.padding width (Tabs.column written))
    return ⟨bytes, column⟩ := by
  have inside : Tabs.column written % width ≤ width := Nat.le_of_lt (Nat.mod_lt _ pos)
  unfold writeTab
  simp only [Written.of, minus_of_le inside, ok_bind, Tabs.padding_pos pos, List.size_toArray]

theorem write_fits {b : UInt8} (fits : (writeOn width written b).length ≤ room) :
    write carry width (.of written) b = .ok (.of (writeOn width written b)) := by
  have short := Tabs.column_le written
  have small := room_lt_words
  unfold write
  by_cases isTab : b = tab
  · subst isTab
    rw [Tabs.writeOn_tab] at fits ⊢
    rw [if_pos rfl]
    split
    · rename_i pos
      rw [List.length_append, List.length_replicate] at fits
      rw [writeTab_of pos, plus_of_lt (by omega), ok_bind, resize_ok fits, ok_bind,
        plus_of_lt (by omega), ok_bind, Written.of, Tabs.column_spaces]
      rfl
    · rename_i zero
      have none_ : Tabs.padding width (Tabs.column written) = 0 :=
        if_pos (Nat.eq_zero_of_not_pos zero)
      rw [none_, List.replicate_zero, List.append_nil]
  · rw [Tabs.writeOn_kept width written isTab] at fits ⊢
    rw [List.length_append, List.length_singleton] at fits
    rw [if_neg isTab]
    unfold writeByte
    simp only [Written.of, push_ok fits, ok_bind, Tabs.column_snoc]
    split
    · rfl
    · rw [plus_of_lt (by omega), ok_bind]
      rfl

/-- A byte for which there is no room.  Only the sum behind a tab can leave the machine words, and
then it is less than the length it was added to. -/
theorem write_over {b : UInt8} (held : written.length ≤ room)
    (word : width < words) (beyond : room < (writeOn width written b).length) :
    write carry width (.of written) b =
      if (writeOn width written b).length < words then .error .capacity
      else match carry with
        | .traps => .error .overflow
        | .wraps => .ok ⟨(written.take ((writeOn width written b).length - words)).toArray,
            Tabs.column (writeOn width written b) % words⟩ := by
  have short := Tabs.column_le written
  have small := room_lt_words
  unfold write
  by_cases isTab : b = tab
  · subst isTab
    rw [Tabs.writeOn_tab] at beyond ⊢
    rw [List.length_append, List.length_replicate] at beyond ⊢
    have pos : 0 < width := by
      refine Nat.pos_of_ne_zero fun zero => ?_
      have none_ : Tabs.padding width (Tabs.column written) = 0 := if_pos zero
      omega
    rw [if_pos rfl, if_pos pos, writeTab_of pos, Tabs.column_spaces]
    have pad : Tabs.padding width (Tabs.column written) < words := by
      rw [Tabs.padding_pos pos]
      omega
    generalize Tabs.padding width (Tabs.column written) = n at beyond pad ⊢
    split
    · rename_i near
      rw [plus_of_lt near, ok_bind, resize_full held beyond]
      rfl
    · rename_i far
      have far := Nat.le_of_not_lt far
      cases carry with
      | traps =>
        rw [plus_traps far]
        rfl
      | wraps =>
        have cut : written.length + n - words ≤ written.length := by omega
        have column : plus .wraps (Tabs.column written) n =
            .ok ((Tabs.column written + n) % words) := by
          unfold plus
          split
          · rename_i near
            rw [Nat.mod_eq_of_lt near]
          · rfl
        rw [plus_wraps (by omega) pad far, ok_bind, resize_cut cut, ok_bind, column, ok_bind]
        rfl
  · rw [Tabs.writeOn_kept width written isTab] at beyond ⊢
    rw [List.length_append, List.length_singleton] at beyond ⊢
    rw [if_neg isTab, if_pos (by omega)]
    unfold writeByte
    rw [Written.of, push_full (by omega)]
    rfl

theorem foldlM_fits {bytes : Bytes} (fits : (bytes.foldl (writeOn width) written).length ≤ room) :
    bytes.foldlM (write carry width) (.of written) =
      .ok (.of (bytes.foldl (writeOn width) written)) := by
  induction bytes generalizing written with
  | nil => rfl
  | cons b rest ih =>
    have here := Nat.le_trans (Tabs.length_le_foldl width (writeOn width written b) rest) fits
    rw [List.foldlM_cons, write_fits here, ok_bind]
    exact ih fits

end

section

variable {bytes front behind out : Bytes} {b : UInt8} {w w' : Written}

theorem expandTabs_fits (fits : (Tabs.expand width bytes).length ≤ room) :
    expandTabs carry width bytes = .ok (Tabs.expand width bytes) := by
  rw [Tabs.expand_eq_foldl] at fits ⊢
  have run : bytes.foldlM (write carry width) Written.start = _ := foldlM_fits fits
  unfold expandTabs
  rw [run]
  rfl

/-- What becomes of a run at a byte that there is no room for. -/
def overrun (carry : Carry) (width : Nat) (front : Bytes) (b : UInt8) (behind : Bytes) :
    Except Trap Bytes :=
  if (Tabs.expand width (front ++ [b])).length < words then .error .capacity
  else match carry with
    | .traps => .error .overflow
    | .wraps => do
      let length := (Tabs.expand width (front ++ [b])).length - words
      let w ← behind.foldlM (write .wraps width) ⟨((Tabs.expand width front).take length).toArray,
        Tabs.column (Tabs.expand width (front ++ [b])) % words⟩
      return w.bytes.toList

theorem expandTabs_over (word : width < words) (held : (Tabs.expand width front).length ≤ room)
    (beyond : room < (Tabs.expand width (front ++ [b])).length) :
    expandTabs carry width (front ++ b :: behind) = overrun carry width front b behind := by
  have next : Tabs.expand width (front ++ [b]) = writeOn width (Tabs.expand width front) b := by
    rw [Tabs.expand_eq_foldl, Tabs.expand_eq_foldl, List.foldl_append]
    rfl
  have run : front.foldlM (write carry width) Written.start =
      .ok (.of (Tabs.expand width front)) := by
    rw [Tabs.expand_eq_foldl] at held ⊢
    exact foldlM_fits held
  rw [next] at beyond
  unfold expandTabs overrun
  rw [List.foldlM_append, run, ok_bind, List.foldlM_cons, write_over held word beyond, next]
  split
  · rfl
  · cases carry with
    | traps => rfl
    | wraps => rfl

theorem exists_overrun (word : width < words) (beyond : room < (Tabs.expand width bytes).length) :
    ∃ front b behind, bytes = front ++ b :: behind ∧
      (Tabs.expand width front).length ≤ room ∧
      room < (Tabs.expand width (front ++ [b])).length ∧
      expandTabs carry width bytes = overrun carry width front b behind := by
  rw [Tabs.expand_eq_foldl] at beyond
  obtain ⟨front, b, behind, rfl, held, next⟩ := Tabs.exists_over (Nat.zero_le room) beyond
  rw [← Tabs.expand_eq_foldl] at held next
  exact ⟨front, b, behind, rfl, held, next, expandTabs_over word held next⟩

/-- A tab alone is too much if its width is, whatever becomes of sums. -/
theorem expandTabs_tab (word : width < words) (wide : room < width) :
    expandTabs carry width [tab] = .error .capacity := by
  have length : (Tabs.expand width ([] ++ [tab])).length = width := by
    unfold Tabs.expand
    rw [List.nil_append, Tabs.expandFrom_tab, Tabs.padding_pos (by omega), Nat.zero_mod,
      Nat.sub_zero, List.length_append, List.length_replicate]
    rfl
  have beyond : room < (Tabs.expand width ([] ++ [tab])).length := by omega
  have stops : overrun carry width [] tab [] = .error .capacity := by
    unfold overrun
    rw [if_pos (by omega)]
  have held : (Tabs.expand width []).length ≤ room := Nat.zero_le room
  have run : expandTabs carry width ([] ++ [tab]) = overrun carry width [] tab [] :=
    expandTabs_over word held beyond
  exact run.trans stops

theorem overrun_traps (width : Nat) (front : Bytes) (b : UInt8) (behind : Bytes) :
    ∃ trap, overrun .traps width front b behind = .error trap := by
  unfold overrun
  split
  · exact ⟨_, rfl⟩
  · exact ⟨_, rfl⟩

/-- What holds of a vector whatever its sums have lost. -/
structure Written.Held (w : Written) : Prop where
  noTab : tab ∉ w.bytes.toList
  fits : w.bytes.size ≤ room

theorem held_push {bytes : Array UInt8} {column : Nat} (held : w.Held) (other : b ≠ tab)
    (h : push w.bytes b = .ok bytes) : Written.Held ⟨bytes, column⟩ := by
  unfold push at h
  split at h
  · rename_i inside
    cases h
    constructor
    · intro found
      rcases List.mem_append.mp (Array.toList_push ▸ found) with before | last
      · exact held.noTab before
      · exact other (List.mem_singleton.mp last).symm
    · rw [Array.size_push]
      exact inside
  · cases h

theorem held_resize {bytes : Array UInt8} {length column : Nat} (held : w.Held)
    (h : resize w.bytes length = .ok bytes) : Written.Held ⟨bytes, column⟩ := by
  have blank : ¬ tab = space := by decide
  unfold resize at h
  split at h
  · rename_i short
    cases h
    constructor
    · intro inside
      rw [Array.take_eq_extract, Array.toList_extract, List.extract_eq_take_drop] at inside
      exact held.noTab (List.mem_of_mem_drop (List.mem_of_mem_take inside))
    · have fits := held.fits
      simp only [Array.take_eq_extract, Array.size_extract]
      omega
  · split at h
    · rename_i longer inside
      cases h
      constructor
      · simpa [blank] using held.noTab
      · simp only [Array.size_append, Array.size_replicate]
        omega
    · cases h

theorem Written.Held.write (held : w.Held) (h : write carry width w b = .ok w') : w'.Held := by
  unfold Checked.write at h
  split at h
  · split at h
    · unfold writeTab at h
      obtain ⟨pad, _, h⟩ := ok_of_bind h
      obtain ⟨length, _, h⟩ := ok_of_bind h
      obtain ⟨bytes, resized, h⟩ := ok_of_bind h
      obtain ⟨column, _, h⟩ := ok_of_bind h
      cases h
      exact held_resize held resized
    · cases h
      exact held
  · rename_i other
    unfold writeByte at h
    obtain ⟨bytes, pushed, h⟩ := ok_of_bind h
    split at h
    · cases h
      exact held_push held other pushed
    · obtain ⟨column, _, h⟩ := ok_of_bind h
      cases h
      exact held_push held other pushed

theorem held_of_foldlM (held : w.Held) (h : bytes.foldlM (write carry width) w = .ok w') :
    w'.Held := by
  induction bytes generalizing w with
  | nil =>
    cases h
    exact held
  | cons b rest ih =>
    obtain ⟨next, step, h⟩ := ok_of_bind h
    exact ih (held.write step) h

theorem expandTabs_held (h : expandTabs carry width bytes = .ok out) :
    tab ∉ out ∧ out.length ≤ room := by
  obtain ⟨w, run, h⟩ := ok_of_bind h
  cases h
  have held : w.Held := held_of_foldlM ⟨List.not_mem_nil, Nat.zero_le _⟩ run
  exact ⟨held.noTab, held.fits⟩

theorem expandTabs_ok_iff : expandTabs carry width bytes = .ok (Tabs.expand width bytes) ↔
    (Tabs.expand width bytes).length ≤ room := by
  constructor
  · intro run
    exact (expandTabs_held run).2
  · exact expandTabs_fits

theorem expandBytes_changed {r : Rewritten} (h : expandBytes carry width bytes = .ok r) :
    r.changed = true ↔ r.output ≠ bytes := by
  unfold expandBytes at h
  split at h
  · rename_i some_
    obtain ⟨out, run, h⟩ := ok_of_bind h
    cases h
    refine iff_of_true rfl fun same => ?_
    obtain rfl : out = bytes := same
    exact (expandTabs_held run).1 (by simpa using some_)
  · cases h
    exact iff_of_false Bool.false_ne_true fun differs => differs rfl

theorem expandBytes_fits (fits : (Tabs.expand width bytes).length ≤ room) :
    expandBytes carry width bytes = .ok (Transformer.expandBytes width bytes) := by
  unfold expandBytes Transformer.expandBytes
  split
  · rw [expandTabs_fits fits]
    rfl
  · rfl

theorem expandTabsText_ok {t : Text} (run : expandTabs carry width (Utf8.encode t) = .ok out) :
    expandTabsText carry width t = .ok (Utf8.decodeLossy out) := by
  unfold expandTabsText
  rw [run]
  rfl

theorem expandTabsText_error {t : Text} {trap : Trap}
    (run : expandTabs carry width (Utf8.encode t) = .error trap) :
    expandTabsText carry width t = .error trap := by
  unfold expandTabsText
  rw [run]
  rfl

theorem expandText_ok {t : Text} {r : Rewritten}
    (run : expandBytes carry width (Utf8.encode t) = .ok r) :
    expandText carry width t = .ok ⟨Utf8.decodeLossy r.output, r.changed, r.freed⟩ := by
  unfold expandText
  rw [run]
  rfl

end

/-- Expansion on machine words gives what the tabs stand for exactly if a vector has room for it.
Otherwise there is a first byte without room, in front of which all is written as it should be.
There the run stops, unless the sum behind a tab loses its carry; then it goes on from a vector that
was cut.  Nothing that is written has a tab, and the flag says whether anything changed. -/
theorem expandTabs_columns (carry : Carry) {width : Nat} (bytes : Bytes) (word : width < words) :
    (∀ out, Tabs.Expands width [] bytes out ↔ out = Tabs.expand width bytes) ∧
    (expandTabs carry width bytes = .ok (Tabs.expand width bytes) ↔
      (Tabs.expand width bytes).length ≤ room) ∧
    (room < (Tabs.expand width bytes).length → ∃ front b behind, bytes = front ++ b :: behind ∧
      (Tabs.expand width front).length ≤ room ∧
      room < (Tabs.expand width (front ++ [b])).length ∧
      expandTabs carry width bytes = overrun carry width front b behind) ∧
    (∀ out, expandTabs carry width bytes = .ok out → tab ∉ out ∧ out.length ≤ room) ∧
    (∀ front b behind, bytes = front ++ b :: behind → endsLine b = true →
      (Tabs.expand width bytes).length ≤ room →
        ∃ first second, expandTabs carry width (front ++ [b]) = .ok first ∧
          expandTabs carry width behind = .ok second ∧
          expandTabs carry width bytes = .ok (first ++ second)) ∧
    (∀ r, expandBytes carry width bytes = .ok r → (r.changed = true ↔ r.output ≠ bytes)) ∧
    ((Tabs.expand width bytes).length ≤ room →
      expandBytes carry width bytes = .ok (Transformer.expandBytes width bytes)) := by
  refine ⟨fun out => Tabs.expands_iff, expandTabs_ok_iff, exists_overrun word,
    fun out => expandTabs_held, ?_, fun r => expandBytes_changed, expandBytes_fits⟩
  intro front b behind whole ends fits
  subst whole
  have parts : Tabs.expand width (front ++ b :: behind) =
      Tabs.expand width (front ++ [b]) ++ Tabs.expand width behind :=
    Tabs.expandFrom_endsLine width 0 ends front behind
  rw [parts, List.length_append] at fits
  refine ⟨_, _, expandTabs_fits (by omega), expandTabs_fits (by omega), ?_⟩
  rw [← parts]
  exact expandTabs_fits (by rw [parts, List.length_append]; exact fits)

/-- A tab on a line of its own, of which the line end is lost if the carry is. -/
def secondLineTab : Bytes := [0x61, 0x0A, tab, 0x62]

theorem expandTabs_columns_cut :
    words - 1 < words ∧
    expandTabs .traps (words - 1) [tab] = .error .capacity ∧
    expandTabs .wraps (words - 1) [tab] = .error .capacity ∧
    expandTabs .traps (words - 1) secondLineTab = .error .overflow ∧
    expandTabs .wraps (words - 1) secondLineTab = .ok [0x61, 0x62] ∧
    room < (Tabs.expand (words - 1) secondLineTab).length ∧
    (∃ first second, expandTabs .wraps 4 [0x61, 0x0A] = .ok first ∧
      expandTabs .wraps 4 [tab, 0x62] = .ok second ∧
      expandTabs .wraps 4 secondLineTab = .ok (first ++ second)) := by
  have word : words - 1 < words := by decide
  have trapped : expandTabs .traps (words - 1) secondLineTab = .error .overflow := rfl
  have fits : (Tabs.expand 4 secondLineTab).length ≤ room := by decide +kernel
  obtain ⟨_, exact_, _⟩ := expandTabs_columns .traps secondLineTab word
  obtain ⟨_, _, _, _, lines, _⟩ := expandTabs_columns .wraps secondLineTab (by decide : 4 < words)
  have wide : room < words - 1 := by decide
  refine ⟨word, expandTabs_tab word wide, expandTabs_tab word wide, trapped, rfl,
    Nat.lt_of_not_le fun within => ?_,
    lines [0x61] 0x0A [tab, 0x62] rfl (by decide) fits⟩
  have run := exact_.mpr within
  rw [trapped] at run
  cases run

/-- A text and its bytes are expanded alike, and no character is replaced on the way, if a vector
has room for the expanded bytes.  Otherwise a run with checked sums gives neither; one that lost a
carry gives a text whose bytes are those that were written exactly if those are the bytes of a
text. -/
theorem expandText_bytes (carry : Carry) {width : Nat} (t : Text) (word : width < words) :
    ((Tabs.expand width (Utf8.encode t)).length ≤ room →
      Utf8.decode (Tabs.expand width (Utf8.encode t)) = .ok (Tabs.expandText width t) ∧
      expandTabs carry width (Utf8.encode t) = .ok (Utf8.encode (Tabs.expandText width t)) ∧
      expandTabsText carry width t = .ok (Tabs.expandText width t) ∧
      ∃ r l, expandBytes carry width (Utf8.encode t) = .ok r ∧ expandText carry width t = .ok l ∧
        Utf8.encode l.output = r.output ∧ l.changed = r.changed ∧ l.freed = [] ∧ r.freed = []) ∧
    (room < (Tabs.expand width (Utf8.encode t)).length →
      ∃ trap, expandTabs .traps width (Utf8.encode t) = .error trap ∧
        expandTabsText .traps width t = .error trap) ∧
    (∀ out, expandTabs carry width (Utf8.encode t) = .ok out →
      expandTabsText carry width t = .ok (Utf8.decodeLossy out) ∧
      (Utf8.encode (Utf8.decodeLossy out) = out ↔ ∃ u, Utf8.encode u = out)) ∧
    ∀ r l, expandBytes carry width (Utf8.encode t) = .ok r → expandText carry width t = .ok l →
      l.output = Utf8.decodeLossy r.output ∧ l.changed = r.changed ∧ l.freed = r.freed := by
  refine ⟨fun fits => ?_, fun beyond => ?_, fun out run => ?_, fun r l bytes text => ?_⟩
  · have written : Utf8.encode (Tabs.expandText width t) = Tabs.expand width (Utf8.encode t) :=
      Tabs.encode_expandText width t
    have run : expandTabs carry width (Utf8.encode t) =
        .ok (Utf8.encode (Tabs.expandText width t)) := by
      rw [written]
      exact expandTabs_fits fits
    have text := expandTabsText_ok run
    rw [Utf8.decodeLossy_encode] at text
    have bytes := @expandBytes_fits carry width (Utf8.encode t) fits
    have none_ := Transformer.freed_expandBytes width (Utf8.encode t)
    refine ⟨by rw [← written, Utf8.decode_encode], run, text, _, _, bytes, expandText_ok bytes, ?_,
      rfl, none_, none_⟩
    rw [Tabs.output_expandBytes]
    exact Tabs.encode_expandText width t
  · obtain ⟨front, b, behind, _, _, _, run⟩ := @exists_overrun .traps width _ word beyond
    obtain ⟨trap, stopped⟩ := overrun_traps width front b behind
    have stops := run.trans stopped
    exact ⟨trap, stops, expandTabsText_error stops⟩
  · refine ⟨expandTabsText_ok run, ?_⟩
    constructor
    · intro same
      exact ⟨_, same⟩
    · rintro ⟨u, rfl⟩
      rw [Utf8.decodeLossy_encode]
  · rw [expandText_ok bytes] at text
    cases text
    exact ⟨rfl, rfl, rfl⟩

/-- The first byte of a character of two is all that is left if the carry is lost. -/
theorem expandText_bytes_cut :
    words - 2 < words ∧
    expandTabs .wraps (words - 2) (Utf8.encode "é\n\t".toList) = .ok [0xC3] ∧
    expandTabsText .wraps (words - 2) "é\n\t".toList = .ok ['\uFFFD'] ∧
    ¬ (∃ u, Utf8.encode u = [0xC3]) ∧
    ∃ r l, expandBytes .wraps 4 (Utf8.encode "é\n\t".toList) = .ok r ∧
      expandText .wraps 4 "é\n\t".toList = .ok l ∧ Utf8.encode l.output = r.output := by
  have word : words - 2 < words := by decide
  have cut : expandTabs .wraps (words - 2) (Utf8.encode "é\n\t".toList) = .ok [0xC3] := rfl
  have fits : (Tabs.expand 4 (Utf8.encode "é\n\t".toList)).length ≤ room := by decide +kernel
  obtain ⟨_, _, lossy, _⟩ := expandText_bytes .wraps "é\n\t".toList word
  obtain ⟨within, _⟩ := expandText_bytes .wraps "é\n\t".toList (by decide : 4 < words)
  obtain ⟨_, _, _, r, l, bytes, text, same, _⟩ := within fits
  obtain ⟨read, whole⟩ := lossy _ cut
  have replaced : Utf8.decodeLossy [0xC3] = ['\uFFFD'] := by decide +kernel
  rw [replaced] at read whole
  refine ⟨word, cut, read, ?_, r, l, bytes, text, same⟩
  intro some_
  exact absurd (whole.mpr some_) (by decide +kernel)

end Checked

end MemberLift
