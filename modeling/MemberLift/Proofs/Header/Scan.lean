import MemberLift.Header

/-!
Scans line by line.  A line is a sentinel, stands in a block, begins a class, begins with a marker,
or is none of these (`Role`); `scans_iff` says that a scan that finds something goes through such
lines.
-/
namespace MemberLift.Scan

variable {c : Conventions} {above below : List Text} {enclosing : Option Text} {progress : Progress}
variable {line : Text}

theorem afterMarker?_some {marker line rest : Text} (h : afterMarker? marker line = some rest) :
    line.trimStart = marker ++ rest := by
  rw [afterMarker?] at h
  split at h
  · rename_i begins
    obtain ⟨behind, whole⟩ := List.isPrefixOf_iff_prefix.mp begins
    rw [← whole, List.drop_left] at h
    simp only at h
    split at h
    · cases h
    · cases h
      exact whole.symm
  · cases h

/-- Whether a token can end a declaration. -/
def Ends (t : Token) : Prop := t.text = ";".toList ∨ t.text = "\x7b".toList

theorem text_of_isMark {t : Token} {mark : String} (h : t.isMark mark = true) :
    t.text = mark.toList := by
  rw [Token.isMark, Bool.and_eq_true] at h
  exact of_decide_eq_true h.2

def endsDeclaration (t : Token) : Bool := t.isMarkIn [";", "\x7b"]

/-- The number of open brackets behind a token; one that closes without an opening one counts for
nothing. -/
def nest (depth : Nat) (t : Token) : Nat :=
  if t.isMarkIn ["(", "[", "\x7b"] then depth + 1
  else if t.isMarkIn [")", "]", "\x7d"] then depth - 1
  else depth

theorem declarationTokens?_cons (depth : Nat) (t : Token) (rest : List Token) :
    declarationTokens? depth (t :: rest) =
      if endsDeclaration t = true ∧ depth = 0 then some []
      else (declarationTokens? (nest depth t) rest).map (t :: ·) := by
  rw [declarationTokens?]
  simp only [endsDeclaration, nest, Token.isMarkIn, List.any_cons, List.any_nil, Bool.or_false]
  by_cases mark : t.isMark "(" = true ∨ t.isMark "[" = true ∨ t.isMark ")" = true ∨
      t.isMark "]" = true ∨ t.isMark "\x7d" = true ∨ t.isMark "\x7b" = true ∨ t.isMark ";" = true
  · -- a token is no more than one of the marks
    rcases mark with mark | mark | mark | mark | mark | mark | mark
    all_goals
      obtain ⟨kind, text⟩ := Bool.and_eq_true_iff.mp mark
      simp only [decide_eq_true_eq] at kind text
      simp [Token.isMark, kind, text]
  · simp only [not_or, Bool.not_eq_true] at mark
    simp [mark]

theorem ends_of_endsDeclaration {t : Token} (h : endsDeclaration t = true) : Ends t := by
  simp only [endsDeclaration, Token.isMarkIn, List.any_cons, List.any_nil, Bool.or_false,
    Bool.or_eq_true] at h
  exact h.imp text_of_isMark text_of_isMark

/-- A declaration is the tokens in front of one that ends it, whatever stands behind that token. -/
theorem declarationTokens?_stop {depth : Nat} {tokens declared : List Token}
    (h : declarationTokens? depth tokens = some declared) :
    ∃ t more, tokens = declared ++ t :: more ∧ Ends t ∧
      ∀ more', declarationTokens? depth (declared ++ t :: more') = some declared := by
  induction tokens generalizing depth declared with
  | nil => cases h
  | cons t rest ih =>
    rw [declarationTokens?_cons] at h
    split at h
    · rename_i stops
      cases h
      refine ⟨t, rest, rfl, ends_of_endsDeclaration stops.1, fun more' => ?_⟩
      rw [List.nil_append, declarationTokens?_cons, if_pos stops]
    · rename_i goesOn
      obtain ⟨inner, found, rfl⟩ := Option.map_eq_some_iff.mp h
      obtain ⟨u, more, rfl, ends, again⟩ := ih found
      refine ⟨u, more, rfl, ends, fun more' => ?_⟩
      rw [List.cons_append, declarationTokens?_cons, if_neg goesOn, again]
      rfl

theorem declarationTokens?_nested {depth : Nat} {tokens before after : List Token} {t : Token}
    (h : declarationTokens? depth tokens = some (before ++ t :: after))
    (ends : endsDeclaration t = true) : before.foldl nest depth ≠ 0 := by
  induction before generalizing depth tokens with
  | nil =>
    cases tokens with
    | nil => cases h
    | cons u rest =>
      rw [declarationTokens?_cons] at h
      split at h
      · cases h
      · rename_i goesOn
        obtain ⟨inner, _, same⟩ := Option.map_eq_some_iff.mp h
        obtain ⟨rfl, _⟩ := List.cons.inj same
        exact fun outermost => goesOn ⟨ends, outermost⟩
  | cons u before ih =>
    cases tokens with
    | nil => cases h
    | cons v rest =>
      rw [declarationTokens?_cons] at h
      split at h
      · cases h
      · obtain ⟨inner, found, same⟩ := Option.map_eq_some_iff.mp h
        obtain ⟨rfl, rfl⟩ := List.cons.inj same
        exact ih found

theorem declaration_ok {line lookahead : Nat} {rest : Text} {below : List Text}
    {tokens : List Token} (h : declaration line lookahead rest below = .ok tokens) :
    declarationTokens? 0 (Lexer.lex line (rest ++ (below.take lookahead).flatten)).tokens =
      some tokens := by
  rw [declaration] at h
  generalize Lexer.lex line (rest ++ (below.take lookahead).flatten) = lexed at h ⊢
  split at h
  · rename_i found
    cases h
    exact found
  · cases h
  · cases h

/-- What a line is to a scan. -/
inductive Role (c : Conventions) (enclosing : Option Text) (progress : Progress) (line : Text) : Prop
  | sentinel {sentinel : Sentinel} : sentinel? c line = some sentinel →
      Role c enclosing progress line
  | inside : sentinel? c line = none → progress.isOpen = true → Role c enclosing progress line
  | classHead {name : Text} : sentinel? c line = none → progress.isOpen = false →
      className? c line = some name → Role c enclosing progress line
  | plain : sentinel? c line = none → progress.isOpen = false → className? c line = none →
      afterMarker? c.marker line = none → Role c enclosing progress line
  | orphan {rest : Text} : sentinel? c line = none → progress.isOpen = false →
      className? c line = none → afterMarker? c.marker line = some rest → enclosing = none →
        Role c enclosing progress line
  | marker {rest name : Text} : sentinel? c line = none → progress.isOpen = false →
      className? c line = none → afterMarker? c.marker line = some rest → enclosing = some name →
        Role c enclosing progress line

theorem role (c : Conventions) (enclosing : Option Text) (progress : Progress) (line : Text) :
    Role c enclosing progress line := by
  cases found : sentinel? c line with
  | some sentinel => exact .sentinel found
  | none =>
    cases open_ : progress.isOpen with
    | true => exact .inside found open_
    | false =>
      cases named : className? c line with
      | some name => exact .classHead found open_ named
      | none =>
        cases marked : afterMarker? c.marker line with
        | none => exact .plain found open_ named marked
        | some rest =>
          cases member : enclosing with
          | none => exact .orphan found open_ named marked rfl
          | some name => exact .marker found open_ named marked rfl

theorem scanBelow_sentinel {sentinel : Sentinel} (found : sentinel? c line = some sentinel) :
    scanBelow c above enclosing progress (line :: below) =
      (progress.advance above.length sentinel).bind fun progress =>
        scanBelow c (line :: above) enclosing progress below := by
  simp only [scanBelow, found]
  rfl

theorem scanBelow_inside (plain : sentinel? c line = none) (inside : progress.isOpen = true) :
    scanBelow c above enclosing progress (line :: below) =
      scanBelow c (line :: above) enclosing progress below := by
  simp only [scanBelow, plain, inside, if_true]

theorem scanBelow_class (plain : sentinel? c line = none) (outside : progress.isOpen = false)
    {name : Text} (found : className? c line = some name) :
    scanBelow c above enclosing progress (line :: below) =
      scanBelow c (line :: above) (some name) progress below := by
  simp only [scanBelow, plain, outside, found, Bool.false_eq_true, if_false]

theorem scanBelow_plain (plain : sentinel? c line = none) (outside : progress.isOpen = false)
    (noClass : className? c line = none) (noMarker : afterMarker? c.marker line = none) :
    scanBelow c above enclosing progress (line :: below) =
      scanBelow c (line :: above) enclosing progress below := by
  simp only [scanBelow, plain, outside, noClass, noMarker, Bool.false_eq_true, if_false]

theorem scanBelow_noClass (plain : sentinel? c line = none) (outside : progress.isOpen = false)
    (noClass : className? c line = none) {rest : Text}
    (marker : afterMarker? c.marker line = some rest) :
    scanBelow c above none progress (line :: below) = .error (.noClass (above.length + 1)) := by
  simp only [scanBelow, plain, outside, noClass, marker, Bool.false_eq_true, if_false]

theorem scanBelow_marker (plain : sentinel? c line = none) (outside : progress.isOpen = false)
    (noClass : className? c line = none) {rest name : Text}
    (marker : afterMarker? c.marker line = some rest) :
    scanBelow c above (some name) progress (line :: below) =
      (declaration (above.length + 1) c.maxLookahead rest below).bind fun tokens =>
        (scanBelow c (line :: above) (some name) progress below).map fun scan =>
          scan.push ⟨name, tokens, Docs.ofAbove line.indentation.length c.maxLookahead above,
            above.length + 1⟩ := by
  simp only [scanBelow, plain, outside, noClass, marker, Bool.false_eq_true, if_false]
  rfl

/-- Scans that come to their end, with what they find. -/
inductive Scans (c : Conventions) :
    List Text → Option Text → Progress → List Text → Scan → Prop
  | done {above : List Text} {enclosing : Option Text} {progress : Progress}
      {block : Option Block} :
      progress.finish = .ok block → Scans c above enclosing progress [] ⟨[], block⟩
  | sentinel {above below : List Text} {enclosing : Option Text} {progress next : Progress}
      {line : Text} {scan : Scan} {sentinel : Sentinel} :
      sentinel? c line = some sentinel → progress.advance above.length sentinel = .ok next →
        Scans c (line :: above) enclosing next below scan →
          Scans c above enclosing progress (line :: below) scan
  | inside {above below : List Text} {enclosing : Option Text} {progress : Progress}
      {line : Text} {scan : Scan} :
      sentinel? c line = none → progress.isOpen = true →
        Scans c (line :: above) enclosing progress below scan →
          Scans c above enclosing progress (line :: below) scan
  | classHead {above below : List Text} {enclosing : Option Text} {progress : Progress}
      {line name : Text} {scan : Scan} :
      sentinel? c line = none → progress.isOpen = false → className? c line = some name →
        Scans c (line :: above) (some name) progress below scan →
          Scans c above enclosing progress (line :: below) scan
  | plain {above below : List Text} {enclosing : Option Text} {progress : Progress}
      {line : Text} {scan : Scan} :
      sentinel? c line = none → progress.isOpen = false → className? c line = none →
        afterMarker? c.marker line = none → Scans c (line :: above) enclosing progress below scan →
          Scans c above enclosing progress (line :: below) scan
  | marker {above below : List Text} {progress : Progress} {line rest name : Text}
      {tokens : List Token} {scan : Scan} :
      sentinel? c line = none → progress.isOpen = false → className? c line = none →
        afterMarker? c.marker line = some rest →
          declaration (above.length + 1) c.maxLookahead rest below = .ok tokens →
            Scans c (line :: above) (some name) progress below scan →
              Scans c above (some name) progress (line :: below) (scan.push
                ⟨name, tokens, Docs.ofAbove line.indentation.length c.maxLookahead above,
                  above.length + 1⟩)

theorem scans_of_ok {scan : Scan} (h : scanBelow c above enclosing progress below = .ok scan) :
    Scans c above enclosing progress below scan := by
  induction below generalizing above enclosing progress scan with
  | nil =>
    rw [scanBelow] at h
    cases finished : progress.finish with
    | error fault => rw [finished] at h; cases h
    | ok block =>
      rw [finished] at h
      cases h
      exact .done finished
  | cons line below ih =>
    cases role c enclosing progress line with
    | @sentinel sentinel found =>
      rw [scanBelow_sentinel found] at h
      cases advanced : progress.advance above.length sentinel with
      | error fault => rw [advanced] at h; cases h
      | ok next =>
        rw [advanced] at h
        exact .sentinel found advanced (ih h)
    | inside found open_ => exact .inside found open_ (ih (scanBelow_inside found open_ ▸ h))
    | classHead found open_ named =>
      exact .classHead found open_ named (ih (scanBelow_class found open_ named ▸ h))
    | plain found open_ named marked =>
      rw [scanBelow_plain found open_ named marked] at h
      exact .plain found open_ named marked (ih h)
    | orphan found open_ named marked nowhere =>
      rw [nowhere, scanBelow_noClass found open_ named marked] at h
      cases h
    | @marker rest name found open_ named marked member =>
      subst member
      rw [scanBelow_marker found open_ named marked] at h
      cases declared : declaration (above.length + 1) c.maxLookahead rest below with
      | error fault => rw [declared] at h; cases h
      | ok tokens =>
        rw [declared] at h
        simp only [Except.bind] at h
        cases scanned : scanBelow c (line :: above) (some name) progress below with
        | error fault => rw [scanned] at h; cases h
        | ok scan =>
          rw [scanned] at h
          cases h
          exact .marker found open_ named marked declared (ih scanned)

theorem Scans.ok {scan : Scan} (h : Scans c above enclosing progress below scan) :
    scanBelow c above enclosing progress below = .ok scan := by
  induction h with
  | done finished => rw [scanBelow, finished]; rfl
  | sentinel found advanced _ ih => rw [scanBelow_sentinel found, advanced]; exact ih
  | inside found open_ _ ih => rw [scanBelow_inside found open_]; exact ih
  | classHead found open_ named _ ih => rw [scanBelow_class found open_ named]; exact ih
  | plain found open_ named marked _ ih => rw [scanBelow_plain found open_ named marked]; exact ih
  | marker found open_ named marked declared _ ih =>
    rw [scanBelow_marker found open_ named marked, declared]
    simp only [Except.bind, ih]
    rfl

theorem scans_iff {scan : Scan} :
    scanBelow c above enclosing progress below = .ok scan ↔
      Scans c above enclosing progress below scan := by
  constructor
  · exact scans_of_ok
  · exact Scans.ok

end MemberLift.Scan

namespace MemberLift.Header

theorem scan_ok_iff {c : Conventions} {t : Text} {s : Scan} :
    scan c t = .ok s ↔ Scan.Scans c [] none .absent t.lines s := by
  rw [← Scan.scans_iff, scan, Scan.ofLines]
  cases Scan.scanBelow c [] none .absent t.lines with
  | error fault =>
    constructor
    · intro found
      cases found
    · intro found
      cases found
  | ok s' =>
    constructor
    · intro found
      exact congrArg _ (Except.ok.inj found)
    · intro found
      exact congrArg _ (Except.ok.inj found)

end MemberLift.Header
