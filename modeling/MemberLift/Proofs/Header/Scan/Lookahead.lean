import Mathlib.Data.List.Forall2
import MemberLift.Proofs.Declaration.Sources
import MemberLift.Proofs.Header.Docs
import MemberLift.Proofs.Lexer.Reads

/-!
Scans that look further ahead.  A declaration is read as before if text is added behind the window
in which it ends, and documentation that was found is found again, so a scan that succeeds keeps its
result (`ofLines_lookahead`).
-/
namespace MemberLift

open Lexer

namespace Lexer

theorem lexeme_end {c : Char} (ends : c = ';' ∨ c = '\x7b') (r : Text) :
    lexeme c r = .ok ⟨.punctuator, [c], r⟩ := by
  rcases ends with rfl | rfl
  · rfl
  · rfl

theorem opensFiller_end {c : Char} (ends : c = ';' ∨ c = '\x7b') (r : Text) :
    opensFiller (c :: r) = false := by
  rcases ends with rfl | rfl
  · rfl
  · rfl

theorem next_end {line mid : Nat} {s rest : Text} {t : Token} (ends : Scan.Ends t)
    (h : next line s = .ok (some ⟨t, mid, rest⟩)) (behind : Text) :
    next line (s ++ behind) = .ok (some ⟨t, mid, rest ++ behind⟩) ∧ Alike s (s ++ behind) := by
  obtain ⟨fs, c, r, reads, lexed, lines⟩ := next_some h
  obtain ⟨kind, text, leading, start⟩ := t
  obtain ⟨d, end_, rfl⟩ : ∃ d, (d = ';' ∨ d = '\x7b') ∧ text = [d] := by
    rcases ends with text | text
    · exact ⟨';', .inl rfl, text⟩
    · exact ⟨'\x7b', .inr rfl, text⟩
  have whole : d :: rest = c :: r := (lexeme_append lexed).1
  obtain ⟨rfl, rfl⟩ := List.cons.inj whole
  obtain rfl : Token.Kind.punctuator = kind := by
    rw [lexeme_end end_] at lexed
    cases lexed
    rfl
  have split := reads.split
  simp only at split lines reads
  constructor
  · have reads' : Skips line (s ++ behind) fs ⟨leading, start, d :: (rest ++ behind)⟩ := by
      refine ⟨?_, reads.pieces.congr rfl, opensFiller_end end_ _, reads.leading, reads.lines⟩
      rw [split, List.append_assoc, List.cons_append]
    rw [next_of_skips reads' (lexeme_end end_ _), ← lines]
  · have hidden : isVisible d = false := by
      rcases end_ with rfl | rfl
      · rfl
      · rfl
    have inside : d ∈ s := by
      rw [split]
      exact List.mem_append_right _ List.mem_cons_self
    have same := alike_front inside hidden [] behind
    rwa [List.append_nil] at same

theorem lex_end {line : Nat} {s : Text} {tokens more : List Token} {t : Token}
    (h : (lex line s).tokens = tokens ++ t :: more) (ends : Scan.Ends t) (behind : Text) :
    ∃ more', (lex line (s ++ behind)).tokens = tokens ++ t :: more' := by
  obtain ⟨mid, rest, reads⟩ := Reads.of_lex h
  have whole : lex mid rest = ⟨t :: more, (lex mid rest).fault⟩ := by
    have split := congrArg Lexed.tokens reads.lex
    rw [h] at split
    rw [List.append_cancel_left split]
  obtain ⟨mid', rest', found, _⟩ := lex_cons whole
  obtain ⟨found', same⟩ := next_end ends found behind
  obtain ⟨u, rfl, _, again⟩ := reads.congr
  refine ⟨(lex mid' (rest' ++ behind)).tokens, ?_⟩
  rw [List.append_assoc, (again _ same).lex, lex_some found']
  rfl

end Lexer

namespace Scan

/-- A declaration that ends in a window ends at the same token in a wider one. -/
theorem declaration_wider {line lookahead wider : Nat} {rest : Text} {below : List Text}
    {tokens : List Token} (further : lookahead ≤ wider)
    (found : declaration line lookahead rest below = .ok tokens) :
    declaration line wider rest below = .ok tokens := by
  obtain ⟨more, rfl⟩ := Nat.exists_eq_add_of_le further
  have declared := declaration_ok found
  obtain ⟨t, left, read, ends, again⟩ := declarationTokens?_stop declared
  obtain ⟨left', read'⟩ := lex_end read ends ((below.drop lookahead).take more).flatten
  rw [declaration, List.take_add, List.flatten_append, ← List.append_assoc]
  simp only [read', again]

end Scan

namespace Docs

theorem ofAbove_wider {indent lookahead wider : Nat} {above : List Text} {docs : Text}
    (further : lookahead ≤ wider) (found : ofAbove indent lookahead above = some docs) :
    ofAbove indent wider above = some docs := by
  obtain ⟨n, tall, rfl⟩ := Option.map_eq_some_iff.mp found
  suffices same : height wider above = some n by rw [ofAbove, same]; rfl
  cases above with
  | nil => cases tall
  | cons previous rest =>
    cases ends : endsBlockDoc previous with
    | true =>
      obtain ⟨inside, opening, behind, whole, plain, opens, near, size⟩ :=
        (height_block_iff rfl ends).mp tall
      exact (height_block_iff rfl ends).mpr
        ⟨inside, opening, behind, whole, plain, opens, Nat.lt_of_lt_of_le near further, size⟩
    | false =>
      rw [height, ends, if_neg Bool.false_ne_true] at tall ⊢
      exact tall

end Docs

namespace Scan

variable {c : Conventions} {above below : List Text} {enclosing : Option Text}
variable {progress : Progress} {scan : Scan}

/-- Whether two functions are the same up to documentation that only the second has. -/
structure Keeps (m m' : Marked) : Prop where
  className : m'.className = m.className
  line : m'.line = m.line
  tokens : m'.tokens = m.tokens
  docs : ∀ docs ∈ m.docs, m'.docs = some docs

theorem Scans.wider {wider : Nat} (further : c.maxLookahead ≤ wider)
    (h : Scans c above enclosing progress below scan) :
    ∃ functions, Scans { c with maxLookahead := wider } above enclosing progress below
      ⟨functions, scan.block⟩ ∧ List.Forall₂ Keeps scan.functions functions := by
  induction h with
  | done finished => exact ⟨[], .done finished, .nil⟩
  | sentinel here advanced _ ih =>
    obtain ⟨functions, scans, kept⟩ := ih
    exact ⟨functions, .sentinel here advanced scans, kept⟩
  | inside plain open_ _ ih =>
    obtain ⟨functions, scans, kept⟩ := ih
    exact ⟨functions, .inside plain open_ scans, kept⟩
  | classHead plain outside named _ ih =>
    obtain ⟨functions, scans, kept⟩ := ih
    exact ⟨functions, .classHead plain outside named scans, kept⟩
  | plain plain outside noClass noMarker _ ih =>
    obtain ⟨functions, scans, kept⟩ := ih
    exact ⟨functions, .plain plain outside noClass noMarker scans, kept⟩
  | marker plain outside noClass marked declared _ ih =>
    obtain ⟨functions, scans, kept⟩ := ih
    have declared' := declaration_wider further declared
    exact ⟨_ :: functions,
      .marker (c := { c with maxLookahead := wider }) plain outside noClass marked declared' scans,
      .cons ⟨rfl, rfl, rfl, fun docs found => Docs.ofAbove_wider further found⟩ kept⟩

/-- A scan that succeeds does so with a longer lookahead, with the same block and functions, some of
which may now have documentation that was too far away. -/
theorem ofLines_lookahead {wider : Nat} {lines : List Text} (further : c.maxLookahead ≤ wider)
    (h : ofLines c lines = .ok scan) :
    ∃ scan', ofLines { c with maxLookahead := wider } lines = .ok scan' ∧
      scan'.block = scan.block ∧ List.Forall₂ Keeps scan.functions scan'.functions := by
  obtain ⟨functions, scans, kept⟩ := (scans_of_ok h).wider further
  exact ⟨_, scans.ok, rfl, kept⟩

def nearsighted : Conventions where
  __ := Conventions.standard
  maxLookahead := 1

def distantLines : List Text :=
  ["class handle\n", "/*! Closes it,\n", "or fails. */\n", "AFIO_MAKE_FREE_FUNCTION\n",
    "void close();\n"].map String.toList

theorem ofLines_lookahead_close : nearsighted.maxLookahead ≤ 2 ∧
    ∃ scan scan', ofLines nearsighted distantLines = .ok scan ∧
      scan.functions.map Marked.docs = [none] ∧
      ofLines { nearsighted with maxLookahead := 2 } distantLines = .ok scan' ∧
      scan'.block = scan.block ∧ List.Forall₂ Keeps scan.functions scan'.functions := by
  obtain ⟨scan, found, docs⟩ : ∃ scan ∈ (ofLines nearsighted distantLines).toOption,
      scan.functions.map Marked.docs = [none] := by
    decide +kernel
  have found : ofLines nearsighted distantLines = .ok scan := ok_of_mem_toOption found
  have further : nearsighted.maxLookahead ≤ 2 := by decide
  obtain ⟨scan', found', block, kept⟩ := ofLines_lookahead further found
  exact ⟨further, scan, scan', found, docs, found', block, kept⟩

example : (ofLines { nearsighted with maxLookahead := 2 } distantLines).toOption.map
    (fun scan => scan.functions.map Marked.docs) =
      some [some "/*! Closes it,\nor fails. */\n".toList] := by
  decide +kernel

end Scan

end MemberLift
