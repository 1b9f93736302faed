import MemberLift.Proofs.Header.Docs
import MemberLift.Proofs.Header.Splice

/-!
The documentation of wrappers.  It is nothing but comments if it was so in the header, unless the
line for the object is put into a line comment: what follows that line is code then.
-/
namespace MemberLift

open Lexer

/-- Whether the first documented parameter stands in a line comment. -/
def Docs.ParamInLineComment (docs : Text) : Prop :=
  ∃ before after, Text.cutBefore "\\param".toList docs = some (before, after) ∧
    InLineComment before

theorem Text.exists_cutBefore {needle t : Text} (occurs : occursIn needle t = true) :
    ∃ before after, cutBefore needle t = some (before, after) := by
  induction t with
  | nil => exact ⟨[], [], if_pos occurs⟩
  | cons c rest ih =>
    rw [cutBefore]
    by_cases here : needle.isPrefixOf (c :: rest) = true
    · exact ⟨[], c :: rest, if_pos here⟩
    · rw [occursIn, Bool.or_eq_true] at occurs
      obtain ⟨before, after, found⟩ := ih (occurs.resolve_left here)
      exact ⟨c :: before, after, by rw [if_neg here, found]; rfl⟩

theorem Text.occursIn_of_cutBefore {needle t before after : Text}
    (cut : cutBefore needle t = some (before, after)) : occursIn needle t = true := by
  obtain ⟨rfl, begins⟩ := cutBefore_append _ _ _ _ cut
  exact (occursIn_iff _ _).mpr (begins.isInfix.trans (List.suffix_append _ _).isInfix)

namespace Wrapper

theorem not_onlyComments_selfDocs {before : Text} (h : InLineComment before) (ending : LineEnding)
    (rest : Text) : ¬ OnlyComments (before ++ selfDocs ++ ending.text ++ '\\' :: rest) := by
  have single : '\n' ∉ selfDocs ++ ending.text.dropLast := by
    cases ending <;> decide
  have behind := h.insert single ('\\' :: rest)
  have whole : before ++ selfDocs ++ ending.text ++ '\\' :: rest =
      before ++ (selfDocs ++ ending.text.dropLast ++ '\n' :: ('\\' :: rest)) := by
    conv => lhs; rw [ending.text_snoc]
    simp
  rw [whole, behind]
  exact not_onlyComments rfl

theorem onlyComments_selfDocs {before : Text} (h : InBlockComment before) (ending : LineEnding)
    (rest : Text) : OnlyComments (before ++ selfDocs ++ ending.text ++ '\\' :: rest) ↔
      OnlyComments (before ++ '\\' :: rest) := by
  have noSlash : '/' ∉ selfDocs ++ ending.text := by
    cases ending <;> decide
  have noStar : '*' ∉ selfDocs ++ ending.text := by
    cases ending <;> decide
  have apart : ('\\' :: rest).head? ≠ some '/' := by simp
  have whole : before ++ selfDocs ++ ending.text ++ '\\' :: rest =
      before ++ ((selfDocs ++ ending.text) ++ '\\' :: rest) := by
    simp
  rw [whole]
  exact h.insert noSlash noStar apart

theorem place_of_selfDocs {before rest : Text} {ending : LineEnding}
    (comments : OnlyComments (before ++ selfDocs ++ ending.text ++ rest)) :
    InLineComment before ∨ InBlockComment before := by
  have first : selfDocs = '\\' :: selfDocs.tail := rfl
  rw [first, List.append_assoc, List.append_assoc, List.cons_append] at comments
  exact in_comment rfl (by decide) (by decide) comments

/-- Documenting the object keeps comments comments, except in a line comment. -/
theorem onlyComments_documentSelf (ending : LineEnding) (docs : Text) :
    OnlyComments (documentSelf ending docs) ↔
      OnlyComments docs ∧ ¬ Docs.ParamInLineComment docs := by
  unfold documentSelf
  cases cut : Text.cutBefore "\\param".toList docs with
  | none =>
    refine (and_iff_left ?_).symm
    rintro ⟨before, after, found, _⟩
    rw [cut] at found
    cases found
  | some parts =>
    obtain ⟨before, after⟩ := parts
    obtain ⟨split, begins⟩ := Text.cutBefore_append _ _ _ _ cut
    obtain ⟨rest, rfl⟩ : ∃ rest, after = '\\' :: rest := by
      obtain ⟨more, whole⟩ := begins
      exact ⟨_, whole.symm⟩
    simp only
    constructor
    · intro comments
      rcases place_of_selfDocs comments with inLine | inBlock
      · exact absurd comments (not_onlyComments_selfDocs inLine ending rest)
      · refine ⟨split ▸ (onlyComments_selfDocs inBlock ending rest).mp comments, ?_⟩
        rintro ⟨before', after', found, inLine⟩
        rw [cut] at found
        cases found
        exact not_onlyComments_selfDocs inLine ending rest comments
    · rintro ⟨comments, apart⟩
      rw [split] at comments
      rcases in_comment rfl (by decide) (by decide) comments with inLine | inBlock
      · exact absurd ⟨before, _, cut, inLine⟩ apart
      · exact (onlyComments_selfDocs inBlock ending rest).mpr comments

theorem onlyComments_relocatedDocs (ending : LineEnding) (isStatic : Bool) (docs : Text) :
    OnlyComments (relocatedDocs ending isStatic docs) ↔
      OnlyComments docs ∧ (isStatic = true ∨ ¬ Docs.ParamInLineComment docs) := by
  cases isStatic with
  | true => simp [relocatedDocs]
  | false => simpa [relocatedDocs] using onlyComments_documentSelf ending docs

end Wrapper

namespace Docs

/-- Documentation of which the relocated form is nothing but comments: a run of line comments that
gets no line for the object, or a block comment that has only comments behind it and gets that
line, if at all, in a block comment. -/
inductive Relocatable (isStatic : Bool) : Text → Prop
  | run {docs : Text} : (∀ line ∈ docs.lines, isLineDoc line = true) →
      (isStatic = true ∨ ¬ Text.occursIn "\\param".toList docs = true) → Relocatable isStatic docs
  | block {docs front body behind : Text} :
      docs = front ++ '/' :: '*' :: (body ++ '*' :: '/' :: behind) →
      (∀ c ∈ front, Alphabet.isBlank c = true) → ¬ ['*', '/'] <:+: body → OnlyComments behind →
      (isStatic = true ∨ ¬ ParamInLineComment docs) → Relocatable isStatic docs

theorem paramInLineComment_of_run {docs : Text} (run : ∀ line ∈ docs.lines, isLineDoc line = true) :
    ParamInLineComment docs ↔ Text.occursIn "\\param".toList docs = true := by
  constructor
  · rintro ⟨before, after, cut, _⟩
    exact Text.occursIn_of_cutBefore cut
  · intro occurs
    obtain ⟨before, after, cut⟩ := Text.exists_cutBefore occurs
    obtain ⟨split, rest, rfl⟩ := Text.cutBefore_append _ _ _ _ cut
    exact ⟨before, _, cut, inLineComment_of_run run split⟩

theorem onlyComments_of_block {front body behind : Text}
    (blank : ∀ c ∈ front, Alphabet.isBlank c = true) (free : ¬ ['*', '/'] <:+: body) :
    OnlyComments (front ++ '/' :: '*' :: (body ++ '*' :: '/' :: behind)) ↔ OnlyComments behind := by
  rw [onlyComments_blank blank, onlyComments_block, commentTail_complete free]
  simp

theorem relocatable_iff {docs : Text} {isStatic : Bool}
    (form : (∀ line ∈ docs.lines, isLineDoc line = true) ∨
      ∃ front body behind, docs = front ++ '/' :: '*' :: (body ++ '*' :: '/' :: behind) ∧
        (∀ c ∈ front, Alphabet.isBlank c = true) ∧ ¬ ['*', '/'] <:+: body) :
    OnlyComments docs ∧ (isStatic = true ∨ ¬ ParamInLineComment docs) ↔
      Relocatable isStatic docs := by
  constructor
  · rintro ⟨comments, param⟩
    rcases form with run | ⟨front, body, behind, rfl, blank, free⟩
    · rw [paramInLineComment_of_run run] at param
      exact .run run param
    · exact .block rfl blank free ((onlyComments_of_block blank free).mp comments) param
  · intro relocatable
    cases relocatable with
    | run lines param =>
      rw [← paramInLineComment_of_run lines] at param
      exact ⟨onlyComments_of_run lines, param⟩
    | block split blank free behind param =>
      refine ⟨?_, param⟩
      rw [split]
      exact (onlyComments_of_block blank free).mpr behind

end Docs

/-- The documentation of a wrapper lexes to no tokens if and only if its source is relocatable. -/
theorem tokenize_wrapper_docs {c : Conventions} {t : Text} {s : Scan} {m : Marked} {docs : Text}
    {ending : LineEnding} {w : Wrapper} (found : Header.scan c t = .ok s)
    (member : m ∈ s.functions) (documented : m.docs = some docs)
    (written : Wrapper.ofMarked c ending m = .ok w) :
    ∃ relocated, w.docs = some relocated ∧ ∀ line,
      Lexer.tokenize line relocated = .ok [] ↔ Docs.Relocatable w.summary.isStatic docs := by
  obtain ⟨before, line, after, whole, above⟩ := (Header.scan_ok_iff.mp found).documented m member
  obtain ⟨_, complete⟩ := Text.lines_eq_append whole
  rw [documented, List.append_nil] at above
  have form := Docs.form_of_ofAbove
    (fun line inside => complete (by simp) line (List.mem_reverse.mp inside)) above.symm
  unfold Wrapper.ofMarked at written
  cases parsed : Declaration.ofTokens c.stripMacros m.tokens with
  | error fault =>
    rw [parsed] at written
    cases written
  | ok d =>
    rw [parsed] at written
    cases written
    refine ⟨_, by rw [documented]; rfl, fun line => ?_⟩
    rw [Lexer.tokenize_eq_nil_iff, Wrapper.onlyComments_relocatedDocs]
    exact Docs.relocatable_iff form

theorem tokenize_wrapper_docs_close : ∃ s m w relocated, Header.scan .standard closeHeader = .ok s ∧
    m ∈ s.functions ∧ m.docs = some "//! Closes it.\n".toList ∧
    Wrapper.ofMarked .standard .lf m = .ok w ∧ w.docs = some relocated ∧
    Lexer.tokenize 1 relocated = .ok [] := by
  obtain ⟨s, found, m, member, documented, w, written⟩ :
      ∃ s ∈ (Header.scan .standard closeHeader).toOption, ∃ m ∈ s.functions,
        m.docs = some "//! Closes it.\n".toList ∧
        ∃ w ∈ (Wrapper.ofMarked .standard .lf m).toOption, True := by
    decide +kernel
  have found := ok_of_mem_toOption found
  have written := ok_of_mem_toOption written.1
  obtain ⟨relocated, docs, lexed⟩ := tokenize_wrapper_docs found member documented written
  have comments := (lexed 1).mpr (.run (by decide +kernel) (.inr (by decide +kernel)))
  exact ⟨s, m, w, relocated, found, member, documented, written, docs, comments⟩

def readHeader : Text :=
  ("class AFIO_DECL handle\n\x7b\n  //! \\param size How much.\n  AFIO_MAKE_FREE_FUNCTION\n" ++
    "  void read(int size);\n\x7d;\nAFIO_V2_NAMESPACE_END\n").toList

example : ((liftHeader .standard readHeader).toOption.map fun l =>
    Text.occursIn "call.\n\\param size How much.\ninline void read".toList l.output) =
      some true := by
  decide +kernel

end MemberLift
