import MemberLift.Proofs.Header.Conventions
import MemberLift.Proofs.Header.Scan
import MemberLift.Proofs.Lexer.Endings
import MemberLift.Proofs.Text.Lines

/-!
Scans of headers with other line endings.  `scanBelow_apply` says that they find the same functions
and the same block, or the same fault.
-/
namespace MemberLift

open Lexer MemberLift.Group

variable {f : Token → Token}

/-- Conventions whose marks in a header have no line ends in them. -/
structure Conventions.SingleLine (c : Conventions) : Prop where
  marker : LineEnding.Plain c.marker
  blockBegin : LineEnding.Plain c.blockBegin
  blockEnd : LineEnding.Plain c.blockEnd
  namespaceEnd : LineEnding.Plain c.namespaceEnd

namespace Scan

theorem classNameTokens?_map (h : Recast f) (macros : List Text) (tokens : List Token) :
    classNameTokens? macros (tokens.map f) =
      (classNameTokens? macros tokens).map (List.map f) := by
  fun_induction classNameTokens? macros tokens with
  | case1 => simp [classNameTokens?]
  | case2 t rest macro_ ih =>
    rw [List.map_cons, classNameTokens?.eq_2, h.isWordIn, if_pos macro_, ih]
  | case3 t rest plain bracket open_ =>
    rw [← closeBrackets_map h.keepsMarks, List.map_cons] at open_
    rw [List.map_cons, classNameTokens?.eq_2, h.isWordIn, if_neg plain, h.isMark, if_pos bracket,
      open_]
    rfl
  | case4 t rest plain bracket k closed ih =>
    rw [← closeBrackets_map h.keepsMarks, List.map_cons] at closed
    rw [List.map_cons, classNameTokens?.eq_2, h.isWordIn, if_neg plain, h.isMark, if_pos bracket,
      closed]
    simp only [← List.map_drop, ih]
  | case5 t rest plain noBracket operand open_ =>
    rw [← closeBrackets_map h.keepsMarks] at open_
    rw [List.map_cons, classNameTokens?.eq_2, h.isWordIn, if_neg plain, h.isMark, if_neg noBracket,
      h.isWord, h.isWord, headMark_map h.keepsMarks, if_pos operand, open_]
    rfl
  | case6 t rest plain noBracket operand k closed ih =>
    rw [← closeBrackets_map h.keepsMarks] at closed
    rw [List.map_cons, classNameTokens?.eq_2, h.isWordIn, if_neg plain, h.isMark, if_neg noBracket,
      h.isWord, h.isWord, headMark_map h.keepsMarks, if_pos operand, closed]
    simp only [← List.map_drop, ih]
  | case7 t rest plain noBracket noOperand =>
    rw [List.map_cons, classNameTokens?.eq_2, h.isWordIn, if_neg plain, h.isMark, if_neg noBracket,
      h.isWord, h.isWord, headMark_map h.keepsMarks, if_neg noOperand]
    rfl

theorem keyedName?_map (h : Recast f) (macros : List Text) (tokens : List Token) :
    keyedName? macros (tokens.map f) = keyedName? macros tokens := by
  cases tokens with
  | nil => rfl
  | cons key rest =>
    simp only [List.map_cons, keyedName?, h.isWord, classNameTokens?_map h]
    split
    · rcases classNameTokens? macros rest with _ | _ | ⟨name, behind⟩
      · rfl
      · rfl
      · simp only [Option.map_some, List.map_cons, h.isIdentifier, headMark_map h.keepsMarks]
        by_cases identifier : name.isIdentifier = true
        · rw [h.text name (by rw [of_decide_eq_true identifier]; decide)]
        · simp only [identifier, Bool.false_and]
          rfl
    · rfl

theorem classNameOf?_map (h : Recast f) (macros : List Text) (tokens : List Token) :
    classNameOf? macros (tokens.map f) = classNameOf? macros tokens := by
  cases tokens with
  | nil => rfl
  | cons first rest =>
    have keyed := keyedName?_map h macros (first :: rest)
    simp only [List.map_cons, classNameOf?, h.isWord, angleSpan_map h.keepsMarks] at keyed ⊢
    rw [keyed]
    cases angleSpan rest with
    | none => rfl
    | some k => simp only [← List.map_drop, keyedName?_map h]

theorem declarationTokens?_map (h : Recast f) (depth : Nat) (tokens : List Token) :
    declarationTokens? depth (tokens.map f) =
      (declarationTokens? depth tokens).map (List.map f) := by
  induction tokens generalizing depth with
  | nil => rfl
  | cons t rest ih =>
    have push (d : Nat) : (declarationTokens? d (rest.map f)).map (f t :: ·) =
        ((declarationTokens? d rest).map (t :: ·)).map (List.map f) := by
      rw [ih, Option.map_map, Option.map_map]
      rfl
    simp only [List.map_cons, declarationTokens?, h.isMarkIn, h.isMark, push]
    split
    · rfl
    · split
      · rfl
      · split
        · split
          · rfl
          · rfl
        · split
          · rfl
          · rfl

variable {c : Conventions}

theorem sentinel?_apply (e : LineEnding) (single : c.SingleLine) (line : Text) :
    sentinel? c (e.apply line) = sentinel? c line := by
  rw [sentinel?, sentinel?, LineEnding.occursIn_apply e single.blockBegin,
    LineEnding.occursIn_apply e single.blockEnd]

theorem afterMarker?_apply (e : LineEnding) (single : c.SingleLine) (line : Text) :
    afterMarker? c.marker (e.apply line) = (afterMarker? c.marker line).map e.apply := by
  rw [afterMarker?, afterMarker?, LineEnding.trimStart_apply,
    LineEnding.isPrefixOf_apply e single.marker]
  split
  · rename_i begins
    obtain ⟨rest, whole⟩ := List.isPrefixOf_iff_prefix.mp begins
    rw [← whole, LineEnding.apply_append, LineEnding.apply_eq_self e single.marker.1,
      List.drop_left, List.drop_left]
    simp only [LineEnding.head_apply e (p := Alphabet.continuesIdentifier) rfl rfl]
    split
    · rfl
    · rfl
  · rfl

theorem className?_apply (e : LineEnding) {line : Text} (h : Convertible line) :
    className? c (e.apply line) = className? c line := by
  have keys :
      (["class", "struct", "template"].any fun key => key.toList.isPrefixOf (e.apply line)) =
        ["class", "struct", "template"].any fun key => key.toList.isPrefixOf line := by
    have plain : ∀ key ∈ ["class", "struct", "template"], LineEnding.Plain key.toList := by decide
    simp only [List.any_cons, LineEnding.isPrefixOf_apply e (plain "class" (by simp)),
      LineEnding.isPrefixOf_apply e (plain "struct" (by simp)),
      LineEnding.isPrefixOf_apply e (plain "template" (by simp))]
    rfl
  obtain ⟨bare, faults⟩ := lex_apply e 1 h
  have name := classNameOf?_map (bareIn_recast e) c.classMacros (lex 1 line).tokens
  rw [← bare, classNameOf?_map Token.bare_recast] at name
  rw [className?, className?, keys, tokenize, tokenize]
  generalize lex 1 line = lexed at name faults ⊢
  generalize lex 1 (e.apply line) = lexed' at name faults ⊢
  obtain ⟨tokens, fault⟩ := lexed
  obtain ⟨tokens', fault'⟩ := lexed'
  cases faults
  cases fault with
  | none => simp only [name]
  | some fault => rfl

theorem declaration_apply (e : LineEnding) (line lookahead : Nat) {rest : Text} {below : List Text}
    (h : Convertible (rest ++ below.flatten)) :
    (declaration line lookahead (e.apply rest) (below.map e.apply)).map (List.map Token.bare) =
      (declaration line lookahead rest below).map (List.map (bareIn e)) := by
  have text : e.apply rest ++ ((below.map e.apply).take lookahead).flatten =
      e.apply (rest ++ (below.take lookahead).flatten) := by
    rw [← List.map_take, ← LineEnding.apply_flatten, LineEnding.apply_append]
  have part : Convertible (rest ++ (below.take lookahead).flatten) := by
    rw [← List.take_append_drop lookahead below, List.flatten_append, ← List.append_assoc] at h
    exact h.left
  obtain ⟨bare, faults⟩ := lex_apply e line part
  rw [declaration, declaration, text]
  have tokens := declarationTokens?_map (bareIn_recast e) 0
    (lex line (rest ++ (below.take lookahead).flatten)).tokens
  rw [← bare, declarationTokens?_map Token.bare_recast] at tokens
  generalize lex line (rest ++ (below.take lookahead).flatten) = lexed at tokens faults ⊢
  generalize lex line (e.apply (rest ++ (below.take lookahead).flatten)) = lexed' at tokens faults ⊢
  simp only [faults]
  cases found : declarationTokens? 0 lexed.tokens with
  | some ts =>
    rw [found] at tokens
    cases there : declarationTokens? 0 lexed'.tokens with
    | some ts' =>
      rw [there] at tokens
      exact congrArg Except.ok (Option.some.inj tokens)
    | none => rw [there] at tokens; cases tokens
  | none =>
    rw [found] at tokens
    cases there : declarationTokens? 0 lexed'.tokens with
    | some ts' => rw [there] at tokens; cases tokens
    | none =>
      cases lexed.fault with
      | none => rfl
      | some fault => rfl

end Scan

namespace Docs

theorem isLineDoc_apply (e : LineEnding) (line : Text) :
    isLineDoc (e.apply line) = isLineDoc line := by
  rw [isLineDoc, isLineDoc, LineEnding.trim_apply, LineEnding.isPrefixOf_apply e (by decide),
    LineEnding.isPrefixOf_apply e (by decide)]

theorem endsBlockDoc_apply (e : LineEnding) (line : Text) :
    endsBlockDoc (e.apply line) = endsBlockDoc line := by
  rw [endsBlockDoc, endsBlockDoc, LineEnding.trim_apply, LineEnding.isSuffixOf_apply e (by decide)]

theorem opensComment_apply (e : LineEnding) (line : Text) :
    opensComment (e.apply line) = opensComment line := by
  rw [opensComment, opensComment, LineEnding.occursIn_apply e (by decide)]

theorem opensBlockDoc_apply (e : LineEnding) (line : Text) :
    opensBlockDoc (e.apply line) = opensBlockDoc line := by
  rw [opensBlockDoc, opensBlockDoc, LineEnding.trimStart_apply,
    LineEnding.isPrefixOf_apply e (by decide), LineEnding.isPrefixOf_apply e (by decide)]

theorem height_apply (e : LineEnding) (lookahead : Nat) (above : List Text) :
    height lookahead (above.map e.apply) = height lookahead above := by
  cases above with
  | nil => rfl
  | cons previous rest =>
    have inside : ((e.apply previous :: rest.map e.apply).take lookahead).takeWhile
        (fun line => !opensComment line) =
        (((previous :: rest).take lookahead).takeWhile fun line => !opensComment line).map
          e.apply := by
      rw [← List.map_cons, ← List.map_take, List.takeWhile_map]
      simp only [Function.comp_def, opensComment_apply]
    have run : ((e.apply previous :: rest.map e.apply).takeWhile isLineDoc).length =
        ((previous :: rest).takeWhile isLineDoc).length := by
      rw [← List.map_cons, List.takeWhile_map, List.length_map]
      simp only [Function.comp_def, isLineDoc_apply]
    have at_ (i : Nat) : ((e.apply previous :: rest.map e.apply).take lookahead)[i]? =
        (((previous :: rest).take lookahead)[i]?).map e.apply := by
      rw [← List.map_cons, ← List.map_take, List.getElem?_map]
    simp only [List.map_cons, height, endsBlockDoc_apply, isLineDoc_apply, inside, run, at_,
      List.length_map]
    cases ((previous :: rest).take lookahead)[(((previous :: rest).take lookahead).takeWhile
        fun line => !opensComment line).length]? with
    | none => rfl
    | some opening => simp only [Option.map_some, opensBlockDoc_apply]

theorem dedent_apply (e : LineEnding) (n : Nat) (line : Text) :
    dedent n (e.apply line) = e.apply (dedent n line) := by
  induction n generalizing line with
  | zero => rfl
  | succ n ih =>
    cases line with
    | nil => rfl
    | cons c line =>
      by_cases feed : c = '\n'
      · rw [feed, LineEnding.apply_newline]
        cases e with
        | lf => exact (LineEnding.apply_newline .lf line).symm
        | crlf => exact (LineEnding.apply_newline .crlf line).symm
      · rw [LineEnding.apply_cons e feed, dedent, dedent, ih]
        split
        · rfl
        · rw [LineEnding.apply_cons e feed]

theorem ofAbove_apply (e : LineEnding) (indent lookahead : Nat) (above : List Text) :
    ofAbove indent lookahead (above.map e.apply) =
      (ofAbove indent lookahead above).map e.apply := by
  rw [ofAbove, ofAbove, height_apply, Option.map_map]
  refine congrArg (Option.map · (height lookahead above)) (funext fun n => ?_)
  simp only [Function.comp, LineEnding.apply_flatMap, ← List.map_take, ← List.map_reverse,
    List.flatMap_map, dedent_apply]

end Docs

/-- A marked declaration of which only what its wrapper is made of is left. -/
def Marked.bare (m : Marked) : Marked := { m with tokens := m.tokens.map Token.bare }

def Marked.bareIn (e : LineEnding) (m : Marked) : Marked :=
  { m with tokens := m.tokens.map (Lexer.bareIn e), docs := m.docs.map e.apply }

namespace Scan

variable {c : Conventions}

def mapFunctions (g : Marked → Marked) (s : Scan) : Scan :=
  { s with functions := s.functions.map g }

theorem newline_notMem_indentation (valid : c.Valid) {line rest : Text}
    (shape : Text.Complete line ∨ '\n' ∉ line) (h : afterMarker? c.marker line = some rest) :
    '\n' ∉ line.indentation := by
  have whole := Text.indentation_append_trimStart line
  rcases shape with ⟨body, single, rfl⟩ | single
  · obtain ⟨a, m, marker, _⟩ := valid.marker
    have nonempty : (Text.trimStart (body ++ ['\n'])).length ≠ 0 := by
      rw [afterMarker?_some h, marker]
      simp
    have size := congrArg List.length whole
    simp only [List.length_append, List.length_singleton] at size
    have begins : Text.indentation (body ++ ['\n']) <+: body ++ ['\n'] := List.takeWhile_prefix _
    have inner : Text.indentation (body ++ ['\n']) <+: body :=
      List.prefix_of_prefix_length_le begins (List.prefix_append body ['\n']) (by omega)
    exact fun inside => single (inner.subset inside)
  · intro inside
    rw [← whole] at single
    exact single (List.mem_append_left _ inside)

theorem indentation_length_apply (e : LineEnding) (valid : c.Valid) {line rest : Text}
    (shape : Text.Complete line ∨ '\n' ∉ line) (h : afterMarker? c.marker line = some rest) :
    (e.apply line).indentation.length = line.indentation.length := by
  rw [LineEnding.indentation_apply,
    LineEnding.apply_eq_self e (newline_notMem_indentation valid shape h)]

theorem convertible_afterMarker {marker line rest below : Text}
    (found : afterMarker? marker line = some rest) (h : Convertible (line ++ below)) :
    Convertible (rest ++ below) := by
  have whole := Text.indentation_append_trimStart line
  rw [afterMarker?_some found, ← List.append_assoc] at whole
  rw [← whole, List.append_assoc] at h
  exact h.right

theorem push_apply {e : LineEnding} {below' below : Except ScanFault Scan} {m' m : Marked}
    (same : below'.map (mapFunctions Marked.bare) = below.map (mapFunctions (Marked.bareIn e)))
    (first : m'.bare = m.bareIn e) :
    (below'.map (push m')).map (mapFunctions Marked.bare) =
      (below.map (push m)).map (mapFunctions (Marked.bareIn e)) := by
  cases below with
  | error fault =>
    cases below' with
    | error fault' =>
      cases same
      rfl
    | ok scan' => cases same
  | ok scan =>
    cases below' with
    | error fault' => cases same
    | ok scan' =>
      have scans := Except.ok.inj same
      have functions := congrArg Scan.functions scans
      have block := congrArg Scan.block scans
      simp only [mapFunctions] at functions block
      simp only [Except.map, push, mapFunctions, List.map_cons, functions, block, first]

theorem marker_apply {e : LineEnding} {read' read : Except ScanFault (List Token)}
    {below' below : Except ScanFault Scan} {m' m : List Token → Marked}
    (declared : read'.map (List.map Token.bare) = read.map (List.map (bareIn e)))
    (same : below'.map (mapFunctions Marked.bare) = below.map (mapFunctions (Marked.bareIn e)))
    (first : ∀ tokens' tokens, tokens'.map Token.bare = tokens.map (bareIn e) →
      (m' tokens').bare = (m tokens).bareIn e) :
    (read'.bind fun tokens => below'.map (push (m' tokens))).map (mapFunctions Marked.bare) =
      (read.bind fun tokens => below.map (push (m tokens))).map
        (mapFunctions (Marked.bareIn e)) := by
  cases read with
  | error fault =>
    cases read' with
    | error fault' =>
      cases declared
      rfl
    | ok tokens' => cases declared
  | ok tokens =>
    cases read' with
    | error fault' => cases declared
    | ok tokens' => exact push_apply same (first tokens' tokens (Except.ok.inj declared))

theorem scanBelow_apply (e : LineEnding) (valid : c.Valid) (single : c.SingleLine)
    (above : List Text) (enclosing : Option Text) (progress : Progress) {below : List Text}
    (h : Convertible below.flatten) (whole : Text.lines below.flatten = below) :
    (scanBelow c (above.map e.apply) enclosing progress (below.map e.apply)).map
        (mapFunctions Marked.bare) =
      (scanBelow c above enclosing progress below).map (mapFunctions (Marked.bareIn e)) := by
  induction below generalizing above enclosing progress with
  | nil =>
    cases progress with
    | absent => rfl
    | opened opening => rfl
    | closed block => rfl
  | cons line below ih =>
    obtain ⟨_, rest, shape⟩ := Text.lines_eq_cons whole
    rw [List.flatten_cons] at h
    have step (enclosing : Option Text) (progress : Progress) :=
      ih (line :: above) enclosing progress h.right rest
    simp only [List.map_cons] at step ⊢
    have same := sentinel?_apply e single line
    have class_ := className?_apply (c := c) e h.left
    have marker := afterMarker?_apply e single line
    cases role c enclosing progress line with
    | @sentinel sentinel found =>
      rw [scanBelow_sentinel (same.trans found), scanBelow_sentinel found, List.length_map]
      cases progress.advance above.length sentinel with
      | error fault => rfl
      | ok progress => exact step enclosing progress
    | inside found open_ =>
      rw [scanBelow_inside (same.trans found) open_, scanBelow_inside found open_]
      exact step enclosing progress
    | @classHead name found open_ named =>
      rw [scanBelow_class (same.trans found) open_ (class_.trans named),
        scanBelow_class found open_ named]
      exact step (some name) progress
    | plain found open_ named marked =>
      rw [marked] at marker
      rw [scanBelow_plain (same.trans found) open_ (class_.trans named) marker,
        scanBelow_plain found open_ named marked]
      exact step enclosing progress
    | orphan found open_ named marked nowhere =>
      subst nowhere
      rw [marked] at marker
      rw [scanBelow_noClass (same.trans found) open_ (class_.trans named) marker,
        scanBelow_noClass found open_ named marked, List.length_map]
      rfl
    | @marker behind name found open_ named marked member =>
      subst member
      rw [marked] at marker
      rw [scanBelow_marker (same.trans found) open_ (class_.trans named) marker,
        scanBelow_marker found open_ named marked, List.length_map]
      have declared := declaration_apply e (above.length + 1) c.maxLookahead
        (convertible_afterMarker marked h)
      have docs := Docs.ofAbove_apply e line.indentation.length c.maxLookahead above
      rw [indentation_length_apply e valid (shape.imp_right And.left) marked]
      refine marker_apply declared (step (some name) progress) fun tokens' tokens read => ?_
      rw [Marked.bare, Marked.bareIn, docs, read]

theorem classNameTokens?_suffix {macros : List Text} {tokens rest : List Token}
    (h : classNameTokens? macros tokens = some rest) : rest <:+ tokens := by
  fun_induction classNameTokens? macros tokens with
  | case1 => cases h
  | case2 t more _ ih => exact (ih h).trans (List.suffix_cons t more)
  | case3 => cases h
  | case4 t more _ _ k _ ih =>
    exact (ih h).trans ((List.drop_suffix k more).trans (List.suffix_cons t more))
  | case5 => cases h
  | case6 t more _ _ _ k _ ih =>
    exact (ih h).trans ((List.drop_suffix (k + 1) more).trans (List.suffix_cons t more))
  | case7 =>
    cases h
    exact List.suffix_rfl

theorem keyedName?_mem {macros : List Text} {tokens : List Token} {name : Text}
    (h : keyedName? macros tokens = some name) :
    ∃ t ∈ tokens, t.kind = .identifier ∧ t.text = name := by
  cases tokens with
  | nil => cases h
  | cons key rest =>
    rw [keyedName?] at h
    split at h
    · split at h
      · rename_i t behind found
        split at h
        · rename_i named
          cases h
          rw [Bool.and_eq_true] at named
          have inside := (classNameTokens?_suffix found).subset List.mem_cons_self
          exact ⟨t, List.mem_cons_of_mem key inside, of_decide_eq_true named.1, rfl⟩
        · cases h
      · cases h
    · cases h

theorem classNameOf?_mem {macros : List Text} {tokens : List Token} {name : Text}
    (h : classNameOf? macros tokens = some name) :
    ∃ t ∈ tokens, t.kind = .identifier ∧ t.text = name := by
  cases tokens with
  | nil => cases h
  | cons first rest =>
    rw [classNameOf?] at h
    split at h
    · split at h
      · rename_i k _
        obtain ⟨t, inside, found⟩ := keyedName?_mem h
        exact ⟨t, List.mem_cons_of_mem first (List.mem_of_mem_drop inside), found⟩
      · cases h
    · exact keyedName?_mem h

theorem newline_notMem_className {line name : Text} (h : Convertible line)
    (found : className? c line = some name) : '\n' ∉ name := by
  rw [className?] at found
  split at found
  · cases read : tokenize 1 line with
    | error fault => rw [read] at found; cases found
    | ok tokens =>
      rw [read] at found
      obtain ⟨t, inside, kind, rfl⟩ := classNameOf?_mem found
      have single := newline_notMem_lex 1 h
      rw [tokenize_ok_iff.mp read] at single
      exact single t inside (by rw [kind]; decide)
  · cases found

end Scan

/-- A marked declaration whose class name and tokens have no line feeds, string literals apart. -/
structure Marked.SingleLine (m : Marked) : Prop where
  className : '\n' ∉ m.className
  tokens : ∀ t ∈ m.tokens, t.kind ≠ .stringLiteral → '\n' ∉ t.text

namespace Scan

theorem Scans.singleLine {above below : List Text} {enclosing : Option Text} {progress : Progress}
    {scan : Scan} (found : Scans c above enclosing progress below scan)
    (h : Convertible below.flatten) (class_ : ∀ name ∈ enclosing, '\n' ∉ name) :
    ∀ m ∈ scan.functions, m.SingleLine := by
  induction found with
  | done => simp
  | sentinel _ _ _ ih => exact ih (List.flatten_cons ▸ h).right class_
  | inside _ _ _ ih => exact ih (List.flatten_cons ▸ h).right class_
  | classHead _ _ named _ ih =>
    rw [List.flatten_cons] at h
    refine ih h.right fun name member => ?_
    cases member
    exact newline_notMem_className h.left named
  | plain _ _ _ _ _ ih => exact ih (List.flatten_cons ▸ h).right class_
  | @marker above below progress line rest name tokens scan _ _ _ marked declared _ ih =>
    rw [List.flatten_cons] at h
    intro m member
    rcases List.mem_cons.mp member with rfl | member
    · have part := convertible_afterMarker marked h
      rw [← List.take_append_drop c.maxLookahead below, List.flatten_append,
        ← List.append_assoc] at part
      obtain ⟨u, more, whole, _⟩ := declarationTokens?_stop (declaration_ok declared)
      refine ⟨class_ name rfl, fun t inside => newline_notMem_lex (above.length + 1) part.left t ?_⟩
      rw [whole]
      exact List.mem_append_left _ inside
    · exact ih h.right class_ m member

end Scan

end MemberLift
