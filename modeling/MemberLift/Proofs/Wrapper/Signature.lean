import MemberLift.Proofs.Declaration.Joints
import MemberLift.Proofs.Declaration.TypeNames
import MemberLift.Proofs.Token.Pieces
import MemberLift.Proofs.Wrapper.Forwarding

/-!
Names in the signature of a wrapper.  The parameter list of a signature is written from one list of
tokens, and read again that list declares `self`, unless the member is static, and behind it the
names that the parameters of the member declare.  So its names are distinct exactly if those of the
member are, and none of them is that of the object (`Wrapper.signature_names`).
-/
namespace MemberLift

open MemberLift.Group

namespace Wrapper

open Lexer

def selfWord : Token := ⟨.identifier, "self".toList, [], 1⟩

def referenceMark (d : Declaration) : Token :=
  ⟨.punctuator, (if d.refQualifier = some .rvalue then "&&" else "&").toList, [' '], 1⟩

def objectWords (className : Text) (d : Declaration) : List Token :=
  (if d.isConst then [⟨.identifier, "const".toList, [' '], 1⟩] else []) ++
    (if d.isVolatile then [⟨.identifier, "volatile".toList, [' '], 1⟩] else []) ++
    [⟨.identifier, className, [' '], 1⟩]

/-- The tokens of the parameter for the object. -/
def objectTokens (className : Text) (d : Declaration) : List Token :=
  objectWords className d ++ [referenceMark d, selfWord]

theorem render_objectTokens (className : Text) (d : Declaration) :
    render (objectTokens className d) = selfParameter className d := by
  unfold objectTokens objectWords referenceMark selfParameter
  cases d.isConst <;> cases d.isVolatile <;> by_cases rvalue : d.refQualifier = some .rvalue <;>
    simp [rvalue, render, Token.spaced, selfWord]

theorem mem_objectWords {className : Text} {d : Declaration} {t : Token}
    (h : t ∈ objectWords className d) :
    t.kind = .identifier ∧ t.leading = [' '] ∧
      (t.text = "const".toList ∨ t.text = "volatile".toList ∨ t.text = className) := by
  simp only [objectWords, List.mem_append, List.mem_singleton] at h
  obtain (h | h) | rfl := h
  · split at h
    · rw [List.mem_singleton.mp h]
      exact ⟨rfl, rfl, .inl rfl⟩
    · cases h
  · split at h
    · rw [List.mem_singleton.mp h]
      exact ⟨rfl, rfl, .inr (.inl rfl)⟩
    · cases h
  · exact ⟨rfl, rfl, .inr (.inr rfl)⟩

theorem isMark_referenceMark (d : Declaration) :
    (referenceMark d).isMark "&" = true ∨ (referenceMark d).isMark "&&" = true := by
  unfold referenceMark
  split
  · exact .inr rfl
  · exact .inl rfl

theorem flat_object (className : Text) (d : Declaration) :
    ∀ t ∈ objectWords className d ++ [referenceMark d], Flat t ∧ t.isMark "," = false ∧
      t.isMark "::" = false := by
  intro t member
  rcases List.mem_append.mp member with word | mark
  · have identifier : t.isIdentifier = true := decide_eq_true (mem_objectWords word).1
    exact ⟨.of_identifier identifier, Token.not_isMark_of_identifier identifier ",",
      Token.not_isMark_of_identifier identifier "::"⟩
  · rw [List.mem_singleton.mp mark]
    have other (mark : String) (ne : "&".toList ≠ mark.toList) (ne' : "&&".toList ≠ mark.toList) :
        (referenceMark d).isMark mark = false :=
      (isMark_referenceMark d).elim (Token.not_isMark_of_mark · ne) (Token.not_isMark_of_mark · ne')
    have inert : Inert (referenceMark d) := (isMark_referenceMark d).elim
      (.of_mark · (by decide)) (.of_mark · (by decide))
    exact ⟨⟨inert, other "(" (by decide) (by decide), other "[" (by decide) (by decide),
      other "=" (by decide) (by decide)⟩, other "," (by decide) (by decide),
      other "::" (by decide) (by decide)⟩

theorem inert_object (className : Text) (d : Declaration) :
    ∀ t ∈ objectTokens className d, Inert t ∧ t.isMark "," = false := by
  intro t member
  rw [objectTokens, List.append_cons] at member
  rcases List.mem_append.mp member with type | self
  · obtain ⟨flat, noComma, _⟩ := flat_object className d t type
    exact ⟨flat.inert, noComma⟩
  · rw [List.mem_singleton.mp self]
    exact ⟨.of_identifier rfl, rfl⟩

theorem name?_object (className : Text) (d : Declaration) :
    (Parameter.ofTokens (objectTokens className d)).name? = some "self".toList := by
  have flat := flat_object className d
  have unqualified : (((objectWords className d ++ [referenceMark d]).getLast?).map
      (·.isMark "::")).getD false = false := by
    rw [List.getLast?_concat]
    exact (flat (referenceMark d) (by simp)).2.2
  have index : (Parameter.ofTokens
      (objectWords className d ++ [referenceMark d] ++ [selfWord])).nameIndex =
        some (objectWords className d ++ [referenceMark d]).length := by
    rw [Parameter.nameIndex_flat (by simp) (fun t member => (flat t member).1) unqualified rfl
      (by simp), if_neg (by decide)]
  rw [objectTokens, List.append_cons, Parameter.name?, index]
  simp [Parameter.ofTokens, selfWord]

theorem allStand_spaced {front tokens : List Token} (stands : ∀ t ∈ front, Stands t [])
    (gaps : ∀ t ∈ front, t.leading ≠ []) (gap : ∀ t ∈ tokens.head?, t.leading ≠ [])
    (all : AllStand tokens) : AllStand (front ++ tokens) := by
  induction front with
  | nil => exact all
  | cons t front ih =>
    have behind := ih (fun u member => stands u (List.mem_cons_of_mem t member))
      (fun u member => gaps u (List.mem_cons_of_mem t member))
    refine allStand_cons.mpr ⟨(stands t List.mem_cons_self).stops (alike_nil_of_gap ?_).stops,
      behind⟩
    intro u first
    cases front with
    | nil => exact gap u first
    | cons v front =>
      cases first
      exact gaps u (by simp)

theorem readsAs_object {className : Text} (word : Stands ⟨.identifier, className, [], 1⟩ [])
    (d : Declaration) (line : Nat) :
    ReadsAs line (selfParameter className d) (objectTokens className d) := by
  have const : Stands ⟨.identifier, "const".toList, [], 1⟩ [] :=
    ok_of_mem_toOption (by decide +kernel)
  have volatile : Stands ⟨.identifier, "volatile".toList, [], 1⟩ [] :=
    ok_of_mem_toOption (by decide +kernel)
  have self : Stands selfWord [] := ok_of_mem_toOption (by decide +kernel)
  have mark : Stands (referenceMark d) "self".toList := by
    unfold referenceMark
    split
    · exact ok_of_mem_toOption (by decide +kernel)
    · exact ok_of_mem_toOption (by decide +kernel)
  rw [← render_objectTokens, readsAs_render]
  refine allStand_spaced (fun t member => ?_) (fun t member => ?_) ?_ ?_
  · obtain ⟨kind, _, text⟩ := mem_objectWords member
    rw [Stands, kind]
    obtain text | text | text := text
    · rw [text]
      exact const
    · rw [text]
      exact volatile
    · rw [text]
      exact word
  · rw [(mem_objectWords member).2.1]
    exact List.cons_ne_nil ' ' []
  · intro t first
    cases first
    exact List.cons_ne_nil ' ' []
  · refine allStand_cons.mpr ⟨mark, allStand_cons.mpr ⟨self, ?_⟩⟩
    intro front t following split
    cases front <;> cases split

/-- What of a token matters for marks. -/
def outline (t : Token) : Token := ⟨t.kind, if t.isIdentifier then [] else t.text, [], 0⟩

theorem outline_keepsMarks : KeepsMarks outline where
  kind _ := rfl
  text t punctuator := by
    rw [outline, Token.isIdentifier, punctuator]
    rfl

theorem outline_separator {separator : String} (t u : Token) (mark : t.isMark separator = true)
    (mark' : u.isMark separator = true) : outline t = outline u := by
  simp only [Token.isMark, Bool.and_eq_true, decide_eq_true_eq] at mark mark'
  simp only [outline, Token.isIdentifier, mark, mark']

theorem outline_indent (tokens : List Token) :
    (indent tokens).map outline = tokens.map outline := by
  cases tokens with
  | nil => rfl
  | cons t rest => rfl

theorem outline_anonymous (t : Token) : outline (anonymous t) = outline t := by
  unfold anonymous
  split
  · rename_i identifier
    simp only [outline, Token.isIdentifier] at identifier ⊢
    simp [identifier]
  · rfl

theorem outline_spelledOut (className : Text) (nested : List Text) (declared : Nat → Bool)
    (tokens : List Token) :
    (spelledOut className nested declared tokens).map outline = tokens.map outline := by
  have same := congrArg (List.map outline)
    (spelledOut_anonymous className nested declared tokens)
  simpa only [List.map_map, Function.comp_def, outline_anonymous] using same

/-- Whether a piece of a list is written as another one that declares the same name. -/
structure Rewritten (piece' piece : List Token) : Prop where
  outline : piece'.map outline = piece.map outline
  name? : (Parameter.ofTokens piece').name? = (Parameter.ofTokens piece).name?

theorem rewritten_qualified (c : Conventions) (className : Text) {piece : List Token}
    (named : (Parameter.ofTokens piece).nameIndex ≠ none) :
    Rewritten (qualified c className (Parameter.ofTokens piece)).tokens piece ∧
      Rewritten (indent (qualified c className (Parameter.ofTokens piece)).tokens) piece := by
  obtain ⟨k, found⟩ := Option.ne_none_iff_exists'.mp named
  obtain ⟨tokens, name⟩ := tokens_qualified c className found
  have outlines : (qualified c className (Parameter.ofTokens piece)).tokens.map outline =
      piece.map outline := by rw [tokens, outline_spelledOut]
  have spelled := congrArg (Option.map Token.text) name
  refine ⟨⟨outlines, Parameter.name?_alike outline_keepsMarks outlines found spelled⟩, ?_⟩
  rw [← outline_indent] at outlines
  refine ⟨outlines, Parameter.name?_alike outline_keepsMarks outlines found ?_⟩
  rw [← spelled]
  cases (qualified c className (Parameter.ofTokens piece)).tokens <;> cases k <;> rfl

def nameOf (piece : List Token) : Option Text := (Parameter.ofTokens piece).name?

/-- A list that is joined of rewritten pieces is split into them, and they declare the same
names. -/
theorem names_rewritten {list tokens first : List Token} {rest : List (List Token)}
    {f : List Token → List Token} {first' : List Token} (split : pieces list = first :: rest)
    (joined : Joined "," (first' :: rest.map f) tokens) (start : Rewritten first' first)
    (behind : ∀ piece ∈ rest, Rewritten (f piece) piece) :
    (splitTopLevel "," tokens).map nameOf = (pieces list).map nameOf := by
  have top : splitTopLevel "," list = first :: rest := by
    unfold pieces at split
    split at split
    · cases split
    · exact split
  have nonempty : list ≠ [] := by
    rintro rfl
    cases top
  have outlines : (first' :: rest.map f).map (List.map outline) =
      (splitTopLevel "," list).map (List.map outline) := by
    rw [top, List.map_cons, List.map_cons, List.map_map, start.outline]
    exact congrArg _ (List.map_congr_left fun piece member => (behind piece member).outline)
  rw [splitTopLevel_alike outline_keepsMarks outline_separator nonempty joined outlines, split,
    List.map_cons, List.map_cons, List.map_map, nameOf, start.name?]
  exact congrArg _ (List.map_congr_left fun piece member => (behind piece member).name?)

def parameterTokens (className : Text) (d : Declaration) : List Token :=
  listed ((if d.isStatic then [] else [objectTokens className d]) ++ d.params.map Parameter.tokens)

theorem isVoid_of_length {tokens : List Token} (long : 2 ≤ tokens.length) :
    isVoid tokens = false := by
  rcases tokens with _ | ⟨t, _ | ⟨u, rest⟩⟩
  · rfl
  · exact absurd long (by simp)
  · rfl

theorem Rewritten.two_le_length {piece' piece : List Token} (h : Rewritten piece' piece)
    (named : (Parameter.ofTokens piece).nameIndex ≠ none) : 2 ≤ piece'.length := by
  obtain ⟨k, found⟩ := Option.ne_none_iff_exists'.mp named
  obtain ⟨name, names⟩ := Parameter.names_of_ofTokens found
  obtain ⟨_, _, inside, _⟩ := Parameter.name?_ofTokens found
  have front := names.pos (items_ne_nil false _)
  have short := (List.getElem?_eq_some_iff.mp inside).1
  rw [← List.length_map Wrapper.outline, h.outline, List.length_map]
  omega

theorem parameters_map_name? {tokens : List Token} (noVoid : isVoid tokens = false) :
    (parameters tokens).map Parameter.name? = (splitTopLevel "," tokens).map nameOf := by
  rw [parameters, noVoid, if_neg Bool.false_ne_true, List.map_map]
  rfl

theorem isVoid_object (className : Text) (d : Declaration) (tokens : List Token) :
    isVoid (objectTokens className d ++ tokens) = false :=
  isVoid_of_length (by
    simp only [objectTokens, List.length_append, List.length_cons]
    omega)

theorem names_object (className : Text) (d : Declaration) {tokens : List Token}
    (nonempty : tokens ≠ []) :
    (parameters (objectTokens className d ++ comma :: tokens)).map Parameter.name? =
      some "self".toList :: (splitTopLevel "," tokens).map nameOf := by
  have inert : Inert comma := .of_marks (by decide)
  rw [parameters_map_name? (isVoid_object className d _),
    splitTopLevel_inerts (fun t member => (inert_object className d t member).1)
      (fun t member => (inert_object className d t member).2) inert rfl nonempty, List.map_cons,
    nameOf, name?_object]

theorem names_object_alone (className : Text) (d : Declaration) :
    (parameters (objectTokens className d)).map Parameter.name? = [some "self".toList] := by
  have noVoid := isVoid_object className d []
  rw [List.append_nil] at noVoid
  have alone : splitTopLevel "," (objectTokens className d) = [objectTokens className d] := by
    have inert := inert_object className d
    rw [objectTokens, List.append_cons] at inert ⊢
    refine splitTopLevel_alone (fun t member => ?_) (fun t member => ?_) ?_ ?_
    · exact (inert t (List.mem_append_left _ member)).1
    · exact (inert t (List.mem_append_left _ member)).2
    · exact (inert selfWord (by simp)).1
    · exact (inert selfWord (by simp)).2
  rw [parameters_map_name? noVoid, alone, List.map_singleton, nameOf, name?_object]

/-- The tokens of the parameter for a piece. -/
def emitted (c : Conventions) (className : Text) (piece : List Token) : List Token :=
  (qualified c className (Parameter.ofTokens piece)).tokens

theorem names_listed (c : Conventions) (className : Text) {list first first' : List Token}
    {rest : List (List Token)} (split : pieces list = first :: rest)
    (named : ∀ piece ∈ first :: rest, (Parameter.ofTokens piece).nameIndex ≠ none)
    (start : Rewritten first' first) :
    2 ≤ (listed (first' :: rest.map (emitted c className))).length ∧
      (splitTopLevel "," (listed (first' :: rest.map (emitted c className)))).map nameOf =
        (first :: rest).map nameOf := by
  have joined := listed_joined first' (rest.map (emitted c className))
  constructor
  · exact Nat.le_trans (start.two_le_length (named first List.mem_cons_self))
      (joined.length_le first' List.mem_cons_self)
  · rw [List.map_map] at joined
    rw [← split]
    exact names_rewritten split joined start fun piece member =>
      (rewritten_qualified c className (named piece (List.mem_cons_of_mem first member))).2

/-- The names that the parameter list of a signature declares. -/
def signatureNames (c : Conventions) (className : Text) (d : Declaration) : List (Option Text) :=
  (parameters (parameterTokens className (qualifyDeclaration c className d))).map Parameter.name?

/-- The parameter list of a signature declares the object and the parameters of the member. -/
theorem signatureNames_eq (c : Conventions) (className : Text) {d : Declaration}
    {list : List Token} (params : d.params = (pieces list).map Parameter.ofTokens)
    (named : ∀ p ∈ d.params, p.nameIndex ≠ none) :
    signatureNames c className d =
      (if d.isStatic then [] else [some "self".toList]) ++ d.params.map Parameter.name? := by
  have isStatic : (qualifyDeclaration c className d).isStatic = d.isStatic := rfl
  have tokens : (d.params.map (qualified c className)).map Parameter.tokens =
      (pieces list).map (emitted c className) := by rw [params, List.map_map, List.map_map]; rfl
  have names : d.params.map Parameter.name? = (pieces list).map nameOf := by
    rw [params, List.map_map]; rfl
  rw [params, List.forall_mem_map] at named
  rw [signatureNames, parameterTokens, params_qualifyDeclaration, isStatic, tokens, names]
  cases split : pieces list with
  | nil =>
    cases d.isStatic with
    | true => rfl
    | false =>
      have alone := names_object_alone className (qualifyDeclaration c className d)
      simpa [listed] using alone
  | cons first rest =>
    rw [split] at named
    obtain ⟨plain, indented⟩ := rewritten_qualified c className (named first List.mem_cons_self)
    cases d.isStatic with
    | true =>
      obtain ⟨long, read⟩ := names_listed c className split named plain
      exact (parameters_map_name? (isVoid_of_length long)).trans read
    | false =>
      -- behind the object the first parameter has a space in front of it as well
      obtain ⟨long, read⟩ := names_listed c className split named indented
      have behind := names_object className (qualifyDeclaration c className d)
        (List.ne_nil_of_length_pos (Nat.lt_of_lt_of_le Nat.two_pos long))
      rw [read] at behind
      exact behind

theorem render_parameterTokens {className : Text} {d : Declaration}
    (nonempty : ∀ p ∈ d.params, p.tokens ≠ []) :
    render (parameterTokens className d) = Text.join ", ".toList (parameterTexts className d) := by
  have others : ∀ piece ∈ d.params.map Parameter.tokens, piece ≠ [] :=
    List.forall_mem_map.mpr nonempty
  have renders : (d.params.map Parameter.tokens).map render = d.params.map Parameter.render :=
    List.map_map
  rw [parameterTokens, parameterTexts]
  cases d.isStatic with
  | true =>
    rw [if_pos rfl, if_pos rfl, List.nil_append, List.nil_append, render_listed others, renders]
  | false =>
    have all : ∀ piece ∈ objectTokens className d :: d.params.map Parameter.tokens, piece ≠ [] := by
      refine List.forall_mem_cons.mpr ⟨?_, others⟩
      exact List.append_ne_nil_of_right_ne_nil _ (List.cons_ne_nil _ _)
    rw [if_neg Bool.false_ne_true, if_neg Bool.false_ne_true, List.singleton_append,
      List.singleton_append, render_listed all, List.map_cons, render_objectTokens, renders]

theorem nodup_iff {names : List (Option Text)} (b : Bool) (name : Text) :
    ((if b then [] else [some name]) ++ names).Nodup ↔
      names.Nodup ∧ (b = true ∨ some name ∉ names) := by
  cases b with
  | true => simp
  | false => simp [List.nodup_cons, and_comm]

/-- The parameter list of a wrapper is written from a list of tokens that declares `self`, unless
the member is static, and behind it the names of the member's parameters.  So its names are distinct
exactly if those of the member's parameters are, and the member is static or has no parameter of
that name.  The parameter for the object is read as its tokens if the name of the class is read as
one. -/
theorem signature_names {c : Conventions} {ending : LineEnding} {m : Marked} {w : Wrapper}
    (h : ofMarked c ending m = .ok w) :
    ∃ d, Declaration.ofTokens c.stripMacros m.tokens = .ok d ∧
      w.definition = definitionText ending m.className (qualifyDeclaration c m.className d) ∧
      Text.join ", ".toList (parameterTexts m.className (qualifyDeclaration c m.className d)) =
        render (parameterTokens m.className (qualifyDeclaration c m.className d)) ∧
      (Stands ⟨.identifier, m.className, [], 1⟩ [] → ∀ line,
        ReadsAs line (selfParameter m.className (qualifyDeclaration c m.className d))
          (objectTokens m.className (qualifyDeclaration c m.className d))) ∧
      signatureNames c m.className d =
        (if d.isStatic then [] else [some "self".toList]) ++ d.params.map Parameter.name? ∧
      ((signatureNames c m.className d).Nodup ↔
        (d.params.map Parameter.name?).Nodup ∧
          (d.isStatic = true ∨ some "self".toList ∉ d.params.map Parameter.name?)) := by
  obtain ⟨d, parsed, rfl⟩ := ofMarked_ok h
  obtain ⟨specifiers, list, after, sourced⟩ := Declaration.ofTokens_sourced parsed
  have named := Declaration.named_of_unnamed sourced.named
  have params := sourced.params
  rw [parameters_eq_map] at params
  have nonempty : ∀ p ∈ (qualifyDeclaration c m.className d).params, p.tokens ≠ [] := by
    rw [params_qualifyDeclaration, params, List.forall_mem_map, List.forall_mem_map]
    intro piece member
    have name := named _ (params ▸ List.mem_map_of_mem member)
    have long := (rewritten_qualified c m.className name).1.two_le_length name
    exact List.ne_nil_of_length_pos (Nat.lt_of_lt_of_le Nat.two_pos long)
  have names := signatureNames_eq c m.className params named
  refine ⟨d, parsed, rfl, (render_parameterTokens nonempty).symm,
    fun word line => readsAs_object word _ line, names, ?_⟩
  rw [names]
  exact nodup_iff d.isStatic "self".toList

def storeMember : Marked where
  className := "handle".toList
  tokens := (Lexer.lex 1 "void store(void (*f)(int), char b[4], T &&...t)".toList).tokens
  docs := none
  line := 1

def storeWrapper : Wrapper where
  docs := none
  definition := ("inline void store(handle &self, void (*f)(int), char b[4], T &&...t)\n\x7b\n" ++
    "  return self.store(std::forward<decltype(f)>(f), std::forward<decltype(b)>(b), " ++
    "std::forward<decltype(t)>(t)...);\n\x7d\n").toList
  summary := ⟨"handle".toList, "store".toList, false, 1⟩

theorem signature_names_store : ofMarked .standard .lf storeMember = .ok storeWrapper ∧
    ∃ d, Declaration.ofTokens Conventions.standard.stripMacros storeMember.tokens = .ok d ∧
      storeWrapper.definition = definitionText .lf storeMember.className
        (qualifyDeclaration .standard storeMember.className d) ∧
      Text.join ", ".toList (parameterTexts storeMember.className
          (qualifyDeclaration .standard storeMember.className d)) =
        render (parameterTokens storeMember.className
          (qualifyDeclaration .standard storeMember.className d)) ∧
      (∀ line, ReadsAs line
        (selfParameter storeMember.className
          (qualifyDeclaration .standard storeMember.className d))
        (objectTokens storeMember.className
          (qualifyDeclaration .standard storeMember.className d))) ∧
      signatureNames .standard storeMember.className d =
        ["self", "f", "b", "t"].map (fun name => some name.toList) ∧
      (signatureNames .standard storeMember.className d).Nodup := by
  have wrapped : ofMarked .standard .lf storeMember = .ok storeWrapper :=
    ok_of_mem_toOption (by decide +kernel)
  obtain ⟨d, parsed, definition, join, object, names, distinct⟩ := signature_names wrapped
  have word : Stands ⟨.identifier, storeMember.className, [], 1⟩ [] :=
    ok_of_mem_toOption (by decide +kernel)
  have declared : (Declaration.ofTokens Conventions.standard.stripMacros
      storeMember.tokens).toOption.map (fun d => (d.isStatic, d.params.map Parameter.name?)) =
        some (false, ["f", "b", "t"].map fun name => some name.toList) := by decide +kernel
  rw [parsed] at declared
  obtain ⟨isStatic, params⟩ := Prod.mk.inj (Option.some.inj declared)
  refine ⟨wrapped, d, parsed, definition, join, object word, ?_, distinct.mpr ?_⟩
  · rw [names, isStatic, params]
    rfl
  · rw [params]
    exact ⟨by decide, .inr (by decide)⟩

def swapMember : Marked where
  className := "handle".toList
  tokens := (Lexer.lex 1 "void swap(handle &self)".toList).tokens
  docs := none
  line := 1

def swapWrapper : Wrapper where
  docs := none
  definition := ("inline void swap(handle &self, handle &self)\n\x7b\n" ++
    "  return self.swap(std::forward<decltype(self)>(self));\n\x7d\n").toList
  summary := ⟨"handle".toList, "swap".toList, false, 1⟩

/-- The names of a wrapper's parameters can clash though those of the member's do not. -/
theorem not_signature_nodup :
    ¬ ∀ (c : Conventions) (ending : LineEnding) (m : Marked) (w : Wrapper) (d : Declaration),
      ofMarked c ending m = .ok w → Declaration.ofTokens c.stripMacros m.tokens = .ok d →
        (d.params.map Parameter.name?).Nodup → (signatureNames c m.className d).Nodup := by
  intro all
  have wrapped : ofMarked .standard .lf swapMember = .ok swapWrapper :=
    ok_of_mem_toOption (by decide +kernel)
  obtain ⟨d, parsed, _⟩ := ofMarked_ok wrapped
  have names : (Declaration.ofTokens Conventions.standard.stripMacros
      swapMember.tokens).toOption.map (fun d =>
          (d.params.map Parameter.name?, signatureNames .standard swapMember.className d)) =
        some ([some "self".toList], [some "self".toList, some "self".toList]) := by decide +kernel
  rw [parsed] at names
  obtain ⟨declared, emitted⟩ := Prod.mk.inj (Option.some.inj names)
  have distinct := all .standard .lf swapMember swapWrapper d wrapped parsed
    (by rw [declared]; decide)
  rw [emitted] at distinct
  exact absurd distinct (by decide)

end Wrapper

end MemberLift
