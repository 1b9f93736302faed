import MemberLift.Proofs.Header.Scan.Functions
import MemberLift.Proofs.Lexer.Reads
import MemberLift.Proofs.Token.Angles

/-!
Lines on which a class begins.  The name is settled by the tokens up to the one behind it
(`classNameOf?_head`), but the whole line is read first, and a comment or literal that the line
leaves open makes it a line without a class.  So what follows the name can hide the class, and then
the functions below go to the class above (`className?_agreed`).
-/
namespace MemberLift.Scan

open MemberLift.Group

/-- What may stand between a class key and the name: declaration macros, attributes, and groups
behind one of the given specifiers. -/
inductive Decorations (macros : List Text) : List Token → List Token → Prop where
  | nil : Decorations macros [] []
  | declMacro {t : Token} {specifiers rest : List Token} :
      t.isWordIn macros = true → Decorations macros specifiers rest →
        Decorations macros specifiers (t :: rest)
  | bracketed {t : Token} {inner specifiers rest : List Token} :
      t.isMark "[" = true → BracketGroup (t :: inner) 0 inner.length →
        Decorations macros specifiers rest → Decorations macros specifiers (t :: inner ++ rest)
  | specifier {t u : Token} {inner specifiers rest : List Token} :
      t.isWord "alignas" = true ∨ t.isWord "__declspec" = true → u.isMark "(" = true →
        BracketGroup (u :: inner) 0 inner.length → Decorations macros specifiers rest →
          Decorations macros (t :: specifiers) (t :: u :: inner ++ rest)

/-- What may stand in front of a class key. -/
inductive TemplateHead : List Token → Prop where
  | none : TemplateHead []
  | some {t u v : Token} {arguments : List Token} :
      t.isWord "template" = true → u.isMark "<" = true → Arguments false arguments →
        v.isMark ">" = true → TemplateHead (t :: u :: arguments ++ [v])

/-- The tokens of a class head up to the name, which stands in front of a given token. -/
structure ClassHead (macros : List Text) (specifiers head : List Token) (name behind : Token) :
    Prop where
  shape : ∃ template key decorations, head = template ++ key :: decorations ∧
    TemplateHead template ∧ (key.isWord "class" = true ∨ key.isWord "struct" = true) ∧
    Decorations macros specifiers decorations
  column : ∀ t ∈ head.head?, t.leading = []
  identifier : name.isIdentifier = true
  noMacro : name.isWordIn macros = false
  noGroup : behind.isMark "(" = true →
    name.isWord "alignas" = false ∧ name.isWord "__declspec" = false

/-- Whether all comments and literals in a text that begins on a given line are closed. -/
def Legible (line : Nat) (s : Text) : Prop := (Lexer.lex line s).fault = none

instance (line : Nat) (s : Text) : Decidable (Legible line s) :=
  inferInstanceAs (Decidable (_ = _))

/-- Whether no word in front of a group is a declaration macro, which has no group. -/
def NoMacros (macros : List Text) (specifiers : List Token) : Prop :=
  ∀ t ∈ specifiers, t.isWordIn macros = false

instance (macros : List Text) (specifiers : List Token) : Decidable (NoMacros macros specifiers) :=
  inferInstanceAs (Decidable (∀ t ∈ specifiers, _))

section

variable {t : Token} {macros : List Text}

theorem isWordIn_of_isMark {mark : String} (holds : t.isMark mark = true) (words : List Text) :
    t.isWordIn words = false := by
  have other : t.isIdentifier = false := Token.isIdentifier_of_isMark holds
  rw [Token.isWordIn, ← Token.isIdentifier, other, Bool.false_and]

theorem isWord_of_isMark {mark : String} (holds : t.isMark mark = true) (word : String) :
    t.isWord word = false := by
  have other : t.isIdentifier = false := Token.isIdentifier_of_isMark holds
  rw [Token.isWord, ← Token.isIdentifier, other, Bool.false_and]

theorem isWord_ne {word other : String} (holds : t.isWord word = true)
    (ne : word.toList ≠ other.toList) : t.isWord other = false := by
  rw [Token.isWord, Bool.and_eq_true, decide_eq_true_eq, decide_eq_true_eq] at holds
  simp [Token.isWord, holds.2, ne]

theorem text_of_isWord {word : String} (holds : t.isWord word = true) : t.text = word.toList := by
  rw [Token.isWord, Bool.and_eq_true] at holds
  exact of_decide_eq_true holds.2

theorem headMark_cons (mark : String) (t : Token) (rest : List Token) :
    headMark mark (t :: rest) = t.isMark mark := rfl

theorem closeBrackets_group {inner : List Token} (opens : isOpener t = true)
    (group : BracketGroup (t :: inner) 0 inner.length) (rest : List Token) :
    closeBrackets [] (t :: (inner ++ rest)) = some inner.length := by
  have closed : matchingBracket (t :: inner) 0 = some inner.length :=
    (matchingBracket_iff rfl opens).mpr group
  rw [matchingBracket_zero opens, ← List.append_nil (t :: inner)] at closed
  exact closeBrackets_front closed (by simp) rest

theorem classNameTokens?_listed (listed : t.isWordIn macros = true) (rest : List Token) :
    classNameTokens? macros (t :: rest) = classNameTokens? macros rest := by
  rw [classNameTokens?.eq_2, if_pos listed]

theorem classNameTokens?_bracketed {inner : List Token} (opens : t.isMark "[" = true)
    (group : BracketGroup (t :: inner) 0 inner.length) (rest : List Token) :
    classNameTokens? macros (t :: (inner ++ rest)) = classNameTokens? macros rest := by
  have opener : isOpener t = true := isOpener_of_isMark opens (by decide)
  rw [classNameTokens?.eq_2, isWordIn_of_isMark opens, if_neg Bool.false_ne_true, if_pos opens,
    closeBrackets_group opener group]
  simp only
  rw [List.drop_left]

theorem classNameTokens?_specifier {u : Token} {inner : List Token}
    (word : t.isWord "alignas" = true ∨ t.isWord "__declspec" = true)
    (noMacro : t.isWordIn macros = false) (opens : u.isMark "(" = true)
    (group : BracketGroup (u :: inner) 0 inner.length) (rest : List Token) :
    classNameTokens? macros (t :: u :: (inner ++ rest)) = classNameTokens? macros rest := by
  have opener : isOpener u = true := isOpener_of_isMark opens (by decide)
  have noBracket : t.isMark "[" = false := by
    rcases word with word | word
    · exact Token.not_isMark_of_word word "["
    · exact Token.not_isMark_of_word word "["
  rw [classNameTokens?.eq_2, noMacro, if_neg Bool.false_ne_true, noBracket,
    if_neg Bool.false_ne_true, headMark_cons, opens, Bool.and_true,
    if_pos (Bool.or_eq_true_iff.mpr word), closeBrackets_group opener group]
  simp only
  rw [List.drop_succ_cons, List.drop_left]

theorem classNameTokens?_stop {rest : List Token} (noMacro : t.isWordIn macros = false)
    (noAttribute : t.isMark "[" = false)
    (noGroup : headMark "(" rest = true →
      t.isWord "alignas" = false ∧ t.isWord "__declspec" = false) :
    classNameTokens? macros (t :: rest) = some (t :: rest) := by
  have noSpecifier :
      ((t.isWord "alignas" || t.isWord "__declspec") && headMark "(" rest) = false := by
    rw [Bool.and_eq_false_iff]
    cases opens : headMark "(" rest with
    | false => exact .inr rfl
    | true => exact .inl (Bool.or_eq_false_iff.mpr (noGroup opens))
  rw [classNameTokens?.eq_2, noMacro, noAttribute, noSpecifier]
  simp

/-- Decorations are skipped, unless one of the specifiers is a macro: its group stays. -/
theorem classNameTokens?_decorations {specifiers decorations : List Token}
    (decorated : Decorations macros specifiers decorations) (rest : List Token) :
    (NoMacros macros specifiers →
      classNameTokens? macros (decorations ++ rest) = classNameTokens? macros rest) ∧
    (¬ NoMacros macros specifiers →
      ∃ u behind, classNameTokens? macros (decorations ++ rest) = some (u :: behind) ∧
        u.isIdentifier = false) := by
  induction decorated with
  | nil => exact ⟨fun _ => rfl, fun listed => absurd nofun listed⟩
  | declMacro listed _ ih =>
    rw [List.cons_append, classNameTokens?_listed listed]
    exact ih
  | bracketed opens group _ ih =>
    rw [List.append_assoc, List.cons_append, classNameTokens?_bracketed opens group]
    exact ih
  | @specifier t u inner specifiers decorations word opens group _ ih =>
    have whole : t :: u :: inner ++ decorations ++ rest =
        t :: u :: (inner ++ (decorations ++ rest)) := by simp
    rw [whole, NoMacros, List.forall_mem_cons]
    cases listed : t.isWordIn macros with
    | false =>
      rw [classNameTokens?_specifier word listed opens group]
      simpa [NoMacros] using ih
    | true =>
      -- the specifier is skipped as a macro, and nothing skips the group behind it
      refine ⟨fun plain => absurd plain.1 (by decide),
        fun _ => ⟨u, inner ++ (decorations ++ rest), ?_, ?_⟩⟩
      · rw [classNameTokens?_listed listed]
        refine classNameTokens?_stop (isWordIn_of_isMark opens macros) ?_ fun _ => ?_
        · exact Token.not_isMark_of_mark opens (by decide)
        · exact ⟨isWord_of_isMark opens _, isWord_of_isMark opens _⟩
      · exact Token.isIdentifier_of_isMark opens

end

section

variable {macros : List Text} {specifiers head : List Token} {name behind : Token}

theorem keyedName?_head {key : Token} {decorations : List Token}
    (class_ : key.isWord "class" = true ∨ key.isWord "struct" = true)
    (decorated : Decorations macros specifiers decorations)
    (shape : ClassHead macros specifiers head name behind) (noStop : behind.isMark ";" = false)
    (more : List Token) :
    keyedName? macros (key :: (decorations ++ name :: behind :: more)) =
      if NoMacros macros specifiers then some name.text else none := by
  obtain ⟨skipped, kept⟩ := classNameTokens?_decorations decorated (name :: behind :: more)
  have noAttribute : name.isMark "[" = false :=
    Token.not_isMark_of_identifier shape.identifier "["
  rw [keyedName?, if_pos (Bool.or_eq_true_iff.mpr class_)]
  by_cases plain : NoMacros macros specifiers
  · have stop : classNameTokens? macros (name :: behind :: more) = some (name :: behind :: more) :=
      classNameTokens?_stop shape.noMacro noAttribute shape.noGroup
    rw [skipped plain, stop]
    simp [plain, shape.identifier, headMark_cons, noStop]
  · obtain ⟨u, others, found, noName⟩ := kept plain
    simp [plain, found, noName]

/-- The name of a class is settled by the tokens up to the one behind it. -/
theorem classNameOf?_head (shape : ClassHead macros specifiers head name behind)
    (noStop : behind.isMark ";" = false) (more : List Token) :
    classNameOf? macros (head ++ [name, behind] ++ more) =
      if NoMacros macros specifiers then some name.text else none := by
  obtain ⟨template, key, decorations, rfl, before, class_, decorated⟩ := shape.shape
  have named := keyedName?_head class_ decorated shape noStop more
  cases before with
  | none =>
    have noTemplate : key.isWord "template" = false := by
      rcases class_ with class_ | class_
      · exact isWord_ne class_ (by decide)
      · exact isWord_ne class_ (by decide)
    simp only [List.nil_append, List.append_assoc, List.cons_append]
    rw [classNameOf?, noTemplate, if_neg Bool.false_ne_true, named]
  | @some t u v arguments word opens inside closes =>
    have whole : t :: u :: arguments ++ [v] ++ key :: decorations ++ [name, behind] ++ more =
        t :: u :: (arguments ++ v :: key :: (decorations ++ name :: behind :: more)) := by simp
    have size :
        angleSpan (u :: (arguments ++ v :: key :: (decorations ++ name :: behind :: more))) =
          some (arguments.length + 2) := by
      rw [angleSpan, if_pos opens, closeAngle_complete inside closes, Option.map_some]
    have cut : (u :: (arguments ++ v :: key :: (decorations ++ name :: behind :: more))).drop
        (arguments.length + 2) = key :: (decorations ++ name :: behind :: more) := by
      simp
    rw [whole, classNameOf?, if_pos word, size]
    simp only
    rw [cut, named]

end

theorem prefix_of_reads {line line' : Nat} {s rest : Text} {t : Token} {tokens : List Token}
    (reads : Lexer.Reads line s (t :: tokens) line' rest) (column : t.leading = []) :
    t.text <+: s := by
  cases reads with
  | step found _ =>
    obtain ⟨fs, d, r, skips, lexed, _⟩ := Lexer.next_some found
    have none_ : fs = [] := by
      have counted := skips.leading
      rw [column] at counted
      exact List.map_eq_nil_iff.mp counted.symm
    have here : s = d :: r := by
      rw [skips.split, none_]
      rfl
    rw [here, ← (Lexer.lexeme_append lexed).1]
    exact List.prefix_append _ _

section

variable {c : Conventions} {specifiers head : List Token} {name behind : Token}
variable {line line' rest rest' : Text} {mid mid' : Nat}

theorem keyed_of_reads (shape : ClassHead c.classMacros specifiers head name behind)
    (reads : Lexer.Reads 1 line (head ++ [name, behind]) mid rest) :
    (["class", "struct", "template"].any fun key => key.toList.isPrefixOf line) = true := by
  obtain ⟨template, key, decorations, rfl, before, class_, _⟩ := shape.shape
  have begins {word : String} {t : Token} {tokens : List Token} (holds : t.isWord word = true)
      (first : template ++ key :: decorations ++ [name, behind] = t :: tokens)
      (leading : t.leading = []) : word.toList <+: line := by
    rw [first] at reads
    exact text_of_isWord holds ▸ prefix_of_reads reads leading
  simp only [List.any_cons, List.any_nil, Bool.or_false, Bool.or_eq_true,
    List.isPrefixOf_iff_prefix]
  cases before with
  | none =>
    have leading : key.leading = [] := shape.column key rfl
    rcases class_ with class_ | class_
    · exact .inl (begins class_ rfl leading)
    · exact .inr (.inl (begins class_ rfl leading))
  | @some t u v arguments word =>
    exact .inr (.inr (begins word rfl (shape.column t rfl)))

/-- A line that begins with a class head names the class, unless the rest of the line leaves a
comment or a literal open. -/
theorem className?_head (shape : ClassHead c.classMacros specifiers head name behind)
    (noStop : behind.isMark ";" = false)
    (reads : Lexer.Reads 1 line (head ++ [name, behind]) mid rest) :
    className? c line =
      if Legible mid rest ∧ NoMacros c.classMacros specifiers then some name.text else none := by
  have whole := reads.lex
  rw [className?, if_pos (keyed_of_reads shape reads)]
  by_cases legible : Legible mid rest
  · rw [show (Lexer.lex mid rest).fault = none from legible] at whole
    rw [Lexer.tokenize_ok_iff.mpr whole]
    simpa [legible] using classNameOf?_head shape noStop (Lexer.lex mid rest).tokens
  · obtain ⟨fault, left⟩ := Option.ne_none_iff_exists'.mp legible
    simp [Lexer.tokenize, whole, left, legible]

theorem legible_of_reads {tokens : List Token} (reads : Lexer.Reads 1 line tokens mid rest) :
    Legible mid rest ↔ Legible 1 line := by
  rw [Legible, Legible, reads.lex]

/-- Whether a function stands below a line, and no class begins between the two. -/
structure NextBelow (c : Conventions) (lines : List Text) (index : Nat) (m : Marked) : Prop where
  below : index + 1 < m.line
  noClass : ∀ place, index < place → place + 1 < m.line → ∀ other, Outer c lines place other →
    className? c other = none

variable {lines : List Text} {index place : Nat} {scan : Scan} {m : Marked}

theorem Enclosing.of_named {name' : Text} (outer : Outer c lines index line)
    (named : className? c line = some name') (below : index < place)
    (noClass : ∀ between, index < between → between < place → ∀ other,
      Outer c lines between other → className? c other = none) :
    ∀ enclosing, Enclosing c lines place (some enclosing) → enclosing = name' := by
  rintro enclosing ⟨nearest, above, first, outer', named', none_between⟩
  rcases Nat.lt_trichotomy nearest index with before | rfl | behind
  · rw [none_between index before below line outer] at named
    cases named
  · obtain rfl := outer'.eq outer.1
    exact Option.some.inj (named'.symm.trans named)
  · rw [noClass nearest behind above first outer'] at named'
    cases named'

theorem Enclosing.of_hidden {enclosing : Text} (outer : Outer c lines index line)
    (hidden : className? c line = none) (below : index < place)
    (noClass : ∀ between, index < between → between < place → ∀ other,
      Outer c lines between other → className? c other = none)
    (h : Enclosing c lines place (some enclosing)) : Enclosing c lines index (some enclosing) := by
  obtain ⟨nearest, above, first, outer', named, none_between⟩ := h
  rcases Nat.lt_trichotomy nearest index with before | rfl | behind
  · exact ⟨nearest, before, first, outer', named,
      fun between after until_ => none_between between after (by omega)⟩
  · obtain rfl := outer'.eq outer.1
    rw [hidden] at named
    cases named
  · rw [noClass nearest behind above first outer'] at named
    cases named

/-- The functions below a line go to the class that the line names; if it names none, they go to the
class above. -/
theorem Scans.className_below (h : Scans c [] none .absent lines scan)
    (outer : Outer c lines index line) (member : m ∈ scan.functions)
    (next : NextBelow c lines index m) :
    (∀ named, className? c line = some named → m.className = named) ∧
      (className? c line = none → Enclosing c lines index (some m.className)) := by
  obtain ⟨place, found⟩ := h.exists_found member
  have below := next.below
  have noClass := next.noClass
  rw [found.line] at below noClass
  have between (k : Nat) (after : index < k) (until_ : k < place) : ∀ other,
      Outer c lines k other → className? c other = none := noClass k after (by omega)
  constructor
  · intro named here
    exact Enclosing.of_named outer here (by omega) between _ found.enclosing
  · intro hidden
    exact Enclosing.of_hidden outer hidden (by omega) between found.enclosing

/-- Two lines that agree up to the token behind the name of a class give it that name, whatever
follows, as long as they leave no comment or literal open; the functions below then belong to the
class.  A line that leaves one open begins no class, and the functions below it go to the class
above. -/
theorem className?_agreed (shape : ClassHead c.classMacros specifiers head name behind)
    (noStop : behind.isMark ";" = false)
    (reads : Lexer.Reads 1 line (head ++ [name, behind]) mid rest)
    (reads' : Lexer.Reads 1 line' (head ++ [name, behind]) mid' rest') :
    (className? c line =
      if Legible mid rest ∧ NoMacros c.classMacros specifiers then some name.text else none) ∧
    ((Legible mid rest ↔ Legible mid' rest') → className? c line' = className? c line) ∧
    (∃ front, line = front ++ rest ∧ ∀ tail, Lexer.Alike rest tail →
      className? c (front ++ tail) =
        if Legible mid tail ∧ NoMacros c.classMacros specifiers then some name.text else none) ∧
    ∀ lines index scan m, Outer c lines index line → ofLines c lines = .ok scan →
      m ∈ scan.functions → NextBelow c lines index m →
        if Legible mid rest ∧ NoMacros c.classMacros specifiers then m.className = name.text
        else Enclosing c lines index (some m.className) := by
  have here := className?_head shape noStop reads
  refine ⟨here, fun alike => ?_, ?_, fun lines index scan m outer found member next => ?_⟩
  · rw [here, className?_head shape noStop reads']
    simp only [alike]
  · obtain ⟨front, split, _, again⟩ := reads.congr
    exact ⟨front, split, fun tail same => className?_head shape noStop (again tail same)⟩
  · obtain ⟨known, hidden⟩ := (scans_of_ok found).className_below outer member next
    split at here
    · rename_i plain
      rw [if_pos plain]
      exact known name.text here
    · rename_i open_
      rw [if_neg open_]
      exact hidden here

end

def classKey : Token := ⟨.identifier, "class".toList, [], 1⟩

def decoratedTokens : List Token :=
  [⟨.identifier, "AFIO_DECL".toList, [' '], 1⟩, ⟨.identifier, "alignas".toList, [' '], 1⟩,
    ⟨.punctuator, "(".toList, [], 1⟩, ⟨.number, "8".toList, [], 1⟩,
    ⟨.punctuator, ")".toList, [], 1⟩]

def secondName : Token := ⟨.identifier, "second".toList, [' '], 1⟩

def baseColon : Token := ⟨.punctuator, ":".toList, [' '], 1⟩

theorem classHead_second : ClassHead Conventions.standard.classMacros
    [⟨.identifier, "alignas".toList, [' '], 1⟩] (classKey :: decoratedTokens) secondName
    baseColon where
  shape := by
    have group : BracketGroup (decoratedTokens.drop 2) 0 2 :=
      (matchingBracket_iff rfl (by decide)).mp (by decide +kernel)
    have decorated : Decorations Conventions.standard.classMacros
        [⟨.identifier, "alignas".toList, [' '], 1⟩] decoratedTokens :=
      .declMacro (by decide) (.specifier (.inl (by decide)) (by decide) group .nil)
    exact ⟨[], classKey, decoratedTokens, rfl, .none, .inl (by decide), decorated⟩
  column t first := by
    cases first
    rfl
  identifier := by decide
  noMacro := by decide
  noGroup group := absurd group (by decide)

def secondLine (behind : String) : Text :=
  "class AFIO_DECL alignas(8) second : public first".toList ++ behind.toList

/-- A class below another one, with a comment that begins behind its base clause and ends on the
next line. -/
def hiddenLines : List Text :=
  ["class first\n".toList, "\x7b\x7d;\n".toList, secondLine " /* not\n",
    "closed */ \x7b\n".toList, "AFIO_MAKE_FREE_FUNCTION\n".toList, "void f();\n".toList]

/-- The open comment hides the class, and the function below goes to the class above. -/
theorem className?_agreed_hidden :
    baseColon.isMark ";" = false ∧
    className? .standard (secondLine "\n") = some "second".toList ∧
    className? .standard (secondLine " /* not\n") = none ∧
    ∃ scan m, ofLines .standard hiddenLines = .ok scan ∧ m ∈ scan.functions ∧
      NextBelow .standard hiddenLines 2 m ∧ m.className = "first".toList ∧
      Enclosing .standard hiddenLines 2 (some m.className) := by
  have noStop : baseColon.isMark ";" = false := by decide
  have read : (Lexer.lex 1 (secondLine "\n")).tokens =
      classKey :: decoratedTokens ++ [secondName, baseColon] ++
        (Lexer.lex 1 (secondLine "\n")).tokens.drop 8 := by
    decide +kernel
  have read' : (Lexer.lex 1 (secondLine " /* not\n")).tokens =
      classKey :: decoratedTokens ++ [secondName, baseColon] ++
        (Lexer.lex 1 (secondLine " /* not\n")).tokens.drop 8 := by
    decide +kernel
  obtain ⟨mid, rest, reads⟩ := Lexer.Reads.of_lex read
  obtain ⟨mid', rest', reads'⟩ := Lexer.Reads.of_lex read'
  have legible : Legible mid rest := (legible_of_reads reads).mpr (by decide +kernel)
  have open_ : ¬ Legible mid' rest' := by
    rw [legible_of_reads reads']
    decide +kernel
  have plain : NoMacros Conventions.standard.classMacros
      [⟨.identifier, "alignas".toList, [' '], 1⟩] := by decide
  obtain ⟨named, _, _, _⟩ := className?_agreed classHead_second noStop reads reads'
  obtain ⟨hidden, _, _, attributed⟩ := className?_agreed classHead_second noStop reads' reads
  rw [if_pos ⟨legible, plain⟩] at named
  rw [if_neg fun both => open_ both.1] at hidden
  obtain ⟨scan, found, m, member, line, first⟩ :
      ∃ scan ∈ (ofLines .standard hiddenLines).toOption,
        ∃ m ∈ scan.functions, m.line = 5 ∧ m.className = "first".toList := by
    decide +kernel
  have found : ofLines .standard hiddenLines = .ok scan := ok_of_mem_toOption found
  have next : NextBelow .standard hiddenLines 2 m := by
    refine ⟨by omega, fun place below above other outer => ?_⟩
    obtain rfl : place = 3 := by omega
    cases outer.1
    decide +kernel
  have above := attributed hiddenLines 2 scan m (by decide +kernel) found member next
  rw [if_neg fun both => open_ both.1] at above
  exact ⟨noStop, named, hidden, scan, m, found, member, next, first, above⟩

end MemberLift.Scan
