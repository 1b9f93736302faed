import MemberLift.Token

/-!
From text to tokens.  Each reader takes a text apart into what it reads and what is left, so a token
is a part of its source.  `next_shorter` makes the run over a whole text well founded, and a run
that fails keeps the tokens before the fault.
-/
namespace MemberLift.Lexer

inductive Cause where
  | comment
  | string
  | character
  | rawDelimiter
  | rawString
  deriving DecidableEq, Repr

def Cause.message : Cause → Text
  | .comment => "unterminated block comment".toList
  | .string => "unterminated string literal".toList
  | .character => "unterminated character literal".toList
  | .rawDelimiter => "malformed raw string delimiter".toList
  | .rawString => "unterminated raw string literal".toList

structure Fault where
  line : Nat
  cause : Cause
  deriving DecidableEq, Repr

/-- Punctuators of several characters, longer ones before their beginnings.  Two closing angles are
two tokens, so that nested argument lists close one at a time. -/
def longMarks : List String :=
  ["<<=", "->*", "...", "::", "->", ".*", "&&", "||", "==", "!=", "<=", ">=", "<<", "++", "--",
    "+=", "-=", "*=", "/=", "%=", "&=", "|=", "^=", "##"]

def encodingWords : List Text := ["L", "u", "U", "u8"].map String.toList

def rawWords : List Text := ["R", "LR", "uR", "UR", "u8R"].map String.toList

def commentTail : Text → Option (Text × Text)
  | [] => none
  | '*' :: '/' :: rest => some (['*', '/'], rest)
  | c :: rest => (commentTail rest).map fun p => (c :: p.1, p.2)

/-- Blank space in front of a token: what it counts as, the line behind it, and what is left. -/
structure Gap where
  leading : Text
  line : Nat
  rest : Text
  deriving DecidableEq, Repr

def Gap.widen (c : Char) (g : Gap) : Gap := { g with leading := c :: g.leading }

theorem commentTail_append {s body rest : Text} (h : commentTail s = some (body, rest)) :
    s = body ++ rest := by
  fun_induction commentTail s generalizing body rest with
  | case1 => cases h
  | case2 => cases h; rfl
  | case3 c r _ ih =>
    obtain ⟨⟨b, a⟩, found, same⟩ := Option.map_eq_some_iff.mp h
    cases same
    rw [ih found]
    rfl

/-- Skips blank space and comments; a comment of either kind counts as one space. -/
def skip (line : Nat) (s : Text) : Except Fault Gap :=
  match s with
  | [] => .ok ⟨[], line, []⟩
  | c :: r =>
    if Alphabet.isBlank c then
      (skip (if c = '\n' then line + 1 else line) r).map (Gap.widen c)
    else
      match c, r with
      | '/', '/' :: r' => (skip line (r'.dropWhile (· ≠ '\n'))).map (Gap.widen ' ')
      | '/', '*' :: r' =>
        match _closed : commentTail r' with
        | none => .error ⟨line, .comment⟩
        | some (body, rest) => (skip (line + body.newlines) rest).map (Gap.widen ' ')
      | _, _ => .ok ⟨[], line, c :: r⟩
termination_by s.length
decreasing_by
  · simp
  · have := (List.dropWhile_sublist (l := r') (fun x => decide (x ≠ '\n'))).length_le
    simp only [List.length_cons]
    omega
  · have := congrArg List.length (commentTail_append _closed)
    simp only [List.length_append, List.length_cons] at this ⊢
    omega

/-- A character that may follow in a number: a letter, digit, underscore or point of ASCII, a sign
behind a decimal or binary exponent letter, or a quote in front of a letter or digit. -/
def continuesNumber (hex : Bool) (previous c : Char) (following : Text) : Bool :=
  c.isAlphanum || c = '_' || c = '.' ||
    ((c = '+' || c = '-') && "eEpP".toList.contains previous && !hex) ||
    (c = '\'' && (following.head?.map Char.isAlphanum).getD false)

def numberTail (hex : Bool) (previous : Char) : Text → Text × Text
  | [] => ([], [])
  | c :: rest =>
    if continuesNumber hex previous c rest then
      (c :: (numberTail hex c rest).1, (numberTail hex c rest).2)
    else ([], c :: rest)

def isHex (s : Text) : Bool := "0x".toList.isPrefixOf s || "0X".toList.isPrefixOf s

/-- The text of a quoted literal behind its opening quote, the closing one included, and what is
left.  A backslash takes any next character along, also the end of a line. -/
def quotedTail (quote : Char) : Text → Option (Text × Text)
  | [] => none
  | '\\' :: c :: rest => (quotedTail quote rest).map fun p => ('\\' :: c :: p.1, p.2)
  | c :: rest =>
    if c = '\n' || c = '\\' then none
    else if c = quote then some ([c], rest)
    else (quotedTail quote rest).map fun p => (c :: p.1, p.2)

def inDelimiter (c : Char) : Bool := c ≠ ')' && c ≠ '\\' && !Alphabet.isBlank c

def rawDelimiter : Text → Option (Text × Text)
  | [] => none
  | c :: rest =>
    if c = '(' then some ([], rest)
    else if inDelimiter c then (rawDelimiter rest).map fun p => (c :: p.1, p.2)
    else none

/-- The text of a raw string behind its opening quote, the closing one included, and what is
left. -/
def rawTail (s : Text) : Except Cause (Text × Text) :=
  match rawDelimiter s with
  | none => .error .rawDelimiter
  | some (delimiter, content) =>
    let closer := ')' :: delimiter ++ ['"']
    match Text.cutAround closer content with
    | none => .error .rawString
    | some (body, rest) => .ok (delimiter ++ '(' :: body ++ closer, rest)

def markLength (s : Text) : Nat :=
  ((longMarks.find? fun mark => mark.toList.isPrefixOf s).map String.length).getD 1

structure Lexeme where
  kind : Token.Kind
  text : Text
  rest : Text
  deriving DecidableEq, Repr

def quoted (quote : Char) (kind : Token.Kind) (cause : Cause) (before s : Text) :
    Except Cause Lexeme :=
  match quotedTail quote s with
  | none => .error cause
  | some (tail, rest) => .ok ⟨kind, before ++ quote :: tail, rest⟩

def raw (before s : Text) : Except Cause Lexeme :=
  (rawTail s).map fun p => ⟨.stringLiteral, before ++ '"' :: p.1, p.2⟩

def wordOrLiteral (word s : Text) : Except Cause Lexeme :=
  match s with
  | '"' :: r =>
    if rawWords.contains word then raw word r
    else if encodingWords.contains word then quoted '"' .stringLiteral .string word r
    else .ok ⟨.identifier, word, s⟩
  | '\'' :: r =>
    if encodingWords.contains word then quoted '\'' .charLiteral .character word r
    else .ok ⟨.identifier, word, s⟩
  | _ => .ok ⟨.identifier, word, s⟩

def startsNumber (c : Char) (r : Text) : Bool :=
  c.isDigit || (c = '.' && (r.head?.map Char.isDigit).getD false)

def lexeme (c : Char) (r : Text) : Except Cause Lexeme :=
  if Alphabet.startsIdentifier c then
    wordOrLiteral (c :: r.takeWhile Alphabet.continuesIdentifier)
      (r.dropWhile Alphabet.continuesIdentifier)
  else if startsNumber c r then
    .ok ⟨.number, c :: (numberTail (isHex (c :: r)) c r).1, (numberTail (isHex (c :: r)) c r).2⟩
  else if c = '"' then quoted '"' .stringLiteral .string [] r
  else if c = '\'' then quoted '\'' .charLiteral .character [] r
  else
    let size := markLength (c :: r) - 1
    .ok ⟨.punctuator, c :: r.take size, r.drop size⟩

theorem numberTail_append (hex : Bool) (previous : Char) (s : Text) :
    (numberTail hex previous s).1 ++ (numberTail hex previous s).2 = s := by
  induction s generalizing previous with
  | nil => rfl
  | cons c rest ih =>
    simp only [numberTail]
    split
    · rw [List.cons_append, ih]
    · rfl

theorem quotedTail_append {quote : Char} {s tail rest : Text}
    (h : quotedTail quote s = some (tail, rest)) : s = tail ++ rest := by
  fun_induction quotedTail quote s generalizing tail rest with
  | case1 => cases h
  | case2 c r ih =>
    obtain ⟨⟨b, a⟩, found, same⟩ := Option.map_eq_some_iff.mp h
    cases same
    rw [ih found]
    rfl
  | case3 => cases h
  | case4 c r => cases h; rfl
  | case5 c r _ _ _ ih =>
    obtain ⟨⟨b, a⟩, found, same⟩ := Option.map_eq_some_iff.mp h
    cases same
    rw [ih found]
    rfl

theorem rawDelimiter_append {s delimiter rest : Text}
    (h : rawDelimiter s = some (delimiter, rest)) : s = delimiter ++ '(' :: rest := by
  induction s generalizing delimiter rest with
  | nil => cases h
  | cons c r ih =>
    simp only [rawDelimiter] at h
    split at h
    · rename_i opener
      cases h
      rw [opener]
      rfl
    · split at h
      · obtain ⟨⟨b, a⟩, found, same⟩ := Option.map_eq_some_iff.mp h
        cases same
        rw [ih found]
        rfl
      · cases h

theorem cutAround_append {needle s before after : Text}
    (h : Text.cutAround needle s = some (before, after)) : s = before ++ needle ++ after := by
  obtain ⟨⟨b, a⟩, found, same⟩ := Option.map_eq_some_iff.mp h
  cases same
  have parts := Text.cutBefore_append needle s b a found
  obtain ⟨tail, whole⟩ := parts.2
  rw [parts.1, ← whole]
  simp

theorem rawTail_append {s tail rest : Text} (h : rawTail s = .ok (tail, rest)) :
    s = tail ++ rest := by
  simp only [rawTail] at h
  split at h
  · cases h
  · rename_i delimiter content opened
    split at h
    · cases h
    · rename_i body after closed
      cases h
      rw [rawDelimiter_append opened, cutAround_append closed]
      simp

theorem quoted_append {quote : Char} {kind : Token.Kind} {cause : Cause} {before s : Text}
    {l : Lexeme} (h : quoted quote kind cause before s = .ok l) :
    l.text ++ l.rest = before ++ quote :: s ∧ l.text ≠ [] := by
  simp only [quoted] at h
  split at h
  · cases h
  · rename_i tail rest found
    cases h
    simp [quotedTail_append found]

theorem raw_append {before s : Text} {l : Lexeme} (h : raw before s = .ok l) :
    l.text ++ l.rest = before ++ '"' :: s ∧ l.text ≠ [] := by
  simp only [raw] at h
  cases found : rawTail s with
  | error cause => rw [found] at h; cases h
  | ok p =>
    rw [found] at h
    cases h
    simp [rawTail_append found]

theorem wordOrLiteral_append {word s : Text} {l : Lexeme} (nonempty : word ≠ [])
    (h : wordOrLiteral word s = .ok l) : l.text ++ l.rest = word ++ s ∧ l.text ≠ [] := by
  unfold wordOrLiteral at h
  split at h
  · split at h
    · exact raw_append h
    · split at h
      · exact quoted_append h
      · cases h; exact ⟨rfl, nonempty⟩
  · split at h
    · exact quoted_append h
    · cases h; exact ⟨rfl, nonempty⟩
  · cases h; exact ⟨rfl, nonempty⟩

theorem lexeme_append {c : Char} {r : Text} {l : Lexeme} (h : lexeme c r = .ok l) :
    l.text ++ l.rest = c :: r ∧ l.text ≠ [] := by
  unfold lexeme at h
  split at h
  · have parts := wordOrLiteral_append (by simp) h
    rw [parts.1, List.cons_append, List.takeWhile_append_dropWhile]
    exact ⟨rfl, parts.2⟩
  · split at h
    · cases h
      simp [numberTail_append]
    · split at h
      · rename_i quote
        rw [quote]
        exact quoted_append h
      · split at h
        · rename_i quote
          rw [quote]
          exact quoted_append h
        · cases h
          simp

theorem of_map_widen {e : Except Fault Gap} {x : Char} {g : Gap}
    (h : e.map (Gap.widen x) = .ok g) :
    ∃ g', e = .ok g' ∧ g' = { g with leading := g'.leading } := by
  cases e with
  | error f => cases h
  | ok g' => cases h; exact ⟨g', rfl, rfl⟩

theorem skip_length_le {line : Nat} {s : Text} {g : Gap} (h : skip line s = .ok g) :
    g.rest.length ≤ s.length := by
  fun_induction skip line s generalizing g with
  | case1 line => cases h; simp
  | case2 line c r _ ih =>
    obtain ⟨g', found, same⟩ := of_map_widen h
    have shorter := ih found
    rw [same] at shorter
    exact Nat.le_succ_of_le shorter
  | case3 line r _ ih =>
    obtain ⟨g', found, same⟩ := of_map_widen h
    have shorter := ih found
    have dropped := (List.dropWhile_sublist (l := r) (fun x => decide (x ≠ '\n'))).length_le
    rw [same] at shorter
    simp only [List.length_cons]
    exact Nat.le_trans shorter (by omega)
  | case4 => cases h
  | case5 line r body rest closed _ ih =>
    obtain ⟨g', found, same⟩ := of_map_widen h
    have shorter := ih found
    have parts := congrArg List.length (commentTail_append closed)
    rw [same] at shorter
    simp only [List.length_append, List.length_cons] at parts ⊢
    exact Nat.le_trans shorter (by omega)
  | case6 => cases h; simp

structure Next where
  token : Token
  line : Nat
  rest : Text
  deriving DecidableEq, Repr

/-- The first token of a text whose first character stands on the given line; none if only blank
space and comments are left. -/
def next (line : Nat) (s : Text) : Except Fault (Option Next) :=
  match skip line s with
  | .error fault => .error fault
  | .ok ⟨_, _, []⟩ => .ok none
  | .ok ⟨leading, start, c :: r⟩ =>
    match lexeme c r with
    | .error cause => .error ⟨start, cause⟩
    | .ok l =>
      .ok (some ⟨⟨l.kind, l.text, leading, start⟩, start + l.text.newlines, l.rest⟩)

theorem next_shorter {line : Nat} {s : Text} {n : Next} (h : next line s = .ok (some n)) :
    n.rest.length < s.length := by
  simp only [next] at h
  split at h
  · cases h
  · cases h
  · rename_i leading start c r skipped
    split at h
    · cases h
    · rename_i l found
      cases h
      have shorter := skip_length_le skipped
      have parts := lexeme_append found
      have whole := congrArg List.length parts.1
      have positive := List.length_pos_iff.mpr parts.2
      simp only [List.length_append, List.length_cons] at whole shorter ⊢
      omega

/-- What a run reads: the tokens up to the end of the text or up to the first fault. -/
structure Lexed where
  tokens : List Token
  fault : Option Fault
  deriving DecidableEq, Repr

def Lexed.push (t : Token) (l : Lexed) : Lexed := { l with tokens := t :: l.tokens }

def lex (line : Nat) (s : Text) : Lexed :=
  match _found : next line s with
  | .error fault => ⟨[], some fault⟩
  | .ok none => ⟨[], none⟩
  | .ok (some n) => (lex n.line n.rest).push n.token
termination_by s.length
decreasing_by exact next_shorter _found

def tokenize (line : Nat) (s : Text) : Except Fault (List Token) :=
  match lex line s with
  | ⟨tokens, none⟩ => .ok tokens
  | ⟨_, some fault⟩ => .error fault

end MemberLift.Lexer
