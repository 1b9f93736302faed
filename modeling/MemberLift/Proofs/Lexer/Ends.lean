import Mathlib.Data.List.Infix
import MemberLift.Proofs.Alphabet
import MemberLift.Proofs.Lexer.Lossless

/-!
Where tokens end.  Literals end by themselves; words, numbers and punctuators end in front of a text
that cannot continue them.  `lexeme_stops` says that a token is read again in front of every text
that stops what the text behind it stops.
-/
namespace MemberLift.Lexer

theorem quotedTail_of_ne {quote c : Char} (plain : c ≠ '\\') (r : Text) :
    quotedTail quote (c :: r) =
      if c = '\n' then none
      else if c = quote then some ([c], r)
      else (quotedTail quote r).map fun p => (c :: p.1, p.2) := by
  rw [quotedTail.eq_3 quote c r fun _ _ slash _ => plain slash]
  simp [plain]

theorem quotedTail_congr {quote : Char} {s tail rest : Text}
    (h : quotedTail quote s = some (tail, rest)) (rest' : Text) :
    quotedTail quote (tail ++ rest') = some (tail, rest') := by
  fun_induction quotedTail quote s generalizing tail rest with
  | case1 => cases h
  | case2 c r ih =>
    obtain ⟨⟨b, a⟩, found, same⟩ := Option.map_eq_some_iff.mp h
    cases same
    simp [quotedTail, ih found]
  | case3 => cases h
  | case4 r _ ends =>
    cases h
    simp only [Bool.or_eq_true, decide_eq_true_eq, not_or] at ends
    rw [List.singleton_append, quotedTail_of_ne ends.2, if_neg ends.1, if_pos rfl]
  | case5 c r _ ends other ih =>
    obtain ⟨⟨b, a⟩, found, same⟩ := Option.map_eq_some_iff.mp h
    cases same
    simp only [Bool.or_eq_true, decide_eq_true_eq, not_or] at ends
    rw [List.cons_append, quotedTail_of_ne ends.2, if_neg ends.1, if_neg other, ih found]
    rfl

theorem rawDelimiter_congr {s delimiter rest : Text} (h : rawDelimiter s = some (delimiter, rest))
    (rest' : Text) : rawDelimiter (delimiter ++ '(' :: rest') = some (delimiter, rest') := by
  induction s generalizing delimiter rest with
  | nil => cases h
  | cons c r ih =>
    simp only [rawDelimiter] at h
    split at h
    · cases h
      rfl
    · rename_i other
      split at h
      · rename_i inside
        obtain ⟨⟨b, a⟩, found, same⟩ := Option.map_eq_some_iff.mp h
        cases same
        simp [rawDelimiter, other, inside, ih found]
      · cases h

theorem cutBefore_congr {needle s before after : Text}
    (h : Text.cutBefore needle s = some (before, needle ++ after)) (after' : Text) :
    Text.cutBefore needle (before ++ (needle ++ after')) = some (before, needle ++ after') := by
  induction before generalizing s with
  | nil =>
    cases needle with
    | nil => cases after' <;> simp [Text.cutBefore]
    | cons a m => simp [Text.cutBefore]
  | cons c before ih =>
    cases s with
    | nil =>
      simp only [Text.cutBefore] at h
      split at h <;> cases h
    | cons d s =>
      simp only [Text.cutBefore] at h
      split at h
      · cases h
      · rename_i absent
        obtain ⟨⟨b, a⟩, found, same⟩ := Option.map_eq_some_iff.mp h
        cases same
        have whole := (Text.cutBefore_append needle s b _ found).1
        have still : ¬ needle.isPrefixOf (c :: (b ++ (needle ++ after'))) = true := by
          rw [List.isPrefixOf_iff_prefix] at absent ⊢
          intro begins
          apply absent
          have short : needle <+: c :: (b ++ needle) :=
            List.prefix_of_prefix_length_le begins ⟨after', by simp⟩ (by simp; omega)
          rw [whole]
          exact short.trans ⟨after, by simp⟩
        rw [List.cons_append, Text.cutBefore, if_neg still, ih found]
        rfl

theorem cutAround_congr {needle s before after : Text}
    (h : Text.cutAround needle s = some (before, after)) (after' : Text) :
    Text.cutAround needle (before ++ (needle ++ after')) = some (before, after') := by
  obtain ⟨⟨b, a⟩, found, same⟩ := Option.map_eq_some_iff.mp h
  cases same
  obtain ⟨_, tail, rfl⟩ := Text.cutBefore_append needle s b a found
  rw [Text.cutAround, cutBefore_congr found after']
  simp

theorem rawTail_congr {s tail rest : Text} (h : rawTail s = .ok (tail, rest)) (rest' : Text) :
    rawTail (tail ++ rest') = .ok (tail, rest') := by
  simp only [rawTail] at h
  split at h
  · cases h
  · rename_i delimiter content opened
    split at h
    · cases h
    · rename_i body after closed
      cases h
      have opens := rawDelimiter_congr opened (body ++ ((')' :: delimiter ++ ['"']) ++ rest'))
      have closes := cutAround_congr closed rest'
      have whole : delimiter ++ '(' :: body ++ (')' :: delimiter ++ ['"']) ++ rest' =
          delimiter ++ '(' :: (body ++ ((')' :: delimiter ++ ['"']) ++ rest')) := by simp
      rw [whole, rawTail, opens]
      simp only [closes]

theorem quoted_congr {quote : Char} {kind : Token.Kind} {cause : Cause} {before s : Text}
    {l : Lexeme} (h : quoted quote kind cause before s = .ok l) :
    ∃ tail, l.text = before ++ quote :: tail ∧ ∀ rest',
      quoted quote kind cause before (tail ++ rest') = .ok { l with rest := rest' } := by
  simp only [quoted] at h
  split at h
  · cases h
  · rename_i tail rest found
    cases h
    refine ⟨tail, rfl, fun rest' => ?_⟩
    rw [quoted, quotedTail_congr found rest']

theorem raw_congr {before s : Text} {l : Lexeme} (h : raw before s = .ok l) :
    ∃ tail, l.text = before ++ '"' :: tail ∧ ∀ rest',
      raw before (tail ++ rest') = .ok { l with rest := rest' } := by
  simp only [raw] at h
  cases found : rawTail s with
  | error cause => rw [found] at h; cases h
  | ok p =>
    rw [found] at h
    cases h
    refine ⟨p.1, rfl, fun rest' => ?_⟩
    rw [raw, rawTail_congr found rest']
    rfl

/-- Whether what ends in front of a text also ends in front of another one. -/
structure Stops (s s' : Text) : Prop where
  comment : ∀ c, c = '/' ∨ c = '*' → s'.head? = some c → s.head? = some c
  word : (s.head?.map Alphabet.continuesIdentifier).getD false = false →
    (s'.head?.map Alphabet.continuesIdentifier).getD false = false
  quote : ∀ c, c = '"' ∨ c = '\'' → s'.head? = some c → s.head? = some c
  digit : (s.head?.map Char.isDigit).getD false = false →
    (s'.head?.map Char.isDigit).getD false = false
  number : ∀ hex previous, numberTail hex previous s = ([], s) →
    numberTail hex previous s' = ([], s')
  mark : ∀ mark ∈ longMarks, ∀ c t, mark.toList <+: c :: (t ++ s') → mark.toList <+: c :: (t ++ s)

theorem stops_nil (s : Text) : Stops s [] where
  comment _ _ first := by cases first
  word _ := rfl
  quote _ _ first := by cases first
  digit _ := rfl
  number _ _ _ := rfl
  mark _ _ c t begins := by
    rw [List.append_nil] at begins
    exact begins.trans ⟨s, rfl⟩

theorem wordOrLiteral_word {word s : Text}
    (double : s.head? = some '"' →
      rawWords.contains word = false ∧ encodingWords.contains word = false)
    (single : s.head? = some '\'' → encodingWords.contains word = false) :
    wordOrLiteral word s = .ok ⟨.identifier, word, s⟩ := by
  unfold wordOrLiteral
  split
  · have plain := double rfl
    rw [if_neg (by rw [plain.1]; decide), if_neg (by rw [plain.2]; decide)]
  · have plain := single rfl
    rw [if_neg (by rw [plain]; decide)]
  · rfl

theorem head_dropWhile_fails (p : Char → Bool) (s : Text) :
    ((s.dropWhile p).head?.map p).getD false = false := by
  have ends := List.head?_dropWhile_not p s
  cases first : (s.dropWhile p).head? with
  | none => rfl
  | some c =>
    rw [first] at ends
    exact ends

theorem test_eq_of_filter {p q : Char → Bool} (narrow : ∀ c, q c = true → p c = true) {s s' : Text}
    (same : s'.head?.filter p = s.head?.filter p) :
    (s'.head?.map q).getD false = (s.head?.map q).getD false := by
  have one (t : Text) : (t.head?.map q).getD false = ((t.head?.filter p).map q).getD false := by
    cases t with
    | nil => rfl
    | cons c t =>
      rw [List.head?_cons, Option.filter_some]
      split
      · rfl
      · rename_i fails
        exact Bool.eq_false_iff.mpr fun holds => fails (narrow c holds)
  rw [one, one s, same]

theorem startsNumber_eq {c : Char} {s s' : Text}
    (same : s'.head?.filter Char.isAlphanum = s.head?.filter Char.isAlphanum) :
    startsNumber c s' = startsNumber c s := by
  have digits := test_eq_of_filter (q := Char.isDigit)
    (fun d digit => by simp [Char.isAlphanum, digit]) same
  rw [startsNumber, startsNumber, digits]

theorem isHex_eq {c : Char} {s s' : Text}
    (same : s'.head?.filter Char.isAlphanum = s.head?.filter Char.isAlphanum) :
    isHex (c :: s') = isHex (c :: s) := by
  have split (x : Char) (t : Text) :
      ['0', x].isPrefixOf (c :: t) = ('0' == c && (t.head?.map (x == ·)).getD false) := by
    cases t with
    | nil => rfl
    | cons d t => simp [List.isPrefixOf]
  have one (x : Char) (letter : x.isAlphanum = true) :
      ['0', x].isPrefixOf (c :: s') = ['0', x].isPrefixOf (c :: s) := by
    have heads := test_eq_of_filter (q := (x == ·))
      (fun d equal => by rw [← beq_iff_eq.mp equal, letter]) same
    rw [split, split, heads]
  exact congrArg₂ or (one 'x' (by decide)) (one 'X' (by decide))

theorem find?_narrow {α : Type} {p q : α → Bool} {l : List α}
    (narrow : ∀ x ∈ l, q x = true → p x = true)
    (keeps : ∀ x, l.find? p = some x → q x = true) : l.find? q = l.find? p := by
  induction l with
  | nil => rfl
  | cons x l ih =>
    rw [List.find?_cons] at keeps
    rw [List.find?_cons, List.find?_cons]
    cases passes : p x with
    | true =>
      rw [passes] at keeps
      rw [keeps x rfl]
    | false =>
      rw [passes] at keeps
      have fails : q x = false := by
        cases holds : q x with
        | false => rfl
        | true =>
          rw [narrow x List.mem_cons_self holds] at passes
          cases passes
      rw [fails]
      exact ih (fun y inside => narrow y (List.mem_cons_of_mem x inside)) keeps

theorem markLength_le (c : Char) (s : Text) : markLength (c :: s) - 1 ≤ s.length := by
  rw [markLength]
  cases found : longMarks.find? fun mark => mark.toList.isPrefixOf (c :: s) with
  | none => simp
  | some mark =>
    have begins := List.find?_some found
    have short := (List.isPrefixOf_iff_prefix.mp begins).length_le
    simp only [List.length_cons, String.length_toList] at short
    simp only [Option.map_some, Option.getD_some]
    omega

theorem wordOrLiteral_stops {word s rest' : Text} {l : Lexeme} (h : wordOrLiteral word s = .ok l)
    (stops : Stops l.rest rest') :
    ∃ tail, l.text = word ++ tail ∧
      wordOrLiteral word (tail ++ rest') = .ok { l with rest := rest' } := by
  have double := stops.quote '"' (.inl rfl)
  have single := stops.quote '\'' (.inr rfl)
  unfold wordOrLiteral at h
  split at h
  · split at h
    · rename_i isRaw
      obtain ⟨tail, text, again⟩ := raw_congr h
      refine ⟨'"' :: tail, text, ?_⟩
      simp only [wordOrLiteral, List.cons_append, isRaw, if_true, again]
    · rename_i notRaw
      split at h
      · rename_i isEncoding
        obtain ⟨tail, text, again⟩ := quoted_congr h
        refine ⟨'"' :: tail, text, ?_⟩
        simp only [wordOrLiteral, List.cons_append, notRaw, isEncoding, if_true, again]
        rfl
      · rename_i notEncoding
        cases h
        refine ⟨[], by simp, wordOrLiteral_word (fun _ => ?_) (fun _ => ?_)⟩
        · exact ⟨by simpa using notRaw, by simpa using notEncoding⟩
        · simpa using notEncoding
  · split at h
    · rename_i isEncoding
      obtain ⟨tail, text, again⟩ := quoted_congr h
      refine ⟨'\'' :: tail, text, ?_⟩
      simp only [wordOrLiteral, List.cons_append, isEncoding, if_true, again]
    · rename_i notEncoding
      cases h
      refine ⟨[], by simp, wordOrLiteral_word (fun first => ?_) fun _ => ?_⟩
      · cases double first
      · simpa using notEncoding
  · rename_i noDouble noSingle
    cases h
    refine ⟨[], by simp, wordOrLiteral_word (fun first => ?_) (fun first => ?_)⟩
    · obtain ⟨r, rfl⟩ := List.head?_eq_some_iff.mp (double first)
      exact absurd rfl (noDouble r)
    · obtain ⟨r, rfl⟩ := List.head?_eq_some_iff.mp (single first)
      exact absurd rfl (noSingle r)

/-- A run of characters ends again where what stood behind it is replaced by something that stops
it. -/
theorem span_stops {p : Char → Bool} {s tail rest rest' : Text} (split : s.dropWhile p = tail ++ rest)
    (stops : (rest.head?.map p).getD false = false → (rest'.head?.map p).getD false = false) :
    (s.takeWhile p ++ (tail ++ rest')).takeWhile p = s.takeWhile p ∧
      (s.takeWhile p ++ (tail ++ rest')).dropWhile p = tail ++ rest' := by
  have inside := List.all_eq_true.mp (List.all_takeWhile (p := p) (l := s))
  have ends := head_dropWhile_fails p s
  rw [List.takeWhile_append_of_pos inside, List.dropWhile_append_of_pos inside]
  rw [split] at ends
  have ends' : ((tail ++ rest').head?.map p).getD false = false := by
    cases tail with
    | nil => exact stops ends
    | cons c tail => exact ends
  cases behind : tail ++ rest' with
  | nil => simp
  | cons c more =>
    rw [behind] at ends'
    have fails : p c = false := ends'
    simp [fails]

theorem not_isAlphanum_of_stop {hex : Bool} {previous : Char} {s : Text}
    (stop : numberTail hex previous s = ([], s)) : s.head?.filter Char.isAlphanum = none := by
  cases s with
  | nil => rfl
  | cons c s =>
    rw [numberTail] at stop
    split at stop
    · cases stop
    · rename_i ends
      rw [List.head?_cons, Option.filter_some, if_neg]
      intro alphanum
      exact ends (by simp [continuesNumber, alphanum])

theorem numberTail_head? {hex : Bool} {previous : Char} {s rest' : Text}
    (stops : Stops (numberTail hex previous s).2 rest') :
    ((numberTail hex previous s).1 ++ rest').head?.filter Char.isAlphanum =
      s.head?.filter Char.isAlphanum := by
  cases s with
  | nil => exact not_isAlphanum_of_stop (stops.number hex previous rfl)
  | cons c s =>
    by_cases continues : continuesNumber hex previous c s = true
    · rw [numberTail, if_pos continues]
      rfl
    · have stop : numberTail hex previous (c :: s) = ([], c :: s) := by
        rw [numberTail, if_neg continues]
      rw [stop] at stops ⊢
      rw [not_isAlphanum_of_stop stop]
      exact not_isAlphanum_of_stop (stops.number hex previous stop)

theorem numberTail_stops {hex : Bool} {previous : Char} {s rest' : Text}
    (stops : Stops (numberTail hex previous s).2 rest') :
    numberTail hex previous ((numberTail hex previous s).1 ++ rest') =
      ((numberTail hex previous s).1, rest') := by
  induction s generalizing previous with
  | nil => exact stops.number hex previous rfl
  | cons c s ih =>
    by_cases continues : continuesNumber hex previous c s = true
    · simp only [numberTail, if_pos continues, List.cons_append] at stops ⊢
      have following := test_eq_of_filter (fun _ => id) (numberTail_head? stops)
      have again : continuesNumber hex previous c ((numberTail hex c s).1 ++ rest') = true := by
        rw [continuesNumber, following]
        exact continues
      rw [if_pos again, ih stops]
    · have stop : numberTail hex previous (c :: s) = ([], c :: s) := by
        rw [numberTail, if_neg continues]
      rw [stop] at stops ⊢
      exact stops.number hex previous stop

theorem not_startsNumber_stops {c : Char} {tail rest rest' : Text}
    (h : ¬ startsNumber c (tail ++ rest) = true)
    (stops : (rest.head?.map Char.isDigit).getD false = false →
      (rest'.head?.map Char.isDigit).getD false = false) :
    ¬ startsNumber c (tail ++ rest') = true := by
  cases tail with
  | cons d tail => exact h
  | nil =>
    simp only [startsNumber, List.nil_append, Bool.or_eq_true, Bool.and_eq_true, decide_eq_true_eq,
      not_or, not_and, Bool.not_eq_true] at h ⊢
    exact ⟨h.1, fun point => stops (h.2 point)⟩

theorem markLength_stops {c : Char} {r rest' : Text}
    (stops : Stops (r.drop (markLength (c :: r) - 1)) rest') :
    markLength (c :: (r.take (markLength (c :: r) - 1) ++ rest')) = markLength (c :: r) := by
  have found := find?_narrow (l := longMarks) (p := fun mark => mark.toList.isPrefixOf (c :: r))
    (q := fun mark => mark.toList.isPrefixOf (c :: (r.take (markLength (c :: r) - 1) ++ rest')))
    ?_ ?_
  · rw [markLength, found, ← markLength]
  · intro mark inside begins
    rw [List.isPrefixOf_iff_prefix] at begins ⊢
    have still := stops.mark mark inside c _ begins
    rwa [List.take_append_drop] at still
  · intro mark first
    have begins : mark.toList.isPrefixOf (c :: r) = true :=
      List.find?_some (p := fun mark : String => mark.toList.isPrefixOf (c :: r)) first
    rw [List.isPrefixOf_iff_prefix] at begins ⊢
    have length : markLength (c :: r) = mark.toList.length := by
      rw [markLength, first, String.length_toList]
      rfl
    have own : mark.toList <+: c :: r.take (markLength (c :: r) - 1) := by
      cases shape : mark.toList with
      | nil => exact List.nil_prefix
      | cons a m =>
        rw [shape] at begins length
        rw [List.cons_prefix_cons] at begins ⊢
        refine ⟨begins.1, List.prefix_take_iff.mpr ⟨begins.2, ?_⟩⟩
        rw [length, List.length_cons]
        exact Nat.le_refl _
    exact own.trans ⟨rest', by simp⟩

/-- A token is read again in front of what stops all that stopped behind it. -/
theorem lexeme_stops {c : Char} {r rest' : Text} {l : Lexeme} (h : lexeme c r = .ok l)
    (stops : Stops l.rest rest') :
    ∃ tail, l.text = c :: tail ∧ lexeme c (tail ++ rest') = .ok { l with rest := rest' } := by
  unfold lexeme at h
  split at h
  · rename_i starts
    obtain ⟨whole, _⟩ := wordOrLiteral_append (by simp) h
    obtain ⟨tail, text, again⟩ := wordOrLiteral_stops h stops
    rw [text, List.append_assoc, List.append_cancel_left_eq] at whole
    have span := span_stops whole.symm stops.word
    refine ⟨r.takeWhile Alphabet.continuesIdentifier ++ tail, text, ?_⟩
    rw [List.append_assoc, lexeme, if_pos starts, span.1, span.2, again]
  · rename_i noWord
    split at h
    · rename_i number
      cases h
      have heads := numberTail_head? stops
      refine ⟨_, rfl, ?_⟩
      rw [lexeme, if_neg noWord, startsNumber_eq heads, if_pos number, isHex_eq heads,
        numberTail_stops stops]
    · rename_i noNumber
      split at h
      · rename_i quote
        obtain ⟨tail, text, again⟩ := quoted_congr h
        refine ⟨tail, by rw [text, quote]; rfl, ?_⟩
        subst quote
        exact again rest'
      · rename_i noDouble
        split at h
        · rename_i quote
          obtain ⟨tail, text, again⟩ := quoted_congr h
          refine ⟨tail, by rw [text, quote]; rfl, ?_⟩
          subst quote
          exact again rest'
        · rename_i noSingle
          cases h
          have size := List.length_take_of_le (markLength_le c r)
          have length := markLength_stops stops
          have number : ¬ startsNumber c (r.take (markLength (c :: r) - 1) ++
              r.drop (markLength (c :: r) - 1)) = true := by rwa [List.take_append_drop]
          have still := not_startsNumber_stops number stops.digit
          refine ⟨_, rfl, ?_⟩
          rw [lexeme, if_neg noWord, if_neg still, if_neg noDouble, if_neg noSingle, length]
          simp only [List.take_left' size, List.drop_left' size]

end MemberLift.Lexer
