import MemberLift.Token.Group

/-!
Tokens with other spacing, lines or string literals.  Brackets, template argument lists and groups
are read from the kinds and spellings of tokens alone, so they do not see such a change.
-/
namespace MemberLift

/-- A change of tokens that keeps the kind of each and the text of the punctuators. -/
structure KeepsMarks (f : Token → Token) : Prop where
  kind : ∀ t, (f t).kind = t.kind
  text : ∀ t, t.kind = .punctuator → (f t).text = t.text

namespace KeepsMarks

variable {f : Token → Token}

theorem isIdentifier (h : KeepsMarks f) (t : Token) : (f t).isIdentifier = t.isIdentifier := by
  rw [Token.isIdentifier, Token.isIdentifier, h.kind]

theorem isMark (h : KeepsMarks f) (t : Token) (mark : String) :
    (f t).isMark mark = t.isMark mark := by
  rw [Token.isMark, Token.isMark, h.kind]
  by_cases punctuator : t.kind = .punctuator
  · rw [h.text t punctuator]
  · simp [punctuator]

theorem isMarkIn (h : KeepsMarks f) (t : Token) (marks : List String) :
    (f t).isMarkIn marks = t.isMarkIn marks := by
  rw [Token.isMarkIn, Token.isMarkIn]
  exact congrArg marks.any (funext (h.isMark t))

end KeepsMarks

/-- A change of tokens that keeps the kind of each, its text if it is no string literal, and whether
its text is a given one without line feeds. -/
structure Recast (f : Token → Token) : Prop where
  kind : ∀ t, (f t).kind = t.kind
  text : ∀ t, t.kind ≠ .stringLiteral → (f t).text = t.text
  spells : ∀ t (word : Text), '\n' ∉ word → ((f t).text = word ↔ t.text = word)

namespace Recast

variable {f : Token → Token}

theorem keepsMarks (h : Recast f) : KeepsMarks f where
  kind := h.kind
  text t punctuator := h.text t (by rw [punctuator]; decide)

theorem isIdentifier (h : Recast f) (t : Token) : (f t).isIdentifier = t.isIdentifier :=
  h.keepsMarks.isIdentifier t

theorem isMark (h : Recast f) (t : Token) (mark : String) :
    (f t).isMark mark = t.isMark mark :=
  h.keepsMarks.isMark t mark

theorem isWord (h : Recast f) (t : Token) (word : String) :
    (f t).isWord word = t.isWord word := by
  rw [Token.isWord, Token.isWord, h.kind]
  by_cases name : t.kind = .identifier
  · rw [h.text t (by rw [name]; decide)]
  · simp [name]

theorem isWordIn (h : Recast f) (t : Token) (words : List Text) :
    (f t).isWordIn words = t.isWordIn words := by
  rw [Token.isWordIn, Token.isWordIn, h.kind]
  by_cases name : t.kind = .identifier
  · rw [h.text t (by rw [name]; decide)]
  · simp [name]

theorem isMarkIn (h : Recast f) (t : Token) (marks : List String) :
    (f t).isMarkIn marks = t.isMarkIn marks :=
  h.keepsMarks.isMarkIn t marks

theorem head? {p : Token → Bool} (same : ∀ t, p (f t) = p t) (tokens : List Token) :
    ((tokens.map f).head?.map p).getD false = (tokens.head?.map p).getD false := by
  cases tokens with
  | nil => rfl
  | cons t rest => exact same t

theorem getLast? {p : Token → Bool} (same : ∀ t, p (f t) = p t) (tokens : List Token) :
    ((tokens.map f).getLast?.map p).getD false = (tokens.getLast?.map p).getD false := by
  rw [List.getLast?_map, Option.map_map, funext (f := p ∘ f) same]

end Recast

namespace Token

def spacing (t : Token) : Text := if t.leading.isEmpty then [] else [' ']

/-- A token of which only the kind, the text and whether something stands in front are left. -/
def bare (t : Token) : Token := { t with leading := t.spacing, line := 0 }

theorem spacing_isEmpty (t : Token) : t.spacing.isEmpty = t.leading.isEmpty := by
  rw [spacing]
  split
  · rename_i empty
    rw [empty]
    rfl
  · rename_i space
    rw [Bool.eq_false_iff.mpr space]
    rfl

theorem bare_recast : Recast bare where
  kind _ := rfl
  text _ _ := rfl
  spells _ _ _ := Iff.rfl

end Token

namespace Group

variable {f : Token → Token}

theorem headMark_map (h : KeepsMarks f) (mark : String) (item : List Token) :
    headMark mark (item.map f) = headMark mark item := Recast.head? (h.isMark · mark) item

theorem headWord_map (h : Recast f) (word : String) (item : List Token) :
    headWord word (item.map f) = headWord word item := Recast.head? (h.isWord · word) item

theorem closerFor_recast (h : KeepsMarks f) (t : Token) : closerFor (f t) = closerFor t := by
  simp only [closerFor, h.isMark]

theorem isOpener_recast (h : KeepsMarks f) (t : Token) : isOpener (f t) = isOpener t := by
  rw [isOpener, isOpener, closerFor_recast h]

theorem isCloser_recast (h : KeepsMarks f) (t : Token) : isCloser (f t) = isCloser t :=
  h.isMarkIn t _

theorem closeBrackets_map (h : KeepsMarks f) (pending : List String) (tokens : List Token) :
    closeBrackets pending (tokens.map f) = closeBrackets pending tokens := by
  induction tokens generalizing pending with
  | nil => rfl
  | cons t rest ih =>
    simp only [List.map_cons, closeBrackets, closerFor_recast h, isCloser_recast h, h.isMark, ih]

theorem closeAngle_map (h : KeepsMarks f) (afterName : Bool) (tokens : List Token) :
    closeAngle afterName (tokens.map f) = closeAngle afterName tokens := by
  fun_induction closeAngle afterName tokens with
  | case1 => simp [closeAngle]
  | case2 afterName t rest ends => simp [closeAngle, h.isMark, ends]
  | case3 afterName t rest noEnd opens open_ =>
    rw [← closeBrackets_map h, List.map_cons] at open_
    simp [closeAngle, h.isMark, isOpener_recast h, noEnd, opens, open_]
  | case4 afterName t rest noEnd opens k closed ih =>
    rw [← closeBrackets_map h, List.map_cons] at closed
    simp [closeAngle, h.isMark, isOpener_recast h, noEnd, opens, closed, ← List.map_drop, ih]
  | case5 afterName t rest noEnd noOpener stops =>
    simp [closeAngle, h.isMark, isOpener_recast h, isCloser_recast h, noEnd, noOpener, stops]
  | case6 afterName t rest noEnd noOpener noStop nests open_ ih =>
    simp [closeAngle, h.isMark, isOpener_recast h, isCloser_recast h, noEnd, noOpener, noStop,
      nests, ih, open_]
  | case7 afterName t rest noEnd noOpener noStop nests k closed ih ih' =>
    simp [closeAngle, h.isMark, isOpener_recast h, isCloser_recast h, noEnd, noOpener, noStop,
      nests, ih, closed, ← List.map_drop, ih']
  | case8 afterName t rest noEnd noOpener noStop single ih =>
    simp [closeAngle, h.isMark, isOpener_recast h, isCloser_recast h, h.isIdentifier, noEnd,
      noOpener, noStop, single, ih]

theorem angleSpan_map (h : KeepsMarks f) (tokens : List Token) :
    angleSpan (tokens.map f) = angleSpan tokens := by
  cases tokens with
  | nil => rfl
  | cons t rest => simp only [List.map_cons, angleSpan, h.isMark, closeAngle_map h]

theorem span_map (h : KeepsMarks f) (afterName : Bool) (t : Token) (rest : List Token) :
    span afterName (f t) (rest.map f) = span afterName t rest := by
  rw [span, span, isOpener_recast h, h.isMark, closeAngle_map h, ← List.map_cons,
    closeBrackets_map h]

theorem items_map (h : KeepsMarks f) (afterName : Bool) (tokens : List Token) :
    items afterName (tokens.map f) = (items afterName tokens).map (List.map f) := by
  fun_induction items afterName tokens with
  | case1 => simp [items]
  | case2 afterName t rest k closed ih =>
    rw [List.map_cons, items.eq_2, span_map h, closed]
    simp only [List.map_cons, List.map_take, ← ih, List.map_drop]
  | case3 afterName t rest single ih =>
    rw [List.map_cons, items.eq_2, span_map h, single, h.isIdentifier]
    simp only [List.map_cons, List.map_nil, ih]

theorem itemsOf_map (h : KeepsMarks f) (tokens : List Token) :
    itemsOf (tokens.map f) = (itemsOf tokens).map (List.map f) := items_map h false tokens

theorem extendFirst_map (tokens : List Token) (pieces : List (List Token)) :
    extendFirst (tokens.map f) (pieces.map (List.map f)) =
      (extendFirst tokens pieces).map (List.map f) := by
  cases pieces with
  | nil => rfl
  | cons piece rest => simp only [List.map_cons, extendFirst, List.map_append]

theorem splitItems_map (h : KeepsMarks f) (separator : String) (items : List (List Token)) :
    splitItems separator (items.map (List.map f)) =
      (splitItems separator items).map (List.map f) := by
  induction items with
  | nil => rfl
  | cons item rest ih =>
    simp only [List.map_cons, splitItems, headMark_map h, ih]
    split
    · rw [List.map_cons, List.map_nil, ← List.map_tail, extendFirst_map]
    · rw [extendFirst_map]

theorem splitTopLevel_map (h : KeepsMarks f) (separator : String) (tokens : List Token) :
    splitTopLevel separator (tokens.map f) =
      (splitTopLevel separator tokens).map (List.map f) := by
  rw [splitTopLevel, splitTopLevel, List.isEmpty_map, itemsOf_map h, splitItems_map h]
  split
  · rfl
  · rfl

end Group

end MemberLift
