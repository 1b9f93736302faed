import MemberLift.Proofs.Declaration.Declarator
import MemberLift.Proofs.Declaration.TypeNames
import MemberLift.Proofs.Token.Places
import MemberLift.Token.Lexer

/-!
Parameters with a default argument.  Behind a declarator that closes what it opens, an equals sign
and whatever follows change nothing about the name of the parameter or about whether it is a pack
(`Parameter.ofTokens_default`).
-/
namespace MemberLift

open MemberLift.Group

namespace Group

theorem headMark_of_topLevel {mark : String} {tokens : List Token}
    (other : ∀ i ∈ topLevel tokens, ∀ t ∈ tokens[i]?, t.isMark mark = false) :
    ∀ item ∈ itemsOf tokens, headMark mark item = false := by
  intro item member
  obtain ⟨front, back, split⟩ := List.append_of_mem member
  obtain ⟨t, inner, rfl⟩ := List.exists_cons_of_ne_nil (items_ne_nil false tokens item member)
  have here : tokens[front.flatten.length]? = some t := by simp [eq_of_itemsOf split]
  exact other _ (mem_topLevel.mpr ⟨front, t :: inner, back, split, rfl⟩) t here

theorem complete_of_groupEnd {tokens : List Token}
    (closed : ∀ i ∈ topLevel tokens, ∀ t ∈ tokens[i]?,
      isOpener t = true ∨ t.isMark "<" = true ∧ followsName tokens i = true →
        (groupEnd tokens i).isSome = true) : Complete false tokens := by
  intro front t back split
  have whole : tokens = front.flatten ++ t :: back.flatten := eq_of_itemsOf split
  have here : t ∈ tokens[front.flatten.length]? := by simp [whole]
  have open_ := groupEnd_item split
  have opensNothing := closed _ (mem_topLevel.mpr ⟨front, [t], back, split, rfl⟩) t here
  rw [open_, whole, followsName_length] at opensNothing
  simpa using opensNothing

end Group

namespace Parameter

/-- The declarator goes up to the first equals sign at top level, if all groups in front of that are
closed. -/
theorem declarator_default {d : List Token} (complete : Complete false d)
    (noEquals : ∀ item ∈ itemsOf d, headMark "=" item = false) {equals : Token}
    (mark : equals.isMark "=" = true) (e : List Token) : declarator (d ++ equals :: e) = d := by
  obtain ⟨behind, split⟩ := items_equals mark (nameBefore false d) e
  have whole : itemsOf (d ++ equals :: e) = itemsOf d ++ [equals] :: behind := by
    rw [itemsOf, items_append complete, split]
    rfl
  have passed : ∀ item ∈ itemsOf d, (!headMark "=" item) = true := by simpa using noEquals
  rw [declarator, whole, List.takeWhile_append_of_pos passed,
    List.takeWhile_cons_of_neg (by simp [headMark, mark]), List.append_nil, itemsOf, items_flatten]

/-- A parameter with a default argument has the name it has without, an identifier in front of the
equals sign, and is a pack exactly if it is one without. -/
theorem ofTokens_default {d : List Token}
    (noEquals : ∀ i ∈ topLevel d, ∀ t ∈ d[i]?, t.isMark "=" = false)
    (closed : ∀ i ∈ topLevel d, ∀ t ∈ d[i]?,
      isOpener t = true ∨ t.isMark "<" = true ∧ followsName d i = true →
        (groupEnd d i).isSome = true)
    {equals : Token} (mark : equals.isMark "=" = true) (e : List Token) :
    (ofTokens (d ++ [equals] ++ e)).nameIndex = (ofTokens d).nameIndex ∧
      (ofTokens (d ++ [equals] ++ e)).isPack = (ofTokens d).isPack ∧
      (ofTokens (d ++ [equals] ++ e)).tokens = d ++ [equals] ++ e ∧
      ∀ k, (ofTokens (d ++ [equals] ++ e)).nameIndex = some k →
        ∃ name, d[k]? = some name ∧ name.isIdentifier = true := by
  have own : declarator (d ++ [equals] ++ e) = d := by
    rw [List.append_assoc]
    exact declarator_default (complete_of_groupEnd closed) (headMark_of_topLevel noEquals) mark e
  obtain ⟨name, pack⟩ := ofTokens_declarator (d ++ [equals] ++ e)
  rw [own] at name pack
  refine ⟨name.symm, pack.symm, rfl, fun k found => ?_⟩
  obtain ⟨t, inside, _, identifier, _⟩ := name?_ofTokens found
  rw [own] at inside
  exact ⟨t, inside, identifier⟩

def callbackTokens : List Token := (Lexer.lex 1 "void (*cb)(std::pair<int, T>)".toList).tokens

def equalsToken : Token := ⟨.punctuator, "=".toList, [' '], 1⟩

/-- A function pointer in front of a default argument in which nothing is balanced. -/
theorem ofTokens_default_callback :
    (∀ i ∈ topLevel callbackTokens, ∀ t ∈ callbackTokens[i]?, t.isMark "=" = false) ∧
      (∀ i ∈ topLevel callbackTokens, ∀ t ∈ callbackTokens[i]?,
        isOpener t = true ∨ t.isMark "<" = true ∧ followsName callbackTokens i = true →
          (groupEnd callbackTokens i).isSome = true) ∧
      equalsToken.isMark "=" = true ∧
      (ofTokens (callbackTokens ++ [equalsToken] ++
        (Lexer.lex 1 "a < b ) > [ , ... x = 0".toList).tokens)).nameIndex = some 3 := by
  have noEquals : ∀ i ∈ topLevel callbackTokens, ∀ t ∈ callbackTokens[i]?,
      t.isMark "=" = false := by decide +kernel
  have closed : ∀ i ∈ topLevel callbackTokens, ∀ t ∈ callbackTokens[i]?,
      isOpener t = true ∨ t.isMark "<" = true ∧ followsName callbackTokens i = true →
        (groupEnd callbackTokens i).isSome = true := by decide +kernel
  have own : (ofTokens callbackTokens).nameIndex = some 3 := by decide +kernel
  exact ⟨noEquals, closed, by decide, (ofTokens_default noEquals closed (by decide) _).1.trans own⟩

end Parameter

end MemberLift
