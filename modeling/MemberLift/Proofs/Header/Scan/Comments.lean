import MemberLift.Proofs.Header.Docs

/-!
Block comments in front of a marked member.  The documentation begins at the nearest line above that
holds a comment opener, also where that is text of the comment, such as the path `include/*.hpp`.  So
a comment is documentation as a whole exactly if no opener stands below its first line
(`ofLines_comment`).  Where the comment is closed plays no part, as long as its last line ends with
a closer.
-/
namespace MemberLift

namespace Docs

def outdent (n : Nat) (line : Text) : Text :=
  line.drop (min n (line.takeWhile fun a => a = ' ' || a = '\t').length)

/-- Whether lines begin with documentation in a block comment and end with the end of one. -/
structure BlockComment (comment : List Text) : Prop where
  opens : ∃ first ∈ comment.head?, "/*!".toList <+: first.trim ∨ "/**".toList <+: first.trim
  closes : ∃ last ∈ comment.getLast?, "*/".toList <:+ last.trim

instance (comment : List Text) : Decidable (BlockComment comment) :=
  decidable_of_iff (_ ∧ _) ⟨fun h => ⟨h.1, h.2⟩, fun h => ⟨h.opens, h.closes⟩⟩

theorem dedent_eq_outdent (n : Nat) (line : Text) : dedent n line = outdent n line := by
  induction n generalizing line with
  | zero => simp [dedent, outdent]
  | succ n ih =>
    cases line with
    | nil => simp [dedent, outdent]
    | cons c rest =>
      by_cases here : (c = ' ' || c = '\t') = true
      · rw [dedent, if_pos here, ih, outdent, outdent, List.takeWhile_cons, if_pos here,
          List.length_cons, Nat.add_min_add_right, List.drop_succ_cons]
      · rw [dedent, if_neg here, outdent, List.takeWhile_cons, if_neg here]
        rfl

theorem opensBlockDoc_of_trim {line : Text}
    (opens : "/*!".toList <+: line.trim ∨ "/**".toList <+: line.trim) :
    opensBlockDoc line = true := by
  refine Bool.or_eq_true_iff.mpr (opens.imp (fun begins => ?_) fun begins => ?_)
  · exact List.isPrefixOf_iff_prefix.mpr (begins.trans (trimEnd_begins _))
  · exact List.isPrefixOf_iff_prefix.mpr (begins.trans (trimEnd_begins _))

theorem dedent_ne_nil {line : Text} (opens : opensBlockDoc line = true) (n : Nat) :
    dedent n line ≠ [] := by
  intro empty
  obtain ⟨first, body, split, _⟩ := split_of_opensBlockDoc opens
  rw [← trimStart_dedent n, empty] at split
  cases split

section

variable (indent : Nat) {lookahead : Nat} {inside behind : List Text} {opening previous : Text}

theorem ofAbove_nearest (nearest : (inside ++ opening :: behind).head? = some previous)
    (ends : endsBlockDoc previous = true) (plain : ∀ line ∈ inside, opensComment line = false)
    (holds : opensComment opening = true) (near : inside.length < lookahead) :
    ofAbove indent lookahead (inside ++ opening :: behind) =
      if opensBlockDoc opening then some ((opening :: inside.reverse).flatMap (dedent indent))
      else none := by
  rw [ofAbove, height_nearest nearest ends plain holds near]
  split
  · have lines : (inside ++ opening :: behind).take (inside.length + 1) = inside ++ [opening] := by
      rw [List.take_length_add_append, List.take_succ_cons, List.take_zero]
    rw [Option.map_some, lines, List.reverse_append]
    rfl
  · rfl

/-- A comment is documentation as a whole exactly if no opener stands behind its first line. -/
theorem ofAbove_block (nearest : (inside ++ opening :: behind).head? = some previous)
    (ends : endsBlockDoc previous = true) (opens : opensBlockDoc opening = true)
    (near : inside.length < lookahead) :
    ofAbove indent lookahead (inside ++ opening :: behind) =
        some ((opening :: inside.reverse).flatMap (dedent indent)) ↔
      ∀ line ∈ inside, opensComment line = false := by
  constructor
  · intro whole line within
    by_contra opener
    obtain ⟨inner, found⟩ := Option.isSome_iff_exists.mp
      (List.find?_isSome.mpr ⟨line, within, Bool.of_not_eq_false opener⟩)
    obtain ⟨holds, later, earlier, rfl, plain⟩ := List.find?_eq_some_iff_append.mp found
    rw [List.append_assoc, List.cons_append] at whole nearest
    rw [List.length_append] at near
    have free (line : Text) (inside : line ∈ later) : opensComment line = false := by
      simpa using plain line inside
    rw [ofAbove_nearest indent nearest ends free holds (by omega)] at whole
    split at whole
    · -- The first line of the comment would have no text.
      have shorter := Option.some.inj whole
      simp only [List.flatMap_cons, List.reverse_append, List.reverse_cons, List.append_assoc,
        List.flatMap_append, List.flatMap_nil, List.nil_append] at shorter
      have lengths := congrArg List.length shorter
      simp only [List.length_append] at lengths
      have some_ := List.length_pos_iff.mpr (dedent_ne_nil opens indent)
      omega
    · cases whole
  · intro plain
    have holds := opensComment_of_opensBlockDoc opens
    rw [ofAbove_nearest indent nearest ends plain holds near, if_pos opens]

end

end Docs

namespace Scan

variable {c : Conventions} {lines before comment after : List Text} {marker : Text}
variable {scan : Scan} {m : Marked}

/-- A function has the whole block comment in front of its line as documentation exactly if no line
of the comment but the first holds an opener. -/
theorem ofLines_comment (h : ofLines c lines = .ok scan) (member : m ∈ scan.functions)
    (split : lines = before ++ comment ++ marker :: after)
    (line : m.line = (before ++ comment).length + 1) (block : Docs.BlockComment comment)
    (near : comment.length ≤ c.maxLookahead) :
    m.docs = some (comment.flatMap (Docs.outdent marker.indentation.length)) ↔
      ∀ inner ∈ comment.tail, ¬ "/*".toList <:+: inner := by
  obtain ⟨index, found⟩ := (scans_of_ok h).exists_found member
  obtain rfl : index = (before ++ comment).length := by
    have number := found.line
    omega
  obtain ⟨other, here, docs⟩ := found.documented
  obtain ⟨first, head, begins⟩ := block.opens
  obtain ⟨last, back, ends⟩ := block.closes
  obtain ⟨tail, rfl⟩ := List.head?_eq_some_iff.mp head
  subst split
  have same : marker = other := by simpa using here
  have above : (before ++ first :: tail).reverse = tail.reverse ++ first :: before.reverse := by
    simp
  have nearest : (tail.reverse ++ first :: before.reverse).head? = some last := by
    rw [← above, List.head?_reverse, List.getLast?_append, back]
    rfl
  have seen : tail.reverse.length < c.maxLookahead := by
    rw [List.length_reverse]
    exact near
  have whole := Docs.ofAbove_block marker.indentation.length nearest
    (List.isSuffixOf_iff_suffix.mpr ends) (Docs.opensBlockDoc_of_trim begins) seen
  have openers : (∀ inner ∈ tail.reverse, Docs.opensComment inner = false) ↔
      ∀ inner ∈ tail, ¬ "/*".toList <:+: inner := by
    simp only [List.mem_reverse, ← Bool.not_eq_true, Docs.opensComment, Text.occursIn_iff]
  rw [docs, ← same, List.take_left' rfl, above, ← funext (Docs.dedent_eq_outdent _)]
  rw [List.reverse_reverse] at whole
  exact whole.trans openers

def commentAround (inner : String) : List Text :=
  ["  /*! Closes it.\n", inner, "  */\n"].map String.toList

def commentedLines (inner : String) : List Text :=
  ["class handle\n".toList] ++ commentAround inner ++
    "  AFIO_MAKE_FREE_FUNCTION\n".toList :: ["  void close();\n".toList]

theorem ofLines_comment_close : ∃ scan m,
    ofLines .standard (commentedLines "    Now.\n") = .ok scan ∧ m ∈ scan.functions ∧
    m.line = 5 ∧ Docs.BlockComment (commentAround "    Now.\n") ∧
    (commentAround "    Now.\n").length ≤ Conventions.standard.maxLookahead ∧
    m.docs = some "/*! Closes it.\n  Now.\n*/\n".toList := by
  obtain ⟨scan, found, lines⟩ :
      ∃ scan ∈ (ofLines .standard (commentedLines "    Now.\n")).toOption,
        scan.functions.map Marked.line = [5] := by
    decide +kernel
  have found : ofLines .standard (commentedLines "    Now.\n") = .ok scan :=
    ok_of_mem_toOption found
  obtain ⟨m, functions, line⟩ := List.map_eq_singleton_iff.mp lines
  have member : m ∈ scan.functions := by rw [functions]; exact List.mem_singleton_self m
  have block : Docs.BlockComment (commentAround "    Now.\n") := by decide +kernel
  have near : (commentAround "    Now.\n").length ≤ Conventions.standard.maxLookahead := by decide
  have whole := (ofLines_comment found member rfl line block near).mpr (by decide +kernel)
  have text : (commentAround "    Now.\n").flatMap (Docs.outdent 2) =
      "/*! Closes it.\n  Now.\n*/\n".toList := by
    decide +kernel
  exact ⟨scan, m, found, member, line, block, near, whole.trans (congrArg some text)⟩

/-- An opener in a path takes the documentation away, one that begins another comment the lines in
front of it. -/
example : (["    See include/*.hpp.\n", "    /** Now. \n"].map fun inner =>
    (ofLines .standard (commentedLines inner)).toOption.map fun scan =>
      scan.functions.map Marked.docs) =
    [some [none], some [some "  /** Now. \n*/\n".toList]] := by
  decide +kernel

end Scan

end MemberLift
