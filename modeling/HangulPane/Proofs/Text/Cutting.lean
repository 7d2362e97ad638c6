import HangulPane.Text.Blank

namespace HangulPane
namespace Text

/-!
Cutting text that was put together.

A line feed, a separator or a blank that is put between two pieces of text is where the text
is cut again, as long as the piece before it does not hold one itself.  Trimming takes away
blanks at the ends and nothing else.
-/

theorem lines_append_lineFeed {line : List Char} (single : '\n' ∉ line) (rest : List Char) :
    lines (line ++ '\n' :: rest) = line :: lines rest := by
  induction line with
  | nil => simp [lines]
  | cons c line inductionHypothesis =>
      rw [List.mem_cons, not_or] at single
      rw [List.cons_append, lines, if_neg (Ne.symm single.1), inductionHypothesis single.2]

/-- Lines that each end with a line feed are found again, before what follows them. -/
theorem lines_flatMap {texts : List (List Char)} (single : forall text, text ∈ texts -> '\n' ∉ text)
    (rest : List Char) :
    lines (texts.flatMap (fun text => text ++ ['\n']) ++ rest) = texts ++ lines rest := by
  induction texts with
  | nil => rfl
  | cons text later inductionHypothesis =>
      have remaining := inductionHypothesis fun other member =>
        single other (List.mem_cons_of_mem _ member)
      rw [List.flatMap_cons, List.append_assoc, List.append_assoc, List.singleton_append,
        lines_append_lineFeed (single text List.mem_cons_self), remaining, List.cons_append]

section CutAt

variable {separator : Char} {text : List Char}

theorem bne_of_not_mem (absent : separator ∉ text) :
    forall c, c ∈ text -> (c != separator) = true := by
  intro c member
  exact bne_iff_ne.mpr fun same => absent (same ▸ member)

theorem cutAt_append (absent : separator ∉ text) (rest : List Char) :
    cutAt separator (text ++ separator :: rest) = some (text, rest) := by
  have passed := bne_of_not_mem absent
  rw [cutAt, List.dropWhile_append_of_pos passed, List.takeWhile_append_of_pos passed]
  simp

theorem cutAt_of_not_mem (absent : separator ∉ text) : cutAt separator text = none := by
  have passed : (text ++ []).dropWhile (· != separator) = [] :=
    List.dropWhile_append_of_pos (bne_of_not_mem absent)
  rw [List.append_nil] at passed
  simp only [cutAt, passed]

end CutAt

section Words

@[simp]
theorem words_nil : words [] = [] := rfl

theorem words_cons_of_isBlank {c : Char} (blank : isBlank c = true) (rest : List Char) :
    words (c :: rest) = words rest := by
  simp only [words, leadingWord, blank, if_true, List.isEmpty_nil]

@[simp]
theorem words_spaces_append (count : Nat) (rest : List Char) :
    words (List.replicate count ' ' ++ rest) = words rest := by
  induction count with
  | zero => rfl
  | succ count inductionHypothesis =>
      rw [List.replicate_succ, List.cons_append, words_cons_of_isBlank (by decide),
        inductionHypothesis]

@[simp]
theorem words_spaces (count : Nat) : words (List.replicate count ' ') = [] := by
  have spaces := words_spaces_append count []
  rwa [List.append_nil] at spaces

theorem leadingWord_append {word : List Char} (plain : forall c, c ∈ word -> isBlank c = false)
    (rest : List Char) :
    leadingWord (word ++ rest) = (word ++ (leadingWord rest).1, (leadingWord rest).2) := by
  induction word with
  | nil => rfl
  | cons c word inductionHypothesis =>
      rw [List.forall_mem_cons] at plain
      simp only [List.cons_append, leadingWord, inductionHypothesis plain.2, plain.1,
        Bool.false_eq_true, if_false]

/-- A word before a blank, or at the end, is the first word. -/
theorem words_append {word rest : List Char} (some_ : word ≠ [])
    (plain : forall c, c ∈ word -> isBlank c = false)
    (ends : forall c, rest.head? = some c -> isBlank c = true) :
    words (word ++ rest) = word :: words rest := by
  have later : (leadingWord rest).1 = [] ∧ (leadingWord rest).2 = words rest := by
    cases rest with
    | nil => exact ⟨rfl, rfl⟩
    | cons c rest =>
        have blank := ends c rfl
        refine ⟨by simp [leadingWord, blank], ?_⟩
        rw [words_cons_of_isBlank blank]
        simp [leadingWord, words, blank]
  rw [words, leadingWord_append plain, later.1, later.2, List.append_nil]
  simp [some_]

end Words

section Trim

variable {text : List Char}

theorem trimStart_cons {c : Char} (blank : isBlank c = true) (rest : List Char) :
    trimStart (c :: rest) = trimStart rest := by
  simp [trimStart, blank]

@[simp]
theorem trimStart_spaces_append (count : Nat) (rest : List Char) :
    trimStart (List.replicate count ' ' ++ rest) = trimStart rest := by
  induction count with
  | zero => rfl
  | succ count inductionHypothesis =>
      rw [List.replicate_succ, List.cons_append, trimStart_cons (by decide), inductionHypothesis]

theorem trimStart_append {word : List Char} (some_ : word ≠ [])
    (plain : forall c, c ∈ word -> isBlank c = false) (rest : List Char) :
    trimStart (word ++ rest) = word ++ rest := by
  cases word with
  | nil => contradiction
  | cons c word => simp [trimStart, plain c (List.mem_cons_self ..)]

theorem trimEnd_append (front text : List Char) :
    trimEnd (front ++ text) =
      if trimEnd text = [] then trimEnd front else front ++ trimEnd text := by
  simp only [trimEnd, List.reverse_append, List.dropWhile_append, List.isEmpty_iff,
    List.reverse_eq_nil_iff]
  split <;> simp

theorem trimEnd_spaces (count : Nat) : trimEnd (List.replicate count ' ') = [] := by
  have dropped := trimStart_spaces_append count []
  rw [List.append_nil] at dropped
  rw [trimEnd, List.reverse_replicate, ← trimStart, dropped]
  rfl

theorem trimEnd_of_plain (plain : forall c, c ∈ text -> isBlank c = false) :
    trimEnd text = text := by
  unfold trimEnd
  cases reversed : text.reverse with
  | nil => rw [List.dropWhile_nil, ← reversed, List.reverse_reverse]
  | cons c rest =>
      have last : isBlank c = false :=
        plain c (List.mem_reverse.mp (reversed ▸ List.mem_cons_self ..))
      rw [List.dropWhile_cons_of_neg (by simp [last]), ← reversed, List.reverse_reverse]

theorem trim_of_plain (some_ : text ≠ []) (plain : forall c, c ∈ text -> isBlank c = false) :
    trim text = text := by
  have start := trimStart_append some_ plain []
  rw [List.append_nil] at start
  rw [trim, start, trimEnd_of_plain plain]

theorem length_trimEnd_le (text : List Char) : (trimEnd text).length ≤ text.length := by
  have shorter : (text.reverse.dropWhile isBlank).length ≤ text.reverse.length :=
    (List.dropWhile_suffix _).length_le
  rwa [List.length_reverse, ← List.length_reverse] at shorter

/-- A text without blanks at its ends has none at its start and none at its end. -/
theorem trimStart_of_trim (trimmed : trim text = text) : trimStart text = text := by
  have inner := length_trimEnd_le (trimStart text)
  rw [← trim, trimmed] at inner
  exact (List.dropWhile_suffix _).eq_of_length_le inner

theorem trimEnd_of_trim (trimmed : trim text = text) : trimEnd text = text := by
  rwa [trim, trimStart_of_trim trimmed] at trimmed

end Trim

end Text
end HangulPane
