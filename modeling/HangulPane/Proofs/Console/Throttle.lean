import HangulPane.Console.Basic

namespace HangulPane

theorem Sink.write_of_unlimited {sink : Sink} (unlimited : sink.limit = none)
    (bytes : List UInt8) :
    sink.write bytes = (.ok (), { sink with written := sink.written ++ bytes }) := by
  simp [write, room, unlimited]

theorem Flushes.flush_of_unlimited {flushes : Flushes} (unlimited : flushes.limit = none) :
    flushes.flush = (.ok (), { flushes with count := flushes.count + 1 }) := by
  simp [flush, isOpen, unlimited]

namespace Warnings

/-!
The throttle of warnings.

The count is compared with the limit before a warning, to see whether it is still given, and after
it, to see whether silence is due from then on.  So the sink gets the first warnings up to the limit
and right behind the last of them the line that announces silence.  Under a limit of zero it gets
nothing, and under a negative one every warning and no announcement.
-/

/-- The warnings that are given under a limit. -/
def given (limit : Int) (hexes : List String) : List String :=
  if limit < 0 then hexes else hexes.take limit.toNat

/-- The lines that come of warnings under a limit. -/
def lines (limit : Int) (hexes : List String) : List String :=
  (given limit hexes).map rangeLine ++
    if 0 < limit ∧ limit ≤ hexes.length then [limitLine limit] else []

/-- The bytes of lines. -/
def bytes (lines : List String) : List UInt8 :=
  lines.flatMap fun line => Utf8.encode line.toList

/-- Warn of each of the values that are given in hexadecimal. -/
def warnAll (hexes : List String) (warnings : Warnings) : Warnings :=
  hexes.foldl (fun warnings hex => (warnings.warnRange hex).2) warnings

/-- Whether warnings are taken whole, and can always be flushed. -/
structure AcceptsAll (warnings : Warnings) : Prop where
  written : warnings.sink.limit = none
  flushed : warnings.flushes.limit = none

/-- Whether warnings with a sink that accepts everything have been called for the given values, and
nothing else has happened to them. -/
structure Told (limit : Int) (hexes : List String) (warnings : Warnings) : Prop where
  limit_eq : warnings.limit = limit
  accepting : warnings.AcceptsAll
  count_eq : warnings.count = (given limit hexes).length
  written : warnings.sink.written.toList = bytes (lines limit hexes)

variable {limit : Int} {hexes : List String} {warnings : Warnings}

theorem length_given (limit : Int) (hexes : List String) :
    ((given limit hexes).length : Int) =
      if limit < 0 then (hexes.length : Int) else min hexes.length limit := by
  unfold given
  split
  · rfl
  · rw [List.length_take]
    omega

theorem bytes_append (first second : List String) :
    bytes (first ++ second) = bytes first ++ bytes second :=
  List.flatMap_append

/-- A warning that comes when the limit is used up is not given. -/
theorem given_append_of_exhausted (least : 0 ≤ limit) (exhausted : limit ≤ hexes.length)
    (hex : String) : given limit (hexes ++ [hex]) = given limit hexes := by
  have short : limit.toNat ≤ hexes.length := by omega
  rw [given, given, if_neg (Int.not_lt.mpr least), if_neg (Int.not_lt.mpr least),
    List.take_append_of_le_length short]

theorem lines_append_of_exhausted (least : 0 ≤ limit) (exhausted : limit ≤ hexes.length)
    (hex : String) : lines limit (hexes ++ [hex]) = lines limit hexes := by
  have longer : limit ≤ (hexes ++ [hex]).length := by
    rw [List.length_append, List.length_singleton]
    omega
  simp only [lines, given_append_of_exhausted least exhausted, exhausted, longer]

/-- Before that all warnings are given. -/
theorem given_of_open (unused : limit < 0 ∨ (hexes.length : Int) ≤ limit) :
    given limit hexes = hexes := by
  unfold given
  split
  · rfl
  · exact List.take_of_length_le (by omega)

theorem lines_of_open (unused : limit < 0 ∨ (hexes.length : Int) < limit) :
    lines limit hexes = hexes.map rangeLine := by
  have quiet : ¬ (0 < limit ∧ limit ≤ hexes.length) := by omega
  rw [lines, if_neg quiet, List.append_nil, given_of_open (by omega)]

/-- Silence is announced behind the warning that uses up the limit. -/
theorem lines_append_of_open (unused : limit < 0 ∨ (hexes.length : Int) < limit) (hex : String) :
    lines limit (hexes ++ [hex]) = lines limit hexes ++
      (rangeLine hex :: if 0 ≤ limit ∧ limit ≤ hexes.length + 1 then [limitLine limit] else []) := by
  have more : (hexes ++ [hex]).length = hexes.length + 1 := by simp
  have due : (0 < limit ∧ limit ≤ (hexes ++ [hex]).length) =
      (0 ≤ limit ∧ limit ≤ hexes.length + 1) := by
    rw [more]
    apply propext
    omega
  rw [lines_of_open unused, lines, given_of_open (by omega)]
  simp only [due, List.map_append, List.map_cons, List.map_nil, List.append_assoc,
    List.singleton_append]

/-- Whether nothing has happened to warnings but that lines were added to what is written, and
that they may have been flushed. -/
structure Adds (lines : List String) (before after : Warnings) : Prop where
  limit_eq : after.limit = before.limit
  count_eq : after.count = before.count
  accepting : after.AcceptsAll
  written : after.sink.written.toList = before.sink.written.toList ++ bytes lines

theorem Adds.trans {first second : List String} {before between after : Warnings}
    (adds : Adds first before between) (later : Adds second between after) :
    Adds (first ++ second) before after where
  limit_eq := later.limit_eq.trans adds.limit_eq
  count_eq := later.count_eq.trans adds.count_eq
  accepting := later.accepting
  written := by rw [later.written, adds.written, bytes_append, List.append_assoc]

theorem AcceptsAll.writeLine (accepting : warnings.AcceptsAll) (line : String) :
    ∃ after, warnings.writeLine line = (.ok (), after) ∧ Adds [line] warnings after := by
  refine ⟨{ warnings with sink := { warnings.sink with
    written := warnings.sink.written ++ Utf8.encode line.toList } }, ?_, rfl, rfl, ?_, ?_⟩
  · rw [Warnings.writeLine, Sink.writeText, Sink.write_of_unlimited accepting.written]
  · exact ⟨accepting.written, accepting.flushed⟩
  · rw [Array.toList_appendList, bytes, List.flatMap_singleton]

theorem AcceptsAll.announce (accepting : warnings.AcceptsAll) :
    ∃ after, warnings.announce = (.ok (), after) ∧
      Adds (if warnings.isExhausted warnings.count then [limitLine warnings.limit] else [])
        warnings after := by
  unfold Warnings.announce
  split
  · exact accepting.writeLine (limitLine warnings.limit)
  · exact ⟨warnings, rfl, rfl, rfl, accepting, (List.append_nil _).symm⟩

theorem AcceptsAll.flush (accepting : warnings.AcceptsAll) :
    ∃ after, warnings.flush = (.ok (), after) ∧ Adds [] warnings after := by
  refine ⟨{ warnings with flushes := { warnings.flushes with
    count := warnings.flushes.count + 1 } }, ?_, rfl, rfl, ?_, (List.append_nil _).symm⟩
  · rw [Warnings.flush, Flushes.flush_of_unlimited accepting.flushed]
  · exact ⟨accepting.written, accepting.flushed⟩

/-- A warning that is given is counted and written, and silence is announced if it is due. -/
theorem AcceptsAll.warnRange (accepting : warnings.AcceptsAll)
    (sounding : warnings.isExhausted warnings.count = false) (hex : String) :
    ∃ after, warnings.warnRange hex = (.ok (), after) ∧
      Adds (rangeLine hex ::
          if warnings.isExhausted (warnings.count + 1) then [limitLine warnings.limit] else [])
        { warnings with count := warnings.count + 1 } after := by
  have counted : { warnings with count := warnings.count + 1 }.AcceptsAll :=
    ⟨accepting.written, accepting.flushed⟩
  obtain ⟨warned, spoken, first⟩ := counted.writeLine (rangeLine hex)
  obtain ⟨announced, told, second⟩ := first.accepting.announce
  obtain ⟨after, flushed, third⟩ := second.accepting.flush
  have due : warned.isExhausted warned.count = warnings.isExhausted (warnings.count + 1) := by
    simp only [isExhausted, first.limit_eq, first.count_eq]
  have adds := (first.trans second).trans third
  rw [due, first.limit_eq, List.append_nil] at adds
  refine ⟨after, ?_, adds⟩
  unfold Warnings.warnRange
  rw [sounding]
  simp only [Bool.false_eq_true, if_false, spoken, told, flushed]

theorem isExhausted_iff (count : Nat) :
    warnings.isExhausted count = true <-> 0 ≤ warnings.limit ∧ warnings.limit ≤ count := by
  simp only [isExhausted, Bool.and_eq_true, decide_eq_true_eq]

/-- Whether the limit is used up shows in the number of values told. -/
theorem Told.isExhausted_iff (told : Told limit hexes warnings) :
    warnings.isExhausted warnings.count = true <-> 0 ≤ limit ∧ limit ≤ hexes.length := by
  rw [Warnings.isExhausted_iff, told.limit_eq, told.count_eq, length_given]
  split
  · omega
  · omega

theorem told_fresh (limit : Int) : Told limit [] (fresh limit none) := by
  have nothing : given limit [] = [] := by
    unfold given
    split
    · rfl
    · exact List.take_nil
  have quiet : ¬ (0 < limit ∧ limit ≤ ([] : List String).length) := by
    simp only [List.length_nil]
    omega
  refine ⟨rfl, ⟨rfl, rfl⟩, ?_, ?_⟩
  · rw [nothing]
    rfl
  · rw [lines, nothing, if_neg quiet]
    rfl

/-- Where the limit is used up, a value is told by silence. -/
theorem Told.silenced (told : Told limit hexes warnings) (least : 0 ≤ limit)
    (reached : limit ≤ hexes.length) (hex : String) : Told limit (hexes ++ [hex]) warnings where
  limit_eq := told.limit_eq
  accepting := told.accepting
  count_eq := by rw [given_append_of_exhausted least reached, told.count_eq]
  written := by rw [lines_append_of_exhausted least reached, told.written]

/-- A value that is told by a line is told, once silence has been announced if it is due. -/
theorem Told.sounded (told : Told limit hexes warnings)
    (unused : limit < 0 ∨ (hexes.length : Int) < limit) {hex : String} {after : Warnings}
    (adds : Adds
      (rangeLine hex :: if 0 ≤ limit ∧ limit ≤ hexes.length + 1 then [limitLine limit] else [])
      { warnings with count := warnings.count + 1 } after) :
    Told limit (hexes ++ [hex]) after where
  limit_eq := adds.limit_eq.trans told.limit_eq
  accepting := adds.accepting
  count_eq := by
    have before : warnings.count = hexes.length :=
      told.count_eq.trans (congrArg List.length (given_of_open (by omega)))
    have more : (hexes ++ [hex]).length = hexes.length + 1 := by simp
    rw [given_of_open (by omega), more, adds.count_eq, before]
  written := by rw [adds.written, told.written, lines_append_of_open unused, bytes_append]

/-- A warning is told with the others: it is given, or the limit is used up. -/
theorem Told.warnRange (told : Told limit hexes warnings) (hex : String) :
    (warnings.warnRange hex).1 = .ok () ∧
      Told limit (hexes ++ [hex]) (warnings.warnRange hex).2 := by
  cases exhausted : warnings.isExhausted warnings.count with
  | true =>
      obtain ⟨least, reached⟩ := told.isExhausted_iff.mp exhausted
      rw [Warnings.warnRange, if_pos exhausted]
      exact ⟨rfl, told.silenced least reached hex⟩
  | false =>
      have unused : limit < 0 ∨ (hexes.length : Int) < limit := by
        have unreached := mt told.isExhausted_iff.mpr (Bool.eq_false_iff.mp exhausted)
        omega
      have before : warnings.count = hexes.length :=
        told.count_eq.trans (congrArg List.length (given_of_open (by omega)))
      have due : warnings.isExhausted (warnings.count + 1) = true <->
          0 ≤ limit ∧ limit ≤ hexes.length + 1 := by
        rw [Warnings.isExhausted_iff, told.limit_eq, before, Int.natCast_succ]
      obtain ⟨after, warned, adds⟩ := told.accepting.warnRange exhausted hex
      rw [ite_congr (propext due)
        (fun _ => congrArg (fun limit => [limitLine limit]) told.limit_eq) fun _ => rfl] at adds
      rw [warned]
      exact ⟨rfl, told.sounded unused adds⟩

theorem told_warnAll (hexes : List String) :
    forall (before : List String) (warnings : Warnings), Told limit before warnings ->
      Told limit (before ++ hexes) (warnings.warnAll hexes) := by
  induction hexes with
  | nil =>
      intro before warnings told
      rw [List.append_nil]
      exact told
  | cons hex hexes inductionHypothesis =>
      intro before warnings told
      have later := inductionHypothesis (before ++ [hex]) _ (told.warnRange hex).2
      rw [List.append_assoc, List.singleton_append] at later
      exact later

/-- Silence is announced behind the second warning, and the third is not given. -/
example (first second third : String) :
    lines 2 [first, second, third] = [rangeLine first, rangeLine second, limitLine 2] := rfl

end Warnings
end HangulPane
