import HangulPane.Proofs.Records.Layout
import HangulPane.Proofs.Text.Utf8
import HangulPane.Settings.Basic

namespace HangulPane

/-!
Stored forms are recognised.

Where the name of a file says nothing, the terminator of byte records decides.  No byte of a text is
like those of the terminator, and every stored program has one, whatever follows it.  The three
endings of names are told apart by their last letters, and the name of a derived file always has the
ending of its form.
-/

namespace Utf8

/-- No byte of a character consists of ones alone. -/
theorem Encodes.ne_ones {c : Char} {bytes : List UInt8} (encodes : Encodes c bytes) :
    0xFF ∉ bytes := by
  have ones : (0xFF : UInt8).toNat = 255 := rfl
  intro member
  cases encodes with
  | one first low code =>
      rw [List.mem_singleton] at member
      subst member
      omega
  | two first second least most follows code =>
      have bounds := ((mayFollow_iff first second).mp follows).1
      simp only [List.mem_cons, List.not_mem_nil, or_false] at member
      rcases member with rfl | rfl <;> omega
  | three first second third least most follows continues code =>
      have bounds := ((mayFollow_iff first second).mp follows).1
      have bound := (isContinuation_iff third).mp continues
      simp only [List.mem_cons, List.not_mem_nil, or_false] at member
      rcases member with rfl | rfl | rfl <;> omega
  | four first second third fourth least most follows continues closes code =>
      have bounds := ((mayFollow_iff first second).mp follows).1
      have bound := (isContinuation_iff third).mp continues
      have last := (isContinuation_iff fourth).mp closes
      simp only [List.mem_cons, List.not_mem_nil, or_false] at member
      rcases member with rfl | rfl | rfl | rfl <;> omega

theorem ones_not_mem_encode (text : List Char) : 0xFF ∉ encode text := by
  intro member
  obtain ⟨c, -, listed⟩ := List.mem_flatMap.mp member
  exact (encodes_utf8EncodeChar c).ne_ones listed

end Utf8

namespace Records

/-- The terminator is found wherever it stands. -/
theorem hasTerminator_iff (bytes : List UInt8) :
    hasTerminator bytes = true <-> terminator <:+: bytes := by
  induction bytes with
  | nil => simp [hasTerminator, terminator]
  | cons byte bytes inductionHypothesis =>
      rw [hasTerminator, Bool.or_eq_true, List.isPrefixOf_iff_prefix, inductionHypothesis,
        List.infix_cons_iff]

theorem hasTerminator_text (text : List Char) : hasTerminator (Utf8.encode text) = false := by
  rw [← Bool.not_eq_true, hasTerminator_iff]
  intro within
  exact Utf8.ones_not_mem_encode text (within.subset List.mem_cons_self)

/-- A stored program has a terminator, whatever follows it. -/
theorem hasTerminator_of_encode {program : Program} {bytes : List UInt8}
    (written : encode program = .ok bytes) (tail : List UInt8) :
    hasTerminator (bytes ++ tail) = true := by
  rw [hasTerminator_iff, (encode_eq_ok_iff.mp written).2]
  exact ⟨_, tail, rfl⟩

end Records

namespace FileName

variable {name ending : String}

theorem endsWith_iff : endsWith name ending = true <-> ending.toList <:+ name.toList :=
  List.isSuffixOf_iff_suffix

/-- A name has the last letter of its ending. -/
theorem getLast?_of_endsWith (ends : endsWith name ending = true) (some : ending.toList ≠ []) :
    name.toList.getLast? = ending.toList.getLast? := by
  obtain ⟨stem, whole⟩ := endsWith_iff.mp ends
  rw [← whole, List.getLast?_append, Option.or_of_isSome (List.getLast?_isSome.mpr some)]

/-- Endings with different last letters exclude each other. -/
theorem not_endsWith_of_endsWith {other : String} (ends : endsWith name ending = true)
    (some : ending.toList ≠ []) (otherSome : other.toList ≠ [])
    (differ : ending.toList.getLast? ≠ other.toList.getLast?) : endsWith name other = false := by
  rw [← Bool.not_eq_true]
  intro otherEnds
  exact differ ((getLast?_of_endsWith ends some).symm.trans
    (getLast?_of_endsWith otherEnds otherSome))

theorem detect_of_bytecodeEnding (ends : endsWith name bytecodeEnding = true)
    (contents : List UInt8) : SourceChoice.auto.detect name contents = .bytecode := by
  have notText : endsWith name textEnding = false :=
    not_endsWith_of_endsWith ends (by decide) (by decide) (by decide)
  simp only [SourceChoice.detect, notText, ends, if_true, Bool.false_eq_true, if_false]

theorem detect_of_asmEnding (ends : endsWith name asmEnding = true)
    (contents : List UInt8) : SourceChoice.auto.detect name contents = .asm := by
  have notText : endsWith name textEnding = false :=
    not_endsWith_of_endsWith ends (by decide) (by decide) (by decide)
  have notBytecode : endsWith name bytecodeEnding = false :=
    not_endsWith_of_endsWith ends (by decide) (by decide) (by decide)
  simp only [SourceChoice.detect, notText, notBytecode, ends, if_true, Bool.false_eq_true, if_false]

/-- Whether a name that was made from another one is a different one, and gives away the form of
the file whatever that holds. -/
structure Marks (form : SourceFormat) (name derived : String) : Prop where
  different : derived ≠ name
  detected : forall contents, SourceChoice.auto.detect derived contents = form

theorem append_ne_self {more : String} (some : more.toList ≠ []) : name ++ more ≠ name := by
  intro same
  have letters := congrArg String.toList same
  rw [String.toList_append] at letters
  exact some (List.append_right_eq_self.mp letters)

/-- An ending is completed by a letter where the ending of panes is there, and added otherwise. -/
theorem marks_derived {form : SourceFormat} {letter : String} (some : letter.toList ≠ [])
    (longer : ending.toList = textEnding.toList ++ letter.toList)
    (detects : forall {derived : String}, endsWith derived ending = true ->
      forall contents, SourceChoice.auto.detect derived contents = form) (name : String) :
    Marks form name (if endsWith name textEnding then name ++ letter else name ++ ending) := by
  split
  next ends =>
    refine ⟨append_ne_self some, detects ?_⟩
    obtain ⟨stem, whole⟩ := endsWith_iff.mp ends
    refine endsWith_iff.mpr ⟨stem, ?_⟩
    rw [longer, String.toList_append, ← whole, List.append_assoc]
  · refine ⟨append_ne_self ?_, detects ?_⟩
    · rw [longer]
      exact List.append_ne_nil_of_right_ne_nil _ some
    · exact endsWith_iff.mpr ⟨name.toList, (String.toList_append ..).symm⟩

theorem marks_bytecode (name : String) : Marks .bytecode name (bytecode name) :=
  marks_derived (by decide) rfl detect_of_bytecodeEnding name

theorem marks_asm (name : String) : Marks .asm name (asm name) :=
  marks_derived (by decide) rfl detect_of_asmEnding name

end FileName

namespace Settings

variable {request : Request} {defaults : Defaults} {environment : Environment}
  {settings : Settings}

/-- A dash is no file. -/
theorem ne_dash_of_inputOf {name : String} (found : inputOf request = .ok (.file name)) :
    name ≠ "-" := by
  intro dash
  subst dash
  unfold inputOf at found
  split at found <;> simp_all

/-- The names in the settings are those made from the name of the input. -/
theorem names_of_merge (merged : merge request defaults environment = .ok settings) :
    inputOf request = .ok settings.input ∧
      settings.output = outputOf request settings.target settings.input.name ∧
      settings.companion = companionOf request settings.target settings.input.name := by
  unfold merge at merged
  rcases found : inputOf request with fault | input
  · rw [found] at merged
    cases merged
  rcases leveled : levelOf request defaults with fault | level
  · rw [found, leveled] at merged
    cases merged
  rcases limited : warningLimitOf request defaults environment with fault | limit
  · rw [found, leveled, limited] at merged
    cases merged
  rcases represented : representationOf request defaults environment with fault | representation
  · rw [found, leveled, limited, represented] at merged
    cases merged
  · rw [found, leveled, limited, represented] at merged
    cases merged
    exact ⟨rfl, rfl, rfl⟩

/-- A request that names no output leaves the name to the target and the input. -/
theorem outputOf_of_unnamed {name : String} (file : name ≠ "-")
    (unnamed : request.output.getD "" = "") (target : Target) :
    outputOf request target name =
      match target with
      | .run => "-"
      | .bytecode => FileName.bytecode name
      | .asm | .asmComment => FileName.asm name := by
  unfold outputOf
  cases output : request.output with
  | none => cases target <;> simp [file]
  | some output =>
      rw [output] at unnamed
      cases unnamed
      cases target <;> simp [file]

/-- Whether the names that settings choose for files derived from a file give away their forms: that
of the companion, which a run leaves unless it is told not to or runs byte records, and that of the
output where the request names none. -/
structure NamesMark (request : Request) (settings : Settings) (name : String) : Prop where
  accompanied : settings.target = .run -> request.noCompanion = false ->
    FileName.endsWith name FileName.bytecodeEnding = false -> settings.companion.isSome = true
  companion : forall companion, settings.companion = some companion ->
    FileName.Marks .bytecode name companion
  bytecode : request.output.getD "" = "" -> settings.target = .bytecode ->
    FileName.Marks .bytecode name settings.output
  asm : request.output.getD "" = "" -> settings.target = .asm ∨ settings.target = .asmComment ->
    FileName.Marks .asm name settings.output

theorem namesMark_of_merge {name : String}
    (merged : merge request defaults environment = .ok settings)
    (input : settings.input = .file name) : NamesMark request settings name := by
  obtain ⟨found, output, companion⟩ := names_of_merge merged
  rw [input] at found output companion
  have file := ne_dash_of_inputOf found
  refine ⟨?_, ?_, ?_, ?_⟩
  · intro runs wanted unstored
    rw [ProgramInput.name] at companion
    rw [companion, companionOf, if_pos ⟨runs, by simp [wanted], file, by simpa using unstored⟩]
    rfl
  · intro chosen choice
    rw [companion] at choice
    unfold companionOf at choice
    split at choice
    · cases choice
      exact FileName.marks_bytecode name
    · cases choice
  · intro unnamed stores
    rw [output, stores, ProgramInput.name, outputOf_of_unnamed file unnamed]
    exact FileName.marks_bytecode name
  · intro unnamed lists
    rw [output, ProgramInput.name, outputOf_of_unnamed file unnamed]
    rcases lists with lists | lists
    · rw [lists]
      exact FileName.marks_asm name
    · rw [lists]
      exact FileName.marks_asm name

/-- Where no form is chosen, what the tools write is recognised and a text is never mistaken.  Under
a name without a known ending a text is a text.  A stored program is one under any name but those
of texts and listings, whatever follows it.  The names that are chosen for derived files of a file
give away their forms, whatever the files hold, and are never the name of the file itself. -/
theorem detect_recognizes :
    (forall (name : String) (text : List Char),
        FileName.endsWith name FileName.textEnding = false ->
        FileName.endsWith name FileName.bytecodeEnding = false ->
        FileName.endsWith name FileName.asmEnding = false ->
        SourceChoice.auto.detect name (Utf8.encode text) = .text) ∧
      (forall (program : Program) (bytes tail : List UInt8) (name : String),
        Records.encode program = .ok bytes ->
        FileName.endsWith name FileName.textEnding = false ->
        FileName.endsWith name FileName.asmEnding = false ->
        SourceChoice.auto.detect name (bytes ++ tail) = .bytecode) ∧
      forall (request : Request) (defaults : Defaults) (environment : Environment)
        (settings : Settings) (name : String),
        merge request defaults environment = .ok settings -> settings.input = .file name ->
        NamesMark request settings name := by
  refine ⟨?_, ?_, ?_⟩
  · intro name text notText notBytecode notAsm
    simp only [SourceChoice.detect, notText, notBytecode, notAsm, Records.hasTerminator_text,
      Bool.false_eq_true, if_false]
  · intro program bytes tail name written notText notAsm
    simp only [SourceChoice.detect, notText, notAsm, Records.hasTerminator_of_encode written,
      Bool.false_eq_true, if_false, if_true, ite_self]
  · intro request defaults environment settings name merged input
    exact namesMark_of_merge merged input

/-- A pane under another name, a stored jump with a line behind it, and the companion of a pane. -/
theorem detect_recognizes_pane :
    SourceChoice.auto.detect "pane.txt" (Utf8.encode ['희']) = .text ∧
      SourceChoice.auto.detect "pane.bin" ([0, 0, 0, 0xFF, 0xFF, 0xFF, 0xFF, 0xFF] ++ [0x0A]) =
        .bytecode ∧
      exists settings, merge { file := some "pane.aheui" } {} (fun _ => none) = .ok settings ∧
        settings.input = .file "pane.aheui" ∧ settings.companion = some "pane.aheuic" ∧
        SourceChoice.auto.detect "pane.aheuic" [] = .bytecode := by
  obtain ⟨texts, programs, names⟩ := detect_recognizes
  have written : Records.encode
      { code := #[.jmp 0], labels := Table.empty.insert 0 0, comments := none } =
      .ok [0, 0, 0, 0xFF, 0xFF, 0xFF, 0xFF, 0xFF] := rfl
  refine ⟨texts _ ['희'] (by decide) (by decide) (by decide),
    programs _ _ [0x0A] "pane.bin" written (by decide) (by decide), _, rfl, rfl, by decide, ?_⟩
  have marks := names { file := some "pane.aheui" } {} (fun _ => none) _ "pane.aheui" rfl rfl
  exact (marks.companion "pane.aheuic" (by decide)).detected []

end Settings
end HangulPane
