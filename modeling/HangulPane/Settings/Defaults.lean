import HangulPane.Settings.Choices
import HangulPane.Settings.Document

namespace HangulPane

/-!
The defaults that a configuration document sets.  Keys that are not known, and
values of the wrong kind or out of range, make the whole document invalid.
-/

/-- Defaults for what the command line leaves open. -/
structure Defaults where
  /-- A byte; whether there is such a level shows later. -/
  level : Option Nat := none
  source : Option SourceChoice := none
  target : Option Target := none
  warningLimit : Option Int := none
  representation : Option Representation := none
  deriving DecidableEq, Repr

namespace Defaults

/-- The name that a value gives. -/
def nameOf? : Document.Value -> Option String
  | .text name => some name
  | .named name => some name
  | _ => none

/-- The defaults with one more key set. -/
def set (defaults : Defaults) (key : String) (value : Document.Value) : Option Defaults :=
  match key with
  | "opt" =>
      match value with
      | .integer level =>
          if 0 ≤ level ∧ level < 256 then some { defaults with level := some level.toNat }
          else none
      | _ => none
  | "warning_limit" =>
      match value with
      | .integer limit => some { defaults with warningLimit := some limit }
      | _ => none
  | "source" =>
      ((nameOf? value).bind SourceChoice.ofName?).map fun choice =>
        { defaults with source := some choice }
  | "target" =>
      ((nameOf? value).bind Target.ofName?).map fun choice =>
        { defaults with target := some choice }
  | "int" =>
      ((nameOf? value).bind Representation.ofName?).map fun choice =>
        { defaults with representation := some choice }
  | _ => none

/-- The defaults that a document sets, if it is valid. -/
def ofDocument? (text : List Char) : Option Defaults :=
  match Document.read? text with
  | none => none
  | some values =>
      values.foldlM (fun (defaults : Defaults) (entry : String × Document.Value) =>
        defaults.set entry.1 entry.2) {}

end Defaults
end HangulPane
