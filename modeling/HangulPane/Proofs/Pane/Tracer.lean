import HangulPane.Proofs.Pane.Trace

namespace HangulPane

/-!
Tracing a pane, deed by deed.

A tracer follows one path at a time.  At each cell that was not traced before it writes the
code of the cell, at a cell that was it closes the path with a jump, and between two paths it
takes up the next one that was left for later.  The deeds are kept in order, so that what was
done can be told from what is there in the end.  A path from a cell always meets a cell, so
no path is ever given up.
-/

/-- What is done in one step of tracing. -/
inductive Deed where
  /-- A path left for later is taken up; its label is bound to the index. -/
  | takeUp (path : PendingPath) (index : Nat)
  /-- The code of the cell under a cursor is written from the index on; the label is that of
  the underflow path, if there is one. -/
  | write (cursor : Cursor) (index label : Nat)
  /-- The path is closed with a jump; its label is bound to the target, where the code of the
  cursor starts. -/
  | close (cursor : Cursor) (label target : Nat)
  /-- The path is given up because it meets no cell. -/
  | lose
  deriving DecidableEq, Repr

/-- A tracing at work. -/
structure Tracer where
  tracing : Tracing
  /-- Where the path that is being followed has got to, if one is. -/
  cursor : Option Cursor

/-- The cursor after the cell it stands on, unless the cell is a halt. -/
def Pane.onward? (pane : Pane) (cursor : Cursor) : Option Cursor :=
  if (pane.cellAt cursor.position).operation = .halt then none else some (pane.leaving cursor)

namespace Tracer

/-- The tracer before its first deed: it follows the path from the origin, if there is a cell
at all. -/
def start (pane : Pane) : Tracer where
  tracing := Tracing.start pane
  cursor := if pane.isEmpty then none else some Pane.origin

/-- Whether there is nothing left to do. -/
structure Finished (tracer : Tracer) : Prop where
  cursor : tracer.cursor = none
  pending : tracer.tracing.pending = []

/-- The deeds of a tracer, each with the tracer before and after it. -/
inductive Step (pane : Pane) : Tracer -> Deed -> Tracer -> Prop where
  | takeUp {tracing : Tracing} {path : PendingPath} {later : List PendingPath}
      (queued : tracing.pending = path :: later) :
      Step pane ⟨tracing, none⟩ (.takeUp path tracing.code.size)
        ⟨tracing.takeUp path later, some path.cursor⟩
  | write {tracing : Tracing} {cursor arrived : Cursor}
      (arrives : pane.arrival? cursor = some arrived)
      (inside : pane.cursorNumber (pane.tracedAt arrived) < tracing.landings.size)
      (fresh : tracing.landings[pane.cursorNumber (pane.tracedAt arrived)] = none) :
      Step pane ⟨tracing, some cursor⟩
        (.write (pane.tracedAt arrived) tracing.code.size tracing.nextLabel)
        ⟨tracing.emitAt pane arrived inside, pane.onward? arrived⟩
  | close {tracing : Tracing} {cursor arrived : Cursor} {landing : Landing}
      (arrives : pane.arrival? cursor = some arrived)
      (landed : tracing.Landed pane (pane.tracedAt arrived) landing) :
      Step pane ⟨tracing, some cursor⟩
        (.close (pane.tracedAt arrived) tracing.nextLabel landing.entry)
        ⟨tracing.closeWithJump landing, none⟩
  | lose {tracing : Tracing} {cursor : Cursor} (lost : pane.arrival? cursor = none) :
      Step pane ⟨tracing, some cursor⟩ .lose ⟨tracing, none⟩

/-- The deeds by which a tracer gets from the start to where it is. -/
inductive Performs (pane : Pane) : List Deed -> Tracer -> Prop where
  | start : Performs pane [] (start pane)
  | step {deeds : List Deed} {deed : Deed} {tracer next : Tracer}
      (before : Performs pane deeds tracer) (step : Step pane tracer deed next) :
      Performs pane (deeds ++ [deed]) next

variable {pane : Pane} {deeds : List Deed} {deed : Deed} {tracer next : Tracer}

theorem contains_of_arrival? {cursor arrived : Cursor}
    (arrives : pane.arrival? cursor = some arrived) :
    pane.contains arrived.position = true := by
  rcases Option.map_eq_some_iff.mp arrives with ⟨position, found, rfl⟩
  exact Pane.contains_of_firstCell? found

/-- What holds of a tracer at all times: its tracing is orderly, and the path that it follows
leads to a cell. -/
structure OnCourse (pane : Pane) (tracer : Tracer) : Prop where
  orderly : tracer.tracing.Orderly pane
  travels : forall cursor, tracer.cursor = some cursor ->
    ∃ arrived, pane.arrival? cursor = some arrived

theorem onCourse_start (pane : Pane) : (start pane).OnCourse pane where
  orderly := Tracing.orderly_start pane
  travels := by
    intro cursor follows
    unfold start at follows
    split at follows
    · cases follows
    · rename_i nonempty
      cases follows
      exact Pane.exists_arrival?_of_nextCell?
        (Pane.exists_nextCell? _ (Pane.onLine_origin (by simpa using nonempty)))

theorem OnCourse.step (course : tracer.OnCourse pane) (step : Step pane tracer deed next) :
    next.OnCourse pane := by
  cases step with
  | @takeUp tracing path later queued =>
      have first : path ∈ tracing.pending := queued ▸ List.mem_cons_self
      refine ⟨course.orderly.takeUp queued, ?_⟩
      rintro cursor ⟨⟩
      exact (course.orderly.queued path first).2.2
  | write arrives inside fresh =>
      have cell := contains_of_arrival? arrives
      refine ⟨course.orderly.emitAt cell, ?_⟩
      intro cursor follows
      dsimp only [Pane.onward?] at follows
      split at follows
      · cases follows
      · cases follows
        exact Pane.exists_arrival?_leaving cell
  | close arrives landed =>
      refine ⟨course.orderly.closeWithJump _, ?_⟩
      intro cursor follows
      cases follows
  | lose lost =>
      refine ⟨course.orderly, ?_⟩
      intro cursor follows
      cases follows

theorem Performs.onCourse (performs : Performs pane deeds tracer) : tracer.OnCourse pane := by
  induction performs with
  | start => exact onCourse_start pane
  | step _ step inductionHypothesis => exact inductionHypothesis.step step

theorem OnCourse.ne_lose (course : tracer.OnCourse pane) (step : Step pane tracer deed next) :
    deed ≠ .lose := by
  cases step with
  | takeUp _ | write _ _ _ | close _ _ => exact Deed.noConfusion
  | lose lost =>
      rcases course.travels _ rfl with ⟨arrived, arrives⟩
      rw [lost] at arrives
      cases arrives

/-- No path is given up. -/
theorem Performs.lose_not_mem (performs : Performs pane deeds tracer) : .lose ∉ deeds := by
  induction performs with
  | start => exact List.not_mem_nil
  | step before step inductionHypothesis =>
      intro member
      rcases List.mem_append.mp member with earlier | last
      · exact inductionHypothesis earlier
      · exact before.onCourse.ne_lose step (List.mem_singleton.mp last).symm

theorem OnCourse.cursorNumber_lt (course : tracer.OnCourse pane) {cursor arrived : Cursor}
    (arrives : pane.arrival? cursor = some arrived) :
    pane.cursorNumber (pane.tracedAt arrived) < tracer.tracing.landings.size := by
  rw [course.orderly.full]
  apply Pane.cursorNumber_lt
  rw [Pane.position_tracedAt]
  exact contains_of_arrival? arrives

/-- A tracer that is not finished has something to do. -/
theorem OnCourse.exists_step (course : tracer.OnCourse pane) (unfinished : ¬tracer.Finished) :
    ∃ deed next, Step pane tracer deed next := by
  obtain ⟨tracing, cursor⟩ := tracer
  cases cursor with
  | none =>
      cases queued : tracing.pending with
      | nil => exact absurd ⟨rfl, queued⟩ unfinished
      | cons path later => exact ⟨_, _, .takeUp queued⟩
  | some cursor =>
      rcases course.travels cursor rfl with ⟨arrived, arrives⟩
      have inside := course.cursorNumber_lt arrives
      cases known : tracing.landings[pane.cursorNumber (pane.tracedAt arrived)] with
      | none => exact ⟨_, _, .write arrives inside known⟩
      | some landing =>
          have landed : tracing.Landed pane (pane.tracedAt arrived) landing :=
            (Array.getElem?_eq_getElem inside).trans (congrArg some known)
          exact ⟨_, _, .close arrives landed⟩

/-- A tracer that follows a path traces it to its end. -/
theorem exists_performs_trace (tracing : Tracing) (cursor : Cursor) : forall deeds,
    Performs pane deeds ⟨tracing, some cursor⟩ ->
      ∃ more, Performs pane (deeds ++ more) ⟨Tracing.trace pane tracing cursor, none⟩ := by
  fun_induction Tracing.trace pane tracing cursor with
  | case1 tracing cursor missing =>
      intro deeds performs
      have lost : pane.arrival? cursor = none := by simp [Pane.arrival?, missing]
      exact ⟨[.lose], performs.step (.lose lost)⟩
  | case2 tracing cursor position found cell traced inside landing known =>
      intro deeds performs
      have landed : tracing.Landed pane (pane.tracedAt { cursor with position }) landing :=
        (Array.getElem?_eq_getElem inside).trans (congrArg some known)
      exact ⟨_, performs.step (.close (Tracing.arrival?_of_nextCell? found) landed)⟩
  | case3 tracing cursor position found cell traced inside fresh leaving emitted halts =>
      intro deeds performs
      have written := performs.step
        (.write (Tracing.arrival?_of_nextCell? found) inside fresh)
      have ended : pane.onward? { cursor with position } = none := if_pos halts
      rw [ended] at written
      exact ⟨_, written⟩
  | case4 tracing cursor position found cell traced inside fresh leaving emitted running _
      inductionHypothesis =>
      intro deeds performs
      have written := performs.step
        (.write (Tracing.arrival?_of_nextCell? found) inside fresh)
      have onward : pane.onward? { cursor with position } =
          some (pane.leaving { cursor with position }) := if_neg running
      rw [onward] at written
      rcases inductionHypothesis _ written with ⟨more, done⟩
      rw [List.append_assoc] at done
      exact ⟨_, done⟩
  | case5 tracing cursor position found cell traced outside =>
      intro deeds performs
      exact absurd (performs.onCourse.cursorNumber_lt (Tracing.arrival?_of_nextCell? found)) outside

/-- A tracer between two paths takes up those that are left, in order, until none is. -/
theorem exists_performs_drain (tracing : Tracing) : forall deeds,
    Performs pane deeds ⟨tracing, none⟩ ->
      ∃ more, Performs pane (deeds ++ more) ⟨Tracing.drain pane tracing, none⟩ ∧
        (Tracing.drain pane tracing).pending = [] := by
  fun_induction Tracing.drain pane tracing with
  | case1 tracing queued =>
      intro deeds performs
      refine ⟨[], ?_, queued⟩
      rw [List.append_nil]
      exact performs
  | case2 tracing path later queued inductionHypothesis =>
      intro deeds performs
      rcases exists_performs_trace _ _ _ (performs.step (.takeUp queued)) with ⟨followed, traced⟩
      rcases inductionHypothesis _ traced with ⟨more, done, empty⟩
      rw [List.append_assoc, List.append_assoc] at done
      exact ⟨_, done, empty⟩

/-- The program of a pane is what a tracer has written when it is finished. -/
theorem exists_performs_toProgram (pane : Pane) (withComments : Bool) :
    ∃ deeds tracer, Performs pane deeds tracer ∧ tracer.Finished ∧
      (pane.toProgram withComments).code = tracer.tracing.code ∧
      (pane.toProgram withComments).labels = tracer.tracing.labels := by
  cases empty : pane.isEmpty with
  | true =>
      refine ⟨[], start pane, .start, ⟨if_pos empty, rfl⟩, ?_⟩
      unfold Pane.toProgram
      rw [if_pos empty]
      exact ⟨rfl, rfl⟩
  | false =>
      have first : Performs pane [] ⟨Tracing.start pane, some Pane.origin⟩ := by
        have first : Performs pane [] (Tracer.start pane) := .start
        rw [Tracer.start, empty] at first
        exact first
      rcases exists_performs_trace _ _ _ first with ⟨followed, traced⟩
      rcases exists_performs_drain _ _ traced with ⟨more, done, complete⟩
      refine ⟨_, _, done, ⟨rfl, complete⟩, ?_⟩
      unfold Pane.toProgram
      rw [if_neg (by simp [empty])]
      exact ⟨rfl, rfl⟩

end Tracer
end HangulPane
