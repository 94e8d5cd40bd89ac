import TurbopackWasi.Napi.Abort

/-!
# TurbopackWasi.Napi.Aborted

**What the promise of a task comes to.** At every moment it is clear what the promise would be
settled with if nobody aborted any more (`State.due`), and no step but an abort changes how it
then ends. An abort rejects it, once the work has been queued.
-/

namespace TurbopackWasi.Napi.AsyncWork

open Lib

variable {O J F V : Type} {t : Task O J F V} {s s' : State O J F V}

/-! ### What is due -/

/-- What the promise is still to be settled with, as long as nobody aborts. -/
def State.due (t : Task O J F V) (s : State O J F V) : Option (Except V V) :=
  match s.stage with
  -- the look at the status is over
  | .converting _ => t.verdict
  | .finishing | .deleted => none
  | _ => if s.status = .canceled then none else t.verdict

/-- How the promise ends, as far as it is known. -/
def State.prospect (t : Task O J F V) (s : State O J F V) : Lib.Promise V V :=
  s.promise.settle (.ofOutcome (s.due t))

theorem prospect_of_none (h : s.due t = none) : s.prospect t = s.promise := by
  unfold State.prospect
  rw [h]
  cases s.promise <;> rfl

theorem prospect_takes {a : Act} (hI : Inv t s) (ht : Takes t s a s') (ha : a ≠ .abort) :
    s'.prospect t = s.prospect t := by
  cases ht with
  | run hstage | start hstage | execute hstage => simp [State.prospect, State.due, hstage]
  | @complete cancelled hstage =>
      unfold State.complete
      split <;> simp [State.prospect, State.due, hstage]
  | @check cancelled r hstage =>
      unfold State.check
      split
      · rename_i r' hc
        obtain ⟨rfl, hnot⟩ : cancelled = false ∧ s.status ≠ .canceled := by simpa using hc
        obtain rfl := Option.some.inj (hI.answered _ hstage)
        simp [State.prospect, State.due, hstage, hnot]
      · rename_i r _ _ hleft
        have hcanceled : s.status = .canceled := by
          by_contra hnot
          cases cancelled with
          | true => exact hnot (hI.garbage r hstage).2
          | false => exact hleft t.answer (by simpa using hnot) (hI.answered r hstage)
        simp [State.prospect, State.due, hstage, hcanceled]
  | @settle c hstage =>
      obtain rfl := hI.converted c hstage
      have hdue : s.due t = t.verdict := by simp [State.due, hstage]
      rw [settle_eq, ← Task.verdict, prospect_of_none]
      · cases hverdict : t.verdict with
        | none => exact (prospect_of_none (hdue.trans hverdict)).symm
        | some y => simp [State.prospect, State.conclude, hdue, hverdict]
      · cases t.verdict <;> rfl
  | delete hstage => simp [State.prospect, State.due, hstage]
  | abort => exact absurd rfl ha

theorem prospect_replay {as : List Act} {u : State O J F V} (hI : Inv t s) (hno : .abort ∉ as)
    (hrun : (asyncTask t).replay s as = some u) : u.prospect t = s.prospect t := by
  induction as generalizing s with
  | nil =>
      obtain rfl : s = u := by simpa using hrun
      rfl
  | cons a as ih =>
      obtain ⟨m, hm, hrest⟩ := (Machine.replay_cons _).mp hrun
      have ht := takes_of_next hm
      rw [List.mem_cons, not_or] at hno
      rw [ih (inv_takes hI ht) hno.2 hrest, prospect_takes hI ht (Ne.symm hno.1)]

theorem prospect_of_deleted (h : s.stage = .deleted) : s.prospect t = s.promise :=
  prospect_of_none (by simp [State.due, h])

/-! ### The end of the task -/

/-- The steps that are left. -/
def Stage.rank : Stage J F V → Nat
  | .called => 7
  | .queued => 6
  | .running => 5
  | .executed _ => 4
  | .resolving _ _ => 3
  | .converting _ => 2
  | .finishing => 1
  | .deleted => 0

/-- There is a next step until the end, and it is no abort. -/
theorem moves (t : Task O J F V) (h : s.stage ≠ .deleted) :
    ∃ a s', a ≠ .abort ∧ (asyncTask t).next s a = some s' ∧ s'.stage.rank < s.stage.rank := by
  cases hstage : s.stage with
  | called =>
      exact ⟨.run, { s with stage := .queued }, by simp, by simp [asyncTask, next, hstage],
        by simp [Stage.rank]⟩
  | queued =>
      exact ⟨.start, { s with stage := .running }, by simp, by simp [asyncTask, next, hstage],
        by simp [Stage.rank]⟩
  | running =>
      exact ⟨.execute, { s with stage := .executed false, value := some t.compute }, by simp,
        by simp [asyncTask, next, hstage], by simp [Stage.rank]⟩
  | executed cancelled =>
      refine ⟨.complete, s.complete t cancelled, by simp, by simp [asyncTask, next, hstage], ?_⟩
      unfold State.complete
      split <;> simp [Stage.rank]
  | resolving cancelled r =>
      refine ⟨.check, s.check t cancelled r, by simp, by simp [asyncTask, next, hstage], ?_⟩
      unfold State.check
      split <;> simp [Stage.rank]
  | converting c =>
      refine ⟨.settle, s.settle t c, by simp, by simp [asyncTask, next, hstage], ?_⟩
      rw [settle_eq]
      cases t.judge c <;> simp [State.conclude, Stage.rank]
  | finishing =>
      exact ⟨.delete, { s with stage := .deleted, status := .completed }, by simp,
        by simp [asyncTask, next, hstage], by simp [Stage.rank]⟩
  | deleted => exact absurd hstage h

theorem ends_of_rank (t : Task O J F V) (n : Nat) (hn : s.stage.rank ≤ n) :
    ∃ as u, .abort ∉ as ∧ (asyncTask t).replay s as = some u ∧ u.stage = .deleted := by
  induction n generalizing s with
  | zero =>
      refine ⟨[], s, by simp, rfl, ?_⟩
      cases hstage : s.stage <;> simp [hstage, Stage.rank] at hn ⊢
  | succ n ih =>
      by_cases hdeleted : s.stage = .deleted
      · exact ⟨[], s, by simp, rfl, hdeleted⟩
      · obtain ⟨a, m, ha, hm, hless⟩ := moves t hdeleted
        obtain ⟨as, u, hno, hrun, hend⟩ := ih (s := m) (by omega)
        exact ⟨a :: as, u, by simp [Ne.symm ha, hno], (Machine.replay_cons _).mpr ⟨m, hm, hrun⟩,
          hend⟩

/-- **What the promise comes to** when nobody aborts any more. The task can always come to its
end, and the promise is then settled with what was due: with the verdict of the task, unless it
was aborted before. -/
theorem comes_to (h : (asyncTask t).Reachable s) :
    (∃ as u, .abort ∉ as ∧ (asyncTask t).replay s as = some u ∧ u.stage = .deleted) ∧
      ∀ as u, .abort ∉ as → (asyncTask t).replay s as = some u → u.stage = .deleted →
        u.promise = s.promise.settle (.ofOutcome (s.due t)) := by
  refine ⟨ends_of_rank t _ (Nat.le_refl _), fun as u hno hrun hend => ?_⟩
  rw [← prospect_of_deleted hend (t := t)]
  exact prospect_replay (inv_reachable h) hno hrun

/-- Nobody aborts. -/
theorem comes_to_square :
    ∃ u, (asyncTask square).replay .init [.run, .start, .execute, .complete, .check, .settle,
      .delete] = some u ∧ u.promise = .fulfilled 49 := by
  have hrun : ∃ u, (asyncTask square).replay .init [.run, .start, .execute, .complete, .check,
      .settle, .delete] = some u ∧ u.stage = .deleted := ⟨_, rfl, rfl⟩
  obtain ⟨u, hu, hend⟩ := hrun
  exact ⟨u, hu, (comes_to (.start rfl)).2 _ u (by decide) hu hend⟩

/-- **What an abort comes to**, once the work has been queued: after the end it changes nothing,
and at any other time it rejects the promise, unless this has settled already. -/
theorem comes_to_abort (h : (asyncTask t).Reachable s) (hqueued : s.stage ≠ .called)
    {as : List Act} {u : State O J F V} (hno : .abort ∉ as)
    (hrun : (asyncTask t).replay s (.abort :: as) = some u) (hend : u.stage = .deleted) :
    u.promise =
      match s.stage with
      | .deleted => s.promise
      | _ => s.promise.settle (.rejected t.abortError) := by
  have hI := inv_reachable h
  obtain ⟨m, hm, hrest⟩ := (Machine.replay_cons _).mp hrun
  obtain rfl : s.onAbort t = m := Option.some.inj hm
  have ha := aborts t s
  have hprospect := prospect_replay (hI.abort ha) hno hrest
  rw [prospect_of_deleted hend] at hprospect
  rw [hprospect]
  generalize s.onAbort t = m at ha
  cases ha with
  | late hstatus =>
      have hstage := hI.status.mp hstatus
      simp [prospect_of_deleted hstage, hstage]
  | early hstatus hstage => exact absurd hstage hqueued
  | cancels hstage =>
      rw [prospect_of_none (by simp [State.due, State.conclude])]
      simp [State.conclude, hstage]
  | rejects hstatus hcalled hqueued =>
      split
      · exact absurd (hI.status.mpr ‹_›) hstatus
      · exact Lib.Promise.settle_eq_self (settle_rejected _) _

/-- An abort while the work is done. -/
theorem comes_to_abort_running :
    ∃ u, (asyncTask square).replay .init [.run, .start, .abort, .execute, .complete, .check,
      .delete] = some u ∧ u.promise = .rejected 2 := by
  have hrun : ∃ s u, (asyncTask square).replay .init [.run, .start] = some s ∧
      (asyncTask square).replay s [.abort, .execute, .complete, .check, .delete] = some u ∧
      (asyncTask square).replay .init [.run, .start, .abort, .execute, .complete, .check,
        .delete] = some u ∧ s.stage = .running ∧ s.promise = .pending ∧ u.stage = .deleted :=
    ⟨_, _, rfl, rfl, rfl, rfl, rfl, rfl⟩
  obtain ⟨s, u, hs, hu, hall, hrunning, hpending, hend⟩ := hrun
  have hreach : (asyncTask square).Reachable s := Machine.Reachable.replay _ (.start rfl) hs
  have hcomes := comes_to_abort hreach (by simp [hrunning]) (by decide) hu hend
  rw [hrunning, hpending] at hcomes
  exact ⟨u, hall, hcomes⟩

end TurbopackWasi.Napi.AsyncWork
