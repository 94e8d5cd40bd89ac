import TurbopackWasi.Napi.Verdict

/-!
# TurbopackWasi.Napi.Outlived

**Async functions that outlive their environment.** A `JsDeferred` does not learn that the
engine has deleted its threadsafe function. `outlived_iff` says from which states a call about
the deleted function can come: from all those in which a task still has a call to make.
-/

namespace TurbopackWasi.Napi.Deferred

open Lib

variable {T V : Type} {x : Export T V} {s s' m : State T V} {r : Except (Error V) T} {t : Task}

@[simp] theorem resolveDeferred_stage (s : State T V) (i : Nat) (t : Task) :
    (s.resolveDeferred x i).stage t = s.stage t := by
  unfold State.resolveDeferred
  split
  · rfl
  · dsimp only
    split <;> rfl

/-- A task will still call the engine. -/
inductive Owing (s : State T V) : Prop
  | future : s.stage .inner = .waiting → Owing s
  | panic {p : Payload} : s.stage .handler = .waiting → s.stage .inner = .panicked p → Owing s
  | call {t : Task} {r : Except (Error V) T} : s.stage t = .calling r → Owing s
  | release {t : Task} : s.stage t = .releasing → Owing s

theorem Owing.congr (h : Owing s') (hstage : ∀ t, s'.stage t = s.stage t) : Owing s := by
  cases h with
  | future hw => exact .future (hstage _ ▸ hw)
  | panic hw hp => exact .panic (hstage _ ▸ hw) (hstage _ ▸ hp)
  | call hc => exact .call (hstage _ ▸ hc)
  | release hr => exact .release (hstage _ ▸ hr)

/-- Nobody has called the engine too late, and nobody will. -/
def Quiet (s : State T V) : Prop := ¬Tsfn.Faulted s.engine ∧ ¬Owing s

theorem quiet_takes {a : Act T V} (hq : Quiet s) (ht : Takes x s a s') : Quiet s' := by
  obtain ⟨hfaulted, howing⟩ := hq
  cases ht with
  | finish hw => exact absurd (.future hw) howing
  | report hw hp => exact absurd (.panic hw hp) howing
  | call hc => exact absurd (.call hc) howing
  | release hr => exact absurd (.release hr) howing
  | idle hw hd =>
      refine ⟨hfaulted, fun h => ?_⟩
      have hinner : ({ s with handler := .done } : State T V).stage .inner = .done := hd
      cases h with
      | future h => rw [hinner] at h; cases h
      | panic h _ => cases h
      | @call t r h => cases t <;> simp [State.stage, hd] at h
      | @release t h => cases t <;> simp [State.stage, hd] at h
  | @cancel t hphase hw =>
      cases t with
      | inner => exact absurd (.future hw) howing
      | handler =>
          refine ⟨by simpa using hfaulted, fun h => howing ?_⟩
          cases h with
          | future h => exact .future h
          | panic h _ => cases h
          | @call t r h =>
              cases t with
              | inner => exact .call (t := .inner) h
              | handler => cases h
          | @release t h =>
              cases t with
              | inner => exact .release (t := .inner) h
              | handler => cases h
  | deliver =>
      refine ⟨?_, fun h => howing (h.congr fun t => ?_)⟩
      · rw [resolveDeferred_engine]
        exact hfaulted
      · rw [resolveDeferred_stage]
        cases t <;> rfl
  | close | delete => exact ⟨hfaulted, fun h => howing (h.congr fun t => by cases t <;> rfl)⟩

/-! ### Calls after the end -/

/-- Some run goes on to a call about the deleted function. -/
abbrev Faults (x : Export T V) : State T V → Prop :=
  (called x).CanReach fun t => Tsfn.Faulted t.engine

/-- The environment may end at any time. -/
theorem faults_of_deleted (hS : Sound x s)
    (h : ∀ m : State T V, (∀ t, m.stage t = s.stage t) → m.engine.phase = .deleted → Faults x m) :
    Faults x s := by
  have hstages : ∀ engine t, ({ s with engine } : State T V).stage t = s.stage t :=
    fun _ t => by cases t <;> rfl
  cases hphase : s.engine.phase with
  | running =>
      let e : Tsfn.State Nat := { s.engine with phase := .shut, closing := true }
      have hclose : (called x).next s .cleanup = some { s with engine := e } := by
        simp [called, next, Tsfn.next, hphase, e]
      have hdelete : (called x).next { s with engine := e } .finalize =
          some { s with engine := e.delete } := by
        simp [called, next, Tsfn.next, hS.handles, e]
      exact .step hclose (.step hdelete (h _ (hstages _) rfl))
  | shut =>
      have hdelete : (called x).next s .finalize = some { s with engine := s.engine.delete } := by
        simp [called, next, Tsfn.next, hphase, hS.handles]
      exact .step hdelete (h _ (hstages _) rfl)
  | finalizing => exact absurd hphase hS.finalizing
  | deleted => exact h s (fun _ => rfl) hphase

theorem faults_of_calling (hdeleted : m.engine.phase = .deleted) (h : m.stage t = .calling r) :
    Faults x m := by
  have hn : (called x).next m (.run t) = some (m.call x t r) := by simp [called, next, h]
  exact .step hn (.now (by simp [State.call, Tsfn.faulted_napi, hdeleted]))

theorem faults_of_releasing (hdeleted : m.engine.phase = .deleted) (h : m.stage t = .releasing) :
    Faults x m := by
  have hn : (called x).next m (.run t) = some (m.release x t) := by simp [called, next, h]
  exact .step hn (.now (by simp [State.release, Tsfn.faulted_napi, hdeleted]))

/-- **Use after the end.** From a state that is reached, a call about the deleted function can come
exactly if one has come already, or a task still has a call to make: any call of the exported
function that is in flight will do, if the environment ends now. -/
theorem outlived_iff (h : (called x).Reachable s) :
    (called x).CanReach (fun t => Tsfn.Faulted t.engine) s ↔ Tsfn.Faulted s.engine ∨ Owing s := by
  have hS := sound_reachable h
  constructor
  · intro hreach
    by_contra hnot
    rw [not_or] at hnot
    refine Machine.not_canReach (M := called x) (I := fun s => Sound x s ∧ Quiet s)
      (fun hI hn => ?_) (fun hI => hI.2.1) ⟨hS, hnot⟩ hreach
    exact ⟨sound_next hI.1 hn, quiet_takes hI.2 (takes_of_next hI.1.handles hn)⟩
  · rintro (hfaulted | howing)
    · exact .now hfaulted
    · refine faults_of_deleted hS fun m hstages hdeleted => ?_
      cases howing with
      | future hw =>
          let o : Outcome T V := .err ⟨"", "", none⟩
          have hinner : m.inner = .waiting := (hstages .inner).trans hw
          have hn : (called x).next m (.finish o) =
              some { m with inner := o.stage, ended := some o } := by
            simp [called, next, hinner]
          exact .step hn (faults_of_calling (t := .inner) hdeleted rfl)
      | @panic p hw hp =>
          have hhandler : m.handler = .waiting := (hstages .handler).trans hw
          have hinner : m.inner = .panicked p := (hstages .inner).trans hp
          have hn : (called x).next m .await =
              some { m with handler := .calling (.error (ofPanic p)) } := by
            simp [called, next, hhandler, hinner]
          exact .step hn (faults_of_calling (t := .handler) hdeleted rfl)
      | call hc => exact faults_of_calling hdeleted ((hstages _).trans hc)
      | release hr => exact faults_of_releasing hdeleted ((hstages _).trans hr)

/-- The environment ends while the future runs. -/
theorem outlived_iff_running :
    ∃ s, (called echo).replay (.init echo) [.cleanup] = some s ∧
      (called echo).CanReach (fun t => Tsfn.Faulted t.engine) s := by
  have hrun : ∃ s, (called echo).replay (.init echo) [.cleanup] = some s ∧ s.inner = .waiting :=
    ⟨_, rfl, rfl⟩
  obtain ⟨s, hs, hw⟩ := hrun
  refine ⟨s, hs, (outlived_iff ?_).mpr (Or.inr (.future hw))⟩
  exact Machine.Reachable.replay _ (.start rfl) hs

end TurbopackWasi.Napi.Deferred
