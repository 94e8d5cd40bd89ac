import Mathlib.Tactic.ByContra
import TurbopackWasi.Napi.AsyncWork

/-!
# TurbopackWasi.Napi.Abort

**When a task may be aborted.** An abort does harm before the work is queued, since there is no
deferred yet; while it is queued, since `resolve` then gets an output that was never written;
and wherever the promise has been or will be settled besides, since the deferred is freed by the
first call (`harmless_iff`).
-/

namespace TurbopackWasi.Napi.AsyncWork

open Lib

variable {O J F V : Type} {t : Task O J F V} {s s' : State O J F V}

/-! ### What holds at each stage -/

structure Inv (t : Task O J F V) (s : State O J F V) : Prop where
  status : s.status = .completed ↔ s.stage = .deleted
  pending : s.concluded = 0 ↔ s.promise = .pending
  fresh : s.status = .notStarted → s.stage ≠ .finishing → s.concluded = 0
  early : s.stage = .called ∨ s.stage = .queued → s.concluded = 0
  unwritten : s.stage = .called ∨ s.stage = .queued ∨ s.stage = .running ∨
    s.stage = .executed true → s.value = none
  written : s.stage = .executed false → s.value = some t.compute
  cancelled : s.stage = .executed true → s.status = .canceled
  garbage : ∀ r, s.stage = .resolving true r → s.garbage = true ∧ s.status = .canceled
  answered : ∀ r, s.stage = .resolving false r → r = some t.answer
  converted : ∀ c, s.stage = .converting c → c = t.convert t.answer

theorem inv_init : Inv t .init := by
  constructor <;> simp [State.init]

theorem settle_ne_pending {p : Lib.Promise V V} (y : Except V V) :
    p.settle (.ofOutcome (some y)) ≠ .pending := by
  cases p <;> cases y <;> simp [Lib.Promise.settle, Lib.Promise.ofOutcome]

theorem settle_rejected {p : Lib.Promise V V} (e : V) : p.settle (.rejected e) ≠ .pending :=
  settle_ne_pending (.error e)

theorem Inv.abort (hI : Inv t s) (ha : Aborts t s s') : Inv t s' := by
  cases ha with
  | late => exact hI
  | early hstatus hstage =>
      have hzero := hI.early (Or.inl hstage)
      have hvalue := hI.unwritten (Or.inl hstage)
      constructor <;> simp [hstage, hzero, hvalue, ← hI.pending]
  | cancels hstage =>
      have hvalue := hI.unwritten (Or.inr (Or.inl hstage))
      constructor <;> simp [State.conclude, settle_rejected, hvalue]
  | rejects hstatus hcalled hqueued =>
      have hdeleted : s.stage ≠ .deleted := fun h => hstatus (hI.status.mpr h)
      exact ⟨by simp [State.conclude, hdeleted], by simp [State.conclude, settle_rejected],
        by simp [State.conclude], by simp [State.conclude, hcalled, hqueued], hI.unwritten,
        hI.written, fun _ => rfl, fun r hr => ⟨(hI.garbage r hr).1, rfl⟩, hI.answered,
        hI.converted⟩

theorem Inv.not_completed (hI : Inv t s) (h : s.stage ≠ .deleted) : s.status ≠ .completed :=
  fun hstatus => h (hI.status.mp hstatus)

theorem Inv.untouched (hI : Inv t s) (h : s.stage ≠ .finishing) :
    s.status = .notStarted → s.promise = .pending :=
  fun hstatus => hI.pending.mp (hI.fresh hstatus h)

theorem inv_takes {a : Act} (hI : Inv t s) (ht : Takes t s a s') : Inv t s' := by
  cases ht with
  | run hstage =>
      have hzero := hI.early (Or.inl hstage)
      have hvalue := hI.unwritten (Or.inl hstage)
      have hstatus := hI.not_completed (by simp [hstage])
      constructor <;> simp [hstatus, hzero, hvalue, ← hI.pending]
  | start hstage =>
      have hzero := hI.early (Or.inr hstage)
      have hvalue := hI.unwritten (Or.inr (Or.inl hstage))
      have hstatus := hI.not_completed (by simp [hstage])
      constructor <;> simp [hstatus, hzero, hvalue, ← hI.pending]
  | execute hstage =>
      have hfresh := hI.untouched (by simp [hstage])
      have hstatus := hI.not_completed (by simp [hstage])
      constructor <;> simp [hstatus, hI.pending]
      exact hfresh
  | @complete cancelled hstage =>
      have hfresh := hI.untouched (by simp [hstage])
      have hstatus := hI.not_completed (by simp [hstage])
      cases cancelled with
      | true =>
          have hvalue := hI.unwritten (by simp [hstage])
          have hcanceled := hI.cancelled hstage
          simp only [State.complete, hvalue]
          constructor <;> simp [hcanceled, hI.pending]
      | false =>
          have hvalue := hI.written hstage
          have hsame : s.complete t false = { s with stage := .resolving false (some t.answer) } := by
            cases hcompute : t.compute <;>
              simp [State.complete, hvalue, hcompute, Task.answer]
          rw [hsame]
          constructor <;> simp [hstatus, hI.pending]
          exact hfresh
  | @check cancelled r hstage =>
      have hfresh := hI.untouched (by simp [hstage])
      have hstatus := hI.not_completed (by simp [hstage])
      unfold State.check
      split
      · rename_i r' hc
        obtain ⟨rfl, hnot⟩ : cancelled = false ∧ s.status ≠ .canceled := by simpa using hc
        obtain rfl := Option.some.inj (hI.answered _ hstage)
        constructor <;> simp [hstatus, hI.pending]
        exact hfresh
      · constructor <;> simp [hstatus, hI.pending]
  | @settle c hstage =>
      have hstatus := hI.not_completed (by simp [hstage])
      rw [settle_eq]
      cases t.judge c with
      | none => constructor <;> simp [hstatus, hI.pending]
      | some y => constructor <;> simp [State.conclude, hstatus, settle_ne_pending]
  | delete hstage => constructor <;> simp [hI.pending]
  | abort => exact hI.abort (aborts t s)

theorem inv_reachable (h : (asyncTask t).Reachable s) : Inv t s := by
  induction h with
  | start hs =>
      obtain rfl := hs
      exact inv_init
  | step _ _ hn ih => exact inv_takes ih (takes_of_next hn)

/-! ### Harmless aborts -/

/-- A freed or a null deferred was settled, or an output read that was never written. -/
def Bad (s : State O J F V) : Prop :=
  2 ≤ s.concluded ∨ s.garbage = true ∨ s.nullDeferred = true

/-- `complete` is about to settle the promise. -/
def Settling (s : State O J F V) : Prop := ∃ c, s.stage = .converting c ∧ c.pending = none

/-- Too late, or the work has been taken from the queue and nothing else settles the promise. -/
def Harmless (s : State O J F V) : Act → Prop
  | .abort => s.status = .completed ∨
      s.promise = .pending ∧ s.stage ≠ .called ∧ s.stage ≠ .queued ∧ ¬Settling s
  | _ => True

/-- What leads to something bad, unless it has come already. -/
def Flawed (s : State O J F V) : Prop :=
  Bad s ∨ s.stage = .executed true ∨ 1 ≤ s.concluded ∧ Settling s

theorem flawed_abort (hI : Inv t s) (ha : Aborts t s s') :
    Flawed s' ↔ Flawed s ∨ ¬Harmless s .abort := by
  cases ha with
  | late hstatus => simp [Harmless, hstatus]
  | early hstatus hstage => simp [Flawed, Bad, Harmless, hstage, hstatus]
  | cancels hstage =>
      have hstatus := hI.not_completed (by simp [hstage])
      simp [Flawed, Harmless, State.conclude, hstage, hstatus]
  | rejects hstatus hcalled hqueued =>
      have hharmless : ¬Harmless s .abort ↔ 1 ≤ s.concluded ∨ Settling s := by
        simp only [Harmless, hstatus, ← hI.pending, false_or]
        by_cases hsettling : Settling s
        · simp [hsettling]
        · simp [hsettling, hcalled, hqueued, Nat.one_le_iff_ne_zero]
      rw [hharmless]
      simp only [Flawed, Bad, Settling, State.conclude]
      constructor
      · rintro ((htwo | hgarbage) | hcancelled | ⟨-, hsettling⟩)
        · exact Or.inr (Or.inl (by omega))
        · exact Or.inl (Or.inl (Or.inr hgarbage))
        · exact Or.inl (Or.inr (Or.inl hcancelled))
        · exact Or.inr (Or.inr hsettling)
      · rintro (((htwo | hgarbage) | hcancelled | ⟨hone, -⟩) | hone | hsettling)
        · exact Or.inl (Or.inl (by omega))
        · exact Or.inl (Or.inr hgarbage)
        · exact Or.inr (Or.inl hcancelled)
        · exact Or.inl (Or.inl (by omega))
        · exact Or.inl (Or.inl (by omega))
        · exact Or.inr (Or.inr ⟨by omega, hsettling⟩)

theorem flawed_takes {a : Act} (hI : Inv t s) (ht : Takes t s a s') :
    Flawed s' ↔ Flawed s ∨ ¬Harmless s a := by
  cases ht with
  | run hstage | start hstage | execute hstage | delete hstage =>
      simp [Flawed, Bad, Settling, Harmless, hstage]
  | @complete cancelled hstage =>
      cases cancelled with
      | true =>
          have hvalue := hI.unwritten (by simp [hstage])
          simp [Flawed, Bad, State.complete, hvalue, hstage]
      | false =>
          have hvalue := hI.written hstage
          cases hcompute : t.compute <;>
            simp [Flawed, Bad, Settling, Harmless, State.complete, hvalue, hcompute, hstage]
  | @check cancelled r hstage =>
      have hstatus := hI.not_completed (by simp [hstage])
      unfold State.check
      split
      · rename_i r' hc
        -- not canceled, so nothing has settled the promise
        have hnot : s.status ≠ .canceled := fun h => by simp [h] at hc
        have hzero : s.concluded = 0 := by
          cases hs : s.status with
          | notStarted => exact hI.fresh hs (by simp [hstage])
          | completed => exact absurd hs hstatus
          | canceled => exact absurd hs hnot
        simp [Flawed, Bad, Settling, Harmless, hzero, hstage]
      · simp [Flawed, Bad, Settling, Harmless, hstage]
  | @settle c hstage =>
      rw [settle_eq]
      cases hpending : c.pending with
      | some e => simp [Task.judge, Flawed, Bad, Settling, Harmless, hpending, hstage]
      | none =>
          have hone : 2 ≤ s.concluded → 1 ≤ s.concluded := by omega
          simp [Task.judge, Flawed, Bad, Settling, Harmless, State.conclude, hpending, hstage]
          grind
  | abort => exact flawed_abort hI (aborts t s)

/-- It comes at once: the output is looked at, or the promise settled once more. -/
theorem Flawed.bad (hI : Inv t s) (hf : Flawed s) : ∃ bs u, (asyncTask t).replay s bs = some u ∧
    (asyncTask t).EachStep Harmless s bs ∧ Bad u := by
  rcases hf with hbad | hcancelled | ⟨hone, c, hconverting, hpending⟩
  · exact ⟨[], s, rfl, trivial, hbad⟩
  · have hvalue := hI.unwritten (by simp [hcancelled])
    have hn : (asyncTask t).next s .complete = some (s.complete t true) := by
      simp [asyncTask, next, hcancelled]
    refine ⟨[.complete], _, (Machine.replay_cons _).mpr ⟨_, hn, rfl⟩,
      ⟨trivial, fun _ _ => trivial⟩, ?_⟩
    simp [Bad, State.complete, hvalue]
  · have hn : (asyncTask t).next s .settle = some (s.settle t c) := by
      simp [asyncTask, next, hconverting]
    refine ⟨[.settle], _, (Machine.replay_cons _).mpr ⟨_, hn, rfl⟩,
      ⟨trivial, fun _ _ => trivial⟩, ?_⟩
    have htwo : 2 ≤ s.concluded + 1 := by omega
    rw [settle_eq]
    exact Or.inl (by simpa [Task.judge, hpending, State.conclude] using htwo)

/-- **When a task may be aborted.** However a run goes on with harmless aborts: the promise is
settled once at most, by a deferred that there is, and `resolve` gets an output that was written,
exactly if all aborts so far were harmless. -/
theorem harmless_iff {as : List Act} (h : (asyncTask t).replay .init as = some s) :
    (asyncTask t).EachStep Harmless .init as ↔ ∀ bs u, (asyncTask t).replay s bs = some u →
      (asyncTask t).EachStep Harmless s bs → ¬Bad u := by
  refine Machine.eachStep_iff_continues (M := asyncTask t) (I := Inv t) (B := Flawed)
    (fun hI hn => inv_takes hI (takes_of_next hn))
    (fun hI hn => flawed_takes hI (takes_of_next hn)) (fun _ => Or.inl)
    (fun hI hf => hf.bad hI) inv_init ?_ h
  simp [Flawed, Bad, Settling, State.init]

/-- A task that gives back what it has computed. -/
def square : Task Nat Nat Unit Nat where
  compute := .ok 49
  resolve := fun v => ⟨.ok v, none⟩
  reject := fun e => ⟨.error e, none⟩
  toNapiValue := fun v => ⟨.ok v, none⟩
  intoValue := fun _ => 1
  abortError := 2

/-- An abort while the work is queued. -/
theorem harmless_iff_queued :
    ∃ s, (asyncTask square).replay .init [.run, .abort] = some s ∧
      ∃ bs u, (asyncTask square).replay s bs = some u ∧ Bad u := by
  have hrun : ∃ s, (asyncTask square).replay .init [.run, .abort] = some s := ⟨_, rfl⟩
  obtain ⟨s, hs⟩ := hrun
  refine ⟨s, hs, by_contra fun hsafe => ?_⟩
  have hall := (harmless_iff hs).mpr fun bs u hbs _ hbad => hsafe ⟨bs, u, hbs, hbad⟩
  have habort := (hall.2 _ rfl).1
  simp [Harmless, State.init] at habort

end TurbopackWasi.Napi.AsyncWork
