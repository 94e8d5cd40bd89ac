import TurbopackWasi.Napi.Deletion

/-!
# TurbopackWasi.Napi.Assertion

**When the drop of the last handle panics.** The drop asserts that the engine lets it
release the function. But a call that was answered `napi_closing` has released it already,
and the handles do not keep a record of that: only `thread_finalize_cb`, which comes later,
sets `aborted`. `assertion_iff` says that this is the one way to the panic.
-/

namespace TurbopackWasi.Napi.Tsfn

open Lib

variable {ι : Type} {s s' : State ι}

/-- Some call was answered `napi_closing`. -/
def TurnedAway (s : State ι) : Prop := ∃ c ∈ s.calls, c.status = some .closing

/-- The function was there when the last handle was released. -/
def Released (s : State ι) : Prop := ∃ c ∈ s.calls, c.op = .release ∧ c.status ≠ none

structure Counted (s : State ι) : Prop where
  /-- The one thread of the count is the handles, until a call is turned away. -/
  threads : s.aborted = false → ¬Released s → (s.threads = 0 ↔ TurnedAway s)
  le_one : s.threads ≤ 1
  /-- The release is the last call. -/
  last : Released s → s.handles = 0 ∧ s.dropping = none ∧ s.readers = []
  assertion : Panic.release ∈ s.panics ↔ Released s ∧ TurnedAway s

theorem counted_init : Counted (State.init : State ι) where
  threads := by simp [State.init, TurnedAway]
  le_one := Nat.le_refl 1
  last := by simp [State.init, Released]
  assertion := by simp [State.init, TurnedAway]

theorem Counted.not_released (hC : Counted s) (hpos : 0 < s.handles) : ¬Released s :=
  fun hr => Nat.ne_of_gt hpos (hC.last hr).1

/-- A step that calls nothing. -/
theorem Counted.congr (hC : Counted s) (hcalls : s'.calls = s.calls)
    (hthreads : s'.threads = s.threads) (hflag : s'.aborted = false → s.aborted = false)
    (hpanics : Panic.release ∈ s'.panics ↔ Panic.release ∈ s.panics)
    (hlast : Released s → s'.handles = 0 ∧ s'.dropping = none ∧ s'.readers = []) :
    Counted s' where
  threads h hr := by
    have hold := hC.threads (hflag h) (by simpa [Released, hcalls] using hr)
    simpa [hthreads, TurnedAway, hcalls] using hold
  le_one := hthreads ▸ hC.le_one
  last hr := hlast (by simpa [Released, hcalls] using hr)
  assertion := by
    rw [hpanics, hC.assertion]
    simp [Released, TurnedAway, hcalls]

theorem Counted.dropHandle (hC : Counted s) (hpos : 0 < s.handles) : Counted s.dropHandle :=
  hC.congr rfl rfl id Iff.rfl fun hr => absurd hr (hC.not_released hpos)

/-- A call through a handle. Being turned away takes the thread off the count. -/
theorem Counted.call (hC : Counted s) (hpos : 0 < s.handles) (hflag : s.aborted = false)
    (i : ι) : Counted (s.napi (.call i)) := by
  have hnot := hC.not_released hpos
  have hthreads := hC.threads hflag hnot
  have hone := hC.le_one
  have hpanics := hC.assertion
  have ha := answers_napi s (.call i)
  generalize s.napi (.call i) = t at ha ⊢
  have hsame : Released t ↔ Released s := by
    cases ha <;> simp [Released]
  refine ⟨fun _ _ => ?_, ?_, fun hr => absurd (hsame.mp hr) hnot, ?_⟩
  · cases ha with
    | sent => simpa [TurnedAway] using hthreads
    | closing _ hne =>
        have hlast : s.threads - 1 = 0 := by omega
        simp [TurnedAway, hlast]
    | unused => simpa [TurnedAway] using hthreads
    | deleted => simpa [TurnedAway] using hthreads
  · cases ha with
    | closing => exact Nat.le_trans (Nat.sub_le _ _) hone
    | sent | unused | deleted => exact hone
  · have hno : ¬(Released t ∧ TurnedAway t) := fun h => hnot (hsame.mp h.1)
    have hold : ¬(Released s ∧ TurnedAway s) := fun h => hnot h.1
    have hsamePanics : t.panics = s.panics := by cases ha <;> rfl
    rw [hsamePanics, hpanics]
    exact iff_of_false hold hno

/-- An abort that the engine accepts sets the flag. -/
theorem Counted.abort (hC : Counted s) (hpos : 0 < s.handles) : Counted s.abort := by
  unfold State.abort
  split
  · exact hC.dropHandle hpos
  · rename_i hunaborted
    have hflag : s.aborted = false := Bool.eq_false_iff.mpr hunaborted
    have hnot := hC.not_released hpos
    have hthreads := hC.threads hflag hnot
    refine Counted.dropHandle ?_ (by simpa using hpos)
    have hcalls := napi_calls s .abort
    have hpanics := napi_panics s .abort
    have ha := answers_napi s .abort
    generalize s.napi .abort = t at ha hcalls hpanics ⊢
    have hreleased : Released t ↔ Released s := by simp [Released, hcalls]
    refine ⟨fun h _ => ?_, ?_, fun hr => absurd (hreleased.mp hr) hnot, ?_⟩
    · have hstatus : s.status .abort ≠ some .ok := by simpa using h
      cases ha with
      | aborted => simp at hcalls; exact absurd hcalls.symm hstatus
      | unused | deleted => simpa [TurnedAway] using hthreads
    · cases ha with
      | aborted => exact Nat.le_trans (Nat.sub_le _ _) hC.le_one
      | unused | deleted => exact hC.le_one
    · have hold : ¬(Released s ∧ TurnedAway s) := fun h => hnot h.1
      have hno : ¬(Released t ∧ TurnedAway t) := fun h => hnot (hreleased.mp h.1)
      rw [show Panic.release ∈ t.panics ↔ _ from hpanics ▸ hC.assertion]
      exact iff_of_false hold hno

/-- The release of the last handle. -/
theorem Counted.release (hC : Counted s) (hI : Inv s) (hd : s.dropping = some .unaborted)
    {panics : List Panic}
    (hpanics : panics =
      if s.status .release = some .invalidArg then .release :: s.panics else s.panics) :
    Counted { s.napi .release with dropping := none, panics } := by
  have hflag := hI.unaborted hd
  have hzero := (hI.dropping (by simp [hd])).1
  have hnot : ¬Released s := fun hr => by simp [(hC.last hr).2.1] at hd
  have hthreads := hC.threads hflag hnot
  have hreaders : s.readers = [] := by
    by_contra hr
    exact absurd hzero (Nat.ne_of_gt (hI.readers hr).1)
  have hold : Panic.release ∉ s.panics := fun h => hnot (hC.assertion.mp h).1
  have hcalls := napi_calls s .release
  have hhandles := napi_handles s .release
  have hkept := napi_readers s .release
  have ha := answers_napi s .release
  generalize s.napi .release = t at ha hcalls hhandles hkept ⊢
  refine ⟨fun _ hnr => ?_, ?_, fun _ => ⟨hhandles.trans hzero, rfl, hkept.trans hreaders⟩, ?_⟩
  · cases ha with
    | released => exact absurd ⟨_, List.mem_cons_self, rfl, by simp⟩ hnr
    | unused => exact absurd ⟨_, List.mem_cons_self, rfl, by simp⟩ hnr
    | deleted => simpa [TurnedAway] using hthreads
  · cases ha with
    | released => exact Nat.le_trans (Nat.sub_le _ _) hC.le_one
    | unused | deleted => exact hC.le_one
  · cases ha with
    | released _ hne =>
        have hstatus : s.status .release = some .ok := by simpa using hcalls.symm
        have haway : ¬TurnedAway s := fun h => hne (hthreads.mpr h)
        simpa [hpanics, hstatus, hold, TurnedAway, Released] using haway
    | unused _ hunused =>
        have hstatus : s.status .release = some .invalidArg := by simpa using hcalls.symm
        have haway : TurnedAway s := hthreads.mp hunused
        simpa [hpanics, hstatus, TurnedAway, Released] using haway
    | deleted =>
        have hstatus : s.status .release = none := by simpa using hcalls.symm
        have hno : ∀ u : State ι, u.calls = ⟨.release, none⟩ :: s.calls → ¬Released u := by
          intro u hu hr
          exact hnot (by simpa [Released, hu] using hr)
        simp only [hpanics, hstatus]
        exact iff_of_false (by simpa using hold) fun h => hno _ rfl h.1

variable [DecidableEq ι] {a : Act ι}

theorem counted_takes (hC : Counted s) (hI : Inv s) (ht : Takes s a s') : Counted s' := by
  cases ht with
  | clone hpos =>
      unfold State.clone
      have hnot := hC.not_released hpos
      split
      · exact hC.congr rfl rfl id (by simp) fun hr => absurd hr hnot
      · exact hC.congr rfl rfl id Iff.rfl fun hr => absurd hr hnot
  | begin hpos =>
      unfold State.begin
      have hnot := hC.not_released hpos
      split <;> exact hC.congr rfl rfl id Iff.rfl fun hr => absurd hr hnot
  | @call i hi =>
      obtain ⟨hpos, hflag, -⟩ := hI.readers (List.ne_nil_of_mem hi)
      have hnot := hC.not_released hpos
      have hC' : Counted { s with readers := s.readers.erase i } :=
        hC.congr rfl rfl id Iff.rfl fun hr => absurd hr hnot
      exact hC'.call hpos hflag i
  | drop hpos _ => exact hC.dropHandle hpos
  | abort hpos _ => exact hC.abort hpos
  | enter hd =>
      refine hC.congr rfl rfl id Iff.rfl fun hr => ?_
      simp [(hC.last hr).2.1] at hd
  | release hd hpanics => exact hC.release hI hd hpanics
  | deliver | close | upgrade | delete => exact hC.congr rfl rfl id Iff.rfl hC.last
  | lock => exact hC.congr rfl rfl (fun h => by cases h) Iff.rfl hC.last

theorem counted_reachable (h : (tsfn ι).Reachable s) : Counted s := by
  have hboth : Inv s ∧ Counted s := by
    induction h with
    | start hs =>
        obtain rfl := hs
        exact ⟨inv_init, counted_init⟩
    | step _ _ hn ih =>
        have ht := takes_of_next hn
        exact ⟨inv_takes ih.1 ht, counted_takes ih.2 ih.1 ht⟩
  exact hboth.2

omit [DecidableEq ι] in
/-- As long as the engine was not called about the deleted function, every release counts. -/
theorem released_iff (hsound : ¬Faulted s) : Released s ↔ ∃ c ∈ s.calls, c.op = .release := by
  constructor
  · rintro ⟨c, hc, hop, -⟩
    exact ⟨c, hc, hop⟩
  · rintro ⟨c, hc, hop⟩
    exact ⟨c, hc, hop, fun hnone => hsound ⟨c, hc, hnone⟩⟩

/-- **The panic in the drop of the last handle.** As long as the engine was not called about the
deleted function, it comes in exactly the runs in which the last handle was released and some
call before was answered `napi_closing`: the release comes between the end of the environment
and its `thread_finalize_cb`. -/
theorem assertion_iff (h : (tsfn ι).Reachable s) (hsound : ¬Faulted s) :
    Panic.release ∈ s.panics ↔ (∃ c ∈ s.calls, c.op = .release) ∧ TurnedAway s := by
  rw [(counted_reachable h).assertion, released_iff hsound]

/-- A call is turned away, and the handle is released before `thread_finalize_cb`. -/
theorem assertion_iff_turnedAway :
    ∃ s, (tsfn Nat).replay .init [.begin 0, .cleanup, .call 0, .drop, .proceed, .proceed] = some s ∧
      Panic.release ∈ s.panics := by
  have hstart : (tsfn Nat).Reachable .init := .start rfl
  have hrun : ∃ s, (tsfn Nat).replay .init
      [.begin 0, .cleanup, .call 0, .drop, .proceed, .proceed] = some s ∧
        s.calls = [⟨.release, some .invalidArg⟩, ⟨.call 0, some .closing⟩] := ⟨_, rfl, rfl⟩
  obtain ⟨s, hs, hcalls⟩ := hrun
  have hsound : ¬Faulted s := by simp [Faulted, hcalls]
  refine ⟨s, hs, (assertion_iff (Machine.Reachable.replay _ hstart hs) hsound).mpr ?_⟩
  exact ⟨by simp [hcalls], by simp [TurnedAway, hcalls]⟩

end TurbopackWasi.Napi.Tsfn
