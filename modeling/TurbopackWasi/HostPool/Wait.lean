import Mathlib.Data.BitVec
import TurbopackWasi.Lib.Machine
import TurbopackWasi.Lib.Notify

/-!
# TurbopackWasi.HostPool.Wait

**`Child::wait` and `turbopack_pool_proc_exit`**, step by step. The wait makes its future,
then reads the code, then awaits; the host stores the code, then notifies. The two run on
different threads, and the wait may be dropped at its await and called again.

`exit_not_missed` says that a parked wait has been notified of a recorded exit, but for
one moment: between its two writes `turbopack_pool_proc_exit` has recorded the code and
notified nobody (`between_writes`). The notification is its next step, and then the wait
comes to its end (`wait_completes`).
-/

namespace TurbopackWasi.HostPool.Wait

open Lib

/-! ### One child -/

/-- Where `wait` is, with its `Notified` future. -/
inductive WaitPc (φ : Type)
  | idle
  /-- At the head of the loop. -/
  | loop
  | made (notified : φ)
  /-- The code was `None`. -/
  | checked (notified : φ)
  /-- The await is pending. -/
  | parked (notified : φ)

/-- Where a call of `turbopack_pool_proc_exit` is. -/
inductive ExitPc
  | idle
  /-- The exit state was found in `PROCS`. -/
  | found
  /-- The code is stored, and nobody notified. -/
  | stored
  deriving DecidableEq

structure State (N : Notify) where
  code : Option (BitVec 32)
  notify : N.State
  wait : WaitPc N.Future
  exit : ExitPc
  /-- The `Child` has not been dropped. -/
  alive : Bool
  /-- `PROCS` has the exit state. -/
  registered : Bool
  killed : Bool
  /-- The number of `kill` actions. -/
  kills : Nat
  /-- The results of the waits that completed. -/
  returned : List (BitVec 32)
  /-- `notify_waiters` was called since the last future was made. -/
  got : Bool

def State.init (N : Notify) : State N where
  code := none
  notify := N.new
  wait := .idle
  exit := .idle
  alive := true
  registered := true
  killed := false
  kills := 0
  returned := []
  got := false

variable {N : Notify} {c : BitVec 32}

/-- `Child::start_kill`. -/
def State.startKill (s : State N) : State N :=
  if s.killed then s else { s with killed := true, kills := s.kills + 1 }

/-- A poll of the future. -/
def State.poll (s : State N) (f : N.Future) : State N :=
  let (ready, f, notify) := N.poll s.notify f
  { s with notify := notify, wait := if ready then .loop else .parked f }

/-- The next step of a wait under way. -/
def State.advance (s : State N) : Option (State N) :=
  match s.wait with
  | .idle => none
  | .loop =>
      let (f, notify) := N.notified s.notify
      some { s with notify := notify, wait := .made f, got := false }
  | .made f =>
      match s.code with
      | some code => some { s with wait := .idle, returned := s.returned ++ [code] }
      | none => some { s with wait := .checked f }
  | .checked f | .parked f => some (s.poll f)

/-- `Drop for Child`, up to the removal from `PROCS`. -/
def State.drop (s : State N) : State N :=
  let s' := { s with alive := false }
  if s.code.isNone && !s.killed then { s' with kills := s.kills + 1 } else s'

inductive Act
  | startKill
  /-- `wait` is called, alone or by `kill`. -/
  | wait
  | advance
  /-- The pending wait is dropped. -/
  | cancel
  | drop
  /-- The dropped `Child` leaves `PROCS`. -/
  | remove
  /-- `turbopack_pool_proc_exit` is called. -/
  | exit
  | store
  | notify

/-- Only one method of a `Child` runs at a time: they take `&mut self`. -/
def next (c : BitVec 32) (s : State N) : Act → Option (State N)
  | .startKill =>
    match s.wait, s.alive with
    | .idle, true => some s.startKill
    | _, _ => none
  | .wait =>
    match s.wait, s.alive with
    | .idle, true => some { s with wait := .loop }
    | _, _ => none
  | .advance => s.advance
  | .cancel =>
    match s.wait with
    | .parked f => some { s with notify := N.cancel s.notify f, wait := .idle }
    | _ => none
  | .drop =>
    match s.wait, s.alive with
    | .idle, true => some s.drop
    | _, _ => none
  | .remove => if s.alive then none else some { s with registered := false }
  | .exit =>
    match s.exit with
    | .idle => some { s with exit := if s.registered then .found else .idle }
    | _ => none
  | .store =>
    match s.exit with
    | .found => some { s with code := some c, exit := .stored }
    | _ => none
  | .notify =>
    match s.exit with
    | .stored => some { s with notify := N.notifyWaiters s.notify, exit := .idle, got := true }
    | _ => none

/-- A child whose exit, if it is reported, is reported with the code `c`. -/
def child (N : Notify) (c : BitVec 32) : Machine (State N) Act := ⟨(· = .init N), next c⟩

/-! ### The promise -/

/-- The exit is recorded, and a wait is parked that was not notified. -/
def Asleep (s : State N) : Prop := s.code.isSome ∧ (∃ f, s.wait = .parked f) ∧ s.got = false

/-- The exit is not missed, and every wait that completes has the code. -/
structure NotMissed (c : BitVec 32) (s : State N) : Prop where
  awake : ¬Asleep s
  returns : ∀ d ∈ s.returned, d = c

/-- The same but for the moment between the two writes of `turbopack_pool_proc_exit`. -/
structure NotMissedOutside (c : BitVec 32) (s : State N) : Prop where
  awake : Asleep s → s.exit = .stored
  /-- A parked wait that was notified goes on at its next poll. -/
  wakes : ∀ f, s.wait = .parked f → s.got = true → (N.poll s.notify f).1 = true
  returns : ∀ d ∈ s.returned, d = c

/-! ### What is true of the future -/

def WaitPc.future {φ : Type} : WaitPc φ → Option φ
  | .made f | .checked f | .parked f => some f
  | _ => none

/-- The future of a wait that has found no code. -/
def WaitPc.awaited {φ : Type} : WaitPc φ → Bool
  | .checked _ | .parked _ => true
  | _ => false

structure Inv (c : BitVec 32) (s : State N) : Prop where
  code : ∀ d, s.code = some d → d = c
  stored : s.exit = .stored → s.code.isSome
  returned : ∀ d ∈ s.returned, d = c
  outstanding : ∀ f, s.wait.future = some f → N.Outstanding s.got s.notify f
  /-- A code that came after the check brings a notification with it. -/
  awaited : s.wait.awaited = true → s.code.isSome → s.got = true ∨ s.exit = .stored

section Steps

variable {s s' : State N}

theorem inv_init : Inv c (State.init N) where
  code := by simp [State.init]
  stored := by simp [State.init]
  returned := by simp [State.init]
  outstanding := by simp [State.init, WaitPc.future]
  awaited := by simp [State.init, WaitPc.awaited]

theorem inv_poll (hI : Inv c s) {f : N.Future} (hf : s.wait.future = some f)
    (hawaited : s.wait.awaited = true) : Inv c (s.poll f) := by
  have hmade := hI.outstanding f hf
  unfold State.poll
  cases hready : (N.poll s.notify f).1 with
  | true =>
      refine { hI with
        outstanding := by simp [hready, WaitPc.future]
        awaited := by simp [hready, WaitPc.awaited] }
  | false =>
      refine { hI with outstanding := ?_, awaited := fun _ hcode => hI.awaited hawaited hcode }
      intro f' hf'
      obtain rfl : (N.poll s.notify f).2.1 = f' := by
        simpa [hready, WaitPc.future] using hf'
      exact .polled hmade hready

/-! ### What a step does -/

/-- The wait's own steps are `make`, `read`, `check` and `poll`. -/
inductive Takes (c : BitVec 32) (s : State N) : State N → Prop
  | startKill (halive : s.alive = true) : Takes c s s.startKill
  | wait : Takes c s { s with wait := .loop }
  | make : Takes c s { s with
      notify := (N.notified s.notify).2, wait := .made (N.notified s.notify).1, got := false }
  | read {d : BitVec 32} (hcode : s.code = some d) :
      Takes c s { s with wait := .idle, returned := s.returned ++ [d] }
  | check {f : N.Future} (hw : s.wait = .made f) (hcode : s.code = none) :
      Takes c s { s with wait := .checked f }
  | poll {f : N.Future} (hf : s.wait.future = some f) (hw : s.wait.awaited = true) :
      Takes c s (s.poll f)
  | cancel (f : N.Future) : Takes c s { s with notify := N.cancel s.notify f, wait := .idle }
  | drop (halive : s.alive = true) : Takes c s s.drop
  | remove : Takes c s { s with registered := false }
  | exit (hexit : s.exit = .idle) :
      Takes c s { s with exit := if s.registered then .found else .idle }
  | store : Takes c s { s with code := some c, exit := .stored }
  | notify : Takes c s { s with notify := N.notifyWaiters s.notify, exit := .idle, got := true }

theorem takes_of_advance (h : s.advance = some s') : Takes c s s' := by
  unfold State.advance at h
  split at h
  · cases h
  · obtain rfl := Option.some.inj h
    exact .make
  · next f hw =>
      split at h
      · next d hcode =>
          obtain rfl := Option.some.inj h
          exact .read hcode
      · next hcode =>
          obtain rfl := Option.some.inj h
          exact .check hw hcode
  · next f hw =>
      obtain rfl := Option.some.inj h
      exact .poll (by simp [hw, WaitPc.future]) (by simp [hw, WaitPc.awaited])
  · next f hw =>
      obtain rfl := Option.some.inj h
      exact .poll (by simp [hw, WaitPc.future]) (by simp [hw, WaitPc.awaited])

theorem takes_of_next {a : Act} (h : next c s a = some s') : Takes c s s' := by
  cases a with
  | advance => exact takes_of_advance h
  | startKill =>
      simp only [next] at h
      split at h
      · next halive =>
          obtain rfl := Option.some.inj h
          exact .startKill halive
      · cases h
  | wait =>
      simp only [next] at h
      split at h
      · obtain rfl := Option.some.inj h
        exact .wait
      · cases h
  | cancel =>
      simp only [next] at h
      split at h
      · next f hw =>
          obtain rfl := Option.some.inj h
          exact .cancel f
      · cases h
  | drop =>
      simp only [next] at h
      split at h
      · next halive =>
          obtain rfl := Option.some.inj h
          exact .drop halive
      · cases h
  | remove =>
      simp only [next] at h
      split at h
      · cases h
      · obtain rfl := Option.some.inj h
        exact .remove
  | exit =>
      simp only [next] at h
      split at h
      · next hexit =>
          obtain rfl := Option.some.inj h
          exact .exit hexit
      · cases h
  | store =>
      simp only [next] at h
      split at h
      · obtain rfl := Option.some.inj h
        exact .store
      · cases h
  | notify =>
      simp only [next] at h
      split at h
      · obtain rfl := Option.some.inj h
        exact .notify
      · cases h

/-- **Every step.** -/
theorem inv_takes (hI : Inv c s) (h : Takes c s s') : Inv c s' := by
  cases h with
  | startKill =>
      unfold State.startKill
      split
      · exact hI
      · exact { hI with }
  | wait | cancel f =>
      exact { hI with
        outstanding := by simp [WaitPc.future]
        awaited := by simp [WaitPc.awaited] }
  | make =>
      refine { hI with outstanding := ?_, awaited := by simp [WaitPc.awaited] }
      intro f hf
      obtain rfl := Option.some.inj hf
      exact .made s.notify
  | @read d hcode =>
      refine { hI with
        returned := ?_
        outstanding := by simp [WaitPc.future]
        awaited := by simp [WaitPc.awaited] }
      intro d' hd'
      rcases List.mem_append.mp hd' with hold | hnew
      · exact hI.returned d' hold
      · rw [List.mem_singleton.mp hnew]
        exact hI.code d hcode
  | check hw hcode =>
      exact { hI with
        outstanding := fun f' hf => hI.outstanding f' (by simpa [hw, WaitPc.future] using hf)
        awaited := by simp [hcode] }
  | poll hf hw => exact inv_poll hI hf hw
  | drop =>
      unfold State.drop
      dsimp only
      split
      · exact { hI with }
      · exact { hI with }
  | remove => exact { hI with }
  | exit hexit =>
      refine { hI with stored := ?_, awaited := fun hw hcode => ?_ }
      · intro hstored
        cases hr : s.registered <;> simp [hr] at hstored
      · have hor := hI.awaited hw hcode
        rw [hexit] at hor
        exact .inl (hor.resolve_right (by simp))
  | store =>
      exact { hI with
        code := fun d hd => (Option.some.inj hd).symm
        stored := fun _ => rfl
        awaited := fun _ _ => .inr rfl }
  | notify =>
      exact { hI with
        stored := by simp
        outstanding := fun f hf => .notify (hI.outstanding f hf)
        awaited := fun _ _ => .inl rfl }

end Steps

/-! ### Whole runs -/

theorem inv_reachable {s : State N} (h : (child N c).Reachable s) : Inv c s := by
  refine h.invariant (I := Inv c) ?_ ?_
  · intro s hs
    obtain rfl : s = State.init N := hs
    exact inv_init
  · intro s a s' hI _ hn
    exact inv_takes hI (takes_of_next hn)

/-- **The exit is not missed.** With a code recorded, a parked wait has been notified, unless
`turbopack_pool_proc_exit` is just between its two writes; and every wait that completes
returns the code. -/
theorem exit_not_missed (hN : N.Delivers) {s : State N} (h : (child N c).Reachable s) :
    NotMissedOutside c s := by
  have hI := inv_reachable h
  refine { awake := ?_, wakes := ?_, returns := hI.returned }
  · intro hasleep
    obtain ⟨hcode, ⟨f, hf⟩, hgot⟩ := hasleep
    have hor := hI.awaited (by simp [hf, WaitPc.awaited]) hcode
    exact hor.resolve_left (by simp [hgot])
  · intro f hf hgot
    have hout := hI.outstanding f (by simp [hf, WaitPc.future])
    rw [hgot] at hout
    exact hN _ _ hout

/-- A wait that is parked when the exit is reported, and another one after it. -/
def reported : List Act :=
  [.wait, .advance, .advance, .advance, .exit, .store, .notify, .advance, .advance, .advance,
    .wait, .advance, .advance]

theorem exit_not_missed_reported : ∃ s, (child .counter 7).replay (.init .counter) reported = some s ∧
    NotMissedOutside 7 s ∧ s.returned = [7, 7] := by
  have h : (child .counter 7).Reachable (.init .counter) := .start rfl
  exact ⟨_, rfl, exit_not_missed Notify.counter_delivers (h.replay reported rfl), rfl⟩

/-- **Between the two writes** the code is recorded, and the parked wait not notified. -/
theorem between_writes : ∃ s, (child .counter 7).replay (.init .counter)
      [.wait, .advance, .advance, .advance, .exit, .store] = some s ∧ Asleep s ∧
    ¬NotMissed 7 s := by
  refine ⟨_, rfl, ⟨rfl, ⟨0, rfl⟩, rfl⟩, ?_⟩
  intro h
  exact h.awake ⟨rfl, ⟨0, rfl⟩, rfl⟩

/-! ### The wait ends -/

section Ends

variable {s : State N}

/-- A wait that reads the code last has it. -/
theorem ends_loop {d : BitVec 32} (hw : s.wait = .loop) (hcode : s.code = some d) :
    ∃ s', (child N c).replay s [.advance, .advance] = some s' ∧ s'.wait = .idle ∧
      s'.returned = s.returned ++ [d] := by
  simp [child, next, State.advance, hw, hcode, Machine.replay]

/-- A wait that awaits is woken, and reads the code. -/
theorem ends_awaited (hN : N.Delivers) (hI : Inv c s) {f : N.Future} {d : BitVec 32}
    (hf : s.wait.future = some f) (hw : s.wait.awaited = true)
    (hadvance : s.advance = some (s.poll f)) (hcode : s.code = some d) (hexit : s.exit ≠ .stored) :
    ∃ s', (child N c).replay s [.advance, .advance, .advance] = some s' ∧ s'.wait = .idle ∧
      s'.returned = s.returned ++ [d] := by
  have hgot := (hI.awaited hw (by simp [hcode])).resolve_right hexit
  have hout := hI.outstanding f hf
  rw [hgot] at hout
  have hloop : (s.poll f).wait = .loop := by simp [State.poll, hN _ _ hout]
  obtain ⟨s', hrun, hidle, hreturned⟩ := ends_loop (c := c) (s := s.poll f) (d := d) hloop hcode
  refine ⟨s', ?_, hidle, hreturned⟩
  exact ((child N c).replay_cons).mpr ⟨s.poll f, hadvance, hrun⟩

/-- **A wait under way completes** in at most three steps of its own, once the exit is
recorded and the notification sent. -/
theorem wait_completes (hN : N.Delivers) (h : (child N c).Reachable s) (hw : s.wait ≠ .idle)
    (hcode : s.code.isSome) (hexit : s.exit ≠ .stored) :
    ∃ k s', k ≤ 3 ∧ (child N c).replay s (List.replicate k .advance) = some s' ∧
      s'.wait = .idle ∧ s'.returned = s.returned ++ [c] := by
  have hI := inv_reachable h
  obtain ⟨d, hd⟩ := Option.isSome_iff_exists.mp hcode
  obtain rfl := hI.code d hd
  cases hpc : s.wait with
  | idle => exact absurd hpc hw
  | loop =>
      obtain ⟨s', hrun, hdone⟩ := ends_loop (c := d) hpc hd
      exact ⟨2, s', by omega, hrun, hdone⟩
  | made f =>
      have hadvance : s.advance = some { s with wait := .idle, returned := s.returned ++ [d] } := by
        simp [State.advance, hpc, hd]
      exact ⟨1, _, by omega, ((child N d).replay_cons).mpr ⟨_, hadvance, rfl⟩, rfl, rfl⟩
  | checked f =>
      obtain ⟨s', hrun, hdone⟩ := ends_awaited hN hI (f := f) (by simp [hpc, WaitPc.future])
        (by simp [hpc, WaitPc.awaited]) (by simp [State.advance, hpc]) hd hexit
      exact ⟨3, s', by omega, hrun, hdone⟩
  | parked f =>
      obtain ⟨s', hrun, hdone⟩ := ends_awaited hN hI (f := f) (by simp [hpc, WaitPc.future])
        (by simp [hpc, WaitPc.awaited]) (by simp [State.advance, hpc]) hd hexit
      exact ⟨3, s', by omega, hrun, hdone⟩

end Ends

/-! ### Kills -/

/-- The host is asked at most once to kill the child. -/
structure KillsOnce (s : State N) : Prop where
  once : s.kills ≤ 1
  unasked : s.alive = true → s.killed = false → s.kills = 0

/-- `start_kill` and the drop look whether it was done before. -/
theorem killsOnce_takes {s s' : State N} (hK : KillsOnce s) (h : Takes c s s') :
    KillsOnce s' := by
  cases h with
  | startKill halive =>
      unfold State.startKill
      split
      · exact hK
      · next hkilled =>
          have hzero := hK.unasked halive (by simpa using hkilled)
          exact { once := by simp [hzero], unasked := by simp }
  | drop halive =>
      unfold State.drop
      dsimp only
      split
      · next hkilled =>
          have hzero := hK.unasked halive (by simpa using (Bool.and_eq_true_iff.mp hkilled).2)
          exact { once := by simp [hzero], unasked := by simp }
      · exact { once := hK.once, unasked := by simp }
  | wait | make | read | check | poll | cancel | remove | exit | store | notify =>
      exact { hK with }

theorem killsOnce {s : State N} (h : (child N c).Reachable s) : KillsOnce s := by
  refine h.invariant (I := KillsOnce) ?_ ?_
  · intro s hs
    obtain rfl : s = State.init N := hs
    exact { once := by simp [State.init], unasked := by simp [State.init] }
  · intro s a s' hK _ hn
    exact killsOnce_takes hK (takes_of_next hn)

end TurbopackWasi.HostPool.Wait
