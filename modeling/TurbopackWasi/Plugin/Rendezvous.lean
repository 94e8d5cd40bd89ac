import Mathlib.Tactic.ByContra
import TurbopackWasi.Lib.Machine
import TurbopackWasi.Plugin.Channel

/-!
# TurbopackWasi.Plugin.Rendezvous

The rendezvous of `T` and `P` on one channel's `turn` word, one atomic step at a
time: `park_until` and `hand_off` of the guest, `waitForP` and `handToT` of the
driver worker. What a party does while it holds the turn is left open; it may
hand off any number of times, or stop.

The wait loops are written as functions of the word and of a program counter
(`parkUntil`, `waitForP`), because the machine of a whole channel
(`TurbopackWasi.Plugin.Bridge`) runs the same two loops.

The two sides pass different *expected* operands to their futex wait: `waitForP`
the constant `TURN_T`, `park_until` whatever a second load of the word returns.
The second load can therefore read the very value the guest is waiting for, and
the wait then sleeps on a hand-off that has already been made:
`lostWakeUp_parks_both` is such a run, and `noLostWakeUp_iff` says that no other
kind of step loses a wake-up.
-/

namespace TurbopackWasi.Plugin

open TurbopackWasi.Lib

/-! ### The wait loops -/

/-- What one step of a wait loop does: leave the loop, go on at a program
counter, or nothing, because the party is asleep in the futex. -/
inductive LoopStep (π : Type)
  | leave
  | goto (pc : π)
  | asleep
  deriving DecidableEq, Repr

/-- Where `T` is in `park_until(turn, TURN_T)`. -/
inductive ParkPc
  /-- At the load of the loop test. -/
  | load
  /-- At the second load, which supplies the expected operand. -/
  | reload
  /-- At `memory.atomic.wait32` with its expected operand. -/
  | wait (expected : Word)
  /-- Asleep in the futex. -/
  | parked
  deriving DecidableEq, Repr

/-- Where `P` is in `waitForP`. -/
inductive WaitPc
  /-- At the load of the loop test. -/
  | load
  /-- At the load that is an argument of the parking trace. -/
  | trace
  /-- At `Atomics.wait` with the constant expected operand `TURN_T`. -/
  | wait
  /-- Asleep in the futex. -/
  | parked
  /-- At the load that is an argument of the wake trace. -/
  | woke
  deriving DecidableEq, Repr

/-- `park_until`: a wait blocks iff the word equals the expected value now. -/
def parkUntil (turn : Word) : ParkPc → LoopStep ParkPc
  | .load => if turn = turnT then .leave else .goto .reload
  | .reload => .goto (.wait turn)
  | .wait expected => if turn = expected then .goto .parked else .goto .load
  | .parked => .asleep

/-- `waitForP`. -/
def waitForP (turn : Word) : WaitPc → LoopStep WaitPc
  | .load => if turn = turnP then .leave else .goto .trace
  | .trace => .goto .wait
  | .wait => if turn = turnT then .goto .parked else .goto .woke
  | .parked => .asleep
  | .woke => .goto .load

/-- A notify wakes `T` if it sleeps. -/
def ParkPc.notified : ParkPc → ParkPc
  | .parked => .load
  | pc => pc

/-- A notify wakes `P` if it sleeps. -/
def WaitPc.notified : WaitPc → WaitPc
  | .parked => .woke
  | pc => pc

namespace Rendezvous

/-- Where the guest thread is. -/
inductive TPos
  /-- Holding the turn, outside the rendezvous code. -/
  | run
  /-- In `hand_off`, before the store. -/
  | store
  /-- In `hand_off`, before the notify. -/
  | notify
  | park (pc : ParkPc)
  /-- Done with the channel. -/
  | out
  deriving DecidableEq, Repr

/-- Where the driver worker is. -/
inductive PPos
  /-- Not yet serving the channel. -/
  | idle
  /-- Holding the turn, outside the rendezvous code. -/
  | run
  /-- In `handToT`, before the store. -/
  | store
  /-- In `handToT`, before the notify. -/
  | notify
  | wait (pc : WaitPc)
  /-- Done with the channel. -/
  | out
  deriving DecidableEq, Repr

structure State where
  turn : Word
  t : TPos
  p : PPos
  deriving DecidableEq, Repr

/-- One atomic step of `T` or of `P`. Where the party may go on with the channel or
leave it, `stay` says which. -/
inductive Act
  | t (stay : Bool)
  | p (stay : Bool)
  deriving DecidableEq, Repr

/-- `T`'s side of a notify: wakes `P` if it sleeps on the word. -/
def PPos.notified : PPos → PPos
  | .wait pc => .wait pc.notified
  | p => p

/-- `P`'s side of a notify: wakes `T` if it sleeps on the word. -/
def TPos.notified : TPos → TPos
  | .park pc => .park pc.notified
  | t => t

/-- One step of the guest thread. -/
def tNext (s : State) (stay : Bool) : Option State :=
  match s.t with
  | .run => some { s with t := if stay then .store else .out }
  | .store => some { s with turn := turnP, t := .notify }
  | .notify => some { s with t := if stay then .park .load else .out, p := s.p.notified }
  | .park pc =>
    match parkUntil s.turn pc with
    | .leave => some { s with t := .run }
    | .goto pc => some { s with t := .park pc }
    | .asleep => none
  | .out => none

/-- One step of the driver worker. -/
def pNext (s : State) (stay : Bool) : Option State :=
  match s.p with
  | .idle => some { s with p := .wait .load }
  | .run => some { s with p := if stay then .store else .out }
  | .store => some { s with turn := turnT, p := .notify }
  | .notify => some { s with p := if stay then .wait .load else .out, t := s.t.notified }
  | .wait pc =>
    match waitForP s.turn pc with
    | .leave => some { s with p := .run }
    | .goto pc => some { s with p := .wait pc }
    | .asleep => none
  | .out => none

def next (s : State) : Act → Option State
  | .t stay => tNext s stay
  | .p stay => pNext s stay

/-- A fresh channel: the guest holds the turn, the worker has not arrived. -/
def State.init : State := ⟨turnT, .run, .idle⟩

/-- The rendezvous machine of one channel. -/
def machine : Machine State Act := ⟨(· = State.init), next⟩

/-! ### The property and the step that breaks it -/

/-- No lost wake-up: whoever sleeps on `turn` still waits for the value to come, or
for the notify of the hand-off that stored it; so the two never sleep together. -/
structure NoLostWakeUp (s : State) : Prop where
  guest : s.t = .park .parked → s.turn ≠ turnT ∨ s.p = .notify
  driver : s.p = .wait .parked → s.turn ≠ turnP ∨ s.t = .notify
  notBoth : ¬(s.t = .park .parked ∧ s.p = .wait .parked)

/-- `T` executes its `wait32` with the expected operand `TURN_T` (the second load
fell behind the driver's store) when the driver's notify is already over. -/
def StaleWait (s : State) (a : Act) : Prop :=
  (∃ stay, a = .t stay) ∧ s.t = .park (.wait turnT) ∧ s.p ≠ .notify

/-- What every run keeps. -/
structure Inv (s : State) : Prop where
  turn : s.turn = turnP ∨ s.turn = turnT
  guestHolds : s.t = .run ∨ s.t = .store → s.turn = turnT
  driverHolds : s.p = .run ∨ s.p = .store → s.turn = turnP
  expected : ∀ e, s.t = .park (.wait e) → e = turnP ∨ e = turnT ∧ s.turn = turnT
  driverSleeps : s.p = .wait .parked → s.turn = turnP → s.t = .notify

/-- What the runs without a stale wait keep besides. -/
def GuestSleeps (s : State) : Prop :=
  s.t = .park .parked → s.turn = turnT → s.p = .notify

theorem inv_init : Inv State.init :=
  ⟨Or.inr rfl, fun _ => rfl, by simp [State.init], by simp [State.init], by simp [State.init]⟩

@[simp] theorem notified_ne_parked (pc : ParkPc) : pc.notified ≠ .parked := by
  cases pc <;> simp [ParkPc.notified]

@[simp] theorem wait_notified_ne_parked (pc : WaitPc) : pc.notified ≠ .parked := by
  cases pc <;> simp [WaitPc.notified]

@[simp] theorem TPos.notified_eq_iff {t u : TPos} (hu : ∀ pc, u ≠ .park pc) :
    t.notified = u ↔ t = u := by
  cases t <;> simp [TPos.notified, (hu _).symm]

@[simp] theorem TPos.notified_wait {t : TPos} {e : Word} :
    t.notified = .park (.wait e) ↔ t = .park (.wait e) := by
  cases t with
  | park pc => cases pc <;> simp [TPos.notified, ParkPc.notified]
  | _ => simp [TPos.notified]

@[simp] theorem TPos.notified_parked (t : TPos) : t.notified ≠ .park .parked := by
  cases t <;> simp [TPos.notified]

@[simp] theorem PPos.notified_eq_iff {p q : PPos} (hq : ∀ pc, q ≠ .wait pc) :
    p.notified = q ↔ p = q := by
  cases p <;> simp [PPos.notified, (hq _).symm]

@[simp] theorem PPos.notified_parked (p : PPos) : p.notified ≠ .wait .parked := by
  cases p <;> simp [PPos.notified]

/-! ### Steps -/

/-- What a step of the guest can do. -/
theorem tNext_cases {s s' : State} {stay : Bool} (h : tNext s stay = some s') :
    (s.t = .run ∧ s' = { s with t := if stay then .store else .out }) ∨
    (s.t = .store ∧ s' = { s with turn := turnP, t := .notify }) ∨
    (s.t = .notify ∧
      s' = { s with t := if stay then .park .load else .out, p := s.p.notified }) ∨
    (s.t = .park .load ∧ s.turn = turnT ∧ s' = { s with t := .run }) ∨
    (s.t = .park .load ∧ s.turn ≠ turnT ∧ s' = { s with t := .park .reload }) ∨
    (s.t = .park .reload ∧ s' = { s with t := .park (.wait s.turn) }) ∨
    (s.t = .park (.wait s.turn) ∧ s' = { s with t := .park .parked }) ∨
    (∃ e, s.t = .park (.wait e) ∧ s.turn ≠ e ∧ s' = { s with t := .park .load }) := by
  unfold tNext at h
  cases ht : s.t with
  | run => simp_all
  | store => simp_all
  | notify => simp_all
  | out => simp [ht] at h
  | park pc =>
      cases pc with
      | load => by_cases hT : s.turn = turnT <;> simp_all [parkUntil]
      | reload => simp_all [parkUntil]
      | wait e => by_cases he : s.turn = e <;> simp_all [parkUntil]
      | parked => simp [ht, parkUntil] at h

/-- What a step of the driver can do. -/
theorem pNext_cases {s s' : State} {stay : Bool} (h : pNext s stay = some s') :
    (s.p = .idle ∧ s' = { s with p := .wait .load }) ∨
    (s.p = .run ∧ s' = { s with p := if stay then .store else .out }) ∨
    (s.p = .store ∧ s' = { s with turn := turnT, p := .notify }) ∨
    (s.p = .notify ∧
      s' = { s with p := if stay then .wait .load else .out, t := s.t.notified }) ∨
    (s.p = .wait .load ∧ s.turn = turnP ∧ s' = { s with p := .run }) ∨
    (s.p = .wait .wait ∧ s.turn = turnT ∧ s' = { s with p := .wait .parked }) ∨
    (∃ pc, (∃ pc₀, s.p = .wait pc₀ ∧ pc₀ ≠ .parked) ∧ pc ≠ .parked ∧
      s' = { s with p := .wait pc }) := by
  unfold pNext at h
  cases hp : s.p with
  | idle => simp_all
  | run => simp_all
  | store => simp_all
  | notify => simp_all
  | out => simp [hp] at h
  | wait pc =>
      cases pc with
      | load =>
          by_cases hP : s.turn = turnP
          · simp_all [waitForP]
          · simp only [hp, waitForP, if_neg hP, Option.some.injEq] at h
            simpa [hP] using ⟨.trace, by simp, h.symm⟩
      | trace =>
          simp only [hp, waitForP, Option.some.injEq] at h
          simpa using ⟨.wait, by simp, h.symm⟩
      | wait =>
          by_cases hT : s.turn = turnT
          · simp_all [waitForP]
          · simp only [hp, waitForP, if_neg hT, Option.some.injEq] at h
            simpa [hT] using ⟨.woke, by simp, h.symm⟩
      | parked => simp [hp, waitForP] at h
      | woke =>
          simp only [hp, waitForP, Option.some.injEq] at h
          simpa using ⟨.load, by simp, h.symm⟩

theorem inv_tNext {s s' : State} {stay : Bool} (hI : Inv s) (h : tNext s stay = some s') :
    Inv s' := by
  obtain ⟨hturn, hguest, hdriver, hexp, hsleep⟩ := hI
  rcases tNext_cases h with ⟨ht, rfl⟩ | ⟨ht, rfl⟩ | ⟨ht, rfl⟩ | ⟨ht, hT, rfl⟩ | ⟨ht, hT, rfl⟩ |
    ⟨ht, rfl⟩ | ⟨ht, rfl⟩ | ⟨e, ht, he, rfl⟩
  · -- with the turn at `T`, the driver does not sleep on a turn that is its own
    have hT : s.turn = turnT := hguest (Or.inl ht)
    cases stay <;> constructor <;> simp_all
  · constructor <;> simp_all
  · cases stay <;> constructor <;> simp_all
  · constructor <;> simp_all
  · constructor <;> simp_all
  · constructor <;> simp_all
  · constructor <;> simp_all
  · constructor <;> simp_all

theorem inv_pNext {s s' : State} {stay : Bool} (hI : Inv s) (h : pNext s stay = some s') :
    Inv s' := by
  obtain ⟨hturn, hguest, hdriver, hexp, hsleep⟩ := hI
  rcases pNext_cases h with ⟨hp, rfl⟩ | ⟨hp, rfl⟩ | ⟨hp, rfl⟩ | ⟨hp, rfl⟩ | ⟨hp, hP, rfl⟩ |
    ⟨hp, hT, rfl⟩ | ⟨pc, hp, hpc, rfl⟩
  · constructor <;> simp_all
  · cases stay <;> constructor <;> simp_all
  · -- the store makes the turn `T`'s, which is all an expected `TURN_T` needs
    constructor <;> simp_all
  · cases stay <;> constructor <;> simp_all
  · constructor <;> simp_all
  · constructor <;> simp_all
  · constructor <;> simp_all

theorem inv_next {s s' : State} {a : Act} (hI : Inv s) (h : next s a = some s') : Inv s' := by
  cases a with
  | t stay => exact inv_tNext hI h
  | p stay => exact inv_pNext hI h

theorem guestSleeps_next {s s' : State} {a : Act} (hI : Inv s) (hS : GuestSleeps s)
    (hgood : ¬StaleWait s a) (h : next s a = some s') : GuestSleeps s' := by
  cases a with
  | t stay =>
      rcases tNext_cases h with ⟨ht, rfl⟩ | ⟨ht, rfl⟩ | ⟨ht, rfl⟩ | ⟨ht, hT, rfl⟩ |
        ⟨ht, hT, rfl⟩ | ⟨ht, rfl⟩ | ⟨ht, rfl⟩ | ⟨e, ht, he, rfl⟩
      · cases stay <;> simp [GuestSleeps]
      · simp [GuestSleeps]
      · cases stay <;> simp [GuestSleeps]
      · simp [GuestSleeps]
      · simp [GuestSleeps]
      · simp [GuestSleeps]
      · -- `T` falls asleep: with the turn at `T` this would be the stale wait
        intro _ hT
        have hT' : s.turn = turnT := hT
        by_contra hp
        exact hgood ⟨⟨stay, rfl⟩, by rw [ht, hT'], hp⟩
      · simp [GuestSleeps]
  | p stay =>
      rcases pNext_cases h with ⟨hp, rfl⟩ | ⟨hp, rfl⟩ | ⟨hp, rfl⟩ | ⟨hp, rfl⟩ | ⟨hp, hP, rfl⟩ |
        ⟨hp, hT, rfl⟩ | ⟨pc, ⟨pc₀, hp, -⟩, -, rfl⟩
      · intro ht hT
        simpa [hp] using hS ht hT
      · -- the driver holds the turn, so it is not `T`'s
        intro _ hT
        simp [hI.driverHolds (Or.inl hp)] at hT
      · simp [GuestSleeps]
      · simp [GuestSleeps]
      · intro _ hT
        simp [hP] at hT
      · intro ht hT
        simpa [hp] using hS ht hT
      · intro ht hT
        simpa [hp] using hS ht hT

/-- The invariants leave only sleepers whose wake-up is still to come. -/
theorem noLostWakeUp_of_inv {s : State} (hI : Inv s) (hS : GuestSleeps s) : NoLostWakeUp s where
  guest ht := by
    by_cases hT : s.turn = turnT
    · exact Or.inr (hS ht hT)
    · exact Or.inl hT
  driver hp := by
    by_cases hP : s.turn = turnP
    · exact Or.inr (hI.driverSleeps hp hP)
    · exact Or.inl hP
  notBoth := by
    rintro ⟨ht, hp⟩
    rcases hI.turn with hP | hT
    · simpa [ht] using hI.driverSleeps hp hP
    · simpa [hp] using hS ht hT

/-- A stale wait puts `T` to sleep on a turn that is its own and already notified. -/
theorem staleWait_loses {s s' : State} {a : Act} (hI : Inv s) (h : next s a = some s')
    (hstale : StaleWait s a) : ¬NoLostWakeUp s' := by
  obtain ⟨⟨stay, rfl⟩, ht, hp⟩ := hstale
  have hT : s.turn = turnT := by
    rcases hI.expected _ ht with h | ⟨-, h⟩
    · simp at h
    · exact h
  have hs' : s' = { s with t := .park .parked } := by
    have hstep : tNext s stay = some s' := h
    simpa [tNext, ht, parkUntil, hT] using hstep.symm
  subst hs'
  intro hno
  rcases hno.guest rfl with h | h
  · exact h hT
  · exact hp h

/-- **No lost wake-up, exactly.** In a run from a fresh channel no reachable state
loses a wake-up iff `T` never executes a stale wait. -/
theorem noLostWakeUp_iff {as : List Act} {s : State}
    (hrun : machine.replay State.init as = some s) :
    machine.Always NoLostWakeUp State.init as ↔
      machine.EachStep (fun s a => ¬StaleWait s a) State.init as :=
  Machine.always_iff_eachStep (J := fun s => Inv s ∧ GuestSleeps s)
    (fun _ h => noLostWakeUp_of_inv h.1 h.2)
    (fun h hgood hn => ⟨inv_next h.1 hn, guestSleeps_next h.1 h.2 hgood hn⟩)
    (fun h hn hbad => staleWait_loses h.1 hn (not_not.mp hbad))
    ⟨inv_init, by simp [GuestSleeps, State.init]⟩ hrun

/-- A hand-off in each direction in which the guest's loads come before the driver's
store. -/
def oneRound : List Act :=
  [.t true, .t true, .t true, .t true, .t true, .t true, .p true, .p true, .p true, .p true,
    .p true, .t true]

theorem noLostWakeUp_iff_oneRound :
    machine.Always NoLostWakeUp State.init oneRound ↔
      machine.EachStep (fun s a => ¬StaleWait s a) State.init oneRound :=
  noLostWakeUp_iff (s := ⟨turnT, .run, .wait .load⟩) (by decide)

/-- The driver's whole hand-off falls between the guest's loop test and its wait, its
store before the second load. -/
def lostWakeUp : List Act :=
  [.t true, .t true, .t true, .t true, .p true, .p true, .p true, .p true, .t true, .p true,
    .t true, .p true, .p true, .p true]

/-- After `lostWakeUp` both parties sleep, with no notify pending. -/
theorem lostWakeUp_parks_both :
    machine.replay State.init lostWakeUp = some ⟨turnT, .park .parked, .wait .parked⟩ ∧
      ¬NoLostWakeUp ⟨turnT, .park .parked, .wait .parked⟩ :=
  ⟨by decide, fun h => h.notBoth ⟨rfl, rfl⟩⟩

end Rendezvous

end TurbopackWasi.Plugin
