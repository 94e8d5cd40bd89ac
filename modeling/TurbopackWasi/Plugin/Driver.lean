import TurbopackWasi.Plugin.Failure

/-!
# TurbopackWasi.Plugin.Driver

**The one driver worker and its guest threads.** Every thread runs a list of plugin
instances, one after the other: it creates a channel, signals it, uses it and drops it.
A signal travels through the binding's threadsafe function and `postMessage` into the
worker's message queue, on its own path next to the hand-offs (`inflight`, `queue`). The
worker takes one message at a time and stays in `serveChannel` until that returns.

`drop` returns the channel's block to the allocator, which may give it to anybody
(`Act.reuse`). Each channel has its own guest state and its own copy of the guest's
memory: the buffers that a thread passes belong to it.
-/

namespace TurbopackWasi.Plugin

open TurbopackWasi.Lib

variable {W : World} {ι : Type} [DecidableEq ι]

/-- `drop` has nothing more to do: it handed `OP_CLOSE` over, or the instance never started. -/
def State.tFinished (s : State W) : Bool :=
  match s.t with
  | .done .closed | .done .dropped => true
  | _ => false

/-- `serveChannel` has returned. -/
def State.pLeft (s : State W) : Bool :=
  match s.p with
  | .done .left => true
  | _ => false

/-- The import names reach the worker one by one. -/
def Job.Listed (J : Job W) : Prop :=
  J.imports ≠ [] ∧ ∀ n ∈ J.imports.map Prod.fst, '\n' ∉ n

section Steps

variable {J : Job W} {s s' : State W}

theorem tNext_p (hs : Straight s) (h : tNext J s = some s') :
    s'.p = s.p ∨ s'.p = wakeP s.p := by
  by_cases hrun : tPos s.t = .run
  · exact Or.inl (tNext_works hs hrun h).2.1
  · exact (tNext_rests hrun h).2.1

/-- A step of `T` takes `P` neither to a channel nor away from it. -/
theorem tNext_pIs (hs : Straight s) (h : tNext J s = some s') {y : PPoint W}
    (hy : ∀ pc k, y ≠ .wait pc k) : s'.p = .done y ↔ s.p = .done y := by
  rcases tNext_p hs h with hp | hp
  · rw [hp]
  · rw [hp]
    match hc : s.p with
    | .done (.wait pc k) =>
        constructor
        · exact fun he => absurd (Code.done.inj he).symm (hy _ _)
        · exact fun he => absurd (Code.done.inj he).symm (hy _ _)
    | .load _ _ | .store _ _ _ | .done .pending | .done .entryTurn | .done .entryOp
    | .done (.woke _) | .done (.instantiate _ _ _ _) | .done (.run _ _) | .done (.service _ _)
    | .done (.give _) | .done (.notify _) | .done .left | .done .dead => exact Iff.rfl

/-- After a step of `P` its message is taken. -/
theorem pNext_begun (hs : Straight s) (h : pNext s = some s') :
    s'.p ≠ .done .pending ∧ s'.p ≠ .done .dead := by
  by_cases hrun : pPos s.p = .run
  · obtain ⟨-, -, hcode | ⟨-, hleft⟩⟩ := pNext_works hs hrun h
    · constructor
      · intro hp
        have hpos := hcode.pos
        simp [hp, pPos, PPoint.pos] at hpos
      · intro hp
        have hpos := hcode.pos
        simp [hp, pPos, PPoint.pos] at hpos
    · simp [hleft]
  · cases hc : s.p with
    | load i k => exact absurd (by rw [hc]; rfl) hrun
    | store i v k => exact absurd (by rw [hc]; rfl) hrun
    | done y =>
        cases y with
        | pending =>
            simp only [pNext, hc, pPoint] at h
            split at h
            · obtain rfl := Option.some.inj h
              simp
            · simp at h
        | wait pc k =>
            simp only [pNext, hc, pPoint] at h
            split at h
            · obtain rfl := Option.some.inj h
              simp
            · obtain rfl := Option.some.inj h
              simp
            · simp at h
        | entryTurn | entryOp | give =>
            simp only [pNext, hc] at h
            obtain rfl := Option.some.inj h
            simp
        | notify k =>
            simp only [pNext, hc] at h
            cases k with
            | none =>
                obtain rfl := Option.some.inj h
                simp
            | some k =>
                obtain rfl := Option.some.inj h
                simp
        | left | dead => simp [pNext, hc, pPoint] at h
        | woke | instantiate | run | service => exact absurd (by rw [hc]; rfl) hrun

theorem State.pLeft_iff : s.pLeft = true ↔ s.p = .done .left := by
  unfold State.pLeft
  split
  · next h => simp [h]
  · next h => simpa using h

end Steps

namespace Driver

/-- A channel: the `n`-th instance of a thread. -/
abbrev Id (ι : Type) := ι × Nat

structure Fleet (W : World) (ι : Type) where
  /-- The channels created so far. -/
  chan : Id ι → Option (State W)
  /-- The instance that a thread is at. Those before it are dropped. -/
  job : ι → Nat
  /-- Signals on their way to the worker. -/
  inflight : List (Id ι)
  /-- The worker's message queue. -/
  queue : List (Id ι)
  /-- The channel of the `serveChannel` call that is running. -/
  current : Option (Id ι)
  /-- All messages that were queued, in order. -/
  delivered : List (Id ι)
  /-- All calls of `serveChannel`, in order. -/
  served : List (Id ι)

inductive Act (ι : Type)
  /-- The thread creates the channel of its next instance. -/
  | create (i : ι)
  /-- The thread makes a step on its channel. -/
  | t (i : ι)
  /-- `drop` returns, and the block is freed. -/
  | drop (i : ι)
  /-- A signal reaches the worker's queue. -/
  | deliver (c : Id ι)
  /-- The worker makes a step; the first one on a channel takes its message. -/
  | p
  /-- Somebody writes to a freed block. -/
  | reuse (c : Id ι) (ch : Channel)

/-- The state of a channel changes. -/
def Fleet.set (b : Fleet W ι) (c : Id ι) (s : State W) : Fleet W ι :=
  { b with chan := Function.update b.chan c (some s) }

/-- The channel that a thread is at. -/
def Fleet.at (b : Fleet W ι) (i : ι) : Id ι := (i, b.job i)

def tNext (jobs : ι → List (Job W)) (b : Fleet W ι) (i : ι) : Option (Fleet W ι) :=
  match (jobs i)[b.job i]?, b.chan (b.at i) with
  | some J, some s =>
      (Plugin.tNext J s).map fun s' =>
        { b.set (b.at i) s' with
          inflight :=
            if s'.signalled && !s.signalled then b.inflight ++ [b.at i] else b.inflight }
  | _, _ => none

def pNext (b : Fleet W ι) : Option (Fleet W ι) :=
  match b.current with
  | some c =>
      (b.chan c).bind fun s => (Plugin.pNext s).map fun s' =>
        { b.set c s' with current := if s'.pLeft then none else some c }
  | none =>
    match b.queue with
    | [] => none
    | c :: q =>
        (b.chan c).bind fun s => (Plugin.pNext s).map fun s' =>
          { b.set c s' with queue := q, current := some c, served := b.served ++ [c] }

def next (jobs : ι → List (Job W)) (b : Fleet W ι) : Act ι → Option (Fleet W ι)
  | .create i =>
    match (jobs i)[b.job i]?, b.chan (b.at i) with
    | some J, none => some (b.set (b.at i) (State.init J))
    | _, _ => none
  | .t i => tNext jobs b i
  | .drop i =>
      (b.chan (b.at i)).bind fun s =>
        if s.tFinished then some { b with job := Function.update b.job i (b.job i + 1) } else none
  | .deliver c =>
      if c ∈ b.inflight then
        some { b with
          inflight := b.inflight.erase c
          queue := b.queue ++ [c]
          delivered := b.delivered ++ [c] }
      else none
  | .p => pNext b
  | .reuse c ch =>
      if c.2 < b.job c.1 then (b.chan c).map fun s => b.set c { s with chan := ch } else none

def Fleet.init : Fleet W ι := ⟨fun _ => none, fun _ => 0, [], [], none, [], []⟩

def fleet (jobs : ι → List (Job W)) : Machine (Fleet W ι) (Act ι) := ⟨(· = Fleet.init), next jobs⟩

/-! ### What a step does to the channels -/

@[simp] theorem Fleet.set_chan_self (b : Fleet W ι) (c : Id ι) (s : State W) :
    (b.set c s).chan c = some s :=
  Function.update_self ..

theorem Fleet.set_chan_of_ne (b : Fleet W ι) {c c' : Id ι} (s : State W) (h : c' ≠ c) :
    (b.set c s).chan c' = b.chan c' :=
  Function.update_of_ne h ..

/-- The channels after a change of one of them. -/
theorem Fleet.set_cases {b : Fleet W ι} {c c' : Id ι} {s s' : State W}
    (h : (b.set c s).chan c' = some s') :
    c' = c ∧ s' = s ∨ c' ≠ c ∧ b.chan c' = some s' := by
  by_cases hc : c' = c
  · subst hc
    rw [Fleet.set_chan_self] at h
    exact Or.inl ⟨rfl, (Option.some.inj h).symm⟩
  · rw [Fleet.set_chan_of_ne b s hc] at h
    exact Or.inr ⟨hc, h⟩

/-- A step of a thread is a step on its channel. -/
theorem tNext_cases {jobs : ι → List (Job W)} {b b' : Fleet W ι} {i : ι}
    (h : tNext jobs b i = some b') :
    ∃ J s s', (jobs i)[b.job i]? = some J ∧ b.chan (b.at i) = some s ∧
      Plugin.tNext J s = some s' ∧
        b' = { b.set (b.at i) s' with
          inflight :=
            if s'.signalled && !s.signalled then b.inflight ++ [b.at i] else b.inflight } := by
  unfold tNext at h
  split at h
  · next J s hJ hs =>
      obtain ⟨s', hn, hb⟩ := Option.map_eq_some_iff.mp h
      exact ⟨J, s, s', hJ, hs, hn, hb.symm⟩
  · simp at h

/-- A step of the worker is a step on the channel it serves, or on the first one in the
queue. -/
theorem pNext_cases {b b' : Fleet W ι} (h : pNext b = some b') :
    ∃ c s s', b.chan c = some s ∧ Plugin.pNext s = some s' ∧
      (b.current = some c ∧ b' = { b.set c s' with current := if s'.pLeft then none else some c } ∨
        b.current = none ∧ ∃ q, b.queue = c :: q ∧
          b' = { b.set c s' with queue := q, current := some c, served := b.served ++ [c] }) := by
  unfold pNext at h
  split at h
  · next c hc =>
      obtain ⟨s, hs, hb⟩ := Option.bind_eq_some_iff.mp h
      obtain ⟨s', hn, hb'⟩ := Option.map_eq_some_iff.mp hb
      exact ⟨c, s, s', hs, hn, Or.inl ⟨hc, hb'.symm⟩⟩
  · next hc =>
      split at h
      · simp at h
      · next c q hq =>
          obtain ⟨s, hs, hb⟩ := Option.bind_eq_some_iff.mp h
          obtain ⟨s', hn, hb'⟩ := Option.map_eq_some_iff.mp hb
          exact ⟨c, s, s', hs, hn, Or.inr ⟨hc, q, hq, hb'.symm⟩⟩

theorem create_cases {jobs : ι → List (Job W)} {b b' : Fleet W ι} {i : ι}
    (h : next jobs b (.create i) = some b') :
    ∃ J, (jobs i)[b.job i]? = some J ∧ b.chan (b.at i) = none ∧
      b' = b.set (b.at i) (State.init J) := by
  simp only [next] at h
  split at h
  · next J hJ hs => exact ⟨J, hJ, hs, (Option.some.inj h).symm⟩
  · simp at h

theorem drop_cases {jobs : ι → List (Job W)} {b b' : Fleet W ι} {i : ι}
    (h : next jobs b (.drop i) = some b') :
    ∃ s, b.chan (b.at i) = some s ∧ (s.t = .done .closed ∨ s.t = .done .dropped) ∧
      b' = { b with job := Function.update b.job i (b.job i + 1) } := by
  obtain ⟨s, hs, hb⟩ := Option.bind_eq_some_iff.mp h
  split at hb
  · next hfin =>
      refine ⟨s, hs, ?_, (Option.some.inj hb).symm⟩
      unfold State.tFinished at hfin
      split at hfin
      · next ht => exact Or.inl ht
      · next ht => exact Or.inr ht
      · cases hfin
  · simp at hb

theorem reuse_cases {jobs : ι → List (Job W)} {b b' : Fleet W ι} {c : Id ι} {ch : Channel}
    (h : next jobs b (.reuse c ch) = some b') :
    ∃ s, b.chan c = some s ∧ c.2 < b.job c.1 ∧ b' = b.set c { s with chan := ch } := by
  simp only [next] at h
  split at h
  · next hlt =>
      obtain ⟨s, hs, hb⟩ := Option.map_eq_some_iff.mp h
      exact ⟨s, hs, hlt, hb.symm⟩
  · simp at h

/-! ### One thread

A channel by itself can do nothing that it cannot do in a fleet. -/

section Solo

/-- A single thread with a single instance. -/
abbrev alone (J : Job W) : Unit → List (Job W) := fun _ => [J]

/-- The fleet of `alone J` while its channel is in state `s`. -/
structure Solo (b : Fleet W Unit) (s : State W) : Prop where
  straight : Straight s
  job : b.job () = 0
  chan : b.chan ((), 0) = some s
  worker : s.p = .done .pending ∧ b.current = none ∧ b.queue = [] ∧
      b.inflight = (if s.signalled then [((), 0)] else []) ∨
    s.p ≠ .done .pending ∧ s.signalled = true ∧ b.inflight = [] ∧ b.queue = [] ∧
      b.current = if s.pLeft then none else some ((), 0)

variable {J : Job W} {b : Fleet W Unit} {s s' : State W}

theorem solo_create : ∃ b, next (alone J) Fleet.init (.create ()) = some b ∧
    Solo b (State.init J) := by
  refine ⟨Fleet.init.set ((), 0) (State.init J), rfl, ?_⟩
  exact ⟨parking_init.straight, rfl, Fleet.set_chan_self .., Or.inl ⟨rfl, rfl, rfl, rfl⟩⟩

theorem solo_t (hb : Solo b s) (h : Plugin.tNext J s = some s') :
    ∃ b', next (alone J) b (.t ()) = some b' ∧ Solo b' s' := by
  have hat : b.at () = ((), 0) := by rw [Fleet.at, hb.job]
  refine ⟨{ b.set ((), 0) s' with
    inflight := if s'.signalled && !s.signalled then b.inflight ++ [((), 0)] else b.inflight },
    ?_, straight_tNext hb.straight h, hb.job, Fleet.set_chan_self b ((), 0) s', ?_⟩
  · simp [next, tNext, hat, hb.job, hb.chan, h]
  · rcases hb.worker with ⟨hp, hcur, hq, hin⟩ | ⟨hp, hsig, hin, hq, hcur⟩
    · refine Or.inl ⟨(tNext_pIs hb.straight h (by simp)).mpr hp, hcur, hq, ?_⟩
      show (if s'.signalled && !s.signalled then b.inflight ++ [((), 0)] else b.inflight) = _
      rw [hin]
      cases hsig : s.signalled with
      | true => simp [(tNext_frame h).2 hsig]
      | false => cases s'.signalled <;> rfl
    · have hleft : s'.pLeft = s.pLeft := by
        rw [Bool.eq_iff_iff, State.pLeft_iff, State.pLeft_iff]
        exact tNext_pIs hb.straight h (by simp)
      refine Or.inr ⟨fun hp' => hp ((tNext_pIs hb.straight h (by simp)).mp hp'),
        (tNext_frame h).2 hsig, ?_, hq, hleft ▸ hcur⟩
      simpa [hsig] using hin

theorem solo_p {G : Fleet W Unit → Act Unit → Prop}
    (hG : ∀ b a, (∀ i, a ≠ .drop i) → G b a) (hreach : (fleet (alone J)).Reach G b)
    (hb : Solo b s) (h : Plugin.pNext s = some s') :
    ∃ b', (fleet (alone J)).Reach G b' ∧ Solo b' s' := by
  have hbegun := (pNext_begun hb.straight h).1
  have hstraight := straight_pNext hb.straight h
  rcases hb.worker with ⟨hp, hcur, hq, hin⟩ | ⟨hp, hsig, hin, hq, hcur⟩
  · -- the message is delivered first
    have hsig : s.signalled = true := by
      by_contra hsig
      simp [Plugin.pNext, hp, pPoint, hsig] at h
    rw [hsig, if_pos rfl] at hin
    have hdeliver : next (alone J) b (.deliver ((), 0)) = some { b with
        inflight := [], queue := [((), 0)], delivered := b.delivered ++ [((), 0)] } := by
      simp [next, hin, hq]
    have hp' : s'.pLeft = false := by
      rw [Bool.eq_false_iff, ne_eq, State.pLeft_iff]
      simp only [Plugin.pNext, hp, pPoint, hsig, if_pos] at h
      obtain rfl := Option.some.inj h
      simp
    have htake : next (alone J) { b with
        inflight := [], queue := [((), 0)], delivered := b.delivered ++ [((), 0)] } .p =
        some { b.set ((), 0) s' with
          inflight := [], queue := [], current := some ((), 0)
          delivered := b.delivered ++ [((), 0)], served := b.served ++ [((), 0)] } := by
      simp [next, pNext, hcur, hb.chan, h, Fleet.set]
    have hdelivered : (fleet (alone J)).Reach G { b with
        inflight := [], queue := [((), 0)], delivered := b.delivered ++ [((), 0)] } :=
      .step (a := .deliver ((), 0)) hreach (hG _ _ (by simp)) hdeliver
    refine ⟨_, .step (a := .p) hdelivered (hG _ _ (by simp)) htake, hstraight, hb.job,
      Fleet.set_chan_self b ((), 0) s', Or.inr ⟨hbegun, (pNext_signalled h).trans hsig, rfl, rfl,
        ?_⟩⟩
    simp [hp']
  · have hleft : s.pLeft = false := by
      rw [Bool.eq_false_iff, ne_eq, State.pLeft_iff]
      intro hp
      simp [Plugin.pNext, hp, pPoint] at h
    rw [hleft] at hcur
    have hstep : next (alone J) b .p =
        some { b.set ((), 0) s' with current := if s'.pLeft then none else some ((), 0) } := by
      simp [next, pNext, hcur, hb.chan, h]
    exact ⟨_, .step (a := .p) hreach (hG _ _ (by simp)) hstep, hstraight, hb.job,
      Fleet.set_chan_self b ((), 0) s',
      Or.inr ⟨hbegun, (pNext_signalled h).trans hsig, hin, hq, rfl⟩⟩

/-- Every run of a channel whose worker does not die is a run of a fleet of one thread. -/
theorem solo {G : Fleet W Unit → Act Unit → Prop} (hG : ∀ b a, (∀ i, a ≠ .drop i) → G b a)
    (h : (bridge J).Reach (fun _ a => a ≠ .die) s) :
    ∃ b, (fleet (alone J)).Reach G b ∧ Solo b s := by
  induction h with
  | start hs =>
      obtain rfl := hs
      obtain ⟨b, hn, hb⟩ := solo_create (J := J)
      exact ⟨b, .step (a := .create ()) (.start rfl) (hG _ _ (by simp)) hn, hb⟩
  | @step s s' a _ hdie hn ih =>
      obtain ⟨b, hreach, hb⟩ := ih
      cases a with
      | t =>
          obtain ⟨b', hn', hb'⟩ := solo_t hb hn
          exact ⟨b', .step (a := .t ()) hreach (hG _ _ (by simp)) hn', hb'⟩
      | p => exact solo_p hG hreach hb hn
      | die => exact absurd rfl hdie

/-- A schedule in which the worker does not die. -/
theorem reach_of_replay (as : List Plugin.Act) (halive : .die ∉ as)
    (hr : (bridge J).replay (State.init J) as = some s) :
    (bridge J).Reach (fun _ a => a ≠ .die) s := by
  refine Machine.Reach.replay as (.start rfl) (fun a ha _ => ?_) hr
  rintro rfl
  exact halive ha

end Solo

end Driver

end TurbopackWasi.Plugin
