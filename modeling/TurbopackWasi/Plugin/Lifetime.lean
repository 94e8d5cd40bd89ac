import TurbopackWasi.Plugin.Driver

/-!
# TurbopackWasi.Plugin.Lifetime

**The life of a channel's block.** `drop` hands `OP_CLOSE` over and frees the block
without an answer, while `P` has yet to see the turn and to read `op`: it does so in a
block that is no longer the channel's (`drop_overtakes`).

`lifetime` shows that this is the only way. If `drop` returns only after `P`'s last access
to the channel, no run has `P` access a freed block. An instance whose `start` failed
sends no `OP_CLOSE`, and needs none: its failure was `P`'s last word.
-/

namespace TurbopackWasi.Plugin

open TurbopackWasi.Lib

variable {W : World}

/-! ### Accesses of the worker -/

/-- The next step of `P` loads from or stores to the channel. -/
def PPoint.Touches : PPoint W → Prop
  | .entryTurn | .entryOp | .woke _ | .give _ => True
  | .wait pc _ => pc ≠ .parked
  | _ => False

def State.PTouches (s : State W) : Prop :=
  match s.p with
  | .load _ _ | .store _ _ _ => True
  | .done y => y.Touches

theorem State.PGone.not_touches {s : State W} (h : s.PGone) : ¬s.PTouches := by
  obtain ⟨y, hp, hy⟩ := h
  unfold State.PTouches
  rw [hp]
  match y with
  | .notify none | .left | .dead => exact not_false
  | .pending | .entryTurn | .entryOp | .wait _ _ | .woke _ | .instantiate _ _ _ _ | .run _ _
  | .service _ _ | .give _ | .notify (some _) => exact hy.elim

section Frame

variable {s s' : State W}

theorem pService_chan (m : W.engine.Module) (i : Inst W.engine.Priv) (k : PWait W) (x : Service)
    (ch : Channel) :
    pService { s with chan := ch } m i k x = { pService s m i k x with chan := ch } := by
  cases x <;> simp only [pService] <;> repeat' split
  all_goals rfl

theorem pRun_chan (m : W.engine.Module) (i : Inst W.engine.Priv) (phase : Phase)
    (f : W.engine.Frame) (ch : Channel) :
    pRun { s with chan := ch } m i phase f = { pRun s m i phase f with chan := ch } := by
  simp only [pRun]
  split
  · rfl
  · split <;> rfl
  · rfl
  · rfl

theorem pPoint_of_not_touches {y : PPoint W} (hy : ¬y.Touches) (ch : Channel) :
    pPoint { s with chan := ch } y = (pPoint s y).map fun s' => { s' with chan := ch } := by
  match y with
  | .entryTurn | .entryOp | .woke _ | .give _ => exact absurd trivial hy
  | .pending =>
      simp only [pPoint]
      split <;> rfl
  | .wait pc k =>
      obtain rfl : pc = .parked := not_not.mp hy
      rfl
  | .instantiate _ _ _ _ | .notify _ | .left | .dead => rfl
  | .run phase f =>
      simp only [pPoint]
      split
      · rfl
      · exact congrArg some (pRun_chan ..)
  | .service x k =>
      simp only [pPoint]
      split
      · rfl
      · exact congrArg some (pService_chan ..)

theorem pNext_done {y : PPoint W} (hp : s.p = .done y) : pNext s = pPoint s y := by
  unfold pNext
  rw [hp]

/-- A step that touches nothing is the same on any channel, and leaves it as it is. -/
theorem pNext_of_not_touches (h : ¬s.PTouches) (ch : Channel) :
    pNext { s with chan := ch } = (pNext s).map fun s' => { s' with chan := ch } := by
  unfold State.PTouches at h
  obtain ⟨y, hp⟩ : ∃ y, s.p = .done y := by
    match hc : s.p with
    | .load _ _ | .store _ _ _ =>
        rw [hc] at h
        exact absurd trivial h
    | .done y => exact ⟨y, rfl⟩
  rw [hp] at h
  rw [pNext_done hp, pNext_done (s := { s with chan := ch }) hp]
  exact pPoint_of_not_touches h ch

/-- Gone stays gone. -/
theorem pGone_pNext (hg : s.PGone) (h : pNext s = some s') : s'.PGone := by
  obtain ⟨y, hp, hy⟩ := hg
  match y with
  | .notify none =>
      simp only [pNext, hp, pPoint] at h
      obtain rfl := Option.some.inj h
      exact ⟨.left, rfl, trivial⟩
  | .left | .dead => simp [pNext, hp, pPoint] at h
  | .pending | .entryTurn | .entryOp | .wait _ _ | .woke _ | .instantiate _ _ _ _ | .run _ _
  | .service _ _ | .give _ | .notify (some _) => exact hy.elim

end Frame

/-- An instance that failed to start has no `P` any more. -/
theorem Inv.pGone_of_dropped {J : Job W} {s : State W} (hI : Inv J s)
    (ht : s.t = .done .dropped) : s.PGone := by
  have hproto := hI.protoT ht
  obtain ⟨y, hp⟩ := hI.pDone hproto.1
  rw [hp] at hproto
  exact ⟨y, hp, hproto.2.2⟩

namespace Driver

variable {ι : Type} [DecidableEq ι]

/-! ### The blocks that are still in use -/

/-- The block of `c` was returned to the allocator. -/
def Fleet.Freed (b : Fleet W ι) (c : Id ι) : Prop := c.2 < b.job c.1

/-- `drop` returns after `P`'s last access to the channel, or the instance failed to
start. -/
def AwaitsWorker (jobs : ι → List (Job W)) (b : Fleet W ι) : Act ι → Prop
  | .drop i => ∀ J s, (jobs i)[b.job i]? = some J → b.chan (b.at i) = some s →
      s.PGone ∨ s.t = .done .dropped ∧ J.Listed
  | _ => True

/-- A channel is a thread's current one, or freed and left by `P`. -/
inductive Owned (jobs : ι → List (Job W)) (n : ι → Nat) (c : Id ι) (s : State W) : Prop
  | freed : c.2 < n c.1 → s.PGone → Owned jobs n c s
  | inUse {J : Job W} : c.2 = n c.1 → (jobs c.1)[c.2]? = some J → (J.Listed → Inv J s) →
      Owned jobs n c s

def OwnedAll (jobs : ι → List (Job W)) (b : Fleet W ι) : Prop :=
  ∀ c s, b.chan c = some s → Owned jobs b.job c s

variable {jobs : ι → List (Job W)} {b b' : Fleet W ι}

theorem ownedAll_set {c : Id ι} {s : State W} (hall : OwnedAll jobs b)
    (hs : Owned jobs b.job c s) : OwnedAll jobs (b.set c s) := by
  intro c' s' h
  rcases Fleet.set_cases h with ⟨rfl, rfl⟩ | ⟨-, h⟩
  · exact hs
  · exact hall c' s' h

omit [DecidableEq ι] in
/-- A step of `P` on a channel. -/
theorem owned_pNext {c : Id ι} {s s' : State W} (ho : Owned jobs b.job c s)
    (h : Plugin.pNext s = some s') : Owned jobs b.job c s' := by
  cases ho with
  | freed hlt hg => exact .freed hlt (pGone_pNext hg h)
  | inUse heq hJ hI => exact .inUse heq hJ fun hl => inv_pNext (hI hl) hl.1 hl.2 h

/-- The thread goes on to its next instance. -/
theorem owned_drop {i : ι} {c : Id ι} {s : State W} (ho : Owned jobs b.job c s)
    (hgone : c = b.at i → s.PGone) :
    Owned jobs (Function.update b.job i (b.job i + 1)) c s := by
  by_cases hc : c.1 = i
  · have hjob : Function.update b.job i (b.job i + 1) c.1 = b.job i + 1 := by
      rw [hc, Function.update_self]
    cases ho with
    | freed hlt hg =>
        refine .freed ?_ hg
        rw [hc] at hlt
        omega
    | inUse heq _ _ =>
        rw [hc] at heq
        exact .freed (by omega) (hgone (Prod.ext hc heq))
  · have hjob : Function.update b.job i (b.job i + 1) c.1 = b.job c.1 :=
      Function.update_of_ne hc ..
    cases ho with
    | freed hlt hg => exact .freed (hjob ▸ hlt) hg
    | inUse heq hJ hI => exact .inUse (hjob ▸ heq) hJ hI

/-- **One step**: if `drop` awaits the worker, `P` has left every block that is freed. -/
theorem ownedAll_next {a : Act ι} (hall : OwnedAll jobs b) (hgood : AwaitsWorker jobs b a)
    (h : next jobs b a = some b') : OwnedAll jobs b' := by
  cases a with
  | create i =>
      obtain ⟨J, hJ, -, rfl⟩ := create_cases h
      exact ownedAll_set hall (.inUse rfl hJ fun _ => inv_init)
  | t i =>
      obtain ⟨J, s, s', hJ, hs, hn, rfl⟩ := tNext_cases h
      refine ownedAll_set hall (.inUse rfl hJ fun hl => ?_)
      cases hall _ _ hs with
      | freed hlt _ => exact absurd hlt (Nat.lt_irrefl _)
      | inUse _ hJ' hI =>
          obtain rfl := Option.some.inj (hJ.symm.trans hJ')
          exact inv_tNext (hI hl) hn
  | drop i =>
      obtain ⟨s, hs, -, rfl⟩ := drop_cases h
      intro c s₁ hs₁
      refine owned_drop (hall c s₁ hs₁) ?_
      rintro rfl
      obtain rfl := Option.some.inj (hs.symm.trans hs₁)
      cases hall _ _ hs with
      | freed hlt _ => exact absurd hlt (Nat.lt_irrefl _)
      | inUse _ hJ hI =>
          rcases hgood _ _ hJ hs with hg | ⟨ht, hl⟩
          · exact hg
          · exact (hI hl).pGone_of_dropped ht
  | deliver c =>
      simp only [next] at h
      split at h
      · obtain rfl := Option.some.inj h
        exact hall
      · simp at h
  | p =>
      obtain ⟨c, s, s', hs, hn, ⟨-, rfl⟩ | ⟨-, q, -, rfl⟩⟩ := pNext_cases h
      · exact ownedAll_set hall (owned_pNext (hall c s hs) hn)
      · exact ownedAll_set hall (owned_pNext (hall c s hs) hn)
  | reuse c ch =>
      obtain ⟨s, hs, hlt, rfl⟩ := reuse_cases h
      refine ownedAll_set hall ?_
      cases hall c s hs with
      | freed _ hg => exact .freed hlt hg
      | inUse heq _ _ => exact absurd heq (Nat.ne_of_lt hlt)

/-- **Channel lifetime.** In every run in which `drop` awaits the worker, `P`
never accesses a freed block. -/
theorem lifetime (h : (fleet jobs).Reach (AwaitsWorker jobs) b) {c : Id ι} {s : State W}
    (hfreed : b.Freed c) (hs : b.chan c = some s) : ¬s.PTouches := by
  have hall : OwnedAll jobs b := by
    refine h.invariant (fun b hb => ?_) fun hall hgood hn => ownedAll_next hall hgood hn
    obtain rfl := hb
    intro c s hs
    cases hs
  cases hall c s hs with
  | freed _ hg => exact hg.not_touches
  | inUse heq _ _ => exact absurd heq (Nat.ne_of_lt hfreed)

/-! ### Two runs of one thread -/

section Runs

variable {J : Job W} {b : Fleet W Unit} {s : State W}

/-- `drop` returns, and the only block is freed. -/
theorem solo_drop (hb : Solo b s) (ht : s.t = .done .closed) :
    ∃ b', next (alone J) b (.drop ()) = some b' ∧ b'.Freed ((), 0) ∧ b'.chan = b.chan ∧
      b'.current = b.current := by
  have hs : b.chan (b.at ()) = some s := by
    rw [Fleet.at, hb.job]
    exact hb.chan
  refine ⟨{ b with job := Function.update b.job () (b.job () + 1) }, ?_, ?_, rfl, rfl⟩
  · simp [next, hs, State.tFinished, ht]
  · simp [Fleet.Freed]

/-- `init`, and `P` back in its wait loop. -/
def initSchedule : List Plugin.Act := List.replicate 8 .t ++ List.replicate 16 .p

/-- `init`, a transform that traps, its error, and `OP_CLOSE` to a worker that has left. -/
def trapSchedule : List Plugin.Act :=
  initSchedule ++ List.replicate 10 .t ++ List.replicate 11 .p ++ List.replicate 6 .t

theorem trapSchedule_closes : ∃ s, (bridge (scriptJob [none] [none] [])).Reach
    (fun _ a => a ≠ .die) s ∧ s.t = .done .closed ∧ s.p = .done .left :=
  ⟨_, reach_of_replay trapSchedule (by decide) rfl, rfl, rfl⟩

/-- A run that frees a block after `P` has left it. -/
theorem lifetime_trapped :
    ∃ (b : Fleet (scriptWorld [none]) Unit) (s : State (scriptWorld [none])),
      b.Freed ((), 0) ∧ b.chan ((), 0) = some s ∧ ¬s.PTouches := by
  obtain ⟨s, hreach, ht, hp⟩ := trapSchedule_closes
  have hawaits : ∀ b a, (∀ i, a ≠ .drop i) →
      AwaitsWorker (alone (scriptJob [none] [none] [])) b a := by
    intro b a ha
    cases a with
    | drop i => exact absurd rfl (ha i)
    | _ => trivial
  obtain ⟨b, hreach, hb⟩ := solo hawaits hreach
  obtain ⟨b', hnext, hfreed, hchan, -⟩ := solo_drop (J := scriptJob [none] [none] []) hb ht
  have hs : b'.chan ((), 0) = some s := by
    rw [hchan]
    exact hb.chan
  have hgood : AwaitsWorker (alone (scriptJob [none] [none] [])) b (.drop ()) := by
    intro J s₁ _ hs₁
    rw [Fleet.at, hb.job, hb.chan] at hs₁
    obtain rfl := Option.some.inj hs₁
    exact Or.inl ⟨.left, hp, trivial⟩
  exact ⟨b', s, hfreed, hs, lifetime (.step (a := .drop ()) hreach hgood hnext) hfreed hs⟩

/-- After `init`, `drop` hands `OP_CLOSE` over. -/
def closeSchedule : List Plugin.Act := initSchedule ++ List.replicate 6 .t

theorem closeSchedule_wakes : ∃ s, (bridge (scriptJob [] [] [])).Reach (fun _ a => a ≠ .die) s ∧
    s.t = .done .closed ∧ s.p = .done (.wait .woke .loop) :=
  ⟨_, reach_of_replay closeSchedule (by decide) rfl, rfl, rfl⟩

/-- The worker wakes up in a freed block, and goes on to read it. -/
theorem drop_overtakes :
    ∃ (b : Fleet (scriptWorld []) Unit) (s : State (scriptWorld [])),
      (fleet (alone (scriptJob [] [] []))).Reachable b ∧ b.Freed ((), 0) ∧
        b.chan ((), 0) = some s ∧ s.PTouches ∧
          (next (alone (scriptJob [] [] [])) b .p).isSome := by
  obtain ⟨s, hreach, ht, hp⟩ := closeSchedule_wakes
  obtain ⟨b, hreach, hb⟩ := solo (G := fun _ _ => True) (fun _ _ _ => trivial) hreach
  obtain ⟨b', hnext, hfreed, hchan, hcur⟩ := solo_drop (J := scriptJob [] [] []) hb ht
  have hserved : b'.current = some ((), 0) := by
    rcases hb.worker with ⟨hpending, -⟩ | ⟨-, -, -, -, hserved⟩
    · simp [hp] at hpending
    · simpa [hcur, State.pLeft, hp] using hserved
  refine ⟨b', s, .step (a := .drop ()) hreach trivial hnext, hfreed, by rw [hchan, hb.chan],
    ?_, ?_⟩
  · unfold State.PTouches
    rw [hp]
    exact WaitPc.noConfusion
  · simp [next, pNext, hserved, hchan, hb.chan, Plugin.pNext, hp, pPoint, waitForP]

end Runs

end Driver

end TurbopackWasi.Plugin
