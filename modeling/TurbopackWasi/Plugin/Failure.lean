import TurbopackWasi.Plugin.Parking

/-!
# TurbopackWasi.Plugin.Failure

**Failure containment, and where it ends.** `P` leaves `serveChannel` for good when an
exception reaches its handler, and whoever waits at that moment is told `OP_ERROR`.
What no one accounts for is a party that goes on afterwards:

* `T` may hand over once more. A closure that ignores the `Err` of a `Caller`
  operation returns to `serve`, which answers an import that nobody waits for and
  parks (`nestedError_strands`); a client that keeps using its instance parks in
  `request` or `serve`.
* the worker may die while `T` waits for it; no one else hands the turn back.

`contained` shows that these, with the stale wait of the rendezvous, are the only ways
to strand the guest.
-/

namespace TurbopackWasi.Plugin

open TurbopackWasi.Lib
open Rendezvous (TPos PPos)

variable {W : World}

/-- `T` has handed over a request and is in, or on its way to, `park_until`. -/
def State.TWaits (s : State W) (k : TWait W) : Prop := ∃ x, s.t = .done x ∧ x.WaitsFor k

/-- `P` has left the channel, or is about to notify for the last time, or is dead. -/
def State.PGone (s : State W) : Prop := ∃ y, s.p = .done y ∧ y.Gone

/-- `T` is in the code of `drop` or past it. -/
def State.TCloses (s : State W) : Prop :=
  s.t.Dropping ∨ s.t = .done (.notify none) ∨ s.t = .done .closed

/-- **Containment**: `T` never sleeps on a channel that `P` has left, and while it waits
somebody can go on. -/
structure Contained (J : Job W) (s : State W) : Prop where
  live : ∀ k, s.t = .done (.park .parked k) → s.p ≠ .done .left ∧ s.p ≠ .done .dead
  progress : ∀ k, s.TWaits k → (next J s .t).isSome ∨ (next J s .p).isSome

/-- The steps that strand `T`. -/
inductive Strands (s : State W) : Act → Prop
  /-- `T` hands a request over to a `P` that has reported an error, or is dead. -/
  | handOff {k : TWait W} : s.t = .done (.give (some k)) → s.PGone → Strands s .t
  /-- `T` executes a stale wait. -/
  | stale : Stale s .t → Strands s .t
  /-- The worker dies while `T` waits for the turn, or for the notify that comes with it. -/
  | death {k : TWait W} : s.TWaits k → s.chan.turn = turnP ∨ pPos s.p = .notify →
      Strands s .die

section Decidability

variable {s : State W}

instance : Decidable s.PGone :=
  match hp : s.p with
  | .done (.notify none) => isTrue ⟨_, hp, trivial⟩
  | .done .left => isTrue ⟨_, hp, trivial⟩
  | .done .dead => isTrue ⟨_, hp, trivial⟩
  | .load _ _ | .store _ _ _ | .done .pending | .done .entryTurn | .done .entryOp
  | .done (.wait _ _) | .done (.woke _) | .done (.instantiate _ _ _ _) | .done (.run _ _)
  | .done (.service _ _) | .done (.give _) | .done (.notify (some _)) =>
      isFalse (by simp [State.PGone, hp, PPoint.Gone])

instance : Decidable (∃ k, s.t = .done (.give (some k))) :=
  match s.t with
  | .done (.give (some k)) => isTrue ⟨k, rfl⟩
  | .load _ _ | .store _ _ _ | .done (.client _) | .done (.enter _ _ _ _)
  | .done (.closure _ _ _) | .done .signal | .done (.give none) | .done (.notify _)
  | .done (.park _ _) | .done (.woke _) | .done (.answered _ _ _) | .done .closed
  | .done .dropped | .done .panicked => isFalse (by simp)

instance : Decidable (∃ k, s.TWaits k) :=
  match ht : s.t with
  | .done (.notify (some k)) => isTrue ⟨k, _, ht, Or.inl rfl⟩
  | .done (.park pc k) => isTrue ⟨k, _, ht, Or.inr ⟨pc, rfl⟩⟩
  | .load _ _ | .store _ _ _ | .done (.client _) | .done (.enter _ _ _ _)
  | .done (.closure _ _ _) | .done .signal | .done (.give _) | .done (.notify none)
  | .done (.woke _) | .done (.answered _ _ _) | .done .closed | .done .dropped
  | .done .panicked => isFalse (by simp [State.TWaits, ht, TPoint.WaitsFor])

instance {a : Act} : Decidable (Stale s a) :=
  decidable_of_iff (a = .t ∧ s.rendezvous.t = .park (.wait turnT) ∧ s.rendezvous.p ≠ .notify)
    (by simp [Stale, Rendezvous.StaleWait])

theorem strands_iff {a : Act} :
    Strands s a ↔ a = .t ∧ (∃ k, s.t = .done (.give (some k))) ∧ s.PGone ∨ Stale s a ∨
      a = .die ∧ (∃ k, s.TWaits k) ∧ (s.chan.turn = turnP ∨ pPos s.p = .notify) := by
  constructor
  · rintro (⟨ht, hp⟩ | hstale | ⟨hw, hturn⟩)
    · exact Or.inl ⟨rfl, ⟨_, ht⟩, hp⟩
    · exact Or.inr (Or.inl hstale)
    · exact Or.inr (Or.inr ⟨rfl, ⟨_, hw⟩, hturn⟩)
  · rintro (⟨rfl, ⟨k, ht⟩, hp⟩ | ⟨rfl, hstale⟩ | ⟨rfl, ⟨k, hw⟩, hturn⟩)
    · exact .handOff ht hp
    · exact .stale ⟨rfl, hstale⟩
    · exact .death hw hturn

instance {a : Act} : Decidable (Strands s a) := decidable_of_iff _ strands_iff.symm

end Decidability

/-- What the runs without such steps keep. -/
structure Contain (s : State W) : Prop where
  parking : Parking s
  sleeps : Rendezvous.GuestSleeps s.rendezvous
  signalled : s.signalled = true ∨ s.t.Obeys (fun _ _ => True) (· = .signal)
  closing : s.chan.words fOp = opClose → s.TCloses
  served : ∀ k, s.TWaits k → s.chan.turn = turnP → ¬s.PGone

/-! ### Positions -/

section Positions

variable {s s' : State W}

theorem State.TWaits.pos {k : TWait W} (h : s.TWaits k) :
    tPos s.t = .notify ∨ ∃ pc, tPos s.t = .park pc := by
  obtain ⟨x, ht, rfl | ⟨pc, rfl⟩⟩ := h
  · exact Or.inl (by rw [ht]; rfl)
  · exact Or.inr ⟨pc, by rw [ht]; rfl⟩

theorem State.PGone.pos (h : s.PGone) : pPos s.p = .notify ∨ pPos s.p = .out := by
  obtain ⟨y, hp, hy⟩ := h
  rw [hp]
  match y with
  | .notify none => exact Or.inl rfl
  | .left => exact Or.inr rfl
  | .dead => exact Or.inr rfl
  | .pending | .entryTurn | .entryOp | .wait _ _ | .woke _ | .instantiate _ _ _ _ | .run _ _
  | .service _ _ | .give _ | .notify (some _) => exact hy.elim

/-- Closing and waiting exclude each other. -/
theorem State.TCloses.not_waits {k : TWait W} (h : s.TCloses) : ¬s.TWaits k := by
  rintro ⟨x, ht, hx⟩
  rcases h with hd | hn | hc
  · rw [ht] at hd
    obtain rfl : x = .give none := hd
    rcases hx with hx | ⟨pc, hx⟩ <;> cases hx
  · rw [ht] at hn
    obtain rfl := Code.done.inj hn
    rcases hx with hx | ⟨pc, hx⟩ <;> cases hx
  · rw [ht] at hc
    obtain rfl := Code.done.inj hc
    rcases hx with hx | ⟨pc, hx⟩ <;> cases hx

theorem pGone_of_wakeP (hp : s'.p = wakeP s.p) (h : s'.PGone) : s.PGone := by
  obtain ⟨y, hy, hgone⟩ := h
  rw [hp] at hy
  match hc : s.p with
  | .load _ _ => rw [hc] at hy; cases hy
  | .store _ _ _ => rw [hc] at hy; cases hy
  | .done (.wait pc k) =>
      rw [hc] at hy
      obtain rfl := Code.done.inj hy
      exact hgone.elim
  | .done .pending | .done .entryTurn | .done .entryOp | .done (.woke _)
  | .done (.instantiate _ _ _ _) | .done (.run _ _) | .done (.service _ _) | .done (.give _)
  | .done (.notify _) | .done .left | .done .dead =>
      rw [hc] at hy
      exact ⟨y, hc.trans hy, hgone⟩

theorem tWaits_of_wakeT {k : TWait W} (ht : s'.t = wakeT s.t) (h : s'.TWaits k) : s.TWaits k := by
  obtain ⟨x, hx, hk⟩ := h
  rw [ht] at hx
  match hc : s.t with
  | .load _ _ => rw [hc] at hx; cases hx
  | .store _ _ _ => rw [hc] at hx; cases hx
  | .done (.park pc k') =>
      rw [hc] at hx
      obtain rfl := Code.done.inj hx
      rcases hk with hk | ⟨pc', hk⟩
      · cases hk
      · cases hk
        exact ⟨_, hc, Or.inr ⟨pc, rfl⟩⟩
  | .done (.client _) | .done (.enter _ _ _ _) | .done (.closure _ _ _) | .done .signal
  | .done (.give _) | .done (.notify _) | .done (.woke _) | .done (.answered _ _ _)
  | .done .closed | .done .dropped | .done .panicked =>
      rw [hc] at hx
      exact ⟨x, hc.trans hx, hk⟩

theorem tCloses_of_wakeT (ht : s'.t = wakeT s.t) (h : s.TCloses) : s'.TCloses := by
  unfold State.TCloses
  rw [ht]
  rcases h with hd | hn | hc
  · match hs : s.t with
    | .load _ _ => rw [hs] at hd; exact Or.inl hd
    | .store _ _ _ => rw [hs] at hd; exact Or.inl hd
    | .done x =>
        rw [hs] at hd
        obtain rfl : x = .give none := hd
        exact Or.inl rfl
  · rw [hn]
    exact Or.inr (Or.inl rfl)
  · rw [hc]
    exact Or.inr (Or.inr rfl)

end Positions

/-! ### Steps -/

section Steps

variable {J : Job W} {s s' : State W}

/-- `T` comes to wait only by handing over. -/
theorem tNext_waits (hs : Straight s) (h : tNext J s = some s') {k : TWait W}
    (hw : s'.TWaits k) :
    s.t = .done (.give (some k)) ∧ s'.p = s.p ∨
      s.TWaits k ∧ s'.chan.turn = s.chan.turn ∧ (s'.p = s.p ∨ s'.p = wakeP s.p) := by
  by_cases hrun : tPos s.t = .run
  · obtain ⟨-, -, hcode⟩ := tNext_works hs hrun h
    have hpos : tPos s'.t = .run ∨ tPos s'.t = .store ∨ tPos s'.t = .out := by
      rcases hcode with hcode | hcode
      · exact hcode.pos
      · exact hcode.pos.imp_right Or.inl
    rcases hw.pos with hn | ⟨pc, hn⟩ <;> simp [hn] at hpos
  · obtain ⟨x, hx, hk⟩ := hw
    match hc : s.t with
    | .load _ _ => exact absurd (by rw [hc]; rfl) hrun
    | .store _ _ _ => exact absurd (by rw [hc]; rfl) hrun
    | .done (.give k') =>
        simp only [tNext, hc] at h
        obtain rfl := Option.some.inj h
        obtain rfl := Code.done.inj hx
        rcases hk with hk | ⟨pc, hk⟩ <;> cases hk
        exact Or.inl ⟨rfl, rfl⟩
    | .done (.notify none) =>
        simp only [tNext, hc] at h
        obtain rfl := Option.some.inj h
        obtain rfl := Code.done.inj hx
        rcases hk with hk | ⟨pc, hk⟩ <;> cases hk
    | .done (.notify (some k')) =>
        simp only [tNext, hc] at h
        obtain rfl := Option.some.inj h
        obtain rfl := Code.done.inj hx
        rcases hk with hk | ⟨pc, hk⟩ <;> cases hk
        exact Or.inr ⟨⟨_, hc, Or.inl rfl⟩, rfl, Or.inr rfl⟩
    | .done (.park pc k') =>
        simp only [tNext, hc, tPoint] at h
        split at h
        · obtain rfl := Option.some.inj h
          obtain rfl := Code.done.inj hx
          rcases hk with hk | ⟨pc, hk⟩ <;> cases hk
        · obtain rfl := Option.some.inj h
          obtain rfl := Code.done.inj hx
          rcases hk with hk | ⟨pc', hk⟩ <;> cases hk
          exact Or.inr ⟨⟨_, hc, Or.inr ⟨pc, rfl⟩⟩, rfl, Or.inl rfl⟩
        · simp at h
    | .done .closed => simp [tNext, hc, tPoint] at h
    | .done .dropped => simp [tNext, hc, tPoint] at h
    | .done (.client _) | .done (.enter _ _ _ _) | .done (.closure _ _ _) | .done .signal
    | .done (.woke _) | .done (.answered _ _ _) | .done .panicked =>
        exact absurd (by rw [hc]; rfl) hrun

/-- `P` comes to be gone only with its last hand-off, or on `OP_CLOSE`. -/
theorem pNext_gone (hs : Straight s) (h : pNext s = some s') (hg : s'.PGone) :
    s'.chan.turn = turnT ∨ s.chan.words fOp = opClose ∧ s'.t = s.t ∨
      s.PGone ∧ s'.chan.turn = s.chan.turn := by
  by_cases hrun : pPos s.p = .run
  · obtain ⟨-, ht, hcode | ⟨hop, -⟩⟩ := pNext_works hs hrun h
    · have hpos := hcode.pos
      rcases hg.pos with hn | hn <;> simp [hn] at hpos
    · exact Or.inr (Or.inl ⟨hop, ht⟩)
  · obtain ⟨y, hy, hgone⟩ := hg
    match hc : s.p with
    | .load _ _ => exact absurd (by rw [hc]; rfl) hrun
    | .store _ _ _ => exact absurd (by rw [hc]; rfl) hrun
    | .done (.give k) =>
        simp only [pNext, hc] at h
        obtain rfl := Option.some.inj h
        exact Or.inl rfl
    | .done (.notify none) =>
        simp only [pNext, hc] at h
        obtain rfl := Option.some.inj h
        exact Or.inr (Or.inr ⟨⟨_, hc, trivial⟩, rfl⟩)
    | .done (.notify (some k)) =>
        simp only [pNext, hc] at h
        obtain rfl := Option.some.inj h
        obtain rfl := Code.done.inj hy
        exact hgone.elim
    | .done .pending =>
        simp only [pNext, hc, pPoint] at h
        split at h
        · obtain rfl := Option.some.inj h
          obtain rfl := Code.done.inj hy
          exact hgone.elim
        · simp at h
    | .done .entryTurn =>
        simp only [pNext, hc] at h
        obtain rfl := Option.some.inj h
        obtain rfl := Code.done.inj hy
        exact hgone.elim
    | .done .entryOp =>
        simp only [pNext, hc] at h
        obtain rfl := Option.some.inj h
        obtain rfl := Code.done.inj hy
        exact hgone.elim
    | .done (.wait pc k) =>
        simp only [pNext, hc, pPoint] at h
        split at h
        · obtain rfl := Option.some.inj h
          obtain rfl := Code.done.inj hy
          exact hgone.elim
        · obtain rfl := Option.some.inj h
          obtain rfl := Code.done.inj hy
          exact hgone.elim
        · simp at h
    | .done .left => simp [pNext, hc, pPoint] at h
    | .done .dead => simp [pNext, hc, pPoint] at h
    | .done (.woke _) | .done (.instantiate _ _ _ _) | .done (.run _ _) | .done (.service _ _) =>
        exact absurd (by rw [hc]; rfl) hrun

/-- Nobody waits for the turn of a `P` that is gone. -/
theorem served_next {a : Act} (hI : Contain s) (hgood : ¬Strands s a)
    (h : next J s a = some s') {k : TWait W} (hw : s'.TWaits k) (hP : s'.chan.turn = turnP) :
    ¬s'.PGone := by
  intro hg
  cases a with
  | t =>
      rcases tNext_waits hI.parking.straight h hw with ⟨hgive, hp⟩ | ⟨hw, hturn, hp | hp⟩
      · refine hgood (.handOff hgive ?_)
        unfold State.PGone at hg
        rwa [hp] at hg
      · refine hI.served k hw (hturn ▸ hP) ?_
        unfold State.PGone at hg
        rwa [hp] at hg
      · exact hI.served k hw (hturn ▸ hP) (pGone_of_wakeP hp hg)
  | p =>
      have hw' : s.TWaits k := by
        by_cases hrun : pPos s.p = .run
        · obtain ⟨-, ht, -⟩ := pNext_works hI.parking.straight hrun h
          unfold State.TWaits at hw
          rwa [ht] at hw
        · obtain ⟨-, ht | ht, -⟩ := pNext_rests hrun h
          · unfold State.TWaits at hw
            rwa [ht] at hw
          · exact tWaits_of_wakeT ht hw
      rcases pNext_gone hI.parking.straight h hg with hT | ⟨hop, -⟩ | ⟨hg, hturn⟩
      · exact turnP_ne_turnT (hP.symm.trans hT)
      · exact (hI.closing hop).not_waits hw'
      · exact hI.served k hw' (hturn ▸ hP) hg
  | die =>
      obtain rfl := Option.some.inj h
      exact hgood (.death hw (Or.inl hP))

/-- A store that puts `OP_CLOSE` into `op`, or leaves it there. -/
theorem op_of_update {w : Nat → Word} {i : Nat} {v : Word} (hv : KeepsOpen i v)
    (h : Function.update w i v fOp = opClose) : w fOp = opClose := by
  by_cases hi : i = fOp
  · subst hi
    rw [Function.update_self] at h
    exact absurd h (hv rfl)
  · rwa [Function.update_of_ne (Ne.symm hi)] at h

theorem closing_tNext (hI : Contain s) (h : tNext J s = some s')
    (hop : s'.chan.words fOp = opClose) : s'.TCloses := by
  match hc : s.t with
  | .load i k =>
      simp only [tNext, hc] at h
      obtain rfl := Option.some.inj h
      rcases hI.closing hop with hd | hn | hn
      · rw [hc] at hd
        exact Or.inl (hd _)
      · simp [hc] at hn
      · simp [hc] at hn
  | .store i v k =>
      simp only [tNext, hc] at h
      obtain rfl := Option.some.inj h
      rcases hI.parking.straight.t.resolve_left (by simp [hc]) with hs | hd
      · rw [hc] at hs
        rcases hI.closing (op_of_update hs.1 hop) with hd | hn | hn
        · rw [hc] at hd
          exact Or.inl hd.2
        · simp [hc] at hn
        · simp [hc] at hn
      · rw [hc] at hd
        exact Or.inl hd.2
  | .done x =>
      by_cases hx : x.pos = .run
      · simp only [tNext, hc] at h
        obtain ⟨hchan, -⟩ := tPoint_works hx h
        rw [hchan] at hop
        rcases hI.closing hop with hd | hn | hn
        · rw [hc] at hd
          obtain rfl : x = .give none := hd
          simp [TPoint.pos] at hx
        · rw [hc] at hn
          obtain rfl := Code.done.inj hn
          simp [TPoint.pos] at hx
        · rw [hc] at hn
          obtain rfl := Code.done.inj hn
          simp [TPoint.pos] at hx
      · have hrest := tNext_rests (J := J) (by rw [hc]; exact hx) h
        rw [hrest.2.2] at hop
        simp only [tNext, hc] at h
        rcases hI.closing hop with hd | hn | hn
        · rw [hc] at hd
          obtain rfl : x = .give none := hd
          obtain rfl := Option.some.inj h
          exact Or.inr (Or.inl rfl)
        · rw [hc] at hn
          obtain rfl := Code.done.inj hn
          obtain rfl := Option.some.inj h
          exact Or.inr (Or.inr rfl)
        · rw [hc] at hn
          obtain rfl := Code.done.inj hn
          simp [tPoint] at h

theorem closing_pNext (hI : Contain s) (h : pNext s = some s')
    (hop : s'.chan.words fOp = opClose) : s'.TCloses := by
  have hkeep : s'.t = s.t → s.chan.words fOp = opClose → s'.TCloses := by
    intro ht hop
    unfold State.TCloses
    rw [ht]
    exact hI.closing hop
  match hc : s.p with
  | .load i k =>
      simp only [pNext, hc] at h
      obtain rfl := Option.some.inj h
      exact hI.closing hop
  | .store i v k =>
      have hs := hI.parking.straight.p.resolve_left (by simp [hc])
      rw [hc] at hs
      simp only [pNext, hc] at h
      obtain rfl := Option.some.inj h
      exact hI.closing (op_of_update hs.1 hop)
  | .done y =>
      by_cases hy : y.pos = .run
      · simp only [pNext, hc] at h
        obtain ⟨hchan, ht, -⟩ := pPoint_works hy h
        rw [hchan] at hop
        exact hkeep ht hop
      · obtain ⟨-, ht | ht, hwords⟩ := pNext_rests (by rw [hc]; exact hy) h
        · rw [hwords] at hop
          exact hkeep ht hop
        · rw [hwords] at hop
          exact tCloses_of_wakeT ht (hI.closing hop)

/-- What a step of `T` leaves alone: the host, and the posted message. -/
theorem tNext_frame (h : tNext J s = some s') :
    s'.host = s.host ∧ (s.signalled = true → s'.signalled = true) := by
  match hc : s.t with
  | .load _ _ | .store _ _ _ | .done (.enter _ _ _ _) | .done (.give _) | .done (.notify _)
  | .done (.woke _) | .done (.answered _ _ _) =>
      simp only [tNext, hc] at h
      obtain rfl := Option.some.inj h
      exact ⟨rfl, id⟩
  | .done .signal =>
      simp only [tNext, hc] at h
      obtain rfl := Option.some.inj h
      exact ⟨rfl, fun _ => rfl⟩
  | .done (.client c) =>
      simp only [tNext, hc, tPoint] at h
      split at h <;> obtain rfl := Option.some.inj h <;> exact ⟨rfl, id⟩
  | .done (.closure c n top) =>
      simp only [tNext, hc, tPoint] at h
      split at h <;> obtain rfl := Option.some.inj h <;> exact ⟨rfl, id⟩
  | .done (.park pc k) =>
      simp only [tNext, hc, tPoint] at h
      split at h
      · obtain rfl := Option.some.inj h
        exact ⟨rfl, id⟩
      · obtain rfl := Option.some.inj h
        exact ⟨rfl, id⟩
      · simp at h
  | .done .closed => simp [tNext, hc, tPoint] at h
  | .done .dropped => simp [tNext, hc, tPoint] at h
  | .done .panicked => simp [tNext, hc, tPoint] at h

theorem pService_signalled (m : W.engine.Module) (i : Inst W.engine.Priv) (k : PWait W)
    (x : Service) : (pService s m i k x).signalled = s.signalled := by
  cases x with
  | alloc size => simp only [pService]; split <;> rfl
  | free ptr size => simp only [pService]; split <;> rfl
  | read ptr gptr len =>
      simp only [pService]
      split
      · rfl
      · split <;> rfl
  | write ptr gptr len => simp only [pService]; split <;> rfl

theorem pRun_signalled (m : W.engine.Module) (i : Inst W.engine.Priv) (phase : Phase)
    (f : W.engine.Frame) : (pRun s m i phase f).signalled = s.signalled := by
  unfold pRun
  split
  · rfl
  · split <;> rfl
  · rfl
  · rfl

theorem pNext_signalled (h : pNext s = some s') : s'.signalled = s.signalled := by
  match hc : s.p with
  | .load _ _ | .store _ _ _ | .done .entryTurn | .done .entryOp | .done (.woke _)
  | .done (.instantiate _ _ _ _) | .done (.give _) | .done (.notify _) =>
      simp only [pNext, hc] at h
      obtain rfl := Option.some.inj h
      rfl
  | .done .pending =>
      simp only [pNext, hc, pPoint] at h
      split at h
      · obtain rfl := Option.some.inj h
        rfl
      · simp at h
  | .done (.wait pc k) =>
      simp only [pNext, hc, pPoint] at h
      split at h
      · obtain rfl := Option.some.inj h
        rfl
      · obtain rfl := Option.some.inj h
        rfl
      · simp at h
  | .done (.run phase f) =>
      simp only [pNext, hc, pPoint] at h
      split at h <;> obtain rfl := Option.some.inj h
      · rfl
      · exact pRun_signalled _ _ phase f
  | .done (.service x k) =>
      simp only [pNext, hc, pPoint] at h
      split at h <;> obtain rfl := Option.some.inj h
      · rfl
      · exact pService_signalled _ _ k x
  | .done .left => simp [pNext, hc, pPoint] at h
  | .done .dead => simp [pNext, hc, pPoint] at h

/-- Whoever is past `start`'s call of `signal` has signalled. -/
theorem signalled_tNext (hI : Contain s) (h : tNext J s = some s') :
    s'.signalled = true ∨ s'.t.Obeys (fun _ _ => True) (· = .signal) := by
  rcases hI.signalled with hs | hs
  · exact Or.inl ((tNext_frame h).2 hs)
  · match hc : s.t with
    | .load i k =>
        rw [hc] at hs
        simp only [tNext, hc] at h
        obtain rfl := Option.some.inj h
        exact Or.inr (hs _)
    | .store i v k =>
        rw [hc] at hs
        simp only [tNext, hc] at h
        obtain rfl := Option.some.inj h
        exact Or.inr hs.2
    | .done x =>
        rw [hc] at hs
        obtain rfl : x = .signal := hs
        simp only [tNext, hc] at h
        obtain rfl := Option.some.inj h
        exact Or.inl rfl

theorem signalled_pNext (hI : Contain s) (h : pNext s = some s') :
    s'.signalled = true ∨ s'.t.Obeys (fun _ _ => True) (· = .signal) := by
  refine hI.signalled.imp (fun hs => (pNext_signalled h).trans hs) fun hs => ?_
  have ht : s'.t = s.t ∨ s'.t = wakeT s.t := by
    by_cases hrun : pPos s.p = .run
    · exact Or.inl (pNext_works hI.parking.straight hrun h).2.1
    · exact (pNext_rests hrun h).2.1
  rcases ht with ht | ht
  · rw [ht]
    exact hs
  · rw [ht]
    match hc : s.t with
    | .load _ _ => rw [hc] at hs; exact hs
    | .store _ _ _ => rw [hc] at hs; exact hs
    | .done x =>
        rw [hc] at hs
        obtain rfl : x = .signal := hs
        exact rfl

theorem contain_init : Contain (State.init J) where
  parking := parking_init
  sleeps := by
    intro ht
    cases ht
  signalled := Or.inr (Code.obeys_stores (fun _ _ => trivial) rfl)
  closing h := absurd h (by decide : (0 : Word) ≠ opClose)
  served := by
    rintro k ⟨x, hx, -⟩
    cases hx

/-- **One step**: what does not strand `T` keeps it contained. -/
theorem contain_next {a : Act} (hI : Contain s) (hgood : ¬Strands s a)
    (h : next J s a = some s') : Contain s' where
  parking := parking_next hI.parking h
  sleeps := by
    refine guestSleeps_next hI.parking hI.sleeps (fun hst => ?_) (fun ha ht hn => ?_) h
    · obtain rfl := hst.1
      exact hgood (.stale hst)
    · subst ha
      -- a sleeping guest is a waiting one
      have hw : ∃ k, s.TWaits k := by
        match hc : s.t with
        | .done (.park pc k) => exact ⟨k, _, hc, Or.inr ⟨pc, rfl⟩⟩
        | .load _ _ | .store _ _ _ | .done (.client _) | .done (.enter _ _ _ _)
        | .done (.closure _ _ _) | .done .signal | .done (.give _) | .done (.notify _)
        | .done (.woke _) | .done (.answered _ _ _) | .done .closed | .done .dropped
        | .done .panicked => simp [State.rendezvous, hc, tPos, TPoint.pos] at ht
      obtain ⟨k, hw⟩ := hw
      exact hgood (.death hw (Or.inr hn))
  signalled := by
    cases a with
    | t => exact signalled_tNext hI h
    | p => exact signalled_pNext hI h
    | die =>
        obtain rfl := Option.some.inj h
        exact hI.signalled
  closing hop := by
    cases a with
    | t => exact closing_tNext hI h hop
    | p => exact closing_pNext hI h hop
    | die =>
        obtain rfl := Option.some.inj h
        exact hI.closing hop
  served _ hw hP := served_next hI hgood h hw hP

/-! ### Containment -/

/-- A sleeping `T` has somebody to wake it. -/
theorem Contain.live (hI : Contain s) {k : TWait W} (ht : s.t = .done (.park .parked k)) :
    s.p ≠ .done .left ∧ s.p ≠ .done .dead := by
  have hsleep : s.rendezvous.t = .park .parked := by simp [State.rendezvous, ht, tPos, TPoint.pos]
  have hgone : ∀ y, s.p = .done y → y.Gone → y.pos ≠ .notify → False := by
    intro y hp hy hn
    rcases hI.parking.rendezvous.turn with hP | hT
    · exact hI.served k ⟨_, ht, Or.inr ⟨_, rfl⟩⟩ hP ⟨y, hp, hy⟩
    · have hpn : pPos s.p = .notify := hI.sleeps hsleep hT
      rw [hp] at hpn
      exact hn hpn
  refine ⟨fun hp => ?_, fun hp => ?_⟩
  · exact hgone _ hp trivial (by simp [PPoint.pos])
  · exact hgone _ hp trivial (by simp [PPoint.pos])

theorem parkUntil_asleep {turn : Word} {pc : ParkPc} (h : parkUntil turn pc = .asleep) :
    pc = .parked := by
  cases pc with
  | load => by_cases ht : turn = turnT <;> simp [parkUntil, ht] at h
  | reload => simp [parkUntil] at h
  | wait e => by_cases ht : turn = e <;> simp [parkUntil, ht] at h
  | parked => rfl

theorem waitForP_asleep {turn : Word} {pc : WaitPc} (h : waitForP turn pc = .asleep) :
    pc = .parked := by
  cases pc with
  | load => by_cases ht : turn = turnP <;> simp [waitForP, ht] at h
  | trace => simp [waitForP] at h
  | wait => by_cases ht : turn = turnT <;> simp [waitForP, ht] at h
  | parked => rfl
  | woke => simp [waitForP] at h

/-- `P` stops only asleep, unsignalled, or gone. -/
theorem pNext_isSome (hsig : s.signalled = true)
    (h : ∀ y, s.p = .done y → y ≠ .left ∧ y ≠ .dead ∧ ∀ k, y ≠ .wait .parked k) :
    (pNext s).isSome := by
  match hc : s.p with
  | .load _ _ | .store _ _ _ | .done .entryTurn | .done .entryOp | .done (.woke _)
  | .done (.instantiate _ _ _ _) | .done (.give _) | .done (.notify _) => simp [pNext, hc, pPoint]
  | .done .pending => simp [pNext, hc, pPoint, hsig]
  | .done (.run phase f) =>
      simp only [pNext, hc, pPoint]
      split <;> rfl
  | .done (.service x k) =>
      simp only [pNext, hc, pPoint]
      split <;> rfl
  | .done (.wait pc k) =>
      simp only [pNext, hc, pPoint]
      split
      · rfl
      · rfl
      · next hw => exact absurd (by rw [waitForP_asleep hw]) ((h _ hc).2.2 k)
  | .done .left => exact absurd rfl (h _ hc).1
  | .done .dead => exact absurd rfl (h _ hc).2.1

/-- While `T` waits, `T` or `P` can go on. -/
theorem Contain.progress (hI : Contain s) {k : TWait W} (hw : s.TWaits k) :
    (tNext J s).isSome ∨ (pNext s).isSome := by
  obtain ⟨x, ht, rfl | ⟨pc, rfl⟩⟩ := hw
  · exact Or.inl (by simp [tNext, ht, tPoint])
  · cases hstep : parkUntil s.chan.turn pc with
    | leave => exact Or.inl (by simp [tNext, ht, tPoint, hstep])
    | goto pc' => exact Or.inl (by simp [tNext, ht, tPoint, hstep])
    | asleep =>
        right
        obtain rfl := parkUntil_asleep hstep
        have hsleep : s.rendezvous.t = .park .parked := by
          simp [State.rendezvous, ht, tPos, TPoint.pos]
        have hsig : s.signalled = true := by
          refine hI.signalled.resolve_right fun hs => ?_
          rw [ht] at hs
          cases hs
        obtain ⟨hleft, hdead⟩ := hI.live ht
        refine pNext_isSome hsig fun y hp => ⟨?_, ?_, fun kp => ?_⟩
        · rintro rfl
          exact hleft hp
        · rintro rfl
          exact hdead hp
        · rintro rfl
          -- both would sleep with no notify to come
          have hboth := (Rendezvous.noLostWakeUp_of_inv hI.parking.rendezvous hI.sleeps).notBoth
          exact hboth ⟨hsleep, by simp [State.rendezvous, hp, pPos, PPoint.pos]⟩

/-- **Failure containment.** In every run none of whose steps strands `T`, `T` never sleeps on a
channel that `P` has left, and while it waits somebody can go on. -/
theorem contained (h : (bridge J).Reach (fun s a => ¬Strands s a) s) : Contained J s := by
  have hI : Contain s := by
    refine h.invariant (fun s hs => ?_) fun hI hgood hn => contain_next hI hgood hn
    obtain rfl := hs
    exact contain_init
  exact ⟨fun k => hI.live, fun k => hI.progress⟩

end Steps

/-- The guest's client transforms once; the plugin calls `f`, whose closure reads plugin memory,
and traps after it. -/
def lateTrap : Job (scriptWorld [some ['f'], none]) :=
  scriptJob [some ['f'], none] [none] [.readBuf 0 ⟨2, 3, by decide, by decide, by decide⟩]

/-- `init`, the transform with its import, and the trap; `P` is at its last notify. -/
def lateTrapSchedule : List Act :=
  List.replicate 11 .t ++ List.replicate 16 .p ++ List.replicate 13 .t ++ List.replicate 15 .p ++
    List.replicate 14 .t ++ List.replicate 13 .p ++ List.replicate 11 .t ++ List.replicate 7 .p

/-- `T` sleeps until `P` notifies it of the error; it gets the error, and closes the channel. -/
theorem contained_lateTrap :
    ∃ s s', (bridge lateTrap).replay (State.init lateTrap) lateTrapSchedule = some s ∧
      s.t = .done (.park .parked (.serve (.transform []))) ∧ s.p = .done (.notify none) ∧
      Contained lateTrap s ∧
      (bridge lateTrap).replay (State.init lateTrap)
        (lateTrapSchedule ++ .p :: List.replicate 6 .t) = some s' ∧
      s'.t = .done .closed ∧ s'.p = .done .left ∧ Contained lateTrap s' := by
  have hreported : (bridge lateTrap).EachStep (fun s a => ¬Strands s a) (State.init lateTrap)
      lateTrapSchedule := by decide +kernel
  have hclosed : (bridge lateTrap).EachStep (fun s a => ¬Strands s a) (State.init lateTrap)
      (lateTrapSchedule ++ .p :: List.replicate 6 .t) := by decide +kernel
  exact ⟨_, _, rfl, rfl, rfl, contained (.of_eachStep (.start rfl) hreported rfl), rfl, rfl, rfl,
    contained (.of_eachStep (.start rfl) hclosed rfl)⟩

/-- The guest's client transforms once; the plugin calls `f`, whose closure allocates plugin
memory and ignores the answer. The plugin's `__alloc` traps. -/
def nestedError : Job (scriptWorld [some ['f']]) :=
  scriptJob [some ['f']] [none] [.alloc 16]

/-- `init`, the transform up to the import, the failing `alloc`, and the closure's return. -/
def nestedErrorSchedule : List Act :=
  List.replicate 8 .t ++ List.replicate 13 .p ++ List.replicate 10 .t ++ List.replicate 11 .p ++
    List.replicate 9 .t ++ List.replicate 7 .p ++ List.replicate 9 .t

/-- `serve` answers the import of a plugin that is gone, and sleeps. -/
theorem nestedError_strands :
    ∃ s, (bridge nestedError).Reachable s ∧
      s.t = .done (.park .parked (.serve (.transform []))) ∧ s.p = .done .left :=
  ⟨_, Machine.Reachable.replay nestedErrorSchedule (.start rfl) rfl, rfl, rfl⟩

end TurbopackWasi.Plugin
