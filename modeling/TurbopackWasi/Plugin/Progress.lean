import TurbopackWasi.Lib.Server
import TurbopackWasi.Plugin.Driver

/-!
# TurbopackWasi.Plugin.Progress

**One sequential worker serves every thread.** The worker blocks inside a channel until
its owner closes it, and the owners of the other channels queue behind. What makes this
work is that a worker asleep in a channel always has an owner that can go on
(`worker_progress`): nobody waits in a circle.

The messages are accounted for by a `Server`: the fleet, with the stages of its channels,
is one (`Fleet.server`).

A thread that hands over to a worker which has reported an error waits for ever
(`strandedThread_stops`). `orderly` shows that the runs without such a step never come to
a stop before the work is done.
-/

namespace TurbopackWasi.Plugin

open TurbopackWasi.Lib
open Rendezvous (TPos PPos)

variable {W : World}

/-! ### The guest does not panic -/

/-- The arguments and results of every import have room in the channel. -/
def Job.Fits (J : Job W) : Prop := ∀ f ∈ J.imports, f.2.sign.1 < nArgs ∧ f.2.sign.2 ≤ nRets

/-- `T` stopped at an index out of bounds. -/
def TPoint.Panics : TPoint W → Prop
  | .panicked => True
  | _ => False

/-- The code of `T` does not end in a panic. -/
def TCode.Calm (c : TCode W) : Prop := c.Obeys (fun _ _ => True) (¬·.Panics)

section Calm

variable {J : Job W} {s s' : State W}

theorem calm_stores {as : List (Nat × Word)} {x : TPoint W} (hx : ¬x.Panics) :
    TCode.Calm (.stores as (.done x)) :=
  Code.obeys_stores (fun _ _ => trivial) hx

theorem calm_resume (r : Asker W) (reply : Reply) : TCode.Calm (.done (r.resume reply)) := by
  cases r with
  | client c => exact not_false
  | closure c n top => exact not_false

theorem calm_bail (e : BridgeError) (top : Top W) : TCode.Calm (.done (bail e top)) := by
  cases top with
  | init => exact not_false
  | transform c => exact not_false

theorem calm_serveCode (hJ : J.Fits) (top : Top W) (op : Word) : (serveCode J top op).Calm := by
  unfold serveCode
  split
  · cases top with
    | init => exact not_false
    | transform c => exact fun v => not_false
  · split
    · exact calm_bail _ top
    · split
      · intro idx
        dsimp only
        split
        · exact calm_bail _ top
        · next name func hf =>
            obtain ⟨hargs, hrets⟩ := hJ _ (List.mem_of_getElem? hf)
            refine Code.obeys_loads fun args => ?_
            rw [if_neg (not_or.mpr ⟨Nat.not_le.mpr hargs, Nat.not_lt.mpr hrets⟩)]
            exact not_false
      · exact calm_bail _ top

theorem calm_requestCode (o : CallerOp W.memSize) (r : Asker W) (op : Word) :
    (requestCode o r op).Calm := by
  unfold requestCode
  split
  · exact fun v => not_false
  · split
    · exact calm_resume r _
    · exact calm_resume r _

theorem calm_tPoint (hJ : J.Fits) {x : TPoint W} (h : tPoint J s x = some s') : s'.t.Calm := by
  cases x with
  | client c =>
      simp only [tPoint] at h
      split at h <;> obtain rfl := Option.some.inj h
      · exact not_false
      · exact calm_stores not_false
      · exact calm_stores not_false
      · exact calm_stores not_false
  | closure c n top =>
      simp only [tPoint] at h
      split at h <;> obtain rfl := Option.some.inj h
      · exact not_false
      · exact calm_stores not_false
      · exact calm_stores not_false
  | woke k =>
      obtain rfl := Option.some.inj h
      cases k with
      | serve top => exact calm_serveCode hJ top _
      | request o r => exact calm_requestCode o r _
  | answered o v r =>
      obtain rfl := Option.some.inj h
      exact calm_resume r _
  | park pc k =>
      simp only [tPoint] at h
      split at h
      · obtain rfl := Option.some.inj h
        exact not_false
      · obtain rfl := Option.some.inj h
        exact not_false
      · simp at h
  | enter name func args top =>
      obtain rfl := Option.some.inj h
      exact not_false
  | signal =>
      obtain rfl := Option.some.inj h
      exact not_false
  | give k =>
      obtain rfl := Option.some.inj h
      exact not_false
  | notify k =>
      obtain rfl := Option.some.inj h
      cases k with
      | none => exact not_false
      | some k => exact not_false
  | closed => simp [tPoint] at h
  | dropped => simp [tPoint] at h
  | panicked => simp [tPoint] at h

theorem calm_tNext (hJ : J.Fits) (hs : s.t.Calm) (h : tNext J s = some s') : s'.t.Calm := by
  cases hc : s.t with
  | load i k =>
      simp only [tNext, hc] at h
      obtain rfl := Option.some.inj h
      rw [hc] at hs
      exact hs _
  | store i v k =>
      simp only [tNext, hc] at h
      obtain rfl := Option.some.inj h
      rw [hc] at hs
      exact hs.2
  | done x =>
      simp only [tNext, hc] at h
      exact calm_tPoint hJ h

theorem calm_wakeT {c : TCode W} (h : c.Calm) : (wakeT c).Calm := by
  match c with
  | .done (.park pc k) => exact not_false
  | .load _ _ | .store _ _ _ | .done (.client _) | .done (.enter _ _ _ _)
  | .done (.closure _ _ _) | .done .signal | .done (.give _) | .done (.notify _)
  | .done (.woke _) | .done (.answered _ _ _) | .done .closed | .done .dropped
  | .done .panicked => exact h

end Calm

/-! ### A channel in good order -/

section Good

variable {J : Job W} {s s' : State W}

theorem pNext_t (hs : Straight s) (h : pNext s = some s') : s'.t = s.t ∨ s'.t = wakeT s.t := by
  by_cases hrun : pPos s.p = .run
  · exact Or.inl (pNext_works hs hrun h).2.1
  · exact (pNext_rests hrun h).2.1

/-- A channel used as the bridge wants it: nobody is stranded, and the worker started on it
with no plugin at hand. -/
structure Good (J : Job W) (s : State W) : Prop where
  listed : J.Listed
  fits : J.Fits
  inv : Inv J s
  contain : Contain s
  calm : s.t.Calm
  begun : s.p ≠ .done .pending → s.signalled = true
  fresh : s.p = .done .pending → s.host = .new
  alive : s.p ≠ .done .dead

theorem good_init (hl : J.Listed) (hf : J.Fits) : Good J (State.init J) where
  listed := hl
  fits := hf
  inv := inv_init
  contain := contain_init
  calm := calm_stores not_false
  begun h := absurd rfl h
  fresh _ := rfl
  alive := nofun

theorem good_tNext (hG : Good J s) (hgood : ¬Strands s .t) (h : tNext J s = some s') :
    Good J s' := by
  have hstraight := hG.contain.parking.straight
  refine ⟨hG.listed, hG.fits, inv_tNext hG.inv h, contain_next (a := .t) hG.contain hgood h,
    calm_tNext hG.fits hG.calm h, fun hp => ?_, fun hp => ?_, fun hp => ?_⟩
  · exact (tNext_frame h).2 (hG.begun fun hp' => hp ((tNext_pIs hstraight h (by simp)).mpr hp'))
  · rw [(tNext_frame h).1]
    exact hG.fresh ((tNext_pIs hstraight h (by simp)).mp hp)
  · exact hG.alive ((tNext_pIs hstraight h (by simp)).mp hp)

theorem not_strands_p : ¬Strands s .p := nofun

theorem good_pNext (hG : Good J s) (h : pNext s = some s') : Good J s' := by
  have hstraight := hG.contain.parking.straight
  obtain ⟨hpending, hdead⟩ := pNext_begun hstraight h
  refine ⟨hG.listed, hG.fits, inv_pNext hG.inv hG.listed.1 hG.listed.2 h,
    contain_next (J := J) (a := .p) hG.contain not_strands_p h, ?_, fun _ => ?_,
    fun hp => absurd hp hpending, hdead⟩
  · rcases pNext_t hstraight h with ht | ht
    · rw [ht]
      exact hG.calm
    · rw [ht]
      exact calm_wakeT hG.calm
  · rw [pNext_signalled h]
    by_cases hp : s.p = .done .pending
    · by_contra hsig
      simp [pNext, hp, pPoint, hsig] at h
    · exact hG.begun hp

theorem State.tFinished_iff : s.tFinished = true ↔ s.t = .done .closed ∨ s.t = .done .dropped := by
  unfold State.tFinished
  split
  · next h => simp [h]
  · next h => simp [h]
  · next h₁ h₂ => simpa using ⟨h₁, h₂⟩

theorem pNext_tFinished (hs : Straight s) (h : pNext s = some s') (ht : s.tFinished = true) :
    s'.tFinished = true := by
  rw [State.tFinished_iff] at ht ⊢
  rcases pNext_t hs h with hn | hn
  · rwa [hn]
  · rw [hn]
    rcases ht with ht | ht
    · exact Or.inl (by rw [ht]; rfl)
    · exact Or.inr (by rw [ht]; rfl)

/-- `T` stops only asleep, at the end, or on a panic. -/
theorem tNext_isSome (h : ∀ x, s.t = .done x →
      x ≠ .closed ∧ x ≠ .dropped ∧ ¬x.Panics ∧ ∀ k, x ≠ .park .parked k) :
    (tNext J s).isSome := by
  match hc : s.t with
  | .load _ _ | .store _ _ _ | .done (.enter _ _ _ _) | .done .signal | .done (.give _)
  | .done (.notify _) | .done (.woke _) | .done (.answered _ _ _) => simp [tNext, hc, tPoint]
  | .done (.client c) =>
      simp only [tNext, hc, tPoint]
      split <;> rfl
  | .done (.closure c n top) =>
      simp only [tNext, hc, tPoint]
      split <;> rfl
  | .done (.park pc k) =>
      simp only [tNext, hc, tPoint]
      split
      · rfl
      · rfl
      · next hpark => exact absurd (by rw [parkUntil_asleep hpark]) ((h _ hc).2.2.2 k)
  | .done .closed => exact absurd rfl (h _ hc).1
  | .done .dropped => exact absurd rfl (h _ hc).2.1
  | .done .panicked => exact absurd trivial (h _ hc).2.2.1

theorem Good.not_panics (hG : Good J s) {x : TPoint W} (ht : s.t = .done x) : ¬x.Panics := by
  have hcalm := hG.calm
  rw [ht] at hcalm
  exact hcalm

/-- The owner of a channel in which the worker sleeps can go on. -/
theorem Good.owner_goes (hG : Good J s) {kp : PWait W} (hp : s.p = .done (.wait .parked kp)) :
    (tNext J s).isSome ∧ s.tFinished = false := by
  have hpark := Rendezvous.noLostWakeUp_of_inv hG.contain.parking.rendezvous hG.contain.sleeps
  have hsleep : s.rendezvous.p = .wait .parked := by
    simp [State.rendezvous, hp, pPos, PPoint.pos]
  have hnotify : s.chan.turn = turnP → tPos s.t = .notify := fun hP =>
    hG.contain.parking.rendezvous.driverSleeps hsleep hP
  -- a closed channel has been handed over with a notify, and a failed start has no worker
  have hends : ∀ x, s.t = .done x → x ≠ .closed ∧ x ≠ .dropped := by
    intro x ht
    have hproto := hG.inv.protoDone ht hp
    constructor
    · rintro rfl
      have hpos := hnotify hproto.1
      simp [ht, tPos, TPoint.pos] at hpos
    · rintro rfl
      exact hproto.2.2
  constructor
  · refine tNext_isSome fun x ht => ⟨(hends x ht).1, (hends x ht).2, hG.not_panics ht, ?_⟩
    rintro k rfl
    exact hpark.notBoth ⟨by simp [State.rendezvous, ht, tPos, TPoint.pos], hsleep⟩
  · rw [Bool.eq_false_iff, ne_eq, State.tFinished_iff]
    rintro (ht | ht)
    · exact (hends _ ht).1 rfl
    · exact (hends _ ht).2 rfl

/-- A thread that cannot go on and is not at its end waits for a worker that can. -/
theorem Good.worker_goes (hG : Good J s) (ht : tNext J s = none) (hf : s.tFinished = false) :
    s.signalled = true ∧ (pNext s).isSome := by
  obtain ⟨x, hx, k, rfl⟩ : ∃ x, s.t = .done x ∧ ∃ k, x = .park .parked k := by
    by_contra hno
    have hstop : ¬(tNext J s).isSome := by simp [ht]
    refine hstop (tNext_isSome fun x hx => ?_)
    have hends := State.tFinished_iff.not.mp (Bool.eq_false_iff.mp hf)
    refine ⟨?_, ?_, hG.not_panics hx, fun k hk => hno ⟨x, hx, k, hk⟩⟩
    · rintro rfl
      exact hends (Or.inl hx)
    · rintro rfl
      exact hends (Or.inr hx)
  constructor
  · refine hG.contain.signalled.resolve_right fun hs => ?_
    rw [hx] at hs
    cases hs
  · refine (hG.contain.progress (J := J) ⟨_, hx, Or.inr ⟨_, rfl⟩⟩).resolve_left ?_
    simp [ht]

end Good

/-! ### The stages of a channel -/

section Stage

variable {J : Job W} {s s' : State W}

/-- How far the service of the channel is. -/
def State.stage (s : State W) : Stage :=
  match s.p with
  | .done .pending => if s.signalled then .posted else .idle
  | .done .left | .done .dead => .finished
  | _ => .serving

theorem State.stage_idle : s.stage = .idle ↔ s.p = .done .pending ∧ s.signalled = false := by
  unfold State.stage
  split
  · next hp => cases s.signalled <;> simp [hp]
  · next hp => simp [hp]
  · next hp => simp [hp]
  · next hp _ _ => exact iff_of_false nofun fun h => hp h.1

theorem State.stage_posted : s.stage = .posted ↔ s.p = .done .pending ∧ s.signalled = true := by
  unfold State.stage
  split
  · next hp => cases s.signalled <;> simp [hp]
  · next hp => simp [hp]
  · next hp => simp [hp]
  · next hp _ _ => exact iff_of_false nofun fun h => hp h.1

theorem State.stage_serving :
    s.stage = .serving ↔ s.p ≠ .done .pending ∧ s.p ≠ .done .left ∧ s.p ≠ .done .dead := by
  unfold State.stage
  split
  · next hp => cases s.signalled <;> simp [hp]
  · next hp => simp [hp]
  · next hp => simp [hp]
  · next h₁ h₂ h₃ => exact iff_of_true rfl ⟨h₁, h₂, h₃⟩

theorem State.stage_finished :
    s.stage = .finished ↔ s.p = .done .left ∨ s.p = .done .dead := by
  unfold State.stage
  split
  · next hp => cases s.signalled <;> simp [hp]
  · next hp => simp [hp]
  · next hp => simp [hp]
  · next _ h₂ h₃ => exact iff_of_false nofun fun h => h.elim h₂ h₃

/-- After a step of `P` on a channel the service goes on, or is over. -/
theorem stage_pNext (hs : Straight s) (h : pNext s = some s') :
    s'.stage = if s'.pLeft then .finished else .serving := by
  obtain ⟨hpending, hdead⟩ := pNext_begun hs h
  split
  · next hleft => exact State.stage_finished.mpr (Or.inl (State.pLeft_iff.mp hleft))
  · next hleft => exact State.stage_serving.mpr ⟨hpending, State.pLeft_iff.not.mp hleft, hdead⟩

/-- A step of `T` moves the service on by its signal only. -/
theorem stage_tNext (hG : Good J s) (h : tNext J s = some s') :
    if s'.signalled && !s.signalled then s.stage = .idle ∧ s'.stage = .posted
    else s'.stage = s.stage := by
  have hstraight := hG.contain.parking.straight
  have hpending := tNext_pIs hstraight h (y := .pending) (by simp)
  have hleft := tNext_pIs hstraight h (y := .left) (by simp)
  have hdead := tNext_pIs hstraight h (y := .dead) (by simp)
  cases hsig : s.signalled with
  | true =>
      have hsig' := (tNext_frame h).2 hsig
      simp only [hsig', Bool.not_true, Bool.and_false, Bool.false_eq_true, if_false]
      cases hstage : s.stage with
      | idle => exact absurd (State.stage_idle.mp hstage).2 (by simp [hsig])
      | posted => exact State.stage_posted.mpr ⟨hpending.mpr (State.stage_posted.mp hstage).1, hsig'⟩
      | serving =>
          obtain ⟨h₁, h₂, h₃⟩ := State.stage_serving.mp hstage
          exact State.stage_serving.mpr ⟨hpending.not.mpr h₁, hleft.not.mpr h₂, hdead.not.mpr h₃⟩
      | finished =>
          exact State.stage_finished.mpr
            ((State.stage_finished.mp hstage).imp hleft.mpr hdead.mpr)
  | false =>
      -- only a channel still to be taken is unsignalled
      have hp : s.p = .done .pending := by
        by_contra hp
        simp [hG.begun hp] at hsig
      have hp' := hpending.mpr hp
      have hidle : s.stage = .idle := State.stage_idle.mpr ⟨hp, hsig⟩
      cases hsig' : s'.signalled with
      | true =>
          simp only [Bool.not_false, Bool.and_true, if_true]
          exact ⟨hidle, State.stage_posted.mpr ⟨hp', hsig'⟩⟩
      | false =>
          simp only [Bool.not_false, Bool.and_true, Bool.false_eq_true, if_false]
          rw [hidle]
          exact State.stage_idle.mpr ⟨hp', hsig'⟩

end Stage

namespace Driver

variable {ι : Type} [DecidableEq ι] {jobs : ι → List (Job W)} {b b' : Fleet W ι}

/-! ### The fleet is a server -/

def Fleet.server (b : Fleet W ι) : Server (Id ι) where
  stage c := match b.chan c with
    | some s => s.stage
    | none => .idle
  inflight := b.inflight
  queue := b.queue
  current := b.current
  delivered := b.delivered
  begun := b.served

omit [DecidableEq ι] in
theorem Fleet.server_stage {c : Id ι} {s : State W} (h : b.chan c = some s) :
    b.server.stage c = s.stage := by
  simp [Fleet.server, h]

theorem Fleet.server_set (c : Id ι) (s : State W) :
    (b.set c s).server = { b.server with stage := Function.update b.server.stage c s.stage } := by
  have hstage : (b.set c s).server.stage = Function.update b.server.stage c s.stage := by
    funext d
    by_cases h : d = c
    · subst h
      rw [Function.update_self]
      exact Fleet.server_stage (Fleet.set_chan_self b d s)
    · rw [Function.update_of_ne h]
      simp only [Fleet.server, Fleet.set_chan_of_ne b s h]
  rw [← hstage]
  rfl

/-- A step that leaves the stage of its channel alone. -/
theorem Fleet.server_set_same {c : Id ι} {s : State W} (h : b.server.stage c = s.stage) :
    (b.set c s).server = b.server := by
  rw [Fleet.server_set, ← h, Function.update_eq_self]

/-- A channel belongs to an instance in good order that its thread is at, or has dropped;
or it is left and nobody's any more. -/
inductive Kept (jobs : ι → List (Job W)) (n : ι → Nat) (c : Id ι) (s : State W) : Prop
  | inUse {J : Job W} : c.2 = n c.1 → (jobs c.1)[c.2]? = some J → Good J s → Kept jobs n c s
  | dropped {J : Job W} : c.2 < n c.1 → s.tFinished = true → Good J s → Kept jobs n c s
  | left : c.2 < n c.1 → s.p = .done .left → Kept jobs n c s

structure Live (jobs : ι → List (Job W)) (b : Fleet W ι) : Prop where
  server : b.server.Inv
  kept : ∀ c s, b.chan c = some s → Kept jobs b.job c s

instance (J : Job W) : Decidable J.Listed :=
  decidable_of_iff (J.imports.isEmpty = false ∧ ∀ n ∈ J.imports.map Prod.fst, '\n' ∉ n)
    (by simp [Job.Listed])

instance (J : Job W) : Decidable J.Fits :=
  inferInstanceAs (Decidable (∀ f ∈ J.imports, f.2.sign.1 < nArgs ∧ f.2.sign.2 ≤ nRets))

instance (s : State W) : Decidable (s.p = .done .left) := decidable_of_iff _ State.pLeft_iff

/-- What is asked of a run: the instances fit the channel, nobody is stranded, and a
dropped block is not reused while `P` is in it. -/
def Keeps (jobs : ι → List (Job W)) (b : Fleet W ι) : Act ι → Prop
  | .create i => ∀ J, (jobs i)[b.job i]? = some J → J.Listed ∧ J.Fits
  | .t i => ∀ s, b.chan (b.at i) = some s → ¬Strands s .t
  | .reuse c _ => ∀ s, b.chan c = some s → s.p = .done .left
  | _ => True

instance (jobs : ι → List (Job W)) (b : Fleet W ι) : ∀ a, Decidable (Keeps jobs b a)
  | .create i => inferInstanceAs (Decidable (∀ J ∈ (jobs i)[b.job i]?, J.Listed ∧ J.Fits))
  | .t i => inferInstanceAs (Decidable (∀ s ∈ b.chan (b.at i), ¬Strands s .t))
  | .reuse c _ => inferInstanceAs (Decidable (∀ s ∈ b.chan c, s.p = .done .left))
  | .drop _ | .deliver _ | .p => isTrue trivial

omit [DecidableEq ι] in
theorem live_init : Live jobs (Fleet.init : Fleet W ι) where
  server := Server.inv_empty
  kept c s h := by cases h

theorem kept_set {c : Id ι} {s : State W}
    (hall : ∀ c s, b.chan c = some s → Kept jobs b.job c s) (hs : Kept jobs b.job c s) :
    ∀ d s', (b.set c s).chan d = some s' → Kept jobs b.job d s' := by
  intro d s' h
  rcases Fleet.set_cases h with ⟨rfl, rfl⟩ | ⟨-, h⟩
  · exact hs
  · exact hall d s' h

omit [DecidableEq ι] in
/-- The channel of a thread's current instance is in use. -/
theorem Kept.good_of_current {i : ι} {n : ι → Nat} {J : Job W} {s : State W}
    (hk : Kept jobs n (i, n i) s) (hJ : (jobs i)[n i]? = some J) : Good J s := by
  cases hk with
  | inUse _ hJ' hG =>
      obtain rfl := Option.some.inj (hJ.symm.trans hJ')
      exact hG
  | dropped hlt _ _ => exact absurd hlt (Nat.lt_irrefl _)
  | left hlt _ => exact absurd hlt (Nat.lt_irrefl _)

omit [DecidableEq ι] in
/-- A channel that `P` steps on is in good order. -/
theorem kept_pNext {n : ι → Nat} {c : Id ι} {s s' : State W} (hk : Kept jobs n c s)
    (h : Plugin.pNext s = some s') : Straight s ∧ Kept jobs n c s' := by
  cases hk with
  | inUse heq hJ hG =>
      exact ⟨hG.contain.parking.straight, .inUse heq hJ (good_pNext hG h)⟩
  | dropped hlt ht hG =>
      have hstraight := hG.contain.parking.straight
      exact ⟨hstraight, .dropped hlt (pNext_tFinished hstraight h ht) (good_pNext hG h)⟩
  | left _ hp => simp [Plugin.pNext, hp, pPoint] at h

theorem live_create {i : ι} (hL : Live jobs b) (hgood : Keeps jobs b (.create i))
    (h : next jobs b (.create i) = some b') : Live jobs b' := by
  obtain ⟨J, hJ, hnone, rfl⟩ := create_cases h
  obtain ⟨hl, hf⟩ := hgood J hJ
  refine ⟨?_, kept_set hL.kept (.inUse rfl hJ (good_init hl hf))⟩
  rw [Fleet.server_set_same]
  · exact hL.server
  · simp [Fleet.server, hnone, State.stage, State.init]

theorem live_t {i : ι} (hL : Live jobs b) (hgood : Keeps jobs b (.t i))
    (h : next jobs b (.t i) = some b') : Live jobs b' := by
  obtain ⟨J, s, s', hJ, hs, hn, rfl⟩ := tNext_cases h
  have hG := (hL.kept _ _ hs).good_of_current hJ
  have hG' := good_tNext hG (hgood s hs) hn
  refine ⟨?_, kept_set hL.kept (.inUse rfl hJ hG')⟩
  have hstage := stage_tNext hG hn
  rw [← Fleet.server_stage hs] at hstage
  split
  · next hsig =>
      rw [if_pos hsig] at hstage
      have hpost := Server.Step.post (σ := b.server) hstage.1
      rw [← hstage.2] at hpost
      have hserver : ({ b.set (b.at i) s' with inflight := b.inflight ++ [b.at i] } :
          Fleet W ι).server =
          { (b.set (b.at i) s').server with inflight := b.inflight ++ [b.at i] } := rfl
      rw [hserver, Fleet.server_set]
      exact hL.server.step hpost
  · next hsig =>
      rw [if_neg hsig] at hstage
      show (b.set (b.at i) s').server.Inv
      rw [Fleet.server_set_same hstage.symm]
      exact hL.server

theorem live_p (hL : Live jobs b) (h : next jobs b .p = some b') : Live jobs b' := by
  obtain ⟨c, s, s', hs, hn, ⟨hcur, rfl⟩ | ⟨hcur, q, hq, rfl⟩⟩ := pNext_cases h
  · obtain ⟨hstraight, hk⟩ := kept_pNext (hL.kept c s hs) hn
    refine ⟨?_, kept_set hL.kept hk⟩
    have hserver : ({ b.set c s' with current := if s'.pLeft then none else some c } :
        Fleet W ι).server =
        { (b.set c s').server with current := if s'.pLeft then none else some c } := rfl
    rw [hserver, Fleet.server_set, stage_pNext hstraight hn]
    split
    · exact hL.server.step (.finish hcur)
    · -- still in the same call
      have hserving := (hL.server.serving c).mp hcur
      rw [← hserving, Function.update_eq_self]
      show Server.Inv { b.server with current := some c }
      rw [← hcur]
      exact hL.server
  · obtain ⟨hstraight, hk⟩ := kept_pNext (hL.kept c s hs) hn
    refine ⟨?_, kept_set hL.kept hk⟩
    have hserver : ({ b.set c s' with
        queue := q, current := some c, served := b.served ++ [c] } : Fleet W ι).server =
        { (b.set c s').server with
          queue := q, current := some c, begun := b.served ++ [c] } := rfl
    have hposted : b.server.stage c = .posted := by
      refine (hL.server.posted c).mp (List.mem_append_right _ ?_)
      show c ∈ b.queue
      simp [hq]
    rw [Fleet.server_stage hs, State.stage_posted] at hposted
    have hleft : s'.pLeft = false := by
      simp only [Plugin.pNext, hposted.1, pPoint, hposted.2, if_true] at hn
      obtain rfl := Option.some.inj hn
      rfl
    rw [hserver, Fleet.server_set, stage_pNext hstraight hn, hleft]
    exact hL.server.step (.take hcur hq)

theorem kept_drop {i : ι} {c : Id ι} {s : State W} (hk : Kept jobs b.job c s)
    (hfin : c = b.at i → s.tFinished = true) :
    Kept jobs (Function.update b.job i (b.job i + 1)) c s := by
  by_cases hc : c.1 = i
  · have hjob : Function.update b.job i (b.job i + 1) c.1 = b.job i + 1 := by
      rw [hc, Function.update_self]
    cases hk with
    | inUse heq hJ hG =>
        rw [hc] at heq
        exact .dropped (by omega) (hfin (Prod.ext hc heq)) hG
    | dropped hlt ht hG =>
        rw [hc] at hlt
        exact .dropped (by omega) ht hG
    | left hlt hp =>
        rw [hc] at hlt
        exact .left (by omega) hp
  · have hjob : Function.update b.job i (b.job i + 1) c.1 = b.job c.1 :=
      Function.update_of_ne hc ..
    cases hk with
    | inUse heq hJ hG => exact .inUse (hjob ▸ heq) hJ hG
    | dropped hlt ht hG => exact .dropped (hjob ▸ hlt) ht hG
    | left hlt hp => exact .left (hjob ▸ hlt) hp

theorem live_drop {i : ι} (hL : Live jobs b) (h : next jobs b (.drop i) = some b') :
    Live jobs b' := by
  obtain ⟨s, hs, hfin, rfl⟩ := drop_cases h
  refine ⟨hL.server, fun c s' hs' => kept_drop (hL.kept c s' hs') ?_⟩
  rintro rfl
  obtain rfl := Option.some.inj (hs.symm.trans hs')
  exact State.tFinished_iff.mpr hfin

/-- **One step** keeps the fleet in good order. -/
theorem live_next {a : Act ι} (hL : Live jobs b) (hgood : Keeps jobs b a)
    (h : next jobs b a = some b') : Live jobs b' := by
  cases a with
  | create i => exact live_create hL hgood h
  | t i => exact live_t hL hgood h
  | drop i => exact live_drop hL h
  | deliver c =>
      simp only [next] at h
      split at h
      · next hc =>
          obtain rfl := Option.some.inj h
          exact ⟨hL.server.step (.deliver (σ := b.server) (List.perm_cons_erase hc)), hL.kept⟩
      · simp at h
  | p => exact live_p hL h
  | reuse c ch =>
      obtain ⟨s, hs, hlt, rfl⟩ := reuse_cases h
      refine ⟨?_, kept_set hL.kept (.left hlt (hgood s hs))⟩
      have hstage : b.server.stage c = s.stage := Fleet.server_stage hs
      rw [Fleet.server_set_same (s := { s with chan := ch }) hstage]
      exact hL.server

/-! ### Nobody waits in a circle -/

/-- A worker inside a channel, or the owner of that channel, can go on. -/
theorem worker_progress {c : Id ι} (hL : Live jobs b) (hcur : b.current = some c) :
    (next jobs b .p).isSome ∨ (next jobs b (.t c.1)).isSome := by
  have hserving := (hL.server.serving c).mp hcur
  obtain ⟨s, hs⟩ : ∃ s, b.chan c = some s := by
    cases hc : b.chan c with
    | none => simp [Fleet.server, hc] at hserving
    | some s => exact ⟨s, rfl⟩
  rw [Fleet.server_stage hs, State.stage_serving] at hserving
  obtain ⟨hpending, hleft, hdead⟩ := hserving
  cases hn : Plugin.pNext s with
  | some s' => exact Or.inl (by simp [next, pNext, hcur, hs, hn])
  | none =>
      right
      -- it sleeps, so its owner is neither asleep nor gone
      have hsleeps : s.signalled = true → ∃ k, s.p = .done (.wait .parked k) := by
        intro hsig
        by_contra hno
        have hsome := pNext_isSome hsig fun y hp => ⟨fun h => hleft (h ▸ hp),
          fun h => hdead (h ▸ hp), fun k h => hno ⟨k, h ▸ hp⟩⟩
        simp [hn] at hsome
      have howner : ∀ {J}, Good J s →
          (Plugin.tNext J s).isSome ∧ s.tFinished = false := fun hG => by
        obtain ⟨k, hp⟩ := hsleeps (hG.begun hpending)
        exact hG.owner_goes hp
      cases hL.kept c s hs with
      | inUse heq hJ hG =>
          obtain ⟨s', hs'⟩ := Option.isSome_iff_exists.mp (howner hG).1
          have hat : b.at c.1 = c := Prod.ext rfl heq.symm
          simp [next, tNext, hat, hs, ← heq, hJ, hs']
      | dropped _ ht hG => simp [(howner hG).2] at ht
      | left _ hp => exact absurd hp hleft

/-- A message that has not been taken can be delivered, or its turn can come. -/
theorem message_progress {c : Id ι} (hL : Live jobs b) (hc : c ∈ b.inflight ++ b.queue) :
    ∃ a, (∀ c ch, a ≠ .reuse c ch) ∧ (next jobs b a).isSome := by
  rcases List.mem_append.mp hc with hin | hq
  · exact ⟨.deliver c, by simp, by simp [next, hin]⟩
  · cases hcur : b.current with
    | some d =>
        rcases worker_progress hL hcur with h | h
        · exact ⟨.p, by simp, h⟩
        · exact ⟨.t d.1, by simp, h⟩
    | none =>
        obtain ⟨d, q, hdq⟩ := List.exists_cons_of_ne_nil (List.ne_nil_of_mem hq)
        have hposted : b.server.stage d = .posted := by
          refine (hL.server.posted d).mp (List.mem_append_right _ ?_)
          show d ∈ b.queue
          simp [hdq]
        obtain ⟨s, hs⟩ : ∃ s, b.chan d = some s := by
          cases hd : b.chan d with
          | none => simp [Fleet.server, hd] at hposted
          | some s => exact ⟨s, rfl⟩
        rw [Fleet.server_stage hs, State.stage_posted] at hposted
        refine ⟨.p, by simp, ?_⟩
        simp [next, pNext, hcur, hdq, hs, Plugin.pNext, hposted.1, pPoint, hposted.2]

/-- A thread with unfinished work leaves somebody something to do. -/
theorem thread_progress {i : ι} (hL : Live jobs b) (hi : b.job i < (jobs i).length) :
    ∃ a, (∀ c ch, a ≠ .reuse c ch) ∧ (next jobs b a).isSome := by
  have hJ : (jobs i)[b.job i]? = some (jobs i)[b.job i] := List.getElem?_eq_getElem hi
  cases hs : b.chan (b.at i) with
  | none => exact ⟨.create i, by simp, by simp [next, hJ, hs]⟩
  | some s =>
      have hG := (hL.kept _ _ hs).good_of_current hJ
      cases hn : Plugin.tNext (jobs i)[b.job i] s with
      | some s' => exact ⟨.t i, by simp, by simp [next, tNext, hJ, hs, hn]⟩
      | none =>
          cases hf : s.tFinished with
          | true => exact ⟨.drop i, by simp, by simp [next, hs, hf]⟩
          | false =>
              obtain ⟨hsig, hgo⟩ := hG.worker_goes hn hf
              cases hstage : s.stage with
              | idle => simp [(State.stage_idle.mp hstage).2] at hsig
              | posted =>
                  rw [← Fleet.server_stage hs] at hstage
                  exact message_progress hL ((hL.server.posted _).mpr hstage)
              | serving =>
                  rw [← Fleet.server_stage hs] at hstage
                  have hcur : b.current = some (b.at i) := (hL.server.serving _).mpr hstage
                  obtain ⟨s', hs'⟩ := Option.isSome_iff_exists.mp hgo
                  exact ⟨.p, by simp, by simp [next, pNext, hcur, hs, hs']⟩
              | finished =>
                  rcases State.stage_finished.mp hstage with hp | hp
                  · simp [Plugin.pNext, hp, pPoint] at hgo
                  · simp [Plugin.pNext, hp, pPoint] at hgo

/-- What a fleet of threads and its worker keep to. -/
structure Orderly (jobs : ι → List (Job W)) (b : Fleet W ι) : Prop where
  /-- Whoever has unfinished work, somebody can go on. -/
  progress : ∀ i, b.job i < (jobs i).length →
    ∃ a, (∀ c ch, a ≠ .reuse c ch) ∧ (next jobs b a).isSome
  /-- Every signal is one message, -/
  posted : ∀ c s, b.chan c = some s → s.signalled = true → c ∈ b.inflight ++ b.delivered
  once : (b.inflight ++ b.delivered).Nodup
  /-- and the calls of `serveChannel` take the messages in the order of the queue: none is
  left when nobody can go on. -/
  order : b.delivered = b.served ++ b.queue
  all : (∀ a, (∀ c ch, a ≠ .reuse c ch) → next jobs b a = none) →
    ∀ c s, b.chan c = some s → s.signalled = true → b.served.count c = 1
  /-- The worker acts on the plugin of the channel that it serves, and starts with none. -/
  isolated : ∀ b', next jobs b .p = some b' → ∃ c s s', b.chan c = some s ∧
    Plugin.pNext s = some s' ∧ b'.chan = Function.update b.chan c (some s') ∧
      (b.current = some c ∨ b.current = none ∧ b.queue.head? = some c ∧ s.host = .new)

omit [DecidableEq ι] in
theorem Live.posted (hL : Live jobs b) {c : Id ι} {s : State W} (hs : b.chan c = some s)
    (hsig : s.signalled = true) : c ∈ b.inflight ++ b.queue ∨ c ∈ b.served := by
  cases hstage : s.stage with
  | idle => simp [(State.stage_idle.mp hstage).2] at hsig
  | posted =>
      rw [← Fleet.server_stage hs] at hstage
      exact Or.inl ((hL.server.posted c).mpr hstage)
  | serving =>
      rw [← Fleet.server_stage hs] at hstage
      exact Or.inr ((hL.server.begun c).mpr (Or.inl hstage))
  | finished =>
      rw [← Fleet.server_stage hs] at hstage
      exact Or.inr ((hL.server.begun c).mpr (Or.inr hstage))

theorem orderly_of_live (hL : Live jobs b) : Orderly jobs b where
  progress i hi := thread_progress hL hi
  posted c s hs hsig := by
    have horder : b.delivered = b.served ++ b.queue := hL.server.order
    rw [horder]
    rcases hL.posted hs hsig with hc | hc
    · rcases List.mem_append.mp hc with hc | hc
      · exact List.mem_append_left _ hc
      · exact List.mem_append_right _ (List.mem_append_right _ hc)
    · exact List.mem_append_right _ (List.mem_append_left _ hc)
  once := hL.server.once
  order := hL.server.order
  all hstop c s hs hsig := by
    have hserved : c ∈ b.served := by
      refine (hL.posted hs hsig).resolve_left fun hc => ?_
      obtain ⟨a, ha, hgo⟩ := message_progress hL hc
      simp [hstop a ha] at hgo
    have hdelivered : b.delivered.Nodup := (List.nodup_append.mp hL.server.once).2.1
    have horder : b.delivered = b.served ++ b.queue := hL.server.order
    rw [horder] at hdelivered
    exact List.count_eq_one_of_mem (List.nodup_append.mp hdelivered).1 hserved
  isolated b' h := by
    obtain ⟨c, s, s', hs, hn, ⟨hcur, rfl⟩ | ⟨hcur, q, hq, rfl⟩⟩ := pNext_cases h
    · exact ⟨c, s, s', hs, hn, rfl, Or.inl hcur⟩
    · refine ⟨c, s, s', hs, hn, rfl, Or.inr ⟨hcur, by simp [hq], ?_⟩⟩
      have hposted : b.server.stage c = .posted := by
        refine (hL.server.posted c).mp (List.mem_append_right _ ?_)
        show c ∈ b.queue
        simp [hq]
      rw [Fleet.server_stage hs, State.stage_posted] at hposted
      cases hL.kept c s hs with
      | inUse _ _ hG => exact hG.fresh hposted.1
      | dropped _ _ hG => exact hG.fresh hposted.1
      | left _ hp => simp [hp] at hposted

/-- **No deadlock.** In every run whose instances fit the channel and in which no
thread hands over to a worker that has reported an error, somebody can go on as long as
there is work, and every signal is served once and in order. -/
theorem orderly (h : (fleet jobs).Reach (Keeps jobs) b) : Orderly jobs b := by
  refine orderly_of_live (h.invariant (fun b hb => ?_) fun hL hgood hn => live_next hL hgood hn)
  obtain rfl := hb
  exact live_init

/-- Two threads: the first only creates an instance and drops it. -/
def twoThreads : Bool → List (Job (scriptWorld [some ['f']]))
  | false => [scriptJob [some ['f']] [] []]
  | true => [readingClosure]

/-- The second thread signals while the worker serves the first. -/
def queuedSchedule : List (Act Bool) :=
  [.create false, .create true] ++ List.replicate 11 (.t false) ++ [.deliver (false, 0)] ++
    List.replicate 10 .p ++ List.replicate 11 (.t true) ++ [.deliver (true, 0)]

/-- The worker serves the first thread to its end, and the second up to its import. -/
def servedSchedule : List (Act Bool) :=
  queuedSchedule ++ List.replicate 6 .p ++ List.replicate 6 (.t false) ++ List.replicate 3 .p ++
    [.drop false] ++ List.replicate 16 .p ++ List.replicate 13 (.t true) ++ List.replicate 15 .p

theorem orderly_twoThreads :
    ∃ b b', (fleet twoThreads).replay .init queuedSchedule = some b ∧
      b.current = some (false, 0) ∧ b.queue = [(true, 0)] ∧ Orderly twoThreads b ∧
      (fleet twoThreads).replay .init servedSchedule = some b' ∧
      b'.current = some (true, 0) ∧ b'.served = [(false, 0), (true, 0)] ∧ b'.job false = 1 ∧
      Orderly twoThreads b' := by
  have hqueued : (fleet twoThreads).EachStep (Keeps twoThreads) .init queuedSchedule := by
    decide +kernel
  have hserved : (fleet twoThreads).EachStep (Keeps twoThreads) .init servedSchedule := by
    decide +kernel
  have hmid : ((fleet twoThreads).replay .init queuedSchedule).map
      (fun b => (b.current, b.queue)) = some (some (false, 0), [(true, 0)]) := by
    decide +kernel
  have hend : ((fleet twoThreads).replay .init servedSchedule).map
      (fun b => (b.current, b.served, b.job false)) =
      some (some (true, 0), [(false, 0), (true, 0)], 1) := by
    decide +kernel
  obtain ⟨b, hb, hqueue⟩ := Option.map_eq_some_iff.mp hmid
  obtain ⟨b', hb', hlast⟩ := Option.map_eq_some_iff.mp hend
  simp only [Prod.mk.injEq] at hqueue hlast
  exact ⟨b, b', hb, hqueue.1, hqueue.2, orderly (.of_eachStep (.start rfl) hqueued hb), hb',
    hlast.1, hlast.2.1, hlast.2.2, orderly (.of_eachStep (.start rfl) hserved hb')⟩

/-- The thread of `nestedError` waits for ever: its instance is not dropped, and nobody can
go on. -/
theorem strandedThread_stops :
    ∃ b : Fleet (scriptWorld [some ['f']]) Unit, (fleet (alone nestedError)).Reachable b ∧
      b.job () < (alone nestedError ()).length ∧ ∀ a, next (alone nestedError) b a = none := by
  obtain ⟨s, hreach, ht, hp⟩ : ∃ s, (bridge nestedError).Reach (fun _ a => a ≠ .die) s ∧
      s.t = .done (.park .parked (.serve (.transform []))) ∧ s.p = .done .left :=
    ⟨_, reach_of_replay nestedErrorSchedule (by decide) rfl, rfl, rfl⟩
  obtain ⟨b, hreach, hb⟩ := solo (G := fun _ _ => True) (fun _ _ _ => trivial) hreach
  have hat : b.at () = ((), 0) := by rw [Fleet.at, hb.job]
  obtain ⟨hin, hq, hcur⟩ : b.inflight = [] ∧ b.queue = [] ∧ b.current = none := by
    rcases hb.worker with ⟨hpending, -⟩ | ⟨-, -, hin, hq, hcur⟩
    · simp [hp] at hpending
    · exact ⟨hin, hq, by simpa [State.pLeft, hp] using hcur⟩
  refine ⟨b, hreach, by simp [hb.job], fun a => ?_⟩
  cases a with
  | create i => simp [next, hat, hb.chan]
  | t i =>
      have hstop : Plugin.tNext nestedError s = none := by simp [Plugin.tNext, ht, tPoint, parkUntil]
      simp [next, tNext, hat, hb.job, hb.chan, hstop]
  | drop i => simp [next, hat, hb.chan, State.tFinished, ht]
  | deliver c => simp [next, hin]
  | p => simp [next, pNext, hcur, hq]
  | reuse c ch => simp [next, hb.job]

end Driver

end TurbopackWasi.Plugin
