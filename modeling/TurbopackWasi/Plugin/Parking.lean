import TurbopackWasi.Plugin.Conformance

/-!
# TurbopackWasi.Plugin.Parking

**A channel's two programs are parties of the rendezvous.** Forgetting what a party does
with the turn maps a state of the channel's machine to a state of the machine of
`Rendezvous` (`State.rendezvous`), and every step but the worker's death to at most
one of its steps. So the invariants of the rendezvous hold of the channel; a death is
followed by hand.
-/

namespace TurbopackWasi.Plugin

open TurbopackWasi.Lib
open Rendezvous (TPos PPos)

variable {W : World}

/-! ### Positions in the rendezvous -/

def TPoint.pos : TPoint W → TPos
  | .give _ => .store
  | .notify _ => .notify
  | .park pc _ => .park pc
  | .closed | .dropped => .out
  | .client _ | .enter _ _ _ _ | .closure _ _ _ | .signal | .woke _ | .answered _ _ _
  | .panicked => .run

def PPoint.pos : PPoint W → PPos
  | .pending | .entryTurn | .entryOp => .idle
  | .wait pc _ => .wait pc
  | .woke _ | .instantiate _ _ _ _ | .run _ _ | .service _ _ => .run
  | .give _ => .store
  | .notify _ => .notify
  | .left | .dead => .out

def tPos : TCode W → TPos
  | .done x => x.pos
  | .load _ _ | .store _ _ _ => .run

def pPos : PCode W → PPos
  | .done y => y.pos
  | .load _ _ | .store _ _ _ => .run

/-- The rendezvous of a channel. -/
def State.rendezvous (s : State W) : Rendezvous.State := ⟨s.chan.turn, tPos s.t, pPos s.p⟩

/-- Where the straight-line code of `T` may end: at work, before a hand-off, or done. -/
def TPoint.Goes (x : TPoint W) : Prop := x.pos = .run ∨ x.pos = .store ∨ x.pos = .out

/-- Where the straight-line code of `P` may end. -/
def PPoint.Goes (y : PPoint W) : Prop := y.pos = .run ∨ y.pos = .store

/-- A store other than that of `OP_CLOSE`. -/
def KeepsOpen (i : Nat) (v : Word) : Prop := i = fOp → v ≠ opClose

/-- The code of `T` apart from that of `drop`. -/
def TCode.Straight (c : TCode W) : Prop := c.Obeys KeepsOpen TPoint.Goes

/-- The code of `drop`. -/
def TCode.Dropping (c : TCode W) : Prop := c.Obeys (fun _ _ => True) (· = .give none)

def PCode.Straight (c : PCode W) : Prop := c.Obeys KeepsOpen PPoint.Goes

theorem TCode.Straight.pos {c : TCode W} (h : c.Straight) :
    tPos c = .run ∨ tPos c = .store ∨ tPos c = .out := by
  cases c with
  | load i k => exact Or.inl rfl
  | store i v k => exact Or.inl rfl
  | done x => exact h

theorem TCode.Dropping.pos {c : TCode W} (h : c.Dropping) : tPos c = .run ∨ tPos c = .store := by
  cases c with
  | load i k => exact Or.inl rfl
  | store i v k => exact Or.inl rfl
  | done x =>
      have hx : x = .give none := h
      exact Or.inr (by rw [hx]; rfl)

theorem PCode.Straight.pos {c : PCode W} (h : c.Straight) : pPos c = .run ∨ pPos c = .store := by
  cases c with
  | load i k => exact Or.inl rfl
  | store i v k => exact Or.inl rfl
  | done y => exact h

/-- No straight-line code ends inside a hand-off or a wait loop, and only `drop` stores
`OP_CLOSE`. -/
structure Straight (s : State W) : Prop where
  t : (∃ x, s.t = .done x) ∨ s.t.Straight ∨ s.t.Dropping
  p : (∃ y, s.p = .done y) ∨ s.p.Straight

/-- Stores that leave `op` alone, then one to `op`. -/
theorem obeys_stores_op {σ : Type} {P : σ → Prop} {as : List (Nat × Word)} {v : Word}
    {k : Code Nat Word σ} (has : ∀ a ∈ as, a.1 ≠ fOp) (hv : v ≠ opClose)
    (hk : k.Obeys KeepsOpen P) : (Code.stores (as ++ [(fOp, v)]) k).Obeys KeepsOpen P := by
  refine Code.obeys_stores (fun a ha => ?_) hk
  rcases List.mem_append.mp ha with ha | ha
  · exact fun h => absurd h (has a ha)
  · obtain rfl := List.mem_singleton.mp ha
    exact fun _ => hv

/-- Stores of consecutive words past `op`. -/
theorem zipIdx_ne_op {base : Nat} (hbase : fOp < base) {vs : List Word} {a : Nat × Word}
    (ha : a ∈ vs.zipIdx.map fun v => (base + v.2, v.1)) : a.1 ≠ fOp := by
  obtain ⟨b, -, rfl⟩ := List.mem_map.mp ha
  show base + b.2 ≠ fOp
  omega

/-! ### The code of `T` -/

section TStraight

variable {J : Job W}

theorem straight_startCode : (startCode J).Straight :=
  Code.obeys_stores (by simp [KeepsOpen, fOp, fModulePtr, fModuleLen, fNamesPtr, fNamesLen,
    opInit, opClose]) (Or.inl rfl)

theorem CallerOp.op_ne_close {n : Nat} (o : CallerOp n) : o.op ≠ opClose := by
  cases o with
  | alloc size => exact (by decide : opCallerAlloc ≠ opClose)
  | free ptr size => exact (by decide : opCallerFree ≠ opClose)
  | readBuf ptr buf => exact (by decide : opCallerRead ≠ opClose)
  | writeBuf ptr buf => exact (by decide : opCallerWrite ≠ opClose)

theorem straight_callerCode (o : CallerOp W.memSize) (r : Asker W) :
    (callerCode o r).Straight := by
  refine obeys_stores_op ?_ o.op_ne_close (Or.inr (Or.inl rfl))
  cases o <;> simp [fArgs, fOp, fDataPtr, fDataLen]

theorem straight_transformCode (ptr len mark commentsProxy : Word) (c : W.guest.Client) :
    (transformCode ptr len mark commentsProxy c).Straight :=
  Code.obeys_stores (by simp [KeepsOpen, fOp, fProgramPtr, fProgramLen, fMark, fCommentsProxy,
    opTransform, opClose]) (Or.inr (Or.inl rfl))

theorem dropping_dropCode : (dropCode : TCode W).Dropping := ⟨trivial, rfl⟩

theorem straight_importDone (rets : Nat) (outs : List Word) (top : Top W) :
    (importDone rets outs top).Straight :=
  obeys_stores_op (fun _ ha => zipIdx_ne_op (by decide) ha) (by decide) (Or.inr (Or.inl rfl))

theorem straight_resume (r : Asker W) (reply : Reply) :
    TCode.Straight (.done (r.resume reply)) := by
  cases r with
  | client c => exact Or.inl rfl
  | closure c n top => exact Or.inl rfl

theorem straight_bail (e : BridgeError) (top : Top W) :
    TCode.Straight (.done (bail e top)) := by
  cases top with
  | init => exact Or.inr (Or.inr rfl)
  | transform c => exact Or.inl rfl

theorem straight_serveCode (top : Top W) (op : Word) : (serveCode J top op).Straight := by
  unfold serveCode
  split
  · cases top with
    | init => exact Or.inl rfl
    | transform c => exact fun v => Or.inl rfl
  · split
    · exact straight_bail _ top
    · split
      · intro idx
        dsimp only
        split
        · exact straight_bail _ top
        · refine Code.obeys_loads fun args => ?_
          split
          · exact Or.inl rfl
          · exact Or.inl rfl
      · exact straight_bail _ top

theorem straight_requestCode (o : CallerOp W.memSize) (r : Asker W) (op : Word) :
    (requestCode o r op).Straight := by
  unfold requestCode
  split
  · exact fun v => Or.inl rfl
  · split
    · exact straight_resume r _
    · exact straight_resume r _

/-- `T` at work touches neither the channel nor `P`. -/
theorem tPoint_works {s s' : State W} {x : TPoint W} (hx : x.pos = .run)
    (h : tPoint J s x = some s') :
    s'.chan = s.chan ∧ s'.p = s.p ∧ (s'.t.Straight ∨ s'.t.Dropping) := by
  cases x with
  | client c =>
      simp only [tPoint] at h
      split at h <;> obtain rfl := Option.some.inj h
      · exact ⟨rfl, rfl, Or.inl (Or.inl rfl)⟩
      · exact ⟨rfl, rfl, Or.inl (straight_callerCode _ _)⟩
      · exact ⟨rfl, rfl, Or.inl (straight_transformCode _ _ _ _ _)⟩
      · exact ⟨rfl, rfl, Or.inr dropping_dropCode⟩
  | enter name func args top =>
      obtain rfl := Option.some.inj h
      exact ⟨rfl, rfl, Or.inl (Or.inl rfl)⟩
  | closure c n top =>
      simp only [tPoint] at h
      split at h <;> obtain rfl := Option.some.inj h
      · exact ⟨rfl, rfl, Or.inl (Or.inl rfl)⟩
      · exact ⟨rfl, rfl, Or.inl (straight_callerCode _ _)⟩
      · exact ⟨rfl, rfl, Or.inl (straight_importDone _ _ _)⟩
  | signal =>
      obtain rfl := Option.some.inj h
      exact ⟨rfl, rfl, Or.inl (Or.inr (Or.inl rfl))⟩
  | woke k =>
      obtain rfl := Option.some.inj h
      cases k with
      | serve top => exact ⟨rfl, rfl, Or.inl (straight_serveCode top _)⟩
      | request o r => exact ⟨rfl, rfl, Or.inl (straight_requestCode o r _)⟩
  | answered o v r =>
      obtain rfl := Option.some.inj h
      exact ⟨rfl, rfl, Or.inl (straight_resume r _)⟩
  | panicked => simp [tPoint] at h
  | give k => simp [TPoint.pos] at hx
  | notify k => simp [TPoint.pos] at hx
  | park pc k => simp [TPoint.pos] at hx
  | closed => simp [TPoint.pos] at hx
  | dropped => simp [TPoint.pos] at hx

end TStraight

/-! ### The code of `P` -/

section PStraight

theorem straight_reportDone (k : PWait W) : (reportDone k).Straight :=
  ⟨fun _ => by decide, Or.inr rfl⟩

theorem straight_reportError : (reportError : PCode W).Straight :=
  ⟨fun _ => by decide, Or.inr rfl⟩

/-- `serviceCaller` with a result word to store. -/
theorem straight_stores_rets (v : Word) (k : PWait W) :
    PCode.Straight (.stores [(fRets, v)] (reportDone k)) :=
  ⟨fun h => absurd h (by decide : fRets ≠ fOp), straight_reportDone k⟩

theorem straight_serviceCaller (available : Bool) (op : Word) (k : PWait W) :
    (serviceCaller available op k).Straight := by
  unfold serviceCaller
  split
  · exact straight_reportError
  · split
    · exact fun size => Or.inl rfl
    · split
      · exact fun ptr size => Or.inl rfl
      · split
        · exact fun ptr gptr len => Or.inl rfl
        · split
          · exact fun ptr gptr len => Or.inl rfl
          · exact straight_reportError

theorem straight_runTransform (h : Host W) : (runTransform h).Straight := by
  intro ptr len mark commentsProxy
  dsimp only
  split
  · exact Or.inl rfl
  · exact straight_reportError

/-- `P` goes on with what it reads, or leaves on `OP_CLOSE` in its main loop. -/
theorem straight_onWake (h : Host W) (op : Word) (k : PWait W) :
    (k.onWake h op).Straight ∨ k = .loop ∧ op = opClose ∧ k.onWake h op = .done .left := by
  cases k with
  | loop =>
      show (loopCode h op).Straight ∨ _ ∧ _ ∧ loopCode h op = .done .left
      unfold loopCode
      split
      · exact Or.inl fun mp ml np nl => Or.inl rfl
      · split
        · exact Or.inl (straight_runTransform h)
        · split
          · exact Or.inl (straight_serviceCaller _ op _)
          · split
            · next hop => exact Or.inr ⟨rfl, hop, rfl⟩
            · exact Or.inl straight_reportError
  | forward x =>
      left
      show (forwardCode h x op).Straight
      unfold forwardCode
      split
      · exact fun v => Or.inl rfl
      · split
        · exact straight_reportError
        · exact straight_serviceCaller _ op _

theorem straight_makeForwarder (idx : Nat) (args : List Word) (x : Suspended W) :
    (makeForwarder idx args x).Straight := by
  refine obeys_stores_op (fun a ha => ?_) (by decide) (Or.inr rfl)
  rcases List.mem_cons.mp ha with rfl | ha
  · show fArgs ≠ fOp
    decide
  · exact zipIdx_ne_op (by decide) ha

theorem straight_runCoreDiag (m : W.engine.Module) (h : Host W) :
    (runCoreDiag m h).2.Straight := by
  unfold runCoreDiag
  split
  · exact Or.inl rfl
  · exact straight_reportDone .loop

theorem straight_checkExports (m : W.engine.Module) (h : Host W) :
    (checkExports m h).2.Straight := by
  unfold checkExports runInitialize
  dsimp only
  split
  · split
    · exact Or.inl rfl
    · exact straight_runCoreDiag m _
  · exact straight_reportError

theorem straight_instantiatePlugin (ms ns : List UInt8) (h : Host W) :
    (instantiatePlugin ms ns h).2.Straight := by
  unfold instantiatePlugin
  dsimp only
  split
  · exact straight_reportError
  · split
    · exact straight_reportError
    · split
      · exact Or.inl rfl
      · exact straight_checkExports _ _

theorem straight_phaseReturned (m : W.engine.Module) (h : Host W) (v : Word) (phase : Phase) :
    (phaseReturned m h v phase).2.Straight := by
  cases phase with
  | start => exact straight_checkExports m h
  | reactorInit => exact straight_runCoreDiag m h
  | coreDiag => exact straight_reportDone .loop
  | transform => exact ⟨fun h => absurd h (by decide : fResultCode ≠ fOp), straight_reportDone .loop⟩

variable {s s' : State W}

theorem straight_pRun (m : W.engine.Module) (i : Inst W.engine.Priv) (phase : Phase)
    (f : W.engine.Frame) :
    (pRun s m i phase f).chan = s.chan ∧ (pRun s m i phase f).t = s.t ∧
      (pRun s m i phase f).p.Straight := by
  unfold pRun
  split
  · exact ⟨rfl, rfl, Or.inl rfl⟩
  · split
    · exact ⟨rfl, rfl, straight_reportError⟩
    · exact ⟨rfl, rfl, straight_makeForwarder _ _ _⟩
  · exact ⟨rfl, rfl, straight_phaseReturned _ _ _ _⟩
  · exact ⟨rfl, rfl, straight_reportError⟩

theorem straight_pService (m : W.engine.Module) (i : Inst W.engine.Priv) (k : PWait W)
    (x : Service) : (pService s m i k x).p.Straight := by
  cases x with
  | alloc size =>
      simp only [pService]
      split
      · exact straight_reportError
      · exact straight_stores_rets _ k
  | free ptr size =>
      simp only [pService]
      split
      · exact straight_reportError
      · exact straight_stores_rets _ k
  | read ptr gptr len =>
      simp only [pService]
      split
      · exact straight_reportError
      · split
        · exact straight_reportError
        · exact straight_reportDone k
  | write ptr gptr len =>
      simp only [pService]
      split
      · exact straight_reportError
      · exact straight_reportDone k

/-- `P` at work touches neither the channel nor `T`; it leaves only on `OP_CLOSE`. -/
theorem pPoint_works {y : PPoint W} (hy : y.pos = .run) (h : pPoint s y = some s') :
    s'.chan = s.chan ∧ s'.t = s.t ∧
      (s'.p.Straight ∨ s.chan.words fOp = opClose ∧ s'.p = .done .left) := by
  cases y with
  | woke k =>
      obtain rfl := Option.some.inj h
      exact ⟨rfl, rfl, (straight_onWake _ _ k).imp_right And.right⟩
  | instantiate mp ml np nl =>
      obtain rfl := Option.some.inj h
      exact ⟨rfl, rfl, Or.inl (straight_instantiatePlugin _ _ _)⟩
  | run phase f =>
      simp only [pPoint] at h
      split at h <;> obtain rfl := Option.some.inj h
      · exact ⟨rfl, rfl, Or.inl straight_reportError⟩
      · obtain ⟨hchan, ht, hp⟩ := straight_pRun (s := s) _ _ phase f
        exact ⟨hchan, ht, Or.inl hp⟩
  | service x k =>
      simp only [pPoint] at h
      split at h <;> obtain rfl := Option.some.inj h
      · exact ⟨rfl, rfl, Or.inl straight_reportError⟩
      · obtain ⟨hchan, ht⟩ := pService_frame (s := s) _ _ k x
        exact ⟨hchan, ht, Or.inl (straight_pService _ _ k x)⟩
  | pending => simp [PPoint.pos] at hy
  | entryTurn => simp [PPoint.pos] at hy
  | entryOp => simp [PPoint.pos] at hy
  | wait pc k => simp [PPoint.pos] at hy
  | give k => simp [PPoint.pos] at hy
  | notify k => simp [PPoint.pos] at hy
  | left => simp [PPoint.pos] at hy
  | dead => simp [PPoint.pos] at hy

end PStraight

/-! ### Steps of the channel as steps of the rendezvous -/

section Steps

variable {J : Job W} {s s' : State W}

theorem pPos_wakeP (c : PCode W) : pPos (wakeP c) = (pPos c).notified := by
  match c with
  | .load _ _ => rfl
  | .store _ _ _ => rfl
  | .done y => cases y <;> rfl

theorem tPos_wakeT (c : TCode W) : tPos (wakeT c) = (tPos c).notified := by
  match c with
  | .load _ _ => rfl
  | .store _ _ _ => rfl
  | .done x => cases x <;> rfl

/-- From `run`, the guest may go wherever its code ends. -/
theorem rendezvous_of_tWorks (ht : tPos s.t = .run) (hturn : s'.chan.turn = s.chan.turn)
    (hp : s'.p = s.p) (hpos : tPos s'.t = .run ∨ tPos s'.t = .store ∨ tPos s'.t = .out) :
    s'.rendezvous = s.rendezvous ∨
      ∃ stay, Rendezvous.next s.rendezvous (.t stay) = some s'.rendezvous := by
  unfold State.rendezvous Rendezvous.next Rendezvous.tNext
  rw [hturn, hp, ht]
  rcases hpos with h | h | h
  · exact Or.inl (by rw [h])
  · exact Or.inr ⟨true, by rw [h]; rfl⟩
  · exact Or.inr ⟨false, by rw [h]; rfl⟩

/-- `T` at work, in code or at a point. -/
theorem tNext_works (hs : Straight s) (ht : tPos s.t = .run) (h : tNext J s = some s') :
    s'.chan.turn = s.chan.turn ∧ s'.p = s.p ∧ (s'.t.Straight ∨ s'.t.Dropping) := by
  cases hc : s.t with
  | load i k =>
      have hcode := hs.t.resolve_left (by simp [hc])
      rw [hc] at hcode
      simp only [tNext, hc] at h
      obtain rfl := Option.some.inj h
      exact ⟨rfl, rfl, hcode.imp (fun hk => hk _) (fun hk => hk _)⟩
  | store i v k =>
      have hcode := hs.t.resolve_left (by simp [hc])
      rw [hc] at hcode
      simp only [tNext, hc] at h
      obtain rfl := Option.some.inj h
      exact ⟨rfl, rfl, hcode.imp And.right And.right⟩
  | done x =>
      simp only [tNext, hc] at h
      rw [hc] at ht
      obtain ⟨hchan, hp, hcode⟩ := tPoint_works ht h
      exact ⟨by rw [hchan], hp, hcode⟩

/-- **A step of `T` is at most one step of the rendezvous's guest.** -/
theorem tNext_rendezvous (hs : Straight s) (h : tNext J s = some s') :
    s'.rendezvous = s.rendezvous ∨
      ∃ stay, Rendezvous.next s.rendezvous (.t stay) = some s'.rendezvous := by
  by_cases hrun : tPos s.t = .run
  · obtain ⟨hturn, hp, hcode⟩ := tNext_works hs hrun h
    refine rendezvous_of_tWorks hrun hturn hp ?_
    rcases hcode with hcode | hcode
    · exact hcode.pos
    · exact hcode.pos.imp_right Or.inl
  · match hc : s.t with
    | .load _ _ => exact absurd (by rw [hc]; rfl) hrun
    | .store _ _ _ => exact absurd (by rw [hc]; rfl) hrun
    | .done (.give k) =>
        simp only [tNext, hc] at h
        obtain rfl := Option.some.inj h
        refine Or.inr ⟨true, ?_⟩
        simp [State.rendezvous, Rendezvous.next, Rendezvous.tNext, hc, tPos, TPoint.pos]
    | .done (.notify none) =>
        simp only [tNext, hc] at h
        obtain rfl := Option.some.inj h
        refine Or.inr ⟨false, ?_⟩
        simp [State.rendezvous, Rendezvous.next, Rendezvous.tNext, hc, tPos, TPoint.pos, pPos_wakeP]
    | .done (.notify (some k)) =>
        simp only [tNext, hc] at h
        obtain rfl := Option.some.inj h
        refine Or.inr ⟨true, ?_⟩
        simp [State.rendezvous, Rendezvous.next, Rendezvous.tNext, hc, tPos, TPoint.pos, pPos_wakeP]
    | .done (.park pc k) =>
        refine Or.inr ⟨true, ?_⟩
        simp only [tNext, hc, tPoint] at h
        cases hstep : parkUntil s.chan.turn pc with
        | leave =>
            rw [hstep] at h
            obtain rfl := Option.some.inj h
            simp [State.rendezvous, Rendezvous.next, Rendezvous.tNext, hc, tPos, TPoint.pos, hstep]
        | goto pc' =>
            rw [hstep] at h
            obtain rfl := Option.some.inj h
            simp [State.rendezvous, Rendezvous.next, Rendezvous.tNext, hc, tPos, TPoint.pos, hstep]
        | asleep => simp [hstep] at h
    | .done .closed => simp [tNext, hc, tPoint] at h
    | .done .dropped => simp [tNext, hc, tPoint] at h
    | .done (.client _) | .done (.enter _ _ _ _) | .done (.closure _ _ _) | .done .signal
    | .done (.woke _) | .done (.answered _ _ _) | .done .panicked =>
        exact absurd (by rw [hc]; rfl) hrun

/-- From `run`, the driver may go wherever its code ends. -/
theorem rendezvous_of_pWorks (hp : pPos s.p = .run) (hturn : s'.chan.turn = s.chan.turn)
    (ht : s'.t = s.t) (hpos : pPos s'.p = .run ∨ pPos s'.p = .store ∨ pPos s'.p = .out) :
    s'.rendezvous = s.rendezvous ∨
      ∃ stay, Rendezvous.next s.rendezvous (.p stay) = some s'.rendezvous := by
  unfold State.rendezvous Rendezvous.next Rendezvous.pNext
  rw [hturn, ht, hp]
  rcases hpos with h | h | h
  · exact Or.inl (by rw [h])
  · exact Or.inr ⟨true, by rw [h]; rfl⟩
  · exact Or.inr ⟨false, by rw [h]; rfl⟩

/-- `P` at work, in code or at a point. -/
theorem pNext_works (hs : Straight s) (hp : pPos s.p = .run) (h : pNext s = some s') :
    s'.chan.turn = s.chan.turn ∧ s'.t = s.t ∧
      (s'.p.Straight ∨ s.chan.words fOp = opClose ∧ s'.p = .done .left) := by
  cases hc : s.p with
  | load i k =>
      have hcode := hs.p.resolve_left (by simp [hc])
      rw [hc] at hcode
      simp only [pNext, hc] at h
      obtain rfl := Option.some.inj h
      exact ⟨rfl, rfl, Or.inl (hcode _)⟩
  | store i v k =>
      have hcode := hs.p.resolve_left (by simp [hc])
      rw [hc] at hcode
      simp only [pNext, hc] at h
      obtain rfl := Option.some.inj h
      exact ⟨rfl, rfl, Or.inl hcode.2⟩
  | done y =>
      simp only [pNext, hc] at h
      rw [hc] at hp
      obtain ⟨hchan, ht, hcode⟩ := pPoint_works hp h
      exact ⟨by rw [hchan], ht, hcode⟩

/-- **A step of `P` is at most one step of the rendezvous's driver.** -/
theorem pNext_rendezvous (hs : Straight s) (h : pNext s = some s') :
    s'.rendezvous = s.rendezvous ∨
      ∃ stay, Rendezvous.next s.rendezvous (.p stay) = some s'.rendezvous := by
  by_cases hrun : pPos s.p = .run
  · obtain ⟨hturn, ht, hcode⟩ := pNext_works hs hrun h
    refine rendezvous_of_pWorks hrun hturn ht ?_
    rcases hcode with hcode | ⟨-, hleft⟩
    · exact hcode.pos.imp_right Or.inl
    · exact Or.inr (Or.inr (by rw [hleft]; rfl))
  · match hc : s.p with
    | .load _ _ => exact absurd (by rw [hc]; rfl) hrun
    | .store _ _ _ => exact absurd (by rw [hc]; rfl) hrun
    | .done .pending =>
        simp only [pNext, hc, pPoint] at h
        split at h
        · obtain rfl := Option.some.inj h
          exact Or.inl (by simp [State.rendezvous, hc, pPos, PPoint.pos])
        · simp at h
    | .done .entryTurn =>
        simp only [pNext, hc] at h
        obtain rfl := Option.some.inj h
        exact Or.inl (by simp [State.rendezvous, hc, pPos, PPoint.pos])
    | .done .entryOp =>
        simp only [pNext, hc] at h
        obtain rfl := Option.some.inj h
        refine Or.inr ⟨true, ?_⟩
        simp [State.rendezvous, Rendezvous.next, Rendezvous.pNext, hc, pPos, PPoint.pos]
    | .done (.give k) =>
        simp only [pNext, hc] at h
        obtain rfl := Option.some.inj h
        refine Or.inr ⟨true, ?_⟩
        simp [State.rendezvous, Rendezvous.next, Rendezvous.pNext, hc, pPos, PPoint.pos]
    | .done (.notify none) =>
        simp only [pNext, hc] at h
        obtain rfl := Option.some.inj h
        refine Or.inr ⟨false, ?_⟩
        simp [State.rendezvous, Rendezvous.next, Rendezvous.pNext, hc, pPos, PPoint.pos, tPos_wakeT]
    | .done (.notify (some k)) =>
        simp only [pNext, hc] at h
        obtain rfl := Option.some.inj h
        refine Or.inr ⟨true, ?_⟩
        simp [State.rendezvous, Rendezvous.next, Rendezvous.pNext, hc, pPos, PPoint.pos, tPos_wakeT]
    | .done (.wait pc k) =>
        refine Or.inr ⟨true, ?_⟩
        simp only [pNext, hc, pPoint] at h
        cases hstep : waitForP s.chan.turn pc with
        | leave =>
            rw [hstep] at h
            obtain rfl := Option.some.inj h
            simp [State.rendezvous, Rendezvous.next, Rendezvous.pNext, hc, pPos, PPoint.pos, hstep]
        | goto pc' =>
            rw [hstep] at h
            obtain rfl := Option.some.inj h
            simp [State.rendezvous, Rendezvous.next, Rendezvous.pNext, hc, pPos, PPoint.pos, hstep]
        | asleep => simp [hstep] at h
    | .done .left => simp [pNext, hc, pPoint] at h
    | .done .dead => simp [pNext, hc, pPoint] at h
    | .done (.woke _) | .done (.instantiate _ _ _ _) | .done (.run _ _) | .done (.service _ _) =>
        exact absurd (by rw [hc]; rfl) hrun

/-- `T` away from work touches the words of the channel only by handing over. -/
theorem tNext_rests (ht : tPos s.t ≠ .run) (h : tNext J s = some s') :
    (∃ x', s'.t = .done x') ∧ (s'.p = s.p ∨ s'.p = wakeP s.p) ∧
      s'.chan.words = s.chan.words := by
  match hc : s.t with
  | .load _ _ => exact absurd (by rw [hc]; rfl) ht
  | .store _ _ _ => exact absurd (by rw [hc]; rfl) ht
  | .done (.give k) =>
      simp only [tNext, hc] at h
      obtain rfl := Option.some.inj h
      exact ⟨⟨_, rfl⟩, Or.inl rfl, rfl⟩
  | .done (.notify k) =>
      simp only [tNext, hc] at h
      obtain rfl := Option.some.inj h
      exact ⟨⟨_, rfl⟩, Or.inr rfl, rfl⟩
  | .done (.park pc k) =>
      simp only [tNext, hc, tPoint] at h
      split at h
      · obtain rfl := Option.some.inj h
        exact ⟨⟨_, rfl⟩, Or.inl rfl, rfl⟩
      · obtain rfl := Option.some.inj h
        exact ⟨⟨_, rfl⟩, Or.inl rfl, rfl⟩
      · simp at h
  | .done .closed => simp [tNext, hc, tPoint] at h
  | .done .dropped => simp [tNext, hc, tPoint] at h
  | .done (.client _) | .done (.enter _ _ _ _) | .done (.closure _ _ _) | .done .signal
  | .done (.woke _) | .done (.answered _ _ _) | .done .panicked =>
      exact absurd (by rw [hc]; rfl) ht

theorem pNext_rests (hp : pPos s.p ≠ .run) (h : pNext s = some s') :
    (∃ y', s'.p = .done y') ∧ (s'.t = s.t ∨ s'.t = wakeT s.t) ∧
      s'.chan.words = s.chan.words := by
  match hc : s.p with
  | .load _ _ => exact absurd (by rw [hc]; rfl) hp
  | .store _ _ _ => exact absurd (by rw [hc]; rfl) hp
  | .done .pending =>
      simp only [pNext, hc, pPoint] at h
      split at h
      · obtain rfl := Option.some.inj h
        exact ⟨⟨_, rfl⟩, Or.inl rfl, rfl⟩
      · simp at h
  | .done .entryTurn =>
      simp only [pNext, hc] at h
      obtain rfl := Option.some.inj h
      exact ⟨⟨_, rfl⟩, Or.inl rfl, rfl⟩
  | .done .entryOp =>
      simp only [pNext, hc] at h
      obtain rfl := Option.some.inj h
      exact ⟨⟨_, rfl⟩, Or.inl rfl, rfl⟩
  | .done (.give k) =>
      simp only [pNext, hc] at h
      obtain rfl := Option.some.inj h
      exact ⟨⟨_, rfl⟩, Or.inl rfl, rfl⟩
  | .done (.notify k) =>
      simp only [pNext, hc] at h
      obtain rfl := Option.some.inj h
      exact ⟨⟨_, rfl⟩, Or.inr rfl, rfl⟩
  | .done (.wait pc k) =>
      simp only [pNext, hc, pPoint] at h
      split at h
      · obtain rfl := Option.some.inj h
        exact ⟨⟨_, rfl⟩, Or.inl rfl, rfl⟩
      · obtain rfl := Option.some.inj h
        exact ⟨⟨_, rfl⟩, Or.inl rfl, rfl⟩
      · simp at h
  | .done .left => simp [pNext, hc, pPoint] at h
  | .done .dead => simp [pNext, hc, pPoint] at h
  | .done (.woke _) | .done (.instantiate _ _ _ _) | .done (.run _ _) | .done (.service _ _) =>
      exact absurd (by rw [hc]; rfl) hp

theorem straight_wakeP {c : PCode W} (h : (∃ y, c = .done y) ∨ c.Straight) :
    (∃ y, wakeP c = .done y) ∨ (wakeP c).Straight := by
  match c with
  | .load _ _ => exact h
  | .store _ _ _ => exact h
  | .done y => exact Or.inl (wakeP_done ⟨y, rfl⟩)

theorem straight_wakeT {c : TCode W} (h : (∃ x, c = .done x) ∨ c.Straight ∨ c.Dropping) :
    (∃ x, wakeT c = .done x) ∨ (wakeT c).Straight ∨ (wakeT c).Dropping := by
  match c with
  | .load _ _ => exact h
  | .store _ _ _ => exact h
  | .done x => exact Or.inl (wakeT_done ⟨x, rfl⟩)

theorem straight_tNext (hs : Straight s) (h : tNext J s = some s') : Straight s' := by
  by_cases ht : tPos s.t = .run
  · obtain ⟨-, hp, hcode⟩ := tNext_works hs ht h
    exact ⟨Or.inr hcode, by rw [hp]; exact hs.p⟩
  · obtain ⟨hdone, hp | hp, -⟩ := tNext_rests ht h
    · exact ⟨Or.inl hdone, by rw [hp]; exact hs.p⟩
    · exact ⟨Or.inl hdone, by rw [hp]; exact straight_wakeP hs.p⟩

theorem straight_pNext (hs : Straight s) (h : pNext s = some s') : Straight s' := by
  by_cases hp : pPos s.p = .run
  · obtain ⟨-, ht, hcode | ⟨-, hleft⟩⟩ := pNext_works hs hp h
    · exact ⟨by rw [ht]; exact hs.t, Or.inr hcode⟩
    · exact ⟨by rw [ht]; exact hs.t, Or.inl ⟨_, hleft⟩⟩
  · obtain ⟨hdone, ht | ht, -⟩ := pNext_rests hp h
    · exact ⟨by rw [ht]; exact hs.t, Or.inl hdone⟩
    · exact ⟨by rw [ht]; exact straight_wakeT hs.t, Or.inl hdone⟩

/-! ### What the rendezvous gives -/

/-- The rendezvous keeps its invariant when the driver disappears. -/
theorem Rendezvous.Inv.out {r : Rendezvous.State} (h : Rendezvous.Inv r) :
    Rendezvous.Inv { r with p := .out } :=
  ⟨h.turn, h.guestHolds, by simp, h.expected, by simp⟩

/-- The invariants of the rendezvous hold of every channel. -/
structure Parking (s : State W) : Prop where
  straight : Straight s
  rendezvous : Rendezvous.Inv s.rendezvous

theorem parking_init : Parking (State.init J) :=
  ⟨⟨Or.inr (Or.inl straight_startCode), Or.inl ⟨_, rfl⟩⟩, Rendezvous.inv_init⟩

theorem parking_next {a : Act} (hI : Parking s) (h : next J s a = some s') : Parking s' := by
  cases a with
  | t =>
      refine ⟨straight_tNext hI.straight h, ?_⟩
      rcases tNext_rendezvous hI.straight h with he | ⟨stay, hn⟩
      · rw [he]
        exact hI.rendezvous
      · exact Rendezvous.inv_next hI.rendezvous hn
  | p =>
      refine ⟨straight_pNext hI.straight h, ?_⟩
      rcases pNext_rendezvous hI.straight h with he | ⟨stay, hn⟩
      · rw [he]
        exact hI.rendezvous
      · exact Rendezvous.inv_next hI.rendezvous hn
  | die =>
      obtain rfl := Option.some.inj h
      exact ⟨⟨hI.straight.t, Or.inl ⟨_, rfl⟩⟩, hI.rendezvous.out⟩

/-- `T` executes a stale wait: see `Rendezvous.StaleWait`. -/
def Stale (s : State W) (a : Act) : Prop :=
  a = .t ∧ Rendezvous.StaleWait s.rendezvous (.t true)

/-- Without stale waits `T` sleeps only on a turn still to come or a notify still to come;
the worker must not die with that notify to be done. -/
theorem guestSleeps_next {a : Act} (hI : Parking s) (hS : Rendezvous.GuestSleeps s.rendezvous)
    (hstale : ¬Stale s a) (hdie : a = .die → s.rendezvous.t = .park .parked → pPos s.p ≠ .notify)
    (h : next J s a = some s') : Rendezvous.GuestSleeps s'.rendezvous := by
  cases a with
  | t =>
      rcases tNext_rendezvous hI.straight h with he | ⟨stay, hn⟩
      · rw [he]
        exact hS
      · refine Rendezvous.guestSleeps_next hI.rendezvous hS ?_ hn
        rintro ⟨-, hw⟩
        exact hstale ⟨rfl, ⟨true, rfl⟩, hw⟩
  | p =>
      rcases pNext_rendezvous hI.straight h with he | ⟨stay, hn⟩
      · rw [he]
        exact hS
      · refine Rendezvous.guestSleeps_next hI.rendezvous hS ?_ hn
        rintro ⟨⟨_, hb⟩, -⟩
        cases hb
  | die =>
      obtain rfl := Option.some.inj h
      intro ht hT
      exact absurd (hS ht hT) (hdie rfl ht)

end Steps

end TurbopackWasi.Plugin
