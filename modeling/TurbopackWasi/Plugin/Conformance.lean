import TurbopackWasi.Plugin.Protocol

/-!
# TurbopackWasi.Plugin.Conformance

The steps of the driver worker keep the invariant of `Protocol`, so it holds in
every reachable state; what follows is what each party may rely on.

With the turn at `P`, `T` waits for the answer to some request `k`, or has closed the
channel (`Protocol.serving`). Every piece of code of the worker then ends at a point
that `Working` describes: it goes on with the request, or is about to hand over
`OP_DONE`, `OP_ERROR` or `OP_IMPORT` with an index of a registered import.
-/

namespace TurbopackWasi.Plugin

open TurbopackWasi.Lib

variable {W : World}

/-- `T` has handed over the request `k` and waits, or is about to. -/
def TPoint.WaitsFor (x : TPoint W) (k : TWait W) : Prop :=
  x = .notify (some k) ∨ ∃ pc, x = .park pc k

/-- `T` has handed `OP_CLOSE` over. -/
def TPoint.HasClosed (x : TPoint W) : Prop := x = .notify none ∨ x = .closed

theorem Protocol.of_waiting {J : Job W} {turn : Word} {words : Nat → Word} {mem : List UInt8}
    {x : TPoint W} {y : PPoint W} {k : TWait W} (hx : x.WaitsFor k)
    (h : Waiting J turn words mem k y) : Protocol J turn words mem x y := by
  rcases hx with rfl | ⟨pc, rfl⟩
  · exact h
  · exact h

/-- What `P` serves while it holds the turn. -/
theorem Protocol.serving {J : Job W} {turn : Word} {words : Nat → Word} {mem : List UInt8}
    {x : TPoint W} {y : PPoint W} (h : Protocol J turn words mem x y) (hy : y.Owns) :
    (∃ k, x.WaitsFor k ∧ Working J words mem k y) ∨
      x.HasClosed ∧ Asked J words mem y none := by
  match x with
  | .notify (some k) => exact Or.inl ⟨k, Or.inl rfl, (Waiting.of_pOwns h hy).2⟩
  | .park pc k => exact Or.inl ⟨k, Or.inr ⟨pc, rfl⟩, (Waiting.of_pOwns h hy).2⟩
  | .notify none => exact Or.inr ⟨Or.inl rfl, h.2.resolve_left fun hg => hg.1 hy⟩
  | .closed => exact Or.inr ⟨Or.inr rfl, h.2.resolve_left fun hg => hg.1 hy⟩
  | .client _ | .enter _ _ _ _ | .closure _ _ _ | .answered _ _ _ | .signal | .give _ | .woke _
  | .dropped => exact absurd hy h.2.1
  | .panicked => exact absurd hy h.2

/-- `P` leaves its wait loop on a request. -/
theorem Protocol.woke {J : Job W} {turn : Word} {words : Nat → Word} {mem : List UInt8}
    {x : TPoint W} {pc : WaitPc} {k : PWait W}
    (h : Protocol J turn words mem x (.wait pc k)) (hP : turn = turnP) :
    Protocol J turn words mem x (.woke k) := by
  have hT : turn ≠ turnT := fun hT => turnP_ne_turnT (hP.symm.trans hT)
  have hclosed : ¬(PPoint.wait pc k).Owns ∧ (PPoint.wait pc k).Gone ∨
      Asked J words mem (.wait pc k) none → Asked J words mem (.woke k) none := by
    rintro (hg | ha)
    · exact hg.2.elim
    · exact ha.of_frame rfl
  have hwaiting : ∀ {kt}, Waiting J turn words mem kt (.wait pc k) →
      Waiting J turn words mem kt (.woke k) := by
    rintro kt (⟨ht, -⟩ | ⟨-, -, ha | hg⟩ | ⟨-, hw⟩)
    · exact absurd ht hT
    · exact Or.inr (Or.inr ⟨hP, ha.of_frame rfl⟩)
    · exact hg.elim
    · exact hw.elim
  match x with
  | .notify (some kt) => exact hwaiting h
  | .park _ kt => exact hwaiting h
  | .notify none => exact ⟨hP, Or.inr (hclosed h.2)⟩
  | .closed => exact ⟨hP, Or.inr (hclosed h.2)⟩
  | .client _ | .enter _ _ _ _ | .closure _ _ _ | .answered _ _ _ | .signal | .give _ | .woke _
  | .dropped | .panicked => exact absurd h.1 hT

/-! ### What the worker's code comes to -/

section Codes

variable {J : Job W} {mem : List UInt8} {k : TWait W}

/-- The code `c` of `P` goes on with, or answers, the request `k`. -/
def PCode.Serving (J : Job W) (w : Nat → Word) (mem : List UInt8) (k : TWait W)
    (c : PCode W) : Prop :=
  Working J (c.run w).1 mem k (c.run w).2

theorem serving_reportError (w : Nat → Word) : PCode.Serving J w mem k reportError := by
  show Function.update w fOp opError fOp = opError
  exact Function.update_self ..

theorem op_reportDone (w : Nat → Word) (kp : PWait W) :
    ((reportDone kp).run w).1 fOp = opDone := by
  show Function.update w fOp opDone fOp = opDone
  exact Function.update_self ..

/-- `OP_DONE` answers a request of `serve`, if the worker is in its main loop again. -/
theorem serving_reportDone_serve (w : Nat → Word) (top : Top W) :
    PCode.Serving J w mem (.serve top) (reportDone .loop) :=
  Or.inl ⟨op_reportDone w .loop, Or.inl rfl⟩

/-- `OP_DONE` answers a request of a `Caller` method from the loop that serves it. -/
theorem serving_reportDone_request (w : Nat → Word) (o : CallerOp W.memSize) {r : Asker W}
    {kp : PWait W} (h : (PPoint.woke kp).Serves r) :
    PCode.Serving J w mem (.request o r) (reportDone kp) := by
  refine Or.inl ⟨op_reportDone w kp, Or.inl ?_⟩
  cases r with
  | client c => exact h
  | closure c n top => exact h

/-- The words that a forwarder hands over. -/
def forwarded (idx : Nat) (args : List Word) (words : Nat → Word) : Nat → Word :=
  Code.storeAll words ((fArgs, .ofNat 32 idx) ::
    (args.zipIdx.map fun a => (fArgs + 1 + a.2, a.1)) ++ [(fOp, opImport)])

theorem forwarded_get (idx : Nat) (args : List Word) (words : Nat → Word) :
    forwarded idx args words fOp = opImport ∧
      forwarded idx args words fArgs = .ofNat 32 idx ∧
      ∀ j (h : j < args.length), forwarded idx args words (fArgs + 1 + j) = args[j] := by
  have hlast : ∀ {i : Nat}, i ≠ fOp → ∀ a ∈ [(fOp, opImport)], a.1 ≠ i := by
    intro i hi a ha
    obtain rfl := List.mem_singleton.mp ha
    exact hi.symm
  refine ⟨Code.storeAll_append_last _ _ _ _, ?_, fun j hj => ?_⟩
  · have hargs : ∀ a ∈ args.zipIdx.map fun a => (fArgs + 1 + a.2, a.1), a.1 ≠ fArgs := by
      intro a ha
      obtain ⟨b, -, rfl⟩ := List.mem_map.mp ha
      show fArgs + 1 + b.2 ≠ fArgs
      omega
    rw [forwarded, Code.storeAll_append, Code.storeAll_of_not_mem _ (hlast (by decide))]
    show Code.storeAll (Function.update words fArgs _) _ fArgs = _
    rw [Code.storeAll_of_not_mem _ hargs, Function.update_self]
  · have hne : fArgs + 1 + j ≠ fOp := by
      show 2 + 1 + j ≠ 1
      omega
    rw [forwarded, Code.storeAll_append, Code.storeAll_of_not_mem _ (hlast hne)]
    exact Code.storeAll_zipIdx _ _ args 0 j hj

theorem run_makeForwarder_eq (idx : Nat) (args : List Word) (x : Suspended W)
    (words : Nat → Word) :
    (makeForwarder idx args x).run words =
      (forwarded idx args words, .give (some (.forward x))) :=
  Code.run_stores _ _ _

/-- The words that a forwarder leaves for `serve`. -/
theorem run_makeForwarder (w : Nat → Word) (idx : Nat) (args : List Word) (x : Suspended W) :
    ∃ w', (makeForwarder idx args x).run w = (w', .give (some (.forward x))) ∧
      w' fOp = opImport ∧ w' fArgs = .ofNat 32 idx ∧
        ∀ j (h : j < args.length), w' (fArgs + 1 + j) = args[j] :=
  ⟨_, run_makeForwarder_eq idx args x w, forwarded_get idx args w⟩

/-- A forwarded import names a registered import. -/
theorem serving_makeForwarder (w : Nat → Word) (top : Top W) {idx : Nat} (args : List Word)
    (x : Suspended W) (h : idx < J.imports.length) :
    PCode.Serving J w mem (.serve top) (makeForwarder idx args x) := by
  obtain ⟨w', hrun, hop, hidx, -⟩ := run_makeForwarder w idx args x
  unfold PCode.Serving
  rw [hrun]
  refine Or.inr (Or.inr ⟨hop, ?_, Or.inl ⟨x, rfl⟩⟩)
  show (w' fArgs).toNat < J.imports.length
  rw [hidx, BitVec.toNat_ofNat]
  exact lt_of_le_of_lt (Nat.mod_le _ _) h

/-- `serviceCaller` on the op of a `Caller` method. -/
theorem serving_serviceCaller (w : Nat → Word) (available : Bool) (o : CallerOp W.memSize)
    {r : Asker W} {kp : PWait W} (h : (PPoint.woke kp).Serves r) :
    PCode.Serving J w mem (.request o r) (serviceCaller available o.op kp) := by
  unfold serviceCaller
  cases available with
  | false => exact serving_reportError w
  | true =>
      cases o with
      | alloc size => exact ⟨_, r, rfl, h⟩
      | free ptr size => exact ⟨_, r, rfl, h⟩
      | readBuf ptr buf => exact ⟨_, r, rfl, h⟩
      | writeBuf ptr buf => exact ⟨_, r, rfl, h⟩

theorem serving_runTransform (w : Nat → Word) (top : Top W) (h : Host W) :
    PCode.Serving J w mem (.serve top) (runTransform h) := by
  unfold PCode.Serving runTransform
  simp only [Code.run_load]
  split
  · exact ⟨top, rfl⟩
  · exact serving_reportError w

theorem loopCode_op (h : Host W) (o : CallerOp W.memSize) :
    loopCode h o.op = serviceCaller h.plugin o.op .loop := by
  cases o <;> rfl

theorem forwardCode_op (h : Host W) (x : Suspended W) (o : CallerOp W.memSize) :
    forwardCode h x o.op = serviceCaller h.exposed o.op (.forward x) := by
  cases o <;> rfl

/-- The main loop serves what it is asked for. -/
theorem serving_loopCode {w : Nat → Word} {h : Host W}
    (hask : Asked J w mem (.woke .loop) (some k)) :
    PCode.Serving J w mem k (loopCode h (w fOp)) := by
  match k with
  | .serve .init =>
      rcases hask with ⟨hop, -, hboot⟩ | ⟨-, x, hx⟩
      · rw [loopCode, if_pos hop]
        exact ⟨rfl, hboot.mem_eq, hboot.modulePtr, hboot.moduleLen, hboot.namesPtr,
          hboot.namesLen⟩
      · simp [PPoint.frame] at hx
  | .serve (.transform c) =>
      rcases hask with ⟨hop, -⟩ | ⟨-, x, hx⟩
      · rw [hop, loopCode, if_neg (by decide), if_pos rfl]
        exact serving_runTransform w _ h
      · simp [PPoint.frame] at hx
  | .request o (.client c) =>
      rw [hask.1, loopCode_op]
      exact serving_serviceCaller w h.plugin o hask.2
  | .request o (.closure c n top) =>
      obtain ⟨x, hx⟩ := hask.2
      simp [PPoint.frame] at hx

/-- A forwarder serves what it is asked for. -/
theorem serving_forwardCode {w : Nat → Word} {h : Host W} {x : Suspended W}
    (hask : Asked J w mem (.woke (.forward x)) (some k)) :
    PCode.Serving J w mem k (forwardCode h x (w fOp)) := by
  match k with
  | .serve .init =>
      rcases hask with ⟨-, hl, -⟩ | ⟨hop, -⟩
      · simp [PPoint.AtLoop, PPoint.frame] at hl
      · rw [forwardCode, if_pos hop]
        exact ⟨.init, rfl⟩
  | .serve (.transform c) =>
      rcases hask with ⟨-, hl⟩ | ⟨hop, -⟩
      · simp [PPoint.AtLoop, PPoint.frame] at hl
      · rw [forwardCode, if_pos hop]
        exact ⟨.transform c, rfl⟩
  | .request o (.client c) => simpa [PPoint.Serves, PPoint.AtLoop, PPoint.frame] using hask.2
  | .request o (.closure c n top) =>
      rw [hask.1, forwardCode_op]
      exact serving_serviceCaller w h.exposed o hask.2

theorem serving_run (w : Nat → Word) (top : Top W) (phase : Phase) (f : W.engine.Frame) :
    PCode.Serving J w mem (.serve top) (.done (.run phase f)) :=
  ⟨top, rfl⟩

theorem serving_runCoreDiag (w : Nat → Word) (top : Top W) (m : W.engine.Module) (h : Host W) :
    PCode.Serving J w mem (.serve top) (runCoreDiag m h).2 := by
  unfold runCoreDiag
  split
  · exact serving_run w top _ _
  · exact serving_reportDone_serve w top

theorem serving_runInitialize (w : Nat → Word) (top : Top W) (m : W.engine.Module)
    (h : Host W) : PCode.Serving J w mem (.serve top) (runInitialize m h).2 := by
  unfold runInitialize
  split
  · exact serving_run w top _ _
  · exact serving_runCoreDiag w top m h

theorem serving_checkExports (w : Nat → Word) (top : Top W) (m : W.engine.Module)
    (h : Host W) : PCode.Serving J w mem (.serve top) (checkExports m h).2 := by
  unfold checkExports
  dsimp only
  split
  · exact serving_runInitialize w top m _
  · exact serving_reportError w

/-- `instantiatePlugin` reports, or goes on in plugin code. -/
theorem serving_instantiatePlugin (w : Nat → Word) (top : Top W) (ms ns : List UInt8)
    (h : Host W) : PCode.Serving J w mem (.serve top) (instantiatePlugin ms ns h).2 := by
  unfold instantiatePlugin
  dsimp only
  split
  · exact serving_reportError w
  · split
    · exact serving_reportError w
    · split
      · exact serving_run w top _ _
      · exact serving_checkExports w top _ _

theorem serving_phaseReturned (w : Nat → Word) (top : Top W) (m : W.engine.Module) (h : Host W)
    (v : Word) (phase : Phase) :
    PCode.Serving J w mem (.serve top) (phaseReturned m h v phase).2 := by
  cases phase with
  | start => exact serving_checkExports w top m h
  | reactorInit => exact serving_runCoreDiag w top m h
  | coreDiag => exact serving_reportDone_serve w top
  | transform => exact serving_reportDone_serve (Function.update w fResultCode v) top

/-- `serviceCaller` answers its caller. -/
theorem serving_pService {s : State W} (w : Nat → Word) {o : CallerOp W.memSize} {r : Asker W}
    {kp : PWait W} (h : (PPoint.woke kp).Serves r) (m : W.engine.Module)
    (i : Inst W.engine.Priv) (x : Service) :
    PCode.Serving J w mem (.request o r) (pService s m i kp x).p := by
  cases x with
  | alloc size =>
      simp only [pService]
      split
      · exact serving_reportError w
      · exact serving_reportDone_request (Function.update w fRets _) o h
  | free ptr size =>
      simp only [pService]
      split
      · exact serving_reportError w
      · exact serving_reportDone_request (Function.update w fRets _) o h
  | read ptr gptr len =>
      simp only [pService]
      split
      · exact serving_reportError w
      · split
        · exact serving_reportError w
        · exact serving_reportDone_request w o h
  | write ptr gptr len =>
      simp only [pService]
      split
      · exact serving_reportError w
      · exact serving_reportDone_request w o h

end Codes

/-! ### The worker's variables -/

theorem runCoreDiag_names (m : W.engine.Module) (h : Host W) :
    (runCoreDiag m h).1.names = h.names := by
  unfold runCoreDiag
  split <;> rfl

theorem runInitialize_names (m : W.engine.Module) (h : Host W) :
    (runInitialize m h).1.names = h.names := by
  unfold runInitialize
  split
  · rfl
  · exact runCoreDiag_names m h

theorem checkExports_names (m : W.engine.Module) (h : Host W) :
    (checkExports m h).1.names = h.names := by
  unfold checkExports
  dsimp only
  split
  · exact runInitialize_names m _
  · rfl

theorem instantiatePlugin_names (ms ns : List UInt8) (h : Host W) :
    (instantiatePlugin ms ns h).1.names = textDecode W.engine.lossy ns := by
  unfold instantiatePlugin
  dsimp only
  split
  · rfl
  · split
    · rfl
    · split
      · rfl
      · exact checkExports_names _ _

theorem phaseReturned_names (m : W.engine.Module) (h : Host W) (v : Word) (phase : Phase) :
    (phaseReturned m h v phase).1.names = h.names := by
  cases phase with
  | start => exact checkExports_names m h
  | reactorInit => exact runCoreDiag_names m h
  | coreDiag => rfl
  | transform => rfl

theorem pService_names {s : State W} (m : W.engine.Module) (i : Inst W.engine.Priv)
    (kp : PWait W) (x : Service) : (pService s m i kp x).host.names = s.host.names := by
  cases x with
  | alloc size => simp only [pService]; split <;> rfl
  | free ptr size => simp only [pService]; split <;> rfl
  | read ptr gptr len =>
      simp only [pService]
      split
      · rfl
      · split <;> rfl
  | write ptr gptr len => simp only [pService]; split <;> rfl

/-- `serviceCaller` touches neither the channel nor `T`. -/
theorem pService_frame {s : State W} (m : W.engine.Module) (i : Inst W.engine.Priv)
    (kp : PWait W) (x : Service) :
    (pService s m i kp x).chan = s.chan ∧ (pService s m i kp x).t = s.t := by
  cases x with
  | alloc size => simp only [pService]; split <;> exact ⟨rfl, rfl⟩
  | free ptr size => simp only [pService]; split <;> exact ⟨rfl, rfl⟩
  | read ptr gptr len =>
      simp only [pService]
      split
      · exact ⟨rfl, rfl⟩
      · split <;> exact ⟨rfl, rfl⟩
  | write ptr gptr len => simp only [pService]; split <;> exact ⟨rfl, rfl⟩

/-! ### Steps of `P` -/

section PSteps

variable {J : Job W} {s s' : State W}

/-- A step of `P` with the turn, on the request `k`. -/
theorem inv_of_pStep {x : TPoint W} {k : TWait W} (hP : s'.chan.turn = turnP)
    (ht : s'.t = .done x) (hx : x.WaitsFor k)
    (hnames : s'.host.live ≠ none →
      s'.host.names = stripBom (namesBlob (J.imports.map Prod.fst)))
    (hserve : PCode.Serving J s'.chan.words s'.mem k s'.p) : Inv J s' where
  tCode := Or.inl ⟨x, ht⟩
  pCode := Or.inr hP
  names := hnames
  proto := by
    rw [settled_of_tDone ht, hP]
    exact Protocol.of_waiting hx (Or.inr (Or.inr ⟨rfl, hserve⟩))

/-- The names the worker decodes are the ones that `init` joined. -/
theorem decoded_names (hmem : s.mem = J.mem) :
    textDecode W.engine.lossy
      (Bytes.slice s.mem (BitVec.ofNat 32 J.names.addr).toInt
        ((BitVec.ofNat 32 J.names.addr).toInt +
          (BitVec.ofNat 32 J.names.bytes.length).toInt)) =
      stripBom (namesBlob (J.imports.map Prod.fst)) := by
  have hfits : J.names.addr + J.names.bytes.length ≤ J.mem.length := by
    rw [J.length_mem]
    exact J.names.fits
  rw [hmem, slice_ofNat J.names.addr_lt J.names.len_lt hfits, J.names_mem, J.names_eq,
    textDecode_utf8]

/-- Plugin code: it goes on, calls an import, returns or traps. -/
theorem inv_pRun {x : TPoint W} {top : Top W} {m : W.engine.Module} {i : Inst W.engine.Priv}
    {phase : Phase} {f : W.engine.Frame} (hI : Inv J s) (hne : J.imports ≠ [])
    (hnl : ∀ n ∈ J.imports.map Prod.fst, '\n' ∉ n) (hP : s.chan.turn = turnP)
    (ht : s.t = .done x) (hx : x.WaitsFor (.serve top)) (hlive : s.host.live = some (m, i)) :
    Inv J (pRun s m i phase f) := by
  have hnames : s.host.names = stripBom (namesBlob (J.imports.map Prod.fst)) :=
    hI.names (by simp [hlive])
  unfold pRun
  split
  · exact inv_of_pStep hP ht hx (fun _ => hnames) (serving_run _ top phase _)
  · split
    · exact inv_of_pStep hP ht hx (fun _ => hnames) (serving_reportError _)
    · next hidx =>
        refine inv_of_pStep hP ht hx (fun _ => hnames) (serving_makeForwarder _ top _ _ ?_)
        rw [hnames] at hidx
        have hlt := nameToIdx_lt (by simpa using hne) hnl hidx
        rwa [List.length_map] at hlt
  · refine inv_of_pStep hP ht hx (fun _ => ?_) (serving_phaseReturned _ top m _ _ phase)
    exact (phaseReturned_names m s.host _ phase).trans hnames
  · exact inv_of_pStep hP ht hx (fun _ => hnames) (serving_reportError _)

/-- `P` at a point where it holds the turn. -/
theorem inv_pPoint_owns {y : PPoint W} (hI : Inv J s) (hne : J.imports ≠ [])
    (hnl : ∀ n ∈ J.imports.map Prod.fst, '\n' ∉ n) (hp : s.p = .done y) (hy : y.Owns)
    (h : pPoint s y = some s') : Inv J s' := by
  obtain ⟨hP, -⟩ := (hI.protoP hp).of_pOwns hy
  obtain ⟨x, ht⟩ := hI.tDone hP
  have hproto := hI.protoDone ht hp
  rw [hP] at hproto
  rcases hproto.serving hy with ⟨k, hx, hw⟩ | ⟨hx, hask⟩
  · match y with
    | .woke .loop =>
        obtain rfl := Option.some.inj h
        exact inv_of_pStep hP ht hx hI.names (serving_loopCode hw)
    | .woke (.forward f) =>
        obtain rfl := Option.some.inj h
        exact inv_of_pStep hP ht hx hI.names (serving_forwardCode hw)
    | .instantiate mp ml np nl =>
        obtain ⟨rfl, hmem, -, -, rfl, rfl⟩ := hw
        obtain rfl := Option.some.inj h
        refine inv_of_pStep hP ht hx (fun _ => ?_) (serving_instantiatePlugin _ .init _ _ _)
        exact (instantiatePlugin_names _ _ _).trans (decoded_names hmem)
    | .run phase f =>
        obtain ⟨top, rfl⟩ := hw
        simp only [pPoint] at h
        split at h
        · obtain rfl := Option.some.inj h
          exact inv_of_pStep hP ht hx hI.names (serving_reportError _)
        · next m i hlive =>
            obtain rfl := Option.some.inj h
            exact inv_pRun hI hne hnl hP ht hx hlive
    | .service f kp =>
        obtain ⟨o, r, rfl, hserves⟩ := hw
        simp only [pPoint] at h
        split at h
        · obtain rfl := Option.some.inj h
          exact inv_of_pStep hP ht hx hI.names (serving_reportError _)
        · next m i hlive =>
            obtain rfl := Option.some.inj h
            obtain ⟨hchan, hst⟩ := pService_frame (s := s) m i kp f
            refine inv_of_pStep (by rw [hchan]; exact hP) (by rw [hst]; exact ht) hx (fun _ => ?_)
              (serving_pService _ hserves m i f)
            rw [pService_names]
            exact hI.names (by simp [hlive])
    | .give none =>
        -- `OP_ERROR` is handed over, and `P` is gone
        obtain rfl := Option.some.inj h
        refine inv_of_done ht rfl hI.names (Protocol.of_waiting hx ?_)
        refine Or.inl ⟨rfl, not_false, ?_⟩
        cases k with
        | serve top => exact Or.inr (Or.inl ⟨hw, trivial⟩)
        | request o r => exact Or.inr ⟨hw, trivial⟩
    | .give (some kp) =>
        obtain rfl := Option.some.inj h
        exact inv_of_done ht rfl hI.names (Protocol.of_waiting hx (Or.inl ⟨rfl, not_false, hw⟩))
    | .pending | .entryTurn | .entryOp | .wait _ _ | .notify _ | .left | .dead => exact hy.elim
  · -- `T` has closed the channel, so `P` is about to read `OP_CLOSE`
    obtain ⟨hop, hat⟩ := hask
    have hleft : Protocol J turnP s.chan.words s.mem x .left := by
      rcases hx with rfl | rfl
      · exact ⟨rfl, Or.inl ⟨not_false, trivial⟩⟩
      · exact ⟨rfl, Or.inl ⟨not_false, trivial⟩⟩
    match y with
    | .woke .loop =>
        obtain rfl := Option.some.inj h
        refine inv_of_done ht (y := .left) ?_ hI.names (by rw [hP]; exact hleft)
        show loopCode s.host (s.chan.words fOp) = .done .left
        rw [hop]
        rfl
    | .woke (.forward f) | .instantiate _ _ _ _ | .run _ _ | .service _ _ | .give _ =>
        simp [PPoint.AtLoop, PPoint.frame] at hat
    | .pending | .entryTurn | .entryOp | .wait _ _ | .notify _ | .left | .dead => exact hy.elim

theorem waitForP_leave {turn : Word} {pc : WaitPc} (h : waitForP turn pc = .leave) :
    turn = turnP := by
  cases pc with
  | load =>
      simp only [waitForP] at h
      split at h
      · assumption
      · simp at h
  | wait =>
      simp only [waitForP] at h
      split at h <;> simp at h
  | trace => simp [waitForP] at h
  | parked => simp [waitForP] at h
  | woke => simp [waitForP] at h

/-- A notify of `P` leaves `T` where it is in the protocol. -/
theorem proto_wakeT {turn : Word} {words : Nat → Word} {mem : List UInt8} {y : PPoint W}
    {t : TCode W} (h : Protocol J turn (t.run words).1 mem (t.run words).2 y) :
    Protocol J turn ((wakeT t).run words).1 mem ((wakeT t).run words).2 y := by
  match t with
  | .load i k => exact h
  | .store i v k => exact h
  | .done x => cases x <;> exact h

theorem wakeT_done {t : TCode W} (h : ∃ x, t = .done x) : ∃ x, wakeT t = .done x := by
  obtain ⟨x, rfl⟩ := h
  cases x <;> exact ⟨_, rfl⟩

/-- A step of `P` between points away from the turn, for any position of `T`. -/
theorem inv_of_pMove {y y' : PPoint W} (hI : Inv J s) (hp : s.p = .done y)
    (hp' : s'.p = .done y') (hmove : y.Moves y') (hchan : s'.chan = s.chan)
    (hmem : s'.mem = s.mem) (ht : s'.t = s.t ∨ s'.t = wakeT s.t) (hhost : s'.host = s.host) :
    Inv J s' where
  tCode := by
    rw [hchan]
    rcases ht with ht | ht
    · rw [ht]
      exact hI.tCode
    · rw [ht]
      exact hI.tCode.imp_left wakeT_done
  pCode := Or.inl ⟨y', hp'⟩
  names := by rw [hhost]; exact hI.names
  proto := by
    have hproto := hmove.protocol (hI.protoP hp)
    rw [settled_of_pDone hp', hchan, hmem]
    rcases ht with ht | ht
    · rw [ht]
      exact hproto
    · rw [ht]
      exact proto_wakeT hproto

/-- `P` at a point where it waits, has not come yet or is gone. -/
theorem inv_pPoint_waits {y : PPoint W} (hI : Inv J s) (hp : s.p = .done y) (hy : ¬y.Owns)
    (h : pPoint s y = some s') : Inv J s' := by
  match y with
  | .pending =>
      simp only [pPoint] at h
      split at h
      · obtain rfl := Option.some.inj h
        exact inv_of_pMove hI hp rfl ⟨hy, not_false, Or.inl rfl, False.elim⟩ rfl rfl (Or.inl rfl) rfl
      · simp at h
  | .entryTurn =>
      obtain rfl := Option.some.inj h
      exact inv_of_pMove hI hp rfl ⟨hy, not_false, Or.inl rfl, False.elim⟩ rfl rfl (Or.inl rfl) rfl
  | .entryOp =>
      obtain rfl := Option.some.inj h
      exact inv_of_pMove hI hp rfl ⟨hy, not_false, Or.inl rfl, False.elim⟩ rfl rfl (Or.inl rfl) rfl
  | .notify none =>
      obtain rfl := Option.some.inj h
      exact inv_of_pMove hI hp rfl ⟨hy, not_false, Or.inr trivial, fun _ => trivial⟩ rfl rfl
        (Or.inr rfl) rfl
  | .notify (some k) =>
      obtain rfl := Option.some.inj h
      exact inv_of_pMove hI hp rfl ⟨hy, not_false, Or.inl rfl, False.elim⟩ rfl rfl (Or.inr rfl) rfl
  | .wait pc k =>
      simp only [pPoint] at h
      split at h
      · next hleave =>
          -- the turn is `P`'s, so what `T` asked for is there
          have hP := waitForP_leave hleave
          obtain ⟨x, ht⟩ := hI.tDone hP
          have hproto := hI.protoDone ht hp
          obtain rfl := Option.some.inj h
          exact inv_of_done ht rfl hI.names (hproto.woke hP)
      · obtain rfl := Option.some.inj h
        exact inv_of_pMove hI hp rfl ⟨hy, not_false, Or.inl rfl, False.elim⟩ rfl rfl (Or.inl rfl) rfl
      · simp at h
  | .left => simp [pPoint] at h
  | .dead => simp [pPoint] at h
  | .woke _ | .instantiate _ _ _ _ | .run _ _ | .service _ _ | .give _ => exact absurd trivial hy

/-- An access of `P`: what it comes to stays the same. -/
theorem inv_pAccess {w : Nat → Word} {c : PCode W} (hI : Inv J s)
    (h : s.p.tick s.chan.words = some (w, c)) :
    Inv J { s with chan := { s.chan with words := w }, p := c } := by
  have hP : s.chan.turn = turnP := by
    rcases hI.pCode with ⟨y, hy⟩ | hP
    · simp [hy, Code.tick] at h
    · exact hP
  obtain ⟨x, ht⟩ := hI.tDone hP
  refine ⟨Or.inl ⟨x, ht⟩, Or.inr hP, hI.names, ?_⟩
  have hproto := hI.protoT ht
  rw [← Code.run_tick h] at hproto
  rw [settled_of_tDone (s := { s with chan := { s.chan with words := w }, p := c }) ht]
  exact hproto

/-- **Every step of `P` keeps the invariant.** -/
theorem inv_pNext (hI : Inv J s) (hne : J.imports ≠ [])
    (hnl : ∀ n ∈ J.imports.map Prod.fst, '\n' ∉ n) (h : pNext s = some s') : Inv J s' := by
  cases hp : s.p with
  | load i k =>
      simp only [pNext, hp] at h
      obtain rfl := Option.some.inj h
      exact inv_pAccess hI (w := s.chan.words) (by rw [hp]; rfl)
  | store i v k =>
      simp only [pNext, hp] at h
      obtain rfl := Option.some.inj h
      exact inv_pAccess hI (by rw [hp]; rfl)
  | done y =>
      simp only [pNext, hp] at h
      by_cases hy : y.Owns
      · exact inv_pPoint_owns hI hne hnl hp hy h
      · exact inv_pPoint_waits hI hp hy h

/-- The worker's death keeps the invariant. -/
theorem inv_die (hI : Inv J s) : Inv J { s with p := .done .dead } := by
  have hdead : ∀ {x}, s.t = .done x → s.chan.turn = turnP →
      Inv J { s with p := .done .dead } := by
    intro x ht hP
    have hproto := hI.protoT ht
    rw [hP] at hproto
    refine inv_of_done ht rfl hI.names ?_
    show Protocol J s.chan.turn s.chan.words s.mem x .dead
    rw [hP]
    exact hproto.dead_of_turnP
  rcases hI.pCode with ⟨y, hp⟩ | hP
  · by_cases hy : y.Owns
    · obtain ⟨hP, -⟩ := (hI.protoP hp).of_pOwns hy
      obtain ⟨x, ht⟩ := hI.tDone hP
      exact hdead ht hP
    · exact inv_of_pMove hI hp rfl (PPoint.moves_dead hy) rfl rfl (Or.inl rfl) rfl
  · obtain ⟨x, ht⟩ := hI.tDone hP
    exact hdead ht hP

/-- A fresh channel: the guest is about to store its windows. -/
theorem inv_init : Inv J (State.init J) where
  tCode := Or.inr rfl
  pCode := Or.inl ⟨.pending, rfl⟩
  names h := absurd rfl h
  proto := by
    rw [settled_of_pDone (y := .pending) rfl]
    refine ⟨rfl, not_false, Or.inl rfl, ?_, rfl, ?_, ?_, ?_, ?_⟩ <;>
      simp [State.init, startCode, Code.run_stores, Code.storeAll, Function.update, fOp, fModulePtr,
        fModuleLen, fNamesPtr, fNamesLen]

/-- **The invariant holds in every reachable state**, whatever plugin, closures and client
do, and whether or not the worker dies. -/
theorem inv_reachable (hne : J.imports ≠ []) (hnl : ∀ n ∈ J.imports.map Prod.fst, '\n' ∉ n)
    (h : (bridge J).Reachable s) : Inv J s := by
  refine h.invariant (fun s hs => ?_) fun {s a s'} hI _ hn => ?_
  · obtain rfl := hs
    exact inv_init
  · cases a with
    | t => exact inv_tNext hI hn
    | p => exact inv_pNext hI hne hnl hn
    | die =>
        obtain rfl := Option.some.inj hn
        exact inv_die hI

end PSteps

/-! ### Conformance -/

/-- `T` is between leaving `park_until`, or the creation of the channel, and the store of
its next hand-off. -/
def State.TActive (s : State W) : Prop := ∀ x, s.t = .done x → x.Owns

/-- `P` is between leaving `waitForP` and the store of its next hand-off. -/
def State.PActive (s : State W) : Prop := ∀ y, s.p = .done y → y.Owns

/-- The ops for which a loop of `T` has a branch of its own; for `serve`, the import must
also be registered. -/
def TWait.Accepts (J : Job W) (words : Nat → Word) : TWait W → Prop
  | .serve _ =>
      words fOp = opDone ∨ words fOp = opError ∨
        words fOp = opImport ∧ (J.imports[(words fArgs).toNat]?).isSome
  | .request _ _ => words fOp = opDone ∨ words fOp = opError

/-- The ops of the `Caller` methods. -/
def CallerWord (op : Word) : Prop :=
  op = opCallerAlloc ∨ op = opCallerFree ∨ op = opCallerRead ∨ op = opCallerWrite

/-- The ops for which a loop of `P` has a branch of its own. -/
def PWait.Accepts (op : Word) : PWait W → Prop
  | .loop => op = opInit ∨ op = opTransform ∨ CallerWord op ∨ op = opClose
  | .forward _ => op = opDone ∨ CallerWord op

/-- Strict alternation and protocol conformance. -/
structure Conforms (J : Job W) (s : State W) : Prop where
  alternate : ¬(s.TActive ∧ s.PActive)
  tTurn : s.TActive → s.chan.turn = turnT
  pTurn : s.PActive → s.chan.turn = turnP
  tStore : ∀ i v k, s.t = .store i v k → s.chan.turn = turnT
  pStore : ∀ i v k, s.p = .store i v k → s.chan.turn = turnP
  tWoke : ∀ k, s.t = .done (.woke k) → k.Accepts J s.chan.words
  pWoke : ∀ k, s.p = .done (.woke k) → k.Accepts (s.chan.words fOp)

section Conforms

variable {J : Job W} {s : State W}

theorem Inv.turn_of_tActive (hI : Inv J s) (h : s.TActive) : s.chan.turn = turnT := by
  rcases hI.tCode with ⟨x, ht⟩ | hT
  · exact ((hI.protoT ht).of_tOwns (h x ht)).1
  · exact hT

theorem Inv.turn_of_pActive (hI : Inv J s) (h : s.PActive) : s.chan.turn = turnP := by
  rcases hI.pCode with ⟨y, hp⟩ | hP
  · exact ((hI.protoP hp).of_pOwns (h y hp)).1
  · exact hP

theorem Answered.accepts {words : Nat → Word} {y : PPoint W} {k : TWait W}
    (h : Answered J words y k) : k.Accepts J words := by
  cases k with
  | serve top =>
      rcases h with ⟨ho, -⟩ | ⟨ho, -⟩ | ⟨ho, hi, -⟩
      · exact Or.inl ho
      · exact Or.inr (Or.inl ho)
      · exact Or.inr (Or.inr ⟨ho, by simpa using hi⟩)
  | request o r => exact h.imp And.left And.left

theorem CallerOp.callerWord {n : Nat} (o : CallerOp n) : CallerWord o.op := by
  cases o <;> simp [CallerWord, CallerOp.op]

theorem Asked.accepts {words : Nat → Word} {mem : List UInt8} {kp : PWait W}
    {k : Option (TWait W)} (h : Asked J words mem (.woke kp) k) : kp.Accepts (words fOp) := by
  cases kp with
  | loop =>
      match k with
      | none => exact Or.inr (Or.inr (Or.inr h.1))
      | some (.serve .init) =>
          rcases h with ⟨ho, -⟩ | ⟨-, x, hx⟩
          · exact Or.inl ho
          · simp [PPoint.frame] at hx
      | some (.serve (.transform c)) =>
          rcases h with ⟨ho, -⟩ | ⟨-, x, hx⟩
          · exact Or.inr (Or.inl ho)
          · simp [PPoint.frame] at hx
      | some (.request o r) => exact Or.inr (Or.inr (Or.inl (h.1 ▸ o.callerWord)))
  | forward x =>
      match k with
      | none => simpa [PPoint.AtLoop, PPoint.frame] using h.2
      | some (.serve .init) =>
          rcases h with ⟨-, hl, -⟩ | ⟨ho, -⟩
          · simp [PPoint.AtLoop, PPoint.frame] at hl
          · exact Or.inl ho
      | some (.serve (.transform c)) =>
          rcases h with ⟨-, hl⟩ | ⟨ho, -⟩
          · simp [PPoint.AtLoop, PPoint.frame] at hl
          · exact Or.inl ho
      | some (.request o r) => exact Or.inr (h.1 ▸ o.callerWord)

theorem conforms_of_inv (hI : Inv J s) : Conforms J s where
  alternate h := turnP_ne_turnT ((hI.turn_of_pActive h.2).symm.trans (hI.turn_of_tActive h.1))
  tTurn := hI.turn_of_tActive
  pTurn := hI.turn_of_pActive
  tStore i v k ht := hI.turn_of_tActive fun x hx => by simp [ht] at hx
  pStore i v k hp := hI.turn_of_pActive fun y hy => by simp [hp] at hy
  tWoke k ht := by
    have hproto := hI.protoT ht
    obtain ⟨y, hp⟩ := hI.pDone hproto.1
    rw [hp] at hproto
    exact hproto.2.2.accepts
  pWoke k hp := by
    obtain ⟨hP, -⟩ := (hI.protoP hp).of_pOwns trivial
    obtain ⟨x, ht⟩ := hI.tDone hP
    rcases (hI.protoDone ht hp).serving trivial with ⟨kt, -, hw⟩ | ⟨-, ha⟩
    · exact Asked.accepts hw
    · exact ha.accepts

/-- **Strict alternation and protocol conformance**, for every plugin, closures and client,
and every schedule. -/
theorem conforms (hne : J.imports ≠ []) (hnl : ∀ n ∈ J.imports.map Prod.fst, '\n' ∉ n)
    (h : (bridge J).Reachable s) : Conforms J s :=
  conforms_of_inv (inv_reachable hne hnl h)

end Conforms

/-! ### A scripted world -/

/-- A guest that follows scripts: the client's calls, `none` for a transform, and a closure's
calls. Neither looks at a reply. -/
def scriptGuest (n : Nat) : Guest n where
  State := Unit
  Closure := List (CallerOp n)
  Client := List (Option (CallerOp n))
  closure c _ :=
    match c with
    | [] => .ret []
    | o :: c => .caller o c
  closureReply c _ := c
  client c _ :=
    match c with
    | [] => .drop
    | none :: c => .transform 0 0 0 0 c
    | some o :: c => .caller o c
  clientReply c _ := c

/-- An engine whose transform follows a script: the imports it calls, `none` for a trap.
Its plugin has `size` bytes of memory and an allocator that always traps. -/
def scriptEngine (size : Nat) (script : List (Option Name)) : Engine where
  Module := Unit
  Frame := List (Option Name)
  Priv := Unit
  lossy _ := []
  compile _ := some ()
  instantiate _ := some ⟨List.replicate size 0, ()⟩
  hasExports _ := true
  entry _ _ := none
  transform _ _ _ _ _ := script
  step _ f _ :=
    match f with
    | [] => .ret 0
    | some name :: f => .call name [] false f
    | none :: _ => .trap
  resume f _ := f
  alloc _ _ _ := none
  free _ _ _ _ := none

/-- Eight bytes of guest memory. -/
def scriptWorld (script : List (Option Name)) : World where
  memSize := 8
  guest := scriptGuest 8
  engine := scriptEngine 8 script

/-- A job with one import, `f`, whose closure follows `closure`. -/
def scriptJob (script : List (Option Name)) (client : List (Option (CallerOp 8)))
    (closure : List (CallerOp 8)) : Job (scriptWorld script) where
  imports := [(['f'], ⟨(0, 0), fun _ => closure⟩)]
  module := (⟨1, [], by decide, by decide, by decide⟩ : Slice 8)
  names := (⟨0, [102], by decide, by decide, by decide⟩ : Slice 8)
  mem := [102, 0, 0, 0, 0, 0, 0, 0]
  state := ()
  client := client
  names_eq := rfl
  length_mem := rfl
  module_mem := rfl
  names_mem := rfl

/-- A client that transforms once; the plugin calls `f`, whose closure writes to plugin memory
and reads it back. -/
def readingClosure : Job (scriptWorld [some ['f']]) :=
  scriptJob [some ['f']] [none]
    [.writeBuf 1 ⟨4, [7, 8], by decide, by decide, by decide⟩,
      .readBuf 0 ⟨1, 4, by decide, by decide, by decide⟩]

/-- `init`, the transform with its import and the two requests of the closure, and `OP_CLOSE`. -/
def readingSchedule : List Act :=
  List.replicate 11 .t ++ List.replicate 16 .p ++ List.replicate 13 .t ++ List.replicate 15 .p ++
    List.replicate 14 .t ++ List.replicate 13 .p ++ List.replicate 14 .t ++
    List.replicate 13 .p ++ List.replicate 11 .t ++ List.replicate 12 .p ++ List.replicate 7 .t

/-- `T` is asked for the import, and `P` for a write by the import's closure. -/
theorem conforms_readingClosure :
    ∃ s s', (bridge readingClosure).replay (State.init readingClosure)
        (readingSchedule.take 56) = some s ∧
      s.t = .done (.woke (.serve (.transform []))) ∧ s.chan.words fOp = opImport ∧
      Conforms readingClosure s ∧
      (bridge readingClosure).replay (State.init readingClosure)
        (readingSchedule.take 71) = some s' ∧
      s'.p = .done (.woke (.forward ⟨.transform, false, []⟩)) ∧
      s'.chan.words fOp = opCallerWrite ∧ Conforms readingClosure s' := by
  have hne : readingClosure.imports ≠ [] := by simp [readingClosure, scriptJob]
  have hnl : ∀ n ∈ readingClosure.imports.map Prod.fst, '\n' ∉ n := by
    simp [readingClosure, scriptJob]
  refine ⟨_, _, rfl, rfl, rfl, conforms hne hnl ?_, rfl, rfl, rfl, conforms hne hnl ?_⟩
  · exact Machine.Reachable.replay (readingSchedule.take 56) (.start rfl) rfl
  · exact Machine.Reachable.replay (readingSchedule.take 71) (.start rfl) rfl

/-- `init` up to the driver's first answer, its notify still to come. -/
def handOffSchedule : List Act :=
  List.replicate 8 .t ++ List.replicate 12 .p ++ [.t]

/-- Between the driver's store of `turn` and its notify the guest already goes on: both are
outside their wait loops. -/
theorem handOff_overlaps :
    ∃ s, (bridge (scriptJob [] [] [])).Reachable s ∧ s.signalled = true ∧
      s.t = .done (.woke (.serve .init)) ∧ s.p = .done (.notify (some .loop)) :=
  ⟨_, Machine.Reachable.replay handOffSchedule (.start rfl) rfl, rfl, rfl, rfl⟩

end TurbopackWasi.Plugin
