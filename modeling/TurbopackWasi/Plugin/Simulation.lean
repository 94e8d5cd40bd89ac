import TurbopackWasi.Plugin.Refine

/-!
# TurbopackWasi.Plugin.Simulation

Every step of a channel without failures is at most one step of the direct execution.
The value lemmas say which words a piece of straight-line code leaves for the other
party; the step lemmas then only move between the clauses of `Denotes`.
-/

namespace TurbopackWasi.Plugin

open TurbopackWasi.Lib

variable {W : World}

/-! ### The values in the channel -/

section Values

variable {J : Job W} {d : Direct.State W} {w : Nat → Word} {mem : List UInt8} {y : PPoint W}

theorem run_callerCode_stored (o : CallerOp W.memSize) (r : Asker W) (hmem : mem.length = W.memSize) :
    Stored ((callerCode o r).run w).1 (o.fill mem) o := by
  unfold callerCode
  rw [Code.run_stores]
  cases o with
  | alloc size => simp [Stored, Code.storeAll, Function.update, fArgs, fOp]
  | free ptr size => simp [Stored, Code.storeAll, Function.update, fArgs, fOp]
  | readBuf ptr buf =>
      simp [Stored, Code.storeAll, Function.update, fArgs, fOp, fDataPtr, fDataLen]
  | writeBuf ptr buf =>
      have hback : Bytes.window (Bytes.splice mem buf.bytes buf.addr) buf.addr buf.bytes.length =
          buf.bytes := Bytes.window_splice (by rw [hmem]; exact buf.fits)
      simp [Stored, Code.storeAll, Function.update, fArgs, fOp, fDataPtr, fDataLen, CallerOp.fill,
        hback]

theorem length_fill (o : CallerOp W.memSize) (hmem : mem.length = W.memSize) :
    (o.fill mem).length = W.memSize := by
  cases o with
  | writeBuf ptr buf =>
      have hfits : buf.addr + buf.bytes.length ≤ mem.length := by
        rw [hmem]
        exact buf.fits
      exact (Bytes.length_splice hfits).trans hmem
  | alloc size => exact hmem
  | free ptr size => exact hmem
  | readBuf ptr buf => exact hmem

/-- The first output value is in `rets[0]` if the closure has one. -/
theorem run_importDone_rets (b : Bool) (outs : List Word) (top : Top W) :
    ((importDone (if b then 1 else 0) outs top).run w).1 fOp = opDone ∧
      (b = true → ((importDone (if b then 1 else 0) outs top).run w).1 fRets = outs.getD 0 0) ∧
      ((importDone (if b then 1 else 0) outs top).run w).2 = .give (some (.serve top)) := by
  cases b with
  | true => exact ⟨rfl, fun _ => rfl, rfl⟩
  | false => exact ⟨rfl, fun h => absurd h Bool.false_ne_true, rfl⟩

/-- `serve` reads back the arguments that the forwarder stored. -/
theorem args_eq {args : List Word} (h : ∀ j (hj : j < args.length), w (fArgs + 1 + j) = args[j]) :
    ((List.range args.length).map (fArgs + 1 + ·)).map w = args := by
  refine List.ext_getElem (by simp) fun j h₁ h₂ => ?_
  have hw := h j h₂
  simpa using hw

end Values

/-! ### Indices and names -/

section Names

variable {J : Job W}

theorem length_namesBlob (names : List Name) : names.length ≤ (namesBlob names).length + 1 := by
  cases names with
  | nil => simp
  | cons n ns =>
      induction ns generalizing n with
      | nil => simp [namesBlob]
      | cons m ns ih =>
          have hih := ih m
          rw [namesBlob_cons_cons, List.length_append, List.length_cons]
          simp only [List.length_cons] at hih ⊢
          omega

theorem length_utf8 (cs : List Char) : cs.length ≤ (utf8 cs).length := by
  induction cs with
  | nil => exact Nat.le_refl _
  | cons c cs ih =>
      have hc : 0 < (String.utf8EncodeChar c).length := by
        rw [String.length_utf8EncodeChar]
        exact Char.utf8Size_pos c
      rw [utf8, List.flatMap_cons, List.length_append, List.length_cons]
      show cs.length + 1 ≤ _ + (utf8 cs).length
      omega

/-- There are fewer imports than words. -/
theorem length_imports (J : Job W) : J.imports.length < 2 ^ 32 := by
  have h₁ := length_namesBlob (J.imports.map Prod.fst)
  have h₂ := length_utf8 (namesBlob (J.imports.map Prod.fst))
  have h₃ := J.names.len_lt
  rw [J.names_eq] at h₃
  rw [List.length_map] at h₁
  omega

theorem stripBom_of_named (hJ : J.Named) :
    stripBom (namesBlob (J.imports.map Prod.fst)) = namesBlob (J.imports.map Prod.fst) := by
  cases hn : J.imports.map Prod.fst with
  | nil => rfl
  | cons n ns =>
      have hbom : n.head? ≠ some '\uFEFF' := hJ.bom n (by rw [hn]; exact List.mem_cons_self)
      have hstrip : stripBom n = n := by
        cases n with
        | nil => rfl
        | cons c cs => simp_all [stripBom]
      rw [stripBom_namesBlob, hstrip]

theorem lookup_of_getElem? {β : Type} {l : List (Name × β)} (hnd : (l.map Prod.fst).Nodup)
    {i : Nat} {n : Name} {b : β} (h : l[i]? = some (n, b)) : l.lookup n = some b := by
  induction l generalizing i with
  | nil => simp at h
  | cons p l ih =>
      rw [List.map_cons, List.nodup_cons] at hnd
      cases i with
      | zero =>
          obtain rfl : p = (n, b) := by simpa using h
          simp
      | succ i =>
          rw [List.getElem?_cons_succ] at h
          have hmem : n ∈ l.map Prod.fst := List.mem_map.mpr ⟨_, List.mem_of_getElem? h, rfl⟩
          have hne : (n == p.1) = false := by
            rw [beq_eq_false_iff_ne]
            rintro rfl
            exact hnd.1 hmem
          rw [List.lookup_cons, hne]
          exact ih hnd.2 h

/-- The index of a name in the blob leads `serve` to the closure of that name. -/
theorem import_of_idx (hJ : J.Named) {name : Name} {idx : Nat}
    (h : nameToIdx (stripBom (namesBlob (J.imports.map Prod.fst))) name = some idx) :
    ∃ func, J.imports[(BitVec.ofNat 32 idx).toNat]? = some (name, func) ∧
      J.imports.lookup name = some func := by
  have hne : J.imports.map Prod.fst ≠ [] := by simpa using hJ.ne
  have hlt := nameToIdx_lt hne hJ.newline h
  rw [List.length_map] at hlt
  have htoNat : (BitVec.ofNat 32 idx).toNat = idx := by
    rw [BitVec.toNat_ofNat]
    exact Nat.mod_eq_of_lt (hlt.trans (length_imports J))
  have hget := nameToIdx_eq_some h
  rw [stripBom_of_named hJ, splitOn_namesBlob hne hJ.newline, List.getElem?_map] at hget
  obtain ⟨⟨n, func⟩, hentry, rfl⟩ := Option.map_eq_some_iff.mp hget
  refine ⟨func, by rw [htoNat]; exact hentry, lookup_of_getElem? hJ.nodup hentry⟩

end Names

/-! ### Steps of `T` -/

section TSteps

variable {J : Job W} {s s' : State W} {d d' : Direct.State W}

theorem sim_of_pDone {y : PPoint W} (hI : Inv J s') (hp : s'.p = .done y)
    (hlog : d'.log = s'.log) (hgs : d'.gs = s'.gs) (hinst : d'.inst = s'.host.live)
    (hlen : s'.mem.length = W.memSize)
    (hden : Denotes J d' (s'.t.run s'.chan.words).1 s'.mem s'.chan.turn
      (s'.t.run s'.chan.words).2 y) : Sim J s' d' where
  inv := hI
  log := hlog
  gs := hgs
  inst := hinst
  length := hlen
  ctl := by
    rw [settled_of_pDone hp]
    exact Or.inl hden

/-- With the turn at `T`, nothing is doomed. -/
theorem Sim.denotes_of_turnT {y : PPoint W} (hS : Sim J s d) (hp : s.p = .done y)
    (hy : ¬y.Owns) :
    Denotes J d (s.t.run s.chan.words).1 s.mem s.chan.turn (s.t.run s.chan.words).2 y := by
  rcases hS.ctl with hden | hdoom
  · rwa [settled_of_pDone hp] at hden
  · unfold Doomed at hdoom
    rw [settled_of_pDone hp] at hdoom
    obtain rfl : y = .give none := hdoom
    exact absurd trivial hy

/-- A caller's operation is handed over. -/
theorem denotes_callerCode {w : Nat → Word} {mem : List UInt8} {y : PPoint W} {turn : Word}
    {o : CallerOp W.memSize} {r : Asker W} (hmem : mem.length = W.memSize)
    (hctl : d'.ctl = .caller o r) (hheld : Held d' y r) :
    Denotes J d' ((callerCode o r).run w).1 (o.fill mem) turn ((callerCode o r).run w).2 y := by
  have hstored := run_callerCode_stored (w := w) o r hmem
  obtain ⟨w', hrun, hop⟩ := run_callerCode o r w
  rw [hrun] at hstored ⊢
  exact ⟨hop, hctl, hstored, hheld⟩

theorem denotes_resume {w : Nat → Word} {mem : List UInt8} {y : PPoint W} {turn : Word}
    {r : Asker W} {reply : Reply} (hctl : d.ctl = Direct.back reply r) (hheld : Held d y r) :
    Denotes J d w mem turn (r.resume reply) y := by
  cases r with
  | client c => exact hctl
  | closure c rets top => exact ⟨hctl, hheld⟩

/-- What `serve` reads. -/
theorem denotes_serveCode (hJ : J.Named) (hty : J.Typed) {w : Nat → Word} {mem : List UInt8}
    {y : PPoint W} {turn : Word} {top : Top W} (h : Replied J d w mem y (.serve top)) :
    Denotes J d ((serveCode J top (w fOp)).run w).1 mem turn
      ((serveCode J top (w fOp)).run w).2 y := by
  unfold serveCode
  rcases h with ⟨hop, hctl⟩ | ⟨hop, name, args, idx, hcall, hidx, hw, hargs⟩
  · rw [if_pos hop]
    cases top with
    | init => exact hctl
    | transform c => exact hctl
  · obtain ⟨func, hentry, hlookup⟩ := import_of_idx hJ hidx
    obtain ⟨x, f, m, i, hy, hfits, hctl, hinst, hstep⟩ := hcall
    obtain ⟨hlen, hsign, hrets⟩ := hty _ _ _ _ _ _ _ hstep func hlookup
    have hnot : ¬(nArgs ≤ func.sign.1 ∨ nRets < func.sign.2) := by
      have h2 : func.sign.2 ≤ nRets := by
        rw [hrets]
        cases x.hasResult <;> decide
      omega
    have hmin : min func.sign.1 (nArgs - 1) = args.length := by omega
    rw [hop, if_neg (by decide), if_neg (by decide), if_pos rfl, Code.run_load, hw, hentry]
    dsimp only
    rw [Code.run_loads, if_neg hnot, hmin, args_eq hargs]
    exact ⟨⟨x, f, m, i, hy, hfits, hctl, hinst, hstep⟩, hlookup⟩

/-- What `request` reads. -/
theorem denotes_requestCode {w : Nat → Word} {mem : List UInt8} {y : PPoint W} {turn : Word}
    {o : CallerOp W.memSize} {r : Asker W} (h : Replied J d w mem y (.request o r)) :
    Denotes J d ((requestCode o r (w fOp)).run w).1 mem turn
      ((requestCode o r (w fOp)).run w).2 y := by
  obtain ⟨hop, hctl, hheld⟩ := h
  rw [requestCode, if_pos hop]
  exact ⟨hctl, hheld⟩

/-- The plugin's call enters the closure. -/
theorem step_enter {y : PPoint W} {name : Name} {func : Func W.guest} {args : List Word}
    {top : Top W} (hcall : Calling d y top name args)
    (hlookup : J.imports.lookup name = some func) :
    ∃ x, y.frame = some (.forward x) ∧ x.phase.Fits top ∧
      (∃ m f i, W.engine.step m f i = .call name args x.hasResult x.frame) ∧
      Direct.Steps J d
        { d with
          ctl := .closure (func.func args) func.sign.2 top
          susp := some x
          log := d.log ++ [.call name args] } := by
  obtain ⟨x, f, m, i, hy, hfits, hctl, hinst, hstep⟩ := hcall
  refine ⟨x, hy, hfits, ⟨m, f, i, hstep⟩, ?_⟩
  simp [Direct.Steps, Direct.step, hctl, hinst, Direct.runPlugin, hstep, hlookup]

/-- The closure's result goes back into the plugin. -/
theorem step_ret {c : W.guest.Closure} {rets : Nat} {top : Top W} {outs : List Word}
    {x : Suspended W} (hctl : d.ctl = .closure c rets top) (hsusp : d.susp = some x)
    (hret : W.guest.closure c d.gs = .ret outs) :
    Direct.Steps J d (Direct.resumePlugin d x rets outs top) := by
  simp [Direct.Steps, Direct.step, hctl, hret, hsusp]

/-- The result of an import travels in `rets[0]`. -/
theorem denotes_importDone {w : Nat → Word} {mem : List UInt8} {y : PPoint W} {turn : Word}
    {rets : Nat} {outs : List Word} {top : Top W} {x : Suspended W}
    (hy : y.frame = some (.forward x)) (hfits : x.phase.Fits top)
    (hrets : rets = if x.hasResult then 1 else 0) :
    Denotes J (Direct.resumePlugin d x rets outs top) ((importDone rets outs top).run w).1 mem turn
      ((importDone rets outs top).run w).2 y := by
  subst hrets
  obtain ⟨hop, hval, hgive⟩ := run_importDone_rets (w := w) x.hasResult outs top
  rw [hgive]
  have hresumes : Resumes (Direct.resumePlugin d x (if x.hasResult then 1 else 0) outs top)
      ((importDone (if x.hasResult then 1 else 0) outs top).run w).1 y top := by
    refine ⟨hop, x, hy, hfits, ?_⟩
    cases hb : x.hasResult with
    | true =>
        rw [hb] at hval
        simp only [if_true] at hval ⊢
        rw [hval trivial]
        simp [Direct.resumePlugin, hb]
    | false => simp [Direct.resumePlugin, hb]
  cases top with
  | init => exact Or.inr hresumes
  | transform c => exact Or.inr hresumes

/-- **`T` at a point where it holds the turn.** -/
theorem sim_tPoint_owns (hJ : J.Named) (hty : J.Typed) {x : TPoint W} (hS : Sim J s d)
    (ht : s.t = .done x) (hx : x.Owns) (h : tPoint J s x = some s') :
    ∃ d', Direct.Runs J d d' ∧ Sim J s' d' := by
  have hI' : Inv J s' := inv_tPoint_owns hS.inv ht hx h
  obtain ⟨hT, hn⟩ := (hS.inv.protoT ht).of_tOwns hx
  obtain ⟨y, hp⟩ := hS.inv.pDone hT
  rw [hp] at hn
  have hden := hS.denotes_of_turnT hp hn
  rw [ht] at hden
  cases x with
  | client c =>
      have hctl : d.ctl = .client c := hden
      simp only [tPoint] at h
      cases hc : W.guest.client c s.gs with
      | run c' gs =>
          simp only [hc] at h
          obtain rfl := Option.some.inj h
          refine ⟨{ d with gs := gs, ctl := .client c' }, .single ?_, ?_⟩
          · simp [Direct.Steps, Direct.step, hctl, hS.gs, hc]
          · exact sim_of_pDone hI' hp hS.log rfl hS.inst hS.length rfl
      | caller o c' =>
          simp only [hc] at h
          obtain rfl := Option.some.inj h
          refine ⟨{ d with ctl := .caller o (.client c') }, .single ?_, ?_⟩
          · simp [Direct.Steps, Direct.step, hctl, hS.gs, hc]
          · exact sim_of_pDone hI' hp hS.log hS.gs hS.inst (length_fill o hS.length)
              (denotes_callerCode hS.length rfl trivial)
      | transform ptr len mark cp c' =>
          simp only [hc] at h
          obtain rfl := Option.some.inj h
          refine ⟨{ d with ctl := .transform ptr len mark cp c' }, .single ?_, ?_⟩
          · simp [Direct.Steps, Direct.step, hctl, hS.gs, hc]
          · exact sim_of_pDone hI' hp hS.log hS.gs hS.inst hS.length (Or.inl ⟨rfl, rfl⟩)
      | drop =>
          simp only [hc] at h
          obtain rfl := Option.some.inj h
          refine ⟨{ d with ctl := .done }, .single ?_, ?_⟩
          · simp [Direct.Steps, Direct.step, hctl, hS.gs, hc]
          · exact sim_of_pDone hI' hp hS.log hS.gs hS.inst hS.length rfl
  | enter name func args top =>
      obtain ⟨hcall, hlookup⟩ := hden
      obtain ⟨x, hy, hfits, ⟨m, f, i, hstep⟩, hd⟩ := step_enter hcall hlookup
      obtain ⟨-, -, hrets⟩ := hty _ _ _ _ _ _ _ hstep func hlookup
      obtain rfl := Option.some.inj h
      refine ⟨_, .single hd, sim_of_pDone hI' hp ?_ hS.gs hS.inst hS.length ?_⟩
      · exact congrArg (· ++ [Event.call name args]) hS.log
      · exact ⟨rfl, x, rfl, hy, hfits, hrets⟩
  | closure c rets top =>
      obtain ⟨hctl, hheld⟩ := hden
      obtain ⟨x, hsusp, hy, hfits, hrets⟩ := id hheld
      simp only [tPoint] at h
      cases hc : W.guest.closure c s.gs with
      | run c' gs =>
          simp only [hc] at h
          obtain rfl := Option.some.inj h
          refine ⟨{ d with gs := gs, ctl := .closure c' rets top }, .single ?_, ?_⟩
          · simp [Direct.Steps, Direct.step, hctl, hS.gs, hc]
          · exact sim_of_pDone hI' hp hS.log rfl hS.inst hS.length ⟨rfl, hheld⟩
      | caller o c' =>
          simp only [hc] at h
          obtain rfl := Option.some.inj h
          refine ⟨{ d with ctl := .caller o (.closure c' rets top) }, .single ?_, ?_⟩
          · simp [Direct.Steps, Direct.step, hctl, hS.gs, hc]
          · exact sim_of_pDone hI' hp hS.log hS.gs hS.inst (length_fill o hS.length)
              (denotes_callerCode hS.length rfl hheld)
      | ret outs =>
          simp only [hc] at h
          obtain rfl := Option.some.inj h
          have hc' : W.guest.closure c d.gs = .ret outs := by rw [hS.gs]; exact hc
          refine ⟨_, .single (step_ret hctl hsusp hc'), ?_⟩
          refine sim_of_pDone hI' hp ?_ hS.gs hS.inst hS.length ?_
          · exact congrArg (· ++ [Event.ret (outVals rets outs)]) hS.log
          · exact denotes_importDone hy hfits hrets
  | signal =>
      obtain ⟨hctl, hop⟩ := hden
      obtain rfl := Option.some.inj h
      refine ⟨d, .refl, sim_of_pDone hI' hp hS.log hS.gs hS.inst hS.length ?_⟩
      exact Or.inl ⟨hop, hctl⟩
  | give k =>
      obtain rfl := Option.some.inj h
      refine ⟨d, .refl, sim_of_pDone hI' hp hS.log hS.gs hS.inst hS.length ?_⟩
      cases k with
      | none => exact hden
      | some k => exact Or.inr (Or.inl ⟨rfl, hn, hden⟩)
  | woke k =>
      obtain rfl := Option.some.inj h
      refine ⟨d, .refl, sim_of_pDone hI' hp hS.log hS.gs hS.inst hS.length ?_⟩
      cases k with
      | serve top => exact denotes_serveCode hJ hty hden
      | request o r => exact denotes_requestCode hden
  | answered o v r =>
      obtain ⟨hctl, hheld⟩ := hden
      obtain rfl := Option.some.inj h
      refine ⟨d, .refl, sim_of_pDone hI' hp hS.log hS.gs hS.inst hS.length ?_⟩
      exact denotes_resume hctl hheld
  | panicked => exact hden.elim
  | _ => exact hx.elim

/-- A doomed channel stays doomed under `T`, which waits or has closed. -/
theorem doomed_tNext (hI : Inv J s) (hdoom : Doomed s) (h : tNext J s = some s') :
    Doomed s' ∧ s'.log = s.log ∧ s'.gs = s.gs ∧ s'.host = s.host ∧ s'.mem = s.mem := by
  have hy : s.settled.p.Owns := by rw [hdoom]; trivial
  obtain ⟨hP, hx⟩ := hI.proto.of_pOwns hy
  obtain ⟨x, ht⟩ := hI.tDone hP
  rw [settled_of_tDone ht] at hx
  unfold Doomed at hdoom ⊢
  rw [settled_of_tDone ht] at hdoom
  have hwake : ((wakeP s.p).run s.chan.words).2 = .give none := by
    cases hc : s.p with
    | load i k => rw [hc] at hdoom; exact hdoom
    | store i v k => rw [hc] at hdoom; exact hdoom
    | done y =>
        rw [hc] at hdoom
        obtain rfl : y = .give none := hdoom
        rfl
  simp only [tNext, ht] at h
  cases x with
  | notify k =>
      obtain rfl := Option.some.inj h
      rw [settled_of_tDone rfl]
      exact ⟨hwake, rfl, rfl, rfl, rfl⟩
  | park pc k =>
      simp only [tPoint] at h
      split at h
      · next hleave => exact absurd (hP.symm.trans (parkUntil_leave hleave)) turnP_ne_turnT
      · obtain rfl := Option.some.inj h
        rw [settled_of_tDone rfl]
        exact ⟨hdoom, rfl, rfl, rfl, rfl⟩
      · simp at h
  | closed => simp [tPoint] at h
  | dropped => simp [tPoint] at h
  | client | enter | closure | signal | give | woke | answered | panicked =>
      exact absurd trivial hx

/-- `P`'s position survives a wake-up. -/
theorem denotes_wakeP {turn : Word} {w : Nat → Word} {mem : List UInt8} {x : TPoint W}
    {p : PCode W} (h : Denotes J d (p.run w).1 mem turn x (p.run w).2) :
    Denotes J d ((wakeP p).run w).1 mem turn x ((wakeP p).run w).2 := by
  match p with
  | .load _ _ => exact h
  | .store _ _ _ => exact h
  | .done (.wait pc k) =>
      have hframe : (PPoint.wait pc.notified k : PPoint W).frame = (PPoint.wait pc k).frame := rfl
      exact Denotes.of_frame h not_false not_false hframe
  | .done .pending | .done .entryTurn | .done .entryOp | .done (.woke _)
  | .done (.instantiate _ _ _ _) | .done (.run _ _) | .done (.service _ _) | .done (.give _)
  | .done (.notify _) | .done .left | .done .dead => exact h

/-- **`T` at a point where it waits.** -/
theorem sim_tPoint_waits {x : TPoint W} (hS : Sim J s d) (ht : s.t = .done x) (hx : ¬x.Owns)
    (hden : Denotes J d s.settled.words s.mem s.chan.turn s.settled.t s.settled.p)
    (h : tPoint J s x = some s') : Sim J s' d := by
  have hI' : Inv J s' := inv_tPoint_waits hS.inv ht hx h
  rw [settled_of_tDone ht] at hden
  match x with
  | .notify k =>
      obtain rfl := Option.some.inj h
      refine ⟨hI', hS.log, hS.gs, hS.inst, hS.length, Or.inl ?_⟩
      rw [settled_of_tDone rfl]
      apply denotes_wakeP
      cases k with
      | none => exact hden
      | some k => exact hden
  | .park pc k =>
      simp only [tPoint] at h
      split at h
      · next hleave =>
          have hT := parkUntil_leave hleave
          obtain rfl := Option.some.inj h
          refine ⟨hI', hS.log, hS.gs, hS.inst, hS.length, Or.inl ?_⟩
          rw [settled_of_tDone rfl]
          rcases hden with ⟨-, hr⟩ | ⟨hP, -⟩ | ⟨hP, -⟩
          · exact hr
          · exact absurd (hP.symm.trans hT) turnP_ne_turnT
          · exact absurd (hP.symm.trans hT) turnP_ne_turnT
      · obtain rfl := Option.some.inj h
        refine ⟨hI', hS.log, hS.gs, hS.inst, hS.length, Or.inl ?_⟩
        rw [settled_of_tDone rfl]
        exact hden
      · simp at h
  | .closed => simp [tPoint] at h
  | .dropped => simp [tPoint] at h
  | .client _ | .enter _ _ _ _ | .closure _ _ _ | .signal | .give _ | .woke _ | .answered _ _ _
  | .panicked => exact absurd trivial hx

/-- An access of `T`. -/
theorem sim_tAccess {w : Nat → Word} {c : TCode W} (hS : Sim J s d)
    (h : s.t.tick s.chan.words = some (w, c))
    (hI' : Inv J { s with chan := { s.chan with words := w }, t := c }) :
    Sim J { s with chan := { s.chan with words := w }, t := c } d := by
  have hT : s.chan.turn = turnT := by
    rcases hS.inv.tCode with ⟨x, hx⟩ | hT
    · simp [hx, Code.tick] at h
    · exact hT
  obtain ⟨y, hp⟩ := hS.inv.pDone hT
  have hn : ¬y.Owns := fun hy =>
    turnP_ne_turnT ((hS.inv.protoP hp).of_pOwns hy |>.1.symm.trans hT)
  have hden := hS.denotes_of_turnT hp hn
  refine sim_of_pDone hI' hp hS.log hS.gs hS.inst hS.length ?_
  rw [← Code.run_tick h] at hden
  exact hden

/-- **A step of `T` is at most one direct step.** -/
theorem sim_tNext (hJ : J.Named) (hty : J.Typed) (hS : Sim J s d) (h : tNext J s = some s') :
    ∃ d', Direct.Runs J d d' ∧ Sim J s' d' := by
  have hI' := inv_tNext hS.inv h
  rcases hS.ctl with hden | hdoom
  · cases ht : s.t with
    | load i k =>
        simp only [tNext, ht] at h
        obtain rfl := Option.some.inj h
        exact ⟨d, .refl, sim_tAccess hS (w := s.chan.words) (by rw [ht]; rfl) hI'⟩
    | store i v k =>
        simp only [tNext, ht] at h
        obtain rfl := Option.some.inj h
        exact ⟨d, .refl, sim_tAccess hS (by rw [ht]; rfl) hI'⟩
    | done x =>
        simp only [tNext, ht] at h
        by_cases hx : x.Owns
        · exact sim_tPoint_owns hJ hty hS ht hx h
        · exact ⟨d, .refl, sim_tPoint_waits hS ht hx hden h⟩
  · obtain ⟨hdoom', hlog, hgs, hhost, hmem⟩ := doomed_tNext hS.inv hdoom h
    refine ⟨d, .refl, hI', ?_, ?_, ?_, ?_, Or.inr hdoom'⟩
    · rw [hlog]
      exact hS.log
    · rw [hgs]
      exact hS.gs
    · rw [hhost]
      exact hS.inst
    · rw [hmem]
      exact hS.length

end TSteps

/-! ### Steps of `P` -/

section PSteps

variable {J : Job W} {s s' : State W} {d d' : Direct.State W}

theorem Denotes.of_waits {turn : Word} {w : Nat → Word} {mem : List UInt8} {x : TPoint W}
    {y : PPoint W} {k : TWait W} (hx : x.WaitsFor k) (h : Waits J d w mem turn y k) :
    Denotes J d w mem turn x y := by
  rcases hx with rfl | ⟨pc, rfl⟩
  · exact h
  · exact h

theorem sim_of_tDone {x : TPoint W} (hI : Inv J s') (ht : s'.t = .done x) (hlog : d'.log = s'.log)
    (hgs : d'.gs = s'.gs) (hinst : d'.inst = s'.host.live) (hlen : s'.mem.length = W.memSize)
    (hden : Denotes J d' (s'.p.run s'.chan.words).1 s'.mem s'.chan.turn x
      (s'.p.run s'.chan.words).2) : Sim J s' d' where
  inv := hI
  log := hlog
  gs := hgs
  inst := hinst
  length := hlen
  ctl := by
    rw [settled_of_tDone ht]
    exact Or.inl hden

theorem Denotes.of_closed {turn : Word} {w : Nat → Word} {mem : List UInt8} {x : TPoint W}
    {y : PPoint W} (hx : x.HasClosed) (h : d.ctl = .done) : Denotes J d w mem turn x y := by
  rcases hx with rfl | rfl
  · exact h
  · exact h

/-- What `P` works on. -/
theorem Denotes.works {w : Nat → Word} {mem : List UInt8} {x : TPoint W} {y : PPoint W}
    {k : TWait W} (h : Denotes J d w mem turnP x y) (hx : x.WaitsFor k) (hy : y.Owns) :
    Works J d w mem k y := by
  have hw : Waits J d w mem turnP y k := by
    rcases hx with rfl | ⟨pc, rfl⟩
    · exact h
    · exact h
  rcases hw with ⟨hT, -⟩ | ⟨-, hn, -⟩ | ⟨-, hw⟩
  · exact absurd hT turnP_ne_turnT
  · exact absurd hy hn
  · exact hw

/-- `P` leaves its wait loop. -/
theorem Denotes.woke {turn : Word} {w : Nat → Word} {mem : List UInt8} {x : TPoint W}
    {pc : WaitPc} {k : PWait W} (h : Denotes J d w mem turn x (.wait pc k)) (hP : turn = turnP) :
    Denotes J d w mem turn x (.woke k) := by
  have hframe : (PPoint.woke k : PPoint W).frame = (PPoint.wait pc k).frame := rfl
  have hwaits : ∀ {kt}, Waits J d w mem turn (.wait pc k) kt → Waits J d w mem turn (.woke k) kt := by
    rintro kt (⟨hT, -⟩ | ⟨-, -, hpend⟩ | ⟨-, hw⟩)
    · exact absurd (hP.symm.trans hT) turnP_ne_turnT
    · exact Or.inr (Or.inr ⟨hP, hpend.of_frame hframe⟩)
    · exact hw.elim
  match x with
  | .client c => exact h
  | .enter name func args top => exact ⟨h.1.of_frame hframe, h.2⟩
  | .closure c rets top => exact ⟨h.1, h.2.of_frame hframe⟩
  | .answered o v r => exact ⟨h.1, h.2.of_frame hframe⟩
  | .signal => exact h
  | .give kt => exact Pending.of_frame h hframe
  | .notify none => exact h
  | .closed => exact h
  | .notify (some kt) => exact hwaits h
  | .park _ kt => exact hwaits h
  | .woke kt => exact Replied.of_frame h hframe

/-- What a piece of the worker's code comes to: work on `k`, or an error to report. -/
def PCode.Simulates (J : Job W) (d : Direct.State W) (w : Nat → Word) (mem : List UInt8)
    (k : TWait W) (c : PCode W) : Prop :=
  Works J d (c.run w).1 mem k (c.run w).2 ∨ (c.run w).2 = .give none

theorem simulates_reportError {w : Nat → Word} {mem : List UInt8} {k : TWait W} :
    PCode.Simulates J d w mem k reportError :=
  Or.inr rfl

theorem sim_of_pStep {x : TPoint W} {k : TWait W} (hI : Inv J s') (ht : s'.t = .done x)
    (hx : x.WaitsFor k) (hP : s'.chan.turn = turnP) (hlog : d'.log = s'.log)
    (hgs : d'.gs = s'.gs) (hinst : d'.inst = s'.host.live) (hlen : s'.mem.length = W.memSize)
    (hsim : PCode.Simulates J d' s'.chan.words s'.mem k s'.p) : Sim J s' d' where
  inv := hI
  log := hlog
  gs := hgs
  inst := hinst
  length := hlen
  ctl := by
    unfold Doomed
    rw [settled_of_tDone ht]
    exact hsim.imp_left fun hw => Denotes.of_waits hx (Or.inr (Or.inr ⟨hP, hw⟩))

/-! #### The loops -/

/-- `serviceCaller` loads the operands of the operation. -/
theorem simulates_serviceCaller {w : Nat → Word} {mem : List UInt8} {available : Bool}
    {o : CallerOp W.memSize} {r : Asker W} {kp : PWait W} (hctl : d.ctl = .caller o r)
    (hstored : Stored w mem o) (hheld : Held d (.woke kp) r) :
    PCode.Simulates J d w mem (.request o r) (serviceCaller available o.op kp) := by
  cases available with
  | false => exact simulates_reportError
  | true =>
      left
      cases o with
      | alloc size => exact ⟨_, r, rfl, hctl, hstored, hheld⟩
      | free ptr size => exact ⟨_, r, rfl, hctl, hstored, hheld⟩
      | readBuf ptr buf => exact ⟨_, r, rfl, hctl, hstored, hheld⟩
      | writeBuf ptr buf => exact ⟨_, r, rfl, hctl, hstored, hheld⟩

/-- `runTransform` calls the export, if there is a plugin. -/
theorem sim_runTransform {c : W.guest.Client} {w : Nat → Word} {mem : List UInt8} (h : Host W)
    (hinst : d.inst = h.live)
    (hctl : d.ctl = .transform (w fProgramPtr) (w fProgramLen) (w fMark) (w fCommentsProxy) c) :
    ∃ d', Direct.Runs J d d' ∧ d'.log = d.log ∧ d'.gs = d.gs ∧ d'.inst = d.inst ∧
      PCode.Simulates J d' w mem (.serve (.transform c)) (runTransform h) := by
  by_cases hready : h.plugin = true ∧ ∃ m i, h.live = some (m, i)
  · obtain ⟨hplugin, m, i, hlive⟩ := hready
    refine ⟨{ d with ctl := .run .transform (W.engine.transform m (w fProgramPtr)
      (w fProgramLen) (w fMark) (w fCommentsProxy)) (.transform c) }, .single ?_, rfl, rfl, rfl, ?_⟩
    · simp [Direct.Steps, Direct.step, hctl, hinst, hlive]
    · left
      unfold runTransform
      simp only [Code.run_load, hplugin, hlive]
      exact ⟨_, rfl, rfl, trivial⟩
  · refine ⟨d, .refl, rfl, rfl, rfl, Or.inr ?_⟩
    unfold runTransform
    simp only [Code.run_load]
    split
    · next hplugin hlive => exact absurd ⟨hplugin, _, _, hlive⟩ hready
    · rfl

/-- An import returns to the plugin. -/
theorem simulates_resume {x : Suspended W} {top : Top W} {w : Nat → Word} {mem : List UInt8}
    (h : Host W) (hres : Resumes d w (.woke (.forward x)) top) :
    PCode.Simulates J d w mem (.serve top) (forwardCode h x (w fOp)) := by
  obtain ⟨hop, x', hy, hfits, hctl⟩ := hres
  obtain rfl : x = x' := by simpa [PPoint.frame] using hy
  left
  rw [forwardCode, if_pos hop]
  exact ⟨top, rfl, hctl, hfits⟩

theorem not_resumes_loop {top : Top W} {w : Nat → Word} :
    ¬Resumes d w (.woke .loop) top := by
  rintro ⟨-, x, hy, -⟩
  simp [PPoint.frame] at hy

/-- A forwarder takes no top-level request. -/
theorem not_accepts_forward {x : Suspended W} {op : Word} (h : op = opInit ∨ op = opTransform) :
    ¬PWait.Accepts op (.forward x) := by
  rcases h with rfl | rfl
  · exact (by decide : ¬(opInit = opDone ∨ opInit = opCallerAlloc ∨ opInit = opCallerFree ∨
      opInit = opCallerRead ∨ opInit = opCallerWrite))
  · exact (by decide : ¬(opTransform = opDone ∨ opTransform = opCallerAlloc ∨
      opTransform = opCallerFree ∨ opTransform = opCallerRead ∨ opTransform = opCallerWrite))

/-- `P` leaves its wait loop on the request `k`. -/
theorem sim_onWake {kp : PWait W} {k : TWait W} {w : Nat → Word} {mem : List UInt8}
    (h : Host W) (hinst : d.inst = h.live) (hacc : kp.Accepts (w fOp))
    (hpend : Pending d w mem (.woke kp) (some k)) :
    ∃ d', Direct.Runs J d d' ∧ d'.log = d.log ∧ d'.gs = d.gs ∧ d'.inst = d.inst ∧
      PCode.Simulates J d' w mem k (kp.onWake h (w fOp)) := by
  have hstutter : PCode.Simulates J d w mem k (kp.onWake h (w fOp)) →
      ∃ d', Direct.Runs J d d' ∧ d'.log = d.log ∧ d'.gs = d.gs ∧ d'.inst = d.inst ∧
        PCode.Simulates J d' w mem k (kp.onWake h (w fOp)) :=
    fun hsim => ⟨d, .refl, rfl, rfl, rfl, hsim⟩
  cases kp with
  | loop =>
      cases k with
      | serve top =>
          cases top with
          | init =>
              rcases hpend with ⟨hop, hctl⟩ | hres
              · refine hstutter (Or.inl ?_)
                show Works J d ((loopCode h (w fOp)).run w).1 mem _ ((loopCode h (w fOp)).run w).2
                rw [loopCode, if_pos hop]
                exact ⟨rfl, hctl⟩
              · exact absurd hres not_resumes_loop
          | transform c =>
              rcases hpend with ⟨hop, hctl⟩ | hres
              · have hcode : PWait.onWake h (w fOp) .loop = runTransform h := by
                  show loopCode h (w fOp) = runTransform h
                  rw [hop]
                  rfl
                rw [hcode]
                exact sim_runTransform h hinst hctl
              · exact absurd hres not_resumes_loop
      | request o r =>
          obtain ⟨hop, hctl, hstored, hheld⟩ := hpend
          refine hstutter ?_
          show PCode.Simulates J d w mem _ (loopCode h (w fOp))
          rw [hop, loopCode_op]
          exact simulates_serviceCaller hctl hstored hheld
  | forward x =>
      have hinit : w fOp ≠ opInit := fun hop => not_accepts_forward (Or.inl hop) hacc
      have htransform : w fOp ≠ opTransform := fun hop => not_accepts_forward (Or.inr hop) hacc
      cases k with
      | serve top =>
          cases top with
          | init => exact hstutter (simulates_resume h (hpend.resolve_left fun hp => hinit hp.1))
          | transform c =>
              exact hstutter (simulates_resume h (hpend.resolve_left fun hp => htransform hp.1))
      | request o r =>
          obtain ⟨hop, hctl, hstored, hheld⟩ := hpend
          refine hstutter ?_
          show PCode.Simulates J d w mem _ (forwardCode h x (w fOp))
          rw [hop, forwardCode_op]
          exact simulates_serviceCaller hctl hstored hheld

/-! #### The plugin -/

/-- `INIT` from the core-diag call on. -/
theorem simulates_runCoreDiag {w : Nat → Word} {mem : List UInt8} {m : W.engine.Module}
    {h : Host W} (hctl : d.ctl = Direct.coreDiag J m) :
    PCode.Simulates J d w mem (.serve .init) (runCoreDiag m h).2 := by
  left
  unfold runCoreDiag
  unfold Direct.coreDiag at hctl
  cases he : W.engine.entry m .coreDiag with
  | some f =>
      rw [he] at hctl
      exact ⟨.init, rfl, hctl, trivial⟩
  | none =>
      rw [he] at hctl
      exact Or.inl ⟨op_reportDone w .loop, hctl⟩

theorem runCoreDiag_live (m : W.engine.Module) (h : Host W) :
    (runCoreDiag m h).1.live = h.live := by
  unfold runCoreDiag
  split <;> rfl

theorem checkExports_live (m : W.engine.Module) (h : Host W) :
    (checkExports m h).1.live = h.live := by
  unfold checkExports runInitialize
  dsimp only
  split
  · split
    · rfl
    · exact runCoreDiag_live m _
  · rfl

/-- `INIT` after the start function: the direct execution goes on too, or the worker reports
an error. -/
theorem simulates_checkExports {w : Nat → Word} (mem : List UInt8) (m : W.engine.Module)
    (h : Host W) :
    (checkExports m h).2 = reportError ∨
      ∃ ctl, Direct.started J m = some ctl ∧ ∀ d : Direct.State W, d.ctl = ctl →
        PCode.Simulates J d w mem (.serve .init) (checkExports m h).2 := by
  unfold checkExports Direct.started
  dsimp only
  split
  · right
    unfold runInitialize
    cases he : W.engine.entry m .reactorInit with
    | some f => exact ⟨_, rfl, fun d hd => Or.inl ⟨.init, rfl, hd, trivial⟩⟩
    | none => exact ⟨_, rfl, fun d hd => simulates_runCoreDiag hd⟩
  · exact Or.inl rfl

/-- The end of a plugin function. -/
theorem simulates_phaseReturned {w : Nat → Word} (mem : List UInt8) (m : W.engine.Module)
    (h : Host W) (v : Word) {phase : Phase} {top : Top W} (hfits : phase.Fits top) :
    phase ≠ .transform ∧ (phaseReturned m h v phase).2 = reportError ∨
      ∃ ctl, Direct.returned J m v phase top = some ctl ∧ ∀ d : Direct.State W, d.ctl = ctl →
        PCode.Simulates J d w mem (.serve top) (phaseReturned m h v phase).2 := by
  match phase, top with
  | .start, .init =>
      exact (simulates_checkExports mem m h).imp_left fun herr => ⟨by simp, herr⟩
  | .reactorInit, .init => exact Or.inr ⟨_, rfl, fun d hd => simulates_runCoreDiag hd⟩
  | .coreDiag, .init =>
      exact Or.inr ⟨_, rfl, fun d hd => Or.inl (Or.inl ⟨op_reportDone w .loop, hd⟩)⟩
  | .transform, .transform c =>
      refine Or.inr ⟨_, rfl, fun d hd => Or.inl (Or.inl ⟨?_, ?_⟩)⟩
      · exact op_reportDone (Function.update w fResultCode v) .loop
      · -- `result_code` still holds what the export returned
        show d.ctl = _
        rw [hd]
        rfl

theorem phaseReturned_live (m : W.engine.Module) (h : Host W) (v : Word) (phase : Phase) :
    (phaseReturned m h v phase).1.live = h.live := by
  cases phase with
  | start => exact checkExports_live m h
  | reactorInit => exact runCoreDiag_live m h
  | coreDiag => rfl
  | transform => rfl

/-- One step of plugin code. -/
theorem sim_pRun (hJ : J.Named) (hS : Sim J s d) {x : TPoint W} {top : Top W}
    {m : W.engine.Module} {i : Inst W.engine.Priv} {phase : Phase} {f : W.engine.Frame}
    (hP : s.chan.turn = turnP) (ht : s.t = .done x) (hx : x.WaitsFor (.serve top))
    (hlive : s.host.live = some (m, i)) (hctl : d.ctl = .run phase f top)
    (hfits : phase.Fits top) :
    ∃ d', Direct.Runs J d d' ∧ Sim J (pRun s m i phase f) d' := by
  have hI' : Inv J (pRun s m i phase f) :=
    inv_pRun hS.inv hJ.ne hJ.newline hP ht hx hlive
  have hinst : d.inst = some (m, i) := hS.inst.trans hlive
  have hnames : s.host.names = stripBom (namesBlob (J.imports.map Prod.fst)) :=
    hS.inv.names (by simp [hlive])
  unfold pRun at hI' ⊢
  cases hstep : W.engine.step m f i with
  | run f' i' =>
      simp only [hstep] at hI' ⊢
      refine ⟨{ d with inst := some (m, i'), ctl := .run phase f' top }, .single ?_, ?_⟩
      · simp [Direct.Steps, Direct.step, hctl, hinst, Direct.runPlugin, hstep]
      · exact sim_of_pStep hI' ht hx hP hS.log hS.gs rfl hS.length
          (Or.inl ⟨top, rfl, rfl, hfits⟩)
  | call name args hasResult f' =>
      simp only [hstep] at hI' ⊢
      refine ⟨d, .refl, ?_⟩
      cases hidx : nameToIdx s.host.names name with
      | none =>
          simp only [hidx] at hI' ⊢
          exact sim_of_pStep hI' ht hx hP hS.log hS.gs hS.inst hS.length simulates_reportError
      | some idx =>
          simp only [hidx] at hI' ⊢
          refine sim_of_pStep hI' ht hx hP hS.log hS.gs hS.inst hS.length (Or.inl ?_)
          obtain ⟨w', hrun, hop, hw, hargs⟩ :=
            run_makeForwarder s.chan.words idx args ⟨phase, hasResult, f'⟩
          show Works J d ((makeForwarder idx args ⟨phase, hasResult, f'⟩).run s.chan.words).1 _ _
            ((makeForwarder idx args ⟨phase, hasResult, f'⟩).run s.chan.words).2
          rw [hrun]
          rw [hnames] at hidx
          refine Or.inr ⟨hop, name, args, idx, ?_, hidx, hw, hargs⟩
          exact ⟨_, f, m, i, rfl, hfits, hctl, hinst, hstep⟩
  | ret v =>
      simp only [hstep] at hI' ⊢
      rcases simulates_phaseReturned (J := J) (w := s.chan.words) s.mem m s.host v hfits
        with ⟨hphase, herr⟩ | ⟨ctl, hret, hsim⟩
      · refine ⟨d, .refl, sim_of_pStep hI' ht hx hP ?_ hS.gs ?_ hS.length (Or.inr ?_)⟩
        · show d.log = if phase = .transform then s.log ++ [.result v] else s.log
          rw [if_neg hphase]
          exact hS.log
        · exact hS.inst.trans (phaseReturned_live m s.host v phase).symm
        · show ((phaseReturned m s.host v phase).2.run s.chan.words).2 = .give none
          rw [herr]
          rfl
      · refine ⟨{ d with ctl := ctl
                         log := if phase = .transform then d.log ++ [.result v] else d.log },
          .single ?_, ?_⟩
        · simp [Direct.Steps, Direct.step, hctl, hinst, Direct.runPlugin, hstep, hret]
        · refine sim_of_pStep hI' ht hx hP ?_ hS.gs ?_ hS.length (hsim _ rfl)
          · show (if phase = .transform then d.log ++ [.result v] else d.log) =
              if phase = .transform then s.log ++ [.result v] else s.log
            rw [hS.log]
          · exact hS.inst.trans (phaseReturned_live m s.host v phase).symm
  | trap =>
      simp only [hstep] at hI' ⊢
      exact ⟨d, .refl, sim_of_pStep hI' ht hx hP hS.log hS.gs hS.inst hS.length
        simulates_reportError⟩

/-- `INIT`, from the compilation on. -/
theorem sim_instantiate (ns : List UInt8) (h : Host W) (hctl : d.ctl = .boot)
    (hinst : d.inst = h.live) (w : Nat → Word) (mem : List UInt8) :
    ∃ d', Direct.Runs J d d' ∧ d'.log = d.log ∧ d'.gs = d.gs ∧
      d'.inst = (instantiatePlugin J.module.bytes ns h).1.live ∧
      PCode.Simulates J d' w mem (.serve .init) (instantiatePlugin J.module.bytes ns h).2 := by
  unfold instantiatePlugin
  dsimp only
  cases hm : W.engine.compile J.module.bytes with
  | none => exact ⟨d, .refl, rfl, rfl, hinst, simulates_reportError⟩
  | some m =>
      dsimp only
      cases hi : W.engine.instantiate m with
      | none => exact ⟨d, .refl, rfl, rfl, hinst, simulates_reportError⟩
      | some i =>
          dsimp only
          have hlink : Direct.Steps J d { d with inst := some (m, i), ctl := .linked } := by
            simp [Direct.Steps, Direct.step, hctl, Direct.link, hm, hi]
          have hstart : ∀ ctl, Direct.start J m = some ctl →
              Direct.Runs J d { d with inst := some (m, i), ctl := ctl } := fun ctl hs =>
            (Relation.ReflTransGen.single hlink).tail (by simp [Direct.Steps, Direct.step, hs])
          cases hf : W.engine.entry m .start with
          | some f =>
              refine ⟨_, hstart (.run .start f .init) (by simp [Direct.start, hf]), rfl, rfl, rfl,
                Or.inl ⟨.init, rfl, rfl, trivial⟩⟩
          | none =>
              dsimp only
              rcases simulates_checkExports (J := J) mem m
                { h with names := textDecode W.engine.lossy ns, live := some (m, i) }
                with herr | ⟨ctl, hs, hsim⟩
              · refine ⟨_, .single hlink, rfl, rfl, ?_, Or.inr ?_⟩
                · rw [checkExports_live]
                · rw [herr]
                  rfl
              · refine ⟨_, hstart ctl (by simp [Direct.start, hf, hs]), rfl, rfl, ?_, hsim _ rfl⟩
                rw [checkExports_live]

/-- `OP_DONE` answers an operation that the direct execution has performed. -/
theorem simulates_reportDone {w : Nat → Word} {mem : List UInt8} {o : CallerOp W.memSize}
    {r : Asker W} {kp : PWait W} {v : Word}
    (hctl : d.ctl = Direct.back (o.reply v mem) r) (hheld : Held d (.woke kp) r)
    (hreply : o.reply (w fRets) mem = o.reply v mem) :
    PCode.Simulates J d w mem (.request o r) (reportDone kp) := by
  refine Or.inl ⟨op_reportDone w kp, ?_, hheld.of_frame rfl⟩
  show d.ctl = Direct.back (o.reply (Function.update w fOp opDone fRets) mem) r
  rw [Function.update_of_ne (by decide), hreply]
  exact hctl

theorem step_caller {o : CallerOp W.memSize} {r : Asker W} {m : W.engine.Module}
    {i i' : Inst W.engine.Priv} {reply : Reply} {e : Event} (hctl : d.ctl = .caller o r)
    (hinst : d.inst = some (m, i)) (hp : Direct.perform m i o = some (reply, i', e)) :
    Direct.Runs J d
      { d with inst := some (m, i'), ctl := Direct.back reply r, log := d.log ++ [e] } :=
  .single (by simp [Direct.Steps, Direct.step, hctl, hinst, hp])

theorem toNat_of_nonneg {ptr : Word} (h : 0 ≤ ptr.toInt) : ptr.toInt.toNat = ptr.toNat := by
  rw [BitVec.toInt_eq_toNat_cond] at h ⊢
  split at h
  · next hlt => rw [if_pos hlt, Int.toNat_natCast]
  · have hlt := ptr.isLt
    omega

/-- A read, serviced: the bytes pass through the guest's buffer. -/
theorem sim_read (hS : Sim J s d) {x : TPoint W} {ptr : Word} {buf : Buf W.memSize} {r : Asker W}
    {kp : PWait W} {m : W.engine.Module} {i : Inst W.engine.Priv}
    (hI' : Inv J (pService s m i kp (.read ptr (.ofNat 32 buf.addr) (.ofNat 32 buf.len))))
    (hP : s.chan.turn = turnP) (ht : s.t = .done x) (hx : x.WaitsFor (.request (.readBuf ptr buf) r))
    (hlive : s.host.live = some (m, i)) (hctl : d.ctl = .caller (.readBuf ptr buf) r)
    (hheld : Held d (.woke kp) r) :
    ∃ d', Direct.Runs J d d' ∧
      Sim J (pService s m i kp (.read ptr (.ofNat 32 buf.addr) (.ofNat 32 buf.len))) d' := by
  simp only [pService] at hI' ⊢
  cases hv : Bytes.view i.mem ptr.toInt (BitVec.ofNat 32 buf.len).toInt with
  | none =>
      simp only [hv] at hI' ⊢
      exact ⟨d, .refl, sim_of_pStep hI' ht hx hP hS.log hS.gs hS.inst hS.length
        simulates_reportError⟩
  | some src =>
      simp only [hv] at hI' ⊢
      have hfits : buf.addr + buf.len ≤ s.mem.length := by
        rw [hS.length]
        exact buf.fits
      obtain ⟨hptr, -, hle, hsrc⟩ := Bytes.view_eq_some hv
      rw [toInt_ofNat buf.len_lt] at hle hsrc
      rw [toNat_of_nonneg hptr, Int.toNat_natCast] at hsrc
      have hle' : ptr.toNat + buf.len ≤ i.mem.length := by
        have hn := toNat_of_nonneg hptr
        omega
      have hlen : src.length = buf.len := by
        rw [hsrc]
        exact Bytes.length_window hle'
      rw [toInt_ofNat buf.addr_lt, Bytes.set_eq_splice (by rw [hlen]; exact hfits)] at hI' ⊢
      dsimp only at hI' ⊢
      -- what `T` will find in the buffer is what the plugin's memory holds
      have hback : Bytes.window (Bytes.splice s.mem src buf.addr) buf.addr buf.len = src := by
        have hroom : buf.addr + src.length ≤ s.mem.length := by
          rw [hlen]
          exact hfits
        have hw := Bytes.window_splice hroom
        rwa [hlen] at hw
      have hperf : Direct.perform m i (.readBuf ptr buf) = some (.bytes src, i, .read ptr src) := by
        simp only [Direct.perform, if_pos hle']
        rw [← hsrc]
      refine ⟨_, step_caller hctl (hS.inst.trans hlive) hperf, ?_⟩
      refine sim_of_pStep hI' ht hx hP ?_ hS.gs hlive.symm ?_
        (simulates_reportDone (v := 0) ?_ hheld rfl)
      · exact congrArg (· ++ [Event.read ptr src]) hS.log
      · exact (Bytes.length_splice (by rw [hlen]; exact hfits)).trans hS.length
      · show Direct.back (.bytes src) r =
          Direct.back (.bytes (Bytes.window (Bytes.splice s.mem src buf.addr) buf.addr buf.len)) r
        rw [hback]

/-- A write, serviced: the bytes are those of the guest's buffer. -/
theorem sim_write (hS : Sim J s d) {x : TPoint W} {ptr : Word} {buf : Slice W.memSize}
    {r : Asker W} {kp : PWait W} {m : W.engine.Module} {i : Inst W.engine.Priv}
    (hI' : Inv J (pService s m i kp
      (.write ptr (.ofNat 32 buf.addr) (.ofNat 32 buf.bytes.length))))
    (hP : s.chan.turn = turnP) (ht : s.t = .done x)
    (hx : x.WaitsFor (.request (.writeBuf ptr buf) r)) (hlive : s.host.live = some (m, i))
    (hctl : d.ctl = .caller (.writeBuf ptr buf) r) (hheld : Held d (.woke kp) r)
    (hbytes : Bytes.window s.mem buf.addr buf.bytes.length = buf.bytes) :
    ∃ d', Direct.Runs J d d' ∧
      Sim J (pService s m i kp (.write ptr (.ofNat 32 buf.addr) (.ofNat 32 buf.bytes.length)))
        d' := by
  have hsrc : Bytes.slice s.mem (BitVec.ofNat 32 buf.addr).toInt
      ((BitVec.ofNat 32 buf.addr).toInt + (BitVec.ofNat 32 buf.bytes.length).toInt) =
      buf.bytes := by
    rw [slice_ofNat buf.addr_lt buf.len_lt (by rw [hS.length]; exact buf.fits), hbytes]
  simp only [pService] at hI' ⊢
  rw [hsrc] at hI' ⊢
  cases hset : Bytes.set i.mem buf.bytes ptr.toInt with
  | none =>
      simp only [hset] at hI' ⊢
      exact ⟨d, .refl, sim_of_pStep hI' ht hx hP hS.log hS.gs hS.inst hS.length
        simulates_reportError⟩
  | some mem' =>
      simp only [hset] at hI' ⊢
      obtain ⟨hptr, hle, hmem⟩ := Bytes.set_eq_some hset
      have hn := toNat_of_nonneg hptr
      rw [hn] at hmem
      have hle' : ptr.toNat + buf.bytes.length ≤ i.mem.length := by omega
      have hperf : Direct.perform m i (.writeBuf ptr buf) =
          some (.unit, { i with mem := mem' }, .write ptr buf.bytes) := by
        simp only [Direct.perform, if_pos hle', hmem]
      refine ⟨_, step_caller hctl (hS.inst.trans hlive) hperf, ?_⟩
      refine sim_of_pStep hI' ht hx hP ?_ hS.gs rfl hS.length
        (simulates_reportDone (v := 0) rfl hheld rfl)
      exact congrArg (· ++ [Event.write ptr buf.bytes]) hS.log

/-- An operation, serviced. -/
theorem sim_pService (hS : Sim J s d) {x : TPoint W} {o : CallerOp W.memSize} {r : Asker W}
    {kp : PWait W} {m : W.engine.Module} {i : Inst W.engine.Priv} {f : Service}
    (hI' : Inv J (pService s m i kp f)) (hP : s.chan.turn = turnP) (ht : s.t = .done x)
    (hx : x.WaitsFor (.request o r)) (hlive : s.host.live = some (m, i))
    (hctl : d.ctl = .caller o r) (hof : f.Of s.mem o) (hheld : Held d (.woke kp) r) :
    ∃ d', Direct.Runs J d d' ∧ Sim J (pService s m i kp f) d' := by
  match o, f, hof with
  | .alloc size, .alloc _, rfl =>
      simp only [pService] at hI' ⊢
      cases ha : W.engine.alloc m i size with
      | none =>
          simp only [ha] at hI' ⊢
          exact ⟨d, .refl, sim_of_pStep hI' ht hx hP hS.log hS.gs hS.inst hS.length
            simulates_reportError⟩
      | some p =>
          obtain ⟨v, i'⟩ := p
          simp only [ha] at hI' ⊢
          have hperf : Direct.perform m i (.alloc size) = some (.word v, i', .alloc size v) := by
            simp [Direct.perform, ha]
          refine ⟨_, step_caller hctl (hS.inst.trans hlive) hperf, ?_⟩
          refine sim_of_pStep hI' ht hx hP ?_ hS.gs rfl hS.length ?_
          · exact congrArg (· ++ [Event.alloc size v]) hS.log
          · exact simulates_reportDone (w := Function.update s.chan.words fRets v) (v := v) rfl hheld
              (by rw [Function.update_self])
  | .free ptr size, .free _ _, ⟨rfl, rfl⟩ =>
      simp only [pService] at hI' ⊢
      cases ha : W.engine.free m i ptr size with
      | none =>
          simp only [ha] at hI' ⊢
          exact ⟨d, .refl, sim_of_pStep hI' ht hx hP hS.log hS.gs hS.inst hS.length
            simulates_reportError⟩
      | some p =>
          obtain ⟨v, i'⟩ := p
          simp only [ha] at hI' ⊢
          have hperf : Direct.perform m i (.free ptr size) =
              some (.word v, i', .free ptr size v) := by
            simp [Direct.perform, ha]
          refine ⟨_, step_caller hctl (hS.inst.trans hlive) hperf, ?_⟩
          refine sim_of_pStep hI' ht hx hP ?_ hS.gs rfl hS.length ?_
          · exact congrArg (· ++ [Event.free ptr size v]) hS.log
          · exact simulates_reportDone (w := Function.update s.chan.words fRets v) (v := v) rfl hheld
              (by rw [Function.update_self])
  | .readBuf ptr buf, .read _ _ _, ⟨rfl, rfl, rfl⟩ =>
      exact sim_read hS hI' hP ht hx hlive hctl hheld
  | .writeBuf ptr buf, .write _ _ _, ⟨rfl, rfl, rfl, hbytes⟩ =>
      exact sim_write hS hI' hP ht hx hlive hctl hheld hbytes

/-- **`P` at a point where it holds the turn**, other than the hand-off of an error. -/
theorem sim_pPoint_owns (hJ : J.Named) {y : PPoint W} (hS : Sim J s d) (hp : s.p = .done y)
    (hy : y.Owns) (hok : y ≠ .give none) (h : pPoint s y = some s') :
    ∃ d', Direct.Runs J d d' ∧ Sim J s' d' := by
  have hI' : Inv J s' := inv_pPoint_owns hS.inv hJ.ne hJ.newline hp hy h
  obtain ⟨hP, -⟩ := (hS.inv.protoP hp).of_pOwns hy
  obtain ⟨x, ht⟩ := hS.inv.tDone hP
  have hproto := hS.inv.protoDone ht hp
  have hden : Denotes J d s.chan.words s.mem turnP x y := by
    rcases hS.ctl with hden | hdoom
    · rw [settled_of_tDone ht, hp, hP] at hden
      exact hden
    · unfold Doomed at hdoom
      rw [settled_of_tDone ht, hp] at hdoom
      exact absurd hdoom hok
  rw [hP] at hproto
  rcases hproto.serving hy with ⟨k, hx, hw⟩ | ⟨hx, hask⟩
  · have hworks := hden.works hx hy
    cases y with
    | woke kp =>
        obtain rfl := Option.some.inj h
        obtain ⟨d', hrun, hlog, hgs, hinst, hsim⟩ :=
          sim_onWake s.host hS.inst (Asked.accepts hw) hworks
        exact ⟨d', hrun, sim_of_pStep hI' ht hx hP (hlog.trans hS.log) (hgs.trans hS.gs)
          (hinst.trans hS.inst) hS.length hsim⟩
    | instantiate mp ml np nl =>
        obtain ⟨rfl, hmem, rfl, rfl, -, -⟩ := hw
        have hmodule : Bytes.slice s.mem (BitVec.ofNat 32 J.module.addr).toInt
            ((BitVec.ofNat 32 J.module.addr).toInt +
              (BitVec.ofNat 32 J.module.bytes.length).toInt) = J.module.bytes := by
          have hfits : J.module.addr + J.module.bytes.length ≤ J.mem.length := by
            rw [J.length_mem]
            exact J.module.fits
          rw [hmem, slice_ofNat J.module.addr_lt J.module.len_lt hfits, J.module_mem]
        simp only [pPoint] at h
        rw [hmodule] at h
        obtain rfl := Option.some.inj h
        obtain ⟨d', hrun, hlog, hgs, hinst, hsim⟩ := sim_instantiate (J := J)
          (Bytes.slice s.mem np.toInt (np.toInt + nl.toInt)) s.host hworks.2 hS.inst
          s.chan.words s.mem
        exact ⟨d', hrun, sim_of_pStep hI' ht hx hP (hlog.trans hS.log) (hgs.trans hS.gs) hinst
          hS.length hsim⟩
    | run phase f =>
        obtain ⟨top, rfl, hctl, hfits⟩ := hworks
        simp only [pPoint] at h
        split at h
        · obtain rfl := Option.some.inj h
          exact ⟨d, .refl, sim_of_pStep hI' ht hx hP hS.log hS.gs hS.inst hS.length
            simulates_reportError⟩
        · next m i hlive =>
            obtain rfl := Option.some.inj h
            exact sim_pRun hJ hS hP ht hx hlive hctl hfits
    | service f kp =>
        obtain ⟨o, r, rfl, hctl, hof, hheld⟩ := hworks
        simp only [pPoint] at h
        split at h
        · obtain rfl := Option.some.inj h
          exact ⟨d, .refl, sim_of_pStep hI' ht hx hP hS.log hS.gs hS.inst hS.length
            simulates_reportError⟩
        · next m i hlive =>
            obtain rfl := Option.some.inj h
            exact sim_pService hS hI' hP ht hx hlive hctl hof hheld
    | give kp =>
        cases kp with
        | some kp =>
            obtain rfl := Option.some.inj h
            exact ⟨d, .refl, sim_of_tDone hI' ht hS.log hS.gs hS.inst hS.length
              (Denotes.of_waits hx (Or.inl ⟨rfl, hworks⟩))⟩
        | none => exact absurd rfl hok
    | pending | entryTurn | entryOp | wait | notify | left | dead => exact hy.elim
  · obtain ⟨hop, hat⟩ := hask
    have hctl : d.ctl = .done := by
      rcases hx with rfl | rfl
      · exact hden
      · exact hden
    cases y with
    | woke kp =>
        cases kp with
        | loop =>
            obtain rfl := Option.some.inj h
            exact ⟨d, .refl, sim_of_tDone hI' ht hS.log hS.gs hS.inst hS.length
              (Denotes.of_closed hx hctl)⟩
        | forward f => simp [PPoint.AtLoop, PPoint.frame] at hat
    | instantiate | run | service | give => simp [PPoint.AtLoop, PPoint.frame] at hat
    | pending | entryTurn | entryOp | wait | notify | left | dead => exact hy.elim

/-- `T`'s position survives a wake-up. -/
theorem denotes_wakeT {turn : Word} {w : Nat → Word} {mem : List UInt8} {y : PPoint W}
    {t : TCode W} (h : Denotes J d (t.run w).1 mem turn (t.run w).2 y) :
    Denotes J d ((wakeT t).run w).1 mem turn ((wakeT t).run w).2 y := by
  match t with
  | .load _ _ => exact h
  | .store _ _ _ => exact h
  | .done x => cases x <;> exact h

/-- `P` moves away from the turn. -/
theorem sim_of_pMove {y y' : PPoint W} (hS : Sim J s d) (hI' : Inv J s') (hp : s.p = .done y)
    (hy : ¬y.Owns) (hp' : s'.p = .done y') (hy' : ¬y'.Owns) (hframe : y'.frame = y.frame)
    (hchan : s'.chan = s.chan) (hmem : s'.mem = s.mem) (hgs : s'.gs = s.gs)
    (hlog : s'.log = s.log) (hhost : s'.host = s.host) (ht : s'.t = s.t ∨ s'.t = wakeT s.t) :
    Sim J s' d := by
  have hden : Denotes J d (s.t.run s.chan.words).1 s.mem s.chan.turn (s.t.run s.chan.words).2 y :=
    hS.denotes_of_turnT hp hy
  refine sim_of_pDone hI' hp' (hlog ▸ hS.log) (hgs ▸ hS.gs) (hhost ▸ hS.inst) (hmem ▸ hS.length) ?_
  have hmove := hden.of_frame hy hy' hframe
  rw [hchan, hmem]
  rcases ht with ht | ht
  · rw [ht]
    exact hmove
  · rw [ht]
    exact denotes_wakeT hmove

/-- **`P` at a point where it waits**, has not come yet or is done. -/
theorem sim_pPoint_waits {y : PPoint W} (hS : Sim J s d) (hp : s.p = .done y) (hy : ¬y.Owns)
    (h : pPoint s y = some s') : Sim J s' d := by
  have hI' : Inv J s' := inv_pPoint_waits hS.inv hp hy h
  match y with
  | .pending =>
      simp only [pPoint] at h
      split at h
      · obtain rfl := Option.some.inj h
        exact sim_of_pMove hS hI' hp hy rfl not_false rfl rfl rfl rfl rfl rfl (Or.inl rfl)
      · simp at h
  | .entryTurn =>
      obtain rfl := Option.some.inj h
      exact sim_of_pMove hS hI' hp hy rfl not_false rfl rfl rfl rfl rfl rfl (Or.inl rfl)
  | .entryOp =>
      obtain rfl := Option.some.inj h
      exact sim_of_pMove hS hI' hp hy rfl not_false rfl rfl rfl rfl rfl rfl (Or.inl rfl)
  | .notify none =>
      obtain rfl := Option.some.inj h
      exact sim_of_pMove hS hI' hp hy rfl not_false rfl rfl rfl rfl rfl rfl (Or.inr rfl)
  | .notify (some k) =>
      obtain rfl := Option.some.inj h
      exact sim_of_pMove hS hI' hp hy rfl not_false rfl rfl rfl rfl rfl rfl (Or.inr rfl)
  | .wait pc k =>
      simp only [pPoint] at h
      split at h
      · next hleave =>
          have hP := waitForP_leave hleave
          obtain ⟨x, ht⟩ := hS.inv.tDone hP
          have hden := hS.denotes_of_turnT hp hy
          rw [ht] at hden
          obtain rfl := Option.some.inj h
          refine sim_of_pDone hI' rfl hS.log hS.gs hS.inst hS.length ?_
          dsimp only
          rw [ht]
          exact hden.woke hP
      · obtain rfl := Option.some.inj h
        exact sim_of_pMove hS hI' hp hy rfl not_false rfl rfl rfl rfl rfl rfl (Or.inl rfl)
      · simp at h
  | .left => simp [pPoint] at h
  | .dead => simp [pPoint] at h
  | .woke _ | .instantiate _ _ _ _ | .run _ _ | .service _ _ | .give _ => exact absurd trivial hy

/-- **A step of `P`**, other than the hand-off of an error, **is a run of the direct
execution.** -/
theorem sim_pNext (hJ : J.Named) (hS : Sim J s d) (hok : s.p ≠ .done (.give none))
    (h : pNext s = some s') : ∃ d', Direct.Runs J d d' ∧ Sim J s' d' := by
  have hI' := inv_pNext hS.inv hJ.ne hJ.newline h
  -- an access leaves the code's end where it is
  have haccess : ∀ {w c}, s.p.tick s.chan.words = some (w, c) →
      s' = { s with chan := { s.chan with words := w }, p := c } → Sim J s' d := by
    intro w c htick hs'
    have hP : s.chan.turn = turnP := by
      rcases hS.inv.pCode with ⟨y, hy⟩ | hP
      · simp [hy, Code.tick] at htick
      · exact hP
    obtain ⟨x, ht⟩ := hS.inv.tDone hP
    subst hs'
    refine ⟨hI', hS.log, hS.gs, hS.inst, hS.length, ?_⟩
    have hctl := hS.ctl
    unfold Doomed at hctl ⊢
    rw [settled_of_tDone ht, ← Code.run_tick htick] at hctl
    rw [settled_of_tDone (s := { s with chan := { s.chan with words := w }, p := c }) ht]
    exact hctl
  cases hp : s.p with
  | load i k =>
      simp only [pNext, hp] at h
      obtain rfl := Option.some.inj h
      exact ⟨d, .refl, haccess (w := s.chan.words) (by rw [hp]; rfl) rfl⟩
  | store i v k =>
      simp only [pNext, hp] at h
      obtain rfl := Option.some.inj h
      exact ⟨d, .refl, haccess (by rw [hp]; rfl) rfl⟩
  | done y =>
      simp only [pNext, hp] at h
      by_cases hy : y.Owns
      · exact sim_pPoint_owns hJ hS hp hy (fun hg => hok (by rw [hp, hg])) h
      · exact ⟨d, .refl, sim_pPoint_waits hS hp hy h⟩

end PSteps

/-! ### The refinement -/

section Refinement

variable {J : Job W} {s : State W}

/-- The step is no failure: the worker lives, and hands no error over. -/
def Clean (s : State W) (a : Act) : Prop := a ≠ .die ∧ (a = .p → s.p ≠ .done (.give none))

instance (c : PCode W) : Decidable (c = .done (.give none)) :=
  match c with
  | .done (.give none) => isTrue rfl
  | .load _ _ | .store _ _ _ | .done .pending | .done .entryTurn | .done .entryOp
  | .done (.wait _ _) | .done (.woke _) | .done (.instantiate _ _ _ _) | .done (.run _ _)
  | .done (.service _ _) | .done (.give (some _)) | .done (.notify _) | .done .left
  | .done .dead => isFalse (by simp)

instance (s : State W) (a : Act) : Decidable (Clean s a) :=
  inferInstanceAs (Decidable (a ≠ .die ∧ (a = .p → s.p ≠ .done (.give none))))

theorem sim_init : Sim J (State.init J) (Direct.State.init J) := by
  refine sim_of_pDone (y := .pending) inv_init rfl rfl rfl rfl J.length_mem ?_
  exact ⟨rfl, rfl⟩

/-- What the direct execution has in common with a channel. -/
structure Matches (s : State W) (d : Direct.State W) : Prop where
  /-- The closure invocations with their arguments and results, the operations on plugin
  memory with their operands and bytes, and the result codes. -/
  log : d.log = s.log
  /-- The plugin's memory, and whatever else the instance owns. -/
  inst : d.inst = s.host.live
  gs : d.gs = s.gs
  client : ∀ c, s.t = .done (.client c) → d.ctl = .client c
  closed : s.t = .done .closed → d.ctl = .done

theorem Sim.matches {d : Direct.State W} (hS : Sim J s d) : Matches s d where
  log := hS.log
  inst := hS.inst
  gs := hS.gs
  client c ht := by
    obtain ⟨hT, hn⟩ := (hS.inv.protoT ht).of_tOwns trivial
    obtain ⟨y, hp⟩ := hS.inv.pDone hT
    rw [hp] at hn
    have hden := hS.denotes_of_turnT hp hn
    rw [ht] at hden
    exact hden
  closed ht := by
    rcases hS.ctl with hden | hdoom
    · rw [settled_of_tDone ht] at hden
      exact hden
    · -- `P` has nothing to report once the channel is closed
      have hproto := hS.inv.protoT ht
      unfold Doomed at hdoom
      rw [settled_of_tDone ht] at hdoom
      have hgive : (s.p.run s.chan.words).2 = .give none := hdoom
      rw [hgive] at hproto
      rcases hproto.serving trivial with ⟨k, hx | ⟨pc, hx⟩, -⟩ | ⟨-, -, hat⟩
      · cases hx
      · cases hx
      · simp [PPoint.AtLoop, PPoint.frame] at hat

/-- The direct execution ends where the client drops the instance. -/
theorem Direct.runs_of_done {d₀ d d' : Direct.State W} (hd : d.ctl = .done)
    (h : Direct.Runs J d₀ d) (h' : Direct.Runs J d₀ d') : Direct.Runs J d' d := by
  rcases Direct.runs_total h h' with hrest | hrest
  · rcases Relation.ReflTransGen.cases_head hrest with rfl | ⟨e, hstep, -⟩
    · exact .refl
    · simp [Direct.Steps, Direct.step, hd] at hstep
  · exact hrest

/-- **The bridged execution refines the direct one.** A state reached without failures matches
a state of the direct execution; when the instance is dropped, that is the end of the one
direct run there is. -/
theorem refines (hJ : J.Named) (hty : J.Typed) (h : (bridge J).Reach Clean s) :
    ∃ d, Direct.Runs J (Direct.State.init J) d ∧ Matches s d ∧
      (s.t = .done .closed → ∀ d', Direct.Runs J (Direct.State.init J) d' →
        Direct.Runs J d' d) := by
  have hsim : ∃ d₀ d, d₀ = Direct.State.init J ∧
      Relation.ReflTransGen (Direct.Steps J) d₀ d ∧ Sim J s d := by
    refine h.simulation ?_ ?_
    · rintro _ rfl
      exact ⟨_, rfl, sim_init⟩
    · intro s a s' d hS hclean hn
      cases a with
      | t => exact sim_tNext hJ hty hS hn
      | p => exact sim_pNext hJ hS (hclean.2 rfl) hn
      | die => exact absurd rfl hclean.1
  obtain ⟨d₀, d, rfl, hrun, hS⟩ := hsim
  exact ⟨d, hrun, hS.matches, fun ht d' hd' =>
    Direct.runs_of_done (hS.matches.closed ht) hrun hd'⟩

end Refinement

theorem readingClosure_named : readingClosure.Named where
  ne := by simp [readingClosure, scriptJob]
  nodup := by simp [readingClosure, scriptJob]
  newline := by simp [readingClosure, scriptJob]
  bom := by simp [readingClosure, scriptJob]

theorem readingClosure_typed : readingClosure.Typed := by
  intro m f i name args hasResult f' hstep func hlookup
  match f, hstep with
  | [], hstep => cases hstep
  | none :: f, hstep => cases hstep
  | some n :: f, hstep =>
      cases hstep
      have hfunc : (0, 0) = func.sign := by
        by_cases hn : name = ['f']
        · subst hn
          exact congrArg Func.sign (Option.some.inj hlookup)
        · have hne : (name == ['f']) = false := beq_eq_false_iff_ne.mpr hn
          simp [readingClosure, scriptJob, List.lookup_cons, hne] at hlookup
      rw [← hfunc]
      exact ⟨rfl, by decide, rfl⟩

theorem refines_readingClosure :
    ∃ s d, (bridge readingClosure).replay (State.init readingClosure) readingSchedule = some s ∧
      s.t = .done .closed ∧
      s.log = [.call ['f'] [], .write 1 [7, 8], .read 0 [0, 7, 8, 0], .ret [], .result 0] ∧
      Direct.Runs readingClosure (Direct.State.init readingClosure) d ∧ Matches s d ∧
      ∀ d', Direct.Runs readingClosure (Direct.State.init readingClosure) d' →
        Direct.Runs readingClosure d' d := by
  have hclean : (bridge readingClosure).EachStep Clean (State.init readingClosure)
      readingSchedule := by decide +kernel
  obtain ⟨d, hruns, hmatches, hend⟩ := refines readingClosure_named readingClosure_typed
    (.of_eachStep (.start rfl) hclean rfl)
  exact ⟨_, d, rfl, rfl, rfl, hruns, hmatches, hend rfl⟩

end TurbopackWasi.Plugin
