import TurbopackWasi.Plugin.Conformance
import TurbopackWasi.Plugin.Direct

/-!
# TurbopackWasi.Plugin.Refine

**The bridged execution refines the direct one.** `Denotes` reads a state of a channel
as a state of the direct execution: the position of `T`, and of `P` when `T` waits,
give the place on the direct call stack, and the channel's words give the values that
are on their way from one party to the other. One `OP_DONE` means three things, by the
loops that the two parties are in: the answer to `INIT` or `TRANSFORM` (`Finished`), the
answer to an operation (`Replied`), or the result of an import (`Resumes`).

A direct step is matched where the bridged execution does the same work: an import
call where `T` enters the closure, an operation where `P` services it, a return where
the plugin or the closure returns. Everything else is a stutter.
-/

namespace TurbopackWasi.Plugin

open TurbopackWasi.Lib

variable {W : World}

/-! ### What the comparison is about -/

/-- The import names reach the worker as they are. -/
structure Job.Named (J : Job W) : Prop where
  ne : J.imports ≠ []
  nodup : (J.imports.map Prod.fst).Nodup
  newline : ∀ n ∈ J.imports.map Prod.fst, '\n' ∉ n
  /-- No name begins with a byte order mark. -/
  bom : ∀ n ∈ J.imports.map Prod.fst, n.head? ≠ some '\uFEFF'

/-- The plugin imports its functions at the types of their closures, which take at most
`N_ARGS - 1` arguments and return at most one result. -/
def Job.Typed (J : Job W) : Prop :=
  ∀ m f i name args hasResult f', W.engine.step m f i = .call name args hasResult f' →
    ∀ func, J.imports.lookup name = some func →
      args.length = func.sign.1 ∧ func.sign.1 < nArgs ∧
        func.sign.2 = if hasResult then 1 else 0

/-- The phase of a plugin function belongs to the request. -/
def Phase.Fits : Phase → Top W → Prop
  | .transform, .transform _ => True
  | .start, .init | .reactorInit, .init | .coreDiag, .init => True
  | _, _ => False

/-! ### Reading a channel as a direct state -/

section Denotes

variable (J : Job W) (d : Direct.State W) (words : Nat → Word) (mem : List UInt8)

/-- A closure that asks runs inside the import that the suspended plugin called. -/
def Held (y : PPoint W) : Asker W → Prop
  | .client _ => True
  | .closure _ rets top => ∃ x, d.susp = some x ∧ y.frame = some (.forward x) ∧
      x.phase.Fits top ∧ rets = if x.hasResult then 1 else 0

/-- The operands of an operation are in the channel, and its data in the guest's buffer. -/
def Stored : CallerOp W.memSize → Prop
  | .alloc size => words fArgs = size
  | .free ptr size => words fArgs = ptr ∧ words (fArgs + 1) = size
  | .readBuf ptr buf =>
      words fArgs = ptr ∧ words fDataPtr = .ofNat 32 buf.addr ∧ words fDataLen = .ofNat 32 buf.len
  | .writeBuf ptr buf =>
      words fArgs = ptr ∧ words fDataPtr = .ofNat 32 buf.addr ∧
        words fDataLen = .ofNat 32 buf.bytes.length ∧
        Bytes.window mem buf.addr buf.bytes.length = buf.bytes

/-- The operands that `serviceCaller` loaded are those of the operation. -/
def Service.Of : Service → CallerOp W.memSize → Prop
  | .alloc s, .alloc size => s = size
  | .free p s, .free ptr size => p = ptr ∧ s = size
  | .read p g l, .readBuf ptr buf => p = ptr ∧ g = .ofNat 32 buf.addr ∧ l = .ofNat 32 buf.len
  | .write p g l, .writeBuf ptr buf =>
      p = ptr ∧ g = .ofNat 32 buf.addr ∧ l = .ofNat 32 buf.bytes.length ∧
        Bytes.window mem buf.addr buf.bytes.length = buf.bytes
  | _, _ => False

/-- The result of an import is on its way to the plugin. -/
def Resumes (y : PPoint W) (top : Top W) : Prop :=
  words fOp = opDone ∧ ∃ x, y.frame = some (.forward x) ∧ x.phase.Fits top ∧
    d.ctl = .run x.phase
      (W.engine.resume x.frame (if x.hasResult then some (words fRets) else none)) top

/-- The request `k` is on its way to `P`. -/
def Pending (y : PPoint W) : Option (TWait W) → Prop
  | none => d.ctl = .done
  | some (.serve .init) => words fOp = opInit ∧ d.ctl = .boot ∨ Resumes d words y .init
  | some (.serve (.transform c)) =>
      words fOp = opTransform ∧ d.ctl = .transform (words fProgramPtr) (words fProgramLen)
        (words fMark) (words fCommentsProxy) c ∨ Resumes d words y (.transform c)
  | some (.request o r) =>
      words fOp = o.op ∧ d.ctl = .caller o r ∧ Stored words mem o ∧ Held d y r

/-- The plugin, about to call an import, is suspended in the forwarder as `x`. -/
def Calling (y : PPoint W) (top : Top W) (name : Name) (args : List Word) : Prop :=
  ∃ x f m i, y.frame = some (.forward x) ∧ x.phase.Fits top ∧ d.ctl = .run x.phase f top ∧
    d.inst = some (m, i) ∧ W.engine.step m f i = .call name args x.hasResult x.frame

/-- The call of an import is on its way to `T`. -/
def Calls (y : PPoint W) (top : Top W) : Prop :=
  words fOp = opImport ∧ ∃ name args idx, Calling d y top name args ∧
    nameToIdx (stripBom (namesBlob (J.imports.map Prod.fst))) name = some idx ∧
    words fArgs = .ofNat 32 idx ∧ ∀ j (h : j < args.length), words (fArgs + 1 + j) = args[j]

/-- Where the client goes on after its request. -/
def Finished : Top W → Direct.Ctl W
  | .init => .client J.client
  | .transform c => .client (W.guest.clientReply c (.word (words fResultCode)))

/-- The answer to `k` is on its way to `T`. -/
def Replied (y : PPoint W) : TWait W → Prop
  | .serve top => words fOp = opDone ∧ d.ctl = Finished J words top ∨ Calls J d words y top
  | .request o r =>
      words fOp = opDone ∧ d.ctl = Direct.back (o.reply (words fRets) mem) r ∧ Held d y r

/-- `P` works on the request `k`. -/
def Works (k : TWait W) : PPoint W → Prop
  | .woke kp => Pending d words mem (.woke kp) (some k)
  | .instantiate _ _ _ _ => k = .serve .init ∧ d.ctl = .boot
  | .run phase f => ∃ top, k = .serve top ∧ d.ctl = .run phase f top ∧ phase.Fits top
  | .service x kp => ∃ o r, k = .request o r ∧ d.ctl = .caller o r ∧ x.Of mem o ∧
      Held d (.woke kp) r
  | .give (some kp) => Replied J d words mem (.notify (some kp)) k
  | _ => False

/-- `T` waits for the answer to `k`. -/
def Waits (turn : Word) (y : PPoint W) (k : TWait W) : Prop :=
  turn = turnT ∧ Replied J d words mem y k ∨
    turn = turnP ∧ ¬y.Owns ∧ Pending d words mem y (some k) ∨
    turn = turnP ∧ Works J d words mem k y

/-- The direct state that a channel stands for, by the position of `T`. -/
def Denotes (turn : Word) : TPoint W → PPoint W → Prop
  | .client c, _ => d.ctl = .client c
  | .enter name func args top, y =>
      Calling d y top name args ∧ J.imports.lookup name = some func
  | .closure c rets top, y =>
      d.ctl = .closure c rets top ∧ Held d y (.closure c rets top)
  | .answered o v r, y => d.ctl = Direct.back (o.reply v mem) r ∧ Held d y r
  | .signal, _ => d.ctl = .boot ∧ words fOp = opInit
  | .give k, y => Pending d words mem y k
  | .notify none, _ => d.ctl = .done
  | .closed, _ => d.ctl = .done
  | .notify (some k), y => Waits J d words mem turn y k
  | .park _ k, y => Waits J d words mem turn y k
  | .woke k, y => Replied J d words mem y k
  | .dropped, _ => False
  | .panicked, _ => False

end Denotes

/-- `P` is going to hand `OP_ERROR` over. -/
def Doomed (s : State W) : Prop := s.settled.p = .give none

/-- The simulation relation. -/
structure Sim (J : Job W) (s : State W) (d : Direct.State W) : Prop where
  inv : Inv J s
  log : d.log = s.log
  gs : d.gs = s.gs
  inst : d.inst = s.host.live
  length : s.mem.length = W.memSize
  ctl : Denotes J d s.settled.words s.mem s.chan.turn s.settled.t s.settled.p ∨ Doomed s

/-! ### Moves of `P` that `T` does not see -/

section Moves

variable {J : Job W} {d : Direct.State W} {words : Nat → Word} {mem : List UInt8}
  {y y' : PPoint W}

theorem Held.of_frame {r : Asker W} (h : Held d y r) (hf : y'.frame = y.frame) :
    Held d y' r := by
  cases r with
  | client c => trivial
  | closure c rets top =>
      obtain ⟨x, hs, hy, hrest⟩ := h
      exact ⟨x, hs, hf.trans hy, hrest⟩

theorem Resumes.of_frame {top : Top W} (h : Resumes d words y top) (hf : y'.frame = y.frame) :
    Resumes d words y' top := by
  obtain ⟨hop, x, hy, hrest⟩ := h
  exact ⟨hop, x, hf.trans hy, hrest⟩

theorem Pending.of_frame {k : Option (TWait W)} (h : Pending d words mem y k)
    (hf : y'.frame = y.frame) : Pending d words mem y' k := by
  match k with
  | none => exact h
  | some (.serve .init) => exact h.imp_right fun hr => hr.of_frame hf
  | some (.serve (.transform c)) => exact h.imp_right fun hr => hr.of_frame hf
  | some (.request o r) => exact ⟨h.1, h.2.1, h.2.2.1, h.2.2.2.of_frame hf⟩

theorem Calling.of_frame {top : Top W} {name : Name} {args : List Word}
    (h : Calling d y top name args) (hf : y'.frame = y.frame) : Calling d y' top name args := by
  obtain ⟨x, f, m, i, hy, hrest⟩ := h
  exact ⟨x, f, m, i, hf.trans hy, hrest⟩

theorem Replied.of_frame {k : TWait W} (h : Replied J d words mem y k)
    (hf : y'.frame = y.frame) : Replied J d words mem y' k := by
  match k with
  | .serve top =>
      refine h.imp_right fun ⟨hop, name, args, idx, hc, hrest⟩ => ?_
      exact ⟨hop, name, args, idx, hc.of_frame hf, hrest⟩
  | .request o r => exact ⟨h.1, h.2.1, h.2.2.of_frame hf⟩

/-- `P` away from the turn. -/
theorem Denotes.of_frame {turn : Word} {x : TPoint W} (h : Denotes J d words mem turn x y)
    (hy : ¬y.Owns) (hy' : ¬y'.Owns) (hf : y'.frame = y.frame) :
    Denotes J d words mem turn x y' := by
  have hwaits : ∀ {k}, Waits J d words mem turn y k → Waits J d words mem turn y' k := by
    rintro k (⟨ht, hr⟩ | ⟨ht, -, hp⟩ | ⟨ht, hw⟩)
    · exact Or.inl ⟨ht, hr.of_frame hf⟩
    · exact Or.inr (Or.inl ⟨ht, hy', hp.of_frame hf⟩)
    · cases y with
      | pending | entryTurn | entryOp | wait | notify | left | dead => exact hw.elim
      | woke | instantiate | run | service | give => exact absurd trivial hy
  match x with
  | .client c => exact h
  | .enter name func args top => exact ⟨h.1.of_frame hf, h.2⟩
  | .closure c rets top => exact ⟨h.1, h.2.of_frame hf⟩
  | .answered o v r => exact ⟨h.1, h.2.of_frame hf⟩
  | .signal => exact h
  | .give k => exact Pending.of_frame h hf
  | .notify none => exact h
  | .closed => exact h
  | .notify (some k) => exact hwaits h
  | .park _ k => exact hwaits h
  | .woke k => exact Replied.of_frame h hf

end Moves

end TurbopackWasi.Plugin
