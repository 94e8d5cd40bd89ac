import TurbopackWasi.Lib.Code
import TurbopackWasi.Plugin.Rendezvous
import TurbopackWasi.Plugin.World

/-!
# TurbopackWasi.Plugin.Bridge

The two programs that meet on one channel, and the machine of their interleavings.

* `T` runs `HostBridgeInstance::{start, serve, transform, drop}` and
  `HostBridgeCaller::request`: its control is a straight-line piece of channel
  accesses (`Code`) that ends at a point `TPoint`.
* `P` runs `serveChannel`, `makeForwarder`, `serviceCaller`, `instantiatePlugin` and
  `runTransform`, in the same style (`PPoint`).

A wait loop remembers what it was entered for (`TWait`, `PWait`): these are the
frames of the two call stacks, a closure running inside `serve` and a plugin
suspended inside a forwarder among them. One step of the machine is one channel
access, one step of the wait loops of `Rendezvous`, or one step of guest or plugin
code; `die` is the death of the driver worker.

The channel words other than `turn` are accessed in the order of the source. The
log records what the plugin and the closures see of each other: it is not part of
the program.
-/

namespace TurbopackWasi.Plugin

open TurbopackWasi.Lib

/-! ### What the two sides exchange -/

/-- An observable event. -/
inductive Event
  /-- A closure is invoked with its arguments. -/
  | call (name : Name) (args : List Word)
  /-- The closure returns its results. -/
  | ret (outs : List Word)
  | alloc (size ptr : Word)
  | free (ptr size res : Word)
  | read (ptr : Word) (bytes : List UInt8)
  | write (ptr : Word) (bytes : List UInt8)
  /-- `__transform_plugin_process_impl` returned. -/
  | result (code : Word)
  deriving DecidableEq, Repr

/-- What a write leaves in the guest's own buffer before the request. -/
def CallerOp.fill {n : Nat} (mem : List UInt8) : CallerOp n → List UInt8
  | .writeBuf _ buf => Bytes.splice mem buf.bytes buf.addr
  | _ => mem

/-- The return value of a `Caller` method once the worker answered `OP_DONE` with
`rets[0] = v`. -/
def CallerOp.reply {n : Nat} (v : Word) (mem : List UInt8) : CallerOp n → Reply
  | .alloc _ => .word v
  | .free _ _ => .word v
  | .readBuf _ buf => .bytes (Bytes.window mem buf.addr buf.len)
  | .writeBuf _ _ => .unit

variable {W : World}

/-! ### The guest thread -/

/-- The top-level request that `serve` is answering. -/
inductive Top (W : World)
  | init
  | transform (c : W.guest.Client)

/-- Who called a `Caller` method: the owner of the instance, or a closure with
its number of results that runs inside `serve`. -/
inductive Asker (W : World)
  | client (c : W.guest.Client)
  | closure (c : W.guest.Closure) (rets : Nat) (top : Top W)

/-- What `T` waits for in `park_until`. -/
inductive TWait (W : World)
  | serve (top : Top W)
  | request (o : CallerOp W.memSize) (r : Asker W)

/-- The control points of `T`. -/
inductive TPoint (W : World)
  /-- In the code that owns the instance. -/
  | client (c : W.guest.Client)
  /-- In `serve`, about to call a closure. -/
  | enter (name : Name) (func : Func W.guest) (args : List Word) (top : Top W)
  /-- In a closure. -/
  | closure (c : W.guest.Closure) (rets : Nat) (top : Top W)
  /-- In `start`, about to call `host.signal`. -/
  | signal
  /-- At the store of `hand_off`; `none` is the hand-off of `drop`. -/
  | give (k : Option (TWait W))
  /-- At the notify of `hand_off`. -/
  | notify (k : Option (TWait W))
  | park (pc : ParkPc) (k : TWait W)
  /-- `park_until` has returned: at the load of `op`. -/
  | woke (k : TWait W)
  /-- In `request`, the answer read. -/
  | answered (o : CallerOp W.memSize) (v : Word) (r : Asker W)
  /-- `drop` has handed `OP_CLOSE` over. -/
  | closed
  /-- Dropped without a hand-off: `start` failed. -/
  | dropped
  /-- A slice or array index was out of bounds. -/
  | panicked

abbrev TCode (W : World) := Code Nat Word (TPoint W)

/-- `start`, up to the call of `host.signal`. -/
def startCode (J : Job W) : TCode W :=
  .stores [(fModulePtr, .ofNat 32 J.module.addr), (fModuleLen, .ofNat 32 J.module.bytes.length),
    (fNamesPtr, .ofNat 32 J.names.addr), (fNamesLen, .ofNat 32 J.names.bytes.length),
    (fOp, opInit)] (.done .signal)

/-- A `Caller` method, up to the hand-off of `request`. -/
def callerCode (o : CallerOp W.memSize) (r : Asker W) : TCode W :=
  let args : List (Nat × Word) :=
    match o with
    | .alloc size => [(fArgs, size)]
    | .free ptr size => [(fArgs, ptr), (fArgs + 1, size)]
    | .readBuf ptr buf =>
        [(fArgs, ptr), (fDataPtr, .ofNat 32 buf.addr), (fDataLen, .ofNat 32 buf.len)]
    | .writeBuf ptr buf =>
        [(fArgs, ptr), (fDataPtr, .ofNat 32 buf.addr), (fDataLen, .ofNat 32 buf.bytes.length)]
  .stores (args ++ [(fOp, o.op)]) (.done (.give (some (.request o r))))

/-- `transform`, up to its hand-off. -/
def transformCode (ptr len mark commentsProxy : Word) (c : W.guest.Client) : TCode W :=
  .stores [(fProgramPtr, ptr), (fProgramLen, len), (fMark, mark),
    (fCommentsProxy, commentsProxy), (fOp, opTransform)]
    (.done (.give (some (.serve (.transform c)))))

/-- `drop` of a started instance, up to its hand-off. -/
def dropCode : TCode W := .stores [(fOp, opClose)] (.done (.give none))

/-- The `n` output values of a closure that stored `outs`; they start as zeros. -/
def outVals (n : Nat) (outs : List Word) : List Word :=
  (List.range n).map fun i => outs.getD i 0

/-- The end of the `OP_IMPORT` branch of `serve`: the results, `OP_DONE`, hand off. -/
def importDone (rets : Nat) (outs : List Word) (top : Top W) : TCode W :=
  .stores (((outVals (min rets nRets) outs).zipIdx.map fun v => (fRets + v.2, v.1)) ++
    [(fOp, opDone)]) (.done (.give (some (.serve top))))

/-- `serve` returned an error: `start` fails and the instance is dropped unstarted,
`transform` returns the error. -/
def bail (e : BridgeError) : Top W → TPoint W
  | .init => .dropped
  | .transform c => .client (W.guest.clientReply c (.err e))

/-- Back in the caller of a `Caller` method. -/
def Asker.resume (reply : Reply) : Asker W → TPoint W
  | .client c => .client (W.guest.clientReply c reply)
  | .closure c rets top => .closure (W.guest.closureReply c reply) rets top

/-- `serve` after `park_until`, with the op it reads. The loop over the arguments reads
`args[i + 1]`, so an import of `N_ARGS` or more arguments indexes past the array; more
than `N_RETS` results slice past `out_vals`. -/
def serveCode (J : Job W) (top : Top W) (op : Word) : TCode W :=
  if op = opDone then
    match top with
    | .init => .done (.client J.client)
    | .transform c =>
        .load fResultCode fun v => .done (.client (W.guest.clientReply c (.word v)))
  else if op = opError then .done (bail .worker top)
  else if op = opImport then
    .load fArgs fun idx =>
      match J.imports[idx.toNat]? with
      | none => .done (bail (.unknownImport idx) top)
      | some (name, func) =>
          .loads ((List.range (min func.sign.1 (nArgs - 1))).map (fArgs + 1 + ·)) fun args =>
            if nArgs ≤ func.sign.1 ∨ nRets < func.sign.2 then .done .panicked
            else .done (.enter name func args top)
  else .done (bail (.unexpectedOp op) top)

/-- `request` after `park_until`, with the op it reads. -/
def requestCode (o : CallerOp W.memSize) (r : Asker W) (op : Word) : TCode W :=
  if op = opDone then .load fRets fun v => .done (.answered o v r)
  else if op = opError then .done (r.resume (.err (.callerFailed o.op)))
  else .done (r.resume (.err (.unexpectedAnswer op o.op)))

/-- What `T` does on leaving `park_until`, once it has read `op`. -/
def TWait.onWake (J : Job W) (op : Word) : TWait W → TCode W
  | .serve top => serveCode J top op
  | .request o r => requestCode o r op

/-! ### The driver worker -/

/-- What `serviceCaller` does to the plugin, its operands loaded. -/
inductive Service
  | alloc (size : Word)
  | free (ptr size : Word)
  | read (ptr gptr len : Word)
  | write (ptr gptr len : Word)
  deriving DecidableEq, Repr

/-- A plugin suspended in a forwarded import. -/
structure Suspended (W : World) where
  phase : Phase
  hasResult : Bool
  frame : W.engine.Frame

/-- What `P` waits for in `waitForP`: the next request of the loop of `serveChannel`,
or, in a forwarder, the result of its import. -/
inductive PWait (W : World)
  | loop
  | forward (x : Suspended W)

/-- The control points of `P`. -/
inductive PPoint (W : World)
  /-- The channel's message has not been taken from the queue. -/
  | pending
  /-- In `serveChannel`, at the loads of `turn` and `op` for its opening trace. -/
  | entryTurn
  | entryOp
  | wait (pc : WaitPc) (k : PWait W)
  /-- `waitForP` has returned: at the load of `op`. -/
  | woke (k : PWait W)
  /-- In `instantiatePlugin`, the two windows loaded. -/
  | instantiate (modulePtr moduleLen namesPtr namesLen : Word)
  /-- In plugin code. -/
  | run (phase : Phase) (f : W.engine.Frame)
  /-- In `serviceCaller`, the operands loaded. -/
  | service (x : Service) (k : PWait W)
  /-- At the store of `handToT`; `none` is the hand-off of the final `reportError`. -/
  | give (k : Option (PWait W))
  /-- At the notify of `handToT`. -/
  | notify (k : Option (PWait W))
  /-- `serveChannel` has returned. -/
  | left
  /-- The worker has died. -/
  | dead

abbrev PCode (W : World) := Code Nat Word (PPoint W)

/-- The worker's variables: the decoded names, the instance once it is linked,
whether `plugin.instance` is set (after the start function), and whether the
`plugin` of `serveChannel` is. -/
structure Host (W : World) where
  names : List Char
  live : Option (W.engine.Module × Inst W.engine.Priv)
  exposed : Bool
  plugin : Bool

def Host.new : Host W := ⟨[], none, false, false⟩

/-- `reportDone`, then the wait loop `k`. -/
def reportDone (k : PWait W) : PCode W := .stores [(fOp, opDone)] (.done (.give (some k)))

/-- An exception reaches the handler of `serveChannel`: `reportError` and return. -/
def reportError : PCode W := .stores [(fOp, opError)] (.done (.give none))

/-- `serviceCaller`, up to the access to the plugin; without an instance the first
line throws. -/
def serviceCaller (available : Bool) (op : Word) (k : PWait W) : PCode W :=
  if !available then reportError
  else if op = opCallerAlloc then .load fArgs fun size => .done (.service (.alloc size) k)
  else if op = opCallerFree then
    .load fArgs fun ptr => .load (fArgs + 1) fun size => .done (.service (.free ptr size) k)
  else if op = opCallerRead then
    .load fArgs fun ptr => .load fDataPtr fun gptr => .load fDataLen fun len =>
      .done (.service (.read ptr gptr len) k)
  else if op = opCallerWrite then
    .load fArgs fun ptr => .load fDataPtr fun gptr => .load fDataLen fun len =>
      .done (.service (.write ptr gptr len) k)
  else reportError

/-- `runTransform`, up to the call of the export. -/
def runTransform (h : Host W) : PCode W :=
  .load fProgramPtr fun ptr => .load fProgramLen fun len => .load fMark fun mark =>
    .load fCommentsProxy fun commentsProxy =>
      match h.plugin, h.live with
      | true, some (m, _) =>
          .done (.run .transform (W.engine.transform m ptr len mark commentsProxy))
      | _, _ => reportError

/-- The loop of `serveChannel` after `waitForP`, with the op it reads. -/
def loopCode (h : Host W) (op : Word) : PCode W :=
  if op = opInit then
    .load fModulePtr fun mp => .load fModuleLen fun ml => .load fNamesPtr fun np =>
      .load fNamesLen fun nl => .done (.instantiate mp ml np nl)
  else if op = opTransform then runTransform h
  else if opCallerAlloc.sle op ∧ op.sle opCallerWrite then serviceCaller h.plugin op .loop
  else if op = opClose then .done .left
  else reportError

/-- The loop of a forwarder after `waitForP`, with the op it reads. -/
def forwardCode (h : Host W) (x : Suspended W) (op : Word) : PCode W :=
  if op = opDone then
    .load fRets fun v =>
      .done (.run x.phase (W.engine.resume x.frame (if x.hasResult then some v else none)))
  else if op = opError then reportError
  else serviceCaller h.exposed op (.forward x)

/-- What `P` does on leaving `waitForP`, once it has read `op`. -/
def PWait.onWake (h : Host W) (op : Word) : PWait W → PCode W
  | .loop => loopCode h op
  | .forward x => forwardCode h x op

/-- A forwarder, up to its wait loop. -/
def makeForwarder (idx : Nat) (args : List Word) (x : Suspended W) : PCode W :=
  .stores ((fArgs, .ofNat 32 idx) :: (args.zipIdx.map fun a => (fArgs + 1 + a.2, a.1)) ++
    [(fOp, opImport)]) (.done (.give (some (.forward x))))

/-- `instantiatePlugin` from the core-diag call on. -/
def runCoreDiag (m : W.engine.Module) (h : Host W) : Host W × PCode W :=
  match W.engine.entry m .coreDiag with
  | some f => (h, .done (.run .coreDiag f))
  | none => ({ h with plugin := true }, reportDone .loop)

/-- `instantiatePlugin` from the `_initialize` call on. -/
def runInitialize (m : W.engine.Module) (h : Host W) : Host W × PCode W :=
  match W.engine.entry m .reactorInit with
  | some f => (h, .done (.run .reactorInit f))
  | none => runCoreDiag m h

/-- `instantiatePlugin` once `plugin.instance` is set: the check of the exports. -/
def checkExports (m : W.engine.Module) (h : Host W) : Host W × PCode W :=
  let h := { h with exposed := true }
  if W.engine.hasExports m then runInitialize m h else (h, reportError)

/-- `instantiatePlugin` from the compilation on. -/
def instantiatePlugin (moduleBytes namesBytes : List UInt8) (h : Host W) : Host W × PCode W :=
  let h := { h with names := textDecode W.engine.lossy namesBytes }
  match W.engine.compile moduleBytes with
  | none => (h, reportError)
  | some m =>
    match W.engine.instantiate m with
    | none => (h, reportError)
    | some i =>
      let h := { h with live := some (m, i) }
      match W.engine.entry m .start with
      | some f => (h, .done (.run .start f))
      | none => checkExports m h

/-- A plugin function returned. -/
def phaseReturned (m : W.engine.Module) (h : Host W) (v : Word) : Phase → Host W × PCode W
  | .start => checkExports m h
  | .reactorInit => runCoreDiag m h
  | .coreDiag => ({ h with plugin := true }, reportDone .loop)
  | .transform => (h, .stores [(fResultCode, v)] (reportDone .loop))

/-! ### The machine -/

/-- The state of a channel with its two parties. -/
structure State (W : World) where
  chan : Channel
  /-- The guest's linear memory, without the channel. -/
  mem : List UInt8
  /-- `host.signal` was called. -/
  signalled : Bool
  t : TCode W
  gs : W.guest.State
  p : PCode W
  host : Host W
  log : List Event

def State.init (J : Job W) : State W where
  chan := .new
  mem := J.mem
  signalled := false
  t := startCode J
  gs := J.state
  p := .done .pending
  host := .new
  log := []

/-- `T`'s notify wakes `P` if it sleeps on the word. -/
def wakeP : PCode W → PCode W
  | .done (.wait pc k) => .done (.wait pc.notified k)
  | c => c

/-- `P`'s notify wakes `T` if it sleeps on the word. -/
def wakeT : TCode W → TCode W
  | .done (.park pc k) => .done (.park pc.notified k)
  | c => c

/-- One step of `T` at a control point. -/
def tPoint (J : Job W) (s : State W) : TPoint W → Option (State W)
  | .client c =>
    match W.guest.client c s.gs with
    | .run c gs => some { s with gs := gs, t := .done (.client c) }
    | .caller o c => some { s with mem := o.fill s.mem, t := callerCode o (.client c) }
    | .transform ptr len mark cp c => some { s with t := transformCode ptr len mark cp c }
    | .drop => some { s with t := dropCode }
  | .enter name func args top =>
      some { s with
        t := .done (.closure (func.func args) func.sign.2 top)
        log := s.log ++ [.call name args] }
  | .closure c rets top =>
    match W.guest.closure c s.gs with
    | .run c gs => some { s with gs := gs, t := .done (.closure c rets top) }
    | .caller o c =>
        some { s with mem := o.fill s.mem, t := callerCode o (.closure c rets top) }
    | .ret outs =>
        some { s with
          t := importDone rets outs top
          log := s.log ++ [.ret (outVals rets outs)] }
  | .signal => some { s with signalled := true, t := .done (.give (some (.serve .init))) }
  | .give k => some { s with chan := { s.chan with turn := turnP }, t := .done (.notify k) }
  | .notify k =>
      some { s with
        t := .done (match k with | some k => .park .load k | none => .closed)
        p := wakeP s.p }
  | .park pc k =>
    match parkUntil s.chan.turn pc with
    | .leave => some { s with t := .done (.woke k) }
    | .goto pc => some { s with t := .done (.park pc k) }
    | .asleep => none
  | .woke k => some { s with t := k.onWake J (s.chan.words fOp) }
  | .answered o v r => some { s with t := .done (r.resume (o.reply v s.mem)) }
  | .closed => none
  | .dropped => none
  | .panicked => none

/-- One step of `T`. -/
def tNext (J : Job W) (s : State W) : Option (State W) :=
  match s.t with
  | .load i k => some { s with t := k (s.chan.words i) }
  | .store i v k =>
      some { s with chan := { s.chan with words := Function.update s.chan.words i v }, t := k }
  | .done x => tPoint J s x

/-- `serviceCaller` from the access to the plugin on. -/
def pService (s : State W) (m : W.engine.Module) (i : Inst W.engine.Priv) (k : PWait W) :
    Service → State W
  | .alloc size =>
    match W.engine.alloc m i size with
    | none => { s with p := reportError }
    | some (v, i) =>
        { s with
          host := { s.host with live := some (m, i) }
          p := .stores [(fRets, v)] (reportDone k)
          log := s.log ++ [.alloc size v] }
  | .free ptr size =>
    match W.engine.free m i ptr size with
    | none => { s with p := reportError }
    | some (v, i) =>
        { s with
          host := { s.host with live := some (m, i) }
          p := .stores [(fRets, v)] (reportDone k)
          log := s.log ++ [.free ptr size v] }
  | .read ptr gptr len =>
    match Bytes.view i.mem ptr.toInt len.toInt with
    | none => { s with p := reportError }
    | some src =>
      match Bytes.set s.mem src gptr.toInt with
      | none => { s with p := reportError }
      | some mem => { s with mem := mem, p := reportDone k, log := s.log ++ [.read ptr src] }
  | .write ptr gptr len =>
    let src := Bytes.slice s.mem gptr.toInt (gptr.toInt + len.toInt)
    match Bytes.set i.mem src ptr.toInt with
    | none => { s with p := reportError }
    | some mem =>
        { s with
          host := { s.host with live := some (m, { i with mem := mem }) }
          p := reportDone k
          log := s.log ++ [.write ptr src] }

/-- One step of plugin code. -/
def pRun (s : State W) (m : W.engine.Module) (i : Inst W.engine.Priv) (phase : Phase)
    (f : W.engine.Frame) : State W :=
  match W.engine.step m f i with
  | .run f i =>
      { s with host := { s.host with live := some (m, i) }, p := .done (.run phase f) }
  | .call name args hasResult f =>
    match nameToIdx s.host.names name with
    | none => { s with p := reportError }
    | some idx => { s with p := makeForwarder idx args ⟨phase, hasResult, f⟩ }
  | .ret v =>
      { s with
        host := (phaseReturned m s.host v phase).1
        p := (phaseReturned m s.host v phase).2
        log := if phase = .transform then s.log ++ [.result v] else s.log }
  | .trap => { s with p := reportError }

/-- One step of `P` at a control point. -/
def pPoint (s : State W) : PPoint W → Option (State W)
  | .pending => if s.signalled then some { s with p := .done .entryTurn } else none
  | .entryTurn => some { s with p := .done .entryOp }
  | .entryOp => some { s with p := .done (.wait .load .loop) }
  | .wait pc k =>
    match waitForP s.chan.turn pc with
    | .leave => some { s with p := .done (.woke k) }
    | .goto pc => some { s with p := .done (.wait pc k) }
    | .asleep => none
  | .woke k => some { s with p := k.onWake s.host (s.chan.words fOp) }
  | .instantiate mp ml np nl =>
      let r := instantiatePlugin (Bytes.slice s.mem mp.toInt (mp.toInt + ml.toInt))
        (Bytes.slice s.mem np.toInt (np.toInt + nl.toInt)) s.host
      some { s with host := r.1, p := r.2 }
  | .run phase f =>
    match s.host.live with
    | none => some { s with p := reportError }
    | some (m, i) => some (pRun s m i phase f)
  | .service x k =>
    match s.host.live with
    | none => some { s with p := reportError }
    | some (m, i) => some (pService s m i k x)
  | .give k => some { s with chan := { s.chan with turn := turnT }, p := .done (.notify k) }
  | .notify k =>
      some { s with
        p := .done (match k with | some k => .wait .load k | none => .left)
        t := wakeT s.t }
  | .left => none
  | .dead => none

/-- One step of `P`. -/
def pNext (s : State W) : Option (State W) :=
  match s.p with
  | .load i k => some { s with p := k (s.chan.words i) }
  | .store i v k =>
      some { s with chan := { s.chan with words := Function.update s.chan.words i v }, p := k }
  | .done x => pPoint s x

/-- Who steps; the worker may also die. -/
inductive Act
  | t
  | p
  | die
  deriving DecidableEq, Repr

def next (J : Job W) (s : State W) : Act → Option (State W)
  | .t => tNext J s
  | .p => pNext s
  | .die => some { s with p := .done .dead }

/-- The machine of one channel. -/
def bridge (J : Job W) : Machine (State W) Act := ⟨(· = State.init J), next J⟩

end TurbopackWasi.Plugin
