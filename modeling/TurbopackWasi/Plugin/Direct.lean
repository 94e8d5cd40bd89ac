import TurbopackWasi.Plugin.Bridge

/-!
# TurbopackWasi.Plugin.Direct

What the bridge is for: the plugin runs with its imports bound to the closures, and
the closures and the client work on its instance in place. There is one thread and
one call stack, of depth three at most: the client, a plugin function it called, and
the closure of an import that the plugin function called.

An operation that fails (a trap, an import nobody provides, an access outside the
plugin's memory) has no step: only runs without failures are compared.
-/

namespace TurbopackWasi.Plugin.Direct

open TurbopackWasi.Lib

variable {W : World}

/-- Where the one thread is. -/
inductive Ctl (W : World)
  /-- `INIT` is still to be run. -/
  | boot
  /-- The instance is linked, its start function is still to be run. -/
  | linked
  | client (c : W.guest.Client)
  /-- About to call `__transform_plugin_process_impl`. -/
  | transform (ptr len mark commentsProxy : Word) (c : W.guest.Client)
  | run (phase : Phase) (f : W.engine.Frame) (top : Top W)
  | closure (c : W.guest.Closure) (rets : Nat) (top : Top W)
  /-- About to perform an operation for its caller. -/
  | caller (o : CallerOp W.memSize) (r : Asker W)
  | done

structure State (W : World) where
  ctl : Ctl W
  /-- The plugin function that called the import whose closure runs. -/
  susp : Option (Suspended W)
  inst : Option (W.engine.Module × Inst W.engine.Priv)
  gs : W.guest.State
  log : List Event

def State.init (J : Job W) : State W := ⟨.boot, none, none, J.state, []⟩

/-- A `Caller` operation on the instance: what it returns, the instance afterwards, and
what was done to the plugin. -/
def perform (m : W.engine.Module) (i : Inst W.engine.Priv) :
    CallerOp W.memSize → Option (Reply × Inst W.engine.Priv × Event)
  | .alloc size => (W.engine.alloc m i size).map fun r => (.word r.1, r.2, .alloc size r.1)
  | .free ptr size => (W.engine.free m i ptr size).map fun r => (.word r.1, r.2, .free ptr size r.1)
  | .readBuf ptr buf =>
      let bytes := Bytes.window i.mem ptr.toNat buf.len
      if ptr.toNat + buf.len ≤ i.mem.length then some (.bytes bytes, i, .read ptr bytes) else none
  | .writeBuf ptr buf =>
      if ptr.toNat + buf.bytes.length ≤ i.mem.length then
        some (.unit, { i with mem := Bytes.splice i.mem buf.bytes ptr.toNat },
          .write ptr buf.bytes)
      else none

/-- A `Caller` operation returns to its caller. -/
def back (reply : Reply) : Asker W → Ctl W
  | .client c => .client (W.guest.clientReply c reply)
  | .closure c rets top => .closure (W.guest.closureReply c reply) rets top

/-- `INIT` from the core-diag call on. -/
def coreDiag (J : Job W) (m : W.engine.Module) : Ctl W :=
  match W.engine.entry m .coreDiag with
  | some f => .run .coreDiag f .init
  | none => .client J.client

/-- `INIT` after the start function. -/
def started (J : Job W) (m : W.engine.Module) : Option (Ctl W) :=
  if W.engine.hasExports m then
    match W.engine.entry m .reactorInit with
    | some f => some (.run .reactorInit f .init)
    | none => some (coreDiag J m)
  else none

/-- A plugin function returned `v` to the request `top`. -/
def returned (J : Job W) (m : W.engine.Module) (v : Word) : Phase → Top W → Option (Ctl W)
  | .start, .init => started J m
  | .reactorInit, .init => some (coreDiag J m)
  | .coreDiag, .init => some (.client J.client)
  | .transform, .transform c => some (.client (W.guest.clientReply c (.word v)))
  | _, _ => none

/-- `INIT` up to the start function. -/
def link (J : Job W) (d : State W) : Option (State W) :=
  match W.engine.compile J.module.bytes with
  | none => none
  | some m => (W.engine.instantiate m).map fun i => { d with inst := some (m, i), ctl := .linked }

/-- `INIT` from the start function on. -/
def start (J : Job W) (m : W.engine.Module) : Option (Ctl W) :=
  match W.engine.entry m .start with
  | some f => some (.run .start f .init)
  | none => started J m

/-- One step of plugin code. -/
def runPlugin (J : Job W) (d : State W) (m : W.engine.Module) (i : Inst W.engine.Priv)
    (phase : Phase) (f : W.engine.Frame) (top : Top W) : Option (State W) :=
  match W.engine.step m f i with
  | .run f i => some { d with inst := some (m, i), ctl := .run phase f top }
  | .call name args hasResult f =>
      (J.imports.lookup name).map fun func =>
        { d with
          ctl := .closure (func.func args) func.sign.2 top
          susp := some ⟨phase, hasResult, f⟩
          log := d.log ++ [.call name args] }
  | .ret v =>
      (returned J m v phase top).map fun ctl =>
        { d with
          ctl := ctl
          log := if phase = .transform then d.log ++ [.result v] else d.log }
  | .trap => none

/-- The closure returned: the plugin goes on with its first output value. -/
def resumePlugin (d : State W) (x : Suspended W) (rets : Nat) (outs : List Word) (top : Top W) :
    State W :=
  { d with
    ctl := .run x.phase
      (W.engine.resume x.frame (if x.hasResult then some (outs.getD 0 0) else none)) top
    susp := none
    log := d.log ++ [.ret (outVals rets outs)] }

/-- One step of the direct execution. -/
def step (J : Job W) (d : State W) : Option (State W) :=
  match d.ctl with
  | .boot => link J d
  | .linked => d.inst.bind fun i => (start J i.1).map fun ctl => { d with ctl := ctl }
  | .client c =>
    match W.guest.client c d.gs with
    | .run c gs => some { d with gs := gs, ctl := .client c }
    | .caller o c => some { d with ctl := .caller o (.client c) }
    | .transform ptr len mark cp c => some { d with ctl := .transform ptr len mark cp c }
    | .drop => some { d with ctl := .done }
  | .transform ptr len mark cp c =>
      d.inst.map fun i =>
        { d with ctl := .run .transform (W.engine.transform i.1 ptr len mark cp) (.transform c) }
  | .run phase f top => d.inst.bind fun i => runPlugin J d i.1 i.2 phase f top
  | .closure c rets top =>
    match W.guest.closure c d.gs with
    | .run c gs => some { d with gs := gs, ctl := .closure c rets top }
    | .caller o c => some { d with ctl := .caller o (.closure c rets top) }
    | .ret outs => d.susp.map fun x => resumePlugin d x rets outs top
  | .caller o r =>
      d.inst.bind fun i =>
        (perform i.1 i.2 o).map fun p =>
          { d with inst := some (i.1, p.2.1), ctl := back p.1 r, log := d.log ++ [p.2.2] }
  | .done => none

/-- One step leads to another state. -/
def Steps (J : Job W) (d d' : State W) : Prop := step J d = some d'

/-- A run of the direct execution. -/
def Runs (J : Job W) : State W → State W → Prop := Relation.ReflTransGen (Steps J)

/-- The direct execution is deterministic: of two runs one continues the other. -/
theorem runs_total {J : Job W} {d a b : State W} (ha : Runs J d a) (hb : Runs J d b) :
    Runs J a b ∨ Runs J b a :=
  Relation.ReflTransGen.total_of_right_unique
    (fun _ _ _ h₁ h₂ => Option.some.inj (h₁.symm.trans h₂)) ha hb

end TurbopackWasi.Plugin.Direct
