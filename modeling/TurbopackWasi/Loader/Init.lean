import TurbopackWasi.Lib.Machine
import Mathlib.Logic.Function.Basic

/-!
# TurbopackWasi.Loader.Init

The initialisation of the binding. `loader.cjs` is evaluated once in every module registry
that requires it; `binding.cjs` requires it and throws as long as its `ready` is not set.
Only one wasm instantiation may run, so what the instances share (`G`) is a property of
`globalThis`.

A state is that of any number of registries on any threads. A registry has a `Site`: its
thread, and the `globalThis` that its modules see (a sandbox may have one of its own). The
asynchronous body of the initialisation ends at any time, with the raw exports or in
failure, and each callback of a `then` runs at any time after it.
-/

namespace TurbopackWasi.Loader

open Lib

/-! ### Sites -/

structure Site (γ : Type) where
  isMainThread : Bool
  /-- `workerData` has a `bindingPath`. -/
  bindingPath : Bool
  globalThis : γ

variable {ρ γ F : Type}

/-- `IN_POOL_WORKER`. -/
def Site.inPoolWorker (x : Site γ) : Bool := !x.isMainThread && x.bindingPath

/-! ### Exports -/

/-- An export of the binding; `typeof` tells functions from the rest. -/
inductive RawExport (F : Type)
  | function (f : F)
  | object (f : F)

/-- The value of a property of `module.exports`. -/
inductive Export (F : Type)
  | ensureInit
  | raw (e : RawExport F)
  /-- The wrapper of `registerWorkerScheduler`, with its map of workers. -/
  | override (registerWorkerScheduler : F) (poolWorkers : Nat)
  | ready

abbrev Exports (F : Type) := String → Option (Export F)

/-- `Object.assign(exp, source)`. -/
def assign (exp source : Exports F) : Exports F := fun name => (source name).or (exp name)

/-- `G.surface`. -/
structure Surface (F : Type) where
  raw : String → Option (RawExport F)
  /-- Which `new Map()` the wrapper owns. -/
  poolWorkers : Nat

def Surface.rawExports (S : Surface F) : Exports F := fun name => (S.raw name).map .raw

def Surface.overrides (S : Surface F) : Exports F := fun name =>
  if name = "registerWorkerScheduler" then
    match S.raw "registerWorkerScheduler" with
    | some (.function f) => some (.override f S.poolWorkers)
    | _ => none
  else none

/-- All that the surface brings: the raw exports, and the wrapper in place of its own. -/
def Surface.exports (S : Surface F) : Exports F := assign S.rawExports S.overrides

/-! ### The state -/

/-- How far the body behind `G.initPromise` is. -/
inductive Init
  | idle
  /-- It runs, and has called `instantiateNapiModule` or failed before. -/
  | running (instantiated : Bool)
  | done (ok : Bool)
  deriving DecidableEq

/-- `G`, and the calls of `instantiateNapiModule` of its body. -/
structure Shared (F : Type) where
  init : Init
  surface : Option (Surface F)
  started : Nat

/-- `initPromise` of an instance. -/
inductive Memo
  | unset
  | pending
  | resolved (ok : Bool)
  deriving DecidableEq

structure Instance (F : Type) where
  exports : Exports F
  memo : Memo
  /-- The surface was there when the instance was evaluated. -/
  late : Bool

/-- What `loader.cjs` is in a registry: the RPC proxy, or an instance. -/
inductive Personality (F : Type)
  | proxy
  | main (x : Instance F)

structure State (ρ γ F : Type) where
  shared : γ → Shared F
  loader : ρ → Option (Personality F)
  /-- `binding.cjs` is in the require cache. -/
  cached : ρ → Bool
  /-- The maps made so far. -/
  maps : Nat

def State.init : State ρ γ F := ⟨fun _ => ⟨.idle, none, 0⟩, fun _ => none, fun _ => false, 0⟩

/-! ### loader.cjs -/

def applyGraft (G : Shared F) (exp : Exports F) : Exports F :=
  match G.surface with
  | none => exp
  | some S => fun name =>
      if name = "ready" then some .ready else assign (assign exp S.rawExports) S.overrides name

/-- `module.exports` before the graft. -/
def bare : Exports F := fun name => if name = "ensureInit" then some .ensureInit else none

/-- The evaluation of `loader.cjs`. -/
def evaluate (site : Site γ) (G : Shared F) : Personality F :=
  if site.inPoolWorker then .proxy else .main ⟨applyGraft G bare, .unset, G.surface.isSome⟩

variable [DecidableEq ρ] [DecidableEq γ] (site : ρ → Site γ)

/-- `require('./loader.cjs')`. -/
def State.requireLoader (s : State ρ γ F) (r : ρ) : Personality F × State ρ γ F :=
  match s.loader r with
  | some m => (m, s)
  | none =>
      let m := evaluate (site r) (s.shared (site r).globalThis)
      (m, { s with loader := Function.update s.loader r (some m) })

def State.setInstance (s : State ρ γ F) (r : ρ) (x : Instance F) : State ρ γ F :=
  { s with loader := Function.update s.loader r (some (.main x)) }

/-- `ensureInit()`. The body runs at once up to the call of `instantiateNapiModule`, or fails
before it. -/
def State.ensureInit (s : State ρ γ F) (r : ρ) (x : Instance F) (instantiates : Bool) :
    State ρ γ F :=
  match x.memo with
  | .unset =>
      let s := s.setInstance r { x with memo := .pending }
      let G := s.shared (site r).globalThis
      match G.init with
      | .idle =>
          let G := { G with
            init := .running instantiates
            started := if instantiates then G.started + 1 else G.started }
          { s with shared := Function.update s.shared (site r).globalThis G }
      | _ => s
  | _ => s

/-- The body ends: with the raw exports of the module, or in the `catch`. -/
def State.complete (s : State ρ γ F) (g : γ) (raw : Option (String → Option (RawExport F))) :
    State ρ γ F :=
  match raw with
  | none =>
      { s with shared := Function.update s.shared g { s.shared g with init := .done false } }
  | some raw =>
      let G := { s.shared g with init := .done true, surface := some ⟨raw, s.maps⟩ }
      { s with shared := Function.update s.shared g G, maps := s.maps + 1 }

/-- The callback of an instance on `G.initPromise`. -/
def State.settle (s : State ρ γ F) (r : ρ) (x : Instance F) (ok : Bool) : State ρ γ F :=
  let exports := if ok then applyGraft (s.shared (site r).globalThis) x.exports else x.exports
  s.setInstance r { x with exports := exports, memo := .resolved ok }

/-! ### binding.cjs -/

/-- `loader.ready`; of the proxy it is one of its functions. -/
def Personality.ready : Personality F → Bool
  | .proxy => true
  | .main x => (x.exports "ready").isSome

/-- `require('binding.cjs')`: the loader, or an exception. -/
def State.requireBinding (s : State ρ γ F) (r : ρ) : Option (Personality F) × State ρ γ F :=
  let (m, s') := s.requireLoader site r
  if s.cached r then (some m, s')
  else if (site r).isMainThread && !m.ready then (none, s')
  else (some m, { s' with cached := Function.update s'.cached r true })

/-! ### Steps -/

inductive Act (ρ γ F : Type)
  | evaluate (r : ρ)
  | ensureInit (r : ρ) (instantiates : Bool)
  | complete (g : γ) (raw : Option (String → Option (RawExport F)))
  | settle (r : ρ)
  | require (r : ρ)

def next (s : State ρ γ F) : Act ρ γ F → Option (State ρ γ F)
  | .evaluate r => some (s.requireLoader site r).2
  | .ensureInit r instantiates =>
      match s.loader r with
      | some (.main x) => some (s.ensureInit site r x instantiates)
      | _ => none
  | .complete g raw =>
      match (s.shared g).init with
      | .running instantiated => if raw.isSome && !instantiated then none else some (s.complete g raw)
      | _ => none
  | .settle r =>
      match s.loader r with
      | some (.main x) =>
          match x.memo, (s.shared (site r).globalThis).init with
          | .pending, .done ok => some (s.settle site r x ok)
          | _, _ => none
      | _ => none
  | .require r => some (s.requireBinding site r).2

def machine : Machine (State ρ γ F) (Act ρ γ F) where
  start s := s = .init
  next := next site

end TurbopackWasi.Loader
