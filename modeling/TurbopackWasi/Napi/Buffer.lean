import Mathlib.Logic.Function.Basic
import TurbopackWasi.Lib.Machine
import TurbopackWasi.Lib.RefCount

/-!
# TurbopackWasi.Napi.Buffer

**References to JavaScript buffers**, as the fork of the napi crate lets go of them. A
`Buffer` that came from JavaScript holds a reference of the engine. Its clones travel to
other threads, and the reference may only be released on the thread of its environment, so
the last drop on any other thread sends it to a threadsafe function, the *custom GC*. The
typed arrays have the same `Drop`.

The steps are those of the source between two accesses to shared memory: the count of the
`Arc`, `CUSTOM_GC_TSFN_DESTROYED`, `THREADS_CAN_ACCESS_ENV`, the queue of the threadsafe
function, and each call of the engine. The engine runs the cleanup hooks of an environment
in reverse order.
-/

namespace TurbopackWasi.Napi

open Lib

abbrev Thread := Nat
abbrev Env := Nat
abbrev Ref := Nat

/-- What the `cfg` of the custom GC reads. -/
structure Build where
  napi4 : Bool
  noop : Bool
  wasm : Bool
  atomics : Bool

/-- `any(not(target_family = "wasm"), target_feature = "atomics")`, and the features. -/
def Build.customGc (b : Build) : Bool := b.napi4 && !b.noop && (!b.wasm || b.atomics)

/-- Where `drop` is, after a count of one. -/
inductive Stage
  | counted
  /-- `CUSTOM_GC_TSFN_DESTROYED` was false. -/
  | undestroyed
  /-- To call `napi_reference_unref` itself. -/
  | direct
  /-- To call `napi_delete_reference`. -/
  | unreffed
  /-- To call the threadsafe function. -/
  | remote
  | done
  deriving DecidableEq

structure Drop where
  thread : Thread
  stage : Stage
  deriving DecidableEq

inductive Op
  | unref
  | delete
  | value
  deriving DecidableEq

/-- A call of the engine about a reference. -/
structure Call where
  thread : Thread
  /-- The environment that is passed, none where it is null. -/
  env : Option Env
  /-- That of the reference. -/
  owner : Env
  op : Op
  /-- The count of the reference, none when it has been deleted. -/
  found : Option Nat
  deriving DecidableEq

inductive Hook
  /-- The threadsafe function's own. -/
  | tsfn
  | removeThreadId (t : Thread)
  deriving DecidableEq

structure State where
  /-- `THREADS_CAN_ACCESS_ENV` -/
  access : Thread → Option Bool
  /-- `CUSTOM_GC_TSFN`, by its environment. -/
  tsfn : Option Env
  /-- `CUSTOM_GC_TSFN_DESTROYED` -/
  destroyed : Bool
  /-- `FIRST_MODULE_REGISTERED` -/
  registered : Bool
  closing : Bool
  /-- A call was answered `napi_closing`, and its thread taken off the function's count. -/
  turnedAway : Bool
  queue : List Ref
  hooks : Env → List Hook
  /-- The references made so far are those below. -/
  fresh : Ref
  env : Ref → Env
  count : Ref → Option Nat
  handles : Ref → Handles Drop
  log : List Call
  /-- The `assert!` of `drop` failed. -/
  panicked : Bool

def State.init : State where
  access := fun _ => none
  tsfn := none
  destroyed := false
  registered := false
  closing := false
  turnedAway := false
  queue := []
  hooks := fun _ => []
  fresh := 0
  env := fun _ => 0
  count := fun _ => none
  handles := fun _ => .gone
  log := []
  panicked := false

/-! ### The engine -/

def State.call (s : State) (t : Thread) (e : Option Env) (r : Ref) (op : Op) : State :=
  { s with log := ⟨t, e, s.env r, op, s.count r⟩ :: s.log }

/-- `napi_reference_unref`; without an environment, it does nothing. -/
def State.unref (s : State) (t : Thread) (e : Option Env) (r : Ref) : State :=
  { s.call t e r .unref with
    count := if e.isSome then Function.update s.count r ((s.count r).map (· - 1)) else s.count }

/-- `napi_delete_reference` -/
def State.delete (s : State) (t : Thread) (e : Option Env) (r : Ref) : State :=
  { s.call t e r .delete with
    count := if e.isSome then Function.update s.count r none else s.count }

/-- `napi_create_reference` -/
def State.createReference (s : State) (e : Env) : State :=
  { s with
    count := Function.update s.count s.fresh (some 1)
    env := Function.update s.env s.fresh e
    fresh := s.fresh + 1 }

/-- `napi_call_threadsafe_function`, and the `assert!` on its status. The function has one thread,
so only the first call that it turns away is answered `napi_closing`, and all later ones
`napi_invalid_arg`. Calls after `custom_gc_finalize` are undefined, and not told apart. -/
def State.callTsfn (s : State) (r : Ref) : State :=
  match s.tsfn with
  | none => { s with panicked := true }
  | some _ =>
      if s.closing then { s with turnedAway := true, panicked := s.panicked || s.turnedAway }
      else { s with queue := s.queue ++ [r] }

/-- The engine runs the hook of an environment that was added last. -/
def State.cleanup (s : State) (e : Env) : Option State :=
  match s.hooks e with
  | [] => none
  | .tsfn :: hooks =>
      some { s with hooks := Function.update s.hooks e hooks, closing := true }
  | .removeThreadId t :: hooks =>
      some { s with
        hooks := Function.update s.hooks e hooks
        access := Function.update s.access t (some false) }

/-! ### The crate -/

def State.setHandles (s : State) (r : Ref) (h : Handles Drop) : State :=
  { s with handles := Function.update s.handles r h }

/-- `create_custom_gc`: the first module creates the threadsafe function. -/
def State.createCustomGc (s : State) (t : Thread) (e : Env) : State :=
  let hooks := if s.registered then s.hooks e else .tsfn :: s.hooks e
  { s with
    tsfn := if s.registered then s.tsfn else some e
    access := Function.update s.access t (some true)
    hooks := Function.update s.hooks e (.removeThreadId t :: hooks) }

/-- The end of `napi_register_module_v1`. -/
def State.register (s : State) (b : Build) (t : Thread) (e : Env) : State :=
  { (if b.customGc then s.createCustomGc t e else s) with registered := true }

/-- `Buffer::from_napi_value`: the reference comes first, the check that it is a buffer
after it. -/
def State.fromNapiValue (s : State) (e : Env) (isBuffer : Bool) : State :=
  if isBuffer then (s.createReference e).setHandles s.fresh .one else s.createReference e

/-- `Buffer::to_napi_value` of a value from JavaScript: the only handle deletes the
reference, and its drop finds a null pointer. -/
def State.toNapiValue (s : State) (t : Thread) (e : Env) (r : Ref) : Option State :=
  let s := s.call t (some e) r .value
  if (s.handles r).strong = 1 then
    ((s.handles r).drop ⟨t, .done⟩).map ((s.delete t (some e) r).setHandles r)
  else some s

/-- The next step of the `drop` that read one. -/
def State.proceed (s : State) (b : Build) (r : Ref) : Option State :=
  (s.handles r).acting.map fun d =>
    let goto := fun stage => (s.handles r).act (some { d with stage })
    match d.stage with
    | .counted =>
        s.setHandles r (goto (if b.customGc then if s.destroyed then .done else .undestroyed
          else .direct))
    | .undestroyed =>
        s.setHandles r (goto (if (s.access d.thread).isSome then .direct else .remote))
    | .direct => (s.unref d.thread (some (s.env r)) r).setHandles r (goto .unreffed)
    | .unreffed => (s.delete d.thread (some (s.env r)) r).setHandles r (goto .done)
    | .remote => (s.callTsfn r).setHandles r (goto .done)
    | .done => s.setHandles r ((s.handles r).act none)

/-- `custom_gc`, on the thread of the threadsafe function. -/
def State.customGc (s : State) (t : Thread) (e : Option Env) (r : Ref) : State :=
  if s.access t = some false then s else (s.unref t e r).delete t e r

/-! ### Steps -/

inductive Act
  /-- A module is registered. -/
  | register (t : Thread) (e : Env)
  | fromNapiValue (t : Thread) (e : Env) (isBuffer : Bool)
  | toNapiValue (t : Thread) (e : Env) (r : Ref)
  | clone (r : Ref)
  | drop (t : Thread) (r : Ref)
  /-- A handle that read more than one gives up its count. -/
  | pass (r : Ref)
  | proceed (r : Ref)
  /-- The loop of the environment calls `custom_gc`. -/
  | deliver
  | cleanup (e : Env)
  /-- The threadsafe function is closing: `custom_gc` is called without an environment. -/
  | drain
  /-- `custom_gc_finalize` -/
  | finalize

section Machine

variable (b : Build) (home : Env → Thread)

/-- Calls from JavaScript come in on the thread of their environment. -/
def next (s : State) : Act → Option State
  | .register t e => if home e = t then some (s.register b t e) else none
  | .fromNapiValue t e isBuffer =>
      if home e = t then some (s.fromNapiValue e isBuffer) else none
  | .toNapiValue t e r =>
      if home e = t ∧ 0 < (s.handles r).idle then s.toNapiValue t e r else none
  | .clone r => (s.handles r).clone.map (s.setHandles r)
  | .drop t r => ((s.handles r).drop ⟨t, .counted⟩).map (s.setHandles r)
  | .pass r => (s.handles r).pass.map (s.setHandles r)
  | .proceed r => s.proceed b r
  | .deliver =>
      match s.tsfn, s.closing, s.queue with
      | some e, false, r :: queue => some ({ s with queue }.customGc (home e) (some e) r)
      | _, _, _ => none
  | .cleanup e => s.cleanup e
  | .drain =>
      match s.tsfn, s.closing, s.queue with
      | some e, true, r :: queue => some ({ s with queue }.customGc (home e) none r)
      | _, _, _ => none
  | .finalize =>
      if s.closing ∧ s.queue = [] then some { s with destroyed := true } else none

/-- Any number of threads, environments and buffers. -/
def buffers : Machine State Act := ⟨(· = .init), next b home⟩

end Machine

end TurbopackWasi.Napi
