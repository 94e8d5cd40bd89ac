import TurbopackWasi.Lib.Promise
import TurbopackWasi.Napi.Deletion
import TurbopackWasi.Napi.Promise

/-!
# TurbopackWasi.Napi.Deferred

**Async functions that Rust exports.** `execute_tokio_future` hands out a promise, runs the
future elsewhere, and sends what it comes to through a threadsafe function of its own, whose
callback resolves or rejects the promise. A future that panics is reported by a second task;
on wasm there is none, since the panic ends the thread.

`call_tsfn` calls the function and then releases it, whatever the call has answered; with debug
assertions, an answer other than `napi_ok` is a panic. `JsDeferred` has no
`thread_finalize_cb`, so it is not told that the environment has ended.

`kept` says what the promise is in every state, `settleable_iff` when it can still settle, and
`outlived_iff` when the function may still be used after it is deleted.
-/

namespace TurbopackWasi.Napi.Deferred

open Lib

variable {T V : Type}

/-- `Error`, without the type of its status. -/
structure Error (V : Type) where
  status : String
  reason : String
  /-- `maybe_raw`, a reference to the value that was thrown. -/
  raw : Option V

/-- What a panic carries. -/
inductive Payload
  | str (s : String)
  | other
  deriving DecidableEq

/-- An exported function, and the build it is part of. -/
structure Export (T V : Type) where
  wasm : Bool
  /-- `debug_assertions` -/
  debug : Bool
  resolver : T → Promise.Converted (Error V) V V
  /-- `napi_is_error` -/
  isError : V → Bool
  /-- `napi_create_error` -/
  createError : String → String → V

/-- What the future comes to. -/
inductive Outcome (T V : Type)
  | ok (v : T)
  | err (e : Error V)
  | panic (p : Payload)

/-- What a panic is reported as. -/
def ofPanic : Payload → Error V
  | .str s => ⟨"GenericFailure", s, none⟩
  | .other => ⟨"GenericFailure", "Panic in async function", none⟩

inductive Task
  | inner
  /-- It awaits the other one, and reports its panic. -/
  | handler
  deriving DecidableEq

/-- Where a task is. -/
inductive Stage (T V : Type)
  | waiting
  /-- In `call_tsfn`, before the call. -/
  | calling (r : Except (Error V) T)
  | releasing
  | done
  | panicked (p : Payload)

structure State (T V : Type) where
  inner : Stage T V
  handler : Stage T V
  ended : Option (Outcome T V)
  /-- The `DeferredData` that were made, by their pointers. -/
  boxes : List (Except (Error V) T)
  /-- The threadsafe function, which no `ThreadsafeFunction` is about. -/
  engine : Tsfn.State Nat
  promise : Lib.Promise V V
  /-- How often the deferred of the engine was resolved or rejected. -/
  concluded : Nat

variable (x : Export T V)

/-- Where the handler starts. -/
def Export.start : Stage T V := if x.wasm then .done else .waiting

/-- `execute_tokio_future` -/
def State.init : State T V where
  inner := .waiting
  handler := x.start
  ended := none
  boxes := []
  engine := { Tsfn.State.init with handles := 0 }
  promise := .pending
  concluded := 0

def State.stage (s : State T V) : Task → Stage T V
  | .inner => s.inner
  | .handler => s.handler

def State.setStage (s : State T V) (t : Task) (stage : Stage T V) : State T V :=
  match t with
  | .inner => { s with inner := stage }
  | .handler => { s with handler := stage }

/-! ### The callback -/

/-- `JsError::into_value` -/
def Export.intoValue (e : Error V) : V :=
  match e.raw.filter x.isError with
  | some v => v
  | none => x.createError e.status e.reason

/-- `napi_resolve_deferred` or `napi_reject_deferred` of the engine. -/
def State.conclude (s : State T V) (q : Lib.Promise V V) : State T V :=
  { s with promise := s.promise.settle q, concluded := s.concluded + 1 }

/-- `napi_resolve_deferred`, with an environment. -/
def State.resolveDeferred (s : State T V) (i : Nat) : State T V :=
  match s.boxes[i]? with
  | none => s
  | some r =>
      let c : Promise.Converted (Error V) V V :=
        match r with
        | .ok v => x.resolver v
        | .error e => ⟨.error e, none⟩
      match c.pending, c.result with
      -- with an exception pending, neither call of the engine has an effect
      | some _, _ => s
      | none, .ok v => s.conclude (.fulfilled v)
      | none, .error e => s.conclude (.rejected (x.intoValue e))

/-! ### The tasks -/

/-- The result of the future, in `inner`. -/
def Outcome.stage : Outcome T V → Stage T V
  | .ok v => .calling (.ok v)
  | .err e => .calling (.error e)
  | .panic p => .panicked p

/-- A `debug_assert!` on a status. -/
def Export.assert (status : Option Tsfn.Status) (message : String) (stage : Stage T V) :
    Stage T V :=
  if x.debug ∧ status ≠ some .ok then .panicked (.str message) else stage

/-- `call_tsfn`, up to its release. -/
def State.call (s : State T V) (t : Task) (r : Except (Error V) T) : State T V :=
  let op : Tsfn.Op Nat := .call s.boxes.length
  { s with boxes := s.boxes ++ [r], engine := s.engine.napi op }.setStage t
    (x.assert (s.engine.status op) "Call threadsafe function in JsDeferred failed" .releasing)

/-- The rest of `call_tsfn`. -/
def State.release (s : State T V) (t : Task) : State T V :=
  { s with engine := s.engine.napi .release }.setStage t
    (x.assert (s.engine.status .release) "Release threadsafe function in JsDeferred failed" .done)

/-! ### Steps -/

inductive Act (T V : Type)
  /-- The future ends. -/
  | finish (o : Outcome T V)
  /-- The handler learns how the other task has ended. -/
  | await
  /-- A task goes on in `call_tsfn`. -/
  | run (t : Task)
  /-- A task ends with the runtime. -/
  | cancel (t : Task)
  /-- The loop looks after the function. -/
  | dispatch
  /-- The environment ends. -/
  | cleanup
  | finalize

def next (s : State T V) : Act T V → Option (State T V)
  | .finish o =>
      match s.inner with
      | .waiting => some { s with inner := o.stage, ended := some o }
      | _ => none
  | .await =>
      match s.handler, s.inner with
      | .waiting, .panicked p => some { s with handler := .calling (.error (ofPanic p)) }
      | .waiting, .done => some { s with handler := .done }
      | _, _ => none
  | .run t =>
      match s.stage t with
      | .calling r => some (s.call x t r)
      | .releasing => some (s.release x t)
      | _ => none
  | .cancel t =>
      -- the hook that drops the runtime was added before this function, so it runs after
      if x.wasm = false ∧ s.engine.phase ≠ .running then
        match s.stage t with
        | .waiting => some (s.setStage t .done)
        | _ => none
      else none
  | .dispatch =>
      (Tsfn.next s.engine .dispatch).map fun engine =>
        match s.engine.closing, s.engine.queue with
        | false, i :: _ => { s with engine }.resolveDeferred x i
        | _, _ => { s with engine }
  | .cleanup => (Tsfn.next s.engine .cleanup).map fun engine => { s with engine }
  | .finalize => (Tsfn.next s.engine .finalize).map fun engine => { s with engine }

/-- One call of the exported function. -/
def called : Machine (State T V) (Act T V) := ⟨(· = .init x), next x⟩

/-! ### What the promise stands for -/

/-- What is to be sent for an outcome. -/
def Export.report : Outcome T V → Option (Except (Error V) T)
  | .ok v => some (.ok v)
  | .err e => some (.error e)
  | .panic p => if x.wasm then none else some (.error (ofPanic p))

/-- How the promise is to settle. -/
def Export.verdict : Outcome T V → Option (Except V V)
  | .ok v =>
      if (x.resolver v).pending.isSome then none
      else some ((x.resolver v).result.mapError x.intoValue)
  | .err e => some (.error (x.intoValue e))
  | .panic p => if x.wasm then none else some (.error (x.intoValue (ofPanic p)))

variable {x} {s s' : State T V} {o : Outcome T V} {r : Except (Error V) T} {t : Task}

/-- The callback does what the outcome demands. -/
theorem resolveDeferred_eq {i : Nat} (hr : x.report o = some r) (hbox : s.boxes[i]? = some r) :
    s.resolveDeferred x i =
      (x.verdict o).elim s fun y => s.conclude (.ofOutcome (some y)) := by
  cases o with
  | ok v =>
      obtain rfl := Option.some.inj hr
      simp only [State.resolveDeferred, hbox, Export.verdict]
      cases hpending : (x.resolver v).pending with
      | some _ => rfl
      | none => cases hresult : (x.resolver v).result <;> rfl
  | err e =>
      obtain rfl := Option.some.inj hr
      simp only [State.resolveDeferred, hbox]
      rfl
  | panic p =>
      cases hwasm : x.wasm with
      | true => simp [Export.report, hwasm] at hr
      | false =>
          obtain rfl : .error (ofPanic p) = r := by simpa [Export.report, hwasm] using hr
          simp only [State.resolveDeferred, hbox, Export.verdict, hwasm]
          rfl

/-! ### What one step does -/

inductive Takes (x : Export T V) (s : State T V) : Act T V → State T V → Prop
  | finish {o : Outcome T V} : s.inner = .waiting →
      Takes x s (.finish o) { s with inner := o.stage, ended := some o }
  | report {p : Payload} : s.handler = .waiting → s.inner = .panicked p →
      Takes x s .await { s with handler := .calling (.error (ofPanic p)) }
  | idle : s.handler = .waiting → s.inner = .done → Takes x s .await { s with handler := .done }
  | call {t : Task} {r : Except (Error V) T} : s.stage t = .calling r →
      Takes x s (.run t) (s.call x t r)
  | release {t : Task} : s.stage t = .releasing → Takes x s (.run t) (s.release x t)
  | cancel {t : Task} : s.engine.phase ≠ .running → s.stage t = .waiting →
      Takes x s (.cancel t) (s.setStage t .done)
  | deliver {i : Nat} {queue : List Nat} : s.engine.phase = .running → s.engine.queue = i :: queue →
      Takes x s .dispatch (State.resolveDeferred x
        { s with engine := { s.engine with queue, delivered := s.engine.delivered ++ [i] } } i)
  | close {a : Act T V} : a = .dispatch ∨ a = .cleanup → s.engine.phase = .running →
      Takes x s a { s with engine := { s.engine with phase := .shut, closing := true } }
  | delete : s.engine.phase = .shut → Takes x s .finalize { s with engine := s.engine.delete }

theorem takes_of_next (hhandles : s.engine.handles = 0) {a : Act T V}
    (h : next x s a = some s') : Takes x s a s' := by
  cases a with
  | finish o =>
      simp only [next] at h
      split at h
      · rename_i hw
        obtain rfl := Option.some.inj h
        exact .finish hw
      · cases h
  | await =>
      simp only [next] at h
      split at h
      · rename_i p hw hp
        obtain rfl := Option.some.inj h
        exact .report hw hp
      · rename_i hw hd
        obtain rfl := Option.some.inj h
        exact .idle hw hd
      · cases h
  | run t =>
      simp only [next] at h
      split at h
      · rename_i r hc
        obtain rfl := Option.some.inj h
        exact .call hc
      · rename_i hr
        obtain rfl := Option.some.inj h
        exact .release hr
      · cases h
  | cancel t =>
      simp only [next, Option.ite_none_right_eq_some] at h
      obtain ⟨⟨-, hphase⟩, h⟩ := h
      split at h
      · rename_i hw
        obtain rfl := Option.some.inj h
        exact .cancel hphase hw
      · cases h
  | dispatch =>
      obtain ⟨engine, he, rfl⟩ := Option.map_eq_some_iff.mp h
      simp only [Tsfn.next, Tsfn.State.dispatch, Option.ite_none_left_eq_some, not_not] at he
      obtain ⟨hphase, he⟩ := he
      cases hclosing : s.engine.closing with
      | true =>
          obtain rfl : { s.engine with phase := .shut } = engine := by simpa [hclosing] using he
          have hclose := Takes.close (x := x) (Or.inl rfl : Act.dispatch = .dispatch ∨ _) hphase
          rwa [← hclosing] at hclose
      | false =>
          cases hqueue : s.engine.queue with
          | nil =>
              obtain ⟨-, rfl⟩ : s.engine.threads = 0 ∧
                  { s.engine with phase := .shut, closing := true } = engine := by
                simpa [hclosing, hqueue] using he
              exact .close (Or.inl rfl) hphase
          | cons i queue =>
              obtain rfl : { s.engine with queue, delivered := s.engine.delivered ++ [i] } =
                  engine := by simpa [hclosing, hqueue] using he
              exact .deliver hphase hqueue
  | cleanup =>
      obtain ⟨engine, he, rfl⟩ := Option.map_eq_some_iff.mp h
      simp only [Tsfn.next, Option.ite_none_right_eq_some, Option.some.injEq] at he
      obtain ⟨hphase, rfl⟩ := he
      exact .close (Or.inr rfl) hphase
  | finalize =>
      obtain ⟨engine, he, rfl⟩ := Option.map_eq_some_iff.mp h
      simp only [Tsfn.next, hhandles, Nat.lt_irrefl, if_false, Option.ite_none_right_eq_some,
        Option.some.injEq] at he
      obtain ⟨hphase, rfl⟩ := he
      exact .delete hphase

end TurbopackWasi.Napi.Deferred
