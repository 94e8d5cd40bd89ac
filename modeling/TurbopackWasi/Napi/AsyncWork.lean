import TurbopackWasi.Napi.Promise

/-!
# TurbopackWasi.Napi.AsyncWork

**Tasks with an abort signal.** `AsyncTask` computes on a thread of the pool, and `complete`
settles its promise on the thread of JavaScript. An `AbortSignal` shares the status of the task
with it: `onabort` cancels the work, marks the task as canceled and rejects the promise, and
`complete` leaves a canceled task alone.

`resolve`, `reject`, `to_napi_value` and `finally` have an environment, so they may run
JavaScript that aborts; `complete` is therefore a step between any two of them. The engine
frees the deferred of a promise once it has settled it, and frees the work in `complete`. Work
is cancelled only before it has started, and `complete` is called then too: with an output that
was never written.

An abort before the task runs passes a null deferred to the engine, which Node does not survive,
and a second settlement a freed one. A run goes on from there only where the engine refuses the
call. Debug assertions are left out.
-/

namespace TurbopackWasi.Napi.AsyncWork

open Lib

variable {O J F V : Type}

/-- What a `Task` does. An exception that is left pending is part of what it comes to. -/
structure Task (O J F V : Type) where
  compute : Except F O
  resolve : O → Promise.Converted F J V
  reject : F → Promise.Converted F J V
  toNapiValue : J → Promise.Converted F V V
  /-- `JsError::into_value` -/
  intoValue : F → V
  /-- The error with the reason `AbortError`, as a value. -/
  abortError : V

/-- The status that `AsyncWork` and `AbortSignal` share. -/
inductive Status
  | notStarted
  | completed
  | canceled
  deriving DecidableEq

inductive Stage (J F V : Type)
  /-- The signal is converted, but the task does not run yet. -/
  | called
  | queued
  | running
  /-- `complete` is to be called, with `napi_cancelled` or with `napi_ok`. -/
  | executed (cancelled : Bool)
  /-- In `complete`, with what `resolve` or `reject` gave for an output that was written. -/
  | resolving (cancelled : Bool) (r : Option (Promise.Converted F J V))
  /-- In `complete`, after the look at the status, with what `to_napi_value` gave. -/
  | converting (c : Promise.Converted F V V)
  /-- In `complete`, in `finally`. -/
  | finishing
  | deleted

structure State (O J F V : Type) where
  stage : Stage J F V
  status : Status
  /-- `value`; none if it is zeroed. -/
  value : Option (Except F O)
  promise : Lib.Promise V V
  /-- How often the deferred of the promise was settled. -/
  concluded : Nat
  /-- `resolve` was called with an output that was never written. -/
  garbage : Bool
  /-- The engine was to reject with a null deferred. -/
  nullDeferred : Bool

/-- `AbortSignal::from_napi_value` -/
def State.init : State O J F V where
  stage := .called
  status := .notStarted
  value := none
  promise := .pending
  concluded := 0
  garbage := false
  nullDeferred := false

/-- `napi_resolve_deferred` or `napi_reject_deferred`. -/
def State.conclude (s : State O J F V) (q : Lib.Promise V V) : State O J F V :=
  { s with promise := s.promise.settle q, concluded := s.concluded + 1 }

variable (t : Task O J F V)

/-- `value.and_then(to_napi_value)` -/
def Task.convert (r : Promise.Converted F J V) : Promise.Converted F V V :=
  match r.result with
  | .ok j => ⟨(t.toNapiValue j).result, r.pending.or (t.toNapiValue j).pending⟩
  | .error f => ⟨.error f, r.pending⟩

/-! ### The functions of the source -/

/-- `complete`, up to the look at the status. -/
def State.complete (s : State O J F V) (cancelled : Bool) : State O J F V :=
  match s.value with
  | none => { s with stage := .resolving cancelled none, garbage := true }
  | some (.ok v) => { s with stage := .resolving cancelled (some (t.resolve v)) }
  | some (.error e) => { s with stage := .resolving cancelled (some (t.reject e)) }

/-- `complete` looks at the status. -/
def State.check (s : State O J F V) (cancelled : Bool) (r : Option (Promise.Converted F J V)) :
    State O J F V :=
  match cancelled || s.status = .canceled, r with
  | false, some r => { s with stage := .converting (t.convert r) }
  | _, _ => { s with stage := .finishing }

/-- `complete` settles the promise. -/
def State.settle (s : State O J F V) (c : Promise.Converted F V V) : State O J F V :=
  let s := { s with stage := .finishing }
  match c.pending, c.result with
  -- with an exception pending, the call of the engine has no effect
  | some _, _ => s
  | none, .ok v => s.conclude (.fulfilled v)
  | none, .error e => s.conclude (.rejected (t.intoValue e))

/-- `on_abort` -/
def State.onAbort (s : State O J F V) : State O J F V :=
  if s.status = .completed then s
  else
    match s.stage with
    -- the pointers of the signal are still null
    | .called => { s with status := .canceled, nullDeferred := true }
    -- the work can be cancelled, as long as it is queued
    | .queued =>
        { s with stage := .executed true, status := .canceled }.conclude (.rejected t.abortError)
    | _ => { s with status := .canceled }.conclude (.rejected t.abortError)

/-! ### Steps -/

inductive Act
  /-- `AsyncTask::to_napi_value` -/
  | run
  /-- A thread of the pool takes the work. -/
  | start
  | execute
  | complete
  | check
  | settle
  | delete
  | abort
  deriving DecidableEq

def next (s : State O J F V) : Act → Option (State O J F V)
  | .run =>
      match s.stage with
      | .called => some { s with stage := .queued }
      | _ => none
  | .start =>
      match s.stage with
      | .queued => some { s with stage := .running }
      | _ => none
  | .execute =>
      match s.stage with
      | .running => some { s with stage := .executed false, value := some t.compute }
      | _ => none
  | .complete =>
      match s.stage with
      | .executed cancelled => some (s.complete t cancelled)
      | _ => none
  | .check =>
      match s.stage with
      | .resolving cancelled r => some (s.check t cancelled r)
      | _ => none
  | .settle =>
      match s.stage with
      | .converting c => some (s.settle t c)
      | _ => none
  | .delete =>
      match s.stage with
      | .finishing => some { s with stage := .deleted, status := .completed }
      | _ => none
  | .abort => some (s.onAbort t)

/-- One task, and its signal. -/
def asyncTask : Machine (State O J F V) Act := ⟨(· = .init), next t⟩

/-! ### What one step does -/

/-- What `resolve` or `reject` gives for the output. -/
def Task.answer : Promise.Converted F J V :=
  match t.compute with
  | .ok v => t.resolve v
  | .error e => t.reject e

/-- What the promise is settled with, if no exception is pending. -/
def Task.judge (c : Promise.Converted F V V) : Option (Except V V) :=
  if c.pending.isSome then none else some (c.result.mapError t.intoValue)

/-- What the promise of a task that is not aborted comes to. -/
def Task.verdict : Option (Except V V) := t.judge (t.convert t.answer)

variable {t} {s s' : State O J F V}

theorem settle_eq (c : Promise.Converted F V V) :
    s.settle t c = (t.judge c).elim { s with stage := .finishing } fun y =>
      State.conclude { s with stage := .finishing } (.ofOutcome (some y)) := by
  cases hpending : c.pending with
  | some e => simp [State.settle, Task.judge, hpending]
  | none =>
      cases hresult : c.result with
      | ok v =>
          have hjudge : t.judge c = some (.ok v) := by
            simp only [Task.judge, hpending, hresult]
            rfl
          simp [State.settle, hjudge, hpending, hresult, Lib.Promise.ofOutcome]
      | error e =>
          have hjudge : t.judge c = some (.error (t.intoValue e)) := by
            simp only [Task.judge, hpending, hresult]
            rfl
          simp [State.settle, hjudge, hpending, hresult, Lib.Promise.ofOutcome]

inductive Takes (t : Task O J F V) (s : State O J F V) : Act → State O J F V → Prop
  | run : s.stage = .called → Takes t s .run { s with stage := .queued }
  | start : s.stage = .queued → Takes t s .start { s with stage := .running }
  | execute : s.stage = .running →
      Takes t s .execute { s with stage := .executed false, value := some t.compute }
  | complete {cancelled : Bool} : s.stage = .executed cancelled →
      Takes t s .complete (s.complete t cancelled)
  | check {cancelled : Bool} {r : Option (Promise.Converted F J V)} :
      s.stage = .resolving cancelled r → Takes t s .check (s.check t cancelled r)
  | settle {c : Promise.Converted F V V} : s.stage = .converting c →
      Takes t s .settle (s.settle t c)
  | delete : s.stage = .finishing →
      Takes t s .delete { s with stage := .deleted, status := .completed }
  | abort : Takes t s .abort (s.onAbort t)

theorem takes_of_next {a : Act} (h : next t s a = some s') : Takes t s a s' := by
  cases a with
  | run | start | execute | complete | check | settle | delete =>
      simp only [next] at h
      split at h
      · obtain rfl := Option.some.inj h
        constructor
        assumption
      · cases h
  | abort =>
      obtain rfl := Option.some.inj h
      exact .abort

/-- An abort: too late, too early, in time to cancel the work, or while it is in progress. -/
inductive Aborts (t : Task O J F V) (s : State O J F V) : State O J F V → Prop
  | late : s.status = .completed → Aborts t s s
  | early : s.status ≠ .completed → s.stage = .called →
      Aborts t s { s with status := .canceled, nullDeferred := true }
  | cancels : s.stage = .queued → Aborts t s
      ({ s with stage := .executed true, status := .canceled }.conclude (.rejected t.abortError))
  | rejects : s.status ≠ .completed → s.stage ≠ .called → s.stage ≠ .queued →
      Aborts t s ({ s with status := .canceled }.conclude (.rejected t.abortError))

theorem aborts (t : Task O J F V) (s : State O J F V) : Aborts t s (s.onAbort t) := by
  unfold State.onAbort
  split
  · rename_i hstatus
    exact .late hstatus
  · rename_i hstatus
    split
    · rename_i hstage
      exact .early hstatus hstage
    · rename_i hstage
      exact .cancels hstage
    · rename_i hcalled hqueued
      exact .rejects hstatus hcalled hqueued

end TurbopackWasi.Napi.AsyncWork
