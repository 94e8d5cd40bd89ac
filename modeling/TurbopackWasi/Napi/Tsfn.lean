import Mathlib.Data.List.Basic
import TurbopackWasi.Lib.Machine

/-!
# TurbopackWasi.Napi.Tsfn

**Threadsafe functions** of the napi crate. The handles of one function share a count and
the flag `aborted` under a lock; the drop of the last one releases the function of the
engine, and `thread_finalize_cb`, through a weak reference, sets the flag before the engine
deletes it.

The engine counts the threads that use the function, one at first. A function is closed when
nobody uses it, when it is aborted, and with its environment; what is queued then is handed to
`call_js_cb` without an environment, which drops nothing. So its documentation says. That an
answer of `napi_closing` takes the caller off the count, and that later calls are answered
`napi_invalid_arg`, is what the implementation does. `refer` and `unref`, which decide how long
the loop runs, and the limit of the queue are left out.

A step is what happens between two accesses to shared memory. What needs the lock for
writing is one step, since it excludes everything else that looks at the flag.
-/

namespace TurbopackWasi.Napi.Tsfn

open Lib

variable {ι : Type}

/-! ### The engine -/

inductive Status
  | ok
  | closing
  | invalidArg
  deriving DecidableEq

inductive Op (ι : Type)
  | call (i : ι)
  | release
  | abort
  deriving DecidableEq

/-- A call of the engine, and what it answered; none if the function had been deleted. -/
structure Call (ι : Type) where
  op : Op ι
  status : Option Status
  deriving DecidableEq

/-- How far the function of the engine has come. -/
inductive Phase
  | running
  /-- It is being closed, and `thread_finalize_cb` is still to come. -/
  | shut
  /-- `thread_finalize_cb` has a handle, and waits for the lock. -/
  | finalizing
  | deleted
  deriving DecidableEq

/-- Where the `drop` of the `ThreadsafeFunctionHandle` is. -/
inductive Dropping
  | entered
  /-- It holds the lock, and has read `aborted` as false. -/
  | unaborted
  deriving DecidableEq

inductive Panic
  | clone
  /-- The `assert!` on the status of the release. -/
  | release
  deriving DecidableEq

structure State (ι : Type) where
  /-- The values of type `ThreadsafeFunction`. -/
  handles : Nat
  aborted : Bool
  /-- The calls that hold the lock, and have read `aborted` as false. -/
  readers : List ι
  /-- The calls that read `aborted` as true, and answered `Closing`. -/
  refused : List ι
  dropping : Option Dropping
  panics : List Panic
  phase : Phase
  /-- `is_closing` -/
  closing : Bool
  /-- `thread_count` -/
  threads : Nat
  queue : List ι
  /-- What was put into the queue, in order. -/
  sent : List ι
  /-- What `call_js_cb` got with an environment. -/
  delivered : List ι
  /-- What it got without one. -/
  lost : List ι
  /-- All calls of the engine, the last one first. -/
  calls : List (Call ι)

/-- `ThreadsafeFunction::create` -/
def State.init : State ι where
  handles := 1
  aborted := false
  readers := []
  refused := []
  dropping := none
  panics := []
  phase := .running
  closing := false
  threads := 1
  queue := []
  sent := []
  delivered := []
  lost := []
  calls := []

/-- What the engine answers. -/
def State.status (s : State ι) (op : Op ι) : Option Status :=
  if s.phase = .deleted then none
  else
    match op with
    | .call _ =>
        some (if s.closing then if s.threads = 0 then .invalidArg else .closing else .ok)
    | .release | .abort => some (if s.threads = 0 then .invalidArg else .ok)

/-- The engine is called. -/
def State.napi (s : State ι) (op : Op ι) : State ι :=
  let t := { s with calls := ⟨op, s.status op⟩ :: s.calls }
  match op, s.status op with
  | .call i, some .ok => { t with queue := s.queue ++ [i], sent := s.sent ++ [i] }
  | .call _, some .closing => { t with threads := s.threads - 1 }
  | .release, some .ok => { t with threads := s.threads - 1 }
  | .abort, some .ok => { t with threads := s.threads - 1, closing := true }
  | _, _ => t

section Frame

variable (s : State ι) (op : Op ι)

@[simp] theorem napi_handles : (s.napi op).handles = s.handles := by
  unfold State.napi
  split <;> rfl

@[simp] theorem napi_aborted : (s.napi op).aborted = s.aborted := by
  unfold State.napi
  split <;> rfl

@[simp] theorem napi_readers : (s.napi op).readers = s.readers := by
  unfold State.napi
  split <;> rfl

@[simp] theorem napi_dropping : (s.napi op).dropping = s.dropping := by
  unfold State.napi
  split <;> rfl

@[simp] theorem napi_panics : (s.napi op).panics = s.panics := by
  unfold State.napi
  split <;> rfl

@[simp] theorem napi_phase : (s.napi op).phase = s.phase := by
  unfold State.napi
  split <;> rfl

@[simp] theorem napi_delivered : (s.napi op).delivered = s.delivered := by
  unfold State.napi
  split <;> rfl

theorem napi_closing (hop : op ≠ .abort) : (s.napi op).closing = s.closing := by
  unfold State.napi
  split <;> first | rfl | exact absurd rfl hop

@[simp] theorem napi_calls : (s.napi op).calls = ⟨op, s.status op⟩ :: s.calls := by
  unfold State.napi
  split <;> rfl

end Frame

theorem status_eq_none {s : State ι} {op : Op ι} : s.status op = none ↔ s.phase = .deleted := by
  unfold State.status
  split
  · simpa
  · cases op <;> simpa

/-- A call is queued until the function is closed. -/
theorem status_call {s : State ι} {i : ι} :
    s.status (.call i) = some .ok ↔ s.phase ≠ .deleted ∧ s.closing = false := by
  unfold State.status
  by_cases hdeleted : s.phase = .deleted
  · simp [hdeleted]
  · by_cases hclosing : s.closing = true
    · by_cases hzero : s.threads = 0 <;> simp [hdeleted, hclosing, hzero]
    · simp [hdeleted, hclosing]

theorem napi_sent {s : State ι} (hclosing : s.closing = true) (op : Op ι) :
    (s.napi op).sent = s.sent := by
  unfold State.napi
  split
  · rename_i i hok
    have hopen := (status_call.mp hok).2
    simp [hclosing] at hopen
  all_goals rfl

/-- The engine deletes the function, and empties its queue. -/
def State.delete (s : State ι) : State ι :=
  { s with phase := .deleted, lost := s.lost ++ s.queue, queue := [] }

/-! ### The crate -/

/-- A handle is gone; with the last count, the drop of the `ThreadsafeFunctionHandle` is
entered. -/
def State.dropHandle (s : State ι) : State ι :=
  { s with
    handles := s.handles - 1
    dropping := if s.handles = 1 ∧ s.phase ≠ .finalizing then some .entered else s.dropping }

/-- `clone` -/
def State.clone (s : State ι) : State ι :=
  if s.aborted then { s with panics := .clone :: s.panics }
  else { s with handles := s.handles + 1 }

/-- `call` and its like, up to the call of the engine. -/
def State.begin (s : State ι) (i : ι) : State ι :=
  if s.aborted then { s with refused := i :: s.refused } else { s with readers := i :: s.readers }

/-- `abort`, which consumes the handle. -/
def State.abort (s : State ι) : State ι :=
  let t := if s.aborted then s
    else
      let aborted := decide (s.status .abort = some .ok)
      { s.napi .abort with aborted }
  t.dropHandle

/-- The next step of the drop of the `ThreadsafeFunctionHandle`. -/
def State.proceed (s : State ι) : Option (State ι) :=
  s.dropping.map fun d =>
    match d with
    | .entered => { s with dropping := if s.aborted then none else some .unaborted }
    | .unaborted =>
        let failed := s.status .release = some .invalidArg
        { s.napi .release with
          dropping := none
          panics := if failed then .release :: s.panics else s.panics }

/-! ### Steps -/

inductive Act (ι : Type)
  | clone
  | begin (i : ι)
  /-- A call that holds the lock calls the engine. -/
  | call (i : ι)
  | drop
  | abort
  | proceed
  /-- The loop looks after the function: it calls `call_js_cb`, or closes. -/
  | dispatch
  /-- The environment ends. -/
  | cleanup
  /-- `thread_finalize_cb`, up to the lock. -/
  | finalize
  /-- `thread_finalize_cb` gets the lock. -/
  | lock

/-- `dispatch` -/
def State.dispatch (s : State ι) : Option (State ι) :=
  if s.phase ≠ .running then none
  else if s.closing then some { s with phase := .shut }
  else
    match s.queue with
    | i :: queue => some { s with queue, delivered := s.delivered ++ [i] }
    | [] => if s.threads = 0 then some { s with phase := .shut, closing := true } else none

variable [DecidableEq ι]

/-- A handle that is used is not dropped, and one handle may be used by many calls. -/
def next (s : State ι) : Act ι → Option (State ι)
  | .clone => if 0 < s.handles then some s.clone else none
  | .begin i => if 0 < s.handles then some (s.begin i) else none
  | .call i =>
      if i ∈ s.readers then some ({ s with readers := s.readers.erase i }.napi (.call i)) else none
  | .drop => if 1 < s.handles ∨ s.handles = 1 ∧ s.readers = [] then some s.dropHandle else none
  | .abort => if 0 < s.handles ∧ s.readers = [] then some s.abort else none
  | .proceed => s.proceed
  | .dispatch => s.dispatch
  | .cleanup =>
      if s.phase = .running then some { s with phase := .shut, closing := true } else none
  | .finalize =>
      if s.phase = .shut then
        -- without a handle, the weak reference cannot be upgraded
        some (if 0 < s.handles then { s with phase := .finalizing } else s.delete)
      else none
  | .lock =>
      if s.phase = .finalizing ∧ s.readers = [] then some { s with aborted := true }.delete
      else none

/-- One threadsafe function, and any number of threads. -/
def tsfn (ι : Type) [DecidableEq ι] : Machine (State ι) (Act ι) := ⟨(· = .init), next⟩

end TurbopackWasi.Napi.Tsfn
