import Mathlib.Data.List.Basic
import TurbopackWasi.Loader.Fetch
import TurbopackWasi.Napi.Tsfn

/-!
# TurbopackWasi.Fetch.Client

**The HTTP client of turbo-tasks-fetch on wasm.** `HostHttpClient` passes each request to the
handler of the loader through a threadsafe function: `get` clones the function, and the
future it returns calls it, awaits the promise of the handler, and awaits what the promise
is settled with. The client itself is in a `OnceLock` and is never dropped.

The futures are polled by any number of threads. The handler's side is the machine of
`Loader.Fetch`, one for each call of the handler. Once the environment ends, JavaScript
does not run any more.
-/

namespace TurbopackWasi.Fetch

open Lib Napi

/-- The error of a request, before it is made a text. -/
inductive FetchError
  /-- `call_async` failed with this status, none if the function was deleted. -/
  | call (status : Option Tsfn.Status)
  /-- The promise of the handler was rejected. -/
  | rejected (f : Loader.Fetch.Failure)
  deriving DecidableEq

/-- `(status, body)` -/
structure WasmFetchResponse where
  status : UInt16
  body : Loader.Fetch.Chunk
  deriving DecidableEq

abbrev Answer := Except FetchError WasmFetchResponse

/-- Where the future of a request is. -/
inductive Stage
  | created
  /-- In `call_async`, with the lock. -/
  | calling
  /-- It awaits the promise of the handler. -/
  | waiting
  /-- It awaits what the promise is settled with. -/
  | promised
  | ready (r : Answer)
  | done (r : Answer)
  | dropped

/-- The future has its clone of the function. -/
def Stage.live : Stage → Bool
  | .done _ | .dropped => false
  | _ => true

/-- The promise of the handler is sent to the future. -/
def Stage.deliver : Stage → Stage
  | .waiting => .promised
  | stage => stage

/-- A call of `get`. -/
structure Get where
  url : String
  userAgent : Option String
  stage : Stage
  /-- The call of the handler, if it has been made. -/
  handler : Option Loader.Fetch.State

structure State where
  tsfn : Tsfn.State Nat
  gets : List Get

/-- `init_turbopack_fetch_bridge` -/
def State.init : State := ⟨.init, []⟩

/-- `TurbopackFetchBridgeResponse`, whose status is a `u32`, and `as u16`. -/
def respond (r : Loader.Fetch.Response) : WasmFetchResponse :=
  ⟨(UInt32.ofNat r.status).toUInt16, r.body⟩

/-- What `promise.await` comes to. -/
def answer : Except Loader.Fetch.Failure Loader.Fetch.Response → Answer
  | .ok r => .ok (respond r)
  | .error f => .error (.rejected f)

/-! ### Steps -/

inductive Act
  | get (url : String) (userAgent : Option String)
  /-- The future of a request goes on. -/
  | poll (i : Nat)
  /-- The future of a request is dropped, between two polls. -/
  | cancel (i : Nat)
  /-- The loop looks after the function. -/
  | dispatch
  /-- Something happens to a request of the handler. -/
  | event (i : Nat) (e : Nat × Loader.Fetch.Event)
  /-- The promise of the handler has settled, and the callback of `then` or `catch` runs. -/
  | settle (i : Nat)
  /-- The environment ends. -/
  | cleanup
  | finalize
  | lock

def State.setStage (s : State) (i : Nat) (g : Get) (stage : Stage) : State :=
  { s with gets := s.gets.set i { g with stage } }

/-- The future ends, and its clone is dropped. -/
def State.finish (s : State) (i : Nat) (g : Get) (stage : Stage) : Option State :=
  (Tsfn.next s.tsfn .drop).map fun tsfn => { s with tsfn }.setStage i g stage

/-- A poll of the future. -/
def State.poll (s : State) (i : Nat) (g : Get) : Option State :=
  match g.stage with
  | .created =>
      (Tsfn.next s.tsfn (.begin i)).bind fun tsfn =>
        if s.tsfn.aborted then { s with tsfn }.finish i g (.done (.error (.call (some .closing))))
        else some ({ s with tsfn }.setStage i g .calling)
  | .calling =>
      (Tsfn.next s.tsfn (.call i)).bind fun tsfn =>
        let status := s.tsfn.status (.call i)
        if status = some .ok then some ({ s with tsfn }.setStage i g .waiting)
        else { s with tsfn }.finish i g (.done (.error (.call status)))
  | .ready r => s.finish i g (.done r)
  | _ => none

/-- `call_js_cb`, which calls the handler. -/
def State.handle (c : Loader.Fetch.Client) (s : State) (i : Nat) : State :=
  match s.gets[i]? with
  | some g =>
      let handler := Loader.Fetch.handler c false g.url g.userAgent
      { s with gets := s.gets.set i { g with stage := g.stage.deliver, handler := some handler } }
  | none => s

@[simp] theorem handle_tsfn (c : Loader.Fetch.Client) (s : State) (i : Nat) :
    (s.handle c i).tsfn = s.tsfn := by
  unfold State.handle
  split <;> rfl

theorem handle_getElem?_ne (c : Loader.Fetch.Client) (s : State) {i j : Nat} (h : j ≠ i) :
    (s.handle c j).gets[i]? = s.gets[i]? := by
  unfold State.handle
  split
  · exact List.getElem?_set_ne h
  · rfl

def next (c : Loader.Fetch.Client) (s : State) : Act → Option State
  | .get url userAgent =>
      (Tsfn.next s.tsfn .clone).map fun tsfn =>
        -- the clone of a function that was aborted panics
        if s.tsfn.aborted then { s with tsfn }
        else { s with tsfn, gets := s.gets ++ [⟨url, userAgent, .created, none⟩] }
  | .poll i => s.gets[i]?.bind (s.poll i)
  | .cancel i =>
      s.gets[i]?.bind fun g =>
        match g.stage with
        | .created | .waiting | .promised | .ready _ => s.finish i g .dropped
        | _ => none
  | .dispatch =>
      (Tsfn.next s.tsfn .dispatch).map fun tsfn =>
        match s.tsfn.closing, s.tsfn.queue with
        | false, i :: _ => { s with tsfn }.handle c i
        | _, _ => { s with tsfn }
  | .event i e =>
      if s.tsfn.phase = .running then
        s.gets[i]?.bind fun g =>
          (g.handler.bind (Loader.Fetch.next c · e)).map fun h =>
            { s with gets := s.gets.set i { g with handler := some h } }
      else none
  | .settle i =>
      if s.tsfn.phase = .running then
        s.gets[i]?.bind fun g =>
          match g.stage, g.handler.bind Loader.Fetch.State.outcome with
          | .promised, some o => some (s.setStage i g (.ready (answer o)))
          | _, _ => none
      else none
  | .cleanup => (Tsfn.next s.tsfn .cleanup).map fun tsfn => { s with tsfn }
  | .finalize => (Tsfn.next s.tsfn .finalize).map fun tsfn => { s with tsfn }
  | .lock => (Tsfn.next s.tsfn .lock).map fun tsfn => { s with tsfn }

/-- Any number of requests, in flight at the same time. -/
def client (c : Loader.Fetch.Client) : Machine State Act := ⟨(· = .init), next c⟩

end TurbopackWasi.Fetch
