import TurbopackWasi.Lib.Lanes
import TurbopackWasi.Lib.Machine
import Mathlib.Logic.Function.Basic

/-!
# TurbopackWasi.Workers.Rpc

The RPC between the pool workers and the main thread. In a worker the loader exports a
proxy of the binding: `rpc` makes a promise, keeps its two functions in `pending` under a
fresh id and posts a request. The main thread runs `handleRpc` for each message: it calls
the raw method at once, waits for its promise, and posts a reply with the id.

The state is that of all workers and of the main thread together. Each worker's port
delivers in order, and nothing is ordered between two workers, so the requests are
`Lanes` with the worker as the lane, and so are the replies. What the raw methods do is
left open: a call throws at once, or its promise is settled at any later time and in any
order.
-/

namespace TurbopackWasi.Workers

open Lib

/-! ### Values -/

structure Uint8Array where
  /-- It is of the subclass `Buffer`. -/
  isBuffer : Bool
  bytes : List UInt8

/-- A value that can be posted: one with a `Uint8Array` under `data`, or any other. -/
inductive Value (V : Type)
  | withData (rest : V) (data : Uint8Array)
  | other (v : V)

variable {V ι : Type}

/-- `Buffer.from(data)`. -/
def Uint8Array.toBuffer (a : Uint8Array) : Uint8Array := ⟨true, a.bytes⟩

/-- `new Uint8Array(data)`. -/
def Uint8Array.copy (a : Uint8Array) : Uint8Array := ⟨false, a.bytes⟩

/-- The structured clone of a message: a `Buffer` arrives as a `Uint8Array`. -/
def Value.clone : Value V → Value V
  | .withData rest data => .withData rest data.copy
  | .other v => .other v

def toNapiArg : Value V → Value V
  | .withData rest data => .withData rest (if data.isBuffer then data else data.toBuffer)
  | .other v => .other v

def toCloneable : Value V → Value V
  | .withData rest data => .withData rest data.copy
  | .other v => .other v

/-- What a raw method throws, or its promise is rejected with. -/
structure Thrown where
  /-- `err && err.message`; empty if there is none. -/
  message : String
  /-- `String(err)`. -/
  text : String
  /-- `err && err.stack`. -/
  stack : Option String

/-- The `error` of a reply, and the `Error` that the worker makes of it. -/
structure RpcError where
  message : String
  stack : Option String

/-- `String((err && err.message) || err)`. -/
def Thrown.toError (e : Thrown) : RpcError :=
  ⟨if e.message = "" then e.text else e.message, e.stack⟩

/-! ### Messages -/

structure Request (V : Type) where
  id : Nat
  method : String
  args : List (Value V)

structure Reply (V : Type) where
  id : Nat
  /-- `ok` with the value, or the error. -/
  result : Except RpcError (Value V)

def RPC_METHODS : List String :=
  ["workerCreated", "sendTaskMessage", "recvTaskMessageInWorker"]

/-- The methods of the proxy in a worker; any other property is a function that throws. -/
def binding (prop : String) (arg : Value V) : Except String (String × List (Value V)) :=
  if prop ∈ RPC_METHODS then .ok (prop, [arg])
  else .error s!"[next-swc-wasi:worker] binding.{prop} is not bridged to pool workers"

/-- A raw method was called. -/
structure RawCall (ι V : Type) where
  worker : ι
  /-- The request for which `handleRpc` made the call. -/
  id : Nat
  method : String
  args : List (Value V)

/-- How a raw call ended. -/
structure Outcome (ι V : Type) where
  worker : ι
  id : Nat
  result : Except Thrown (Value V)

/-- A promise of `rpc` was settled. -/
structure Settled (ι V : Type) where
  worker : ι
  /-- Its number among the promises of the worker. -/
  promise : Nat
  result : Except RpcError (Value V)

/-! ### The state -/

structure State (ι V : Type) where
  /-- A number counts exactly up to 2^53, more requests than a worker can make. -/
  nextId : ι → Nat
  /-- The promise whose functions are kept under an id. -/
  pending : ι → Nat → Option Nat
  /-- The calls of `rpc` in a worker, in order: the promise `n` is that of call `n`. -/
  made : ι → List (String × List (Value V))
  settled : List (Settled ι V)
  /-- The messages to the main thread: `__nextSwcWasiRpc` of each, if it has one. -/
  requests : Lanes (ι × Option (Request V))
  /-- All raw calls, in order. -/
  calls : List (RawCall ι V)
  outcomes : List (Outcome ι V)
  /-- The `handleRpc` that wait for a raw call, with their `worker` and `id`. -/
  running : List (ι × Nat)
  /-- The messages to the workers: `__nextSwcWasiRpcReply` of each, if it has one. -/
  replies : Lanes (ι × Option (Reply V))

def State.init : State ι V where
  nextId _ := 1
  pending _ _ := none
  made _ := []
  settled := []
  requests := .empty
  calls := []
  outcomes := []
  running := []
  replies := .empty

variable [DecidableEq ι]

/-! ### The worker -/

/-- `rpc(method, args)` in a worker. -/
def State.rpc (s : State ι V) (w : ι) (method : String) (args : List (Value V)) : State ι V :=
  let id := s.nextId w
  { s with
    nextId := Function.update s.nextId w (id + 1)
    pending := Function.update s.pending w
      (Function.update (s.pending w) id (some (s.made w).length))
    made := Function.update s.made w (s.made w ++ [(method, args)])
    requests := s.requests.issue (w, some ⟨id, method, args.map Value.clone⟩) }

/-- The listener of `parentPort`. -/
def State.onReply (s : State ι V) (w : ι) : Option (Reply V) → State ι V
  | none => s
  | some reply =>
      match s.pending w reply.id with
      | none => s
      | some promise =>
          { s with
            pending := Function.update s.pending w
              (Function.update (s.pending w) reply.id none)
            settled := s.settled ++ [⟨w, promise, reply.result⟩] }

/-! ### The main thread -/

/-- `worker.postMessage({ __nextSwcWasiRpcReply: { id, … } })`. -/
def State.postReply (s : State ι V) (w : ι) (id : Nat) (result : Except RpcError (Value V)) :
    State ι V :=
  { s with replies := s.replies.issue (w, some ⟨id, result⟩) }

/-- The reply that tells how a raw call ended. -/
def replyOf : Except Thrown (Value V) → Except RpcError (Value V)
  | .ok value => .ok (toCloneable value).clone
  | .error e => .error e.toError

/-- The error of a method that is not bridged, with the stack that the engine gives it. -/
def notBridged (stackOf : String → String) (method : String) : Thrown :=
  let message := s!"binding method not bridged to pool workers: {method}"
  ⟨message, "Error: " ++ message, some (stackOf message)⟩

/-- `handleRpc` up to its `await`. The raw call may throw at once. -/
def State.handleRpc (stackOf : String → String) (s : State ι V) (w : ι) (r : Request V)
    (thrown : Option Thrown) : State ι V :=
  if r.method ∈ RPC_METHODS then
    let s : State ι V := { s with calls := s.calls ++ [⟨w, r.id, r.method, r.args.map toNapiArg⟩] }
    match thrown with
    | none => { s with running := s.running ++ [(w, r.id)] }
    | some e =>
        let s : State ι V := { s with outcomes := s.outcomes ++ [⟨w, r.id, .error e⟩] }
        s.postReply w r.id (replyOf (.error e))
  else s.postReply w r.id (.error (notBridged stackOf r.method).toError)

/-- The listener of a worker's messages. -/
def State.onRequest (stackOf : String → String) (s : State ι V) (w : ι) (thrown : Option Thrown) :
    Option (Request V) → State ι V
  | none => s
  | some r => s.handleRpc stackOf w r thrown

/-- `handleRpc` from its `await` on. -/
def State.resume (s : State ι V) (w : ι) (id : Nat) (o : Except Thrown (Value V)) : State ι V :=
  let s : State ι V :=
    { s with
      running := s.running.erase (w, id)
      outcomes := s.outcomes ++ [⟨w, id, o⟩] }
  s.postReply w id (replyOf o)

/-! ### Steps -/

inductive Act (ι V : Type)
  /-- A worker calls a function of its binding. -/
  | invoke (w : ι) (prop : String) (arg : Value V)
  /-- A worker calls `rpc` with any method. -/
  | call (w : ι) (method : String) (args : List (Value V))
  /-- A message that is no request, or no reply. -/
  | postOther (w : ι)
  | replyOther (w : ι)
  /-- The port of a worker delivers its next message, and the raw method may throw. -/
  | deliver (w : ι) (thrown : Option Thrown)
  /-- The promise of a raw call is settled. -/
  | settle (w : ι) (id : Nat) (o : Except Thrown (Value V))
  | receive (w : ι)

/-- The keys of the raw calls can be compared. -/
instance lawfulBEq_key : LawfulBEq (ι × Nat) := inferInstance

def next (stackOf : String → String) (s : State ι V) : Act ι V → Option (State ι V)
  | .invoke w prop arg =>
      match binding prop arg with
      | .ok (method, args) => some (s.rpc w method args)
      | .error _ => some s
  | .call w method args => some (s.rpc w method args)
  | .postOther w => some { s with requests := s.requests.issue (w, none) }
  | .replyOther w => some { s with replies := s.replies.issue (w, none) }
  | .deliver w thrown =>
      (s.requests.dispatch Prod.fst w).map fun x =>
        State.onRequest stackOf { s with requests := x.2 } w thrown x.1.2
  | .settle w id o => if (w, id) ∈ s.running then some (s.resume w id o) else none
  | .receive w =>
      (s.replies.dispatch Prod.fst w).map fun x => State.onReply { s with replies := x.2 } w x.1.2

/-- Any number of pool workers and the main thread. -/
def machine (stackOf : String → String) : Machine (State ι V) (Act ι V) where
  start s := s = .init
  next := next stackOf

end TurbopackWasi.Workers
