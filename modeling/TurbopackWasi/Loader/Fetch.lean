import TurbopackWasi.Lib.Machine
import TurbopackWasi.Lib.Promise

/-!
# TurbopackWasi.Loader.Fetch

The host fetch bridge: the handler that `loader.cjs` registers with
`initTurbopackFetchBridge`, and `fetchOnce`, which calls itself for every redirect.

A state lists the calls of `fetchOnce` that one call of the handler has led to, in the
order they were made. Their requests are answered in any way and at any time: an event
names the call whose request or response emits it. Next to what the code keeps of a call
(its promise, its `chunks`) stands its `Exchange`: what the server did.
-/

namespace TurbopackWasi.Loader

open Lib

namespace Fetch

/-! ### The client -/

/-- What is read of a `URL`. -/
structure Url where
  protocol : String
  hostname : String
  port : String
  pathname : String
  search : String
  deriving DecidableEq

/-- The options of `mod.request`. -/
structure Options where
  /-- The module: `http`, or `https`. -/
  http : Bool
  protocol : String
  hostname : String
  port : Option String
  path : String
  userAgent : Option String
  deriving DecidableEq

/-- The parts of Node that the bridge calls. -/
structure Client where
  /-- `new URL(url)`; `none` if it throws. -/
  parse : String → Option Url
  /-- `new URL(location, url).toString()`; `none` if it throws. -/
  resolve : String → String → Option String
  /-- `mod.request(options)` does not throw. -/
  accepts : Options → Bool

/-- A string, unless it is falsy. -/
def truthy (s : Option String) : Option String := s.filter (· ≠ "")

def Url.options (u : Url) (userAgent : Option String) : Options where
  http := u.protocol = "http:"
  protocol := u.protocol
  hostname := u.hostname
  port := truthy (some u.port)
  path := u.pathname ++ u.search
  userAgent := truthy userAgent

/-! ### Requests and responses -/

/-- Where a rejection comes from. -/
inductive Failure
  | conversion
  /-- `new URL` of this text. -/
  | url (url : String)
  /-- `mod.request` with these options. -/
  | options (o : Options)
  /-- The `error` event of the request. -/
  | request
  /-- The `error` event of the response. -/
  | response
  deriving DecidableEq

abbrev Chunk := List UInt8

/-- The head of a response. -/
structure Reply where
  statusCode : Option Nat
  location : Option String
  deriving DecidableEq

def Reply.status (r : Reply) : Nat := r.statusCode.getD 0

/-- `{ status, body }`. -/
structure Response where
  status : Nat
  body : Chunk
  deriving DecidableEq

/-- The `Location` of a redirect that is followed. -/
def Reply.redirect (r : Reply) (redirectsLeft : Nat) : Option String :=
  if 300 ≤ r.status ∧ r.status < 400 ∧ 0 < redirectsLeft then truthy r.location else none

/-- What the server of a request did so far. -/
structure Exchange where
  reply : Option Reply
  sent : List Chunk
  /-- The response has ended or the request has closed without one, or the first error. -/
  closed : Option (Option Failure)
  deriving DecidableEq

/-- One call of `fetchOnce`. -/
structure Call where
  url : String
  redirectsLeft : Nat
  promise : Promise Failure Response
  /-- `chunks`, once the callback has come to collect the response. -/
  chunks : Option (List Chunk)
  /-- The request, or why none was issued. -/
  exchange : Except Failure Exchange

structure State where
  calls : List Call
  userAgent : Option String
  /-- An exception has left a callback for the event loop. -/
  escaped : Bool

/-! ### loader.cjs -/

/-- `fetchOnce(url, userAgent, redirectsLeft)` up to the end of its executor; what the executor
throws rejects the promise. -/
def fetchOnce (c : Client) (url : String) (userAgent : Option String) (redirectsLeft : Nat) :
    Call :=
  match c.parse url with
  | none => ⟨url, redirectsLeft, .rejected (.url url), none, .error (.url url)⟩
  | some u =>
      let o := u.options userAgent
      if c.accepts o then ⟨url, redirectsLeft, .pending, none, .ok ⟨none, [], none⟩⟩
      else ⟨url, redirectsLeft, .rejected (.options o), none, .error (.options o)⟩

/-- The registered handler. -/
def handler (c : Client) (conversionError : Bool) (url : String) (userAgent : Option String) :
    State :=
  if conversionError then
    ⟨[⟨url, 5, .rejected .conversion, none, .error .conversion⟩], userAgent, false⟩
  else ⟨[fetchOnce c url userAgent 5], userAgent, false⟩

/-- The callback of the response. -/
def onResponse (c : Client) (s : State) (i : Nat) (x : Call) (r : Reply) : State :=
  match r.redirect x.redirectsLeft with
  | some location =>
      match c.resolve location x.url with
      | some url =>
          { s with
            calls := s.calls.set i { x with promise := x.promise.settle .locked } ++
              [fetchOnce c url s.userAgent (x.redirectsLeft - 1)] }
      -- the callback runs outside the executor: nothing rejects the promise
      | none => { s with calls := s.calls.set i x, escaped := true }
  | none => { s with calls := s.calls.set i { x with chunks := some [] } }

/-- `res.on('data')`. -/
def Call.onData (x : Call) (chunk : Chunk) : Call :=
  { x with chunks := x.chunks.map (· ++ [chunk]) }

/-- `res.on('end')`. -/
def Call.onEnd (x : Call) (r : Reply) : Call :=
  match x.chunks with
  | some chunks => { x with promise := x.promise.settle (.fulfilled ⟨r.status, chunks.flatten⟩) }
  | none => x

/-- `res.on('error')`; without a listener the response swallows the error. -/
def Call.onResponseError (x : Call) : Call :=
  match x.chunks with
  | some _ => { x with promise := x.promise.settle (.rejected .response) }
  | none => x

/-- `req.on('error')`. -/
def Call.onRequestError (x : Call) : Call :=
  { x with promise := x.promise.settle (.rejected .request) }

/-! ### Steps -/

inductive Event
  | response (r : Reply)
  | data (chunk : Chunk)
  | finish
  | responseError
  | requestError
  /-- A 101: nobody listens for the protocol, and all that the request emits is `close`. -/
  | upgrade
  deriving DecidableEq

/-- The first end or error closes the exchange. -/
def Exchange.close (e : Exchange) (how : Option Failure) : Exchange :=
  { e with closed := e.closed.or (some how) }

/-- An event of a request. A response comes once, before the request has closed, and its body
between the two; an error may be emitted at any time, unless the request has closed without a
response. -/
def step (c : Client) (s : State) (i : Nat) (x : Call) (e : Exchange) : Event → Option State
  | .response r =>
      if e.reply = none ∧ e.closed = none then
        some (onResponse c s i { x with exchange := .ok { e with reply := some r } } r)
      else none
  | .data chunk =>
      if e.reply.isSome ∧ e.closed = none then
        let x := { x with exchange := .ok { e with sent := e.sent ++ [chunk] } }
        some { s with calls := s.calls.set i (x.onData chunk) }
      else none
  | .finish =>
      match e.reply, e.closed with
      | some r, none =>
          let x := { x with exchange := .ok (e.close none) }
          some { s with calls := s.calls.set i (x.onEnd r) }
      | _, _ => none
  | .responseError =>
      if e.reply.isSome then
        let x := { x with exchange := .ok (e.close (some .response)) }
        some { s with calls := s.calls.set i x.onResponseError }
      else none
  | .requestError =>
      if e.closed = some none ∧ e.reply = none then none
      else
        let x := { x with exchange := .ok (e.close (some .request)) }
        some { s with calls := s.calls.set i x.onRequestError }
  | .upgrade =>
      if e.reply = none ∧ e.closed = none then
        some { s with calls := s.calls.set i { x with exchange := .ok (e.close none) } }
      else none

def next (c : Client) (s : State) (a : Nat × Event) : Option State :=
  match s.calls[a.1]? with
  | some x =>
      match x.exchange with
      | .ok e => step c s a.1 x e a.2
      | .error _ => none
  | none => none

def machine (c : Client) : Machine State (Nat × Event) where
  start s := ∃ conversionError url userAgent, s = handler c conversionError url userAgent
  next := next c

/-- The promise that the handler has returned. -/
def State.outcome (s : State) : Option (Except Failure Response) :=
  Promise.outcome (s.calls.map Call.promise)

/-- The requests issued. -/
def State.requests (s : State) : Nat := s.calls.countP (·.exchange.isOk)

end Fetch

end TurbopackWasi.Loader
