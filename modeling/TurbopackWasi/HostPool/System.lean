import TurbopackWasi.HostPool.Session
import TurbopackWasi.Lib.Lanes
import TurbopackWasi.Lib.Machine

/-!
# TurbopackWasi.HostPool.System

The process bridge as a machine: the guest's operations on commands, children, listeners
and streams, the four threadsafe functions between the two sides, and the events of the
host's child processes and sockets, in any order.

The guest calls the host through `spawn`, `write`, `action` and `listen`, each a queue of
its own (`Lane`). The host calls the guest at once: it pushes bytes, reports exits and
accepts connections.

A connection and each of the two streams of a child have the number of their channel; a
child has that of its `stdout`, and `stderr` is the next. `issued`, `executed`, `sources`
and `filled` are records of what happened, not part of the program.
-/

namespace TurbopackWasi.HostPool

open TurbopackWasi.Lib

/-! ### The calls into the host -/

inductive Call
  /-- With the number of the child. -/
  | spawn (n : Nat) (req : SpawnReq)
  | write (id : Id) (bytes : Chunk)
  | kill (id : Id)
  | closeWrite (id : Id)
  | dropConn (id : Id)
  | closeListener (id : Id)
  | listen (id : Id)

/-- The threadsafe functions. -/
inductive Lane
  | spawn
  | write
  | action
  | listen
  deriving DecidableEq, Repr

def Call.lane : Call → Lane
  | .spawn _ _ => .spawn
  | .write _ _ => .write
  | .kill _ | .closeWrite _ | .dropConn _ | .closeListener _ => .action
  | .listen _ => .listen

/-- What a call concerns. -/
inductive Target
  | proc (id : Id)
  | conn (id : Id)
  | listener (id : Id)
  deriving DecidableEq, Repr

def Call.target : Call → Target
  | .spawn _ req => .proc req.procId
  | .kill id => .proc id
  | .write id _ | .closeWrite id | .dropConn id => .conn id
  | .closeListener id | .listen id => .listener id

/-! ### The state -/

structure Child where
  procId : Id
  killed : Bool

structure TcpStream where
  connId : Id
  writeClosed : Bool

/-- The guest's counter, its `LISTENERS`, and the values that its threads own. -/
structure Guest where
  /-- `NEXT_ID`. -/
  nextId : Id
  children : Nat → Option Child
  listeners : Id → Option Nat
  /-- The `TcpListener`s. -/
  bound : Nat → Option Id
  /-- Accepted connections that a listener has not handed out. -/
  backlog : Nat → List (Id × Nat)
  conns : Nat → Option TcpStream
  /-- A `ByteRx` was made of the receiver. -/
  opened : Nat → Bool

structure Socket where
  connId : Int
  /-- The chunks passed to `write`. -/
  written : List Chunk
  /-- `end` was called. -/
  ended : Bool
  /-- `destroy` was called on behalf of the guest. -/
  dropped : Bool
  destroyed : Bool

structure Host where
  nextConnId : Int
  sessions : Nat → Option Session
  /-- The children that were sent a `SIGKILL`. -/
  killed : Nat → Bool
  conns : Int → Option Nat
  sockets : Nat → Option Socket
  servers : Id → Bool

/-- A byte stream as its producer sees it: the chunks delivered, until it closes. -/
structure Source where
  id : Id
  own : List Chunk
  live : Bool

structure State where
  guest : Guest
  tables : Tables
  calls : Lanes Call
  host : Host
  /-- The number of ids taken from the counter. -/
  allocated : Nat
  sources : Nat → Option Source
  /-- The bytes that the reads of a channel returned. -/
  filled : Nat → Chunk

def Guest.init : Guest where
  nextId := 1
  children _ := none
  listeners _ := none
  bound _ := none
  backlog _ := []
  conns _ := none
  opened _ := false

def Host.init : Host where
  nextConnId := 0xffffffff
  sessions _ := none
  killed _ := false
  conns _ := none
  sockets _ := none
  servers _ := false

def State.init : State where
  guest := .init
  tables := .empty
  calls := .empty
  host := .init
  allocated := 0
  sources _ := none
  filled _ := []

def State.issue (s : State) (c : Call) : State := { s with calls := s.calls.issue c }

section Issue

variable (s : State) (c : Call)

@[simp] theorem State.issue_guest : (s.issue c).guest = s.guest := rfl
@[simp] theorem State.issue_tables : (s.issue c).tables = s.tables := rfl
@[simp] theorem State.issue_calls : (s.issue c).calls = s.calls.issue c := rfl
@[simp] theorem State.issue_host : (s.issue c).host = s.host := rfl
@[simp] theorem State.issue_allocated : (s.issue c).allocated = s.allocated := rfl
@[simp] theorem State.issue_sources : (s.issue c).sources = s.sources := rfl
@[simp] theorem State.issue_filled : (s.issue c).filled = s.filled := rfl

end Issue

/-! ### The guest's operations -/

def State.spawn (s : State) (cmd : Command) : State :=
  let procId := s.guest.nextId
  let n := s.tables.reg.made
  State.issue
    { s with
      guest := { s.guest with
        nextId := s.guest.nextId + 3
        children := Function.update s.guest.children n (some ⟨procId, false⟩)
        opened := Function.update (Function.update s.guest.opened n true) (n + 1) true }
      tables := s.tables.spawn procId
      allocated := s.allocated + 3 }
    (.spawn n (cmd.req procId))

def State.startKill (s : State) (n : Nat) : Option State :=
  (s.guest.children n).map fun child =>
    if child.killed then s
    else
      State.issue
        { s with guest := { s.guest with
            children := Function.update s.guest.children n (some { child with killed := true }) } }
        (.kill child.procId)

/-- `Drop for Child`. -/
def State.dropChild (s : State) (n : Nat) : Option State :=
  (s.guest.children n).map fun child =>
    let s' : State := { s with
      guest := { s.guest with children := Function.update s.guest.children n none }
      tables := { s.tables with procs := Function.update s.tables.procs child.procId none } }
    if (s.tables.exits n).isNone && !child.killed then s'.issue (.kill child.procId) else s'

/-- `TcpListener::bind`. -/
def State.bind (s : State) : State :=
  State.issue
    { s with
      guest := { s.guest with
        nextId := s.guest.nextId + 1
        listeners := Function.update s.guest.listeners s.guest.nextId (some s.allocated)
        bound := Function.update s.guest.bound s.allocated (some s.guest.nextId) }
      allocated := s.allocated + 1 }
    (.listen s.guest.nextId)

/-- `TcpListener::accept`. -/
def State.accept (s : State) (l : Nat) : Option State :=
  match s.guest.bound l, s.guest.backlog l with
  | some _, (id, n) :: rest =>
      some { s with guest := { s.guest with
        backlog := Function.update s.guest.backlog l rest
        conns := Function.update s.guest.conns n (some ⟨id, false⟩)
        opened := Function.update s.guest.opened n true } }
  | _, _ => none

/-- The receivers of connections that nobody will accept are dropped. -/
def Registry.dropReaders (r : Registry) (ns : List Nat) : Registry := ns.foldl Registry.dropReader r

theorem Registry.dropReaders_made (ns : List Nat) :
    ∀ r : Registry, (r.dropReaders ns).made = r.made := by
  induction ns with
  | nil => exact fun r => rfl
  | cons n ns ih => exact fun r => ih (r.dropReader n)

/-- `Drop for TcpListener`. -/
def State.dropListener (s : State) (l : Nat) : Option State :=
  (s.guest.bound l).map fun id =>
    State.issue
      { s with
        guest := { s.guest with
          listeners := Function.update s.guest.listeners id none
          bound := Function.update s.guest.bound l none
          backlog := Function.update s.guest.backlog l [] }
        tables := { s.tables with
          reg := s.tables.reg.dropReaders ((s.guest.backlog l).map Prod.snd) } }
      (.closeListener id)

/-- A poll of a `ByteRx`, with the bytes it returns. -/
def State.read (s : State) (n remaining : Nat) : Option (Option Chunk × State) :=
  if s.guest.opened n then
    (s.tables.reg.pollRead n remaining).map fun r =>
      (r.1, { s with
        tables := { s.tables with reg := r.2 }
        filled := Function.update s.filled n (s.filled n ++ r.1.getD []) })
  else none

/-- A child's stream is dropped. -/
def State.dropReader (s : State) (n : Nat) : Option State :=
  if s.guest.opened n ∧ (s.guest.conns n).isNone then
    some { s with tables := { s.tables with reg := s.tables.reg.dropReader n } }
  else none

/-- `poll_write`, which is always ready. -/
def State.write (s : State) (n : Nat) (bytes : Chunk) : Option State :=
  (s.guest.conns n).map fun stream => s.issue (.write stream.connId bytes)

/-- `poll_shutdown`. -/
def State.shutdown (s : State) (n : Nat) : Option State :=
  (s.guest.conns n).map fun stream =>
    if stream.writeClosed then s
    else
      State.issue
        { s with guest := { s.guest with
            conns := Function.update s.guest.conns n (some { stream with writeClosed := true }) } }
        (.closeWrite stream.connId)

/-- `Drop for TcpStream`. -/
def State.dropStream (s : State) (n : Nat) : Option State :=
  (s.guest.conns n).map fun stream =>
    State.issue
      { s with
        guest := { s.guest with conns := Function.update s.guest.conns n none }
        tables := { s.tables with
          reg := (s.tables.reg.remove stream.connId).dropReader n } }
      (.dropConn stream.connId)

/-! ### The host's callbacks -/

/-- The new streams of a session, and what they have delivered at once. -/
def State.openSources (s : State) (n : Nat) (req : SpawnReq) (err : List Chunk) (live : Bool) :
    State :=
  let sources := Function.update s.sources n (some ⟨req.stdoutId, [], live⟩)
  { s with sources := Function.update sources (n + 1) (some ⟨req.stderrId, err, live⟩) }

def State.onSpawn (N : Napi) (s : State) (n : Nat) (req : SpawnReq) (o : CpSpawn) : State :=
  let r := HostPool.onSpawn N n req o
  let s' : State := { s with
    tables := s.tables.applyAll r.2
    host := { s.host with sessions := Function.update s.host.sessions n r.1 } }
  if req.converts N then
    match o with
    | .throws message => s'.openSources n req [failure message] false
    | .noStdio => s'
    | .child => s'.openSources n req [] true
  else s'

def Host.setSocket (h : Host) (n : Nat) (sk : Socket) : Host :=
  { h with sockets := Function.update h.sockets n (some sk) }

/-- The socket under an id, with its number. -/
def Host.lookup (h : Host) (id : Id) : Option (Nat × Socket) :=
  (h.conns id.toNat).bind fun n => (h.sockets n).map fun sk => (n, sk)

def Host.onWrite (h : Host) (id : Id) (bytes : Chunk) : Host :=
  match h.lookup id with
  | some (n, sk) =>
      if sk.destroyed then h else h.setSocket n { sk with written := sk.written ++ [bytes] }
  | none => h

def Host.onCloseWrite (h : Host) (id : Id) : Host :=
  match h.lookup id with
  | some (n, sk) => if sk.destroyed then h else h.setSocket n { sk with ended := true }
  | none => h

def Host.onDropConn (h : Host) (id : Id) : Host :=
  let h' := { h with conns := Function.update h.conns id.toNat none }
  match h.lookup id with
  | some (n, sk) =>
      if sk.destroyed then h'
      else h'.setSocket n { sk with dropped := true, destroyed := true }
  | none => h'

/-- The effect of a call on the host, apart from `spawn`. -/
def Host.onCall (h : Host) (children : Id → Option Nat) : Call → Host
  | .spawn _ _ => h
  | .write id bytes => h.onWrite id bytes
  | .kill id =>
    match children id with
    | some n => { h with killed := Function.update h.killed n true }
    | none => h
  | .closeWrite id => h.onCloseWrite id
  | .dropConn id => h.onDropConn id
  | .closeListener id => { h with servers := Function.update h.servers id false }
  | .listen id => { h with servers := Function.update h.servers id true }

/-- The host takes the next call of a threadsafe function. -/
def State.dispatch (N : Napi) (s : State) (l : Lane) (o : CpSpawn) : Option State :=
  (s.calls.dispatch Call.lane l).map fun r =>
    let s : State := { s with calls := r.2 }
    match r.1 with
    | .spawn n req => s.onSpawn N n req o
    | c => { s with host := s.host.onCall s.tables.children c }

/-! ### The host's events -/

/-- The stream of a child that an emission goes to. -/
def Emission.stream (n : Nat) : Emission → Nat
  | .stdout _ => n
  | .stderr _ | .error _ => n + 1

def Emission.chunk : Emission → Chunk
  | .stdout bytes | .stderr bytes => bytes
  | .error message => failure message

/-- A stream delivers a chunk. -/
def State.deliver (s : State) (n : Nat) (bytes : Chunk) : State :=
  let source := (s.sources n).map fun src => { src with own := src.own ++ [bytes] }
  { s with sources := Function.update s.sources n source }

/-- A stream closes. -/
def State.finish (s : State) (n : Nat) : State :=
  let source := (s.sources n).map fun src => { src with live := false }
  { s with sources := Function.update s.sources n source }

def State.emit (s : State) (n : Nat) (e : Emission) : Option State :=
  match s.host.sessions n with
  | some session =>
      if session.exited then none
      else
        some ({ s with tables := s.tables.apply (session.onEmission e) }.deliver
          (e.stream n) e.chunk)
  | none => none

def State.close (s : State) (n : Nat) (code : Option (BitVec 32)) (signal : Bool) :
    Option State :=
  match s.host.sessions n with
  | some session =>
      if session.exited then none
      else
        let r := session.onClose code signal
        let s' : State := { s with
          tables := s.tables.applyAll r.2
          host := { s.host with sessions := Function.update s.host.sessions n (some r.1) } }
        some ((s'.finish n).finish (n + 1))
  | none => none

/-- `turbopack_pool_accept`. -/
def State.poolAccept (s : State) (listenerId connId : Id) : State :=
  let n := s.tables.reg.made
  let reg := s.tables.reg.insert connId
  match s.guest.listeners listenerId with
  | some l =>
    match s.guest.bound l with
    | some _ =>
        { s with
          guest := { s.guest with
            backlog := Function.update s.guest.backlog l (s.guest.backlog l ++ [(connId, n)]) }
          tables := { s.tables with reg := reg } }
    | none => { s with tables := { s.tables with reg := reg.dropReader n } }
  | none =>
      State.issue { s with tables := { s.tables with reg := (reg.dropReader n).remove connId } }
        (.dropConn connId)

/-- A socket, with nothing written to it. -/
def Socket.new (connId : Int) : Socket := ⟨connId, [], false, false, false⟩

/-- The host numbers a new socket. -/
def Host.connect (h : Host) (n : Nat) : Host :=
  { h with
    nextConnId := h.nextConnId - 1
    conns := Function.update h.conns h.nextConnId (some n)
    sockets := Function.update h.sockets n (some (.new h.nextConnId)) }

/-- A connection arrives at a listening server. -/
def State.connect (s : State) (listenerId : Id) : Option State :=
  if s.host.servers listenerId then
    let n := s.tables.reg.made
    let connId : Id := .ofInt 32 s.host.nextConnId
    some (State.poolAccept
      { s with
        host := s.host.connect n
        sources := Function.update s.sources n (some ⟨connId, [], true⟩) }
      listenerId connId)
  else none

def State.live (s : State) (n : Nat) : Bool := (s.sources n).any Source.live

/-- A socket receives data. -/
def State.data (s : State) (n : Nat) (bytes : Chunk) : Option State :=
  match s.host.sockets n with
  | some sk =>
      if s.live n && !sk.destroyed then
        some ({ s with tables := s.tables.apply (.push (.ofInt 32 sk.connId) (some bytes)) }.deliver
          n bytes)
      else none
  | none => none

/-- A socket breaks; its `close` follows. -/
def State.destroy (s : State) (n : Nat) : Option State :=
  (s.host.sockets n).map fun sk =>
    { s with host := s.host.setSocket n { sk with destroyed := true } }

/-- A socket emits `close`. -/
def State.sockClose (s : State) (n : Nat) : Option State :=
  match s.host.sockets n with
  | some sk =>
      if s.live n then
        some (State.finish
          { s with
            tables := s.tables.apply (.push (.ofInt 32 sk.connId) none)
            host := { s.host.setSocket n { sk with destroyed := true } with
              conns := Function.update s.host.conns sk.connId none } }
          n)
      else none
  | none => none

/-! ### The machine -/

inductive Act
  | spawn (cmd : Command)
  | startKill (n : Nat)
  | dropChild (n : Nat)
  | bind
  | accept (l : Nat)
  | dropListener (l : Nat)
  | read (n remaining : Nat)
  | dropReader (n : Nat)
  | write (n : Nat) (bytes : Chunk)
  | shutdown (n : Nat)
  | dropStream (n : Nat)
  | dispatch (l : Lane) (o : CpSpawn)
  | emit (n : Nat) (e : Emission)
  | close (n : Nat) (code : Option (BitVec 32)) (signal : Bool)
  | connect (listenerId : Id)
  | data (n : Nat) (bytes : Chunk)
  | destroy (n : Nat)
  | sockClose (n : Nat)

def next (N : Napi) (s : State) : Act → Option State
  | .spawn cmd => some (s.spawn cmd)
  | .startKill n => s.startKill n
  | .dropChild n => s.dropChild n
  | .bind => some s.bind
  | .accept l => s.accept l
  | .dropListener l => s.dropListener l
  | .read n remaining => (s.read n remaining).map Prod.snd
  | .dropReader n => s.dropReader n
  | .write n bytes => s.write n bytes
  | .shutdown n => s.shutdown n
  | .dropStream n => s.dropStream n
  | .dispatch l o => s.dispatch N l o
  | .emit n e => s.emit n e
  | .close n code signal => s.close n code signal
  | .connect listenerId => s.connect listenerId
  | .data n bytes => s.data n bytes
  | .destroy n => s.destroy n
  | .sockClose n => s.sockClose n

def bridge (N : Napi) : Machine State Act := ⟨(· = State.init), next N⟩

/-! ### What a step does -/

section Steps

variable {s s' : State} {n : Nat}

theorem State.accept_eq_some {l : Nat} (h : s.accept l = some s') :
    ∃ lid id n rest, s.guest.bound l = some lid ∧ s.guest.backlog l = (id, n) :: rest ∧
      s' = { s with guest := { s.guest with
        backlog := Function.update s.guest.backlog l rest
        conns := Function.update s.guest.conns n (some ⟨id, false⟩)
        opened := Function.update s.guest.opened n true } } := by
  unfold State.accept at h
  split at h
  · next lid id n rest hbound hbacklog =>
      exact ⟨lid, id, n, rest, hbound, hbacklog, (Option.some.inj h).symm⟩
  · cases h

theorem State.read_eq_some {remaining : Nat} {r : Option Chunk × State}
    (h : s.read n remaining = some r) :
    s.guest.opened n = true ∧ ∃ p, s.tables.reg.pollRead n remaining = some p ∧
      r = (p.1, { s with
        tables := { s.tables with reg := p.2 }
        filled := Function.update s.filled n (s.filled n ++ p.1.getD []) }) := by
  unfold State.read at h
  split at h
  · next hopened =>
      obtain ⟨p, hp, rfl⟩ := Option.map_eq_some_iff.mp h
      exact ⟨hopened, p, hp, rfl⟩
  · cases h

theorem State.dropReader_eq_some (h : s.dropReader n = some s') :
    s.guest.opened n = true ∧ s.guest.conns n = none ∧
      s' = { s with tables := { s.tables with reg := s.tables.reg.dropReader n } } := by
  unfold State.dropReader at h
  split at h
  · next hn => exact ⟨hn.1, Option.isNone_iff_eq_none.mp hn.2, (Option.some.inj h).symm⟩
  · cases h

theorem State.emit_eq_some {e : Emission} (h : s.emit n e = some s') :
    ∃ session, s.host.sessions n = some session ∧ session.exited = false ∧
      s' = State.deliver { s with tables := s.tables.apply (session.onEmission e) }
        (e.stream n) e.chunk := by
  unfold State.emit at h
  split at h
  · next session hn =>
      split at h
      · cases h
      · next hopen => exact ⟨session, hn, by simpa using hopen, (Option.some.inj h).symm⟩
  · cases h

theorem State.close_eq_some {code : Option (BitVec 32)} {signal : Bool}
    (h : s.close n code signal = some s') :
    ∃ session, s.host.sessions n = some session ∧ session.exited = false ∧
      s' = State.finish (State.finish { s with
        tables := s.tables.applyAll (session.onClose code signal).2
        host := { s.host with
          sessions := Function.update s.host.sessions n
            (some (session.onClose code signal).1) } } n) (n + 1) := by
  unfold State.close at h
  split at h
  · next session hn =>
      split at h
      · cases h
      · next hopen => exact ⟨session, hn, by simpa using hopen, (Option.some.inj h).symm⟩
  · cases h

theorem State.connect_eq_some {listenerId : Id} (h : s.connect listenerId = some s') :
    s.host.servers listenerId = true ∧
      s' = State.poolAccept { s with
        host := s.host.connect s.tables.reg.made
        sources := Function.update s.sources s.tables.reg.made
          (some ⟨.ofInt 32 s.host.nextConnId, [], true⟩) }
        listenerId (.ofInt 32 s.host.nextConnId) := by
  unfold State.connect at h
  split at h
  · next hserver => exact ⟨hserver, (Option.some.inj h).symm⟩
  · cases h

theorem State.data_eq_some {bytes : Chunk} (h : s.data n bytes = some s') :
    ∃ sk, s.host.sockets n = some sk ∧ s.live n = true ∧ sk.destroyed = false ∧
      s' = State.deliver
        { s with tables := s.tables.apply (.push (.ofInt 32 sk.connId) (some bytes)) } n bytes := by
  unfold State.data at h
  split at h
  · next sk hn =>
      split at h
      · next hopen =>
          obtain ⟨hlive, hok⟩ := Bool.and_eq_true_iff.mp hopen
          exact ⟨sk, hn, hlive, by simpa using hok, (Option.some.inj h).symm⟩
      · cases h
  · cases h

theorem State.sockClose_eq_some (h : s.sockClose n = some s') :
    ∃ sk, s.host.sockets n = some sk ∧ s.live n = true ∧
      s' = State.finish { s with
        tables := s.tables.apply (.push (.ofInt 32 sk.connId) none)
        host := { s.host.setSocket n { sk with destroyed := true } with
          conns := Function.update s.host.conns sk.connId none } } n := by
  unfold State.sockClose at h
  split at h
  · next sk hn =>
      split at h
      · next hlive => exact ⟨sk, hn, hlive, (Option.some.inj h).symm⟩
      · cases h
  · cases h

end Steps

/-- The number of connections so far. -/
def State.accepted (s : State) : Int := 0xffffffff - s.host.nextConnId

/-- The ids have not met: the guest's count up from 1, the host's count down from the top. -/
def State.Room (s : State) : Prop := s.allocated + s.accepted < 2 ^ 32

end TurbopackWasi.HostPool
