import TurbopackWasi.HostPool.Streams

/-!
# TurbopackWasi.HostPool.Session

One bridged child process: `Command::spawn`, the host's `spawn` callback, and what the
host does on the events of the child.

The host side is written as the list of its effects, in the order in which it causes
them: the calls into the guest (`push`, `procExit`) and the changes of its own map
`procs`. `Tables.apply` carries them out.
-/

namespace TurbopackWasi.HostPool

/-! ### The request -/

structure Command where
  program : String
  args : List String
  cwd : String
  env : List (String × String)

structure SpawnReq where
  procId : Id
  stdoutId : Id
  stderrId : Id
  program : String
  args : List String
  cwd : String
  env : List (String × String)

/-- Which strings Node-API takes: as a string value, and as the name of a property,
which must not contain a NUL. -/
structure Napi where
  createString : String → Bool
  propertyName : String → Bool

/-- The conversion of the request for the callback succeeds. -/
def SpawnReq.converts (N : Napi) (req : SpawnReq) : Bool :=
  N.createString req.program && req.args.all N.createString && N.createString req.cwd &&
    req.env.all fun kv => N.createString kv.2 && N.propertyName kv.1

/-! ### The two sides' tables -/

structure Tables where
  reg : Registry
  /-- `PROCS`: the exit state kept under an id. -/
  procs : Id → Option Nat
  /-- The codes of the exit states. -/
  exits : Nat → Option (BitVec 32)
  /-- The host's `procs`: the child process under an id. -/
  children : Id → Option Nat

def Tables.empty : Tables := ⟨.empty, fun _ => none, fun _ => none, fun _ => none⟩

/-- `Command::spawn` up to the call of the bridge, with `procId` taken from the counter.
The exit state has the number of the first channel. -/
def Tables.spawn (T : Tables) (procId : Id) : Tables :=
  { T with
    reg := (T.reg.insert (procId + 1)).insert (procId + 2)
    procs := Function.update T.procs procId (some T.reg.made)
    exits := Function.update T.exits T.reg.made none }

/-- The request that `Command::spawn` hands to the bridge. -/
def Command.req (cmd : Command) (procId : Id) : SpawnReq :=
  ⟨procId, procId + 1, procId + 2, cmd.program, cmd.args, cmd.cwd, cmd.env⟩

/-- `Child::wait`: it returns once the exit state has a code. -/
def Tables.wait (T : Tables) (n : Nat) : Option (BitVec 32) := T.exits n

/-! ### The host -/

inductive Effect
  | push (id : Id) (data : Option Chunk)
  | setChild (procId : Id) (n : Nat)
  | deleteChild (procId : Id)
  | procExit (procId : Id) (code : BitVec 32)
  deriving DecidableEq, Repr

def Tables.apply (T : Tables) : Effect → Tables
  | .push id data => { T with reg := T.reg.pushBytes id data }
  | .setChild id n => { T with children := Function.update T.children id (some n) }
  | .deleteChild id => { T with children := Function.update T.children id none }
  | .procExit id code =>
    match T.procs id with
    | some n => { T with exits := Function.update T.exits n (some code) }
    | none => T

def Tables.applyAll (T : Tables) (es : List Effect) : Tables := es.foldl Tables.apply T

/-- What the callback of one spawn closes over. -/
structure Session where
  req : SpawnReq
  exited : Bool

/-- `exit`: both streams end, then the code is reported; only once. -/
def Session.exit (s : Session) (code : BitVec 32) : Session × List Effect :=
  if s.exited then (s, [])
  else
    ({ s with exited := true },
      [.push s.req.stdoutId none, .push s.req.stderrId none, .deleteChild s.req.procId,
        .procExit s.req.procId code])

/-- The text that stands for a failure on the stream of `stderr`. -/
def failure (message : String) : Chunk :=
  ("spawn failed: " ++ message ++ "\n").toUTF8.data.toList

/-- What `cp.spawn` does. -/
inductive CpSpawn
  | throws (message : String)
  /-- Out of file descriptors, it returns a child without `stdout` and `stderr`. -/
  | noStdio
  | child

/-- The `spawn` callback: the session that the events of the child go to, if there is
one. A request whose conversion failed is not looked at, and without streams
`child.stdout.on` throws before there is a listener. -/
def onSpawn (N : Napi) (n : Nat) (req : SpawnReq) (o : CpSpawn) : Option Session × List Effect :=
  if !req.converts N then (none, [])
  else
    match o with
    | .throws message =>
        (none, .push req.stderrId (some (failure message)) :: (Session.exit ⟨req, false⟩ 127).2)
    | .noStdio => (none, [.setChild req.procId n])
    | .child => (some ⟨req, false⟩, [.setChild req.procId n])

/-- What a child emits before `close`. -/
inductive Emission
  | stdout (bytes : Chunk)
  | stderr (bytes : Chunk)
  | error (message : String)

def Session.onEmission (s : Session) : Emission → Effect
  | .stdout bytes => .push s.req.stdoutId (some bytes)
  | .stderr bytes => .push s.req.stderrId (some bytes)
  | .error message => .push s.req.stderrId (some (failure message))

/-- The chunk of the emission on `stdout`, and on `stderr`. -/
def Emission.onStdout : Emission → Option Chunk
  | .stdout bytes => some bytes
  | _ => none

def Emission.onStderr : Emission → Option Chunk
  | .stdout _ => none
  | .stderr bytes => some bytes
  | .error message => some (failure message)

/-- The code reported for `close`, whose own code is absent after a signal and where
there was no process. -/
def exitCode (code : Option (BitVec 32)) (signal : Bool) : BitVec 32 :=
  match code with
  | some code => code
  | none => if signal then 137 else 127

def Session.onClose (s : Session) (code : Option (BitVec 32)) (signal : Bool) :
    Session × List Effect :=
  s.exit (exitCode code signal)

end TurbopackWasi.HostPool
