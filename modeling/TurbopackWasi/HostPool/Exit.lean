import TurbopackWasi.HostPool.Session

/-!
# TurbopackWasi.HostPool.Exit

**The exit of a bridged child is reported once, after its output**, however the child
comes to its end: `reportsExit_iff`. There are two exceptions, although the bridge promises
an exit event for every failure, and `Child::wait` never returns then (`nulName_waits`): a
request whose conversion for the callback fails, since the callback returns at once, and a
child without streams, since the callback throws before it listens to the child.
-/

namespace TurbopackWasi.HostPool

/-! ### The behaviours of the host -/

/-- `cp.spawn` throws, there is a child without streams, or there is a child with its
emissions and then `close`. -/
inductive Behaviour
  | throws (message : String)
  | noStdio
  | runs (events : List Emission) (code : Option (BitVec 32)) (signal : Bool)

/-- Everything the host does for one request. -/
def Behaviour.effects (N : Napi) (n : Nat) (req : SpawnReq) : Behaviour → List Effect
  | .throws message => (onSpawn N n req (.throws message)).2
  | .noStdio => (onSpawn N n req .noStdio).2
  | .runs events code signal =>
    match onSpawn N n req .child with
    | (none, es) => es
    | (some s, es) => es ++ events.map s.onEmission ++ (s.onClose code signal).2

/-- The code that is reported, or should be. -/
def Behaviour.code : Behaviour → BitVec 32
  | .throws _ | .noStdio => 127
  | .runs _ code signal => exitCode code signal

/-- No process ran to a successful end; where none could be started, `close` has no code,
or that of the error. -/
def Behaviour.Fails : Behaviour → Prop
  | .throws _ | .noStdio => True
  | .runs _ code _ => code ≠ some 0

/-- The chunks for one of the two streams; an error is told on `stderr`. -/
def Behaviour.stdout : Behaviour → List Chunk
  | .throws _ | .noStdio => []
  | .runs events _ _ => events.filterMap Emission.onStdout

def Behaviour.stderr : Behaviour → List Chunk
  | .throws message => [failure message]
  | .noStdio => []
  | .runs events _ _ => events.filterMap Emission.onStderr

/-- The chunk that is pushed to a stream. -/
def Effect.pushed (id : Id) : Effect → Option Chunk
  | .push id' (some bytes) => if id' = id then some bytes else none
  | _ => none

def Effect.reports : Effect → Bool
  | .procExit _ _ => true
  | _ => false

/-- What is promised of the effects `es` on a child with exit state `n`. -/
structure ReportsExit (req : SpawnReq) (n : Nat) (T : Tables) (b : Behaviour)
    (es : List Effect) : Prop where
  once : es.filter Effect.reports = [.procExit req.procId b.code]
  /-- What is pushed to each stream is its output, in order. -/
  stdout : es.filterMap (Effect.pushed req.stdoutId) = b.stdout
  stderr : es.filterMap (Effect.pushed req.stderrId) = b.stderr
  /-- The report comes last, after both streams have ended. -/
  last : ∀ l r code, es = l ++ .procExit req.procId code :: r →
    r = [] ∧ .push req.stdoutId none ∈ l ∧ .push req.stderrId none ∈ l
  /-- Nothing is pushed to a stream after its end. -/
  ended : ∀ l r id, es = l ++ .push id none :: r → ∀ data, .push id data ∉ r
  stdoutGone : (T.applyAll es).reg.streams req.stdoutId = none
  stderrGone : (T.applyAll es).reg.streams req.stderrId = none
  childGone : (T.applyAll es).children req.procId = none
  waits : (T.applyAll es).wait n = some b.code
  nonzero : b.Fails → b.code ≠ 0

/-! ### Output, then the end -/

/-- The effects of a child before its end. -/
def SpawnReq.Output (req : SpawnReq) (e : Effect) : Prop :=
  (∃ id bytes, e = .push id (some bytes)) ∨ ∃ n, e = .setChild req.procId n

/-- The effects of `exit`. -/
def SpawnReq.ending (req : SpawnReq) (code : BitVec 32) : List Effect :=
  [.push req.stdoutId none, .push req.stderrId none, .deleteChild req.procId,
    .procExit req.procId code]

section

variable {N : Napi} {n : Nat} {req : SpawnReq} {T : Tables} {b : Behaviour} {out : List Effect}

theorem output_onEmission {s : Session} (e : Emission) : s.req.Output (s.onEmission e) := by
  cases e with
  | stdout bytes => exact Or.inl ⟨_, bytes, rfl⟩
  | stderr bytes => exact Or.inl ⟨_, bytes, rfl⟩
  | error message => exact Or.inl ⟨_, failure message, rfl⟩

theorem pushed_stdout (hids : req.stdoutId ≠ req.stderrId) (e : Emission) :
    (Session.onEmission ⟨req, false⟩ e).pushed req.stdoutId = e.onStdout := by
  cases e <;> simp [Session.onEmission, Effect.pushed, Emission.onStdout, hids.symm]

theorem pushed_stderr (hids : req.stdoutId ≠ req.stderrId) (e : Emission) :
    (Session.onEmission ⟨req, false⟩ e).pushed req.stderrId = e.onStderr := by
  cases e <;> simp [Session.onEmission, Effect.pushed, Emission.onStderr, hids]

theorem effects_of_converts (hids : req.stdoutId ≠ req.stderrId) (h : req.converts N = true)
    (hstdio : b ≠ .noStdio) :
    ∃ out, (∀ e ∈ out, req.Output e) ∧ out.filterMap (Effect.pushed req.stdoutId) = b.stdout ∧
      out.filterMap (Effect.pushed req.stderrId) = b.stderr ∧
        b.effects N n req = out ++ req.ending b.code := by
  cases b with
  | throws message =>
      refine ⟨[.push req.stderrId (some (failure message))], ?_, ?_, ?_, ?_⟩
      · intro e he
        obtain rfl := List.mem_singleton.mp he
        exact Or.inl ⟨_, _, rfl⟩
      · simp [Effect.pushed, hids.symm, Behaviour.stdout]
      · simp [Effect.pushed, Behaviour.stderr]
      · simp [Behaviour.effects, onSpawn, h, Session.exit, SpawnReq.ending, Behaviour.code]
  | noStdio => exact absurd rfl hstdio
  | runs events code signal =>
      refine ⟨.setChild req.procId n :: events.map (Session.onEmission ⟨req, false⟩), ?_, ?_, ?_,
        ?_⟩
      · intro e he
        rcases List.mem_cons.mp he with rfl | he
        · exact Or.inr ⟨n, rfl⟩
        · obtain ⟨x, -, rfl⟩ := List.mem_map.mp he
          exact output_onEmission (s := ⟨req, false⟩) x
      · rw [List.filterMap_cons_none rfl, List.filterMap_map, Behaviour.stdout]
        exact congrArg (List.filterMap · events) (funext (pushed_stdout hids))
      · rw [List.filterMap_cons_none rfl, List.filterMap_map, Behaviour.stderr]
        exact congrArg (List.filterMap · events) (funext (pushed_stderr hids))
      · simp [Behaviour.effects, onSpawn, h, Session.onClose, Session.exit, SpawnReq.ending,
          Behaviour.code]

theorem effects_of_not_converts (h : req.converts N = false) : b.effects N n req = [] := by
  cases b <;> simp [Behaviour.effects, onSpawn, h]

theorem filter_reports_noStdio :
    (Behaviour.noStdio.effects N n req).filter Effect.reports = [] := by
  cases h : req.converts N <;> simp [Behaviour.effects, onSpawn, h, Effect.reports]

theorem SpawnReq.Output.not_reports {e : Effect} (h : req.Output e) : e.reports = false := by
  rcases h with ⟨id, bytes, rfl⟩ | ⟨n, rfl⟩
  · rfl
  · rfl

theorem SpawnReq.Output.ne_end {e : Effect} (h : req.Output e) (id : Id) : e ≠ .push id none := by
  rcases h with ⟨id', bytes, rfl⟩ | ⟨n, rfl⟩
  · simp
  · simp

/-- Output is not what a suffix begins with that starts at an effect of the end. -/
theorem split_ending {tail l r : List Effect} {e : Effect} (hout : ∀ e ∈ out, req.Output e)
    (he : ¬req.Output e) : out ++ tail = l ++ e :: r → ∃ m, l = out ++ m ∧ tail = m ++ e :: r := by
  intro h
  rcases List.append_eq_append_iff.mp h with ⟨m, hl, htail⟩ | ⟨m, ho, hr⟩
  · exact ⟨m, hl, htail⟩
  · cases m with
    | nil => exact ⟨[], by simpa using ho.symm, by simpa using hr.symm⟩
    | cons x m =>
        obtain rfl : e = x := (List.cons.inj hr).1
        exact absurd (hout e (by simp [ho])) he

/-! ### What the effects come to -/

theorem applyAll_append (es fs : List Effect) :
    T.applyAll (es ++ fs) = (T.applyAll es).applyAll fs := List.foldl_append

theorem apply_procs (e : Effect) : (T.apply e).procs = T.procs := by
  cases e with
  | procExit id code =>
      simp only [Tables.apply]
      split <;> rfl
  | push id data => rfl
  | setChild id n => rfl
  | deleteChild id => rfl

theorem applyAll_procs : ∀ {es : List Effect} {T : Tables}, (T.applyAll es).procs = T.procs := by
  intro es
  induction es with
  | nil =>
      intro T
      rfl
  | cons e es ih =>
      intro T
      show ((T.apply e).applyAll es).procs = T.procs
      rw [ih, apply_procs]

theorem Tables.apply_made (T : Tables) (e : Effect) : (T.apply e).reg.made = T.reg.made := by
  cases e with
  | push id data => exact T.reg.pushBytes_made id data
  | setChild id n => rfl
  | deleteChild id => rfl
  | procExit id code =>
      unfold Tables.apply
      dsimp only
      split <;> rfl

theorem Tables.applyAll_made (es : List Effect) :
    ∀ T : Tables, (T.applyAll es).reg.made = T.reg.made := by
  induction es with
  | nil => exact fun T => rfl
  | cons e es ih => exact fun T => (ih (T.apply e)).trans (T.apply_made e)

@[simp] theorem remove_streams (r : Registry) (id : Id) :
    (r.remove id).streams = Function.update r.streams id none := rfl

theorem applyAll_ending (hT : T.procs req.procId = some n) (code : BitVec 32) :
    (T.applyAll (req.ending code)).reg.streams req.stdoutId = none ∧
      (T.applyAll (req.ending code)).reg.streams req.stderrId = none ∧
        (T.applyAll (req.ending code)).children req.procId = none ∧
          (T.applyAll (req.ending code)).wait n = some code := by
  have hend : T.applyAll (req.ending code) =
      { T with
        reg := (T.reg.remove req.stdoutId).remove req.stderrId
        children := Function.update T.children req.procId none
        exits := Function.update T.exits n (some code) } := by
    simp [Tables.applyAll, SpawnReq.ending, Tables.apply, Registry.pushBytes, hT]
  rw [hend]
  refine ⟨?_, ?_, ?_, ?_⟩
  · by_cases h : req.stdoutId = req.stderrId
    · simp [h]
    · simp [Function.update_of_ne h]
  · simp
  · simp
  · simp [Tables.wait]

theorem Behaviour.Fails.code_ne_zero (h : b.Fails) : b.code ≠ 0 := by
  cases b with
  | throws message => exact (by decide : (127 : BitVec 32) ≠ 0)
  | noStdio => exact (by decide : (127 : BitVec 32) ≠ 0)
  | runs events code signal =>
      cases code with
      | some code => exact fun hc => h (congrArg some hc)
      | none =>
          cases signal with
          | true => exact (by decide : (137 : BitVec 32) ≠ 0)
          | false => exact (by decide : (127 : BitVec 32) ≠ 0)

/-- Output followed by the effects of `exit` is all that is promised. -/
theorem reportsExit_of_shape (hids : req.stdoutId ≠ req.stderrId) (hT : T.procs req.procId = some n)
    (hout : ∀ e ∈ out, req.Output e)
    (hstdout : out.filterMap (Effect.pushed req.stdoutId) = b.stdout)
    (hstderr : out.filterMap (Effect.pushed req.stderrId) = b.stderr) :
    ReportsExit req n T b (out ++ req.ending b.code) := by
  have hends := applyAll_ending (T := T.applyAll out) (by rw [applyAll_procs, hT]) b.code
  rw [← applyAll_append] at hends
  have hpushed (id : Id) : (req.ending b.code).filterMap (Effect.pushed id) = [] := rfl
  refine ⟨?_, by rw [List.filterMap_append, hstdout, hpushed, List.append_nil],
    by rw [List.filterMap_append, hstderr, hpushed, List.append_nil], ?_, ?_, hends.1, hends.2.1,
    hends.2.2.1, hends.2.2.2, Behaviour.Fails.code_ne_zero⟩
  · have hnone : out.filter Effect.reports = [] :=
      List.filter_eq_nil_iff.mpr fun e he => by simp [(hout e he).not_reports]
    simp [hnone, SpawnReq.ending, Effect.reports]
  · intro l r code h
    have hreports : ¬req.Output (.procExit req.procId code) := fun ho => by
      simpa [Effect.reports] using ho.not_reports
    obtain ⟨m, rfl, hm⟩ := split_ending hout hreports h
    -- only the last of the four is a report
    match m with
    | [] => simp [SpawnReq.ending] at hm
    | [_] => simp [SpawnReq.ending] at hm
    | [_, _] => simp [SpawnReq.ending] at hm
    | [e₁, e₂, e₃] =>
        simp only [SpawnReq.ending, List.cons_append, List.cons.injEq, List.nil_append] at hm
        obtain ⟨rfl, rfl, rfl, -, rfl⟩ := hm
        exact ⟨rfl, by simp, by simp⟩
    | _ :: _ :: _ :: _ :: m => simp [SpawnReq.ending] at hm
  · intro l r id h data
    have hend : ¬req.Output (.push id none) := fun ho => ho.ne_end id rfl
    obtain ⟨m, rfl, hm⟩ := split_ending hout hend h
    match m with
    | [] =>
        simp only [SpawnReq.ending, List.nil_append, List.cons.injEq] at hm
        obtain ⟨hid, rfl⟩ := hm
        obtain ⟨rfl, -⟩ := Effect.push.inj hid
        simp [hids]
    | [_] =>
        simp only [SpawnReq.ending, List.cons_append, List.nil_append, List.cons.injEq] at hm
        obtain ⟨-, -, rfl⟩ := hm
        simp
    | [_, _] => simp [SpawnReq.ending] at hm
    | [_, _, _] => simp [SpawnReq.ending] at hm
    | _ :: _ :: _ :: _ :: m => simp [SpawnReq.ending] at hm

end

/-- **Exactly one exit, after the output**, for every command and behaviour of the host,
if and only if the request can be converted and a child that `cp.spawn` returns has streams. -/
theorem reportsExit_iff (N : Napi) (T : Tables) (procId : Id) (cmd : Command) (b : Behaviour) :
    ReportsExit (cmd.req procId) T.reg.made (T.spawn procId) b
        (b.effects N T.reg.made (cmd.req procId)) ↔
      (cmd.req procId).converts N = true ∧ b ≠ .noStdio := by
  constructor
  · intro h
    have honce := h.once
    refine ⟨by_contra fun hno => ?_, ?_⟩
    · rw [effects_of_not_converts (Bool.eq_false_iff.mpr hno)] at honce
      cases honce
    · rintro rfl
      rw [filter_reports_noStdio] at honce
      cases honce
  · rintro ⟨h, hstdio⟩
    have hids : (cmd.req procId).stdoutId ≠ (cmd.req procId).stderrId := by
      show procId + 1 ≠ procId + 2
      intro hids
      exact absurd (add_left_cancel hids) (by decide)
    obtain ⟨out, hout, hstdout, hstderr, heffects⟩ :=
      effects_of_converts (n := T.reg.made) hids h hstdio
    rw [heffects]
    exact reportsExit_of_shape hids (Function.update_self ..) hout hstdout hstderr

/-- Otherwise the child is never waited for to the end. -/
theorem waits_of_silent {N : Napi} (T : Tables) (procId : Id) (cmd : Command) {b : Behaviour}
    (h : ¬((cmd.req procId).converts N = true ∧ b ≠ .noStdio)) :
    ((T.spawn procId).applyAll (b.effects N T.reg.made (cmd.req procId))).wait T.reg.made =
      none := by
  cases hconv : (cmd.req procId).converts N with
  | false =>
      rw [effects_of_not_converts hconv]
      simp [Tables.applyAll, Tables.wait, Tables.spawn]
  | true =>
      obtain rfl : b = .noStdio := by simpa [hconv] using h
      simp [Behaviour.effects, onSpawn, hconv, Tables.applyAll, Tables.apply, Tables.wait,
        Tables.spawn]

/-- Node-API with strings of a reasonable length: any of them is a value, and none with a
NUL is a name. -/
def nodeApi : Napi := ⟨fun _ => true, fun s => '\x00' ∉ s.toList⟩

/-- A command with an environment variable whose name contains a NUL. -/
def nulName : Command := ⟨"node", [], "", [("A\x00B", "1")]⟩

/-- Nothing is reported, and `wait` does not return. -/
theorem nulName_waits :
    ¬ReportsExit (nulName.req 1) 0 (Tables.empty.spawn 1) (.runs [] (some 0) false)
        (Behaviour.effects nodeApi 0 (nulName.req 1) (.runs [] (some 0) false)) ∧
      ((Tables.empty.spawn 1).applyAll
        (Behaviour.effects nodeApi 0 (nulName.req 1) (.runs [] (some 0) false))).wait 0 = none := by
  have hno : (nulName.req 1).converts nodeApi = false := by
    simp [SpawnReq.converts, nodeApi, nulName, Command.req]
  constructor
  · intro h
    have honce := h.once
    rw [effects_of_not_converts hno] at honce
    cases honce
  · refine waits_of_silent .empty 1 nulName fun h => ?_
    rw [hno] at h
    cases h.1

end TurbopackWasi.HostPool
