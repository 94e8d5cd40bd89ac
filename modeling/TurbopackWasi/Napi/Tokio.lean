import Mathlib.Data.List.Basic

/-!
# TurbopackWasi.Napi.Tokio

**Which tokio runtime the binding gets.** The first call of any exported function forces
`RT`, and with it the choice between the runtime that `init_turbopack_wasi_runtime_raw`
left in `USER_DEFINED_RT` and a runtime with a single thread. `rt_run` reads the choice off
the calls made so far. The export `initTurbopackWasiRuntime` is there to notice the wrong
one, but it looks at a flag that a later installation sets as well: `deceived_iff` says
when it does not notice. The loader installs before it calls (`loaded`).
-/

namespace TurbopackWasi.Napi.Tokio

/-! ### The runtimes -/

inductive Flavor
  | currentThread
  | multiThread (workerThreads : Nat)
  deriving DecidableEq

structure Runtime where
  flavor : Flavor
  maxBlockingThreads : Nat
  /-- none: that of the standard library. -/
  threadStackSize : Option Nat
  io : Bool
  time : Bool
  deriving DecidableEq

def Runtime.isMulti (rt : Runtime) : Bool :=
  match rt.flavor with
  | .currentThread => false
  | .multiThread _ => true

/-- `create_runtime` on wasm. -/
def fallback : Runtime where
  flavor := .currentThread
  maxBlockingThreads := 512
  threadStackSize := none
  io := true
  time := true

/-- `threads` -/
def threads (workerThreads : BitVec 32) : Nat := max workerThreads.toNat 1

/-- `threads * 4`, a `usize` of 32 bits. -/
def maxBlocking (workerThreads : BitVec 32) : Nat := threads workerThreads * 4 % 0x100000000

/-- What the builder of `init_turbopack_wasi_runtime_raw` has been told. -/
def configured (workerThreads : BitVec 32) : Runtime where
  flavor := .multiThread (threads workerThreads)
  maxBlockingThreads := maxBlocking workerThreads
  threadStackSize := some (16 * 1024 * 1024)
  io := false
  time := true

/-! ### The statics -/

structure Statics where
  /-- `USER_DEFINED_RT`: an `OnceCell`, whose content is never `None`. -/
  userDefined : Option Runtime
  /-- `RT`: a `Lazy`, and in it an `Option`. -/
  rt : Option (Option Runtime)
  /-- `WASI_RUNTIME_INSTALLED` -/
  installed : Bool

def Statics.init : Statics := ⟨none, none, false⟩

inductive Outcome
  | code (rc : Int)
  /-- A panic, which is a trap on wasm. -/
  | trap
  | ok
  | error
  deriving DecidableEq

/-- `create_custom_tokio_runtime`: the first one stays. -/
def Statics.createCustomTokioRuntime (s : Statics) (rt : Runtime) : Statics :=
  { s with userDefined := s.userDefined.or (some rt) }

/-- `RT` is forced; the choice empties `USER_DEFINED_RT`. -/
def Statics.force (s : Statics) (builds : Bool) : Statics :=
  match s.rt with
  | some _ => s
  | none =>
      match s.userDefined with
      | some rt => { s with userDefined := none, rt := some (some rt) }
      | none => { s with rt := some (if builds then some fallback else none) }

/-- `within_runtime_if_available`: to enter the runtime, there must be one. -/
def Statics.enter (s : Statics) (builds : Bool) : Statics × Bool :=
  let s := s.force builds
  (s, (s.rt.bind id).isSome)

/-! ### Calls -/

inductive Act
  /-- `init_turbopack_wasi_runtime_raw` -/
  | installRaw (workerThreads : BitVec 32) (builds : Bool)
  /-- `initTurbopackWasiRuntime`; `builds` is for the fallback, if it is the first call. -/
  | assertInstalled (builds : Bool)
  /-- Any other exported function. -/
  | napiCall (builds : Bool)
  deriving DecidableEq

namespace Act

/-- The builder refuses zero blocking threads. -/
def step (s : Statics) : Act → Statics × Outcome
  | installRaw n builds =>
      if maxBlocking n = 0 then (s, .trap)
      else if builds then
        ({ s.createCustomTokioRuntime (configured n) with installed := true }, .code 0)
      else (s, .code (-1))
  | assertInstalled builds =>
      let (s, entered) := s.enter builds
      (s, if entered then if s.installed then .ok else .error else .trap)
  | napiCall builds =>
      let (s, entered) := s.enter builds
      (s, if entered then .ok else .trap)

/-- The call forces `RT`. -/
def forces : Act → Bool
  | installRaw _ _ => false
  | _ => true

/-- The runtime that the call leaves in `USER_DEFINED_RT` if it is empty. -/
def installs : Act → Option Runtime
  | installRaw n true => if maxBlocking n = 0 then none else some (configured n)
  | _ => none

/-- What the call makes of `RT` without a runtime of the user. -/
def builds : Act → Option Runtime
  | installRaw _ _ => none
  | assertInstalled builds | napiCall builds => if builds then some fallback else none

end Act

def run (s : Statics) (as : List Act) : Statics := as.foldl (fun s a => (a.step s).1) s

/-- The calls before `RT` was forced. -/
def early (as : List Act) : List Act := as.takeWhile fun a => !a.forces

/-- The first runtime that was installed in time. -/
def chosen (as : List Act) : Option Runtime := ((early as).filterMap Act.installs).head?

/-! ### The run -/

theorem run_cons (s : Statics) (a : Act) (as : List Act) :
    run s (a :: as) = run (a.step s).1 as := rfl

theorem run_append (s : Statics) (as bs : List Act) : run s (as ++ bs) = run (run s as) bs :=
  List.foldl_append

/-- A call that forces `RT` leaves the choice in it. -/
theorem step_forces {s : Statics} {a : Act} (ha : a.forces = true) (hrt : s.rt = none) :
    (a.step s).1.rt = some (s.userDefined.or a.builds) := by
  cases a with
  | installRaw n builds => cases ha
  | assertInstalled builds =>
      simp only [Act.step, Statics.enter, Statics.force, hrt]
      cases s.userDefined <;> rfl
  | napiCall builds =>
      simp only [Act.step, Statics.enter, Statics.force, hrt]
      cases s.userDefined <;> rfl

theorem step_installs {s : Statics} {a : Act} (ha : a.forces = false) :
    (a.step s).1.rt = s.rt ∧ (a.step s).1.userDefined = s.userDefined.or a.installs := by
  cases a with
  | installRaw n builds =>
      cases builds with
      | false => by_cases h : maxBlocking n = 0 <;> simp [Act.step, Act.installs, h]
      | true =>
          by_cases h : maxBlocking n = 0
          · simp [Act.step, Act.installs, h]
          · simp [Act.step, Act.installs, h, Statics.createCustomTokioRuntime]
  | assertInstalled builds => cases ha
  | napiCall builds => cases ha

/-- The flag is set by every installation, and by nothing else. -/
theorem step_installed (s : Statics) (a : Act) :
    (a.step s).1.installed = (s.installed || a.installs.isSome) := by
  have hforce : ∀ builds, (s.force builds).installed = s.installed := by
    intro builds
    unfold Statics.force
    split
    · rfl
    · split <;> rfl
  cases a with
  | installRaw n builds =>
      cases builds with
      | false => by_cases h : maxBlocking n = 0 <;> simp [Act.step, Act.installs, h]
      | true => by_cases h : maxBlocking n = 0 <;> simp [Act.step, Act.installs, h]
  | assertInstalled builds => simp [Act.step, Statics.enter, Act.installs, hforce]
  | napiCall builds => simp [Act.step, Statics.enter, Act.installs, hforce]

/-- Once it is forced, `RT` stays. -/
theorem step_forced {s : Statics} {a : Act} {x : Option Runtime} (hrt : s.rt = some x) :
    (a.step s).1.rt = some x := by
  cases hf : a.forces with
  | false => exact (step_installs hf).1.trans hrt
  | true =>
      cases a with
      | installRaw n builds => cases hf
      | assertInstalled builds => simp [Act.step, Statics.enter, Statics.force, hrt]
      | napiCall builds => simp [Act.step, Statics.enter, Statics.force, hrt]

theorem run_forced {s : Statics} {x : Option Runtime} (as : List Act) (hrt : s.rt = some x) :
    (run s as).rt = some x := by
  induction as generalizing s with
  | nil => exact hrt
  | cons a as ih => exact ih (step_forced hrt)

theorem run_installed (s : Statics) (as : List Act) :
    (run s as).installed = (s.installed || as.any fun a => a.installs.isSome) := by
  induction as generalizing s with
  | nil => simp [run]
  | cons a as ih =>
      rw [run_cons, ih, step_installed, List.any_cons, Bool.or_assoc]

theorem chosen_cons {a : Act} (as : List Act) (ha : a.forces = false) :
    chosen (a :: as) = a.installs.or (chosen as) := by
  have hearly : early (a :: as) = a :: early as := by simp [early, ha]
  rw [chosen, hearly, List.filterMap_cons]
  cases a.installs <;> rfl

theorem run_rt {s : Statics} (as : List Act) (hrt : s.rt = none) :
    (run s as).rt =
      (as.find? Act.forces).map fun a => (s.userDefined.or (chosen as)).or a.builds := by
  induction as generalizing s with
  | nil => exact hrt
  | cons a as ih =>
      rw [run_cons]
      cases ha : a.forces with
      | true =>
          have hchosen : chosen (a :: as) = none := by simp [chosen, early, ha]
          rw [run_forced as (step_forces ha hrt), List.find?_cons_of_pos ha, hchosen]
          simp
      | false =>
          obtain ⟨hrt', huser⟩ := step_installs (s := s) ha
          rw [ih (hrt'.trans hrt), List.find?_cons_of_neg (by simp [ha]), huser,
            chosen_cons as ha, Option.or_assoc]

/-- **The choice.** The first call that forces `RT` decides: the runtime is the first that
was installed before it, else the fallback, and no later call changes it. -/
theorem rt_run (as : List Act) :
    (run .init as).rt = (as.find? Act.forces).map fun a => (chosen as).or a.builds := by
  rw [run_rt as rfl]
  rfl

/-! ### The assertion -/

theorem isMulti_of_installs {a : Act} {rt : Runtime} (h : a.installs = some rt) :
    rt.isMulti = true := by
  cases a with
  | installRaw n builds =>
      cases builds with
      | false => cases h
      | true =>
          simp only [Act.installs] at h
          split at h
          · cases h
          · obtain rfl := Option.some.inj h
            rfl
  | assertInstalled builds => cases h
  | napiCall builds => cases h

theorem chosen_isMulti {as : List Act} {rt : Runtime} (h : chosen as = some rt) :
    rt.isMulti = true := by
  have hmem : rt ∈ (early as).filterMap Act.installs := List.mem_of_mem_head? h
  obtain ⟨a, -, ha⟩ := List.mem_filterMap.mp hmem
  exact isMulti_of_installs ha

/-- The fallback has a single thread. -/
theorem isMulti_builds {a : Act} {rt : Runtime} (h : a.builds = some rt) :
    rt.isMulti = false := by
  cases a with
  | installRaw n builds => cases h
  | assertInstalled builds | napiCall builds =>
      cases builds with
      | false => cases h
      | true =>
          obtain rfl := Option.some.inj h
          rfl

/-- The calls made so far, and the assertion. -/
def asserted (as : List Act) (builds : Bool) : Statics × Outcome :=
  (Act.assertInstalled builds).step (run .init as)

theorem asserted_rt (as : List Act) (builds : Bool) :
    (asserted as builds).1.rt = (run .init (as ++ [.assertInstalled builds])).rt := by
  rw [run_append]
  rfl

/-- The call that forces `RT`, the assertion at the latest. -/
def decides (as : List Act) (builds : Bool) : Act :=
  (as.find? Act.forces).getD (.assertInstalled builds)

theorem chosen_append (as : List Act) (builds : Bool) :
    chosen (as ++ [.assertInstalled builds]) = chosen as := by
  induction as with
  | nil => rfl
  | cons a as ih =>
      cases ha : a.forces with
      | true => simp [chosen, early, ha]
      | false => rw [List.cons_append, chosen_cons _ ha, chosen_cons _ ha, ih]

theorem asserted_choice (as : List Act) (builds : Bool) :
    (asserted as builds).1.rt = some ((chosen as).or (decides as builds).builds) := by
  rw [asserted_rt, rt_run, chosen_append, List.find?_append, decides]
  cases as.find? Act.forces <;> rfl

theorem asserted_outcome (as : List Act) (builds : Bool) :
    (asserted as builds).2 =
      if ((chosen as).or (decides as builds).builds).isSome then
        if as.any fun a => a.installs.isSome then .ok else .error
      else .trap := by
  have hrt : ((run .init as).force builds).rt =
      some ((chosen as).or (decides as builds).builds) := asserted_choice as builds
  have hinstalled : ((run .init as).force builds).installed =
      as.any fun a => a.installs.isSome := by
    have hstep : ((run .init as).force builds).installed = ((run .init as).installed || false) :=
      step_installed (run .init as) (.assertInstalled builds)
    rw [hstep, Bool.or_false, run_installed]
    exact Bool.false_or _
  simp only [asserted, Act.step, Statics.enter, hrt, hinstalled]
  simp

/-- **When the assertion is wrong.** `initTurbopackWasiRuntime` answers that all is well
although the runtime has a single thread, exactly if every installation that succeeded came
after the first call of an exported function, and one did. -/
theorem deceived_iff (as : List Act) (builds : Bool) :
    ((asserted as builds).2 = .ok ∧
        ∃ rt, (asserted as builds).1.rt = some (some rt) ∧ rt.isMulti = false) ↔
      (∃ a ∈ as, a.installs.isSome) ∧ (∀ a ∈ early as, a.installs = none) ∧
        (decides as builds).builds.isSome := by
  have hchosen : chosen as = none ↔ ∀ a ∈ early as, a.installs = none := by
    simp [chosen]
  have hany : (as.any fun a => a.installs.isSome) = true ↔ ∃ a ∈ as, a.installs.isSome :=
    List.any_eq_true
  rw [asserted_choice, asserted_outcome, ← hchosen, ← hany]
  cases hc : chosen as with
  | some rt =>
      have hmulti := chosen_isMulti hc
      simp [hmulti]
  | none =>
      cases hb : (decides as builds).builds with
      | none => simp
      | some rt =>
          have hsingle := isMulti_builds hb
          simp [hsingle, Option.isSome_iff_ne_none]

/-! ### The loader -/

/-- `beforeInit`, the assertion, and whatever is called later. -/
def loaded (workerThreads : BitVec 32) (builds fallbackBuilds : Bool) (later : List Act) :
    List Act :=
  .installRaw workerThreads builds :: .assertInstalled fallbackBuilds :: later

/-- **In the order of the loader the assertion is right**: it passes exactly if the runtime
was installed, and that runtime stays whatever is called later. -/
theorem loaded_iff (workerThreads : BitVec 32) (builds fallbackBuilds : Bool)
    (later : List Act) :
    (asserted [.installRaw workerThreads builds] fallbackBuilds).2 = .ok ↔
      (run .init (loaded workerThreads builds fallbackBuilds later)).rt =
        some (some (configured workerThreads)) := by
  have hrun : (run .init (loaded workerThreads builds fallbackBuilds later)).rt =
      some ((chosen [.installRaw workerThreads builds]).or
        (Act.assertInstalled fallbackBuilds).builds) := by
    rw [rt_run, loaded, chosen_cons _ rfl, chosen_cons [] rfl]
    simp [chosen, early, Act.forces, List.find?_cons]
  have hne : some fallback ≠ some (configured workerThreads) := by
    simp [fallback, configured]
  rw [hrun, asserted_outcome, chosen_cons _ rfl]
  cases hi : (Act.installRaw workerThreads builds).installs with
  | some rt =>
      have hrt : rt = configured workerThreads := by
        cases builds with
        | false => cases hi
        | true =>
            simp only [Act.installs] at hi
            split at hi
            · cases hi
            · exact (Option.some.inj hi).symm
      simp [hi, hrt]
  | none =>
      cases fallbackBuilds <;> simp [hi, decides, Act.forces, Act.builds, chosen, early, hne]

end TurbopackWasi.Napi.Tokio
