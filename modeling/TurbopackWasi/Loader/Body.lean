import TurbopackWasi.Loader.Init
import Mathlib.Tactic.ByContra

/-!
# TurbopackWasi.Loader.Body

The body of the initialisation, step by step, and what it does to `process.env`. Three
settings get a default on the way, so that the WASI environment and the workers made after
them see it; the `catch` at the end takes nothing back. So a body that fails leaves the
environment as it was exactly if every setting with its default before the failure was there
already (`execute_eq_iff`).
-/

namespace TurbopackWasi.Loader

abbrev Env := String → Option String

/-! ### The defaults -/

/-- The settings that the body gives a default. -/
inductive Setting
  | availableParallelism
  | parallelism
  | minStack
  deriving DecidableEq

def Setting.name : Setting → String
  | .availableParallelism => "TURBO_TASKS_AVAILABLE_PARALLELISM"
  | .parallelism => "TURBOPACK_PARALLELISM"
  | .minStack => "RUST_MIN_STACK"

def whitespace (c : Char) : Bool :=
  c.val ∈ [0x9, 0xA, 0xB, 0xC, 0xD, 0x20, 0xA0, 0x1680, 0x2028, 0x2029, 0x202F, 0x205F, 0x3000,
    0xFEFF] || (0x2000 ≤ c.val && c.val ≤ 0x200A)

/-- `parseInt(s, 10)`, of numbers that a double can hold. -/
def parseInt (s : String) : Option Int :=
  let (negative, rest) : Bool × List Char := match s.toList.dropWhile whitespace with
    | '-' :: rest => (true, rest)
    | '+' :: rest => (false, rest)
    | rest => (false, rest)
  let digits := rest.takeWhile Char.isDigit
  let n : Int := digits.foldl (fun n d => 10 * n + (d.toNat - '0'.toNat : Nat)) 0
  if digits.isEmpty then none else some (if negative then -n else n)

def threads (env : Env) : Nat :=
  match parseInt ((env "SRK_TURBOPACK_THREADS").getD "") with
  | none => 4
  | some n => if n = 0 then 4 else (max 1 n).toNat

def Setting.default (threads : Nat) : Setting → String
  | .minStack => Nat.repr (64 * 1024 * 1024)
  | _ => threads.repr

/-- The setting is there, and not empty. -/
def Env.has (env : Env) (v : Setting) : Bool := (env v.name).getD "" != ""

def Env.assign (env : Env) (name value : String) : Env := Function.update env name (some value)

/-- `if (!process.env[name]) process.env[name] = value`. -/
def Env.setDefault (env : Env) (threads : Nat) (v : Setting) : Env :=
  if env.has v then env else env.assign v.name (v.default threads)

theorem Setting.name_injective {v w : Setting} (h : v.name = w.name) : v = w := by
  revert h
  cases v <;> cases w <;> decide

theorem Setting.default_ne_empty (threads : Nat) (v : Setting) : v.default threads ≠ "" := by
  cases v <;> exact Nat.repr_ne_empty

/-! ### The steps -/

/-- The bridges, the second install of the runtime among them. -/
inductive Bridge
  | runtime
  | fetch
  | plugin
  | process
  deriving DecidableEq

def Bridge.export : Bridge → String
  | .runtime => "initTurbopackWasiRuntime"
  | .fetch => "initTurbopackFetchBridge"
  | .plugin => "initSwcPluginBridge"
  | .process => "initTurbopackProcessBridge"

inductive Step
  /-- The modules that the body requires. -/
  | modules
  | readFileSync
  | memoryLimits
  | setDefault (v : Setting)
  | newWasi
  | instantiateNapiModule
  /-- `init_turbopack_wasi_runtime_raw`, and the registrations. -/
  | beforeInit
  | bridge (b : Bridge)
  deriving DecidableEq

/-- What runs in the turn of the call of `ensureInit`. -/
def prologue : List Step :=
  [.modules, .readFileSync, .memoryLimits, .setDefault .availableParallelism,
    .setDefault .parallelism, .setDefault .minStack, .newWasi]

/-- What runs after it. -/
def epilogue : List Step :=
  [.instantiateNapiModule, .beforeInit, .bridge .runtime, .bridge .fetch, .bridge .plugin,
    .bridge .process]

def body : List Step := prologue ++ epilogue

/-- An exception can be raised; the assignments raise none. -/
def Step.raises : Step → Bool
  | .setDefault _ => false
  | _ => true

/-- The step is reached with these exports of the module: `typeof` guards the bridges. -/
def Step.taken {F : Type} (raw : String → Option (RawExport F)) : Step → Bool
  | .bridge b => match raw b.export with
      | some (.function _) => true
      | _ => false
  | _ => true

def Step.effect (threads : Nat) (env : Env) : Step → Env
  | .setDefault v => env.setDefault threads v
  | _ => env

/-- The steps up to the one that fails. -/
def execute (threads : Nat) (fails : Option Step) : List Step → Env → Env
  | [], env => env
  | k :: ks, env => if fails = some k then env else execute threads fails ks (k.effect threads env)

/-! ### What is left in the environment -/

variable {env : Env} {fails : Option Step} {v w : Setting} {ks : List Step} {t : Nat}

theorem Env.has_assign : (env.assign v.name (v.default t)).has v = true := by
  rw [Env.has, Env.assign, Function.update_self, Option.getD_some, bne_iff_ne]
  exact v.default_ne_empty t

theorem has_setDefault_self : (env.setDefault t v).has v = true := by
  rw [Env.setDefault]
  split
  · assumption
  · exact Env.has_assign

/-- What was there stays. -/
theorem has_setDefault (h : env.has w = true) : (env.setDefault t v).has w = true := by
  rw [Env.setDefault]
  split
  · exact h
  · next hmissing =>
      have hne : w.name ≠ v.name := by
        intro hname
        rw [Setting.name_injective hname] at h
        exact hmissing h
      rwa [Env.has, Env.assign, Function.update_of_ne hne]

theorem has_execute (h : env.has w = true) : (execute t fails ks env).has w = true := by
  induction ks generalizing env with
  | nil => exact h
  | cons k ks ih =>
      rw [execute]
      split
      · exact h
      · refine ih ?_
        cases k with
        | setDefault v => exact has_setDefault h
        | _ => exact h

/-- No other name is written. -/
theorem execute_other {name : String} (hname : ∀ v : Setting, name ≠ v.name) :
    execute t fails ks env name = env name := by
  induction ks generalizing env with
  | nil => rfl
  | cons k ks ih =>
      rw [execute]
      split
      · rfl
      · rw [ih]
        cases k with
        | setDefault v =>
            rw [Step.effect, Env.setDefault]
            split
            · rfl
            · rw [Env.assign, Function.update_of_ne (hname v)]
        | _ => rfl

theorem execute_append {ks' : List Step} (h : ∀ k ∈ ks, fails ≠ some k) :
    execute t fails (ks ++ ks') env = execute t fails ks' (execute t fails ks env) := by
  induction ks generalizing env with
  | nil => rfl
  | cons k ks ih =>
      have hk := h k List.mem_cons_self
      rw [List.cons_append, execute, if_neg hk, execute, if_neg hk]
      exact ih (fun k hmem => h k (List.mem_cons_of_mem _ hmem))

/-- A step that fails stops the body, whatever would follow. -/
theorem execute_stop {k : Step} {ks' : List Step} (h : k ∈ ks) :
    execute t (some k) (ks ++ ks') env = execute t (some k) ks env := by
  induction ks generalizing env with
  | nil => cases h
  | cons j ks ih =>
      rw [List.cons_append, execute, execute]
      split
      · rfl
      · next hne =>
          refine ih ?_
          rcases List.mem_cons.mp h with rfl | hmem
          · exact absurd rfl hne
          · exact hmem

theorem execute_of_not_mem {k : Step} (h : k ∉ ks) :
    execute t (some k) ks env = execute t none ks env := by
  induction ks generalizing env with
  | nil => rfl
  | cons j ks ih =>
      have hj : some k ≠ some j := by
        intro hkj
        exact h (Option.some.inj hkj ▸ List.mem_cons_self)
      rw [execute, if_neg hj, execute, if_neg (by simp)]
      exact ih (fun hks => h (List.mem_cons_of_mem _ hks))

/-- Without an assignment nothing changes. -/
theorem execute_of_plain (h : ∀ k ∈ ks, ∀ env, k.effect t env = env) :
    execute t fails ks env = env := by
  induction ks generalizing env with
  | nil => rfl
  | cons k ks ih =>
      rw [execute]
      split
      · rfl
      · rw [h k List.mem_cons_self, ih (fun j hj => h j (List.mem_cons_of_mem _ hj))]

theorem execute_epilogue : execute t fails epilogue env = env := by
  refine execute_of_plain ?_
  simp [epilogue, Step.effect]

theorem not_mem_prologue {k : Step} (h : k ∈ epilogue) : k ∉ prologue := by
  revert h
  cases k with
  | setDefault v => cases v <;> decide
  | bridge b => cases b <;> decide
  | _ => decide

/-- The body fails before its `await`, -/
theorem execute_prologue {k : Step} (h : k ∈ prologue) :
    execute t (some k) body env = execute t (some k) prologue env :=
  execute_stop h

/-- or after it. -/
theorem execute_body {k : Step} (h : k ∈ epilogue) :
    execute t (some k) body env = execute t none prologue env := by
  have hnot := not_mem_prologue h
  rw [body, execute_append, execute_epilogue, execute_of_not_mem hnot]
  intro j hj hkj
  rw [Option.some.inj hkj] at hnot
  exact hnot hj

/-! ### When nothing is left -/

def Step.setting : Step → Option Setting
  | .setDefault v => some v
  | _ => none

/-- The settings with their default before the step that fails. -/
def defaulted (fails : Option Step) : List Step → List Setting
  | [] => []
  | k :: ks => if fails = some k then [] else k.setting.toList ++ defaulted fails ks

/-- The environment is as it was exactly if every default before the failure was there. -/
theorem execute_eq_iff :
    execute t fails ks env = env ↔ ∀ v ∈ defaulted fails ks, env.has v = true := by
  induction ks with
  | nil => simp [execute, defaulted]
  | cons k ks ih =>
      rw [execute, defaulted]
      by_cases hk : fails = some k
      · simp [hk]
      · rw [if_neg hk, if_neg hk]
        cases k with
        | setDefault v =>
            simp only [Step.setting, Option.toList_some, List.singleton_append,
              List.forall_mem_cons, Step.effect]
            constructor
            · intro h
              -- the default that was just set is still there at the end
              have hv : env.has v = true := by
                rw [← h]
                exact has_execute has_setDefault_self
              rw [Env.setDefault, if_pos hv] at h
              exact ⟨hv, ih.mp h⟩
            · intro h
              rw [Env.setDefault, if_pos h.1]
              exact ih.mpr h.2
        | _ => exact ih

/-- The steps before the first assignment. -/
def Step.early (k : Step) : Bool := k ∈ [.modules, .readFileSync, .memoryLimits]

theorem defaulted_body {k : Step} (hraises : k.raises = true) :
    defaulted (some k) body =
      if k.early then [] else [.availableParallelism, .parallelism, .minStack] := by
  cases k with
  | setDefault v => cases hraises
  | bridge b => cases b <;> decide
  | _ => decide

/-- A failing step undoes nothing: it comes before the first assignment, or there was nothing
to assign. -/
theorem execute_body_eq_iff {k : Step} (hraises : k.raises = true) :
    execute t (some k) body env = env ↔ k.early = true ∨ ∀ v, env.has v = true := by
  rw [execute_eq_iff, defaulted_body hraises]
  cases hearly : k.early with
  | true => simp
  | false =>
      simp only [Bool.false_eq_true, if_false, false_or, List.forall_mem_cons]
      constructor
      · intro h v
        cases v with
        | availableParallelism => exact h.1
        | parallelism => exact h.2.1
        | minStack => exact h.2.2.1
      · intro h
        exact ⟨h _, h _, h _, by simp⟩

end TurbopackWasi.Loader
