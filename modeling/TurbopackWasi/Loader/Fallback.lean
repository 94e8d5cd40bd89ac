import TurbopackWasi.Loader.Body
import TurbopackWasi.Loader.Readiness

/-!
# TurbopackWasi.Loader.Fallback

What next sees when the initialisation fails. `auto.cjs` wraps `loadBindings` of next: the
wrapper awaits `ensureInit`, sets `NEXT_DISABLE_SWC_WASM` if it resolves true, and then calls
the function of next in any case. This module puts `process.env` and the wrapped calls around
the registries of `Loader.Init`, and lets the body fail at any step that can raise.

The result is `untouched_iff`. A failed initialisation leaves no instance ready and no call
astray, but its defaults stay in the environment unless it failed before the first of them.
-/

namespace TurbopackWasi.Loader

open Lib

variable {ρ γ F κ α : Type}

/-! ### The state -/

structure Thread where
  isMainThread : Bool
  bindingPath : Bool

/-- Where a registry runs: on the thread of its `globalThis`. -/
def place (thread : γ → Thread) (realm : ρ → γ) (r : ρ) : Site γ where
  isMainThread := (thread (realm r)).isMainThread
  bindingPath := (thread (realm r)).bindingPath
  globalThis := realm r

/-- A call of the wrapped `loadBindings`. -/
structure Call (ρ α : Type) where
  registry : ρ
  arguments : α
  /-- What `target.loadBindings` was called with. -/
  target : Option α

structure World (ρ γ F κ α : Type) where
  loader : State ρ γ F
  /-- `process.env`; a worker and a sandbox have copies. -/
  env : γ → Env
  /-- Where the body raised its exception. -/
  thrown : γ → Option Step
  calls : κ → Option (Call ρ α)

def World.init (env₀ : γ → Env) : World ρ γ F κ α :=
  ⟨.init, env₀, fun _ => none, fun _ => none⟩

variable [DecidableEq ρ] [DecidableEq γ] [DecidableEq κ] (thread : γ → Thread) (realm : ρ → γ)

/-! ### Steps -/

/-- The body may fail at a step of `ks` that can raise, or not. -/
def admits (ks : List Step) (fails : Option Step) : Bool :=
  fails.all fun k => ks.contains k && k.raises

/-- `ensureInit()`; the first call runs the prologue. -/
def World.ensureInit (w : World ρ γ F κ α) (r : ρ) (x : Instance F) (fails : Option Step) :
    World ρ γ F κ α :=
  let g := realm r
  let w' := { w with loader := w.loader.ensureInit (place thread realm) r x fails.isNone }
  if x.memo = .unset ∧ (w.loader.shared g).init = .idle then
    { w' with
      env := Function.update w.env g (execute (threads (w.env g)) fails prologue (w.env g))
      thrown := Function.update w.thrown g fails }
  else w'

/-- The body ends. The epilogue writes nothing to the environment. -/
def World.complete (w : World ρ γ F κ α) (g : γ) (raw : String → Option (RawExport F))
    (fails : Option Step) : World ρ γ F κ α :=
  { w with
    loader := w.loader.complete g (if fails.isNone then some raw else none)
    thrown := Function.update w.thrown g fails }

/-- `process.env.NEXT_DISABLE_SWC_WASM = '1'`. -/
def World.disable (w : World ρ γ F κ α) (g : γ) : World ρ γ F κ α :=
  { w with env := Function.update w.env g ((w.env g).assign "NEXT_DISABLE_SWC_WASM" "1") }

def World.setCall (w : World ρ γ F κ α) (c : κ) (call : Call ρ α) : World ρ γ F κ α :=
  { w with calls := Function.update w.calls c (some call) }

/-- The wrapped `loadBindings` up to its `await`, or to its end if the loader is ready. -/
def World.loadBindings (w : World ρ γ F κ α) (c : κ) (r : ρ) (arguments : α)
    (fails : Option Step) : World ρ γ F κ α :=
  let (m, s) := w.loader.requireLoader (place thread realm) r
  let w := { w with loader := s }
  if m.ready then (w.disable (realm r)).setCall c ⟨r, arguments, some arguments⟩
  else match m with
    | .proxy => w
    | .main x => (w.ensureInit thread realm r x fails).setCall c ⟨r, arguments, none⟩

/-- After the `await`. -/
def World.resume (w : World ρ γ F κ α) (c : κ) (call : Call ρ α) (ok : Bool) : World ρ γ F κ α :=
  let w := if ok then w.disable (realm call.registry) else w
  w.setCall c { call with target := some call.arguments }

inductive Event (ρ γ F κ α : Type)
  | evaluate (r : ρ)
  | require (r : ρ)
  | ensureInit (r : ρ) (fails : Option Step)
  | complete (g : γ) (raw : String → Option (RawExport F)) (fails : Option Step)
  | settle (r : ρ)
  | loadBindings (c : κ) (r : ρ) (arguments : α) (fails : Option Step)
  | resume (c : κ)

def World.next (w : World ρ γ F κ α) : Event ρ γ F κ α → Option (World ρ γ F κ α)
  | .evaluate r => some { w with loader := (w.loader.requireLoader (place thread realm) r).2 }
  | .require r => some { w with loader := (w.loader.requireBinding (place thread realm) r).2 }
  | .ensureInit r fails =>
      match w.loader.loader r with
      | some (.main x) =>
          if admits prologue fails then some (w.ensureInit thread realm r x fails) else none
      | _ => none
  | .complete g raw fails =>
      match (w.loader.shared g).init with
      -- the prologue has failed, and the `catch` follows
      | .running false => some { w with loader := w.loader.complete g none }
      | .running true =>
          if admits (epilogue.filter (·.taken raw)) fails then some (w.complete g raw fails)
          else none
      | _ => none
  | .settle r =>
      match w.loader.loader r with
      | some (.main x) =>
          match x.memo, (w.loader.shared (realm r)).init with
          | .pending, .done ok =>
              some { w with loader := w.loader.settle (place thread realm) r x ok }
          | _, _ => none
      | _ => none
  | .loadBindings c r arguments fails =>
      if admits prologue fails ∧ w.calls c = none then
        some (w.loadBindings thread realm c r arguments fails)
      else none
  | .resume c =>
      match w.calls c with
      | some ⟨r, arguments, none⟩ =>
          match w.loader.loader r with
          | some (.main x) =>
              match x.memo with
              | .resolved ok => some (w.resume realm c ⟨r, arguments, none⟩ ok)
              | _ => none
          | _ => none
      | _ => none

def fallback (env₀ : γ → Env) : Machine (World ρ γ F κ α) (Event ρ γ F κ α) where
  start w := w = .init env₀
  next := World.next thread realm

/-! ### Instances without the surface -/

section Registries

variable {site : ρ → Site γ} {s s' : State ρ γ F} {r : ρ} {a : Act ρ γ F}

/-- The instance has nothing but `ensureInit` as long as there is no surface. -/
def Plain (site : ρ → Site γ) (s : State ρ γ F) : Prop :=
  ∀ r x, s.loader r = some (.main x) → (s.shared (site r).globalThis).surface = none →
    x.exports = bare

omit [DecidableEq κ] [DecidableEq γ] in
theorem plain_setInstance {x : Instance F} (hp : Plain site s)
    (hr : s.loader r = some (.main x)) (x' : Instance F)
    (hsame : (s.shared (site r).globalThis).surface = none → x'.exports = x.exports) :
    Plain site (s.setInstance r x') := by
  intro k y hk hnone
  by_cases h : k = r
  · subst h
    obtain rfl : x' = y := by simpa [State.setInstance] using hk
    rw [hsame hnone]
    exact hp k x hr hnone
  · exact hp k y (by simpa [State.setInstance, h] using hk) hnone

omit [DecidableEq κ] [DecidableEq γ] in
theorem plain_requireLoader (hp : Plain site s) (r : ρ) :
    Plain site (s.requireLoader site r).2 := by
  cases hr : s.loader r with
  | some m => simpa [State.requireLoader, hr] using hp
  | none =>
      intro k x hk hnone
      rw [requireLoader_shared] at hnone
      by_cases h : k = r
      · subst h
        simp only [State.requireLoader, hr, Function.update_self, evaluate,
          Option.some.injEq] at hk
        split at hk
        · cases hk
        · cases hk
          exact applyGraft_none hnone bare
      · exact hp k x (by simpa [State.requireLoader, hr, h] using hk) hnone

omit [DecidableEq κ] in
theorem ensureInit_of_set {x : Instance F} (h : x.memo ≠ .unset) (instantiates : Bool) :
    s.ensureInit site r x instantiates = s := by
  unfold State.ensureInit
  split
  · contradiction
  · rfl

omit [DecidableEq κ] in
/-- The instance waits from now on; the body starts unless it has before. -/
theorem ensureInit_of_unset (site : ρ → Site γ) (s : State ρ γ F) {x : Instance F}
    (h : x.memo = .unset) (instantiates : Bool) :
    ∃ G : Shared F,
      s.ensureInit site r x instantiates =
        { s with
          shared := Function.update s.shared (site r).globalThis G
          loader := Function.update s.loader r (some (.main { x with memo := .pending })) } ∧
      G.surface = (s.shared (site r).globalThis).surface ∧
      G.init = if (s.shared (site r).globalThis).init = .idle then .running instantiates
        else (s.shared (site r).globalThis).init := by
  cases hinit : (s.shared (site r).globalThis).init with
  | idle =>
      refine ⟨{ s.shared (site r).globalThis with
        init := .running instantiates
        started := if instantiates then (s.shared (site r).globalThis).started + 1
          else (s.shared (site r).globalThis).started }, ?_, rfl, ?_⟩
      · simp [State.ensureInit, State.setInstance, h, hinit]
      · simp
  | _ =>
      refine ⟨s.shared (site r).globalThis, ?_, rfl, by simp [hinit]⟩
      simp [State.ensureInit, State.setInstance, h, hinit]

omit [DecidableEq κ] in
theorem plain_takes (hI : Inv site s) (hp : Plain site s) (ht : Takes site s s') :
    Plain site s' := by
  cases ht with
  | evaluate r => exact plain_requireLoader hp r
  | require r =>
      have hloader := plain_requireLoader hp r
      simp only [State.requireBinding]
      split
      · exact hloader
      · split <;> exact hloader
  | @ensureInit r x hr instantiates =>
      by_cases hmemo : x.memo = .unset
      · obtain ⟨G, hs', hsurface, -⟩ := ensureInit_of_unset site s hmemo instantiates
        rw [hs']
        have hset := plain_setInstance hp hr { x with memo := .pending } (fun _ => rfl)
        intro k y hk hnone
        refine hset k y hk ?_
        simp only at hnone
        by_cases h : (site k).globalThis = (site r).globalThis
        · rwa [h, Function.update_self, hsurface, ← h] at hnone
        · rwa [Function.update_of_ne h] at hnone
      · rw [ensureInit_of_set hmemo]
        exact hp
  | @complete g instantiated hrun raw =>
      intro k y hk hnone
      by_cases h : (site k).globalThis = g
      · cases raw with
        | none => exact hp k y hk (by simpa [State.complete, h] using hnone)
        | some raw => simp [State.complete, h] at hnone
      · cases raw with
        | none => exact hp k y hk (by simpa [State.complete, Function.update_of_ne h] using hnone)
        | some raw =>
            exact hp k y hk (by simpa [State.complete, Function.update_of_ne h] using hnone)
  | @settle r x ok hr hmemo hdone =>
      refine plain_setInstance hp hr _ ?_
      intro hnone
      cases ok with
      | false => rfl
      | true => exact absurd ((hI.surface _).mpr hdone) (by simp [hnone])

omit [DecidableEq κ] in
theorem plain_of_reachable (h : (machine site).Reachable s) : Plain site s := by
  have hboth : Inv site s ∧ Plain site s := by
    refine h.invariant (I := fun s => Inv site s ∧ Plain site s) ?_ ?_
    · intro s hs
      rw [hs]
      refine ⟨inv_init, ?_⟩
      intro r x hr
      cases hr
    · intro s a s' hboth _ hn
      have ht := takes_of_next hn
      exact ⟨inv_takes hboth.1 ht, plain_takes hboth.1 hboth.2 ht⟩
  exact hboth.2

/-- `ensureInit` was called on the instance. -/
def Began (s : State ρ γ F) (r : ρ) : Prop :=
  ∃ x, s.loader r = some (.main x) ∧ x.memo ≠ .unset

omit [DecidableEq κ] [DecidableEq γ] in
theorem began_setInstance {k : ρ} (hb : Began s k) (r : ρ) {x : Instance F} (hx : x.memo ≠ .unset) :
    Began (s.setInstance r x) k := by
  obtain ⟨y, hk, hy⟩ := hb
  by_cases h : k = r
  · subst h
    exact ⟨x, by simp [State.setInstance], hx⟩
  · exact ⟨y, by simpa [State.setInstance, h] using hk, hy⟩

omit [DecidableEq κ] [DecidableEq γ] in
theorem requireLoader_keeps (site : ρ → Site γ) (r : ρ) {k : ρ} {m : Personality F}
    (hk : s.loader k = some m) :
    (s.requireLoader site r).2.loader k = some m := by
  cases hr : s.loader r with
  | some m' => simpa [State.requireLoader, hr] using hk
  | none =>
      have hne : k ≠ r := by
        intro h
        rw [h, hr] at hk
        cases hk
      simpa [State.requireLoader, hr, hne] using hk

omit [DecidableEq κ] in
theorem began_takes {k : ρ} (hb : Began s k) (ht : Takes site s s') : Began s' k := by
  cases ht with
  | evaluate r =>
      obtain ⟨y, hk, hy⟩ := hb
      exact ⟨y, requireLoader_keeps site r hk, hy⟩
  | require r =>
      obtain ⟨y, hk, hy⟩ := hb
      have hloader := requireLoader_keeps site r hk
      refine ⟨y, ?_, hy⟩
      simp only [State.requireBinding]
      split
      · exact hloader
      · split <;> exact hloader
  | @ensureInit r x hr instantiates =>
      by_cases hmemo : x.memo = .unset
      · obtain ⟨G, hs', -, -⟩ := ensureInit_of_unset site s hmemo instantiates
        rw [hs']
        exact began_setInstance hb r (by simp)
      · rw [ensureInit_of_set hmemo]
        exact hb
  | @complete g instantiated hrun raw =>
      cases raw with
      | none => exact hb
      | some raw => exact hb
  | @settle r x ok hr hmemo hdone => exact began_setInstance hb r (by simp)

omit [DecidableEq κ] in
theorem began_ensureInit {x : Instance F} (hr : s.loader r = some (.main x))
    (instantiates : Bool) : Began (s.ensureInit site r x instantiates) r := by
  by_cases hmemo : x.memo = .unset
  · obtain ⟨G, hs', -, -⟩ := ensureInit_of_unset site s hmemo instantiates
    rw [hs']
    exact ⟨{ x with memo := .pending }, by simp, by simp⟩
  · rw [ensureInit_of_set hmemo]
    exact ⟨x, hr, hmemo⟩

end Registries

/-! ### The registries of a world are those of `Loader.Init` -/

variable {thread : γ → Thread} {realm : ρ → γ} {env₀ : γ → Env} {w w' : World ρ γ F κ α}
  {e : Event ρ γ F κ α} {g : γ} {r : ρ} {x : Instance F} {fails : Option Step}

omit [DecidableEq κ] in
theorem ensureInit_loader : (w.ensureInit thread realm r x fails).loader =
    w.loader.ensureInit (place thread realm) r x fails.isNone := by
  rw [World.ensureInit]
  split <;> rfl

/-- What a call of the wrapper comes to. -/
theorem loadBindings_cases (c : κ) (r : ρ) (arguments : α) (fails : Option Step)
    (w : World ρ γ F κ α) :
    (((w.loader.requireLoader (place thread realm) r).1.ready = true ∧
      w.loadBindings thread realm c r arguments fails =
        ({ w with loader := (w.loader.requireLoader (place thread realm) r).2 }.disable
          (realm r)).setCall c ⟨r, arguments, some arguments⟩) ∨
    ∃ x, (w.loader.requireLoader (place thread realm) r).1 = .main x ∧
      w.loadBindings thread realm c r arguments fails =
        ({ w with loader := (w.loader.requireLoader (place thread realm) r).2 }.ensureInit
          thread realm r x fails).setCall c ⟨r, arguments, none⟩) := by
  unfold World.loadBindings
  cases hready : (w.loader.requireLoader (place thread realm) r).1.ready with
  | true => exact .inl ⟨rfl, by simp [hready]⟩
  | false =>
      cases hm : (w.loader.requireLoader (place thread realm) r).1 with
      | proxy =>
          rw [hm] at hready
          cases hready
      | main x =>
          rw [hm] at hready
          exact .inr ⟨x, rfl, by simp [hm, hready]⟩

inductive World.Takes (thread : γ → Thread) (realm : ρ → γ) (w : World ρ γ F κ α) :
    World ρ γ F κ α → Prop
  | evaluate (r : ρ) :
      Takes thread realm w { w with loader := (w.loader.requireLoader (place thread realm) r).2 }
  | require (r : ρ) :
      Takes thread realm w { w with loader := (w.loader.requireBinding (place thread realm) r).2 }
  | ensureInit {r : ρ} {x : Instance F} {fails : Option Step}
      (hr : w.loader.loader r = some (.main x)) (hadmits : admits prologue fails = true) :
      Takes thread realm w (w.ensureInit thread realm r x fails)
  /-- The `catch` follows a prologue that has failed. -/
  | caught {g : γ} (hinit : (w.loader.shared g).init = .running false) :
      Takes thread realm w { w with loader := w.loader.complete g none }
  | complete {g : γ} {raw : String → Option (RawExport F)} {fails : Option Step}
      (hinit : (w.loader.shared g).init = .running true)
      (hadmits : admits (epilogue.filter (·.taken raw)) fails = true) :
      Takes thread realm w (w.complete g raw fails)
  | settle {r : ρ} {x : Instance F} {ok : Bool} (hr : w.loader.loader r = some (.main x))
      (hmemo : x.memo = .pending) (hdone : (w.loader.shared (realm r)).init = .done ok) :
      Takes thread realm w { w with loader := w.loader.settle (place thread realm) r x ok }
  | loadBindings {c : κ} {fails : Option Step} (hadmits : admits prologue fails = true)
      (hfree : w.calls c = none) (r : ρ) (arguments : α) :
      Takes thread realm w (w.loadBindings thread realm c r arguments fails)
  | resume {c : κ} {r : ρ} {arguments : α} {x : Instance F} {ok : Bool}
      (hc : w.calls c = some ⟨r, arguments, none⟩) (hr : w.loader.loader r = some (.main x))
      (hmemo : x.memo = .resolved ok) :
      Takes thread realm w (w.resume realm c ⟨r, arguments, none⟩ ok)

theorem World.takes_of_next (hn : w.next thread realm e = some w') :
    World.Takes thread realm w w' := by
  cases e with
  | evaluate r =>
      obtain rfl := Option.some.inj hn
      exact .evaluate r
  | require r =>
      obtain rfl := Option.some.inj hn
      exact .require r
  | ensureInit r fails =>
      simp only [World.next] at hn
      split at hn
      · next x hr =>
          split at hn
          · next hadmits =>
              obtain rfl := Option.some.inj hn
              exact .ensureInit hr hadmits
          · cases hn
      · cases hn
  | complete g raw fails =>
      simp only [World.next] at hn
      split at hn
      · next hinit =>
          obtain rfl := Option.some.inj hn
          exact .caught hinit
      · next hinit =>
          split at hn
          · next hadmits =>
              obtain rfl := Option.some.inj hn
              exact .complete hinit hadmits
          · cases hn
      · cases hn
  | settle r =>
      simp only [World.next] at hn
      split at hn
      · next x hr =>
          split at hn
          · next ok hmemo hdone =>
              obtain rfl := Option.some.inj hn
              exact .settle hr hmemo hdone
          · cases hn
      · cases hn
  | loadBindings c r arguments fails =>
      simp only [World.next] at hn
      split at hn
      · next h =>
          obtain rfl := Option.some.inj hn
          exact .loadBindings h.1 h.2 r arguments
      · cases hn
  | resume c =>
      simp only [World.next] at hn
      split at hn
      · next r arguments hc =>
          split at hn
          · next x hr =>
              split at hn
              · next ok hmemo =>
                  obtain rfl := Option.some.inj hn
                  exact .resume hc hr hmemo
              · cases hn
          · cases hn
      · cases hn

/-- One step takes the registries through steps of their own. -/
theorem loader_takes (ht : World.Takes thread realm w w') :
    ∃ as, (machine (place thread realm)).replay w.loader as = some w'.loader := by
  cases ht with
  | evaluate r => exact ⟨[.evaluate r], rfl⟩
  | require r => exact ⟨[.require r], rfl⟩
  | @ensureInit r x fails hr hadmits =>
      refine ⟨[.ensureInit r fails.isNone], ?_⟩
      simp [Machine.replay, machine, next, hr, ensureInit_loader]
  | @caught g hinit =>
      refine ⟨[.complete g none], ?_⟩
      simp [Machine.replay, machine, next, hinit]
  | @complete g raw fails hinit hadmits =>
      refine ⟨[.complete g (if fails.isNone then some raw else none)], ?_⟩
      simp [Machine.replay, machine, next, hinit, World.complete]
  | @settle r x ok hr hmemo hdone =>
      refine ⟨[.settle r], ?_⟩
      simp [Machine.replay, machine, next, hr, hmemo, place, hdone]
  | @loadBindings c fails hadmits hfree r arguments =>
      rcases loadBindings_cases c r arguments fails w with ⟨-, hw⟩ | ⟨x, hx, hw⟩
      · rw [hw]
        exact ⟨[.evaluate r], rfl⟩
      · have hr : (w.loader.requireLoader (place thread realm) r).2.loader r = some (.main x) := by
          rw [requireLoader_eq, hx]
        refine ⟨[.evaluate r, .ensureInit r fails.isNone], ?_⟩
        rw [hw]
        simp [Machine.replay, machine, next, hr, World.setCall, ensureInit_loader]
  | @resume c r arguments x ok hc hr hmemo =>
      refine ⟨[], ?_⟩
      cases ok <;> rfl

theorem loader_reachable (h : (fallback thread realm env₀).Reachable w) :
    (machine (place thread realm)).Reachable w.loader := by
  refine h.invariant (I := fun w => (machine (place thread realm)).Reachable w.loader) ?_ ?_
  · intro w hw
    rw [hw]
    exact .start rfl
  · intro w e w' hw _ hn
    obtain ⟨as, has⟩ := loader_takes (World.takes_of_next hn)
    exact hw.replay as has

/-! ### The environment follows the body -/

/-- The thread of a pool worker, where `loader.cjs` is the proxy. -/
def Thread.inPoolWorker (t : Thread) : Bool := !t.isMainThread && t.bindingPath

/-- What the environment is, as far as the body has come. -/
def Progress (env₀ env : Env) (thrown : Option Step) : Init → Prop
  | .idle => env = env₀
  | .running instantiated =>
      thrown.isNone = instantiated ∧ admits prologue thrown = true ∧
        env = execute (threads env₀) thrown prologue env₀
  | .done false =>
      ∃ k ∈ body, k.raises = true ∧ thrown = some k ∧
        env = execute (threads env₀) (some k) body env₀
  -- after a success the wrapper writes as well
  | .done true => True

structure Steady (thread : γ → Thread) (env₀ : γ → Env) (w : World ρ γ F κ α) : Prop where
  worker : ∀ g, (thread g).inPoolWorker = true → (w.loader.shared g).init = .idle
  progress : ∀ g, (thread g).inPoolWorker = false →
    Progress (env₀ g) (w.env g) (w.thrown g) (w.loader.shared g).init
  calls : ∀ c call, w.calls c = some call → (∀ a, call.target = some a → a = call.arguments) ∧
    (call.target = none → Began w.loader call.registry)

theorem admits_some {ks : List Step} {k : Step} :
    admits ks (some k) = true ↔ k ∈ ks ∧ k.raises = true := by
  simp [admits]

/-- The prologue has thrown, and the `catch` runs. -/
theorem progress_caught {env env₀ : Env} {thrown : Option Step}
    (h : Progress env₀ env thrown (.running false)) :
    Progress env₀ env thrown (.done false) := by
  obtain ⟨hthrown, hadmits, henv⟩ := h
  cases thrown with
  | none => cases hthrown
  | some k =>
      obtain ⟨hk, hraises⟩ := admits_some.mp hadmits
      exact ⟨k, List.mem_append_left _ hk, hraises, rfl, by rw [henv, execute_prologue hk]⟩

/-- The epilogue ends. -/
theorem progress_ends {env env₀ : Env} {thrown : Option Step}
    {raw : String → Option (RawExport F)} (h : Progress env₀ env thrown (.running true))
    (hadmits : admits (epilogue.filter (·.taken raw)) fails = true) :
    Progress env₀ env fails (.done fails.isNone) := by
  obtain ⟨hthrown, -, henv⟩ := h
  obtain rfl := Option.isNone_iff_eq_none.mp hthrown
  cases fails with
  | none => trivial
  | some k =>
      obtain ⟨hk, hraises⟩ := admits_some.mp hadmits
      have hmem := (List.mem_filter.mp hk).1
      exact ⟨k, List.mem_append_right _ hmem, hraises, rfl, by rw [henv, execute_body hmem]⟩

omit [DecidableEq ρ] [DecidableEq γ] [DecidableEq κ] in
/-- The registries move on without the body. -/
theorem Steady.move {s : State ρ γ F} (h : Steady thread env₀ w)
    (hshared : ∀ g, (s.shared g).init = (w.loader.shared g).init)
    (hbegan : ∀ r, Began w.loader r → Began s r) : Steady thread env₀ { w with loader := s } where
  worker g hg := by
    rw [hshared]
    exact h.worker g hg
  progress g hg := by
    rw [hshared]
    exact h.progress g hg
  calls c call hc := ⟨(h.calls c call hc).1, fun hnone => hbegan _ ((h.calls c call hc).2 hnone)⟩

omit [DecidableEq ρ] [DecidableEq κ] in
/-- The body of one thread moves on. -/
theorem Steady.advance {s : State ρ γ F} {env : Env} {thrown : Option Step}
    (h : Steady thread env₀ w) (hg : (thread g).inPoolWorker = false)
    (hshared : ∀ k, k ≠ g → (s.shared k).init = (w.loader.shared k).init)
    (hprogress : Progress (env₀ g) env thrown (s.shared g).init)
    (hbegan : ∀ r, Began w.loader r → Began s r) :
    Steady thread env₀ { w with
      loader := s
      env := Function.update w.env g env
      thrown := Function.update w.thrown g thrown } where
  worker k hk := by
    have hne : k ≠ g := by
      intro heq
      rw [heq, hg] at hk
      cases hk
    rw [hshared k hne]
    exact h.worker k hk
  progress k hk := by
    by_cases heq : k = g
    · subst heq
      simpa using hprogress
    · simpa [heq, hshared k heq] using h.progress k hk
  calls c call hc := ⟨(h.calls c call hc).1, fun hnone => hbegan _ ((h.calls c call hc).2 hnone)⟩

omit [DecidableEq ρ] [DecidableEq κ] in
/-- The wrapper writes after a success only, or on a pool worker. -/
theorem Steady.disable (h : Steady thread env₀ w)
    (hg : (thread g).inPoolWorker = true ∨ (w.loader.shared g).init = .done true) :
    Steady thread env₀ (w.disable g) where
  worker := h.worker
  progress k hk := by
    by_cases heq : k = g
    · subst heq
      rcases hg with hworker | hdone
      · rw [hk] at hworker
        cases hworker
      · simp only [World.disable, hdone]
        trivial
    · simpa [World.disable, heq] using h.progress k hk
  calls := h.calls

omit [DecidableEq ρ] [DecidableEq γ] in
theorem Steady.setCall {c : κ} {call : Call ρ α} (h : Steady thread env₀ w)
    (htarget : ∀ a, call.target = some a → a = call.arguments)
    (hbegan : call.target = none → Began w.loader call.registry) :
    Steady thread env₀ (w.setCall c call) where
  worker := h.worker
  progress := h.progress
  calls c' call' hc := by
    by_cases heq : c' = c
    · subst heq
      obtain rfl : call = call' := by simpa [World.setCall] using hc
      exact ⟨htarget, hbegan⟩
    · exact h.calls c' call' (by simpa [World.setCall, heq] using hc)

omit [DecidableEq κ] in
theorem steady_ensureInit (hI : Inv (place thread realm) w.loader) (h : Steady thread env₀ w)
    (hr : w.loader.loader r = some (.main x)) (hadmits : admits prologue fails = true) :
    Steady thread env₀ (w.ensureInit thread realm r x fails) := by
  have hpool : (thread (realm r)).inPoolWorker = false := (hI.main r x hr).1
  have hbegan : ∀ k, Began w.loader k →
      Began (w.loader.ensureInit (place thread realm) r x fails.isNone) k :=
    fun k hk => began_takes hk (.ensureInit hr fails.isNone)
  by_cases hmemo : x.memo = .unset
  · obtain ⟨G, hloader, -, hG⟩ :=
      ensureInit_of_unset (place thread realm) w.loader hmemo fails.isNone
    have hother : ∀ k, k ≠ realm r →
        ((w.loader.ensureInit (place thread realm) r x fails.isNone).shared k).init =
          (w.loader.shared k).init := by
      intro k hk
      rw [hloader]
      simp [place, hk]
    have hself : ((w.loader.ensureInit (place thread realm) r x fails.isNone).shared
        (realm r)).init = G.init := by
      rw [hloader]
      simp [place]
    have hprogress := h.progress (realm r) hpool
    by_cases hidle : (w.loader.shared (realm r)).init = .idle
    · rw [World.ensureInit, if_pos ⟨hmemo, hidle⟩]
      refine h.advance hpool hother ?_ hbegan
      rw [hself, hG, if_pos (show (w.loader.shared (place thread realm r).globalThis).init = _
        from hidle)]
      rw [hidle] at hprogress
      have henv : w.env (realm r) = env₀ (realm r) := hprogress
      rw [henv]
      exact ⟨rfl, hadmits, rfl⟩
    · rw [World.ensureInit, if_neg (fun hboth => hidle hboth.2)]
      refine h.move ?_ hbegan
      intro k
      by_cases hk : k = realm r
      · subst hk
        rw [hself, hG, if_neg (show ¬(w.loader.shared (place thread realm r).globalThis).init = _
          from hidle)]
        rfl
      · exact hother k hk
  · rw [World.ensureInit, if_neg (fun hboth => hmemo hboth.1), ensureInit_of_set hmemo]
    exact h

omit [DecidableEq ρ] [DecidableEq κ] in
theorem steady_complete {instantiated : Bool} {raw : Option (String → Option (RawExport F))}
    {thrown : Option Step} (h : Steady thread env₀ w)
    (hrun : (w.loader.shared g).init = .running instantiated)
    (hprogress : (thread g).inPoolWorker = false →
      Progress (env₀ g) (w.env g) thrown (.done raw.isSome)) :
    Steady thread env₀ { w with
      loader := w.loader.complete g raw
      thrown := Function.update w.thrown g thrown } := by
  have hpool : (thread g).inPoolWorker = false := by
    by_contra hworker
    rw [h.worker g (by simpa using hworker)] at hrun
    cases hrun
  have hnext : Steady thread env₀ { w with
      loader := w.loader.complete g raw
      env := Function.update w.env g (w.env g)
      thrown := Function.update w.thrown g thrown } := by
    refine h.advance hpool ?_ ?_ ?_
    · intro k hk
      cases raw <;> simp [State.complete, hk]
    · cases raw <;> simpa [State.complete] using hprogress hpool
    · intro r hr
      cases raw <;> exact hr
  rwa [Function.update_eq_self] at hnext

omit [DecidableEq ρ] [DecidableEq κ] [DecidableEq γ] in
/-- A loader that is ready: the proxy of a pool worker, or an instance after a success. -/
theorem success_of_ready {s : State ρ γ F} {m : Personality F} (hI : Inv (place thread realm) s)
    (hr : s.loader r = some m) (hready : m.ready = true) :
    (thread (realm r)).inPoolWorker = true ∨ (s.shared (realm r)).init = .done true := by
  cases m with
  | proxy => exact Or.inl (hI.proxy r hr)
  | main x =>
      have hsound := (hI.main r x hr).2
      obtain ⟨S, hS, -⟩ := hsound.full (hsound.ready_iff.mp hready)
      exact Or.inr ((hI.surface (realm r)).mp (Option.isSome_of_mem hS))

/-- What a world is entitled to is kept by every step. -/
theorem steady_takes (hI : Inv (place thread realm) w.loader) (h : Steady thread env₀ w)
    (ht : World.Takes thread realm w w') : Steady thread env₀ w' := by
  cases ht with
  | evaluate r =>
      refine h.move ?_ (fun k hk => began_takes hk (.evaluate r))
      intro g
      rw [requireLoader_shared]
  | require r =>
      refine h.move ?_ (fun k hk => began_takes hk (.require r))
      intro g
      rw [requireBinding_shared]
  | ensureInit hr hadmits => exact steady_ensureInit hI h hr hadmits
  | @caught g hinit =>
      have hprogress := h.progress g
      rw [hinit] at hprogress
      have hcaught : Steady thread env₀ { w with
          loader := w.loader.complete g none
          thrown := Function.update w.thrown g (w.thrown g) } :=
        steady_complete h hinit (fun hg => progress_caught (hprogress hg))
      rwa [Function.update_eq_self] at hcaught
  | @complete g raw fails hinit hadmits =>
      have hprogress := h.progress g
      rw [hinit] at hprogress
      refine steady_complete h hinit ?_
      intro hg
      have hends := progress_ends (hprogress hg) hadmits
      cases fails <;> exact hends
  | settle hr hmemo hdone =>
      exact h.move (fun _ => rfl) (fun k hk => began_takes hk (.settle hr hmemo hdone))
  | @loadBindings c fails hadmits hfree r arguments =>
      have hI' := inv_requireLoader hI r
      have hr : (w.loader.requireLoader (place thread realm) r).2.loader r =
          some (w.loader.requireLoader (place thread realm) r).1 := requireLoader_eq w.loader r
      have hmove := h.move (s := (w.loader.requireLoader (place thread realm) r).2)
        (fun g => by rw [requireLoader_shared]) (fun k hk => began_takes hk (.evaluate r))
      rcases loadBindings_cases c r arguments fails w with ⟨hready, hw⟩ | ⟨x, hx, hw⟩
      · rw [hw]
        refine (hmove.disable ?_).setCall ?_ ?_
        · exact success_of_ready hI' hr hready
        · intro a ha
          exact (Option.some.inj ha).symm
        · intro hnone
          cases hnone
      · rw [hw]
        rw [hx] at hr
        have hinit := steady_ensureInit hI' hmove hr hadmits
        refine hinit.setCall ?_ ?_
        · intro a ha
          cases ha
        · intro _
          rw [ensureInit_loader]
          exact began_ensureInit hr _
  | @resume c r arguments x ok hc hr hmemo =>
      have hdone := (hI.main r x hr).2.resolved ok hmemo
      have hpassed : ∀ a, some arguments = some a → a = arguments :=
        fun a ha => (Option.some.inj ha).symm
      cases ok with
      | true => exact (h.disable (Or.inr hdone)).setCall hpassed (fun h => by cases h)
      | false => exact h.setCall hpassed (fun h => by cases h)

theorem steady_of_reachable (h : (fallback thread realm env₀).Reachable w) :
    Steady thread env₀ w := by
  have hboth : (machine (place thread realm)).Reachable w.loader ∧ Steady thread env₀ w := by
    refine h.invariant (I := fun w =>
      (machine (place thread realm)).Reachable w.loader ∧ Steady thread env₀ w) ?_ ?_
    · intro w hw
      rw [hw]
      refine ⟨.start rfl, fun _ _ => rfl, fun _ _ => rfl, ?_⟩
      intro c call hc
      cases hc
    · intro w e w' hboth _ hn
      have ht := World.takes_of_next hn
      obtain ⟨as, has⟩ := loader_takes ht
      exact ⟨hboth.1.replay as has, steady_takes (inv_of_reachable hboth.1) hboth.2 ht⟩
  exact hboth.2

/-! ### What a failure leaves -/

omit [DecidableEq ρ] [DecidableEq γ] [DecidableEq κ] in
/-- Where the body has thrown, its steps before that one are done. -/
theorem Steady.failed (hS : Steady thread env₀ w) (hfail : (w.loader.shared g).init = .done false) :
    ∃ k ∈ body, k.raises = true ∧ w.thrown g = some k ∧
      w.env g = execute (threads (env₀ g)) (some k) body (env₀ g) := by
  have hpool : (thread g).inPoolWorker = false := by
    by_contra hworker
    rw [hS.worker g (by simpa using hworker)] at hfail
    cases hfail
  have hprogress := hS.progress g hpool
  rw [hfail] at hprogress
  exact hprogress

/-- Next goes on as if the package were not there. -/
structure StockPath (thread : γ → Thread) (realm : ρ → γ) (env₀ : γ → Env)
    (w : World ρ γ F κ α) (g : γ) : Prop where
  /-- `ensureInit` resolves to false. -/
  resolves : ∀ r x, w.loader.loader r = some (.main x) → realm r = g → x.memo ≠ .unset →
    x.memo = .resolved false ∨
      ∃ w', w.next thread realm (.settle r) = some w' ∧
        w'.loader.loader r = some (.main { x with memo := .resolved false })
  exports : ∀ r x, w.loader.loader r = some (.main x) → realm r = g →
    x.exports = bare ∧ (Personality.main x).ready = false
  disabled : w.env g "NEXT_DISABLE_SWC_WASM" = env₀ g "NEXT_DISABLE_SWC_WASM"
  /-- The function of next gets the arguments of the caller, once the promise has resolved. -/
  target : ∀ c call, w.calls c = some call → realm call.registry = g →
    call.target = some call.arguments ∨
      ∃ x, w.loader.loader call.registry = some (.main x) ∧
        (x.memo = .resolved false → ∃ w', w.next thread realm (.resume c) = some w' ∧
          w'.env = w.env ∧ w'.calls c = some { call with target := some call.arguments })

structure Untouched (thread : γ → Thread) (realm : ρ → γ) (env₀ : γ → Env)
    (w : World ρ γ F κ α) (g : γ) : Prop extends StockPath thread realm env₀ w g where
  env : w.env g = env₀ g

theorem stockPath (h : (fallback thread realm env₀).Reachable w)
    (hfail : (w.loader.shared g).init = .done false) : StockPath thread realm env₀ w g := by
  have hloader := loader_reachable h
  have hI := inv_of_reachable hloader
  have hsteady := steady_of_reachable h
  have hnone : (w.loader.shared g).surface = none := by
    have hsurface := hI.surface g
    rw [hfail] at hsurface
    simpa using hsurface
  constructor
  case resolves =>
    rintro r x hr rfl hbegan
    cases hmemo : x.memo with
    | unset => exact absurd hmemo hbegan
    | pending =>
        refine .inr ⟨{ w with loader := w.loader.settle (place thread realm) r x false }, ?_, ?_⟩
        · simp only [World.next, hr, hmemo, hfail]
        · simp [State.settle, State.setInstance]
    | resolved ok =>
        have hdone := (hI.main r x hr).2.resolved ok hmemo
        rw [show (place thread realm r).globalThis = realm r from rfl, hfail] at hdone
        rw [Init.done.inj hdone]
        exact .inl rfl
  case exports =>
    rintro r x hr rfl
    have hbare := plain_of_reachable hloader r x hr hnone
    refine ⟨hbare, ?_⟩
    rw [Personality.ready, hbare, bare_ready]
    rfl
  case disabled =>
    obtain ⟨k, -, -, -, henv⟩ := hsteady.failed hfail
    rw [henv]
    refine execute_other ?_
    intro v
    cases v <;> decide
  case target =>
    rintro c call hc rfl
    obtain ⟨hpassed, hbegan⟩ := hsteady.calls c call hc
    cases htarget : call.target with
    | some a =>
        rw [hpassed a htarget]
        exact .inl rfl
    | none =>
        obtain ⟨x, hr, -⟩ := hbegan htarget
        refine .inr ⟨x, hr, ?_⟩
        intro hmemo
        obtain ⟨r, arguments, target⟩ := call
        obtain rfl : target = none := htarget
        refine ⟨w.resume realm c ⟨r, arguments, none⟩ false, ?_, rfl, ?_⟩
        · simp only at hr
          simp only [World.next, hc, hr, hmemo]
        · simp [World.resume, World.setCall]

/-- **A failed initialisation**, wherever it failed, leaves the stock path; the environment is
as it was exactly if the failure came before the defaults or they were all there. -/
theorem untouched_iff (h : (fallback thread realm env₀).Reachable w)
    (hfail : (w.loader.shared g).init = .done false) :
    ∃ k ∈ body, k.raises = true ∧ w.thrown g = some k ∧
      (Untouched thread realm env₀ w g ↔ k.early = true ∨ ∀ v, (env₀ g).has v = true) := by
  obtain ⟨k, hk, hraises, hthrown, henv⟩ := (steady_of_reachable h).failed hfail
  refine ⟨k, hk, hraises, hthrown, ?_⟩
  rw [← execute_body_eq_iff (t := threads (env₀ g)) hraises, ← henv]
  constructor
  · intro huntouched
    exact huntouched.env
  · intro hsame
    exact ⟨stockPath h hfail, hsame⟩

/-- One registry on the main thread. -/
abbrev single (env : Env) : Machine (World Unit Unit Unit Unit Unit) (Event Unit Unit Unit Unit Unit) :=
  fallback (fun _ => ⟨true, false⟩) id (fun _ => env)

/-- The first call of the wrapper, with a body that fails at a step. -/
def failing (k : Step) : List (Event Unit Unit Unit Unit Unit) :=
  if k ∈ prologue then [.loadBindings () () () (some k), .complete () (fun _ => none) none]
  else [.loadBindings () () () none, .complete () (fun _ => some (.function ())) (some k)]

/-- Every step that raises can be the one. -/
theorem exists_failing {env : Env} {k : Step} (hraises : k.raises = true) :
    ∃ w, (single env).Reachable w ∧ (w.loader.shared ()).init = .done false ∧
      w.thrown () = some k := by
  have hrun : ∀ w, (single env).replay (.init fun _ => env) (failing k) = some w →
      (single env).Reachable w := fun w hw => Machine.Reachable.replay _ (.start rfl) hw
  cases k with
  | setDefault v => cases hraises
  | bridge b => cases b <;> exact ⟨_, hrun _ rfl, rfl, rfl⟩
  | _ => exact ⟨_, hrun _ rfl, rfl, rfl⟩

/-- The module does not instantiate. -/
def notInstantiated : List (Event Unit Unit Unit Unit Unit) :=
  [.loadBindings () () () none, .complete () (fun _ => none) (some .instantiateNapiModule),
    .settle (), .resume ()]

theorem untouched_iff_notInstantiated :
    ∃ w, (single fun _ => none).replay (.init fun _ _ => none) notInstantiated = some w ∧
      ∃ k ∈ body, k.raises = true ∧ w.thrown () = some k ∧
        (Untouched (fun _ => ⟨true, false⟩) id (fun _ _ => none) w () ↔
          k.early = true ∨ ∀ v, Env.has (fun _ => none) v = true) :=
  ⟨_, rfl, untouched_iff (Machine.Reachable.replay notInstantiated (.start rfl) rfl) rfl⟩

/-- Nobody had set `RUST_MIN_STACK`; now it is set for next and its children. -/
theorem notInstantiated_touches :
    ¬∀ w : World Unit Unit Unit Unit Unit, (single fun _ => none).Reachable w →
      (w.loader.shared ()).init = .done false →
        Untouched (fun _ => ⟨true, false⟩) id (fun _ _ => none) w () := by
  intro hclaim
  obtain ⟨w, hw, hinit, hstack⟩ : ∃ w,
      (single fun _ => none).replay (.init fun _ _ => none) notInstantiated = some w ∧
        (w.loader.shared ()).init = .done false ∧
        w.env () "RUST_MIN_STACK" = some "67108864" := ⟨_, rfl, rfl, by decide +kernel⟩
  have huntouched := hclaim w (Machine.Reachable.replay notInstantiated (.start rfl) hw) hinit
  rw [huntouched.env] at hstack
  cases hstack

end TurbopackWasi.Loader
