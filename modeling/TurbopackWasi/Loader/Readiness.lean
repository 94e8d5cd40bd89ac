import TurbopackWasi.Loader.Init

/-!
# TurbopackWasi.Loader.Readiness

An instance becomes ready at two moments: when it is evaluated after the surface was
published, and when the promise of its own `ensureInit` resolves. `Sound` says that it has
the whole surface from then on, and nothing of it before.

Two results follow. The instances of one `globalThis` share one initialisation
(`once`). And a require of `binding.cjs` does what it should exactly if the instance it
finds is live (`conforms_iff`): an instance evaluated too early whose `ensureInit` nobody
called stays without the surface, so does one with a `globalThis` of its own, and on a
worker thread that is not a pool worker nothing stops such an instance from being returned.
-/

namespace TurbopackWasi.Loader

open Lib

variable {ρ γ F : Type} {G G' : Shared F} {S : Surface F} {x : Instance F} {exp : Exports F}

/-! ### The graft -/

/-- `ready`, every raw export and the wrapper. -/
def Carries (S : Surface F) (exp : Exports F) : Prop :=
  exp "ready" = some .ready ∧
    ∀ name e, name ≠ "ready" → S.exports name = some e → exp name = some e

def Full (G : Shared F) (x : Instance F) : Prop := ∃ S, G.surface = some S ∧ Carries S x.exports

theorem applyGraft_none (h : G.surface = none) (exp : Exports F) : applyGraft G exp = exp := by
  simp [applyGraft, h]

theorem carries_applyGraft (h : G.surface = some S) (exp : Exports F) :
    Carries S (applyGraft G exp) := by
  constructor
  · simp [applyGraft, h]
  · intro name e hname he
    simp only [applyGraft, h, if_neg hname]
    simp only [Surface.exports, assign] at he ⊢
    rw [Option.or_eq_some_iff] at he
    rcases he with hover | ⟨hnone, hraw⟩
    · rw [hover, Option.some_or]
    · rw [hnone, hraw, Option.none_or, Option.some_or]

theorem bare_ready : (bare : Exports F) "ready" = none := rfl

/-- The instance was evaluated late enough, or its own `ensureInit` has resolved. -/
def Instance.Live (x : Instance F) : Prop := x.late = true ∨ x.memo = .resolved true

/-! ### What an instance is entitled to -/

structure Sound (G : Shared F) (x : Instance F) : Prop where
  memo : x.memo ≠ .unset → G.init ≠ .idle
  resolved : ∀ ok, x.memo = .resolved ok → G.init = .done ok
  full : x.Live → Full G x
  unready : ¬x.Live → x.exports "ready" = none

/-- What the shared state never takes back. -/
structure Advances (G G' : Shared F) : Prop where
  begun : G.init ≠ .idle → G'.init ≠ .idle
  done : ∀ ok, G.init = .done ok → G'.init = .done ok
  surface : ∀ S, G.surface = some S → G'.surface = some S

theorem Advances.refl (G : Shared F) : Advances G G := ⟨id, fun _ => id, fun _ => id⟩

theorem Sound.mono (h : Sound G x) (hG : Advances G G') : Sound G' x where
  memo hm := hG.begun (h.memo hm)
  resolved ok hm := hG.done ok (h.resolved ok hm)
  full hl := by
    obtain ⟨S, hS, hcarries⟩ := h.full hl
    exact ⟨S, hG.surface S hS, hcarries⟩
  unready := h.unready

/-- A fresh instance. -/
theorem sound_evaluate (G : Shared F) :
    Sound G ⟨applyGraft G bare, .unset, G.surface.isSome⟩ := by
  constructor
  case memo => exact fun h => absurd rfl h
  case resolved =>
    intro ok h
    cases h
  case full =>
    intro hl
    rcases hl with hl | hl
    · obtain ⟨S, hS⟩ := Option.isSome_iff_exists.mp hl
      exact ⟨S, hS, carries_applyGraft hS bare⟩
    · cases hl
  case unready =>
    intro hl
    cases hS : G.surface with
    | none => rw [applyGraft_none hS]; rfl
    | some S => exact absurd (Or.inl (by simp [hS])) hl

/-- `ensureInit` is called the first time. -/
theorem Sound.ensureInit (h : Sound G x) (hunset : x.memo = .unset) (hG : G.init ≠ .idle) :
    Sound G { x with memo := .pending } := by
  have hlive : Instance.Live { x with memo := .pending } ↔ x.Live := by
    simp [Instance.Live, hunset]
  constructor
  case memo => exact fun _ => hG
  case resolved =>
    intro ok hm
    cases hm
  case full => exact fun hl => h.full (hlive.mp hl)
  case unready => exact fun hl => h.unready (fun hx => hl (hlive.mpr hx))

/-- The callback of the instance grafts the surface if there is one. -/
theorem Sound.settle {ok : Bool} (h : Sound G x) (hdone : G.init = .done ok)
    (hsurface : G.surface.isSome = true ↔ G.init = .done true) :
    Sound G { x with
      exports := if ok then applyGraft G x.exports else x.exports
      memo := .resolved ok } := by
  constructor
  case memo =>
    intro _ hidle
    rw [hdone] at hidle
    cases hidle
  case resolved =>
    intro ok' hm
    cases hm
    exact hdone
  case full =>
    intro hl
    cases ok with
    | true =>
        obtain ⟨S, hS⟩ := Option.isSome_iff_exists.mp (hsurface.mpr hdone)
        exact ⟨S, hS, carries_applyGraft hS x.exports⟩
    | false =>
        rcases hl with hl | hl
        · exact h.full (Or.inl hl)
        · cases hl
  case unready =>
    intro hl
    cases ok with
    | true => exact absurd (Or.inr rfl) hl
    | false =>
        refine h.unready ?_
        intro hx
        rcases hx with hx | hx
        · exact hl (Or.inl hx)
        · have hbad := h.resolved true hx
          rw [hdone] at hbad
          cases hbad

theorem Sound.ready_iff (h : Sound G x) : (x.exports "ready").isSome = true ↔ x.Live := by
  constructor
  · intro hready
    by_contra hl
    rw [h.unready hl] at hready
    cases hready
  · intro hl
    obtain ⟨S, -, hready, -⟩ := h.full hl
    rw [hready]
    rfl

/-! ### All registries -/

structure Inv (site : ρ → Site γ) (s : State ρ γ F) : Prop where
  started : ∀ g, (s.shared g).started ≤ 1
  idle : ∀ g, (s.shared g).init = .idle → (s.shared g).started = 0
  surface : ∀ g, (s.shared g).surface.isSome = true ↔ (s.shared g).init = .done true
  proxy : ∀ r, s.loader r = some .proxy → (site r).inPoolWorker = true
  main : ∀ r x, s.loader r = some (.main x) →
    (site r).inPoolWorker = false ∧ Sound (s.shared (site r).globalThis) x
  /-- What the require cache holds has passed the check. -/
  cached : ∀ r, s.cached r = true →
    ∃ m, s.loader r = some m ∧ ((site r).isMainThread = true → m.ready = true)

section Steps

variable [DecidableEq ρ] [DecidableEq γ] {site : ρ → Site γ} {s s' : State ρ γ F} {r : ρ} {g : γ}

omit [DecidableEq ρ] [DecidableEq γ] in
theorem inv_init : Inv site (State.init : State ρ γ F) where
  started _ := Nat.zero_le 1
  idle _ _ := rfl
  surface g := by simp [State.init]
  proxy r h := by cases h
  main r x h := by cases h
  cached r h := by cases h

omit [DecidableEq ρ] in
/-- One shared state advances; the instances keep what they have. -/
theorem inv_advance (hI : Inv site s) (hadvances : Advances (s.shared g) G)
    (hstarted : G.started ≤ 1) (hidle : G.init = .idle → G.started = 0)
    (hsurface : G.surface.isSome = true ↔ G.init = .done true) (maps : Nat) :
    Inv site { s with shared := Function.update s.shared g G, maps := maps } := by
  have hall : ∀ k, Advances (s.shared k) (Function.update s.shared g G k) := by
    intro k
    by_cases hk : k = g
    · subst hk
      rw [Function.update_self]
      exact hadvances
    · rw [Function.update_of_ne hk]
      exact .refl _
  constructor
  case started =>
    intro k
    by_cases hk : k = g
    · subst hk
      simpa using hstarted
    · simpa [hk] using hI.started k
  case idle =>
    intro k
    by_cases hk : k = g
    · subst hk
      simpa using hidle
    · simpa [hk] using hI.idle k
  case surface =>
    intro k
    by_cases hk : k = g
    · subst hk
      simpa using hsurface
    · simpa [hk] using hI.surface k
  case proxy => exact hI.proxy
  case main =>
    intro r x hr
    obtain ⟨hsite, hsound⟩ := hI.main r x hr
    exact ⟨hsite, hsound.mono (hall _)⟩
  case cached => exact hI.cached

omit [DecidableEq γ] in
/-- One instance changes, soundly. -/
theorem inv_setInstance {x' : Instance F} (hI : Inv site s) (hr : s.loader r = some (.main x))
    (hsound : Sound (s.shared (site r).globalThis) x')
    (hready : (x.exports "ready").isSome = true → (x'.exports "ready").isSome = true) :
    Inv site (s.setInstance r x') := by
  constructor
  case started => exact hI.started
  case idle => exact hI.idle
  case surface => exact hI.surface
  case proxy =>
    intro k hk
    by_cases h : k = r
    · subst h
      simp [State.setInstance] at hk
    · exact hI.proxy k (by simpa [State.setInstance, h] using hk)
  case main =>
    intro k y hk
    by_cases h : k = r
    · subst h
      obtain rfl : x' = y := by simpa [State.setInstance] using hk
      exact ⟨(hI.main k x hr).1, hsound⟩
    · exact hI.main k y (by simpa [State.setInstance, h] using hk)
  case cached =>
    intro k hk
    obtain ⟨m, hm, hmain⟩ := hI.cached k hk
    by_cases h : k = r
    · subst h
      obtain rfl : m = .main x := Option.some.inj (hm.symm.trans hr)
      exact ⟨.main x', by simp [State.setInstance], fun ht => hready (hmain ht)⟩
    · exact ⟨m, by simpa [State.setInstance, h] using hm, hmain⟩

omit [DecidableEq γ] in
theorem requireLoader_eq (s : State ρ γ F) (r : ρ) :
    (s.requireLoader site r).2.loader r = some (s.requireLoader site r).1 := by
  cases hr : s.loader r with
  | some m => simp [State.requireLoader, hr]
  | none => simp [State.requireLoader, hr]

omit [DecidableEq γ] in
theorem requireLoader_shared (s : State ρ γ F) (r : ρ) :
    (s.requireLoader site r).2.shared = s.shared := by
  cases hr : s.loader r with
  | some m => simp [State.requireLoader, hr]
  | none => simp [State.requireLoader, hr]

omit [DecidableEq γ] in
theorem inv_requireLoader (hI : Inv site s) (r : ρ) : Inv site (s.requireLoader site r).2 := by
  cases hr : s.loader r with
  | some m => simpa [State.requireLoader, hr] using hI
  | none =>
      have hstate : (s.requireLoader site r).2 = { s with
          loader := Function.update s.loader r
            (some (evaluate (site r) (s.shared (site r).globalThis))) } := by
        simp [State.requireLoader, hr]
      rw [hstate]
      refine { hI with
        proxy := ?_
        main := ?_
        cached := ?_ }
      · intro k hk
        by_cases h : k = r
        · subst h
          simp only [Function.update_self, evaluate, Option.some.injEq] at hk
          split at hk
          · assumption
          · cases hk
        · exact hI.proxy k (by simpa [h] using hk)
      · intro k x hk
        by_cases h : k = r
        · subst h
          simp only [Function.update_self, evaluate, Option.some.injEq] at hk
          split at hk
          · cases hk
          · next hsite =>
              cases hk
              exact ⟨by simpa using hsite, sound_evaluate _⟩
        · exact hI.main k x (by simpa [h] using hk)
      · intro k hk
        obtain ⟨m, hm, hmain⟩ := hI.cached k hk
        have hne : k ≠ r := by
          intro h
          rw [h, hr] at hm
          cases hm
        exact ⟨m, by simpa [hne] using hm, hmain⟩

omit [DecidableEq γ] in
theorem inv_requireBinding (hI : Inv site s) (r : ρ) :
    Inv site (s.requireBinding site r).2 := by
  have hloader := inv_requireLoader hI r
  simp only [State.requireBinding]
  split
  · exact hloader
  · split
    · exact hloader
    · next hpass =>
        refine { hloader with cached := ?_ }
        intro k hk
        by_cases h : k = r
        · subst h
          refine ⟨_, requireLoader_eq s k, ?_⟩
          intro ht
          simpa [ht] using hpass
        · exact hloader.cached k (by simpa [h] using hk)

omit [DecidableEq γ] in
theorem requireBinding_shared (s : State ρ γ F) (r : ρ) :
    (s.requireBinding site r).2.shared = s.shared := by
  simp only [State.requireBinding]
  split
  · exact requireLoader_shared s r
  · split <;> exact requireLoader_shared s r

theorem inv_ensureInit (hI : Inv site s) (hr : s.loader r = some (.main x)) (instantiates : Bool) :
    Inv site (s.ensureInit site r x instantiates) := by
  have hsound := (hI.main r x hr).2
  unfold State.ensureInit
  split
  · next hunset =>
      simp only [State.setInstance]
      split
      · next hidle =>
          -- this call starts the body
          have hstarted := hI.idle _ hidle
          have hsurface := hI.surface (site r).globalThis
          have hbegun := inv_advance hI
            (G := { s.shared (site r).globalThis with
              init := .running instantiates
              started := if instantiates then (s.shared (site r).globalThis).started + 1
                else (s.shared (site r).globalThis).started })
            ⟨fun _ => by simp, by simp [hidle], fun S hS => hS⟩
            (by cases instantiates <;> simp [hstarted])
            (by simp) (by simp [hidle] at hsurface; simp [hsurface]) s.maps
          have hsound' := (hbegun.main r x hr).2
          exact inv_setInstance hbegun hr (hsound'.ensureInit hunset (by simp)) id
      · next hbusy =>
          exact inv_setInstance hI hr (hsound.ensureInit hunset (by simpa using hbusy)) id
  · exact hI

omit [DecidableEq ρ] in
theorem inv_complete (hI : Inv site s) {instantiated : Bool}
    (hrun : (s.shared g).init = .running instantiated)
    (raw : Option (String → Option (RawExport F))) : Inv site (s.complete g raw) := by
  have hsurface := hI.surface g
  have hnone : (s.shared g).surface = none := by simpa [hrun] using hsurface
  have hstarted := hI.started g
  cases raw with
  | none =>
      exact inv_advance (G := { s.shared g with init := .done false }) hI
        ⟨by simp, by simp [hrun], fun S hS => hS⟩ hstarted (by simp) (by simp [hnone]) s.maps
  | some raw =>
      exact inv_advance (G := { s.shared g with init := .done true, surface := some ⟨raw, s.maps⟩ })
        hI ⟨by simp, by simp [hrun], by simp [hnone]⟩ hstarted (by simp) (by simp) (s.maps + 1)

omit [DecidableEq γ] in
theorem inv_settle (hI : Inv site s) (hr : s.loader r = some (.main x)) {ok : Bool}
    (hdone : (s.shared (site r).globalThis).init = .done ok) :
    Inv site (s.settle site r x ok) := by
  have hsound := (hI.main r x hr).2
  have hsettle := hsound.settle hdone (hI.surface _)
  refine inv_setInstance hI hr hsettle ?_
  intro hready
  -- the graft sets `ready`, and without it nothing changes
  cases ok with
  | false => exact hready
  | true =>
      obtain ⟨S, hS⟩ := Option.isSome_iff_exists.mp ((hI.surface _).mpr hdone)
      simp [(carries_applyGraft hS x.exports).1]

/-- What a step does, and when. -/
inductive Takes (site : ρ → Site γ) (s : State ρ γ F) : State ρ γ F → Prop
  | evaluate (r : ρ) : Takes site s (s.requireLoader site r).2
  | require (r : ρ) : Takes site s (s.requireBinding site r).2
  | ensureInit {r : ρ} {x : Instance F} (hr : s.loader r = some (.main x)) (instantiates : Bool) :
      Takes site s (s.ensureInit site r x instantiates)
  | complete {g : γ} {instantiated : Bool} (hrun : (s.shared g).init = .running instantiated)
      (raw : Option (String → Option (RawExport F))) : Takes site s (s.complete g raw)
  | settle {r : ρ} {x : Instance F} {ok : Bool} (hr : s.loader r = some (.main x))
      (hmemo : x.memo = .pending) (hdone : (s.shared (site r).globalThis).init = .done ok) :
      Takes site s (s.settle site r x ok)

theorem takes_of_next {a : Act ρ γ F} (hn : next site s a = some s') : Takes site s s' := by
  cases a with
  | evaluate r =>
      obtain rfl := Option.some.inj hn
      exact .evaluate r
  | ensureInit r instantiates =>
      simp only [next] at hn
      split at hn
      · next x hr =>
          obtain rfl := Option.some.inj hn
          exact .ensureInit hr instantiates
      · cases hn
  | complete g raw =>
      simp only [next] at hn
      split at hn
      · next instantiated hrun =>
          split at hn
          · cases hn
          · obtain rfl := Option.some.inj hn
            exact .complete hrun raw
      · cases hn
  | settle r =>
      simp only [next] at hn
      split at hn
      · next x hr =>
          split at hn
          · next ok hmemo hdone =>
              obtain rfl := Option.some.inj hn
              exact .settle hr hmemo hdone
          · cases hn
      · cases hn
  | require r =>
      obtain rfl := Option.some.inj hn
      exact .require r

theorem inv_takes (hI : Inv site s) (ht : Takes site s s') : Inv site s' := by
  cases ht with
  | evaluate r => exact inv_requireLoader hI r
  | require r => exact inv_requireBinding hI r
  | ensureInit hr instantiates => exact inv_ensureInit hI hr instantiates
  | complete hrun raw => exact inv_complete hI hrun raw
  | settle hr _ hdone => exact inv_settle hI hr hdone

theorem inv_of_reachable (h : (machine site).Reachable s) : Inv site s := by
  refine h.invariant (I := Inv site) ?_ ?_
  · intro s hs
    exact hs ▸ inv_init
  · intro s a s' hI _ hn
    exact inv_takes hI (takes_of_next hn)

/-! ### One initialisation -/

/-- What the instances of one `globalThis` share. -/
structure SharesOnce (site : ρ → Site γ) (s : State ρ γ F) : Prop where
  started : ∀ g, (s.shared g).started ≤ 1
  /-- The promises of `ensureInit` resolve to the same boolean, -/
  agree : ∀ r r' x x' ok ok', (site r).globalThis = (site r').globalThis →
    s.loader r = some (.main x) → s.loader r' = some (.main x') →
    x.memo = .resolved ok → x'.memo = .resolved ok' → ok = ok'
  /-- which tells if the surface is published. -/
  published : ∀ r x ok, s.loader r = some (.main x) → x.memo = .resolved ok →
    (ok = true ↔ (s.shared (site r).globalThis).surface.isSome = true)
  /-- The instance then has the whole surface, with the one wrapper and its one map. -/
  carries : ∀ r x, s.loader r = some (.main x) → x.memo = .resolved true →
    ∃ S, (s.shared (site r).globalThis).surface = some S ∧ Carries S x.exports ∧
      ∀ f, S.raw "registerWorkerScheduler" = some (.function f) →
        x.exports "registerWorkerScheduler" = some (.override f S.poolWorkers)
  /-- A promise waits only for the body, which can end, and for its own callback. -/
  pending : ∀ r x, s.loader r = some (.main x) → x.memo = .pending →
    ((next site s (.complete (site r).globalThis none)).isSome ∨ (next site s (.settle r)).isSome)

/-- What a require of `binding.cjs` should do; `main` is the global object of the shared
initialisation. -/
structure Conforms (site : ρ → Site γ) (main : γ) (s : State ρ γ F) (r : ρ) : Prop where
  /-- A pool worker gets the proxy, -/
  proxy : (site r).inPoolWorker = true → (s.requireBinding site r).1 = some .proxy
  /-- anybody else an instance with the full surface or an exception. -/
  returns : (site r).inPoolWorker = false → ∀ m, (s.requireBinding site r).1 = some m →
    ∃ x, m = .main x ∧ Full (s.shared (site r).globalThis) x
  /-- After the initialisation the main thread gets no exception. -/
  succeeds : (site r).isMainThread = true → (s.shared main).init = .done true →
    (s.requireBinding site r).1.isSome = true

/-- The instance that a require finds or evaluates has the surface: it is evaluated after
the surface was published on its `globalThis`, or its own `ensureInit` has resolved. -/
def State.LiveAt (site : ρ → Site γ) (s : State ρ γ F) (r : ρ) : Prop :=
  match s.loader r with
  | none => (s.shared (site r).globalThis).init = .done true
  | some .proxy => True
  | some (.main x) => x.Live

omit [DecidableEq γ] in
/-- The require cache changes nothing. -/
theorem requireBinding_fst (hI : Inv site s) (r : ρ) :
    (s.requireBinding site r).1 =
      if (site r).isMainThread && !(s.requireLoader site r).1.ready then none
      else some (s.requireLoader site r).1 := by
  simp only [State.requireBinding]
  split
  · next hcached =>
      obtain ⟨m, hm, hready⟩ := hI.cached r hcached
      have hsame : (s.requireLoader site r).1 = m := by simp [State.requireLoader, hm]
      rw [hsame, if_neg]
      intro hfail
      obtain ⟨ht, hnot⟩ := Bool.and_eq_true_iff.mp hfail
      rw [hready ht] at hnot
      cases hnot
  · split
    · rfl
    · rfl

omit [DecidableEq γ] in
/-- Outside the pool workers a require finds an instance. -/
theorem requireLoader_main (hI : Inv site s) (hsite : (site r).inPoolWorker = false) :
    ∃ x, (s.requireLoader site r).1 = .main x ∧
      Sound (s.shared (site r).globalThis) x ∧ (x.Live ↔ s.LiveAt site r) := by
  have hsound := inv_requireLoader hI r
  have hloader : (s.requireLoader site r).2.loader r = some (s.requireLoader site r).1 :=
    requireLoader_eq s r
  cases hm : (s.requireLoader site r).1 with
  | proxy =>
      rw [hm] at hloader
      rw [hsound.proxy r hloader] at hsite
      cases hsite
  | main x =>
      rw [hm] at hloader
      have hx := (hsound.main r x hloader).2
      rw [requireLoader_shared] at hx
      refine ⟨x, rfl, hx, ?_⟩
      unfold State.LiveAt
      cases hr : s.loader r with
      | some m =>
          obtain rfl : m = .main x := by simpa [State.requireLoader, hr] using hm
          exact Iff.rfl
      | none =>
          simp only [State.requireLoader, hr, evaluate, hsite, Bool.false_eq_true, if_false,
            Personality.main.injEq] at hm
          simp [Instance.Live, ← hm, hI.surface]

/-- **When `binding.cjs` is live.** A require does what it should exactly if it is that of a
pool worker, or finds a live instance, or on the main thread comes before the end of the
initialisation. -/
theorem conforms_iff (h : (machine site).Reachable s) (main : γ) (r : ρ) :
    Conforms site main s r ↔ (site r).inPoolWorker = true ∨ s.LiveAt site r ∨
      ((site r).isMainThread = true ∧ (s.shared main).init ≠ .done true) := by
  have hI := inv_of_reachable h
  have hfst := requireBinding_fst hI r
  cases hsite : (site r).inPoolWorker with
  | true =>
      refine ⟨fun _ => Or.inl rfl, fun _ => ?_⟩
      have hthread : (site r).isMainThread = false := by
        simp [Site.inPoolWorker] at hsite
        exact hsite.1
      have hproxy : (s.requireLoader site r).1 = .proxy := by
        cases hm : (s.requireLoader site r).1 with
        | proxy => rfl
        | main x =>
            have hloader : (s.requireLoader site r).2.loader r =
                some (s.requireLoader site r).1 := requireLoader_eq s r
            rw [hm] at hloader
            rw [((inv_requireLoader hI r).main r x hloader).1] at hsite
            cases hsite
      rw [hthread, hproxy] at hfst
      exact ⟨fun _ => hfst, fun hno => absurd hno (by simp [hsite]), by simp [hthread]⟩
  | false =>
      obtain ⟨x, hx, hsound, hlive⟩ := requireLoader_main hI hsite
      have hready : (Personality.main x).ready = true ↔ s.LiveAt site r :=
        (hsound.ready_iff).trans hlive
      rw [hx] at hfst
      by_cases hL : s.LiveAt site r
      · -- a live instance passes the check on every thread
        refine ⟨fun _ => Or.inr (Or.inl hL), fun _ => ?_⟩
        rw [hready.mpr hL] at hfst
        simp only [Bool.not_true, Bool.and_false, Bool.false_eq_true, if_false] at hfst
        refine ⟨by simp [hsite], ?_, by simp [hfst]⟩
        intro _ m hm
        obtain rfl : .main x = m := Option.some.inj (hfst.symm.trans hm)
        exact ⟨x, rfl, hsound.full (hlive.mpr hL)⟩
      · have hnot : (Personality.main x).ready = false := by
          rw [Bool.eq_false_iff]
          exact fun hr => hL (hready.mp hr)
        rw [hnot] at hfst
        cases hthread : (site r).isMainThread with
        | true =>
            have hthrows : (s.requireBinding site r).1 = none := by simpa [hthread] using hfst
            constructor
            · intro hC
              refine Or.inr (Or.inr ⟨rfl, ?_⟩)
              intro hdone
              have hsome := hC.succeeds hthread hdone
              rw [hthrows] at hsome
              cases hsome
            · intro hcond
              have hbefore : (s.shared main).init ≠ .done true := by
                simpa [hL] using hcond
              refine ⟨by simp [hsite], ?_, fun _ hdone => absurd hdone hbefore⟩
              intro _ m hm
              rw [hthrows] at hm
              cases hm
        | false =>
            -- nothing stops the instance from being returned as it is
            have hreturned : (s.requireBinding site r).1 = some (.main x) := by
              simpa [hthread] using hfst
            refine ⟨fun hC => ?_, fun hcond => absurd hcond (by simp [hL])⟩
            obtain ⟨y, hy, S, -, hcarries⟩ := hC.returns hsite _ hreturned
            obtain rfl : x = y := Personality.main.inj hy
            have hl := hlive.mp (hsound.ready_iff.mp (by rw [hcarries.1]; rfl))
            exact absurd hl hL

end Steps

/-! ### A process -/

/-- Two registries of the main thread, a sandbox with its own `globalThis`, and a worker
thread that is not a pool worker. -/
def registries : Nat → Site Nat
  | 0 | 1 => ⟨true, false, 0⟩
  | 2 => ⟨true, false, 1⟩
  | _ => ⟨false, false, 2⟩

def scheduler : String → Option (RawExport Unit) := fun name =>
  if name = "registerWorkerScheduler" then some (.function ()) else none

/-- The second registry evaluates the loader while the initialisation of the first runs. -/
def evaluatedEarly : List (Act Nat Nat Unit) :=
  [.evaluate 0, .ensureInit 0 true, .evaluate 1, .complete 0 (some scheduler), .settle 0]

theorem conforms_evaluatedEarly :
    ∃ s, (machine registries).replay .init evaluatedEarly = some s ∧ Conforms registries 0 s 0 :=
  ⟨_, rfl, (conforms_iff (Machine.Reachable.replay evaluatedEarly (.start rfl) rfl) 0 0).mpr
    (Or.inr (Or.inl (Or.inr rfl)))⟩

/-- The initialisation has succeeded, but only the first registry has a binding. -/
theorem evaluatedEarly_not_conforms :
    ∃ s, (machine registries).replay .init evaluatedEarly = some s ∧
      (s.shared 0).init = .done true ∧ ¬Conforms registries 0 s 1 ∧
      ¬Conforms registries 0 s 2 ∧ ¬Conforms registries 0 s 3 := by
  refine ⟨_, rfl, rfl, ?_, ?_, ?_⟩
  · intro h
    cases h.succeeds rfl rfl
  · intro h
    cases h.succeeds rfl rfl
  · intro h
    obtain ⟨x, -, S, hS, -⟩ := h.returns rfl _ rfl
    cases hS

end TurbopackWasi.Loader
