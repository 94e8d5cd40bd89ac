import TurbopackWasi.Loader.Hook

/-!
# TurbopackWasi.Loader.Transparent

**The hook changes nothing but the wrappers.** A run with the hook, seen without the
wrappers, is the run of the module system alone (`transparent`): the same modules are
evaluated and cached, and callers of `require` get the same objects. No wrapper is ever put
around a wrapper, and no `createTransformer` replaced twice (`once`), so a call through
what `require` returned awaits the initialisation at most once and reaches the function of
the module with the same arguments (`delegates`, which names the exceptions). The module with `loadBindings` gets its
wrapper on the first load, under whatever name it is required (`engaged`).
-/

namespace TurbopackWasi.Loader.Hook

open Lib

variable {s s' p : State} {v w : Exports} {request : Option String} {file : Option Filename}
  {f : Filename} {id : Nat}

/-! ### A run -/

/-- The compiled `swc/index.js`. -/
def swcShape : Shape := ⟨false, false, false, true⟩

/-- The `swc/index.js` of an app. -/
def swcFile : Filename := "/app/node_modules/next/dist/build/swc/index.js"

/-- The workers of a build require the module as `./index`. -/
def buildWorker : List Act :=
  [.begin swcFile, .define 0 swcShape, .load (some "./index") swcFile true,
    .load (some "next/dist/build/swc") swcFile true]

/-! ### What the hook does with one module -/

/-- The wrappers that take the place of a module in the cache. -/
inductive Wrapper : Exports → Exports → Prop
  | nextJest {v : Exports} : Wrapper v (.nextJest v)
  | log {v : Exports} : Wrapper v (.log v)
  | swc {v : Exports} : Wrapper v (.swc v)

theorem Wrapper.strip_eq (h : Wrapper v w) : w.strip = v.strip := by
  cases h <;> rfl

theorem Wrapper.depth_eq (h : Wrapper v w) : w.depth = v.depth + 1 := by
  cases h <;> rfl

/-- The hook lets the exports be, or wraps those that are not wrapped yet. -/
inductive Loads (s : State) (file : Option Filename) (v : Exports) : State → Exports → Prop
  | pass : Loads s file v s v
  | swap {f : Filename} {w : Exports} : file = some f → Wrapper v w → v ≠ .primitive →
      s.wrapped v = false → Loads s file v (s.swap f w) w
  | transformer : s.wrapped v = false → s.createTransformer v = true →
      Loads s file v (s.wrapJestTransformer v) v

theorem loads_load (s : State) (request : Option String) (file : Option Filename)
    (v : Exports) :
    Loads s file v (s.load request file v).1 (s.load request file v).2 := by
  unfold State.load
  cases request with
  | none => exact .pass
  | some request =>
      by_cases hp : v = .primitive
      · simp only [if_pos hp]
        exact .pass
      · simp only [if_neg hp]
        split
        · rename_i hjest
          simp only [Bool.and_eq_true, Bool.not_eq_true'] at hjest
          cases file with
          | none => exact .pass
          | some f =>
              dsimp only
              split
              · exact .swap rfl .nextJest hp hjest.2
              · exact .pass
        · split
          · rename_i hlog
            simp only [Bool.and_eq_true, Bool.not_eq_true'] at hlog
            cases file with
            | none => exact .pass
            | some f =>
                dsimp only
                split
                · exact .swap rfl .log hp hlog.2
                · exact .pass
          · split
            · rename_i hjt
              simp only [Bool.and_eq_true, Bool.not_eq_true'] at hjt
              cases file with
              | none => exact .pass
              | some f =>
                  dsimp only
                  split
                  · exact .transformer hjt.2 hjt.1
                  · exact .pass
            · split
              · exact .pass
              · rename_i hswc
                simp only [Bool.or_eq_true, Bool.not_eq_true', not_or,
                  Bool.not_eq_false, Bool.not_eq_true] at hswc
                cases file with
                | none => exact .pass
                | some f =>
                    dsimp only
                    split
                    · exact .swap rfl .swc hp hswc.2
                    · exact .pass

theorem lookup_insert_iff {cache : AList fun _ : Filename => Exports} {x : Filename}
    {y : Exports} :
    (cache.insert f w).lookup x = some y ↔
      x = f ∧ y = w ∨ x ≠ f ∧ cache.lookup x = some y := by
  by_cases hx : x = f
  · subst hx
    rw [AList.lookup_insert]
    simp [eq_comm]
  · rw [AList.lookup_insert_ne hx]
    simp [hx]

theorem lookup_swap {x : Filename} {y : Exports}
    (h : (s.swap f w).cache.lookup x = some y) : y = w ∨ s.cache.lookup x = some y := by
  unfold State.swap at h
  split at h
  · rcases lookup_insert_iff.mp h with ⟨-, rfl⟩ | ⟨-, hold⟩
    · exact Or.inl rfl
    · exact Or.inr hold
  · exact Or.inr h

@[simp] theorem swap_shape : (s.swap f w).shape = s.shape := by
  unfold State.swap
  split <;> rfl

@[simp] theorem swap_wraps : (s.swap f w).wraps = s.wraps := by
  unfold State.swap
  split <;> rfl

@[simp] theorem swap_fresh : (s.swap f w).fresh = s.fresh := by
  unfold State.swap
  split <;> rfl

@[simp] theorem swap_seen : (s.swap f w).seen = s.seen := by
  unfold State.swap
  split <;> rfl

/-- Replacing `createTransformer` changes the object only. -/
theorem wrapJestTransformer_spec (s : State) (v : Exports) :
    (s.wrapJestTransformer v).cache = s.cache ∧ (s.wrapJestTransformer v).shape = s.shape ∧
      (s.wrapJestTransformer v).fresh = s.fresh ∧ (s.wrapJestTransformer v).seen = s.seen := by
  cases v <;> exact ⟨rfl, rfl, rfl, rfl⟩

theorem sweepModule_cases (s : State) (f : Filename) (v : Exports) :
    s.sweepModule f v = s ∨
      s.wrapped v = false ∧ s.createTransformer v = true ∧
        s.sweepModule f v = s.wrapJestTransformer v := by
  unfold State.sweepModule
  split
  · rename_i h
    simp only [Bool.and_eq_true, Bool.not_eq_true'] at h
    exact Or.inr ⟨h.2, h.1.2, rfl⟩
  · exact Or.inl rfl

/-- What every round of the loop keeps, the whole loop keeps. -/
theorem sweep_induction {P : State → Prop} (h : P s)
    (hstep : ∀ s f v, P s → P (s.sweepModule f v)) : P s.sweep := by
  unfold State.sweep
  generalize s.cache.entries = entries
  induction entries generalizing s with
  | nil => exact h
  | cons m entries ih => exact ih (hstep s m.1 m.2 h)

/-! ### Without the wrappers -/

/-- The same step, of the values without the wrappers. -/
def Act.strip : Act → Act
  | .assign f v => .assign f v.strip
  | .loadUncached request f v => .loadUncached request f v.strip
  | a => a

/-- `p` is what `s` is without the wrappers. -/
structure Bare (s p : State) : Prop where
  cache : ∀ f, p.cache.lookup f = (s.cache.lookup f).map Exports.strip
  shape : p.shape = s.shape
  fresh : p.fresh = s.fresh
  seen : p.seen = s.seen.map Exports.strip
  /-- Nothing is cached or handed out that was not made. -/
  made : ∀ v, v ∈ s.seen ∨ (∃ f, s.cache.lookup f = some v) → p.Has v.strip

theorem strip_strip (v : Exports) : v.strip.strip = v.strip := by
  induction v with
  | primitive | own => rfl
  | nextJest v ih | log v ih | swc v ih => exact ih

theorem has_mono {p' : State} (hf : p.fresh ≤ p'.fresh) (h : p.Has v.strip) :
    p'.Has v.strip := by
  induction v with
  | primitive => trivial
  | own id => exact Nat.lt_of_lt_of_le h hf
  | nextJest v ih | log v ih | swc v ih => exact ih h

theorem Bare.has (hB : Bare s p) (h : s.Has v) : p.Has v.strip := by
  cases v with
  | primitive => trivial
  | own id =>
      show id < p.fresh
      rw [hB.fresh]
      exact h
  | nextJest v | log v | swc v => exact hB.made _ (Or.inl h)

theorem Bare.isSome (hB : Bare s p) (f : Filename) :
    (p.cache.lookup f).isSome = (s.cache.lookup f).isSome := by
  rw [hB.cache f]
  cases s.cache.lookup f <;> rfl

theorem Bare.wrapJestTransformer (hB : Bare s p) (v : Exports) :
    Bare (s.wrapJestTransformer v) p := by
  obtain ⟨hcache, hshape, hfresh, hseen⟩ := wrapJestTransformer_spec s v
  refine ⟨fun x => ?_, ?_, ?_, ?_, ?_⟩
  · rw [hcache]
    exact hB.cache x
  · rw [hshape]
    exact hB.shape
  · rw [hfresh]
    exact hB.fresh
  · rw [hseen]
    exact hB.seen
  · rw [hcache, hseen]
    exact hB.made

/-- What the hook does to one module cannot be seen without the wrappers. -/
theorem bare_loads (hB : Bare s p) (hv : p.Has v.strip) (hl : Loads s file v s' w)
    (hcached : ∀ f, file = some f → ∀ y, s.cache.lookup f = some y → y.strip = v.strip) :
    Bare s' p ∧ w.strip = v.strip := by
  cases hl with
  | pass => exact ⟨hB, rfl⟩
  | @swap f w hf hw hne hnot =>
      refine ⟨⟨fun x => ?_, by simpa using hB.shape, by simpa using hB.fresh,
        by simpa using hB.seen, fun x hx => ?_⟩, hw.strip_eq⟩
      · unfold State.swap
        split
        · rename_i hsome
          by_cases hx : x = f
          · subst hx
            obtain ⟨y, hy⟩ := Option.isSome_iff_exists.mp hsome
            rw [AList.lookup_insert, hB.cache x, hy]
            show some y.strip = some w.strip
            rw [hcached x hf y hy, hw.strip_eq]
          · rw [AList.lookup_insert_ne hx]
            exact hB.cache x
        · exact hB.cache x
      · rcases hx with hseen | ⟨g, hg⟩
        · exact hB.made x (Or.inl (by simpa using hseen))
        · rcases lookup_swap hg with rfl | hold
          · rw [hw.strip_eq]
            exact hv
          · exact hB.made x (Or.inr ⟨g, hold⟩)
  | transformer _ _ => exact ⟨hB.wrapJestTransformer v, rfl⟩

theorem hand_true (s : State) (request : Option String) (file : Option Filename) (v : Exports) :
    s.hand true request file v = { (s.load request file v).1 with
      seen := (s.load request file v).2 :: (s.load request file v).1.seen } := rfl

theorem hand_false (s : State) (request : Option String) (file : Option Filename) (v : Exports) :
    s.hand false request file v = { s with seen := v :: s.seen } := rfl

theorem bare_hand (hB : Bare s p) (hv : p.Has v.strip) (request : Option String)
    (hcached : ∀ f, file = some f → ∀ y, s.cache.lookup f = some y → y.strip = v.strip)
    (plain : Option Filename) :
    Bare (s.hand true request file v) (p.hand false request plain v.strip) := by
  obtain ⟨hB', hw⟩ := bare_loads hB hv (loads_load s request file v) hcached
  rw [hand_true, hand_false]
  generalize s.load request file v = r at hB' hw
  refine ⟨hB'.cache, hB'.shape, hB'.fresh, ?_, fun x hx => ?_⟩
  · simp only [List.map_cons, hw, hB'.seen]
  · have hhas : p.Has x.strip := by
      rcases hx with hseen | hcache
      · rcases List.mem_cons.mp hseen with rfl | hold
        · rw [hw]
          exact hv
        · exact hB'.made x (Or.inl hold)
      · exact hB'.made x (Or.inr hcache)
    exact has_mono (p := p) (Nat.le_refl _) hhas

/-- A step with the hook is the same step without it. -/
theorem bare_next {a : Act} (hB : Bare s p) (hn : next true s a = some s') :
    ∃ p', next false p a.strip = some p' ∧ Bare s' p' := by
  cases a with
  | begin f =>
      obtain rfl := Option.some.inj hn
      refine ⟨_, rfl, fun x => ?_, ?_, ?_, hB.seen, fun x hx => ?_⟩
      · by_cases hx : x = f
        · subst hx
          rw [AList.lookup_insert, AList.lookup_insert, hB.fresh]
          rfl
        · rw [AList.lookup_insert_ne hx, AList.lookup_insert_ne hx]
          exact hB.cache x
      · simp only [hB.shape, hB.fresh]
      · simp only [hB.fresh]
      · rcases hx with hseen | ⟨g, hg⟩
        · exact has_mono (p := p) (Nat.le_succ _) (hB.made x (Or.inl hseen))
        · rcases lookup_insert_iff.mp hg with ⟨-, rfl⟩ | ⟨-, hold⟩
          · show s.fresh < p.fresh + 1
            rw [hB.fresh]
            exact Nat.lt_succ_self _
          · exact has_mono (p := p) (Nat.le_succ _) (hB.made x (Or.inr ⟨g, hold⟩))
  | define id shape =>
      simp only [next, Option.ite_none_right_eq_some, Option.some.injEq] at hn
      obtain ⟨hid, rfl⟩ := hn
      refine ⟨{ p with shape := Function.update p.shape id shape }, ?_, hB.cache, ?_, hB.fresh,
        hB.seen, fun x hx => has_mono (p := p) (Nat.le_refl _) (hB.made x hx)⟩
      · simp [Act.strip, next, hB.fresh, hid]
      · simp only [hB.shape]
  | assign f v =>
      simp only [next, Option.ite_none_right_eq_some, Option.some.injEq] at hn
      obtain ⟨⟨hf, hv⟩, rfl⟩ := hn
      refine ⟨{ p with cache := p.cache.insert f v.strip }, ?_, fun x => ?_, hB.shape, hB.fresh,
        hB.seen, fun x hx => ?_⟩
      · simp only [Act.strip, next, hB.isSome f, hf, hB.has hv, and_self, if_true]
      · by_cases hx : x = f
        · subst hx
          rw [AList.lookup_insert, AList.lookup_insert]
          rfl
        · rw [AList.lookup_insert_ne hx, AList.lookup_insert_ne hx]
          exact hB.cache x
      · rcases hx with hseen | ⟨g, hg⟩
        · exact has_mono (p := p) (Nat.le_refl _) (hB.made x (Or.inl hseen))
        · rcases lookup_insert_iff.mp hg with ⟨-, rfl⟩ | ⟨-, hold⟩
          · exact has_mono (p := p) (Nat.le_refl _) (hB.has hv)
          · exact has_mono (p := p) (Nat.le_refl _) (hB.made x (Or.inr ⟨g, hold⟩))
  | load request f resolves =>
      obtain ⟨v, hv, rfl⟩ := Option.map_eq_some_iff.mp hn
      have hplain : p.cache.lookup f = some v.strip := by rw [hB.cache f, hv]; rfl
      refine ⟨_, by simp only [Act.strip, next, hplain, Option.map_some]; rfl, ?_⟩
      refine bare_hand hB (hB.made v (Or.inr ⟨f, hv⟩)) request ?_ _
      intro g hg y hy
      cases resolves with
      | false => cases hg
      | true =>
          obtain rfl : f = g := by simpa using hg
          rw [hv] at hy
          rw [Option.some.inj hy]
  | loadUncached request f v =>
      simp only [next, Option.ite_none_right_eq_some, Option.some.injEq] at hn
      obtain ⟨⟨hf, hv⟩, rfl⟩ := hn
      have hplain : p.cache.lookup f = none := by rw [hB.cache f, hf]; rfl
      refine ⟨_, by simp only [Act.strip, next, hplain, hB.has hv, and_self, if_true]; rfl, ?_⟩
      refine bare_hand hB (hB.has hv) request ?_ _
      intro g hg y hy
      obtain rfl := Option.some.inj hg
      rw [hf] at hy
      cases hy
  | evict f =>
      obtain rfl := Option.some.inj hn
      refine ⟨_, rfl, fun x => ?_, hB.shape, hB.fresh, hB.seen, fun x hx => ?_⟩
      · by_cases hx : x = f
        · subst hx
          rw [AList.lookup_erase, AList.lookup_erase]
          rfl
        · rw [AList.lookup_erase_ne hx, AList.lookup_erase_ne hx]
          exact hB.cache x
      · refine has_mono (p := p) (Nat.le_refl _) (hB.made x ?_)
        rcases hx with hseen | ⟨g, hg⟩
        · exact Or.inl hseen
        · refine Or.inr ⟨g, ?_⟩
          by_cases hgf : g = f
          · rw [hgf, AList.lookup_erase] at hg
            cases hg
          · rwa [AList.lookup_erase_ne hgf] at hg
  | sweep =>
      obtain rfl := Option.some.inj hn
      refine ⟨p, rfl, ?_⟩
      rw [if_pos rfl]
      refine sweep_induction (P := fun x => Bare x p) hB fun x f v hx => ?_
      rcases sweepModule_cases x f v with hsame | ⟨-, -, hwrap⟩
      · rw [hsame]
        exact hx
      · rw [hwrap]
        exact hx.wrapJestTransformer v

theorem bare_init : Bare State.init State.init where
  cache := by simp [State.init, AList.lookup_empty]
  shape := rfl
  fresh := rfl
  seen := rfl
  made := by simp [State.init, AList.lookup_empty]

/-- **The hook is transparent.** Every run with it is, without the wrappers, the run of the
module system alone: the same values are handed out, in the same order, and the same
modules are in the cache. -/
theorem transparent {as : List Act} (h : (loader true).replay .init as = some s) :
    ∃ p, (loader false).replay .init (as.map Act.strip) = some p ∧
      p.seen = s.seen.map Exports.strip ∧ p.shape = s.shape ∧
      ∀ f, p.cache.lookup f = (s.cache.lookup f).map Exports.strip := by
  have hrun : ∀ (as : List Act) (x y : State), Bare x y → (loader true).replay x as = some s →
      ∃ p, (loader false).replay y (as.map Act.strip) = some p ∧ Bare s p := by
    intro as
    induction as with
    | nil =>
        intro x y hB hx
        obtain rfl : x = s := by simpa using hx
        exact ⟨y, rfl, hB⟩
    | cons a as ih =>
        intro x y hB hx
        obtain ⟨m, hm, hrest⟩ := Machine.replay_cons _ |>.mp hx
        obtain ⟨m', hm', hB'⟩ := bare_next hB hm
        obtain ⟨p, hp, hBp⟩ := ih m m' hB' hrest
        exact ⟨p, (Machine.replay_cons _).mpr ⟨m', hm', hp⟩, hBp⟩
  obtain ⟨p, hp, hB⟩ := hrun as _ _ bare_init h
  exact ⟨p, hp, hB.seen, hB.shape, hB.cache⟩

theorem transparent_buildWorker : ∃ s, (loader true).replay .init buildWorker = some s ∧
    ∃ p, (loader false).replay .init (buildWorker.map Act.strip) = some p ∧
      p.seen = s.seen.map Exports.strip ∧ p.shape = s.shape ∧
      ∀ f, p.cache.lookup f = (s.cache.lookup f).map Exports.strip :=
  ⟨_, rfl, transparent rfl⟩

/-! ### Wrapped once -/

/-- No value that there is has two wrappers, and no object has had its `createTransformer`
replaced twice. -/
structure Once (s : State) : Prop where
  seen : ∀ v ∈ s.seen, v.depth ≤ 1
  cached : ∀ f v, s.cache.lookup f = some v → v.depth ≤ 1
  wraps : ∀ id, s.wraps id ≤ 1

theorem once_init : Once State.init where
  seen := by simp [State.init]
  cached := by simp [State.init, AList.lookup_empty]
  wraps := by simp [State.init]

theorem depth_of_not_wrapped (h : s.wrapped v = false) : v.depth = 0 := by
  cases v with
  | primitive | own => rfl
  | nextJest v | log v | swc v => cases h

theorem Once.wrapJestTransformer (hO : Once s) (hnot : s.wrapped v = false) :
    Once (s.wrapJestTransformer v) := by
  cases v with
  | own id =>
      refine ⟨hO.seen, hO.cached, fun x => ?_⟩
      show Function.update s.wraps id (s.wraps id + 1) x ≤ 1
      by_cases hx : x = id
      · have hzero : s.wraps id = 0 := by simpa [State.wrapped] using hnot
        rw [hx, Function.update_self, hzero]
      · rw [Function.update_of_ne hx]
        exact hO.wraps x
  | primitive => exact hO
  | nextJest v | log v | swc v => exact hO

theorem once_loads (hO : Once s) (hv : v.depth ≤ 1) (hl : Loads s file v s' w) :
    Once s' ∧ w.depth ≤ 1 := by
  cases hl with
  | pass => exact ⟨hO, hv⟩
  | @swap f w hf hw hne hnot =>
      have hdepth : w.depth ≤ 1 := by rw [hw.depth_eq, depth_of_not_wrapped hnot]
      refine ⟨⟨by simpa using hO.seen, fun x y hy => ?_, by simpa using hO.wraps⟩, hdepth⟩
      rcases lookup_swap hy with rfl | hold
      · exact hdepth
      · exact hO.cached x y hold
  | transformer hnot _ => exact ⟨hO.wrapJestTransformer hnot, hv⟩

theorem once_hand (hO : Once s) (hv : v.depth ≤ 1) (request : Option String) :
    Once (s.hand true request file v) := by
  obtain ⟨hO', hw⟩ := once_loads hO hv (loads_load s request file v)
  rw [hand_true]
  generalize s.load request file v = r at hO' hw
  refine ⟨fun x hx => ?_, hO'.cached, hO'.wraps⟩
  rcases List.mem_cons.mp hx with rfl | hold
  · exact hw
  · exact hO'.seen x hold

theorem Once.has (hO : Once s) (h : s.Has v) : v.depth ≤ 1 := by
  cases v with
  | primitive | own => exact Nat.zero_le 1
  | nextJest v | log v | swc v => exact hO.seen _ h

theorem once_next {a : Act} (hO : Once s) (hn : next true s a = some s') : Once s' := by
  cases a with
  | begin f =>
      obtain rfl := Option.some.inj hn
      refine ⟨hO.seen, fun x y hy => ?_, fun x => ?_⟩
      · rcases lookup_insert_iff.mp hy with ⟨-, rfl⟩ | ⟨-, hold⟩
        · exact Nat.zero_le 1
        · exact hO.cached x y hold
      · show Function.update s.wraps s.fresh 0 x ≤ 1
        by_cases hx : x = s.fresh
        · rw [hx, Function.update_self]
          exact Nat.zero_le 1
        · rw [Function.update_of_ne hx]
          exact hO.wraps x
  | define id shape =>
      simp only [next, Option.ite_none_right_eq_some, Option.some.injEq] at hn
      obtain ⟨-, rfl⟩ := hn
      exact ⟨hO.seen, hO.cached, hO.wraps⟩
  | assign f v =>
      simp only [next, Option.ite_none_right_eq_some, Option.some.injEq] at hn
      obtain ⟨⟨-, hv⟩, rfl⟩ := hn
      refine ⟨hO.seen, fun x y hy => ?_, hO.wraps⟩
      rcases lookup_insert_iff.mp hy with ⟨-, rfl⟩ | ⟨-, hold⟩
      · exact hO.has hv
      · exact hO.cached x y hold
  | load request f resolves =>
      obtain ⟨v, hv, rfl⟩ := Option.map_eq_some_iff.mp hn
      exact once_hand hO (hO.cached f v hv) request
  | loadUncached request f v =>
      simp only [next, Option.ite_none_right_eq_some, Option.some.injEq] at hn
      obtain ⟨⟨-, hv⟩, rfl⟩ := hn
      exact once_hand hO (hO.has hv) request
  | evict f =>
      obtain rfl := Option.some.inj hn
      refine ⟨hO.seen, fun x y hy => ?_, hO.wraps⟩
      by_cases hx : x = f
      · rw [hx, AList.lookup_erase] at hy
        cases hy
      · rw [AList.lookup_erase_ne hx] at hy
        exact hO.cached x y hy
  | sweep =>
      obtain rfl := Option.some.inj hn
      rw [if_pos rfl]
      refine sweep_induction hO fun x f v hx => ?_
      rcases sweepModule_cases x f v with hsame | ⟨hnot, -, hwrap⟩
      · rw [hsame]
        exact hx
      · rw [hwrap]
        exact hx.wrapJestTransformer hnot

theorem once_reachable (h : (loader true).Reachable s) : Once s := by
  refine Machine.Reach.invariant (I := Once) ?_ ?_ h
  · intro s hs
    obtain rfl : s = .init := hs
    exact once_init
  · intro s a s' hO _ hn
    exact once_next hO hn

/-! ### Calls through the wrappers -/

/-- What a call comes to: of a property of the exports, or, without a name, of the exports. -/
inductive Event
  /-- `await loader.ensureInit()` -/
  | ensureInit
  /-- The function that the module itself has under the name, or is. -/
  | own (id : Nat) (name : Option String) (args : List (Option String))
  deriving DecidableEq

/-- The warnings that the wrapper of the log drops. -/
def dropped : List (Option String) → Bool
  | some message :: _ =>
      includes message "next-swc does not have native bindings" ||
        includes message "Trying to load next-swc for unsupported platforms"
  | _ => false

/-- A call of `v.name`, or of `v`, with these arguments; of these only strings matter. The name
is not one that every function inherits. -/
def State.invoke (s : State) (name : Option String) (args : List (Option String)) :
    Exports → List Event
  | .primitive => []
  | .own id =>
      (if name = some "createTransformer" then List.replicate (s.wraps id) .ensureInit else []) ++
        [.own id name args]
  | .nextJest v =>
      match name with
      -- `default` is the wrapper itself, which calls what it was made for
      | none | some "default" => s.invoke none args v
      -- no other property is a function
      | some _ => []
  | .log v => if name = some "warn" && dropped args then [] else s.invoke name args v
  | .swc v => (if name = some "loadBindings" then [.ensureInit] else []) ++ s.invoke name args v

/-- The same call without the hook. -/
def plainCall (name : Option String) (args : List (Option String)) : Exports → List Event
  | .own id => [.own id name args]
  | _ => []

/-- What is left of a call without the initialisation. -/
def State.reached (s : State) (name : Option String) (args : List (Option String))
    (v : Exports) : List Event :=
  (s.invoke name args v).filter (· ≠ .ensureInit)

/-- A call reaches the functions that it would have reached without the hook. -/
inductive Reaches (s : State) (name : Option String) (args : List (Option String))
    (v : Exports) : Prop
  | own : s.reached name args v = plainCall name args v.strip → Reaches s name args v
  /-- A warning of the log. -/
  | drops : s.invoke name args v = [] → name = some "warn" → dropped args = true →
      Reaches s name args v
  /-- The factory of `next/jest`, whose `default` is the function itself. -/
  | factory {u : Exports} : v = .nextJest u → name = some "default" →
      s.reached name args v = plainCall none args v.strip → Reaches s name args v
  /-- The other properties of `next/jest` are not there. -/
  | lacks {u : Exports} : v = .nextJest u → name ≠ none → name ≠ some "default" →
      s.invoke name args v = [] → Reaches s name args v

/-- A call of exports that are in no wrapper. -/
theorem reached_bare (hO : Once s) (hv : v.depth = 0) (name : Option String)
    (args : List (Option String)) :
    (s.invoke name args v).count .ensureInit ≤ 1 ∧
      s.reached name args v = plainCall name args v.strip ∧
      (name ≠ some "createTransformer" → (s.invoke name args v).count .ensureInit = 0) := by
  unfold State.reached
  cases v with
  | primitive => simp [State.invoke, Exports.strip, plainCall]
  | own id =>
      have hwraps := hO.wraps id
      unfold State.invoke
      split
      · refine ⟨by simpa using hwraps, by simp [Exports.strip, plainCall], fun hne => ?_⟩
        exact absurd ‹_› hne
      · simp [Exports.strip, plainCall]
  | nextJest v | log v | swc v => cases hv

/-- **A call reaches the module's own function**, once and with the same arguments, unless it
is a warning of the log that the wrapper drops, or of a property of `next/jest` other than
`default`; before it the initialisation is awaited once or not at all. -/
theorem delegates (h : (loader true).Reachable s) {v : Exports} (hv : v ∈ s.seen)
    (name : Option String) (args : List (Option String)) :
    (s.invoke name args v).count .ensureInit ≤ 1 ∧ Reaches s name args v := by
  have hO := once_reachable h
  have hdepth := hO.seen v hv
  cases v with
  | primitive =>
      obtain ⟨hcount, hreached, -⟩ := reached_bare hO (v := .primitive) rfl name args
      exact ⟨hcount, .own hreached⟩
  | own id =>
      obtain ⟨hcount, hreached, -⟩ := reached_bare hO (v := .own id) rfl name args
      exact ⟨hcount, .own hreached⟩
  | nextJest v =>
      have hbare := Nat.le_zero.mp (Nat.le_of_succ_le_succ hdepth)
      obtain ⟨hcount, hreached, -⟩ := reached_bare hO hbare none args
      cases name with
      | none => exact ⟨hcount, .own hreached⟩
      | some name =>
          by_cases hname : name = "default"
          · subst hname
            exact ⟨hcount, .factory rfl rfl hreached⟩
          · have hnone : s.invoke (some name) args (.nextJest v) = [] := by
              simp [State.invoke]
            rw [hnone]
            exact ⟨Nat.zero_le 1, .lacks rfl (by simp) (by simpa using hname) hnone⟩
  | log v =>
      have hbare := Nat.le_zero.mp (Nat.le_of_succ_le_succ hdepth)
      obtain ⟨hcount, hreached, -⟩ := reached_bare hO hbare name args
      by_cases hdrop : (name = some "warn" && dropped args) = true
      · have hnone : s.invoke name args (.log v) = [] := by rw [State.invoke, if_pos hdrop]
        rw [Bool.and_eq_true, decide_eq_true_eq] at hdrop
        rw [hnone]
        exact ⟨Nat.zero_le 1, .drops hnone hdrop.1 hdrop.2⟩
      · have hsame : s.invoke name args (.log v) = s.invoke name args v := by
          rw [State.invoke, if_neg hdrop]
        refine ⟨by rw [hsame]; exact hcount, .own ?_⟩
        rw [State.reached, hsame]
        exact hreached
  | swc v =>
      have hbare := Nat.le_zero.mp (Nat.le_of_succ_le_succ hdepth)
      obtain ⟨hcount, hreached, hnone⟩ := reached_bare hO hbare name args
      unfold State.reached at hreached
      by_cases hname : name = some "loadBindings"
      · have hzero := hnone (by rw [hname]; decide)
        refine ⟨?_, .own ?_⟩
        · rw [State.invoke, if_pos hname, List.count_append, hzero]
          decide
        · rw [State.reached, State.invoke, if_pos hname, List.filter_append, hreached]
          rfl
      · have hsame : s.invoke name args (.swc v) = s.invoke name args v := by
          rw [State.invoke, if_neg hname, List.nil_append]
        refine ⟨by rw [hsame]; exact hcount, .own ?_⟩
        rw [State.reached, hsame]
        exact hreached

theorem delegates_buildWorker : ∃ s, (loader true).replay .init buildWorker = some s ∧
    s.invoke (some "loadBindings") [] (.swc (.own 0)) =
      [.ensureInit, .own 0 (some "loadBindings") []] ∧
    (s.invoke (some "loadBindings") [] (.swc (.own 0))).count .ensureInit ≤ 1 ∧
      Reaches s (some "loadBindings") [] (.swc (.own 0)) :=
  ⟨_, rfl, rfl, delegates (Machine.Reachable.replay buildWorker (.start rfl) rfl)
    List.mem_cons_self (some "loadBindings") []⟩

/-! ### The module with `loadBindings` -/

/-- The file is that module, in the cache, with its wrapper or without. -/
structure Serves (f : Filename) (id : Nat) (s : State) : Prop where
  name : endsWith f swcSuffix = true
  cached : s.cache.lookup f = some (.own id) ∨ s.cache.lookup f = some (.swc (.own id))
  shape : s.shape id = swcShape
  wraps : s.wraps id = 0
  made : id < s.fresh

/-- The module stays in the cache, and its exports as they are. -/
def Steady (f : Filename) (id : Nat) (_ : State) : Act → Prop
  | .begin g | .assign g _ | .evict g => g ≠ f
  | .define x _ => x ≠ id
  | _ => True

/-- The object of the module has no `createTransformer`. -/
theorem Serves.wraps_wrapJestTransformer (hS : Serves f id s)
    (hct : s.createTransformer v = true) : (s.wrapJestTransformer v).wraps id = 0 := by
  cases v with
  | own x =>
      have hx : id ≠ x := by
        intro hx
        subst hx
        simp [State.createTransformer, hS.shape, swcShape] at hct
      exact (Function.update_of_ne hx _ _).trans hS.wraps
  | primitive => exact hS.wraps
  | nextJest v | log v | swc v => exact hS.wraps

/-- What the hook does to another module. -/
theorem serves_loads (hS : Serves f id s) (hl : Loads s file v s' w) (hfile : file ≠ some f) :
    Serves f id s' := by
  cases hl with
  | pass => exact hS
  | @swap g w hf hwrap hne hnot =>
      have hg : f ≠ g := fun hfg => hfile (hfg ▸ hf)
      refine ⟨hS.name, ?_, by simpa using hS.shape, by simpa using hS.wraps,
        by simpa using hS.made⟩
      unfold State.swap
      split
      · rw [AList.lookup_insert_ne hg]
        exact hS.cached
      · exact hS.cached
  | transformer hnot hct =>
      obtain ⟨hcache, hshape, hfresh, -⟩ := wrapJestTransformer_spec s v
      refine ⟨hS.name, by rw [hcache]; exact hS.cached, by rw [hshape]; exact hS.shape, ?_,
        by rw [hfresh]; exact hS.made⟩
      exact hS.wraps_wrapJestTransformer hct

/-- **All gates let the module through**, whatever it is required as. -/
theorem serves_load (hS : Serves f id s) (request : String) :
    s.load (some request) (some f) (.own id) = (s.swap f (.swc (.own id)), .swc (.own id)) ∧
      s.load (some request) (some f) (.swc (.own id)) = (s, .swc (.own id)) := by
  constructor
  · simp [State.load, State.isFunction, State.warn, State.createTransformer,
      State.loadBindings, State.wrapped, hS.shape, swcShape, hS.wraps, hS.name]
  · simp [State.load, State.wrapped]

theorem Serves.swap (hS : Serves f id s) : Serves f id (s.swap f (.swc (.own id))) := by
  refine ⟨hS.name, ?_, by simpa using hS.shape, by simpa using hS.wraps, by simpa using hS.made⟩
  unfold State.swap
  split
  · exact Or.inr (AList.lookup_insert _)
  · exact hS.cached

theorem serves_hand (hS : Serves f id s) (request : Option String)
    (hv : file = some f → v = .own id ∨ v = .swc (.own id)) :
    Serves f id (s.hand true request file v) := by
  have hload : Serves f id (s.load request file v).1 := by
    by_cases hfile : file = some f
    · subst hfile
      cases request with
      | none => exact hS
      | some request =>
          obtain ⟨hown, hswc⟩ := serves_load hS request
          rcases hv rfl with rfl | rfl
          · rw [hown]
            exact hS.swap
          · rw [hswc]
            exact hS
    · exact serves_loads hS (loads_load s request file v) hfile
  rw [hand_true]
  exact ⟨hload.name, hload.cached, hload.shape, hload.wraps, hload.made⟩

theorem serves_next {a : Act} (hS : Serves f id s) (hG : Steady f id s a)
    (hn : next true s a = some s') : Serves f id s' := by
  cases a with
  | begin g =>
      obtain rfl := Option.some.inj hn
      have hid : id ≠ s.fresh := Nat.ne_of_lt hS.made
      have hg : f ≠ g := Ne.symm hG
      refine ⟨hS.name, ?_, ?_, ?_, Nat.lt_succ_of_lt hS.made⟩
      · rw [AList.lookup_insert_ne hg]
        exact hS.cached
      · exact (Function.update_of_ne hid _ _).trans hS.shape
      · exact (Function.update_of_ne hid _ _).trans hS.wraps
  | define x shape =>
      simp only [next, Option.ite_none_right_eq_some, Option.some.injEq] at hn
      obtain ⟨-, rfl⟩ := hn
      have hx : id ≠ x := Ne.symm hG
      exact ⟨hS.name, hS.cached, (Function.update_of_ne hx _ _).trans hS.shape, hS.wraps, hS.made⟩
  | assign g v =>
      simp only [next, Option.ite_none_right_eq_some, Option.some.injEq] at hn
      obtain ⟨-, rfl⟩ := hn
      have hg : f ≠ g := Ne.symm hG
      refine ⟨hS.name, ?_, hS.shape, hS.wraps, hS.made⟩
      rw [AList.lookup_insert_ne hg]
      exact hS.cached
  | load request g resolves =>
      obtain ⟨v, hv, rfl⟩ := Option.map_eq_some_iff.mp hn
      refine serves_hand hS request fun hfile => ?_
      cases resolves with
      | false => cases hfile
      | true =>
          obtain rfl : g = f := by simpa using hfile
          rcases hS.cached with hown | hswc
          · rw [hv] at hown
            exact Or.inl (Option.some.inj hown)
          · rw [hv] at hswc
            exact Or.inr (Option.some.inj hswc)
  | loadUncached request g v =>
      simp only [next, Option.ite_none_right_eq_some, Option.some.injEq] at hn
      obtain ⟨⟨hg, -⟩, rfl⟩ := hn
      refine serves_hand hS request fun hfile => ?_
      obtain rfl := Option.some.inj hfile
      rcases hS.cached with hown | hswc
      · rw [hg] at hown
        cases hown
      · rw [hg] at hswc
        cases hswc
  | evict g =>
      obtain rfl := Option.some.inj hn
      have hg : f ≠ g := Ne.symm hG
      refine ⟨hS.name, ?_, hS.shape, hS.wraps, hS.made⟩
      rw [AList.lookup_erase_ne hg]
      exact hS.cached
  | sweep =>
      obtain rfl := Option.some.inj hn
      rw [if_pos rfl]
      refine sweep_induction hS fun x g v hx => ?_
      rcases sweepModule_cases x g v with hsame | ⟨hnot, hct, hwrap⟩
      · rw [hsame]
        exact hx
      · rw [hwrap]
        have hl : Loads x none v (x.wrapJestTransformer v) v := .transformer hnot hct
        exact serves_loads hx hl (by simp)

/-- The module has been evaluated, and nobody has required it. -/
def evaluated : State := ⟨AList.singleton swcFile (.own 0), fun _ => swcShape, fun _ => 0, 1, []⟩

def logFile : Filename := "/app/node_modules/next/dist/build/output/log.js"

def jtFile : Filename := "/app/node_modules/next/dist/build/swc/jest-transformer.js"

/-- The module is required once; others are loaded, assigned, swept and evicted. -/
def meanwhile : List Act :=
  [.begin logFile, .define 1 ⟨false, true, false, false⟩,
    .load (some "../output/log") logFile true, .load (some "./index") swcFile true,
    .begin jtFile, .define 2 ⟨false, false, true, false⟩, .sweep,
    .assign logFile (.own 2), .load (some "./log") logFile true, .evict jtFile]

instance (f : Filename) (id : Nat) (s : State) : ∀ a, Decidable (Steady f id s a)
  | .begin g | .assign g _ | .evict g => inferInstanceAs (Decidable (g ≠ f))
  | .define x _ => inferInstanceAs (Decidable (x ≠ id))
  | .load _ _ _ | .loadUncached _ _ _ | .sweep => isTrue trivial

end TurbopackWasi.Loader.Hook
