import Mathlib.Logic.Basic
import Mathlib.Logic.Relation

/-!
# TurbopackWasi.Lib.Machine

**Labelled step machines** and the rules by which facts about one step become
facts about runs.

A machine has start states and a partial step function `next`: the label says
which of the possible steps is taken (whose turn the scheduler picked, which of
several messages arrived), and `next` computes its effect, so that a concrete
schedule can be evaluated. Everything that quantifies over interleavings
quantifies over lists of labels.

* `Machine.replay` runs a schedule; `Machine.Reach G` are the states of the runs
  all of whose steps meet the guard `G`, and `Machine.Reachable` those of all runs.
* `Machine.Always P` and `Machine.EachStep Q` speak about the states passed and
  the steps taken by one run; `always_iff_eachStep` is the rule that a property
  of the states is violated exactly by the steps that break it.
* `Machine.eachStep_iff_continues` speaks about what a run can still come to: it was
  harmless exactly if no good continuation fails.
* `Machine.CanReach P` are the states from which some run comes to `P`, and
  `Machine.not_canReach` is the rule that an invariant excludes it.
* `Machine.Reach.simulation` carries an invariant relation along the steps
  of a concrete machine and the finite step sequences of an abstract one.
-/

namespace TurbopackWasi.Lib

universe u v w

/-- A machine: its start states and its partial, labelled step function. -/
structure Machine (σ : Type u) (α : Type v) where
  start : σ → Prop
  next : σ → α → Option σ

namespace Machine

variable {σ : Type u} {α : Type v} (M : Machine σ α)

/-- Runs a schedule; `none` if one of its labels is not enabled. -/
def replay : σ → List α → Option σ
  | s, [] => some s
  | s, a :: as => (M.next s a).bind (replay · as)

@[simp] theorem replay_nil (s : σ) : M.replay s [] = some s := rfl

theorem replay_cons {s s' : σ} {a : α} {as : List α} :
    M.replay s (a :: as) = some s' ↔ ∃ m, M.next s a = some m ∧ M.replay m as = some s' := by
  rw [replay, Option.bind_eq_some_iff]

theorem replay_append (s : σ) (as bs : List α) :
    M.replay s (as ++ bs) = (M.replay s as).bind (M.replay · bs) := by
  induction as generalizing s with
  | nil => rfl
  | cons a as ih =>
      cases hn : M.next s a with
      | none => simp [replay, hn]
      | some m => simpa [replay, hn] using ih m

/-- The states of the runs all of whose steps meet the guard `G`. -/
inductive Reach (G : σ → α → Prop) : σ → Prop
  | start {s : σ} : M.start s → Reach G s
  | step {s s' : σ} {a : α} : Reach G s → G s a → M.next s a = some s' → Reach G s'

/-- The states of all runs. -/
abbrev Reachable : σ → Prop := M.Reach (fun _ _ => True)

variable {M}

/-- The invariant rule: what holds at the start and is kept by every guarded step
holds in every state that guarded runs reach. -/
theorem Reach.invariant {G : σ → α → Prop} {I : σ → Prop} (hstart : ∀ s, M.start s → I s)
    (hstep : ∀ {s a s'}, I s → G s a → M.next s a = some s' → I s') {s : σ}
    (h : M.Reach G s) : I s := by
  induction h with
  | start h => exact hstart _ h
  | step _ hg hn ih => exact hstep ih hg hn

/-- A weaker guard reaches at least as much. -/
theorem Reach.mono {G H : σ → α → Prop} (hGH : ∀ s a, G s a → H s a) {s : σ}
    (h : M.Reach G s) : M.Reach H s := by
  induction h with
  | start h => exact .start h
  | step _ hg hn ih => exact .step ih (hGH _ _ hg) hn

/-! ### The states and the steps of one run -/

variable (M)

/-- `P` holds in every state that the run `as` from `s` passes. -/
def Always (P : σ → Prop) : σ → List α → Prop
  | s, [] => P s
  | s, a :: as => P s ∧ ∀ s', M.next s a = some s' → Always P s' as

/-- `Q` holds of every step that the run `as` from `s` takes. -/
def EachStep (Q : σ → α → Prop) : σ → List α → Prop
  | _, [] => True
  | s, a :: as => Q s a ∧ ∀ s', M.next s a = some s' → EachStep Q s' as

instance decidableEachStep (Q : σ → α → Prop) [∀ s a, Decidable (Q s a)] :
    ∀ (s : σ) (as : List α), Decidable (M.EachStep Q s as)
  | _, [] => isTrue trivial
  | s, a :: as =>
      match hn : M.next s a with
      | none => decidable_of_iff (Q s a) (by simp [EachStep, hn])
      | some m =>
          have := decidableEachStep Q m as
          decidable_of_iff (Q s a ∧ M.EachStep Q m as) (by simp [EachStep, hn])

variable {M}

theorem EachStep.cons {Q : σ → α → Prop} {s m : σ} {a : α} {as : List α} (hQ : Q s a)
    (hn : M.next s a = some m) (h : M.EachStep Q m as) : M.EachStep Q s (a :: as) := by
  refine ⟨hQ, fun s' hn' => ?_⟩
  obtain rfl : m = s' := Option.some.inj (hn.symm.trans hn')
  exact h

/-- A schedule whose steps meet the guard keeps to the guarded runs. -/
theorem Reach.of_eachStep {G : σ → α → Prop} {s t : σ} {as : List α} (h : M.Reach G s)
    (hG : M.EachStep G s as) (hrun : M.replay s as = some t) : M.Reach G t := by
  induction as generalizing s with
  | nil =>
      obtain rfl : s = t := by simpa using hrun
      exact h
  | cons a as ih =>
      obtain ⟨m, hm, hrest⟩ := (M.replay_cons).mp hrun
      exact ih (.step h hG.1 hm) (hG.2 m hm) hrest

/-- Labels that are good in every state make good steps. -/
theorem eachStep_of_mem {Q : σ → α → Prop} {as : List α} (hQ : ∀ a ∈ as, ∀ s, Q s a) (s : σ) :
    M.EachStep Q s as := by
  induction as generalizing s with
  | nil => trivial
  | cons a as ih =>
      refine ⟨hQ a List.mem_cons_self s, fun s' _ => ih (fun b hb => ?_) s'⟩
      exact hQ b (List.mem_cons_of_mem _ hb)

/-- A schedule all of whose labels the guard admits keeps to the guarded runs. -/
theorem Reach.replay {G : σ → α → Prop} {s s' : σ} (as : List α) (h : M.Reach G s)
    (hG : ∀ a ∈ as, ∀ s, G s a) (hr : M.replay s as = some s') : M.Reach G s' :=
  h.of_eachStep (eachStep_of_mem hG s) hr

theorem Reachable.replay {s s' : σ} (as : List α) (h : M.Reachable s)
    (hr : M.replay s as = some s') : M.Reachable s' :=
  Reach.replay as h (fun _ _ _ => trivial) hr

theorem Always.head {P : σ → Prop} {s : σ} {as : List α} (h : M.Always P s as) : P s := by
  cases as with
  | nil => exact h
  | cons a as => exact h.1

/-- If good steps keep `J`, and `J` gives `P`, a run of good steps satisfies `P`
throughout. -/
theorem always_of_eachStep {J P : σ → Prop} {Q : σ → α → Prop} (hP : ∀ s, J s → P s)
    (hstep : ∀ {s a s'}, J s → Q s a → M.next s a = some s' → J s') {s : σ} {as : List α}
    (hJ : J s) (hQ : M.EachStep Q s as) : M.Always P s as := by
  induction as generalizing s with
  | nil => exact hP s hJ
  | cons a as ih => exact ⟨hP s hJ, fun s' hn => ih (hstep hJ hQ.1 hn) (hQ.2 s' hn)⟩

/-- If the good steps keep `J`, and under `J` a bad step always ends in a state without `P`, a
run that satisfies `P` throughout has taken good steps only. -/
theorem eachStep_of_always {J P : σ → Prop} {Q : σ → α → Prop}
    (hstep : ∀ {s a s'}, J s → Q s a → M.next s a = some s' → J s')
    (hbad : ∀ {s a s'}, J s → M.next s a = some s' → ¬Q s a → ¬P s') {s t : σ} {as : List α}
    (hs : J s) (hrun : M.replay s as = some t) (hP : M.Always P s as) : M.EachStep Q s as := by
  induction as generalizing s with
  | nil => trivial
  | cons a as ih =>
      obtain ⟨m, hm, hrest⟩ := (M.replay_cons).mp hrun
      have hm' : M.Always P m as := hP.2 m hm
      have hgood : Q s a := by_contra fun hq => hbad hs hm hq hm'.head
      refine ⟨hgood, fun s' hn => ?_⟩
      obtain rfl : m = s' := Option.some.inj (hm.symm.trans hn)
      exact ih (hstep hs hgood hm) hrest hm'

/-- **Exactness over runs.** `J` is kept by the good steps and implies `P`, and under `J` a bad
step destroys `P`. Then a run satisfies `P` in all its states iff all its steps are good. -/
theorem always_iff_eachStep {J P : σ → Prop} {Q : σ → α → Prop} (hP : ∀ s, J s → P s)
    (hstep : ∀ {s a s'}, J s → Q s a → M.next s a = some s' → J s')
    (hbad : ∀ {s a s'}, J s → M.next s a = some s' → ¬Q s a → ¬P s') {s t : σ} {as : List α}
    (hs : J s) (hrun : M.replay s as = some t) : M.Always P s as ↔ M.EachStep Q s as :=
  ⟨eachStep_of_always hstep hbad hs hrun, always_of_eachStep hP hstep hs⟩

/-- What every step keeps, a run keeps. -/
theorem replay_invariant {I : σ → Prop} (hI : ∀ {s a s'}, I s → M.next s a = some s' → I s')
    {s t : σ} {as : List α} (hs : I s) (hrun : M.replay s as = some t) : I t := by
  induction as generalizing s with
  | nil =>
      obtain rfl : s = t := by simpa using hrun
      exact hs
  | cons a as ih =>
      obtain ⟨m, hm, hrest⟩ := (M.replay_cons).mp hrun
      exact ih (hI hs hm) hrest

/-- A flaw that stays, and that bad steps alone bring about, is there after a run iff it was
there before or some step was bad. -/
theorem flaw_replay {I B : σ → Prop} {Q : σ → α → Prop}
    (hI : ∀ {s a s'}, I s → M.next s a = some s' → I s')
    (hstep : ∀ {s a s'}, I s → M.next s a = some s' → (B s' ↔ B s ∨ ¬Q s a)) {s t : σ}
    {as : List α} (hs : I s) (hrun : M.replay s as = some t) :
    B t ↔ B s ∨ ¬M.EachStep Q s as := by
  induction as generalizing s with
  | nil =>
      obtain rfl : s = t := by simpa using hrun
      simp [EachStep]
  | cons a as ih =>
      obtain ⟨m, hm, hrest⟩ := (M.replay_cons).mp hrun
      have hall : M.EachStep Q s (a :: as) ↔ Q s a ∧ M.EachStep Q m as := by
        simp only [EachStep, hm, Option.some.injEq, forall_eq']
      rw [ih (hI hs hm) hrest, hstep hs hm, hall, not_and_or, or_assoc]

/-- **Exactness over continuations.** Where the flaw `B` can always go on to the failure `F`
by good steps, and `F` never comes without it, the steps of a run were all good iff no good
continuation fails. -/
theorem eachStep_iff_continues {I B F : σ → Prop} {Q : σ → α → Prop}
    (hI : ∀ {s a s'}, I s → M.next s a = some s' → I s')
    (hstep : ∀ {s a s'}, I s → M.next s a = some s' → (B s' ↔ B s ∨ ¬Q s a))
    (hF : ∀ s, F s → B s)
    (hB : ∀ {s}, I s → B s → ∃ bs t, M.replay s bs = some t ∧ M.EachStep Q s bs ∧ F t)
    {s t : σ} {as : List α} (hs : I s) (hnot : ¬B s) (hrun : M.replay s as = some t) :
    M.EachStep Q s as ↔
      ∀ bs u, M.replay t bs = some u → M.EachStep Q t bs → ¬F u := by
  have ht : I t := replay_invariant hI hs hrun
  have hflaw : B t ↔ ¬M.EachStep Q s as := by
    rw [flaw_replay hI hstep hs hrun, or_iff_right hnot]
  constructor
  · intro hall bs u hbs hrest hfails
    have hafter := (flaw_replay hI hstep ht hbs).mp (hF u hfails)
    exact hafter.elim (fun hb => hflaw.mp hb hall) (fun hbad => hbad hrest)
  · intro hsafe
    refine by_contra fun hbad => ?_
    obtain ⟨bs, u, hbs, hrest, hfails⟩ := hB ht (hflaw.mpr hbad)
    exact hsafe bs u hbs hrest hfails

/-! ### What can still come -/

variable (M)

/-- Some run from here ends in a state with `P`. -/
def CanReach (P : σ → Prop) (s : σ) : Prop := ∃ as t, M.replay s as = some t ∧ P t

variable {M}

theorem CanReach.now {P : σ → Prop} {s : σ} (h : P s) : M.CanReach P s := ⟨[], s, rfl, h⟩

theorem CanReach.step {P : σ → Prop} {s s' : σ} {a : α} (hn : M.next s a = some s')
    (h : M.CanReach P s') : M.CanReach P s := by
  obtain ⟨as, t, ht, hP⟩ := h
  exact ⟨a :: as, t, (M.replay_cons).mpr ⟨s', hn, ht⟩, hP⟩

/-- An invariant that excludes `P` keeps it out of reach. -/
theorem not_canReach {I P : σ → Prop} (hI : ∀ {s a s'}, I s → M.next s a = some s' → I s')
    (hP : ∀ {s}, I s → ¬P s) {s : σ} (hs : I s) : ¬M.CanReach P s := by
  rintro ⟨as, t, ht, h⟩
  exact hP (replay_invariant hI hs ht) h

/-! ### Simulation -/

/-- **Forward simulation.** If `R` relates each start state to an abstract state
that satisfies `A`, and every guarded concrete step from related states is
answered by finitely many abstract steps that restore `R`, then every concrete
state reached is related to an abstract state reached. -/
theorem Reach.simulation {τ : Type w} {G : σ → α → Prop} {step : τ → τ → Prop} {A : τ → Prop}
    {R : σ → τ → Prop} (hstart : ∀ s, M.start s → ∃ d, A d ∧ R s d)
    (hstep : ∀ {s a s' d}, R s d → G s a → M.next s a = some s' →
      ∃ d', Relation.ReflTransGen step d d' ∧ R s' d') {s : σ} (h : M.Reach G s) :
    ∃ d₀ d, A d₀ ∧ Relation.ReflTransGen step d₀ d ∧ R s d := by
  induction h with
  | start h =>
      obtain ⟨d, ha, hr⟩ := hstart _ h
      exact ⟨d, d, ha, .refl, hr⟩
  | step _ hg hn ih =>
      obtain ⟨d₀, d, ha, hsteps, hr⟩ := ih
      obtain ⟨d', hd', hr'⟩ := hstep hr hg hn
      exact ⟨d₀, d', ha, hsteps.trans hd', hr'⟩

end Machine

end TurbopackWasi.Lib
