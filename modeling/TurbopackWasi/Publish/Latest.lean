import TurbopackWasi.Publish.Builds
import Mathlib.Order.MinMax

/-!
# TurbopackWasi.Publish.Latest

The tag `latest`. A run that has published reads the version list, and if nothing in it is
higher than its own version of next it moves the tag, with a write of its own. Between the two
another run may publish a higher version and move the tag first, and the list may lag.

`Timely` excludes just that: a read that misses every higher version, and a higher version
published between the read and the write. Runs that keep to it never move `latest` backwards
(`forward`); without it they do (`leapfrog`).
-/

namespace TurbopackWasi.Publish

open Lib Lib.Scan

/-! ### The highest version -/

theorem le_foldl_max {α : Type} [LinearOrder α] {xs : List α} {b x : α} (h : x ≤ b ∨ x ∈ xs) :
    x ≤ xs.foldl max b := by
  induction xs generalizing b with
  | nil => simpa using h
  | cons y xs ih =>
      rw [List.foldl_cons]
      refine ih ?_
      rcases h with h | h
      · exact .inl (le_max_of_le_left h)
      · rcases List.mem_cons.mp h with rfl | h
        · exact .inl (le_max_right _ _)
        · exact .inr h

theorem le_highest {nv v : String} {versions : List String} {u : Release} (hv : v ∈ versions)
    (hu : release v = some u) : u ≤ highest nv versions :=
  le_foldl_max (.inr (List.mem_filterMap.mpr ⟨v, List.mem_append_left _ hv, hu⟩))

/-- A version that is spelt like its three numbers is stable. -/
theorem release_build (t : Release) (n : Nat) : release (build t.render n) = some t := by
  have hlist : (build t.render n).toList = Nat.toDigits 10 t.1 ++ (['.'] ++ (Nat.toDigits 10 t.2.1 ++
      (['.'] ++ (Nat.toDigits 10 t.2.2 ++ ("-build.".toList ++ Nat.toDigits 10 n))))) := by
    simp [toList_build, Release.render, String.toList_append]
  have hlast : number (Nat.toDigits 10 n ++ []) = some (n, []) := number_toDigits n [] (by simp)
  rw [List.append_nil] at hlast
  have hpatch : number (Nat.toDigits 10 t.2.2 ++ ("-build.".toList ++ Nat.toDigits 10 n)) =
      some (t.2.2, "-build.".toList ++ Nat.toDigits 10 n) := number_toDigits _ _ (by simp)
  simp only [release, hlist, literal_append, Option.bind_eq_bind, Option.bind_some, hpatch, hlast,
    number_toDigits t.1 (['.'] ++ _) (by simp),
    number_toDigits t.2.1 (['.'] ++ _) (by simp), finish_nil]
  rfl

/-! ### Reads and publishes in time -/

variable {ι : Type} [DecidableEq ι] {nextVersion : ι → String} {s s' : State ι} {a : Act ι}
  {i : ι} {n : Nat} {r : Registry} {t u : Release}

/-- A build of a higher stable version is published. -/
def Registry.Overtakes (r : Registry) (t : Release) : Prop :=
  ∃ v ∈ r.published, ∃ u, release v = some u ∧ t < u

/-- A read of the list finds a higher version if there is one, and no higher version is
published while a run moves the tag. -/
def Timely (nextVersion : ι → String) (s : State ι) : Act ι → Prop
  | .highest i (some versions) => ∀ n t, s.run i = .published n →
      release (build (nextVersion i) n) = some t → s.registry.Overtakes t →
        ∃ v ∈ versions, ∃ u, release v = some u ∧ t < u
  | .publish j outcome => outcome ≠ .rejected → ∀ i n t m u, s.run i = .promoting n →
      release (build (nextVersion i) n) = some t → s.run j = .staged m →
        release (build (nextVersion j) m) = some u → u ≤ t
  | _ => True

/-- A run that moves the tag has the highest version. -/
def Ahead (nextVersion : ι → String) (s : State ι) : Prop :=
  ∀ i n, s.run i = .promoting n →
    ∃ t, release (build (nextVersion i) n) = some t ∧ ¬s.registry.Overtakes t

theorem Ahead.setRun {p : Point} (h : Ahead nextVersion s)
    (hp : ∀ n, p = .promoting n →
      ∃ t, release (build (nextVersion i) n) = some t ∧ ¬s.registry.Overtakes t) :
    Ahead nextVersion (s.setRun i p) := by
  intro j n hj
  by_cases hji : j = i
  · subst hji
    rw [s.setRun_self] at hj
    exact hp n hj
  · rw [s.setRun_of_ne hji] at hj
    exact h j n hj

/-- What a step in time keeps. -/
theorem ahead_takes (h : Ahead nextVersion s) (ha : Timely nextVersion s a)
    (ht : Takes nextVersion s a s') : Ahead nextVersion s' := by
  cases ht with
  | list hrun hversions => exact h.setRun (by simp)
  | found hrun hfound => exact h.setRun (by simp)
  | free hrun => exact h.setRun (by simp)
  | @lands i n outcome hrun houtcome hfree =>
      intro j m hj
      have hset := h.setRun (p := if outcome = .landed then .published n else .ended) (i := i)
        (by intro m hm; split at hm <;> cases hm)
      obtain ⟨t, hrelease, hahead⟩ := hset j m hj
      refine ⟨t, hrelease, ?_⟩
      intro hover
      obtain ⟨v, hv, u, hu, hlt⟩ := hover
      rcases List.mem_cons.mp hv with rfl | hv
      · -- the version that has just landed is not higher
        have hrunning : s.run j = .promoting m := by
          by_cases hji : j = i
          · subst hji
            simp only [State.setRun_self] at hj
            split at hj <;> cases hj
          · simpa [State.setRun, hji] using hj
        exact absurd hlt (not_lt.mpr (ha houtcome j m t n u hrunning hrelease hrun hu))
      · exact hahead ⟨v, hv, u, hu, hlt⟩
  | @leads i n versions hrun hversions hleads =>
      refine h.setRun ?_
      intro m hm
      obtain rfl := Point.promoting.inj hm
      have hrelease := release_build (highest (nextVersion i) versions) n
      rw [hleads] at hrelease
      refine ⟨_, hrelease, ?_⟩
      intro hover
      obtain ⟨v, hv, u, hu, hlt⟩ := ha n _ hrun hrelease hover
      exact absurd hlt (not_lt.mpr (le_highest hv hu))
  | @promotes i n hrun =>
      intro j m hj
      have hset := h.setRun (p := .ended) (i := i) (by simp)
      obtain ⟨t, hrelease, hahead⟩ := hset j m hj
      refine ⟨t, hrelease, ?_⟩
      simpa [Registry.Overtakes] using hahead
  | ends ha i => exact h.setRun (by simp)

theorem ahead_of_reach (h : (script nextVersion r).Reach (Timely nextVersion) s) :
    Ahead nextVersion s := by
  refine h.invariant (I := Ahead nextVersion) ?_ ?_
  · intro s hs i n hi
    rw [hs] at hi
    cases hi
  · intro s a s' hs ha hn
    exact ahead_takes hs ha (takes_of_next hn)

/-! ### The tag -/

/-- The version of next that `latest` names. -/
def Registry.latest (r : Registry) : Option Release := (r.tags "latest").bind release

structure Forward (nextVersion : ι → String) (s : State ι) : Prop where
  /-- A run that moves the tag has a stable version, and none that is published is higher. -/
  promotes : ∀ i n, s.run i = .promoting n →
    ∃ t, release (build (nextVersion i) n) = some t ∧
      ∀ v ∈ s.registry.published, ∀ u, release v = some u → u ≤ t
  /-- No step takes the tag from a higher version to a lower one. -/
  latest : ∀ a s', next nextVersion s a = some s' → ∀ u, s.registry.latest = some u →
    ∃ t, s'.registry.latest = some t ∧ u ≤ t

/-- Only a promotion moves the tag. -/
theorem latest_takes (ht : Takes nextVersion s a s') :
    s'.registry.latest = s.registry.latest ∨
      ∃ i n, s.run i = .promoting n ∧
        s'.registry.latest = release (build (nextVersion i) n) := by
  cases ht with
  | @lands i n outcome hrun houtcome hfree =>
      refine .inl ?_
      have htag : "latest" ≠ distTag (nextVersion i) := (distTag_ne_latest _).symm
      simp [Registry.latest, htag]
  | @promotes i n hrun =>
      by_cases hv : build (nextVersion i) n ∈ s.registry.published
      · exact .inr ⟨i, n, hrun, by simp [Registry.latest, Registry.addTag, hv]⟩
      · exact .inl (by simp [Registry.latest, Registry.addTag, hv])
  | list hrun hversions => exact .inl rfl
  | found hrun hfound => exact .inl rfl
  | free hrun => exact .inl rfl
  | leads hrun hversions hleads => exact .inl rfl
  | ends ha i => exact .inl rfl

/-- **`latest` never moves backwards** in a run whose reads and publishes are in time. -/
theorem forward (h : (script nextVersion r).Reach (Timely nextVersion) s) :
    Forward nextVersion s := by
  have hahead := ahead_of_reach h
  have hpromotes : ∀ i n, s.run i = .promoting n →
      ∃ t, release (build (nextVersion i) n) = some t ∧
        ∀ v ∈ s.registry.published, ∀ u, release v = some u → u ≤ t := by
    intro i n hrun
    obtain ⟨t, hrelease, hnot⟩ := hahead i n hrun
    refine ⟨t, hrelease, ?_⟩
    intro v hv u hu
    by_contra hle
    exact hnot ⟨v, hv, u, hu, not_le.mp hle⟩
  refine ⟨hpromotes, ?_⟩
  intro a s' hn u hu
  rcases latest_takes (takes_of_next hn) with hsame | ⟨i, n, hrun, hnew⟩
  · exact ⟨u, by rw [hsame, hu], le_rfl⟩
  · obtain ⟨t, hrelease, hhighest⟩ := hpromotes i n hrun
    refine ⟨t, by rw [hnew, hrelease], ?_⟩
    -- the tag names a version that exists
    obtain ⟨v, hv, hvu⟩ := Option.bind_eq_some_iff.mp hu
    exact hhighest v (s.registry.tagged _ v hv) u hvu

/-- Two back-fills. -/
def backfilled (i : Bool) : String := if i then "16.3.0" else "16.2.0"

/-- The lower version lands while the run for the higher one moves the tag, and that run finds
the higher one in a list that lags. -/
def inTime : List (Act Bool) :=
  [.list true [], .probe true false, .publish true .landed,
    .highest true (some ["16.3.0-build.1"]),
    .list false [], .probe false false, .publish false .landed,
    .highest false (some ["16.3.0-build.1"]), .promote true true]

theorem timely_inTime :
    (script backfilled .empty).EachStep (Timely backfilled) ⟨.empty, fun _ => .start⟩ inTime := by
  have hlower : release (build (backfilled false) 1) = some (toLex (16, toLex (2, 0))) := by
    decide +kernel
  have hhigher : release (build (backfilled true) 1) = some (toLex (16, toLex (3, 0))) := by
    decide +kernel
  refine .cons trivial rfl (.cons trivial rfl (.cons ?_ rfl (.cons ?_ rfl (.cons trivial rfl
    (.cons trivial rfl (.cons ?_ rfl (.cons ?_ rfl (.cons trivial rfl trivial))))))))
  · intro _ i n t m u hrun
    cases i <;> cases hrun
  · intro n t _ _ hover
    exact hover
  · intro _ i n t m u hrun ht hstaged hu
    cases i with
    | false => cases hrun
    | true =>
        cases hrun
        cases hstaged
        obtain rfl := Option.some.inj (ht.symm.trans hhigher)
        obtain rfl := Option.some.inj (hu.symm.trans hlower)
        decide
  · intro n t hrun ht _
    cases hrun
    obtain rfl := Option.some.inj (ht.symm.trans hlower)
    exact ⟨_, List.mem_singleton_self _, _, hhigher, by decide⟩

theorem forward_inTime :
    ∃ s, (script backfilled .empty).replay ⟨.empty, fun _ => .start⟩ inTime = some s ∧
      s.registry.published = ["16.2.0-build.1", "16.3.0-build.1"] ∧
      s.registry.tags "latest" = some "16.3.0-build.1" ∧ Forward backfilled s :=
  ⟨_, rfl, by decide +kernel, by decide +kernel,
    forward (r := .empty) (.of_eachStep (.start rfl) timely_inTime rfl)⟩

/-- The lower version reads the list first and moves the tag last. -/
def backfills : List (Act Bool) :=
  [.list false [], .probe false false, .publish false .landed,
    .highest false (some ["16.2.0-build.1"]),
    .list true [], .probe true false, .publish true .landed,
    .highest true (some ["16.2.0-build.1", "16.3.0-build.1"]), .promote true true]

/-- `latest` is at 16.3.0 when the other run is about to move it to 16.2.0. -/
theorem leapfrog : ¬∀ s, (script backfilled .empty).Reachable s → Forward backfilled s := by
  intro hclaim
  obtain ⟨s, hs, hrun, hpublished⟩ :
      ∃ s, (script backfilled .empty).replay ⟨.empty, fun _ => .start⟩ backfills = some s ∧
        s.run false = .promoting 1 ∧ "16.3.0-build.1" ∈ s.registry.published :=
    ⟨_, rfl, by decide +kernel, by decide +kernel⟩
  have hforward := hclaim s (Machine.Reachable.replay backfills (.start rfl) hs)
  obtain ⟨t, hrelease, hhighest⟩ := hforward.promotes false 1 hrun
  have hlower : release (build (backfilled false) 1) = some (toLex (16, toLex (2, 0))) := by
    decide +kernel
  have hhigher : release "16.3.0-build.1" = some (toLex (16, toLex (3, 0))) := by decide +kernel
  obtain rfl := Option.some.inj (hrelease.symm.trans hlower)
  exact absurd (hhighest _ hpublished _ hhigher) (by decide +kernel)

end TurbopackWasi.Publish
