import TurbopackWasi.Publish.Script

/-!
# TurbopackWasi.Publish.Builds

The build numbers of one version of next. Runs choose them from stale data, several at a time,
but a run never gets past the first free number: `Dense` bounds every candidate by it, and a
candidate below it is rejected by the registry. So the numbers have no gap, and the moving
dist-tag is at the last of them (`consecutive`).
-/

namespace TurbopackWasi.Publish

open Lib Lib.Scan

/-! ### Reading versions back -/

theorem toList_build (nextVersion : String) (n : Nat) :
    (build nextVersion n).toList =
      nextVersion.toList ++ ("-build.".toList ++ Nat.toDigits 10 n) := by
  simp [build, String.toList_append]

theorem buildNumber_build (nextVersion : String) (n : Nat) :
    buildNumber nextVersion (build nextVersion n) = some n := by
  have hnumber : number (Nat.toDigits 10 n ++ []) = some (n, []) := number_toDigits n [] (by simp)
  rw [List.append_nil] at hnumber
  simp only [buildNumber, toList_build, literal_append, Option.bind_eq_bind, Option.bind_some,
    hnumber, finish_nil]

theorem not_dot_mem {digits : List Char} (h : ∀ d ∈ digits, d.isDigit = true) : '.' ∉ digits := by
  intro hdot
  have hbad := h '.' hdot
  revert hbad
  decide

/-- The build number of a version is that of one next version only. -/
theorem eq_of_buildNumber {nextVersion nextVersion' : String} {m n : Nat}
    (h : buildNumber nextVersion (build nextVersion' m) = some n) :
    nextVersion' = nextVersion ∧ m = n := by
  have hsame : nextVersion' = nextVersion := by
    simp only [buildNumber, toList_build, Option.bind_eq_bind, Option.bind_eq_some_iff] at h
    obtain ⟨cs, hcs, cs', hcs', ⟨k, rest⟩, hnumber, hfinish⟩ := h
    obtain ⟨digits, hdigits, rfl⟩ := number_eq_some hnumber
    obtain ⟨rfl, -⟩ := finish_eq_some.mp hfinish
    rw [literal_eq_some.mp hcs'] at hcs
    have htext := literal_eq_some.mp hcs
    -- both end with the digits behind their last dot
    have hsplit : (nextVersion'.toList ++ "-build".toList) ++ '.' :: Nat.toDigits 10 m =
        (nextVersion.toList ++ "-build".toList) ++ '.' :: digits := by
      simpa using htext
    obtain ⟨hfront, -⟩ := append_cons_inj (not_dot_mem fun _ => isDigit_of_mem_toDigits)
      (not_dot_mem hdigits) hsplit
    exact String.toList_inj.mp (List.append_cancel_right hfront)
  refine ⟨hsame, ?_⟩
  rw [hsame, buildNumber_build] at h
  exact Option.some.inj h

theorem distTag_injective {nextVersion nextVersion' : String}
    (h : distTag nextVersion = distTag nextVersion') : nextVersion = nextVersion' := by
  have hlists := congrArg String.toList h
  simp only [distTag, String.toList_append] at hlists
  exact String.toList_inj.mp (List.append_cancel_left hlists)

theorem distTag_ne_latest (nextVersion : String) : distTag nextVersion ≠ "latest" := by
  intro h
  have hlists := congrArg String.toList h
  simp [distTag, String.toList_append] at hlists

/-! ### The candidates -/

variable {ι : Type} [DecidableEq ι] {nextVersion : ι → String} {s s' : State ι} {a : Act ι}
  {i : ι} {nv : String} {k n : Nat} {r : Registry}

/-- The published builds of a next version are those from 1 to `k`, under their own names. -/
structure Builds (nv : String) (k : Nat) (r : Registry) : Prop where
  named : ∀ v ∈ r.published, ∀ n, buildNumber nv v = some n → v = build nv n
  numbers : ∀ n, build nv n ∈ r.published ↔ 1 ≤ n ∧ n ≤ k

/-- The number that a run has chosen, as far as it has. -/
def Point.candidate : Point → Option Nat
  | .probing n => some n
  | .staged n => some n
  | _ => none

structure Dense (nextVersion : ι → String) (nv : String) (k : Nat) (s : State ι) : Prop where
  builds : Builds nv k s.registry
  newest : 0 < k → s.registry.tags (distTag nv) = some (build nv k)
  /-- No run is past the first free number. -/
  candidate : ∀ i, nextVersion i = nv → ∀ n, (s.run i).candidate = some n → 1 ≤ n ∧ n ≤ k + 1

omit [DecidableEq ι] in
theorem foldl_max_le {xs : List Nat} {b k : Nat} (hb : b ≤ k) (h : ∀ x ∈ xs, x ≤ k) :
    xs.foldl max b ≤ k := by
  induction xs generalizing b with
  | nil => exact hb
  | cons x xs ih =>
      rw [List.foldl_cons]
      exact ih (max_le hb (h x List.mem_cons_self)) (fun y hy => h y (List.mem_cons_of_mem _ hy))

/-- A number computed from a part of the list is not past the first free one. -/
theorem Builds.nextBuildNum_le {versions : List String} (h : Builds nv k r)
    (hversions : ∀ v ∈ versions, v ∈ r.published) :
    1 ≤ nextBuildNum nv versions ∧ nextBuildNum nv versions ≤ k + 1 := by
  refine ⟨Nat.le_add_left 1 _, Nat.succ_le_succ (foldl_max_le (Nat.zero_le k) ?_)⟩
  intro n hn
  obtain ⟨v, hv, hnumber⟩ := List.mem_filterMap.mp hn
  have hpublished := hversions v hv
  rw [h.named v hpublished n hnumber] at hpublished
  exact ((h.numbers n).mp hpublished).2

theorem Builds.congr {r' : Registry} (h : Builds nv k r) (hsame : r'.published = r.published) :
    Builds nv k r' where
  named := by rw [hsame]; exact h.named
  numbers := by rw [hsame]; exact h.numbers

/-- A build of another next version changes nothing here. -/
theorem Builds.other {nv' tag : String} (h : Builds nv k r) (hne : nv' ≠ nv) :
    Builds nv k (r.publish (build nv' n) tag) where
  named v hv m hnumber := by
    rcases List.mem_cons.mp hv with rfl | hv
    · exact absurd (eq_of_buildNumber hnumber).1 hne
    · exact h.named v hv m hnumber
  numbers m := by
    rw [← h.numbers m]
    constructor
    · intro hm
      rcases List.mem_cons.mp hm with heq | hm
      · have hnumber : buildNumber nv (build nv' n) = some m := by
          rw [← heq]
          exact buildNumber_build nv m
        exact absurd (eq_of_buildNumber hnumber).1 hne
      · exact hm
    · intro hm
      exact List.mem_cons_of_mem _ hm

/-- The next build. -/
theorem Builds.succ {tag : String} (h : Builds nv k r) :
    Builds nv (k + 1) (r.publish (build nv (k + 1)) tag) where
  named v hv m hnumber := by
    rcases List.mem_cons.mp hv with rfl | hv
    · rw [(eq_of_buildNumber hnumber).2]
    · exact h.named v hv m hnumber
  numbers m := by
    constructor
    · intro hm
      rcases List.mem_cons.mp hm with heq | hm
      · have hnumber : buildNumber nv (build nv (k + 1)) = some m := by
          rw [← heq]
          exact buildNumber_build nv m
        have hk := (eq_of_buildNumber hnumber).2
        omega
      · have hk := (h.numbers m).mp hm
        omega
    · intro hm
      by_cases hk : m = k + 1
      · exact hk ▸ List.mem_cons_self
      · exact List.mem_cons_of_mem _ ((h.numbers m).mpr (by omega))

omit [DecidableEq ι] in
/-- What the registry accepts is the first free number. -/
theorem Dense.eq_succ (h : Dense nextVersion nv k s) (hi : nextVersion i = nv)
    (hrun : s.run i = .staged n) (hfree : build nv n ∉ s.registry.published) : n = k + 1 := by
  obtain ⟨hpos, hle⟩ := h.candidate i hi n (by rw [hrun, Point.candidate])
  by_contra hne
  exact hfree ((h.builds.numbers n).mpr ⟨hpos, by omega⟩)

theorem Dense.setRun {p : Point} (h : Dense nextVersion nv k s)
    (hp : nextVersion i = nv → ∀ n, p.candidate = some n → 1 ≤ n ∧ n ≤ k + 1) :
    Dense nextVersion nv k (s.setRun i p) where
  builds := h.builds
  newest := h.newest
  candidate j hj n hn := by
    by_cases hji : j = i
    · subst hji
      rw [s.setRun_self] at hn
      exact hp hj n hn
    · rw [s.setRun_of_ne hji] at hn
      exact h.candidate j hj n hn

/-- One step creates build `k + 1`, or no build at all. -/
theorem dense_takes (h : Dense nextVersion nv k s) (ht : Takes nextVersion s a s') :
    Dense nextVersion nv k s' ∨ Dense nextVersion nv (k + 1) s' := by
  cases ht with
  | @list i versions hrun hversions =>
      refine .inl (h.setRun ?_)
      intro hi n hn
      obtain rfl := Option.some.inj hn
      rw [hi]
      exact h.builds.nextBuildNum_le hversions
  | @found i n hrun hfound =>
      refine .inl (h.setRun ?_)
      intro hi m hm
      obtain rfl := Option.some.inj hm
      rw [hi] at hfound
      have hn := (h.builds.numbers n).mp hfound
      omega
  | @free i n hrun =>
      refine .inl (h.setRun ?_)
      intro hi m hm
      exact h.candidate i hi m (by rw [hrun]; exact hm)
  | @lands i n outcome hrun houtcome hfree =>
      have hnone : ∀ m, (if outcome = .landed then Point.published n else .ended).candidate =
          some m → False := by
        intro m hm
        split at hm <;> cases hm
      by_cases hi : nextVersion i = nv
      · rw [hi] at hfree ⊢
        obtain rfl := h.eq_succ hi hrun hfree
        have hset := h.setRun (p := if outcome = .landed then .published (k + 1) else .ended)
          (i := i) (fun _ m hm => (hnone m hm).elim)
        refine .inr ⟨h.builds.succ, ?_, ?_⟩
        · simp
        · intro j hj m hm
          have hm' := hset.candidate j hj m hm
          omega
      · have hset := h.setRun (p := if outcome = .landed then .published n else .ended)
          (i := i) (fun _ m hm => (hnone m hm).elim)
        refine .inl ⟨h.builds.other hi, ?_, hset.candidate⟩
        intro hk
        have htag : distTag nv ≠ distTag (nextVersion i) := by
          intro hsame
          exact hi (distTag_injective hsame).symm
        simpa [htag] using h.newest hk
  | @leads i n versions hrun hversions hleads => exact .inl (h.setRun (by simp [Point.candidate]))
  | @promotes i n hrun =>
      have hset := h.setRun (p := .ended) (i := i) (by simp [Point.candidate])
      refine .inl ⟨?_, ?_, hset.candidate⟩
      · exact h.builds.congr (Registry.addTag_published _ _ _)
      · intro hk
        rw [Registry.addTag_of_ne _ (distTag_ne_latest nv)]
        exact h.newest hk
  | @ends a ha i => exact .inl (h.setRun (by simp [Point.candidate]))

theorem dense_of_reachable (hnone : ∀ v ∈ r.published, buildNumber nv v = none)
    (h : (script nextVersion r).Reachable s) : ∃ k, Dense nextVersion nv k s := by
  refine h.invariant (I := fun s => ∃ k, Dense nextVersion nv k s) ?_ ?_
  · intro s hs
    subst hs
    refine ⟨0, ⟨?_, ?_⟩, by simp, by simp [Point.candidate]⟩
    · intro v hv n hn
      rw [hnone v hv] at hn
      cases hn
    · intro n
      constructor
      · intro hn
        have hnumber := hnone _ hn
        rw [buildNumber_build] at hnumber
        cases hnumber
      · omega
  · intro s a s' hs _ hn
    obtain ⟨k, hk⟩ := hs
    rcases dense_takes hk (takes_of_next hn) with hk' | hk'
    · exact ⟨k, hk'⟩
    · exact ⟨k + 1, hk'⟩

/-! ### The builds of one version -/

structure Consecutive (nextVersion : ι → String) (nv : String) (k : Nat) (s : State ι) : Prop where
  /-- The build numbers are those from 1 to `k`, -/
  numbers : ∀ n, (∃ v ∈ s.registry.published, buildNumber nv v = some n) ↔ 1 ≤ n ∧ n ≤ k
  /-- the moving tag is at the last of them, -/
  newest : 0 < k → s.registry.tags (distTag nv) = some (build nv k)
  /-- and what is published next is build `k + 1`. -/
  creates : ∀ i outcome s', nextVersion i = nv → outcome ≠ .rejected →
    next nextVersion s (.publish i outcome) = some s' →
      s'.registry.published = build nv (k + 1) :: s.registry.published ∧
        s'.registry.tags (distTag nv) = some (build nv (k + 1))

/-- **Build numbers stay dense**, whatever the runs read and however they interleave. -/
theorem consecutive (hnone : ∀ v ∈ r.published, buildNumber nv v = none)
    (h : (script nextVersion r).Reachable s) : ∃ k, Consecutive nextVersion nv k s := by
  obtain ⟨k, hk⟩ := dense_of_reachable hnone h
  refine ⟨k, ?_, hk.newest, ?_⟩
  · intro n
    rw [← hk.builds.numbers n]
    constructor
    · intro hex
      obtain ⟨v, hv, hnumber⟩ := hex
      rwa [hk.builds.named v hv n hnumber] at hv
    · intro hn
      exact ⟨_, hn, buildNumber_build nv n⟩
  · intro i outcome s' hi houtcome hn
    cases takes_of_next hn with
    | @lands _ n _ hrun _ hfree =>
        rw [hi] at hfree ⊢
        obtain rfl := hk.eq_succ hi hrun hfree
        simp
    | ends ha => exact absurd (ha i outcome rfl) houtcome

/-- Two runs find no build; the second is rejected, starts again with a list that lacks the
first build, and is saved by the probe. -/
def race : List (Act Nat) :=
  [.list 0 [], .list 1 [], .probe 0 false, .probe 1 false, .publish 0 .landed,
    .publish 1 .rejected, .list 2 [], .probe 2 true, .probe 2 false, .publish 2 .landed]

theorem consecutive_race :
    ∃ s, (script (fun _ => "16.2.0") .empty).replay ⟨.empty, fun _ => .start⟩ race = some s ∧
      s.registry.published = ["16.2.0-build.2", "16.2.0-build.1"] ∧
      ∃ k, Consecutive (fun _ => "16.2.0") "16.2.0" k s := by
  obtain ⟨s, hs, hpublished⟩ :
      ∃ s, (script (fun _ => "16.2.0") .empty).replay ⟨.empty, fun _ => .start⟩ race = some s ∧
        s.registry.published = ["16.2.0-build.2", "16.2.0-build.1"] := ⟨_, rfl, by decide +kernel⟩
  exact ⟨s, hs, hpublished,
    consecutive (by simp [Registry.empty]) (Machine.Reachable.replay race (.start rfl) hs)⟩

end TurbopackWasi.Publish
