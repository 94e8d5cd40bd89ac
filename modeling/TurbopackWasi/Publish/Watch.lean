import Mathlib.Data.String.Basic
import TurbopackWasi.Lib.Comm
import TurbopackWasi.Publish.Builds

/-!
# TurbopackWasi.Publish.Watch

**Which versions of next get built.** Every few minutes `watch-next-releases.yml` compares
the versions of next with those that were built: a list in the repository, and what is on
the registry without the numbers of the builds. What is new is built and published, one job
a version.

`mem_findNew` says what is new, whatever is read of the registry. A version is on the registry
only after its job, so a second run in the meantime finds it new again; `single_iff` says that
the concurrency group is what keeps a version from a second build.

The registry is that of `Publish.Script`, and is read as there: a version list is any part of
the published versions. What the script does to it (`script_lands`) is what the attempts of the
jobs do here.
-/

namespace TurbopackWasi.Publish.Watch

open Lib Lib.Scan

/-! ### `find-new` -/

/-- `test("^1[6-9]\\.") and (contains("-") | not)` -/
def watched (v : String) : Bool :=
  match v.toList with
  | '1' :: d :: '.' :: _ => decide ('6' ≤ d ∧ d ≤ '9') && !v.toList.contains '-'
  | _ => false

/-- The number of a build starts here, up to the end. -/
def atSuffix (cs : List Char) : Bool :=
  match literal "-build.".toList cs with
  | some digits => !digits.isEmpty && digits.all Char.isDigit
  | none => false

/-- What is before the first match, all if there is none. -/
def beforeSuffix : List Char → List Char
  | [] => []
  | c :: cs => if atSuffix (c :: cs) then [] else c :: beforeSuffix cs

/-- What `sed` leaves of a version, the number of the build taken off. -/
def strip (v : String) : String := String.ofList (beforeSuffix v.toList)

/-- The step `diff`; `read` is what `npm view next-swc-wasi versions` gives, if it works. -/
def findNew (versions seed : List String) (read : Option (List String)) : List String :=
  comm (sort (versions.filter watched)) (sortUnique (seed ++ (read.getD []).map strip))

/-! ### The suffix -/

theorem atSuffix_iff {cs : List Char} :
    atSuffix cs = true ↔ ∃ digits, digits ≠ [] ∧ (∀ d ∈ digits, d.isDigit = true) ∧
      cs = "-build.".toList ++ digits := by
  unfold atSuffix
  cases hlit : literal "-build.".toList cs with
  | none =>
      constructor
      · intro h
        cases h
      · intro h
        obtain ⟨digits, -, -, rfl⟩ := h
        rw [literal_append] at hlit
        cases hlit
  | some digits =>
      rw [literal_eq_some] at hlit
      constructor
      · intro h
        refine ⟨digits, ?_, ?_, hlit⟩
        · rintro rfl
          simp at h
        · simpa using (Bool.and_eq_true_iff.mp h).2
      · intro h
        obtain ⟨digits', hne, hdigits, hcs⟩ := h
        obtain rfl : digits = digits' := List.append_cancel_left (hlit.symm.trans hcs)
        have hall : digits.all Char.isDigit = true := List.all_eq_true.mpr hdigits
        simp [hne, hall]

/-- The suffix is found where it is, and not before. -/
theorem beforeSuffix_append (v : List Char) {digits : List Char} (hne : digits ≠ [])
    (hdigits : ∀ d ∈ digits, d.isDigit = true) :
    beforeSuffix (v ++ ("-build.".toList ++ digits)) = v := by
  induction v with
  | nil =>
      have hat : atSuffix ("-build.".toList ++ digits) = true :=
        atSuffix_iff.mpr ⟨digits, hne, hdigits, rfl⟩
      have hcons : "-build.".toList ++ digits = '-' :: ("build.".toList ++ digits) := rfl
      rw [List.nil_append, hcons, beforeSuffix, ← hcons, if_pos hat]
  | cons c v ih =>
      have hnot : ¬atSuffix (c :: v ++ ("-build.".toList ++ digits)) = true := by
        intro hat
        obtain ⟨digits', -, hdigits', htext⟩ := atSuffix_iff.mp hat
        -- the last dot is that of the one suffix and of the other
        have hsplit : (c :: v ++ "-build".toList) ++ '.' :: digits =
            "-build".toList ++ '.' :: digits' := by simpa using htext
        have hfront := (append_cons_inj (not_dot_mem hdigits) (not_dot_mem hdigits') hsplit).1
        have hlen := congrArg List.length hfront
        simp at hlen
      rw [List.cons_append, beforeSuffix, ← List.cons_append, if_neg hnot, ih]

theorem toDigits_ne_nil (n : Nat) : Nat.toDigits 10 n ≠ [] := by
  intro h
  have hnumber := number_toDigits n [] (by simp)
  rw [h] at hnumber
  simp [number] at hnumber

/-- What was published as a build of a version is taken for that version. -/
theorem strip_build (nextVersion : String) (n : Nat) : strip (build nextVersion n) = nextVersion := by
  rw [strip, toList_build,
    beforeSuffix_append _ (toDigits_ne_nil n) fun _ => isDigit_of_mem_toDigits]
  simp

/-! ### What is new -/

theorem mem_findNew {versions seed : List String} {read : Option (List String)} {v : String}
    (hnd : versions.Nodup) :
    v ∈ findNew versions seed read ↔
      v ∈ versions ∧ watched v = true ∧ v ∉ seed ∧ ∀ w ∈ read.getD [], strip w ≠ v := by
  rw [findNew, mem_comm_sort (hnd.filter _), List.mem_filter, List.mem_append, List.mem_map,
    not_or, and_assoc]
  simp

theorem nodup_findNew {versions : List String} (hnd : versions.Nodup) (seed : List String)
    (read : Option (List String)) : (findNew versions seed read).Nodup :=
  nodup_comm_sort (hnd.filter _)

/-! ### Runs of the workflow -/

/-- A job of the matrix, at one of the attempts at publishing. -/
structure Job where
  version : String
  attempt : Nat
  deriving DecidableEq

inductive Outcome
  | published
  /-- The kill-switch is off. -/
  | skipped
  /-- The script failed, and the registry has the build. -/
  | lost
  | rejected
  deriving DecidableEq

structure State where
  /-- The versions of next. -/
  versions : List String
  nodup : versions.Nodup
  registry : Registry
  /-- The jobs of scheduled runs that have not ended. -/
  jobs : List Job
  issues : List String

/-- How many builds of the version are on the registry. -/
def State.builds (s : State) (v : String) : Nat := (s.registry.published.map strip).count v

inductive Act
  /-- Next publishes a version. -/
  | release (v : String)
  /-- A scheduled run starts; `read` is what it reads of the registry, if it can. -/
  | poll (read : Option (List String))
  /-- A job does not get to publishing. -/
  | red (j : Job)
  /-- A job tries to publish, as the build of this number. -/
  | publish (j : Job) (o : Outcome) (buildNum : Nat)
  /-- `latest` is moved. -/
  | promote (v : String)

def State.land (s : State) (v : String) (buildNum : Nat) : State :=
  { s with registry := s.registry.publish (build v buildNum) (distTag v) }

/-- The job ends, with an issue or without one. -/
def State.done (s : State) (j : Job) (issue : Bool) : State :=
  { s with
    jobs := s.jobs.erase j
    issues := if issue then j.version :: s.issues else s.issues }

/-- An attempt has failed: there are three. -/
def State.retry (s : State) (j : Job) : State :=
  if j.attempt = 3 then s.done j true
  else { s with jobs := s.jobs.erase j ++ [⟨j.version, j.attempt + 1⟩] }

/-- `serialized`: a scheduled run waits for the one before it. -/
def next (serialized : Bool) (seed : List String) (s : State) : Act → Option State
  | .release v =>
      if h : v ∈ s.versions then none
      else some { s with
        versions := v :: s.versions
        nodup := List.nodup_cons.mpr ⟨h, s.nodup⟩ }
  | .poll read =>
      if (serialized = true → s.jobs = []) ∧ ∀ v ∈ read.getD [], v ∈ s.registry.published then
        let new := findNew s.versions seed read
        some { s with jobs := s.jobs ++ new.map fun v => ⟨v, 1⟩ }
      else none
  | .red j => if j ∈ s.jobs then some (s.done j true) else none
  | .publish j o n =>
      if j ∈ s.jobs then
        match o with
        | .skipped => some (s.done j false)
        | .rejected => some (s.retry j)
        | .published =>
            if build j.version n ∈ s.registry.published then none
            else some ((s.land j.version n).done j false)
        | .lost =>
            if build j.version n ∈ s.registry.published then none
            else some ((s.land j.version n).retry j)
      else none
  | .promote v => some { s with registry := s.registry.addTag v "latest" }

/-- The scheduled runs, from a registry where no version has two builds. -/
def watch (serialized : Bool) (seed : List String) : Machine State Act where
  start s := s.jobs = [] ∧ ∀ v, s.builds v ≤ 1
  next := next serialized seed

/-- Every run reads all of the registry, and an attempt that fails has published nothing. -/
def Steady (s : State) : Act → Prop
  | .poll read => ∃ l, read = some l ∧ ∀ v ∈ s.registry.published, v ∈ l
  | .publish _ o _ => o ≠ .lost
  | _ => True

/-- The jobs are of different versions, which have no build yet. -/
structure Inv (s : State) : Prop where
  jobs : (s.jobs.map Job.version).Nodup
  unbuilt : ∀ j ∈ s.jobs, s.builds j.version = 0
  single : ∀ v, s.builds v ≤ 1

variable {seed : List String} {s s' : State} {a : Act} {j : Job}

/-- The registry changes with a run of the script as it does here: by a build of a free number,
or a tag. -/
theorem script_lands {ι : Type} [DecidableEq ι] {nextVersion : ι → String}
    {p p' : Publish.State ι} {b : Publish.Act ι} (ht : Takes nextVersion p b p') :
    p'.registry = p.registry ∨
      (∃ i n, build (nextVersion i) n ∉ p.registry.published ∧
        p'.registry =
          p.registry.publish (build (nextVersion i) n) (distTag (nextVersion i))) ∨
      ∃ i n, p'.registry = p.registry.addTag (build (nextVersion i) n) "latest" := by
  cases ht with
  | @lands i n outcome hrun houtcome hfree => exact .inr (.inl ⟨i, n, hfree, rfl⟩)
  | @promotes i n hrun => exact .inr (.inr ⟨i, n, rfl⟩)
  | list | found | free | leads | ends => exact .inl rfl

theorem builds_land (v w : String) (n : Nat) :
    (s.land w n).builds v = s.builds v + if w = v then 1 else 0 := by
  unfold State.builds State.land
  rw [Registry.publish_published, List.map_cons, strip_build, List.count_cons]
  by_cases hw : w = v <;> simp [hw]

@[simp] theorem builds_done (issue : Bool) (v : String) :
    (s.done j issue).builds v = s.builds v := rfl

/-- The versions of the other jobs are other versions. -/
theorem Inv.ne_of_mem_erase (hI : Inv s) (hj : j ∈ s.jobs) {i : Job} (hi : i ∈ s.jobs.erase j) :
    j.version ≠ i.version := by
  have hperm := (List.perm_cons_erase hj).map Job.version
  have hnd := hperm.nodup_iff.mp hI.jobs
  rw [List.map_cons, List.nodup_cons] at hnd
  intro hsame
  exact hnd.1 (hsame ▸ List.mem_map_of_mem hi)

/-- The jobs without one of them. -/
theorem Inv.erase (hI : Inv s) (hj : j ∈ s.jobs) :
    ((s.jobs.erase j).map Job.version).Nodup ∧
      j.version ∉ (s.jobs.erase j).map Job.version := by
  have hnd := ((List.perm_cons_erase hj).map Job.version).nodup_iff.mp hI.jobs
  rw [List.map_cons, List.nodup_cons] at hnd
  exact hnd.symm

theorem Inv.done (hI : Inv s) (hj : j ∈ s.jobs) (issue : Bool) : Inv (s.done j issue) where
  jobs := (hI.erase hj).1
  unbuilt i hi := hI.unbuilt i (List.mem_of_mem_erase hi)
  single := hI.single

/-- The job has published, and is over. -/
theorem Inv.published (hI : Inv s) (hj : j ∈ s.jobs) (n : Nat) :
    Inv ((s.land j.version n).done j false) where
  jobs := (hI.erase hj).1
  unbuilt i hi := by
    have hi : i ∈ s.jobs.erase j := hi
    rw [builds_done, builds_land, if_neg (hI.ne_of_mem_erase hj hi)]
    exact hI.unbuilt i (List.mem_of_mem_erase hi)
  single v := by
    rw [builds_done, builds_land]
    by_cases hv : j.version = v
    · rw [← hv, hI.unbuilt j hj, if_pos rfl]
    · rw [if_neg hv]
      exact hI.single v

theorem Inv.retry (hI : Inv s) (hj : j ∈ s.jobs) : Inv (s.retry j) := by
  unfold State.retry
  split
  · exact hI.done hj true
  · refine ⟨?_, ?_, hI.single⟩
    · rw [List.map_append, List.nodup_append]
      refine ⟨(hI.erase hj).1, by simp, fun v hv w hw => ?_⟩
      obtain rfl : w = j.version := by simpa using hw
      rintro rfl
      exact (hI.erase hj).2 hv
    · intro i hi
      rcases List.mem_append.mp hi with hi | hi
      · exact hI.unbuilt i (List.mem_of_mem_erase hi)
      · obtain rfl := List.mem_singleton.mp hi
        exact hI.unbuilt j hj

/-- What a run finds new has no build, if it reads all of the registry. -/
theorem Inv.poll (hI : Inv s) (hempty : s.jobs = []) {read : List String}
    (hall : ∀ v ∈ s.registry.published, v ∈ read) :
    Inv { s with
      jobs := s.jobs ++ (findNew s.versions seed (some read)).map fun v => ⟨v, 1⟩ } where
  jobs := by
    simpa [hempty, Function.comp_def] using nodup_findNew s.nodup seed (some read)
  unbuilt i hi := by
    simp only [hempty, List.nil_append] at hi
    obtain ⟨v, hv, rfl⟩ := List.mem_map.mp hi
    obtain ⟨-, -, -, hnone⟩ := (mem_findNew s.nodup).mp hv
    refine List.count_eq_zero.mpr fun hmem => ?_
    obtain ⟨w, hw, hwv⟩ := List.mem_map.mp hmem
    exact hnone w (hall w hw) hwv
  single := hI.single

theorem inv_next (hI : Inv s) (hG : Steady s a) (hn : next true seed s a = some s') : Inv s' := by
  cases a with
  | release v =>
      simp only [next] at hn
      split at hn
      · cases hn
      · obtain rfl := Option.some.inj hn
        exact ⟨hI.jobs, hI.unbuilt, hI.single⟩
  | poll read =>
      obtain ⟨l, rfl, hall⟩ := hG
      simp only [next, Option.ite_none_right_eq_some, Option.some.injEq] at hn
      obtain ⟨⟨hempty, -⟩, rfl⟩ := hn
      exact hI.poll (hempty trivial) hall
  | red j =>
      simp only [next, Option.ite_none_right_eq_some, Option.some.injEq] at hn
      obtain ⟨hj, rfl⟩ := hn
      exact hI.done hj true
  | publish j o n =>
      simp only [next, Option.ite_none_right_eq_some] at hn
      obtain ⟨hj, hn⟩ := hn
      cases o with
      | published =>
          simp only [Option.ite_none_left_eq_some, Option.some.injEq] at hn
          obtain ⟨-, rfl⟩ := hn
          exact hI.published hj n
      | skipped =>
          obtain rfl := Option.some.inj hn
          exact hI.done hj false
      | lost => exact absurd rfl hG
      | rejected =>
          obtain rfl := Option.some.inj hn
          exact hI.retry hj
  | promote v =>
      obtain rfl := Option.some.inj hn
      have hbuilds : ∀ w, ({ s with registry := s.registry.addTag v "latest" } : State).builds w =
          s.builds w := by simp [State.builds]
      exact ⟨hI.jobs, fun i hi => (hbuilds _).trans (hI.unbuilt i hi),
        fun w => (hbuilds w).trans_le (hI.single w)⟩

/-! ### Without the concurrency group -/

/-- Next has released one version. -/
def released : State := ⟨["16.0.0"], by simp, .empty, [], []⟩

theorem findNew_released : findNew ["16.0.0"] [] (some []) = ["16.0.0"] := by
  have hw : watched "16.0.0" = true := by decide
  simp [findNew, hw, sort, sortUnique, Lib.comm]

/-- The second run starts before the job of the first has published. -/
theorem doubled_reach : ∃ s, (watch false []).Reach Steady s ∧ 1 < s.builds "16.0.0" := by
  let v := "16.0.0"
  let j : Job := ⟨v, 1⟩
  have hstart : (watch false []).Reach Steady released :=
    .start ⟨rfl, fun v => by simp [State.builds, released, Registry.empty]⟩
  have hpoll : ∀ jobs, Steady { released with jobs := jobs } (.poll (some [])) :=
    fun jobs => ⟨[], rfl, by simp [released, Registry.empty]⟩
  have hfirst : (watch false []).Reach Steady { released with jobs := [j] } :=
    .step (a := .poll (some [])) hstart (hpoll [])
      (by simp [watch, next, released, findNew_released, v, j])
  have hsecond : (watch false []).Reach Steady { released with jobs := [j, j] } :=
    .step (a := .poll (some [])) hfirst (hpoll [j])
      (by simp [watch, next, released, findNew_released, v, j])
  let built : State := State.done (State.land { released with jobs := [j, j] } v 1) j false
  have hbuilt : (watch false []).Reach Steady built :=
    .step (a := .publish j .published 1) hsecond (show Outcome.published ≠ .lost by decide)
      (by simp [watch, next, released, Registry.empty, built, j])
  have hnew : build v 2 ≠ build v 1 := by decide +kernel
  have hagain : (watch false []).Reach Steady ((built.land v 2).done j false) :=
    .step (a := .publish j .published 2) hbuilt (show Outcome.published ≠ .lost by decide)
      (by simp [watch, next, State.land, State.done, released, Registry.empty, built, j, hnew])
  refine ⟨_, hagain, ?_⟩
  rw [builds_done, builds_land, builds_done, builds_land]
  simp [v]

/-- **No version is built twice**, as long as the list that a run reads is up to date and an
attempt that fails has published nothing: the concurrency group of the scheduled runs is what it
takes. -/
theorem single_iff (serialized : Bool) :
    serialized = true ↔
      ∀ seed s, (watch serialized seed).Reach Steady s → ∀ v, s.builds v ≤ 1 := by
  constructor
  · rintro rfl seed s hs
    have hI : Inv s := by
      refine Machine.Reach.invariant (I := Inv) ?_ ?_ hs
      · intro s hstart
        exact ⟨by simp [hstart.1], by simp [hstart.1], hstart.2⟩
      · intro s a s' hI hG hn
        exact inv_next hI hG hn
    exact hI.single
  · intro h
    by_contra hser
    obtain rfl : serialized = false := Bool.eq_false_iff.mpr hser
    obtain ⟨s, hs, hv⟩ := doubled_reach
    exact absurd (h [] s hs "16.0.0") (Nat.not_le.mpr hv)

end TurbopackWasi.Publish.Watch
