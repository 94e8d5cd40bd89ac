import TurbopackWasi.Lib.Machine
import TurbopackWasi.Lib.Scan
import Mathlib.Data.Prod.Lex
import Mathlib.Logic.Function.Basic
import Mathlib.Order.Nat

/-!
# TurbopackWasi.Publish.Script

`publish.sh`, run any number of times at once against one registry. The workflow starts runs on
a schedule, for back-fills and again after a failure, each in a checkout of its own.

The registry is the list of the published versions and the dist-tags. A version is immutable:
publishing one that exists fails, and changes nothing. What a run reads may be older than what
is there: a version list is any part of the published versions, and the probe for one version
may miss it.
-/

namespace TurbopackWasi.Publish

open Lib Lib.Scan

/-! ### Versions -/

/-- `$NEXT_VERSION-build.$BUILD_NUM`. -/
def build (nextVersion : String) (buildNum : Nat) : String :=
  nextVersion ++ "-build." ++ buildNum.repr

/-- `DIST_TAG`. -/
def distTag (nextVersion : String) : String := "next-" ++ nextVersion

/-- `re.fullmatch(re.escape(next_version) + r"-build\.(\d+)", v)`. -/
def buildNumber (nextVersion v : String) : Option Nat := do
  let cs ← literal nextVersion.toList v.toList
  let cs ← literal "-build.".toList cs
  let (n, cs) ← number cs
  finish n cs

/-- One more than the highest number of a build in the list. -/
def nextBuildNum (nextVersion : String) (versions : List String) : Nat :=
  (versions.filterMap (buildNumber nextVersion)).foldl max 0 + 1

/-- The three numbers of a stable version of next, in the order of Python's tuples. -/
abbrev Release := ℕ ×ₗ ℕ ×ₗ ℕ

/-- `re.fullmatch(r"(\d+)\.(\d+)\.(\d+)-build\.\d+", v)`. -/
def release (v : String) : Option Release := do
  let (major, cs) ← number v.toList
  let cs ← literal ['.'] cs
  let (minor, cs) ← number cs
  let cs ← literal ['.'] cs
  let (patch, cs) ← number cs
  let cs ← literal "-build.".toList cs
  let (_, cs) ← number cs
  finish (toLex (major, toLex (minor, patch))) cs

/-- `".".join(map(str, best))`. -/
def Release.render (r : Release) : String :=
  r.1.repr ++ "." ++ r.2.1.repr ++ "." ++ r.2.2.repr

/-- `HIGHEST`, before it is rendered. -/
def highest (nextVersion : String) (versions : List String) : Release :=
  ((versions ++ [build nextVersion 0]).filterMap release).foldl max (toLex (0, toLex (0, 0)))

/-! ### The registry -/

structure Registry where
  published : List String
  tags : String → Option String
  /-- A dist-tag names a version that exists. -/
  tagged : ∀ tag v, tags tag = some v → v ∈ published

def Registry.empty : Registry := ⟨[], fun _ => none, by simp⟩

/-- `npm publish --tag`, of a version that is free. -/
def Registry.publish (r : Registry) (v tag : String) : Registry where
  published := v :: r.published
  tags := Function.update r.tags tag (some v)
  tagged := by
    intro tag' v' h
    by_cases htag : tag' = tag
    · subst htag
      rw [Function.update_self] at h
      exact Option.some.inj h ▸ List.mem_cons_self
    · rw [Function.update_of_ne htag] at h
      exact List.mem_cons_of_mem _ (r.tagged tag' v' h)

/-- `npm dist-tag add`. -/
def Registry.addTag (r : Registry) (v tag : String) : Registry :=
  if hv : v ∈ r.published then
    { r with
      tags := Function.update r.tags tag (some v)
      tagged := by
        intro tag' v' h
        by_cases htag : tag' = tag
        · subst htag
          rw [Function.update_self] at h
          exact Option.some.inj h ▸ hv
        · rw [Function.update_of_ne htag] at h
          exact r.tagged tag' v' h }
  else r

@[simp] theorem Registry.publish_published (r : Registry) (v tag : String) :
    (r.publish v tag).published = v :: r.published := rfl

@[simp] theorem Registry.publish_tags (r : Registry) (v tag : String) :
    (r.publish v tag).tags = Function.update r.tags tag (some v) := rfl

@[simp] theorem Registry.addTag_published (r : Registry) (v tag : String) :
    (r.addTag v tag).published = r.published := by
  rw [Registry.addTag]
  split <;> rfl

theorem Registry.addTag_of_ne {v tag tag' : String} (r : Registry) (h : tag' ≠ tag) :
    (r.addTag v tag).tags tag' = r.tags tag' := by
  rw [Registry.addTag]
  split
  · exact Function.update_of_ne h _ _
  · rfl

/-! ### Runs -/

/-- Where a run is; the number is `BUILD_NUM`. -/
inductive Point
  | start
  /-- In the loop that looks for a free number. -/
  | probing (buildNum : Nat)
  /-- `VERSION` is chosen and the package staged. -/
  | staged (buildNum : Nat)
  | published (buildNum : Nat)
  /-- `HIGHEST` is the version of the run. -/
  | promoting (buildNum : Nat)
  | ended
  deriving DecidableEq

structure State (ι : Type) where
  registry : Registry
  run : ι → Point

/-- How `npm publish` ends. -/
inductive Outcome
  | rejected
  | landed
  /-- The version is there, but the run gets an error. -/
  | unreported
  deriving DecidableEq

inductive Act (ι : Type)
  | list (i : ι) (versions : List String)
  | probe (i : ι) (found : Bool)
  | publish (i : ι) (outcome : Outcome)
  | highest (i : ι) (versions : Option (List String))
  | promote (i : ι) (accepted : Bool)
  | abort (i : ι)

variable {ι : Type} [DecidableEq ι] (nextVersion : ι → String)

def State.setRun (s : State ι) (i : ι) (p : Point) : State ι :=
  { s with run := Function.update s.run i p }

@[simp] theorem State.setRun_registry (s : State ι) (i : ι) (p : Point) :
    (s.setRun i p).registry = s.registry := rfl

theorem State.setRun_self (s : State ι) (i : ι) (p : Point) : (s.setRun i p).run i = p := by
  simp [State.setRun]

theorem State.setRun_of_ne {i j : ι} (s : State ι) (h : j ≠ i) (p : Point) :
    (s.setRun i p).run j = s.run j := by
  simp [State.setRun, h]

def next (s : State ι) : Act ι → Option (State ι)
  | .list i versions =>
      -- what `json.load` gets: nothing if the read fails, or if the here-document of the script
      -- takes the place of the pipe
      if s.run i = .start ∧ ∀ v ∈ versions, v ∈ s.registry.published then
        some (s.setRun i (.probing (nextBuildNum (nextVersion i) versions)))
      else none
  | .probe i found =>
      match s.run i with
      | .probing n =>
          if found then
            if build (nextVersion i) n ∈ s.registry.published then
              some (s.setRun i (.probing (n + 1)))
            else none
          else some (s.setRun i (.staged n))
      | _ => none
  | .publish i outcome =>
      match s.run i with
      | .staged n =>
          let v := build (nextVersion i) n
          match outcome with
          | .rejected => some (s.setRun i .ended)
          | .landed =>
              if v ∈ s.registry.published then none
              else some { s.setRun i (.published n) with
                registry := s.registry.publish v (distTag (nextVersion i)) }
          | .unreported =>
              if v ∈ s.registry.published then none
              else some { s.setRun i .ended with
                registry := s.registry.publish v (distTag (nextVersion i)) }
      | _ => none
  | .highest i versions =>
      match s.run i, versions with
      | .published _, none => some (s.setRun i .ended)
      | .published n, some versions =>
          if ∀ v ∈ versions, v ∈ s.registry.published then
            if (highest (nextVersion i) versions).render = nextVersion i then
              some (s.setRun i (.promoting n))
            else some (s.setRun i .ended)
          else none
      | _, _ => none
  | .promote i accepted =>
      match s.run i with
      | .promoting n =>
          let s := s.setRun i .ended
          if accepted then
            some { s with registry := s.registry.addTag (build (nextVersion i) n) "latest" }
          else some s
      | _ => none
  | .abort i => some (s.setRun i .ended)

/-- The runs, from a registry as it is. -/
def script (r : Registry) : Machine (State ι) (Act ι) where
  start s := s = ⟨r, fun _ => .start⟩
  next := next nextVersion

variable {nextVersion} {s s' : State ι} {a : Act ι}

/-- What a step does, and when. -/
inductive Takes (nextVersion : ι → String) (s : State ι) : Act ι → State ι → Prop
  | list {i : ι} {versions : List String} (hrun : s.run i = .start)
      (hversions : ∀ v ∈ versions, v ∈ s.registry.published) :
      Takes nextVersion s (.list i versions)
        (s.setRun i (.probing (nextBuildNum (nextVersion i) versions)))
  | found {i : ι} {n : Nat} (hrun : s.run i = .probing n)
      (hfound : build (nextVersion i) n ∈ s.registry.published) :
      Takes nextVersion s (.probe i true) (s.setRun i (.probing (n + 1)))
  | free {i : ι} {n : Nat} (hrun : s.run i = .probing n) :
      Takes nextVersion s (.probe i false) (s.setRun i (.staged n))
  | lands {i : ι} {n : Nat} {outcome : Outcome} (hrun : s.run i = .staged n)
      (houtcome : outcome ≠ .rejected)
      (hfree : build (nextVersion i) n ∉ s.registry.published) :
      Takes nextVersion s (.publish i outcome)
        { s.setRun i (if outcome = .landed then .published n else .ended) with
          registry := s.registry.publish (build (nextVersion i) n) (distTag (nextVersion i)) }
  | leads {i : ι} {n : Nat} {versions : List String} (hrun : s.run i = .published n)
      (hversions : ∀ v ∈ versions, v ∈ s.registry.published)
      (hleads : (highest (nextVersion i) versions).render = nextVersion i) :
      Takes nextVersion s (.highest i (some versions)) (s.setRun i (.promoting n))
  | promotes {i : ι} {n : Nat} (hrun : s.run i = .promoting n) :
      Takes nextVersion s (.promote i true)
        { s.setRun i .ended with
          registry := s.registry.addTag (build (nextVersion i) n) "latest" }
  /-- The run ends without having written anything. -/
  | ends {a : Act ι} (ha : ∀ i outcome, a = .publish i outcome → outcome = .rejected) (i : ι) :
      Takes nextVersion s a (s.setRun i .ended)

theorem takes_of_next (hn : next nextVersion s a = some s') : Takes nextVersion s a s' := by
  cases a with
  | list i versions =>
      simp only [next] at hn
      split at hn
      · next h =>
          obtain rfl := Option.some.inj hn
          exact .list h.1 h.2
      · cases hn
  | probe i found =>
      simp only [next] at hn
      split at hn
      · next n hrun =>
          cases found with
          | true =>
              simp only [if_true] at hn
              split at hn
              · next hfound =>
                  obtain rfl := Option.some.inj hn
                  exact .found hrun hfound
              · cases hn
          | false =>
              obtain rfl := Option.some.inj hn
              exact .free hrun
      · cases hn
  | publish i outcome =>
      simp only [next] at hn
      split at hn
      · next n hrun =>
          cases outcome with
          | rejected =>
              obtain rfl := Option.some.inj hn
              exact .ends (by simp) i
          | landed =>
              simp only at hn
              split at hn
              · cases hn
              · next hfree =>
                  obtain rfl := Option.some.inj hn
                  exact .lands hrun (show Outcome.landed ≠ .rejected by decide) hfree
          | unreported =>
              simp only at hn
              split at hn
              · cases hn
              · next hfree =>
                  obtain rfl := Option.some.inj hn
                  exact .lands hrun (show Outcome.unreported ≠ .rejected by decide) hfree
      · cases hn
  | highest i versions =>
      simp only [next] at hn
      split at hn
      · obtain rfl := Option.some.inj hn
        exact .ends (by simp) i
      · next n versions hrun =>
          split at hn
          · next hversions =>
              split at hn
              · next hleads =>
                  obtain rfl := Option.some.inj hn
                  exact .leads hrun hversions hleads
              · obtain rfl := Option.some.inj hn
                exact .ends (by simp) i
          · cases hn
      · cases hn
  | promote i accepted =>
      simp only [next] at hn
      split at hn
      · next n hrun =>
          cases accepted with
          | true =>
              obtain rfl := Option.some.inj hn
              exact .promotes hrun
          | false =>
              obtain rfl := Option.some.inj hn
              exact .ends (by simp) i
      · cases hn
  | abort i =>
      obtain rfl := Option.some.inj hn
      exact .ends (by simp) i

end TurbopackWasi.Publish
