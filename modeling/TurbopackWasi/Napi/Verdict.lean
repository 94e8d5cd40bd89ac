import TurbopackWasi.Napi.Deferred

/-!
# TurbopackWasi.Napi.Verdict

**What the promise of an async function says.** While the environment runs, the two tasks pass
through a few situations only (`Progress`), in which one of them, and never both, sends what the
future has come to. When the function is closed, nothing more gets into its queue.
-/

namespace TurbopackWasi.Napi.Deferred

open Lib

variable {T V : Type} {x : Export T V} {s s' : State T V} {o : Outcome T V}
  {r : Except (Error V) T} {stage : Stage T V} {t : Task}

/-! ### The situations of the tasks -/

/-- Where the tasks are, what the future has come to, what is in the box, and how many threads
use the function. -/
inductive Progress (x : Export T V) : Stage T V → Stage T V → Option (Outcome T V) →
    Option (Except (Error V) T) → Nat → Prop
  | waiting : Progress x .waiting x.start none none 1
  | ended (o : Outcome T V) : Progress x o.stage x.start (some o) none 1
  | sent {o : Outcome T V} {r : Except (Error V) T} : x.report o = some r →
      Progress x .releasing x.start (some o) (some r) 1
  | released {o : Outcome T V} {r : Except (Error V) T} {handler : Stage T V} :
      x.report o = some r → handler = x.start ∨ handler = .done →
      Progress x .done handler (some o) (some r) 0
  | reporting {p : Payload} {r : Except (Error V) T} : x.report (.panic p) = some r →
      Progress x (.panicked p) (.calling r) (some (.panic p)) none 1
  | reported {p : Payload} {r : Except (Error V) T} : x.report (.panic p) = some r →
      Progress x (.panicked p) .releasing (some (.panic p)) (some r) 1
  | told {p : Payload} {r : Except (Error V) T} : x.report (.panic p) = some r →
      Progress x (.panicked p) .done (some (.panic p)) (some r) 0

/-- The situation, and what is in the queue of the function. -/
def Live (x : Export T V) (s : State T V) : Prop :=
  ∃ b, Progress x s.inner s.handler s.ended b s.engine.threads ∧ s.boxes = b.toList ∧
    s.engine.sent = (b.map fun _ => 0).toList

structure Sound (x : Export T V) (s : State T V) : Prop where
  engine : Tsfn.Inv s.engine
  handles : s.engine.handles = 0
  closing : s.engine.closing = true ↔ s.engine.phase ≠ .running
  finalizing : s.engine.phase ≠ .finalizing
  waiting : s.inner = .waiting → s.ended = none
  live : s.engine.phase = .running → Live x s
  sent : s.engine.sent = [] ∨ s.engine.sent = [0] ∧
    ∃ o r, s.ended = some o ∧ x.report o = some r ∧ s.boxes[0]? = some r
  promise : s.promise = .ofOutcome (if s.engine.delivered = [] then none else s.ended.bind x.verdict)
  concluded : s.concluded ≤ if s.engine.delivered = [] then 0 else 1

theorem sound_init : Sound x (.init x) where
  engine := ⟨by simp [State.init, Tsfn.State.init], by simp [State.init, Tsfn.State.init],
    by simp [State.init, Tsfn.State.init], by simp [State.init, Tsfn.State.init], rfl, fun _ => rfl⟩
  handles := rfl
  closing := by simp [State.init, Tsfn.State.init]
  finalizing := by simp [State.init, Tsfn.State.init]
  waiting := fun _ => rfl
  live := fun _ => ⟨none, .waiting, rfl, rfl⟩
  sent := Or.inl rfl
  promise := rfl
  concluded := Nat.le_refl _

theorem stage_ne_waiting : o.stage ≠ .waiting := by
  cases o <;> simp [Outcome.stage]

theorem report_of_calling (h : o.stage = .calling r) : x.report o = some r := by
  cases o with
  | ok v =>
      obtain rfl : .ok v = r := by simpa [Outcome.stage] using h
      rfl
  | err e =>
      obtain rfl : .error e = r := by simpa [Outcome.stage] using h
      rfl
  | panic p => simp [Outcome.stage] at h

theorem panic_of_stage {p : Payload} (h : o.stage = .panicked p) : o = .panic p := by
  cases o with
  | ok v => simp [Outcome.stage] at h
  | err e => simp [Outcome.stage] at h
  | panic q => simpa [Outcome.stage] using h

theorem start_eq_waiting : x.start = .waiting ↔ x.wasm = false := by
  cases h : x.wasm <;> simp [Export.start, h]

theorem start_ne (h : stage ≠ .waiting) (h' : stage ≠ .done) : x.start ≠ stage := by
  cases hwasm : x.wasm with
  | true => simpa [Export.start, hwasm] using h'.symm
  | false => simpa [Export.start, hwasm] using h.symm

namespace Progress

variable {inner handler : Stage T V} {ended : Option (Outcome T V)}
  {b : Option (Except (Error V) T)} {n : Nat}

theorem call_inner (h : Progress x (.calling r) handler ended b n) :
    b = none ∧ Progress x .releasing handler ended (some r) n := by
  generalize hinner : Stage.calling r = inner at h
  cases h with
  | ended o => exact ⟨rfl, .sent (report_of_calling hinner.symm)⟩
  | waiting | sent | released | reporting | reported | told => cases hinner

theorem call_handler (h : Progress x inner (.calling r) ended b n) :
    b = none ∧ Progress x inner .releasing ended (some r) n := by
  have hstart : x.start ≠ Stage.calling r := start_ne (by simp) (by simp)
  generalize hhandler : Stage.calling r = handler at h
  cases h with
  | reporting hr =>
      obtain rfl := Stage.calling.inj hhandler
      exact ⟨rfl, .reported hr⟩
  | waiting | ended | sent => exact absurd hhandler.symm hstart
  | released _ hh =>
      rcases hh with rfl | rfl
      · exact absurd hhandler.symm hstart
      · cases hhandler
  | reported | told => cases hhandler

theorem release_inner (h : Progress x .releasing handler ended b n) :
    n = 1 ∧ Progress x .done handler ended b 0 := by
  generalize hinner : Stage.releasing = inner at h
  cases h with
  | sent hr => exact ⟨rfl, .released hr (Or.inl rfl)⟩
  | ended o => cases o <;> cases hinner
  | waiting | released | reporting | reported | told => cases hinner

theorem release_handler (h : Progress x inner .releasing ended b n) :
    n = 1 ∧ Progress x inner .done ended b 0 := by
  have hstart : x.start ≠ (Stage.releasing : Stage T V) := start_ne (by simp) (by simp)
  generalize hhandler : Stage.releasing = handler at h
  cases h with
  | reported hr => exact ⟨rfl, .told hr⟩
  | waiting | ended | sent => exact absurd hhandler.symm hstart
  | released _ hh =>
      rcases hh with rfl | rfl
      · exact absurd hhandler.symm hstart
      · cases hhandler
  | reporting | told => cases hhandler

/-- The future ends. -/
theorem finish (h : Progress x .waiting handler ended b n) (o : Outcome T V) :
    Progress x o.stage handler (some o) b n := by
  generalize hinner : Stage.waiting = inner at h
  cases h with
  | waiting => exact .ended o
  | ended o' => exact absurd hinner.symm stage_ne_waiting
  | sent | released | reporting | reported | told => cases hinner

/-- The handler learns of a panic. -/
theorem await {p : Payload} (h : Progress x (.panicked p) .waiting ended b n) :
    Progress x (.panicked p) (.calling (.error (ofPanic p))) ended b n := by
  generalize hinner : Stage.panicked p = inner, hhandler : Stage.waiting = handler at h
  cases h with
  | ended o =>
      obtain rfl := panic_of_stage hinner.symm
      have hwasm := start_eq_waiting.mp hhandler.symm
      exact .reporting (by simp [Export.report, hwasm])
  | waiting | sent | released => cases hinner
  | reporting | reported | told => cases hhandler

/-- It learns that there was none. -/
theorem idle (h : Progress x .done .waiting ended b n) : Progress x .done .done ended b n := by
  generalize hinner : Stage.done = inner, hhandler : Stage.waiting = handler at h
  cases h with
  | released hr _ => exact .released hr (Or.inr rfl)
  | ended o => cases o <;> cases hinner
  | waiting | sent | reporting | reported | told => cases hinner

/-- A task that has panicked has run the future. -/
theorem panicked {p : Payload} (h : Progress x inner handler ended b n)
    (hp : inner = .panicked p ∨ handler = .panicked p) : ended = some (.panic p) := by
  have hstart : x.start ≠ (Stage.panicked p : Stage T V) := start_ne (by simp) (by simp)
  cases h with
  | waiting | sent => simp [hstart] at hp
  | ended o =>
      have hinner : o.stage = .panicked p := by simpa [hstart] using hp
      rw [panic_of_stage hinner]
  | released _ hh => rcases hh with rfl | rfl <;> simp [hstart] at hp
  | reporting | reported | told =>
      obtain rfl : _ = p := by simpa using hp
      rfl

end Progress

section Frame

variable (s : State T V) (t : Task) (stage : Stage T V)

@[simp] theorem setStage_engine : (s.setStage t stage).engine = s.engine := by cases t <;> rfl
@[simp] theorem setStage_boxes : (s.setStage t stage).boxes = s.boxes := by cases t <;> rfl
@[simp] theorem setStage_ended : (s.setStage t stage).ended = s.ended := by cases t <;> rfl
@[simp] theorem setStage_promise : (s.setStage t stage).promise = s.promise := by cases t <;> rfl

@[simp] theorem setStage_concluded : (s.setStage t stage).concluded = s.concluded := by
  cases t <;> rfl

end Frame

/-! ### The function while it is open -/

theorem Sound.open (hS : Sound x s) (hphase : s.engine.phase = .running) :
    s.engine.closing = false := by
  cases hclosing : s.engine.closing with
  | false => rfl
  | true => exact absurd hphase (hS.closing.mp hclosing)

/-- A call is answered `napi_ok`, and queued. -/
theorem Sound.napi_call (hS : Sound x s) (hphase : s.engine.phase = .running) (i : Nat) :
    s.engine.status (.call i) = some .ok ∧ (s.engine.napi (.call i)).sent = s.engine.sent ++ [i] ∧
      (s.engine.napi (.call i)).threads = s.engine.threads := by
  have hok : s.engine.status (.call i) = some .ok :=
    Tsfn.status_call.mpr ⟨by simp [hphase], hS.open hphase⟩
  simp [Tsfn.State.napi, hok]

theorem napi_release {e : Tsfn.State Nat} (hphase : e.phase = .running) (hthreads : e.threads = 1) :
    e.status .release = some .ok ∧ (e.napi .release).sent = e.sent ∧
      (e.napi .release).threads = 0 := by
  have hok : e.status .release = some .ok := by simp [Tsfn.State.status, hphase, hthreads]
  simp [Tsfn.State.napi, hok, hthreads]

theorem assert_ok {status : Option Tsfn.Status} {message : String} {stage : Stage T V}
    (h : status = some .ok) : x.assert status message stage = stage := by
  simp [Export.assert, h]

theorem assert_ne_waiting {status : Option Tsfn.Status} {message : String} {stage : Stage T V}
    (h : stage ≠ .waiting) : x.assert status message stage ≠ .waiting := by
  unfold Export.assert
  split
  · simp
  · exact h

/-! ### One step -/

theorem Live.call (hS : Sound x s) (hphase : s.engine.phase = .running)
    (hstage : s.stage t = .calling r) : Live x (s.call x t r) := by
  obtain ⟨b, hprogress, hboxes, hsent⟩ := hS.live hphase
  obtain ⟨hok, hqueued, hthreads⟩ := hS.napi_call hphase s.boxes.length
  refine ⟨some r, ?_⟩
  simp only [State.call, assert_ok hok, setStage_engine, setStage_boxes, setStage_ended, hqueued,
    hthreads]
  cases t with
  | inner =>
      rw [show s.inner = .calling r from hstage] at hprogress
      obtain ⟨rfl, hnext⟩ := hprogress.call_inner
      exact ⟨hnext, by simp [hboxes], by simp [hboxes, hsent]⟩
  | handler =>
      rw [show s.handler = .calling r from hstage] at hprogress
      obtain ⟨rfl, hnext⟩ := hprogress.call_handler
      exact ⟨hnext, by simp [hboxes], by simp [hboxes, hsent]⟩

theorem Live.release (hS : Sound x s) (hphase : s.engine.phase = .running)
    (hstage : s.stage t = .releasing) : Live x (s.release x t) := by
  obtain ⟨b, hprogress, hboxes, hsent⟩ := hS.live hphase
  have hnext : s.engine.threads = 1 ∧
      Progress x (s.setStage t .done).inner (s.setStage t .done).handler s.ended b 0 := by
    cases t with
    | inner =>
        rw [show s.inner = .releasing from hstage] at hprogress
        exact hprogress.release_inner
    | handler =>
        rw [show s.handler = .releasing from hstage] at hprogress
        exact hprogress.release_handler
  obtain ⟨hok, hqueued, hzero⟩ := napi_release hphase hnext.1
  refine ⟨b, ?_⟩
  simp only [State.release, assert_ok hok, setStage_engine, setStage_boxes, setStage_ended, hqueued,
    hzero]
  refine ⟨?_, hboxes, hsent⟩
  cases t <;> exact hnext.2

/-- One answer at most is queued, and it is the right one. -/
theorem Live.sent (hL : Live x s) : s.engine.sent = [] ∨ s.engine.sent = [0] ∧
    ∃ o r, s.ended = some o ∧ x.report o = some r ∧ s.boxes[0]? = some r := by
  obtain ⟨b, hprogress, hboxes, hsent⟩ := hL
  rw [hboxes, hsent]
  generalize s.inner = inner, s.handler = handler, s.ended = ended, s.engine.threads = n at hprogress
  cases hprogress with
  | waiting | ended | reporting => exact Or.inl rfl
  | sent hr | released hr _ | reported hr | told hr => exact Or.inr ⟨rfl, _, _, rfl, hr, rfl⟩

theorem Sound.undelivered (hS : Sound x s) (h : s.ended = none) : s.engine.delivered = [] := by
  have hsent : s.engine.sent = [] := by
    rcases hS.sent with hnone | ⟨-, o, r, ho, -⟩
    · exact hnone
    · simp [h] at ho
  have hitems := hS.engine.items
  rw [hsent] at hitems
  exact (List.append_eq_nil_iff.mp (List.append_eq_nil_iff.mp hitems.symm).1).1

/-- A task calls the engine. -/
theorem Sound.napi (hS : Sound x s) {op : Tsfn.Op Nat} (hop : op ≠ .abort)
    {more : List (Except (Error V) T)} (hstage : stage ≠ .waiting)
    (hs' : s' = { s with
      boxes := s.boxes ++ more
      engine := s.engine.napi op }.setStage t stage)
    (hlive : s.engine.phase = .running → Live x s') : Sound x s' := by
  subst hs'
  refine ⟨?_, ?_, ?_, ?_, ?_, ?_, ?_, ?_, ?_⟩
  · simpa using hS.engine.napi op
  · simpa using hS.handles
  · simpa [Tsfn.napi_closing _ _ hop] using hS.closing
  · simpa using hS.finalizing
  · intro hw
    rw [setStage_ended]
    cases t with
    | inner => exact absurd hw hstage
    | handler => exact hS.waiting hw
  · simpa using hlive
  · by_cases hphase : s.engine.phase = .running
    · exact (hlive hphase).sent
    · have hsame := Tsfn.napi_sent (hS.closing.mpr hphase) op
      simp only [setStage_engine, setStage_ended, setStage_boxes, hsame]
      rcases hS.sent with hnone | ⟨hone, o, r, ho, hr, hbox⟩
      · exact Or.inl hnone
      · refine Or.inr ⟨hone, o, r, ho, hr, ?_⟩
        obtain ⟨hlt, -⟩ := List.getElem?_eq_some_iff.mp hbox
        rw [List.getElem?_append_left hlt, hbox]
  · simpa using hS.promise
  · simpa using hS.concluded

/-- The callback gets the answer. -/
theorem Sound.deliver (hS : Sound x s) (hphase : s.engine.phase = .running) {i : Nat}
    {queue : List Nat} (hqueue : s.engine.queue = i :: queue) :
    Sound x (State.resolveDeferred x
      { s with engine := { s.engine with queue, delivered := s.engine.delivered ++ [i] } } i) := by
  have hitems := hS.engine.items
  have hlost := hS.engine.lost (by simp [hphase])
  rw [hlost, hqueue, List.append_nil] at hitems
  obtain ⟨hone, o, r, ho, hr, hbox⟩ : s.engine.sent = [0] ∧
      ∃ o r, s.ended = some o ∧ x.report o = some r ∧ s.boxes[0]? = some r := by
    rcases hS.sent with hnone | hone
    · simp [hnone] at hitems
    · exact hone
  obtain ⟨hdelivered, rfl, rfl⟩ : s.engine.delivered = [] ∧ i = 0 ∧ queue = [] := by
    rw [hone] at hitems
    cases hd : s.engine.delivered with
    | nil => simpa [hd, eq_comm] using hitems
    | cons j js => simp [hd] at hitems
  have hpending : s.promise = .pending := by
    rw [hS.promise, if_pos hdelivered]
    rfl
  have hzero : s.concluded = 0 := by simpa [hdelivered] using hS.concluded
  have hengine := Tsfn.inv_takes hS.engine (.deliver hphase (hS.open hphase) hqueue)
  have hlive := hS.live hphase
  have hcallback := resolveDeferred_eq hr (s := { s with
    engine := { s.engine with queue := [], delivered := s.engine.delivered ++ [0] } }) hbox
  rw [hcallback]
  cases hv : x.verdict o with
  | none =>
      refine ⟨hengine, hS.handles, hS.closing, hS.finalizing, hS.waiting, fun _ => hlive, hS.sent,
        ?_, ?_⟩
      · simpa [ho, hv, Lib.Promise.ofOutcome] using hpending
      · simp [hzero]
  | some y =>
      refine ⟨hengine, hS.handles, hS.closing, hS.finalizing, hS.waiting, fun _ => hlive, hS.sent,
        ?_, ?_⟩
      · simp [State.conclude, hpending, ho, hv]
      · simp [State.conclude, hzero]

theorem sound_takes {a : Act T V} (hS : Sound x s) (ht : Takes x s a s') : Sound x s' := by
  cases ht with
  | @finish o hw =>
      have hended := hS.waiting hw
      have hnone := hS.undelivered hended
      refine ⟨hS.engine, hS.handles, hS.closing, hS.finalizing, fun h => absurd h stage_ne_waiting,
        fun hphase => ?_, ?_, ?_, hS.concluded⟩
      · obtain ⟨b, hprogress, hbox⟩ := hS.live hphase
        rw [hw] at hprogress
        exact ⟨b, hprogress.finish o, hbox⟩
      · rcases hS.sent with hsent | ⟨-, o', r, ho', -⟩
        · exact Or.inl hsent
        · simp [hended] at ho'
      · simpa [hnone] using hS.promise
  | @report p hw hp =>
      refine ⟨hS.engine, hS.handles, hS.closing, hS.finalizing, hS.waiting, fun hphase => ?_, hS.sent,
        hS.promise, hS.concluded⟩
      obtain ⟨b, hprogress, hbox⟩ := hS.live hphase
      rw [hp, hw] at hprogress
      refine ⟨b, ?_, hbox⟩
      show Progress x s.inner _ _ _ _
      rw [hp]
      exact hprogress.await
  | idle hw hd =>
      refine ⟨hS.engine, hS.handles, hS.closing, hS.finalizing, hS.waiting, fun hphase => ?_, hS.sent,
        hS.promise, hS.concluded⟩
      obtain ⟨b, hprogress, hbox⟩ := hS.live hphase
      rw [hd, hw] at hprogress
      refine ⟨b, ?_, hbox⟩
      show Progress x s.inner _ _ _ _
      rw [hd]
      exact hprogress.idle
  | @call t r hstage =>
      exact hS.napi (by simp) (assert_ne_waiting (by simp)) rfl fun hphase =>
        Live.call hS hphase hstage
  | @release t hstage =>
      have hs' : s.release x t = { s with
          boxes := s.boxes ++ []
          engine := s.engine.napi .release }.setStage t
            (x.assert (s.engine.status .release)
              "Release threadsafe function in JsDeferred failed" .done) := by
        rw [List.append_nil]
        rfl
      exact hS.napi (by simp) (assert_ne_waiting (by simp)) hs' fun hphase =>
        Live.release hS hphase hstage
  | @cancel t hphase hw =>
      refine ⟨by simpa using hS.engine, by simpa using hS.handles, by simpa using hS.closing,
        by simpa using hS.finalizing, fun h => ?_, fun h => absurd (by simpa using h) hphase,
        by simpa using hS.sent, by simpa using hS.promise, by simpa using hS.concluded⟩
      rw [setStage_ended]
      cases t with
      | inner => cases h
      | handler => exact hS.waiting h
  | deliver hphase hqueue => exact hS.deliver hphase hqueue
  | close ha hphase =>
      have hengine := Tsfn.inv_takes hS.engine (.close (Or.inl rfl) hphase)
      exact ⟨hengine, hS.handles, by simp, by simp, hS.waiting, fun h => (by cases h), hS.sent,
        hS.promise, hS.concluded⟩
  | delete hphase =>
      have hengine := Tsfn.inv_takes hS.engine (.delete hphase hS.handles)
      exact ⟨hengine, hS.handles, by simp [Tsfn.State.delete, hS.closing, hphase],
        by simp [Tsfn.State.delete], hS.waiting, fun h => (by cases h), hS.sent, hS.promise,
        hS.concluded⟩

theorem sound_next {a : Act T V} (hS : Sound x s) (hn : (called x).next s a = some s') :
    Sound x s' :=
  sound_takes hS (takes_of_next hS.handles hn)

theorem sound_reachable (h : (called x).Reachable s) : Sound x s := by
  induction h with
  | start hs =>
      obtain rfl := hs
      exact sound_init
  | step _ _ hn ih => exact sound_next ih hn

/-! ### The promise -/

/-- **What the promise is.** It is pending until the callback has got the answer, and then it is
what the future has come to demands; the engine settles it once at most. The callback gets one
answer at most, and until the threadsafe function is closed, all that was made for it is in the
queue or was taken from there, and only the future itself has panicked. -/
theorem kept (h : (called x).Reachable s) :
    s.promise = .ofOutcome (if s.engine.delivered = [] then none else s.ended.bind x.verdict) ∧
      s.concluded ≤ 1 ∧ s.engine.sent.length ≤ 1 ∧
      (s.engine.phase = .running → s.boxes.length = s.engine.sent.length ∧
        ∀ t p, s.stage t = .panicked p → s.ended = some (.panic p)) := by
  have hS := sound_reachable h
  refine ⟨hS.promise, ?_, ?_, fun hphase => ?_⟩
  · have hconcluded := hS.concluded
    split at hconcluded <;> omega
  · rcases hS.sent with hsent | ⟨hsent, -⟩ <;> simp [hsent]
  · obtain ⟨b, hprogress, hboxes, hsent⟩ := hS.live hphase
    refine ⟨by cases b <;> simp [hboxes, hsent], fun t p hp => ?_⟩
    cases t with
    | inner => exact hprogress.panicked (Or.inl hp)
    | handler => exact hprogress.panicked (Or.inr hp)

/-- A build for wasm, with a function whose result is what it resolves to. -/
def echo : Export Nat Nat where
  wasm := true
  debug := false
  resolver := fun v => ⟨.ok v, none⟩
  isError := fun _ => false
  createError := fun _ _ => 0

/-- The answer gets to the callback before the release. -/
theorem kept_resolved :
    ∃ s, (called echo).replay (.init echo) [.finish (.ok 7), .run .inner, .dispatch, .run .inner] =
      some s ∧ s.promise = .fulfilled 7 := by
  have hrun : ∃ s : State Nat Nat, (called echo).replay (.init echo)
      [.finish (.ok 7), .run .inner, .dispatch, .run .inner] = some s ∧
        s.engine.delivered = [0] ∧ s.ended = some (.ok 7) := ⟨_, rfl, rfl, rfl⟩
  obtain ⟨s, hs, hdelivered, hended⟩ := hrun
  refine ⟨s, hs, ?_⟩
  rw [(kept (Machine.Reachable.replay _ (.start rfl) hs)).1, hdelivered, hended]
  rfl

/-! ### When it can still settle -/

@[simp] theorem resolveDeferred_ended (s : State T V) (i : Nat) :
    (s.resolveDeferred x i).ended = s.ended := by
  unfold State.resolveDeferred
  split
  · rfl
  · dsimp only
    split <;> rfl

@[simp] theorem resolveDeferred_engine (s : State T V) (i : Nat) :
    (s.resolveDeferred x i).engine = s.engine := by
  unfold State.resolveDeferred
  split
  · rfl
  · dsimp only
    split <;> rfl

/-- The promise stays pending. -/
def Stuck (x : Export T V) (s : State T V) : Prop :=
  s.promise = .pending ∧
    (s.engine.phase ≠ .running ∨ ∃ o, s.ended = some o ∧ x.verdict o = none)

theorem stuck_takes {a : Act T V} (hS : Sound x s) (hstuck : Stuck x s) (ht : Takes x s a s') :
    Stuck x s' := by
  have hS' := sound_takes hS ht
  obtain ⟨hpending, hwhy⟩ := hstuck
  cases ht with
  | finish hw =>
      have hended := hS.waiting hw
      refine ⟨hpending, Or.inl (hwhy.elim id fun ho => ?_)⟩
      obtain ⟨o, ho, -⟩ := ho
      simp [hended] at ho
  | report | idle => exact ⟨hpending, hwhy⟩
  | call | release =>
      exact ⟨by simpa [State.call, State.release] using hpending,
        by simpa [State.call, State.release] using hwhy⟩
  | cancel => exact ⟨by simpa using hpending, by simpa using hwhy⟩
  | deliver hphase hqueue =>
      obtain ⟨o, ho, hv⟩ := hwhy.resolve_left (not_not.mpr hphase)
      refine ⟨?_, Or.inr ⟨o, by simpa using ho, hv⟩⟩
      rw [hS'.promise]
      split <;> simp [ho, hv, Lib.Promise.ofOutcome]
  | close => exact ⟨hpending, Or.inl (by simp)⟩
  | delete => exact ⟨hpending, Or.inl (by simp [Tsfn.State.delete])⟩

/-- Some run goes on to the end of the promise. -/
abbrev Settles (x : Export T V) : State T V → Prop :=
  (called x).CanReach fun t => t.promise ≠ .pending

/-- The outcome, if there is one, demands something. -/
def Demands (x : Export T V) (s : State T V) : Prop := ∀ o, s.ended = some o → x.verdict o ≠ none

theorem settled_of_delivered (hS : Sound x s) (hv : Demands x s)
    (hdelivered : s.engine.delivered ≠ []) : s.promise ≠ .pending := by
  rw [hS.promise, if_neg hdelivered]
  cases ho : s.ended with
  | none => exact absurd (hS.undelivered ho) hdelivered
  | some o =>
      cases hy : x.verdict o with
      | none => exact absurd hy (hv o ho)
      | some y => cases y <;> simp [hy, Lib.Promise.ofOutcome]

/-- The answer is in the queue, or was there. -/
theorem settles_of_sent (hS : Sound x s) (hphase : s.engine.phase = .running) (hv : Demands x s)
    (hsent : s.engine.sent ≠ []) : Settles x s := by
  by_cases hdelivered : s.engine.delivered = []
  · have hitems := hS.engine.items
    rw [hdelivered, hS.engine.lost (by simp [hphase])] at hitems
    cases hqueue : s.engine.queue with
    | nil => simp [hitems, hqueue] at hsent
    | cons i queue =>
        have hn : (called x).next s .dispatch = some (State.resolveDeferred x
            { s with engine := { s.engine with queue, delivered := s.engine.delivered ++ [i] } }
            i) := by
          simp [called, Deferred.next, Tsfn.next, Tsfn.State.dispatch, hphase, hS.open hphase, hqueue]
        have hS' := sound_next hS hn
        refine .step hn (.now (settled_of_delivered hS' ?_ ?_))
        · intro o ho
          exact hv o (by simpa using ho)
        · simp
  · exact .now (settled_of_delivered hS hv hdelivered)

theorem settles_of_calling (hS : Sound x s) (hphase : s.engine.phase = .running)
    (hv : Demands x s) (hstage : s.stage t = .calling r) : Settles x s := by
  have hn : (called x).next s (.run t) = some (s.call x t r) := by simp [called, Deferred.next, hstage]
  have hsent : (s.call x t r).engine.sent ≠ [] := by
    simp [State.call, (hS.napi_call hphase _).2.1]
  refine .step hn (settles_of_sent (sound_next hS hn) ?_ ?_ hsent)
  · simpa [State.call] using hphase
  · intro o ho
    exact hv o (by simpa [State.call] using ho)

/-- The future has ended. -/
theorem settles_of_ended (hS : Sound x s) (hphase : s.engine.phase = .running) (hv : Demands x s)
    (hended : s.ended = some o) (hinner : s.inner = o.stage) (hhandler : s.handler = x.start) :
    Settles x s := by
  cases o with
  | ok v => exact settles_of_calling (t := .inner) hS hphase hv hinner
  | err e => exact settles_of_calling (t := .inner) hS hphase hv hinner
  | panic p =>
      have hwasm : x.wasm = false := by
        have hverdict := hv _ hended
        cases hwasm : x.wasm with
        | false => rfl
        | true => simp [Export.verdict, hwasm] at hverdict
      have hinner : s.inner = .panicked p := hinner
      rw [start_eq_waiting.mpr hwasm] at hhandler
      have hn : (called x).next s .await =
          some { s with handler := .calling (.error (ofPanic p)) } := by
        simp [called, Deferred.next, hhandler, hinner]
      exact .step hn (settles_of_calling (t := .handler) (sound_next hS hn) hphase hv rfl)

/-- **When the promise can still settle**: while the environment runs, unless the future has ended
in a way that demands nothing, that is with a panic on wasm, or with a resolver that leaves an
exception pending. -/
theorem settleable_iff (h : (called x).Reachable s) :
    (called x).CanReach (fun t => t.promise ≠ .pending) s ↔
      s.promise ≠ .pending ∨
        s.engine.phase = .running ∧ ∀ o, s.ended = some o → x.verdict o ≠ none := by
  have hS := sound_reachable h
  constructor
  · intro hreach
    by_contra hnot
    rw [not_or, not_not, not_and_or, not_forall] at hnot
    have hstuck : Stuck x s := by
      refine ⟨hnot.1, hnot.2.imp id fun ho => ?_⟩
      obtain ⟨o, ho⟩ := ho
      exact ⟨o, by simpa using ho⟩
    refine Machine.not_canReach (M := called x) (I := fun s => Sound x s ∧ Stuck x s)
      (fun hI hn => ?_) (fun hI hsettled => hsettled hI.2.1) ⟨hS, hstuck⟩ hreach
    exact ⟨sound_next hI.1 hn, stuck_takes hI.1 hI.2 (takes_of_next hI.1.handles hn)⟩
  · rintro (hsettled | ⟨hphase, hv⟩)
    · exact .now hsettled
    · obtain ⟨b, hprogress, hboxes, hsent⟩ := hS.live hphase
      have hqueued : b ≠ none → Settles x s := fun hb =>
        settles_of_sent hS hphase hv (by cases b <;> simp_all)
      generalize hinner : s.inner = inner, hhandler : s.handler = handler, hended : s.ended = ended,
        s.engine.threads = n at hprogress
      cases hprogress with
      | waiting =>
          let o : Outcome T V := .err ⟨"", "", none⟩
          have hn : (called x).next s (.finish o) = some { s with inner := o.stage, ended := some o } := by
            simp [called, next, hinner]
          refine .step hn (settles_of_ended (sound_next hS hn) hphase ?_ rfl rfl hhandler)
          intro o' ho'
          obtain rfl : o = o' := Option.some.inj ho'
          simp [o, Export.verdict]
      | ended o => exact settles_of_ended hS hphase hv hended hinner hhandler
      | reporting => exact settles_of_calling (t := .handler) hS hphase hv hhandler
      | sent | released | reported | told => exact hqueued (by simp)

/-- A panic on wasm. -/
theorem settleable_iff_panic :
    ∃ s, (called echo).replay (.init echo) [.finish (.panic .other)] = some s ∧
      ¬(called echo).CanReach (fun t => t.promise ≠ .pending) s := by
  have hrun : ∃ s : State Nat Nat, (called echo).replay (.init echo) [.finish (.panic .other)] =
      some s ∧ s.promise = .pending ∧ s.ended = some (.panic .other) := ⟨_, rfl, rfl, rfl⟩
  obtain ⟨s, hs, hpending, hended⟩ := hrun
  refine ⟨s, hs, fun hreach => ?_⟩
  rcases (settleable_iff (Machine.Reachable.replay _ (.start rfl) hs)).mp hreach with
    hsettled | ⟨-, hdemands⟩
  · exact hsettled hpending
  · exact hdemands _ hended rfl

end TurbopackWasi.Napi.Deferred
