import TurbopackWasi.Napi.Tsfn

/-!
# TurbopackWasi.Napi.Deletion

**What the handles of a threadsafe function do after its end.** `thread_finalize_cb` marks
the function as aborted before the engine deletes it, but only if there is a handle left
whose count it can share. `timely_iff` says which runs are safe: those in which no
environment ends while the last handle is on its way to the release.
-/

namespace TurbopackWasi.Napi.Tsfn

open Lib

variable {ι : Type} {s s' : State ι} {op : Op ι}

/-! ### The answers of the engine -/

/-- The engine is called, and answers. -/
inductive Answers (s : State ι) : Op ι → State ι → Prop
  | sent {i : ι} : s.phase ≠ .deleted → s.closing = false → Answers s (.call i)
      { s with
        calls := ⟨.call i, some .ok⟩ :: s.calls
        queue := s.queue ++ [i]
        sent := s.sent ++ [i] }
  | closing {i : ι} : s.phase ≠ .deleted → s.threads ≠ 0 → Answers s (.call i)
      { s with
        calls := ⟨.call i, some .closing⟩ :: s.calls
        threads := s.threads - 1 }
  | released : s.phase ≠ .deleted → s.threads ≠ 0 → Answers s .release
      { s with
        calls := ⟨.release, some .ok⟩ :: s.calls
        threads := s.threads - 1 }
  | aborted : s.phase ≠ .deleted → s.threads ≠ 0 → Answers s .abort
      { s with
        calls := ⟨.abort, some .ok⟩ :: s.calls
        threads := s.threads - 1
        closing := true }
  | unused {op : Op ι} : s.phase ≠ .deleted → s.threads = 0 → Answers s op
      { s with calls := ⟨op, some .invalidArg⟩ :: s.calls }
  | deleted {op : Op ι} : s.phase = .deleted → Answers s op
      { s with calls := ⟨op, none⟩ :: s.calls }

theorem answers_napi (s : State ι) (op : Op ι) : Answers s op (s.napi op) := by
  by_cases hdeleted : s.phase = .deleted
  · have hnapi : s.napi op = { s with calls := ⟨op, none⟩ :: s.calls } := by
      cases op <;> simp [State.napi, State.status, hdeleted]
    rw [hnapi]
    exact .deleted hdeleted
  · cases op with
    | call i =>
        cases hclosing : s.closing with
        | false => simpa [State.napi, State.status, hdeleted, hclosing] using
            Answers.sent hdeleted hclosing
        | true =>
            by_cases hzero : s.threads = 0
            · simpa [State.napi, State.status, hdeleted, hclosing, hzero] using
                Answers.unused hdeleted hzero
            · simpa [State.napi, State.status, hdeleted, hclosing, hzero] using
                Answers.closing hdeleted hzero
    | release =>
        by_cases hzero : s.threads = 0
        · simpa [State.napi, State.status, hdeleted, hzero] using Answers.unused hdeleted hzero
        · simpa [State.napi, State.status, hdeleted, hzero] using Answers.released hdeleted hzero
    | abort =>
        by_cases hzero : s.threads = 0
        · simpa [State.napi, State.status, hdeleted, hzero] using Answers.unused hdeleted hzero
        · simpa [State.napi, State.status, hdeleted, hzero] using Answers.aborted hdeleted hzero

/-! ### What the lock and the count guarantee -/

structure Inv (s : State ι) : Prop where
  /-- The call of a reader comes through a handle, and before the flag is set. -/
  readers : s.readers ≠ [] → 0 < s.handles ∧ s.aborted = false ∧ s.phase ≠ .deleted
  dropping : s.dropping ≠ none → s.handles = 0 ∧ s.phase ≠ .finalizing
  unaborted : s.dropping = some .unaborted → s.aborted = false
  /-- Whoever still has a handle after the end sees the flag. -/
  deleted : s.phase = .deleted → 0 < s.handles → s.aborted = true
  items : s.sent = s.delivered ++ s.lost ++ s.queue
  lost : s.phase ≠ .deleted → s.lost = []

theorem inv_init : Inv (State.init : State ι) where
  readers := by simp [State.init]
  dropping := by simp [State.init]
  unaborted := by simp [State.init]
  deleted := by simp [State.init]
  items := rfl
  lost := fun _ => rfl

/-- The engine is called before the end, or does nothing. -/
theorem Inv.napi (hI : Inv s) (op : Op ι) : Inv (s.napi op) where
  readers := by simpa using hI.readers
  dropping := by simpa using hI.dropping
  unaborted := by simpa using hI.unaborted
  deleted := by simpa using hI.deleted
  items := by
    have ha := answers_napi s op
    generalize s.napi op = t at ha
    cases ha with
    | sent => simp [hI.items]
    | closing | released | aborted | unused | deleted => exact hI.items
  lost := by
    have ha := answers_napi s op
    generalize s.napi op = t at ha
    cases ha <;> exact hI.lost

theorem Inv.dropHandle (hI : Inv s) (hpos : 0 < s.handles)
    (hlast : s.handles = 1 → s.readers = []) : Inv s.dropHandle := by
  have hnone : s.dropping = none := by
    by_contra hd
    exact absurd (hI.dropping hd).1 (Nat.ne_of_gt hpos)
  refine ⟨fun hr => ?_, fun hd => ?_, fun hd => ?_, fun hphase hleft => ?_, hI.items, hI.lost⟩
  · have hmany : s.handles ≠ 1 := fun hone => hr (hlast hone)
    have hold := hI.readers hr
    exact ⟨show 0 < s.handles - 1 by omega, hold.2⟩
  · simp only [State.dropHandle, hnone] at hd ⊢
    split at hd
    · rename_i hone
      exact ⟨by omega, hone.2⟩
    · exact absurd rfl hd
  · simp only [State.dropHandle, hnone] at hd
    split at hd <;> cases hd
  · exact hI.deleted hphase hpos

/-! ### Calls after the end -/

/-- The engine was called about a function that it had deleted. -/
def Faulted (s : State ι) : Prop := ∃ c ∈ s.calls, c.status = none

/-- The last handle will be released although the function is deleted. -/
def Dangling (s : State ι) : Prop :=
  s.phase = .deleted ∧ s.dropping ≠ none ∧ s.aborted = false

theorem faulted_napi (op : Op ι) : Faulted (s.napi op) ↔ s.phase = .deleted ∨ Faulted s := by
  simp [Faulted, status_eq_none]

theorem dangling_napi (op : Op ι) : Dangling (s.napi op) ↔ Dangling s := by
  simp [Dangling]

theorem not_dangling (h : s.phase = .deleted → s.aborted = true) : ¬Dangling s := by
  rintro ⟨hphase, -, hflag⟩
  rw [h hphase] at hflag
  cases hflag

/-- Where the flag is set by the time of the end, `abort` calls the engine before it. -/
theorem faulted_abort (h : s.phase = .deleted → s.aborted = true) :
    Faulted s.abort ↔ Faulted s := by
  unfold State.abort
  split
  · exact Iff.rfl
  · rename_i hflag
    have hphase : s.phase ≠ .deleted := fun hphase => hflag (h hphase)
    show Faulted (s.napi .abort) ↔ Faulted s
    simp [faulted_napi, hphase]

theorem aborted_abort (h : s.phase = .deleted → s.aborted = true)
    (hphase : s.abort.phase = .deleted) : s.abort.aborted = true := by
  by_cases hflag : s.aborted = true
  · simp [State.abort, hflag, State.dropHandle]
  · have hdeleted : s.phase = .deleted := by
      simpa [State.abort, hflag, State.dropHandle] using hphase
    exact absurd (h hdeleted) hflag

/-! ### What one step does -/

inductive Takes [DecidableEq ι] (s : State ι) : Act ι → State ι → Prop
  | clone : 0 < s.handles → Takes s .clone s.clone
  | begin {i : ι} : 0 < s.handles → Takes s (.begin i) (s.begin i)
  | call {i : ι} : i ∈ s.readers →
      Takes s (.call i) ({ s with readers := s.readers.erase i }.napi (.call i))
  | drop : 0 < s.handles → (s.handles = 1 → s.readers = []) → Takes s .drop s.dropHandle
  | abort : 0 < s.handles → s.readers = [] → Takes s .abort s.abort
  | enter : s.dropping = some .entered →
      Takes s .proceed { s with dropping := if s.aborted then none else some .unaborted }
  | release {panics : List Panic} : s.dropping = some .unaborted →
      panics = (if s.status .release = some .invalidArg then .release :: s.panics else s.panics) →
      Takes s .proceed { s.napi .release with dropping := none, panics }
  | deliver {i : ι} {queue : List ι} : s.phase = .running → s.closing = false →
      s.queue = i :: queue →
      Takes s .dispatch { s with queue, delivered := s.delivered ++ [i] }
  | close {a : Act ι} : a = .dispatch ∨ a = .cleanup → s.phase = .running →
      Takes s a { s with phase := .shut, closing := true }
  | upgrade : s.phase = .shut → 0 < s.handles → Takes s .finalize { s with phase := .finalizing }
  | delete : s.phase = .shut → s.handles = 0 → Takes s .finalize s.delete
  | lock : s.phase = .finalizing → s.readers = [] →
      Takes s .lock { s with aborted := true }.delete

variable [DecidableEq ι] {a : Act ι}

theorem takes_of_next (h : next s a = some s') : Takes s a s' := by
  cases a with
  | clone =>
      simp only [next, Option.ite_none_right_eq_some, Option.some.injEq] at h
      obtain ⟨hpos, rfl⟩ := h
      exact .clone hpos
  | begin i =>
      simp only [next, Option.ite_none_right_eq_some, Option.some.injEq] at h
      obtain ⟨hpos, rfl⟩ := h
      exact .begin hpos
  | call i =>
      simp only [next, Option.ite_none_right_eq_some, Option.some.injEq] at h
      obtain ⟨hi, rfl⟩ := h
      exact .call hi
  | drop =>
      simp only [next, Option.ite_none_right_eq_some, Option.some.injEq] at h
      obtain ⟨hcan, rfl⟩ := h
      refine .drop ?_ fun hone => ?_
      · omega
      · exact hcan.elim (fun hmany => by omega) And.right
  | abort =>
      simp only [next, Option.ite_none_right_eq_some, Option.some.injEq] at h
      obtain ⟨⟨hpos, hr⟩, rfl⟩ := h
      exact .abort hpos hr
  | proceed =>
      obtain ⟨d, hd, rfl⟩ := Option.map_eq_some_iff.mp h
      cases d with
      | entered => exact .enter hd
      | unaborted => exact .release hd rfl
  | dispatch =>
      simp only [next, State.dispatch] at h
      split at h
      · cases h
      · rename_i hphase
        have hrunning : s.phase = .running := not_not.mp hphase
        split at h
        · rename_i hclosing
          obtain rfl := Option.some.inj h
          have hclose := Takes.close (Or.inl rfl : Act.dispatch = .dispatch ∨ _) hrunning
          rwa [← hclosing] at hclose
        · rename_i hclosing
          split at h
          · rename_i i queue hq
            obtain rfl := Option.some.inj h
            exact .deliver hrunning (Bool.eq_false_iff.mpr hclosing) hq
          · simp only [Option.ite_none_right_eq_some, Option.some.injEq] at h
            obtain ⟨-, rfl⟩ := h
            exact .close (Or.inl rfl) hrunning
  | cleanup =>
      simp only [next, Option.ite_none_right_eq_some, Option.some.injEq] at h
      obtain ⟨hrunning, rfl⟩ := h
      exact .close (Or.inr rfl) hrunning
  | finalize =>
      simp only [next, Option.ite_none_right_eq_some, Option.some.injEq] at h
      obtain ⟨hshut, rfl⟩ := h
      split
      · rename_i hpos
        exact .upgrade hshut hpos
      · rename_i hpos
        exact .delete hshut (Nat.eq_zero_of_not_pos hpos)
  | lock =>
      simp only [next, Option.ite_none_right_eq_some, Option.some.injEq] at h
      obtain ⟨⟨hphase, hr⟩, rfl⟩ := h
      exact .lock hphase hr

theorem inv_takes (hI : Inv s) (ht : Takes s a s') : Inv s' := by
  cases ht with
  | clone hpos =>
      unfold State.clone
      split
      · exact ⟨hI.readers, hI.dropping, hI.unaborted, hI.deleted, hI.items, hI.lost⟩
      · refine ⟨fun hr => ⟨Nat.succ_pos _, (hI.readers hr).2⟩, fun hd => ?_, hI.unaborted,
          fun hphase _ => hI.deleted hphase hpos, hI.items, hI.lost⟩
        exact absurd (hI.dropping hd).1 (Nat.ne_of_gt hpos)
  | begin hpos =>
      unfold State.begin
      split
      · exact ⟨hI.readers, hI.dropping, hI.unaborted, hI.deleted, hI.items, hI.lost⟩
      · rename_i hunaborted
        have hflag : s.aborted = false := Bool.eq_false_iff.mpr hunaborted
        refine ⟨fun _ => ⟨hpos, hflag, fun hphase => ?_⟩, hI.dropping, hI.unaborted, hI.deleted,
          hI.items, hI.lost⟩
        exact hunaborted (hI.deleted hphase hpos)
  | @call i hi =>
      have hreader := hI.readers (List.ne_nil_of_mem hi)
      have hI' : Inv { s with readers := s.readers.erase i } :=
        ⟨fun _ => hreader, hI.dropping, hI.unaborted, hI.deleted, hI.items, hI.lost⟩
      exact hI'.napi _
  | drop hpos hlast => exact hI.dropHandle hpos hlast
  | abort hpos hr =>
      unfold State.abort
      split
      · exact hI.dropHandle hpos fun _ => hr
      · refine Inv.dropHandle ?_ (by simpa using hpos) (fun _ => by simpa using hr)
        have hI' := hI.napi .abort
        have hnone : s.dropping = none := by
          by_contra hd
          exact absurd (hI.dropping hd).1 (Nat.ne_of_gt hpos)
        refine ⟨by simp [hr], by simp [hnone], by simp [hnone], fun hphase _ => ?_, hI'.items,
          hI'.lost⟩
        have hflag := hI.deleted (by simpa using hphase) hpos
        contradiction
  | enter hd =>
      have hzero := hI.dropping (by simp [hd])
      refine ⟨hI.readers, fun _ => hzero, fun hun => ?_, hI.deleted, hI.items, hI.lost⟩
      cases hflag : s.aborted with
      | false => rfl
      | true => simp [hflag] at hun
  | release hd _ =>
      have hI' := hI.napi .release
      refine ⟨hI'.readers, fun h => absurd rfl h, fun h => ?_, hI'.deleted, hI'.items, hI'.lost⟩
      cases h
  | deliver hphase hclosing hq =>
      have hlost := hI.lost (by simp [hphase])
      refine ⟨hI.readers, hI.dropping, hI.unaborted, hI.deleted, ?_, hI.lost⟩
      have hitems := hI.items
      rw [hlost, hq] at hitems
      simp [hitems, hlost]
  | close _ hphase =>
      have hne : s.phase ≠ .deleted := by simp [hphase]
      refine ⟨fun hr => ⟨(hI.readers hr).1, (hI.readers hr).2.1, by simp⟩,
        fun hd => ⟨(hI.dropping hd).1, by simp⟩, hI.unaborted, (by simp), hI.items,
        fun _ => hI.lost hne⟩
  | upgrade hphase hpos =>
      have hne : s.phase ≠ .deleted := by simp [hphase]
      refine ⟨fun hr => ⟨(hI.readers hr).1, (hI.readers hr).2.1, by simp⟩, fun hd => ?_,
        hI.unaborted, (by simp), hI.items, fun _ => hI.lost hne⟩
      exact absurd (hI.dropping hd).1 (Nat.ne_of_gt hpos)
  | delete hphase hzero =>
      have hr : s.readers = [] := by
        by_contra hr
        exact absurd hzero (Nat.ne_of_gt (hI.readers hr).1)
      refine ⟨fun h => absurd hr h, fun hd => ⟨hzero, by simp [State.delete]⟩, hI.unaborted,
        fun _ hpos => absurd hzero (Nat.ne_of_gt hpos), ?_, fun h => absurd rfl h⟩
      simp [State.delete, hI.items]
  | lock hphase hr =>
      have hnone : s.dropping = none := by
        by_contra hd
        exact (hI.dropping hd).2 hphase
      refine ⟨fun h => absurd hr h, fun h => absurd hnone h, fun h => ?_, fun _ _ => rfl, ?_,
        fun h => absurd rfl h⟩
      · have hun : s.dropping = some .unaborted := h
        rw [hnone] at hun
        cases hun
      · simp [State.delete, hI.items]

/-! ### After the end -/

/-- The function is not deleted while the last handle is on its way to the release. -/
def Timely (s : State ι) : Act ι → Prop
  | .finalize => s.handles = 0 → s.dropping = none ∨ s.aborted = true
  | _ => True

theorem bad_takes (hI : Inv s) (ht : Takes s a s') :
    Faulted s' ∨ Dangling s' ↔ (Faulted s ∨ Dangling s) ∨ ¬Timely s a := by
  cases ht with
  | clone hpos =>
      unfold State.clone
      split <;> simp [Faulted, Dangling, Timely]
  | begin hpos =>
      unfold State.begin
      split <;> simp [Faulted, Dangling, Timely]
  | @call i hi =>
      have hphase := (hI.readers (List.ne_nil_of_mem hi)).2.2
      have hsame : Faulted { s with readers := s.readers.erase i } ↔ Faulted s := Iff.rfl
      have hsame' : Dangling { s with readers := s.readers.erase i } ↔ Dangling s := Iff.rfl
      rw [faulted_napi, dangling_napi, hsame, hsame']
      simp [hphase, Timely]
  | drop hpos hlast =>
      have hflag := fun hphase => hI.deleted hphase hpos
      have hfaulted : Faulted s.dropHandle ↔ Faulted s := Iff.rfl
      simp [hfaulted, not_dangling hflag, not_dangling (s := s.dropHandle) hflag, Timely]
  | abort hpos hr =>
      have hflag := fun hphase => hI.deleted hphase hpos
      simp [faulted_abort hflag, not_dangling hflag, not_dangling (aborted_abort hflag), Timely]
  | enter hd =>
      cases hflag : s.aborted with
      | false => simp [Faulted, Dangling, Timely, hd, hflag]
      | true => simp [Faulted, Dangling, Timely, hflag]
  | release hd _ =>
      have hflag := hI.unaborted hd
      have hdangling : Dangling s ↔ s.phase = .deleted := by simp [Dangling, hd, hflag]
      have hnot : ∀ t : State ι, t.dropping = none → ¬Dangling t := fun _ ht h => h.2.1 ht
      show Faulted (s.napi .release) ∨ _ ↔ _
      simp [faulted_napi, hdangling, hnot, Timely, or_comm]
  | deliver hphase hclosing hq => simp [Faulted, Dangling, Timely]
  | close ha hphase =>
      rcases ha with rfl | rfl <;> simp [Faulted, Dangling, Timely, hphase]
  | upgrade hphase hpos => simp [Faulted, Dangling, Timely, hphase, Nat.ne_of_gt hpos]
  | delete hphase hzero =>
      simp [Faulted, Dangling, Timely, State.delete, hphase, hzero]
  | lock hphase hr => simp [Faulted, Dangling, Timely, State.delete, hphase]

theorem faults_release (hphase : s.phase = .deleted) (hd : s.dropping = some .unaborted) :
    ∃ t, next s .proceed = some t ∧ Faulted t := by
  refine ⟨_, by rw [next, State.proceed, hd, Option.map_some], ?_⟩
  show Faulted (s.napi .release)
  exact faulted_napi _ |>.mpr (Or.inl hphase)

/-- A dangling handle gets to the release. -/
theorem Dangling.faults (hd : Dangling s) : ∃ bs t, (tsfn ι).replay s bs = some t ∧
    (tsfn ι).EachStep Timely s bs ∧ Faulted t := by
  obtain ⟨hphase, hdropping, hflag⟩ := hd
  cases hstage : s.dropping with
  | none => exact absurd hstage hdropping
  | some d =>
      cases d with
      | entered =>
          let m : State ι := { s with dropping := some .unaborted }
          have hm : next s .proceed = some m := by simp [next, State.proceed, hstage, hflag, m]
          obtain ⟨t, ht, hfaulted⟩ := faults_release (s := m) hphase rfl
          refine ⟨[.proceed, .proceed], t, ?_, ⟨trivial, fun _ _ => ⟨trivial, fun _ _ => trivial⟩⟩,
            hfaulted⟩
          exact Machine.replay_cons _ |>.mpr ⟨m, hm, Machine.replay_cons _ |>.mpr ⟨t, ht, rfl⟩⟩
      | unaborted =>
          obtain ⟨t, ht, hfaulted⟩ := faults_release hphase hstage
          refine ⟨[.proceed], t, ?_, ⟨trivial, fun _ _ => trivial⟩, hfaulted⟩
          exact Machine.replay_cons _ |>.mpr ⟨t, ht, rfl⟩

/-- **Use after the end.** However a run goes on: no call of the engine is about a function
that it has deleted, exactly if `thread_finalize_cb` never came after the last handle was
dropped and before its release. -/
theorem timely_iff {as : List (Act ι)} (h : (tsfn ι).replay .init as = some s) :
    (tsfn ι).EachStep Timely .init as ↔
      ∀ bs t, (tsfn ι).replay s bs = some t → (tsfn ι).EachStep Timely s bs → ¬Faulted t := by
  refine Machine.eachStep_iff_continues (M := tsfn ι) (I := Inv)
    (B := fun s => Faulted s ∨ Dangling s) (fun hI hn => inv_takes hI (takes_of_next hn))
    (fun hI hn => bad_takes hI (takes_of_next hn)) (fun _ => Or.inl) ?_ inv_init ?_ h
  · intro s _ hbad
    rcases hbad with hfaulted | hdangling
    · exact ⟨[], s, rfl, trivial, hfaulted⟩
    · exact hdangling.faults
  · simp [Faulted, Dangling, State.init]

/-- The environment ends between the drop of the only handle and its release. -/
theorem timely_iff_dropped :
    ∃ s, (tsfn Nat).replay .init [.drop, .cleanup, .finalize] = some s ∧
      ∃ bs t, (tsfn Nat).replay s bs = some t ∧ (tsfn Nat).EachStep Timely s bs ∧ Faulted t := by
  have hrun : ∃ s, (tsfn Nat).replay .init [.drop, .cleanup, .finalize] = some s := ⟨_, rfl⟩
  obtain ⟨s, hs⟩ := hrun
  refine ⟨s, hs, by_contra fun hsafe => ?_⟩
  have htimely := (timely_iff hs).mpr fun bs t hbs hrest hfaulted =>
    hsafe ⟨bs, t, hbs, hrest, hfaulted⟩
  have hlate := ((htimely.2 _ rfl).2 _ rfl).1 rfl
  simp [State.dropHandle, State.init] at hlate

end TurbopackWasi.Napi.Tsfn
