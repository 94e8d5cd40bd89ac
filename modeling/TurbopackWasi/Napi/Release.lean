import TurbopackWasi.Napi.Buffer

/-!
# TurbopackWasi.Napi.Release

**Who releases a reference, how often and where.** A handle that is in use, a drop that
read a count of one and the queue of the custom GC each rely on the count that the reference
has; `debt` is what the handles rely on. No two of them ever rely on the same reference, so
no call meets a reference that was deleted (`sound`).
-/

namespace TurbopackWasi.Napi

open Lib

variable {b : Build} {home : Env → Thread} {s s' : State} {r : Ref} {t : Thread} {e : Env}

/-! ### What one step does -/

inductive Takes (b : Build) (home : Env → Thread) (s : State) : Act → State → Prop
  | register {e : Env} : Takes b home s (.register (home e) e) (s.register b (home e) e)
  | fromNapiValue {e : Env} (isBuffer : Bool) :
      Takes b home s (.fromNapiValue (home e) e isBuffer) (s.fromNapiValue e isBuffer)
  | giveLast {e : Env} {r : Ref} {h : Handles Drop} :
      (s.handles r).drop ⟨home e, .done⟩ = some h → (s.handles r).strong = 1 →
      Takes b home s (.toNapiValue (home e) e r)
        (((s.call (home e) (some e) r .value).delete (home e) (some e) r).setHandles r h)
  | give {e : Env} {r : Ref} : 0 < (s.handles r).idle →
      Takes b home s (.toNapiValue (home e) e r) (s.call (home e) (some e) r .value)
  | clone {r : Ref} {h : Handles Drop} : (s.handles r).clone = some h →
      Takes b home s (.clone r) (s.setHandles r h)
  | drop {t : Thread} {r : Ref} {h : Handles Drop} :
      (s.handles r).drop ⟨t, .counted⟩ = some h → Takes b home s (.drop t r) (s.setHandles r h)
  | pass {r : Ref} {h : Handles Drop} : (s.handles r).pass = some h →
      Takes b home s (.pass r) (s.setHandles r h)
  | read {r : Ref} {t : Thread} (old new : Stage) :
      (s.handles r).acting = some ⟨t, old⟩ →
      old = .counted ∧ new = (if b.customGc then if s.destroyed then .done else .undestroyed
          else .direct) ∨
        old = .undestroyed ∧ new = (if (s.access t).isSome then .direct else .remote) →
      Takes b home s (.proceed r) (s.setHandles r ((s.handles r).act (some ⟨t, new⟩)))
  | unref {r : Ref} {t : Thread} : (s.handles r).acting = some ⟨t, .direct⟩ →
      Takes b home s (.proceed r)
        ((s.unref t (some (s.env r)) r).setHandles r ((s.handles r).act (some ⟨t, .unreffed⟩)))
  | delete {r : Ref} {t : Thread} : (s.handles r).acting = some ⟨t, .unreffed⟩ →
      Takes b home s (.proceed r)
        ((s.delete t (some (s.env r)) r).setHandles r ((s.handles r).act (some ⟨t, .done⟩)))
  | send {r : Ref} {t : Thread} : (s.handles r).acting = some ⟨t, .remote⟩ →
      Takes b home s (.proceed r)
        ((s.callTsfn r).setHandles r ((s.handles r).act (some ⟨t, .done⟩)))
  | finish {r : Ref} {t : Thread} : (s.handles r).acting = some ⟨t, .done⟩ →
      Takes b home s (.proceed r) (s.setHandles r ((s.handles r).act none))
  | deliver {e : Env} {r : Ref} {queue : List Ref} : s.tsfn = some e → s.closing = false →
      s.queue = r :: queue →
      Takes b home s .deliver ({ s with queue }.customGc (home e) (some e) r)
  | cleanup {e : Env} {s' : State} : s.cleanup e = some s' → Takes b home s (.cleanup e) s'
  | drain {e : Env} {r : Ref} {queue : List Ref} : s.tsfn = some e → s.closing = true →
      s.queue = r :: queue → Takes b home s .drain ({ s with queue }.customGc (home e) none r)
  | finalize : s.closing = true → s.queue = [] →
      Takes b home s .finalize { s with destroyed := true }

theorem takes_of_next {a : Act} (h : next b home s a = some s') : Takes b home s a s' := by
  cases a with
  | register t e =>
      simp only [next, Option.ite_none_right_eq_some, Option.some.injEq] at h
      obtain ⟨rfl, rfl⟩ := h
      exact .register
  | fromNapiValue t e isBuffer =>
      simp only [next, Option.ite_none_right_eq_some, Option.some.injEq] at h
      obtain ⟨rfl, rfl⟩ := h
      exact .fromNapiValue isBuffer
  | toNapiValue t e r =>
      simp only [next, Option.ite_none_right_eq_some] at h
      obtain ⟨⟨rfl, hi⟩, h⟩ := h
      simp only [State.toNapiValue] at h
      split at h
      · rename_i hone
        obtain ⟨h', hd, rfl⟩ := Option.map_eq_some_iff.mp h
        exact .giveLast hd hone
      · obtain rfl := Option.some.inj h
        exact .give hi
  | clone r =>
      obtain ⟨h', hc, rfl⟩ := Option.map_eq_some_iff.mp h
      exact .clone hc
  | drop t r =>
      obtain ⟨h', hd, rfl⟩ := Option.map_eq_some_iff.mp h
      exact .drop hd
  | pass r =>
      obtain ⟨h', hp, rfl⟩ := Option.map_eq_some_iff.mp h
      exact .pass hp
  | proceed r =>
      obtain ⟨⟨t, stage⟩, ha, rfl⟩ := Option.map_eq_some_iff.mp h
      cases stage with
      | counted => exact .read _ _ ha (Or.inl ⟨rfl, rfl⟩)
      | undestroyed => exact .read _ _ ha (Or.inr ⟨rfl, rfl⟩)
      | direct => exact .unref ha
      | unreffed => exact .delete ha
      | remote => exact .send ha
      | done => exact .finish ha
  | deliver =>
      simp only [next] at h
      split at h
      · rename_i e r queue ht hc hq
        obtain rfl := Option.some.inj h
        exact .deliver ht hc hq
      · cases h
  | cleanup e => exact .cleanup h
  | drain =>
      simp only [next] at h
      split at h
      · rename_i e r queue ht hc hq
        obtain rfl := Option.some.inj h
        exact .drain ht hc hq
      · cases h
  | finalize =>
      simp only [next, Option.ite_none_right_eq_some, Option.some.injEq] at h
      obtain ⟨⟨hc, hq⟩, rfl⟩ := h
      exact .finalize hc hq

/-! ### What the handles rely on -/

/-- The count that a drop relies on. -/
def Stage.expects : Stage → Option Nat
  | .unreffed => some 0
  | .done => none
  | _ => some 1

/-- The count of the reference that the handles rely on, none if they are done with it. -/
def debt (h : Handles Drop) : Option Nat :=
  match h.acting with
  | some d => d.stage.expects
  | none => if 0 < h.idle + h.passing then some 1 else none

@[simp] theorem debt_gone : debt .gone = none := rfl

@[simp] theorem debt_one : debt .one = some 1 := rfl

theorem debt_acting {h : Handles Drop} {d : Drop} (ha : h.acting = some d) :
    debt h = d.stage.expects := by
  rw [debt, ha]

theorem debt_idle {h : Handles Drop} (hi : 0 < h.idle + h.passing) : debt h = some 1 := by
  rw [debt, h.acting_none hi, if_pos hi]

theorem debt_act {h : Handles Drop} {d : Drop} {stage : Stage} (ha : h.acting = some d) :
    debt (h.act (some ⟨t, stage⟩)) = stage.expects :=
  debt_acting (Handles.act_acting _ ha)

theorem debt_act_none {h : Handles Drop} {d : Drop} (ha : h.acting = some d) :
    debt (h.act none) = none := by
  have hsole := h.sole (by rw [ha]; rfl)
  simp [debt, Handles.act_acting none ha, hsole]

theorem debt_clone {h h' : Handles Drop} (hc : h.clone = some h') :
    debt h = some 1 ∧ debt h' = some 1 := by
  obtain ⟨hi, hi', hp, hn⟩ := Handles.clone_spec hc
  exact ⟨debt_idle (by omega), debt_idle (by omega)⟩

theorem debt_drop {h h' : Handles Drop} {d : Drop} (hd : h.drop d = some h') :
    debt h = some 1 ∧ (h.strong = 1 ∧ debt h' = d.stage.expects ∨
      h.strong ≠ 1 ∧ debt h' = some 1) := by
  obtain ⟨hi, ⟨hone, -, -, ha⟩ | ⟨hne, hsum, -⟩⟩ := Handles.drop_spec hd
  · exact ⟨debt_idle (by omega), Or.inl ⟨hone, debt_acting ha⟩⟩
  · exact ⟨debt_idle (by omega), Or.inr ⟨hne, debt_idle (by omega)⟩⟩

/-- Giving up a count ends the debt only with the last handle. -/
theorem debt_pass {h h' : Handles Drop} (hp : h.pass = some h') :
    debt h = some 1 ∧ debt h' = if h.strong = 1 then none else some 1 := by
  obtain ⟨hpos, hi, hpass, hn⟩ := Handles.pass_spec hp
  refine ⟨debt_idle (by omega), ?_⟩
  have hgone := Handles.pass_gone hp
  by_cases hone : h.strong = 1
  · have hzero := hgone.mpr hone
    simp only [Handles.strong, hn] at hzero
    rw [if_pos hone, debt, hn]
    simp only [Option.isSome_none, Bool.false_eq_true, if_false] at hzero
    exact if_neg (by omega)
  · have hzero : h'.strong ≠ 0 := fun h0 => hone (hgone.mp h0)
    simp only [Handles.strong, hn] at hzero
    simp only [Option.isSome_none, Bool.false_eq_true, if_false] at hzero
    rw [if_neg hone]
    exact debt_idle (by omega)

/-! ### No call meets a deleted reference -/

/-- The reference is alive, and the count is the one that the code relies on: the
`debug_assert!` that it is zero after `napi_reference_unref` holds. -/
def Call.Sound (c : Call) : Prop :=
  match c.op with
  | .unref => c.found = some 1
  | .delete | .value => c.found ≠ none

structure Inv (s : State) : Prop where
  held : ∀ r n, debt (s.handles r) = some n → s.count r = some n ∧ r ∉ s.queue
  queued : ∀ r ∈ s.queue, s.count r = some 1
  nodup : s.queue.Nodup
  unmade : ∀ r, s.fresh ≤ r → s.handles r = .gone ∧ r ∉ s.queue
  sound : ∀ c ∈ s.log, c.Sound

theorem inv_init : Inv State.init where
  held := by simp [State.init]
  queued := by simp [State.init]
  nodup := by simp [State.init]
  unmade := by simp [State.init]
  sound := by simp [State.init]

/-- What the handles rely on has been made. -/
theorem Inv.lt_of_debt (hI : Inv s) (hd : debt (s.handles r) ≠ none) : r < s.fresh := by
  by_contra hge
  rw [(hI.unmade r (Nat.le_of_not_lt hge)).1] at hd
  exact hd rfl

theorem Inv.lt_of_queued (hI : Inv s) (hq : r ∈ s.queue) : r < s.fresh := by
  by_contra hge
  exact (hI.unmade r (Nat.le_of_not_lt hge)).2 hq

/-- Nobody but the queue relies on what waits there. -/
theorem Inv.debt_queued (hI : Inv s) (hq : r ∈ s.queue) : debt (s.handles r) = none := by
  cases hd : debt (s.handles r) with
  | none => rfl
  | some n => exact absurd hq (hI.held r n hd).2

theorem Inv.lt_of_acting (hI : Inv s) {d : Drop} (ha : (s.handles r).acting = some d) :
    r < s.fresh := by
  by_contra hge
  rw [(hI.unmade r (Nat.le_of_not_lt hge)).1] at ha
  cases ha

/-- A step about one reference. -/
theorem Inv.change (hI : Inv s) (r : Ref) (hlt : r < s.fresh) (hfresh : s'.fresh = s.fresh)
    (hhandles : ∀ x, x ≠ r → s'.handles x = s.handles x)
    (hcount : ∀ x, x ≠ r → s'.count x = s.count x)
    (hqueue : ∀ x, x ≠ r → x ∈ s'.queue → x ∈ s.queue) (hnodup : s'.queue.Nodup)
    (hheld : ∀ n, debt (s'.handles r) = some n → s'.count r = some n ∧ r ∉ s'.queue)
    (hqueued : r ∈ s'.queue → s'.count r = some 1)
    (hsound : ∀ c ∈ s'.log, c ∈ s.log ∨ c.Sound) : Inv s' where
  held := by
    intro x n hx
    by_cases hxr : x = r
    · subst hxr
      exact hheld n hx
    · rw [hhandles x hxr] at hx
      obtain ⟨hc, hq⟩ := hI.held x n hx
      exact ⟨(hcount x hxr).trans hc, fun hmem => hq (hqueue x hxr hmem)⟩
  queued := by
    intro x hx
    by_cases hxr : x = r
    · subst hxr
      exact hqueued hx
    · exact (hcount x hxr).trans (hI.queued x (hqueue x hxr hx))
  nodup := hnodup
  unmade := by
    intro x hx
    rw [hfresh] at hx
    have hxr : x ≠ r := Nat.ne_of_gt (Nat.lt_of_lt_of_le hlt hx)
    obtain ⟨hg, hq⟩ := hI.unmade x hx
    exact ⟨(hhandles x hxr).trans hg, fun hmem => hq (hqueue x hxr hmem)⟩
  sound := fun c hc => (hsound c hc).elim (hI.sound c) id

/-- A step of the handles alone, which rely on the same as before or on nothing. -/
theorem Inv.setHandles (hI : Inv s) {h : Handles Drop} (hlt : r < s.fresh)
    (hdebt : debt h = debt (s.handles r) ∨ debt h = none) : Inv (s.setHandles r h) := by
  refine hI.change r hlt rfl (fun x hx => Function.update_of_ne hx _ _) (fun _ _ => rfl)
    (fun _ _ => id) hI.nodup ?_ (hI.queued r) (fun c hc => Or.inl hc)
  intro n hn
  have hn' : debt h = some n := by simpa [State.setHandles] using hn
  rcases hdebt with hsame | hnone
  · exact hI.held r n (hsame.symm.trans hn')
  · rw [hnone] at hn'
    cases hn'

/-- `custom_gc` releases what was at the head of the queue. -/
theorem Inv.customGc (hI : Inv s) {queue : List Ref} (hq : s.queue = r :: queue)
    (e : Option Env) : Inv ({ s with queue }.customGc t e r) := by
  have hmem : r ∈ s.queue := by simp [hq]
  have hnd : r ∉ queue ∧ queue.Nodup := by simpa [hq] using hI.nodup
  have hcount := hI.queued r hmem
  have hdebt := hI.debt_queued hmem
  have hsub : ∀ x, x ∈ queue → x ∈ s.queue := fun x hx => by simp [hq, hx]
  have hpop : Inv { s with queue } :=
    hI.change r (hI.lt_of_queued hmem) rfl (fun _ _ => rfl) (fun _ _ => rfl)
      (fun x _ => hsub x) hnd.2 (fun n hn => by rw [hdebt] at hn; cases hn)
      (fun hr => absurd hr hnd.1) (fun c hc => Or.inl hc)
  unfold State.customGc
  split
  · exact hpop
  · refine hpop.change r (hI.lt_of_queued hmem) rfl (fun _ _ => rfl) ?_ (fun _ _ => id) hnd.2
      (fun n hn => ?_) (fun hr => absurd hr hnd.1) ?_
    · intro x hx
      cases e <;> simp [State.delete, State.unref, State.call, Function.update_of_ne hx]
    · have hn' : debt (s.handles r) = some n := hn
      rw [hdebt] at hn'
      cases hn'
    · intro c hc
      have hc' : c = ⟨t, e, s.env r, .delete, if e.isSome then some 0 else some 1⟩ ∨
          c = ⟨t, e, s.env r, .unref, some 1⟩ ∨ c ∈ s.log := by
        cases e <;> simpa [State.delete, State.unref, State.call, hcount] using hc
      rcases hc' with rfl | rfl | hc'
      · refine Or.inr ?_
        cases e <;> simp [Call.Sound]
      · exact Or.inr rfl
      · exact Or.inl hc'

theorem inv_takes {a : Act} (hI : Inv s) (ht : Takes b home s a s') : Inv s' := by
  cases ht with
  | register =>
      unfold State.register
      split <;> exact ⟨hI.held, hI.queued, hI.nodup, hI.unmade, hI.sound⟩
  | @fromNapiValue e isBuffer =>
      have hfresh := hI.unmade s.fresh (Nat.le_refl _)
      have hheld : ∀ x n, debt ((s.fromNapiValue e isBuffer).handles x) = some n →
          (s.fromNapiValue e isBuffer).count x = some n ∧ x ∉ s.queue := by
        intro x n hx
        by_cases hxr : x = s.fresh
        · subst hxr
          cases isBuffer
          · have hgone : debt (s.handles s.fresh) = some n := hx
            simp [hfresh.1] at hgone
          · simp [State.fromNapiValue, State.setHandles, State.createReference] at hx ⊢
            exact ⟨hx, hfresh.2⟩
        · have hx' : debt (s.handles x) = some n := by
            cases isBuffer <;>
              simpa [State.fromNapiValue, State.setHandles, State.createReference,
                Function.update_of_ne hxr] using hx
          cases isBuffer <;>
            simpa [State.fromNapiValue, State.setHandles, State.createReference,
              Function.update_of_ne hxr] using hI.held x n hx'
      have hcount : ∀ x, x ≠ s.fresh → (s.fromNapiValue e isBuffer).count x = s.count x := by
        intro x hx
        cases isBuffer <;>
          simp [State.fromNapiValue, State.setHandles, State.createReference,
            Function.update_of_ne hx]
      have hqueue : (s.fromNapiValue e isBuffer).queue = s.queue := by cases isBuffer <;> rfl
      have hnext : (s.fromNapiValue e isBuffer).fresh = s.fresh + 1 := by
        cases isBuffer <;> rfl
      refine ⟨fun x n hx => by rw [hqueue]; exact hheld x n hx, ?_, by rw [hqueue]; exact hI.nodup,
        ?_, ?_⟩
      · intro x hx
        rw [hqueue] at hx
        rw [hcount x (fun hxr => hfresh.2 (hxr ▸ hx))]
        exact hI.queued x hx
      · intro x hx
        rw [hnext] at hx
        have hxr : x ≠ s.fresh := Nat.ne_of_gt (Nat.lt_of_succ_le hx)
        obtain ⟨hg, hq⟩ := hI.unmade x (Nat.le_of_succ_le hx)
        rw [hqueue]
        refine ⟨?_, hq⟩
        cases isBuffer <;>
          simpa [State.fromNapiValue, State.setHandles, State.createReference,
            Function.update_of_ne hxr] using hg
      · intro c hc
        cases isBuffer <;> exact hI.sound c hc
  | @giveLast e r h hd hone =>
      obtain ⟨hdebt, ⟨-, hnone⟩ | ⟨hne, -⟩⟩ := debt_drop hd
      · obtain ⟨hc, hq⟩ := hI.held r 1 hdebt
        refine hI.change r (hI.lt_of_debt (by simp [hdebt])) rfl
          (fun x hx => Function.update_of_ne hx _ _)
          (fun x hx => Function.update_of_ne hx _ _) (fun _ _ => id) hI.nodup ?_
          (fun hr => absurd hr hq) ?_
        · intro n hn
          have hn' : debt h = some n := by simpa [State.setHandles] using hn
          rw [hnone] at hn'
          cases hn'
        · intro c hmem
          have hmem' : c = ⟨home e, some e, s.env r, .delete, some 1⟩ ∨
              c = ⟨home e, some e, s.env r, .value, some 1⟩ ∨ c ∈ s.log := by
            simpa [State.setHandles, State.delete, State.call, hc] using hmem
          rcases hmem' with rfl | rfl | hmem'
          · exact Or.inr (by simp [Call.Sound])
          · exact Or.inr (by simp [Call.Sound])
          · exact Or.inl hmem'
      · exact absurd hone hne
  | @give e r hi =>
      obtain ⟨hc, -⟩ := hI.held r 1 (debt_idle (by omega))
      refine ⟨hI.held, hI.queued, hI.nodup, hI.unmade, fun c hmem => ?_⟩
      rcases List.mem_cons.mp hmem with rfl | hmem
      · simp [Call.Sound, hc]
      · exact hI.sound c hmem
  | clone hc =>
      obtain ⟨hdebt, hdebt'⟩ := debt_clone hc
      exact hI.setHandles (hI.lt_of_debt (by simp [hdebt])) (Or.inl (hdebt'.trans hdebt.symm))
  | drop hd =>
      obtain ⟨hdebt, hdebt'⟩ := debt_drop hd
      refine hI.setHandles (hI.lt_of_debt (by simp [hdebt])) (Or.inl ?_)
      rw [hdebt]
      exact hdebt'.elim And.right And.right
  | pass hp =>
      obtain ⟨hdebt, hdebt'⟩ := debt_pass hp
      refine hI.setHandles (hI.lt_of_debt (by simp [hdebt])) ?_
      rw [hdebt, hdebt']
      split
      · exact Or.inr rfl
      · exact Or.inl rfl
  | read old new ha hnew =>
      refine hI.setHandles (hI.lt_of_acting ha) ?_
      rw [debt_act ha, debt_acting ha]
      rcases hnew with ⟨rfl, rfl⟩ | ⟨rfl, rfl⟩
      · split
        · split
          · exact Or.inr rfl
          · exact Or.inl rfl
        · exact Or.inl rfl
      · split <;> exact Or.inl rfl
  | @unref r t ha =>
      obtain ⟨hc, hq⟩ := hI.held r 1 (debt_acting ha)
      refine hI.change r (hI.lt_of_acting ha) rfl (fun x hx => Function.update_of_ne hx _ _)
        (fun x hx => Function.update_of_ne hx _ _) (fun _ _ => id) hI.nodup ?_
        (fun hr => absurd hr hq) ?_
      · intro n hn
        have hn' : debt ((s.handles r).act (some ⟨t, .unreffed⟩)) = some n := by
          simpa [State.setHandles] using hn
        rw [debt_act ha] at hn'
        obtain rfl := Option.some.inj hn'
        exact ⟨by simp [State.setHandles, State.unref, hc], hq⟩
      · intro c hmem
        rcases List.mem_cons.mp hmem with rfl | hmem
        · exact Or.inr hc
        · exact Or.inl hmem
  | @delete r t ha =>
      obtain ⟨hc, hq⟩ := hI.held r 0 (debt_acting ha)
      refine hI.change r (hI.lt_of_acting ha) rfl (fun x hx => Function.update_of_ne hx _ _)
        (fun x hx => Function.update_of_ne hx _ _) (fun _ _ => id) hI.nodup ?_
        (fun hr => absurd hr hq) ?_
      · intro n hn
        have hn' : debt ((s.handles r).act (some ⟨t, .done⟩)) = some n := by
          simpa [State.setHandles] using hn
        rw [debt_act ha] at hn'
        cases hn'
      · intro c hmem
        rcases List.mem_cons.mp hmem with rfl | hmem
        · exact Or.inr (by simp [Call.Sound, hc])
        · exact Or.inl hmem
  | @send r t ha =>
      obtain ⟨hc, hq⟩ := hI.held r 1 (debt_acting ha)
      have hlt := hI.lt_of_acting ha
      have hdebt : debt ((s.handles r).act (some ⟨t, .done⟩)) = none := debt_act ha
      have hheld : ∀ x : State, ∀ n,
          debt ((x.setHandles r ((s.handles r).act (some ⟨t, .done⟩))).handles r) = some n →
          (x.setHandles r ((s.handles r).act (some ⟨t, .done⟩))).count r = some n ∧
            r ∉ x.queue := by
        intro x n hn
        rw [show (x.setHandles r ((s.handles r).act (some ⟨t, .done⟩))).handles r =
          (s.handles r).act (some ⟨t, .done⟩) from Function.update_self _ _ _, hdebt] at hn
        cases hn
      unfold State.callTsfn
      split
      · exact hI.change r hlt rfl (fun x hx => Function.update_of_ne hx _ _) (fun _ _ => rfl)
          (fun _ _ => id) hI.nodup (hheld _) (fun _ => hc) (fun c hmem => Or.inl hmem)
      · split
        · exact hI.change r hlt rfl (fun x hx => Function.update_of_ne hx _ _) (fun _ _ => rfl)
            (fun _ _ => id) hI.nodup (hheld _) (fun _ => hc) (fun c hmem => Or.inl hmem)
        · refine hI.change r hlt rfl (fun x hx => Function.update_of_ne hx _ _) (fun _ _ => rfl)
            ?_ ?_ (hheld _) (fun _ => hc) (fun c hmem => Or.inl hmem)
          · intro x hx hmem
            simpa [State.setHandles, hx] using hmem
          · show (s.queue ++ [r]).Nodup
            rw [List.nodup_append]
            refine ⟨hI.nodup, by simp, fun x hx y hy => ?_⟩
            obtain rfl := List.mem_singleton.mp hy
            exact fun hxy => hq (hxy ▸ hx)
  | finish ha => exact hI.setHandles (hI.lt_of_acting ha) (Or.inr (debt_act_none ha))
  | deliver _ _ hq => exact hI.customGc hq _
  | @cleanup e s' hc =>
      unfold State.cleanup at hc
      split at hc
      · cases hc
      · obtain rfl := Option.some.inj hc
        exact ⟨hI.held, hI.queued, hI.nodup, hI.unmade, hI.sound⟩
      · obtain rfl := Option.some.inj hc
        exact ⟨hI.held, hI.queued, hI.nodup, hI.unmade, hI.sound⟩
  | drain _ _ hq => exact hI.customGc hq _
  | finalize => exact ⟨hI.held, hI.queued, hI.nodup, hI.unmade, hI.sound⟩

theorem inv_reach {G : State → Act → Prop} (h : (buffers b home).Reach G s) : Inv s := by
  induction h with
  | start hs =>
      obtain rfl := hs
      exact inv_init
  | step _ _ hn ih => exact inv_takes ih (takes_of_next hn)

/-- **Released once.** In every run, whatever threads the handles of a buffer are dropped
on and however their drops interleave: no call of the engine is about a reference that was
deleted, and each `napi_reference_unref` takes the count from one to zero. -/
theorem sound (h : (buffers b home).Reachable s) : ∀ c ∈ s.log, c.Sound :=
  (inv_reach h).sound

/-- The last handle is dropped on a thread without an environment, and the custom GC runs. -/
def passage : List Act :=
  [.register 0 0, .fromNapiValue 0 0 true, .clone 0, .drop 0 0, .pass 0, .drop 1 0, .proceed 0,
    .proceed 0, .proceed 0, .proceed 0, .deliver]

theorem sound_passage :
    let b : Build := ⟨true, false, true, true⟩
    ∃ s, (buffers b id).replay .init passage = some s ∧ ∀ c ∈ s.log, c.Sound := by
  intro b
  have hstart : (buffers b id).Reachable .init := .start rfl
  have hrun : ∃ s, (buffers b id).replay .init passage = some s := ⟨_, rfl⟩
  obtain ⟨s, hs⟩ := hrun
  exact ⟨s, hs, sound (Machine.Reachable.replay passage hstart hs)⟩

end TurbopackWasi.Napi
