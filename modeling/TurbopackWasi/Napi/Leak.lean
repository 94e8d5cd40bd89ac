import TurbopackWasi.Napi.Release

/-!
# TurbopackWasi.Napi.Leak

**Which references are left behind.** A reference that exists is released by a handle, by a
drop that read a count of one, or by the custom GC. `leaks_iff` says which steps leave one
without any of them: a value that turns out not to be a buffer after its reference was
made, two last drops that both read two, a drop before or after the time of the threadsafe
function, and what its queue holds when the environment ends. In a run without such a step no
drop panics (`unpanicked`).
-/

namespace TurbopackWasi.Napi

open Lib

variable {b : Build} {home : Env → Thread} {s s' : State} {r : Ref}

/-- Someone will release each reference that exists. -/
def Accounted (s : State) : Prop :=
  ∀ r, s.count r ≠ none → debt (s.handles r) ≠ none ∨ r ∈ s.queue

/-- The step lets go of no reference. -/
def Clean (b : Build) (home : Env → Thread) (s : State) : Act → Prop
  | .fromNapiValue _ _ isBuffer => isBuffer = true
  -- the last handle gives up its count: the drops have read each other's
  | .pass r => (s.handles r).strong ≠ 1
  | .proceed r => ∀ d, (s.handles r).acting = some d →
      (d.stage = .counted → b.customGc = true → s.destroyed = false) ∧
      (d.stage = .remote → s.tsfn ≠ none ∧ s.closing = false)
  | .deliver => ∀ e, s.tsfn = some e → s.access (home e) ≠ some false
  | .drain => False
  | _ => True

/-- A step about one reference, which it accounts for. -/
theorem Accounted.change (hA : Accounted s) (r : Ref)
    (hhandles : ∀ x, x ≠ r → s'.handles x = s.handles x)
    (hcount : ∀ x, x ≠ r → s'.count x = s.count x)
    (hqueue : ∀ x, x ≠ r → x ∈ s.queue → x ∈ s'.queue)
    (hr : s'.count r ≠ none → debt (s'.handles r) ≠ none ∨ r ∈ s'.queue) : Accounted s' := by
  intro x hx
  by_cases hxr : x = r
  · subst hxr
    exact hr hx
  · rw [hcount x hxr] at hx
    rw [hhandles x hxr]
    exact (hA x hx).imp_right (hqueue x hxr)

/-- The handles go on relying on the reference. -/
theorem Accounted.setHandles (hA : Accounted s) {h : Handles Drop}
    (hdebt : debt (s.handles r) ≠ none → debt h ≠ none) : Accounted (s.setHandles r h) := by
  refine hA.change r (fun x hx => Function.update_of_ne hx _ _) (fun _ _ => rfl)
    (fun _ _ => id) fun hr => ?_
  rw [show (s.setHandles r h).handles r = h from Function.update_self _ _ _]
  exact (hA r hr).imp_left hdebt

/-- Where nobody relies on a reference that exists, it is left behind. -/
theorem not_accounted (hcount : s.count r ≠ none) (hdebt : debt (s.handles r) = none)
    (hq : r ∉ s.queue) : ¬Accounted s :=
  fun hA => (hA r hcount).elim (absurd hdebt) hq

/-- What `custom_gc` does with the head of the queue. -/
theorem accounted_customGc (hI : Inv s) {queue : List Ref} {t : Thread} {e : Option Env}
    (hq : s.queue = r :: queue) :
    (Accounted s → s.access t ≠ some false → e.isSome →
      Accounted ({ s with queue }.customGc t e r)) ∧
    (s.access t = some false ∨ e = none → ¬Accounted ({ s with queue }.customGc t e r)) := by
  have hmem : r ∈ s.queue := by simp [hq]
  have hnot : r ∉ queue := (List.nodup_cons.mp (hq ▸ hI.nodup)).1
  have hcount := hI.queued r hmem
  have hdebt := hI.debt_queued hmem
  have hrest : ∀ x, x ≠ r → x ∈ s.queue → x ∈ queue := by
    intro x hx hmem
    rw [hq] at hmem
    exact (List.mem_cons.mp hmem).resolve_left hx
  constructor
  · intro hA hacc he
    rw [State.customGc, if_neg hacc]
    refine hA.change r (fun _ _ => rfl) (fun x hx => ?_) hrest (fun hr => absurd ?_ hr)
    · simp [State.delete, State.unref, State.call, he, Function.update_of_ne hx]
    · simp [State.delete, he]
  · intro hwhy
    have hkept : ({ s with queue }.customGc t e r).count r ≠ none := by
      rcases hwhy with hacc | rfl
      · rw [State.customGc, if_pos hacc]
        simp [hcount]
      · unfold State.customGc
        split <;> simp [State.delete, State.unref, State.call, hcount]
    refine not_accounted (r := r) hkept ?_ ?_
    · unfold State.customGc
      split <;> exact hdebt
    · unfold State.customGc
      split <;> exact hnot

/-- Clean steps account for every reference, and the others for some no longer. -/
theorem accounted_takes {a : Act} (hI : Inv s) (ht : Takes b home s a s') :
    (Accounted s → Clean b home s a → Accounted s') ∧ (¬Clean b home s a → ¬Accounted s') := by
  cases ht with
  | register =>
      refine ⟨fun hA _ => ?_, fun h => absurd trivial h⟩
      unfold State.register
      split <;> exact hA
  | @fromNapiValue e isBuffer =>
      have hfresh := hI.unmade s.fresh (Nat.le_refl _)
      cases isBuffer with
      | true =>
          refine ⟨fun hA _ => ?_, fun h => absurd rfl h⟩
          refine hA.change s.fresh (fun x hx => Function.update_of_ne hx _ _)
            (fun x hx => Function.update_of_ne hx _ _) (fun _ _ => id) fun _ => Or.inl ?_
          simp [State.fromNapiValue, State.setHandles]
      | false =>
          refine ⟨fun _ h => (by cases h), fun _ => ?_⟩
          refine not_accounted (r := s.fresh) ?_ ?_ hfresh.2
          · simp [State.fromNapiValue, State.createReference]
          · show debt (s.handles s.fresh) = none
            rw [hfresh.1]
            rfl
  | @giveLast e r h hd hone =>
      refine ⟨fun hA _ => ?_, fun h => absurd trivial h⟩
      refine hA.change r (fun x hx => Function.update_of_ne hx _ _)
        (fun x hx => Function.update_of_ne hx _ _) (fun _ _ => id) (fun hr => absurd ?_ hr)
      simp [State.setHandles, State.delete]
  | give hi => exact ⟨fun hA _ => hA, fun h => absurd trivial h⟩
  | clone hc =>
      refine ⟨fun hA _ => hA.setHandles fun _ => ?_, fun h => absurd trivial h⟩
      simp [(debt_clone hc).2]
  | @drop t r h hd =>
      refine ⟨fun hA _ => hA.setHandles fun _ => ?_, fun h => absurd trivial h⟩
      rcases (debt_drop hd).2 with ⟨-, h1⟩ | ⟨-, h1⟩ <;> simp [h1, Stage.expects]
  | @pass r h hp =>
      obtain ⟨hdebt, hdebt'⟩ := debt_pass hp
      refine ⟨fun hA hne => hA.setHandles fun _ => ?_, fun hone => ?_⟩
      · rw [hdebt', if_neg hne]
        simp
      · obtain ⟨hc, hq⟩ := hI.held r 1 hdebt
        refine not_accounted (r := r) (by simp [State.setHandles, hc]) ?_ hq
        rw [show (s.setHandles r h).handles r = h from Function.update_self _ _ _, hdebt',
          if_pos (by_contra hone)]
  | @read r t old new ha hnew =>
      obtain ⟨hdebt, hexp⟩ : debt (s.handles r) = some 1 ∧ (new.expects = none ↔
          old = .counted ∧ b.customGc = true ∧ s.destroyed = true) := by
        rcases hnew with ⟨rfl, rfl⟩ | ⟨rfl, rfl⟩
        · refine ⟨debt_acting ha, ?_⟩
          cases b.customGc <;> cases s.destroyed <;> simp [Stage.expects]
        · refine ⟨debt_acting ha, ?_⟩
          split <;> simp [Stage.expects]
      have hold : old ≠ .remote := by
        rcases hnew with ⟨rfl, -⟩ | ⟨rfl, -⟩ <;> simp
      have hclean : Clean b home s (.proceed r) ↔
          ¬(old = .counted ∧ b.customGc = true ∧ s.destroyed = true) := by
        constructor
        · intro h hbad
          have hfalse := (h _ ha).1 hbad.1 hbad.2.1
          simp [hbad.2.2] at hfalse
        · intro h d hd
          rw [ha] at hd
          obtain rfl := Option.some.inj hd
          refine ⟨fun h1 h2 => Bool.eq_false_iff.mpr fun h3 => h ⟨h1, h2, h3⟩,
            fun h1 => absurd h1 hold⟩
      rw [hclean]
      refine ⟨fun hA hgood => hA.setHandles fun _ => ?_, fun hbad => ?_⟩
      · rw [debt_act ha]
        exact fun hnone => hgood (hexp.mp hnone)
      · obtain ⟨hc, hq⟩ := hI.held r 1 hdebt
        refine not_accounted (r := r) (by simp [State.setHandles, hc]) ?_ hq
        rw [show (s.setHandles r ((s.handles r).act (some ⟨t, new⟩))).handles r =
          (s.handles r).act (some ⟨t, new⟩) from Function.update_self _ _ _, debt_act ha]
        exact hexp.mpr (not_not.mp hbad)
  | @unref r t ha =>
      refine ⟨fun hA _ => ?_, fun hbad => absurd ?_ hbad⟩
      · refine hA.change r (fun x hx => Function.update_of_ne hx _ _)
          (fun x hx => Function.update_of_ne hx _ _) (fun _ _ => id) fun _ => Or.inl ?_
        rw [show (State.setHandles _ r ((s.handles r).act (some ⟨t, .unreffed⟩))).handles r =
          (s.handles r).act (some ⟨t, .unreffed⟩) from Function.update_self _ _ _, debt_act ha]
        simp [Stage.expects]
      · intro d hd
        rw [ha] at hd
        obtain rfl := Option.some.inj hd
        simp
  | @delete r t ha =>
      refine ⟨fun hA _ => ?_, fun hbad => absurd ?_ hbad⟩
      · refine hA.change r (fun x hx => Function.update_of_ne hx _ _)
          (fun x hx => Function.update_of_ne hx _ _) (fun _ _ => id) (fun hr => absurd ?_ hr)
        simp [State.setHandles, State.delete]
      · intro d hd
        rw [ha] at hd
        obtain rfl := Option.some.inj hd
        simp
  | @send r t ha =>
      obtain ⟨hc, hq⟩ := hI.held r 1 (debt_acting ha)
      have hdebt : debt ((s.handles r).act (some ⟨t, .done⟩)) = none := debt_act ha
      have hclean : Clean b home s (.proceed r) ↔ s.tsfn ≠ none ∧ s.closing = false := by
        constructor
        · intro h
          exact (h _ ha).2 rfl
        · intro h d hd
          rw [ha] at hd
          obtain rfl := Option.some.inj hd
          exact ⟨fun h1 => by simp at h1, fun _ => h⟩
      rw [hclean]
      unfold State.callTsfn
      cases htsfn : s.tsfn with
      | none =>
          refine ⟨fun _ h => absurd rfl h.1, fun _ => ?_⟩
          refine not_accounted (r := r) (by simp [State.setHandles, hc]) ?_ hq
          simpa [State.setHandles] using hdebt
      | some e =>
          cases hclose : s.closing with
          | true =>
              refine ⟨fun _ h => by simp at h, fun _ => ?_⟩
              refine not_accounted (r := r) (by simp [State.setHandles, hc]) ?_ hq
              simpa [State.setHandles] using hdebt
          | false =>
              refine ⟨fun hA _ => ?_, fun h => absurd ⟨by simp, rfl⟩ h⟩
              refine hA.change r (fun x hx => Function.update_of_ne hx _ _) (fun _ _ => rfl)
                (fun x _ hmem => List.mem_append_left _ hmem) fun _ => Or.inr ?_
              show r ∈ s.queue ++ [r]
              simp
  | @finish r t ha =>
      refine ⟨fun hA _ => hA.setHandles fun h => absurd (debt_acting ha) h,
        fun hbad => absurd ?_ hbad⟩
      intro d hd
      rw [ha] at hd
      obtain rfl := Option.some.inj hd
      simp
  | @deliver e r queue htsfn _ hq =>
      have hboth := accounted_customGc (t := home e) (e := some e) hI hq
      refine ⟨fun hA h => hboth.1 hA (h e htsfn) rfl, fun hbad => hboth.2 (Or.inl ?_)⟩
      by_contra hacc
      refine hbad fun e' he' => ?_
      rw [htsfn] at he'
      obtain rfl := Option.some.inj he'
      exact hacc
  | @cleanup e s' hc =>
      refine ⟨fun hA _ => ?_, fun h => absurd trivial h⟩
      unfold State.cleanup at hc
      split at hc
      · cases hc
      · obtain rfl := Option.some.inj hc
        exact hA
      · obtain rfl := Option.some.inj hc
        exact hA
  | @drain e r queue htsfn _ hq =>
      exact ⟨fun _ h => h.elim, fun _ => (accounted_customGc hI hq).2 (Or.inr rfl)⟩
  | finalize => exact ⟨fun hA _ => hA, fun h => absurd trivial h⟩

/-- Only a drop that leaves its reference behind may fail the `assert!`. -/
theorem panicked_takes {a : Act} (ht : Takes b home s a s') (hclean : Clean b home s a) :
    s'.panicked = s.panicked := by
  cases ht with
  | register =>
      unfold State.register
      split <;> rfl
  | @fromNapiValue e isBuffer => cases isBuffer <;> rfl
  | @send r t ha =>
      obtain ⟨htsfn, hopen⟩ := (hclean _ ha).2 rfl
      cases hfunc : s.tsfn with
      | none => exact absurd hfunc htsfn
      | some e => simp [State.callTsfn, State.setHandles, hfunc, hopen]
  | deliver =>
      unfold State.customGc
      split <;> rfl
  | drain => exact hclean.elim
  | @cleanup e s' hc =>
      unfold State.cleanup at hc
      split at hc
      · cases hc
      all_goals
        obtain rfl := Option.some.inj hc
        rfl
  | giveLast | give | clone | drop | pass | read | unref | delete | finish | finalize => rfl

/-- No drop panics in a run that leaves no reference behind. -/
theorem unpanicked {as : List Act} (h : (buffers b home).replay .init as = some s)
    (hclean : (buffers b home).EachStep (Clean b home) .init as) : s.panicked = false := by
  have hreach := Machine.Reach.of_eachStep (.start rfl) hclean h
  refine hreach.invariant (I := fun s => s.panicked = false) ?_ ?_
  · intro s hs
    obtain rfl := hs
    rfl
  · intro s a s' hold hQ hn
    rw [panicked_takes (takes_of_next hn) hQ, hold]

/-- Two clones are dropped at the same time, and both read two. -/
def race : List Act :=
  [.register 0 0, .fromNapiValue 0 0 true, .clone 0, .drop 1 0, .drop 2 0, .pass 0, .pass 0]

end TurbopackWasi.Napi
