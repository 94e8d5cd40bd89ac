import TurbopackWasi.Napi.Release

/-!
# TurbopackWasi.Napi.Home

**On which thread a reference is released.** The binding is one module with one
environment, whatever threads it starts. With the custom GC, each call about a reference
then comes from the thread of the environment and passes the environment; without it, the
thread that drops the last handle makes the calls. At the end of the environment the hook
that marks the thread runs before that of the threadsafe function, since it was added
later, and so what is left in the queue is dropped without a call.
-/

namespace TurbopackWasi.Napi

open Lib

variable {b : Build} {home : Env → Thread} {s s' : State} {r : Ref} {t : Thread} {e e₀ : Env}

/-- The call comes from the thread of the reference's environment, and passes it. -/
def Call.AtHome (home : Env → Thread) (c : Call) : Prop :=
  c.thread = home c.owner ∧ c.env = some c.owner

/-- The module is registered once, and all values are of the one environment. -/
def Single (e₀ : Env) (s : State) : Act → Prop
  | .register _ e => e = e₀ ∧ s.registered = false
  | .fromNapiValue _ e _ | .toNapiValue _ e _ => e = e₀
  | _ => True

/-- `e₀` has these hooks, and no other environment has any. -/
def State.Hooked (s : State) (e₀ : Env) (hooks : List Hook) : Prop :=
  ∀ e, s.hooks e = if e = e₀ then hooks else []

/-- How far the one environment has come. -/
inductive Phase (home : Env → Thread) (e₀ : Env) (s : State) : Prop
  | unregistered : s.registered = false → s.closing = false → s.Hooked e₀ [] → Phase home e₀ s
  | up : s.registered = true → s.closing = false →
      s.Hooked e₀ [.removeThreadId (home e₀), .tsfn] → Phase home e₀ s
  | down {hooks : List Hook} : s.registered = true → s.access (home e₀) = some false →
      hooks = [.tsfn] ∨ hooks = [] → s.Hooked e₀ hooks → Phase home e₀ s

structure Solo (home : Env → Thread) (e₀ : Env) (s : State) : Prop where
  env : ∀ r, r < s.fresh → s.env r = e₀
  access : ∀ t, (s.access t).isSome → t = home e₀
  tsfn : ∀ e, s.tsfn = some e → e = e₀
  /-- Only the thread of the environment calls the engine from `drop`. -/
  acting : ∀ r d, (s.handles r).acting = some d → d.stage = .direct ∨ d.stage = .unreffed →
    d.thread = home e₀
  phase : Phase home e₀ s
  atHome : ∀ c ∈ s.log, c.AtHome home

theorem solo_init : Solo home e₀ State.init where
  env := by simp [State.init]
  access := by simp [State.init]
  tsfn := by simp [State.init]
  acting := by simp [State.init, Handles.gone]
  phase := .unregistered rfl rfl (by simp [State.Hooked, State.init])
  atHome := by simp [State.init]

/-- Once it is closing, the thread can no longer access the environment. -/
theorem Phase.of_closing (hp : Phase home e₀ s) (hc : s.closing = true) :
    s.access (home e₀) = some false := by
  cases hp with
  | unregistered _ hopen _ => simp [hopen] at hc
  | up _ hopen _ => simp [hopen] at hc
  | down _ ha _ _ => exact ha

theorem Phase.congr (hp : Phase home e₀ s) (hr : s'.registered = s.registered)
    (hc : s'.closing = s.closing) (ha : s'.access = s.access) (hh : s'.hooks = s.hooks) :
    Phase home e₀ s' := by
  have hhook : ∀ hooks, s.Hooked e₀ hooks → s'.Hooked e₀ hooks := by
    intro hooks h e
    rw [hh]
    exact h e
  cases hp with
  | unregistered hreg hclose hhooks =>
      exact .unregistered (hr.trans hreg) (hc.trans hclose) (hhook _ hhooks)
  | up hreg hclose hhooks => exact .up (hr.trans hreg) (hc.trans hclose) (hhook _ hhooks)
  | down hreg hacc hl hhooks =>
      exact .down (hr.trans hreg) (by rw [ha]; exact hacc) hl (hhook _ hhooks)

/-- A step of the handles of one reference, which may log calls. -/
theorem Solo.change (hS : Solo home e₀ s) (r : Ref) (hfresh : s'.fresh = s.fresh)
    (henv : s'.env = s.env) (haccess : s'.access = s.access) (htsfn : s'.tsfn = s.tsfn)
    (hregistered : s'.registered = s.registered) (hclosing : s'.closing = s.closing)
    (hhooks : s'.hooks = s.hooks) (hother : ∀ x, x ≠ r → s'.handles x = s.handles x)
    (hacting : ∀ d, (s'.handles r).acting = some d → d.stage = .direct ∨ d.stage = .unreffed →
      d.thread = home e₀)
    (hlog : ∀ c ∈ s'.log, c ∈ s.log ∨ c.AtHome home) : Solo home e₀ s' where
  env := by
    rw [hfresh, henv]
    exact hS.env
  access := by
    rw [haccess]
    exact hS.access
  tsfn := by
    rw [htsfn]
    exact hS.tsfn
  acting := by
    intro x d hd hstage
    by_cases hx : x = r
    · subst hx
      exact hacting d hd hstage
    · rw [hother x hx] at hd
      exact hS.acting x d hd hstage
  phase := hS.phase.congr hregistered hclosing haccess hhooks
  atHome := fun c hc => (hlog c hc).elim (hS.atHome c) id

/-- The handles change, and no drop comes to call the engine. -/
theorem Solo.setHandles (hS : Solo home e₀ s) {h : Handles Drop}
    (hacting : ∀ d, h.acting = some d → d.stage = .direct ∨ d.stage = .unreffed →
      d.thread = home e₀) : Solo home e₀ (s.setHandles r h) := by
  refine hS.change r rfl rfl rfl rfl rfl rfl rfl (fun x hx => Function.update_of_ne hx _ _) ?_
    (fun c hc => Or.inl hc)
  intro d hd
  exact hacting d (by simpa [State.setHandles] using hd)

/-- `custom_gc` is called with the environment while the thread can access it, and does
nothing after that. -/
theorem Solo.customGc (hS : Solo home e₀ s) (hr : r < s.fresh)
    (he : e = e₀) {passed : Option Env}
    (hpassed : passed = some e₀ ∨ s.access (home e₀) = some false) (queue : List Ref) :
    Solo home e₀ ({ s with queue }.customGc (home e) passed r) := by
  subst he
  unfold State.customGc
  split
  · exact hS.change r rfl rfl rfl rfl rfl rfl rfl (fun _ _ => rfl) (hS.acting r)
      (fun c hc => Or.inl hc)
  · rename_i hacc
    rcases hpassed with rfl | hfalse
    · refine hS.change r rfl rfl rfl rfl rfl rfl rfl (fun _ _ => rfl) (hS.acting r) ?_
      intro c hc
      have howner := hS.env r hr
      simp only [State.delete, State.unref, State.call, List.mem_cons] at hc
      rcases hc with rfl | rfl | hc
      · exact Or.inr ⟨by rw [howner], by rw [howner]⟩
      · exact Or.inr ⟨by rw [howner], by rw [howner]⟩
      · exact Or.inl hc
    · exact absurd hfalse hacc

theorem phase_cleanup (hp : Phase home e₀ s) (h : s.cleanup e = some s') : Phase home e₀ s' := by
  unfold State.cleanup at h
  have hne : ∀ {hooks hooks' : List Hook} {x : State}, s.Hooked e₀ hooks → e = e₀ →
      x.hooks = Function.update s.hooks e hooks' → x.Hooked e₀ hooks' := by
    intro hooks hooks' x hh he hx e'
    subst he
    rw [hx]
    by_cases hee : e' = e
    · subst hee
      simp
    · rw [Function.update_of_ne hee, hh e', if_neg hee, if_neg hee]
  have hwhere : ∀ {hooks : List Hook}, s.Hooked e₀ hooks → s.hooks e ≠ [] →
      e = e₀ ∧ s.hooks e = hooks := by
    intro hooks hh hnil
    have he := hh e
    split at he
    · rename_i hee
      exact ⟨hee, he⟩
    · exact absurd he hnil
  split at h
  · cases h
  · rename_i hooks hhead
    obtain rfl := Option.some.inj h
    have hnil : s.hooks e ≠ [] := by simp [hhead]
    cases hp with
    | unregistered _ _ hh => simp [(hwhere hh hnil).2] at hnil
    | up _ _ hh =>
        rw [(hwhere hh hnil).2] at hhead
        cases hhead
    | @down hooks' hreg hacc hl hh =>
        obtain ⟨he, hall⟩ := hwhere hh hnil
        have hrest : hooks = [] := by
          rcases hl with rfl | rfl
          · rw [hhead] at hall
            simpa using hall
          · rw [hhead] at hall
            cases hall
        exact .down hreg hacc (Or.inr hrest) (hne hh he rfl)
  · rename_i t hooks hhead
    obtain rfl := Option.some.inj h
    have hnil : s.hooks e ≠ [] := by simp [hhead]
    cases hp with
    | unregistered _ _ hh => simp [(hwhere hh hnil).2] at hnil
    | up hreg hclose hh =>
        obtain ⟨he, hall⟩ := hwhere hh hnil
        rw [hhead] at hall
        obtain ⟨ht, hrest⟩ := List.cons.inj hall
        obtain rfl : t = home e₀ := by simpa using ht
        exact .down hreg (by simp) (Or.inl hrest) (hne hh he rfl)
    | @down hooks' hreg hacc hl hh =>
        obtain ⟨he, hall⟩ := hwhere hh hnil
        rw [hhead] at hall
        rcases hl with rfl | rfl
        · cases hall
        · cases hall

theorem solo_takes {a : Act} (hgc : b.customGc = true) (hI : Inv s) (hS : Solo home e₀ s)
    (hG : Single e₀ s a) (ht : Takes b home s a s') : Solo home e₀ s' := by
  cases ht with
  | @register e =>
      obtain ⟨rfl, hreg⟩ := hG
      have hold : s.Hooked e [] := by
        cases hS.phase with
        | unregistered _ _ hh => exact hh
        | up hreg' _ _ => simp [hreg] at hreg'
        | down hreg' _ _ _ => simp [hreg] at hreg'
      have hopen : s.closing = false := by
        cases hS.phase with
        | unregistered _ hc _ => exact hc
        | up hreg' _ _ => simp [hreg] at hreg'
        | down hreg' _ _ _ => simp [hreg] at hreg'
      have hhooks : s.hooks e = [] := by simpa using hold e
      simp only [State.register, if_pos hgc, State.createCustomGc, hreg, Bool.false_eq_true,
        if_false, hhooks]
      refine ⟨hS.env, ?_, ?_, hS.acting, .up rfl hopen ?_, hS.atHome⟩
      · intro t hsome
        by_cases htt : t = home e
        · exact htt
        · exact hS.access t (by simpa [Function.update_of_ne htt] using hsome)
      · intro e' he'
        exact (Option.some.inj he').symm
      · intro e'
        by_cases hee : e' = e
        · subst hee
          simp
        · simpa [hee] using hold e'
  | @fromNapiValue e isBuffer =>
      obtain rfl : e = e₀ := hG
      have henv : ∀ x, x < s.fresh + 1 → Function.update s.env s.fresh e x = e := by
        intro x hx
        by_cases hxr : x = s.fresh
        · rw [hxr, Function.update_self]
        · rw [Function.update_of_ne hxr]
          exact hS.env x (Nat.lt_of_le_of_ne (Nat.le_of_lt_succ hx) hxr)
      unfold State.fromNapiValue
      split
      · refine ⟨henv, hS.access, hS.tsfn, ?_, hS.phase.congr rfl rfl rfl rfl, hS.atHome⟩
        intro x d hd
        by_cases hxr : x = s.fresh
        · simp [State.setHandles, State.createReference, hxr, Handles.one] at hd
        · exact hS.acting x d (by simpa [State.setHandles, State.createReference, hxr] using hd)
      · exact ⟨henv, hS.access, hS.tsfn, hS.acting, hS.phase.congr rfl rfl rfl rfl, hS.atHome⟩
  | @giveLast e r h hd hone =>
      obtain rfl : e = e₀ := hG
      obtain ⟨-, ⟨-, -, -, ha⟩ | ⟨hne, -⟩⟩ := Handles.drop_spec hd
      · have howner := hS.env r (hI.lt_of_debt (by rw [(debt_drop hd).1]; simp))
        refine hS.change r rfl rfl rfl rfl rfl rfl rfl
          (fun x hx => Function.update_of_ne hx _ _) ?_ ?_
        · intro d hd' hstage
          have hd'' : h.acting = some d := by simpa [State.setHandles] using hd'
          rw [ha] at hd''
          obtain rfl := Option.some.inj hd''
          simp at hstage
        · intro c hc
          simp only [State.setHandles, State.delete, State.call, List.mem_cons] at hc
          rcases hc with rfl | rfl | hc
          · exact Or.inr ⟨by rw [howner], by rw [howner]⟩
          · exact Or.inr ⟨by rw [howner], by rw [howner]⟩
          · exact Or.inl hc
      · exact absurd hone hne
  | @give e r hi =>
      obtain rfl : e = e₀ := hG
      have howner := hS.env r (hI.lt_of_debt (by rw [debt_idle (by omega)]; simp))
      refine hS.change r rfl rfl rfl rfl rfl rfl rfl (fun _ _ => rfl) (hS.acting r) ?_
      intro c hc
      rcases List.mem_cons.mp hc with rfl | hc
      · exact Or.inr ⟨by rw [howner], by rw [howner]⟩
      · exact Or.inl hc
  | clone hc =>
      refine hS.setHandles fun d hd => ?_
      rw [(Handles.clone_spec hc).2.2.2] at hd
      cases hd
  | drop hd =>
      refine hS.setHandles fun d ha hstage => ?_
      obtain ⟨-, ⟨-, -, -, ha'⟩ | ⟨-, -, ha'⟩⟩ := Handles.drop_spec hd
      · rw [ha'] at ha
        obtain rfl := Option.some.inj ha
        simp at hstage
      · rw [ha'] at ha
        cases ha
  | pass hp =>
      refine hS.setHandles fun d hd => ?_
      rw [(Handles.pass_spec hp).2.2.2] at hd
      cases hd
  | @read r t old new ha hnew =>
      refine hS.setHandles fun d hd hstage => ?_
      rw [Handles.act_acting _ ha] at hd
      obtain rfl := Option.some.inj hd
      rcases hnew with ⟨-, rfl⟩ | ⟨-, rfl⟩
      · rw [if_pos hgc] at hstage
        split at hstage <;> simp at hstage
      · refine hS.access t ?_
        by_contra hnot
        rw [if_neg hnot] at hstage
        simp at hstage
  | @unref r t ha =>
      have ht := hS.acting r _ ha (Or.inl rfl)
      have howner := hS.env r (hI.lt_of_acting ha)
      refine hS.change r rfl rfl rfl rfl rfl rfl rfl
        (fun x hx => Function.update_of_ne hx _ _) ?_ ?_
      · intro d hd _
        have hd' : ((s.handles r).act (some ⟨t, .unreffed⟩)).acting = some d := by
          simpa [State.setHandles] using hd
        rw [Handles.act_acting _ ha] at hd'
        obtain rfl := Option.some.inj hd'
        exact ht
      · intro c hc
        rcases List.mem_cons.mp hc with rfl | hc
        · exact Or.inr ⟨by rw [howner]; exact ht, rfl⟩
        · exact Or.inl hc
  | @delete r t ha =>
      have ht := hS.acting r _ ha (Or.inr rfl)
      have howner := hS.env r (hI.lt_of_acting ha)
      refine hS.change r rfl rfl rfl rfl rfl rfl rfl
        (fun x hx => Function.update_of_ne hx _ _) ?_ ?_
      · intro d hd hstage
        have hd' : ((s.handles r).act (some ⟨t, .done⟩)).acting = some d := by
          simpa [State.setHandles] using hd
        rw [Handles.act_acting _ ha] at hd'
        obtain rfl := Option.some.inj hd'
        simp at hstage
      · intro c hc
        rcases List.mem_cons.mp hc with rfl | hc
        · exact Or.inr ⟨by rw [howner]; exact ht, rfl⟩
        · exact Or.inl hc
  | @send r t ha =>
      have hsent : Solo home e₀ (s.callTsfn r) := by
        unfold State.callTsfn
        split
        · exact hS.change r rfl rfl rfl rfl rfl rfl rfl (fun _ _ => rfl) (hS.acting r)
            (fun c hc => Or.inl hc)
        · split <;> exact hS.change r rfl rfl rfl rfl rfl rfl rfl (fun _ _ => rfl)
            (hS.acting r) (fun c hc => Or.inl hc)
      refine hsent.setHandles fun d hd hstage => ?_
      rw [Handles.act_acting _ ha] at hd
      obtain rfl := Option.some.inj hd
      simp at hstage
  | finish ha =>
      refine hS.setHandles fun d hd => ?_
      rw [Handles.act_acting _ ha] at hd
      cases hd
  | @deliver e r queue htsfn _ hq =>
      have he := hS.tsfn e htsfn
      exact hS.customGc (hI.lt_of_queued (by simp [hq])) he (Or.inl (by rw [he])) queue
  | @cleanup e s' hc =>
      have hphase := phase_cleanup hS.phase hc
      have hkey : s'.env = s.env ∧ s'.fresh = s.fresh ∧ s'.tsfn = s.tsfn ∧
          s'.handles = s.handles ∧ s'.log = s.log ∧
          ∀ t, (s'.access t).isSome → (s.access t).isSome ∨ t = home e₀ := by
        unfold State.cleanup at hc
        split at hc
        · cases hc
        · obtain rfl := Option.some.inj hc
          exact ⟨rfl, rfl, rfl, rfl, rfl, fun _ => Or.inl⟩
        · rename_i t hooks hhead
          obtain rfl := Option.some.inj hc
          refine ⟨rfl, rfl, rfl, rfl, rfl, fun x hx => ?_⟩
          by_cases hxt : x = t
          · refine Or.inr ?_
            subst hxt
            cases hS.phase with
            | unregistered _ _ hh =>
                have hx := hh e
                rw [hhead] at hx
                split at hx <;> cases hx
            | up _ _ hh =>
                have hx := hh e
                rw [hhead] at hx
                split at hx
                · simpa using (List.cons.inj hx).1
                · cases hx
            | down _ _ hl hh =>
                have hx := hh e
                rw [hhead] at hx
                rcases hl with rfl | rfl <;> split at hx <;> cases hx
          · exact Or.inl (by simpa [Function.update_of_ne hxt] using hx)
      obtain ⟨henv, hfresh, htsfn, hhandles, hlog, haccess⟩ := hkey
      exact ⟨by rw [henv, hfresh]; exact hS.env,
        fun t h => (haccess t h).elim (hS.access t) id, by rw [htsfn]; exact hS.tsfn,
        by rw [hhandles]; exact hS.acting, hphase, by rw [hlog]; exact hS.atHome⟩
  | @drain e r queue htsfn hc hq =>
      exact hS.customGc (hI.lt_of_queued (by simp [hq])) (hS.tsfn e htsfn)
        (Or.inr (hS.phase.of_closing hc)) queue
  | finalize =>
      exact ⟨hS.env, hS.access, hS.tsfn, hS.acting, hS.phase.congr rfl rfl rfl rfl, hS.atHome⟩

theorem solo_reach (hgc : b.customGc = true) (h : (buffers b home).Reach (Single e₀) s) :
    Solo home e₀ s := by
  have hboth : Inv s ∧ Solo home e₀ s := by
    induction h with
    | start hs =>
        obtain rfl := hs
        exact ⟨inv_init, solo_init⟩
    | step _ hg hn ih =>
        have ht := takes_of_next hn
        exact ⟨inv_takes ih.1 ht, solo_takes hgc ih.1 ih.2 hg ht⟩
  exact hboth.2

/-! ### Without the custom GC -/

/-- A buffer is dropped on the thread after that of its environment. -/
def stray (home : Env → Thread) (e₀ : Env) : List Act :=
  [.fromNapiValue (home e₀) e₀ true, .drop (home e₀ + 1) 0, .proceed 0, .proceed 0]

theorem stray_calls (home : Env → Thread) (e₀ : Env) (hgc : b.customGc = false) :
    ∃ s, (buffers b home).Reach (Single e₀) s ∧
      ⟨home e₀ + 1, some e₀, e₀, .unref, some 1⟩ ∈ s.log := by
  have hsteps : ∃ s, (buffers b home).replay .init (stray home e₀) = some s ∧
      ⟨home e₀ + 1, some e₀, e₀, .unref, some 1⟩ ∈ s.log := by
    simp [stray, Machine.replay, buffers, next, State.fromNapiValue, State.createReference,
      State.setHandles, State.init, Handles.drop, Handles.one, Handles.strong, State.proceed,
      Handles.act, hgc, State.unref, State.call]
  obtain ⟨s, hrun, hmem⟩ := hsteps
  refine ⟨s, Machine.Reach.replay (G := Single e₀) _ (.start rfl) ?_ hrun, hmem⟩
  intro a ha x
  simp only [stray, List.mem_cons, List.not_mem_nil, or_false] at ha
  rcases ha with rfl | rfl | rfl | rfl <;> trivial

end TurbopackWasi.Napi
