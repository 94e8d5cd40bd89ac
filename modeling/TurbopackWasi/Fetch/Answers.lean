import TurbopackWasi.Fetch.Client
import TurbopackWasi.Loader.Settling
import TurbopackWasi.Napi.Assertion

/-!
# TurbopackWasi.Fetch.Answers

**What becomes of a request.** The client keeps a handle of the threadsafe function for
ever, and each future one of its own: so there is always one for `thread_finalize_cb`, no
handle is the last, and nothing is called after the end (`unharmed`). A request that is
answered has the answer of its own call of the handler (`answers_own`).
-/

namespace TurbopackWasi.Fetch

open Lib Napi

variable {c : Loader.Fetch.Client} {s s' : State} {t t' : Tsfn.State Nat} {i j : Nat} {g : Get}

/-! ### The function, while there is a handle -/

/-- What holds of the function in any run in which the client keeps its handle. -/
structure Held (t : Tsfn.State Nat) : Prop where
  inv : Tsfn.Inv t
  counted : Tsfn.Counted t
  unfaulted : ¬Tsfn.Faulted t
  /-- Only the end of the environment closes it. -/
  running : t.phase = .running ↔ t.closing = false
  aborted : t.aborted = true → t.phase = .deleted

theorem held_init : Held .init where
  inv := Tsfn.inv_init
  counted := Tsfn.counted_init
  unfaulted := by simp [Tsfn.Faulted, Tsfn.State.init]
  running := by simp [Tsfn.State.init]
  aborted := by simp [Tsfn.State.init]

theorem Held.dropping (hH : Held t) (hpos : 0 < t.handles) : t.dropping = none := by
  by_contra hd
  exact absurd (hH.inv.dropping hd).1 (Nat.ne_of_gt hpos)

theorem running_next {a : Tsfn.Act Nat} (hH : Held t) (ha : a ≠ .abort)
    (ht : Tsfn.Takes t a t') : t'.phase = .running ↔ t'.closing = false := by
  have hrunning := hH.running
  cases ht with
  | clone =>
      unfold Tsfn.State.clone
      split <;> exact hrunning
  | begin =>
      unfold Tsfn.State.begin
      split <;> exact hrunning
  | @call i =>
      rw [Tsfn.napi_phase]
      have hcall := Tsfn.answers_napi { t with readers := t.readers.erase i } (.call i)
      generalize Tsfn.State.napi _ _ = u at hcall ⊢
      cases hcall <;> exact hrunning
  | drop => exact hrunning
  | abort => exact absurd rfl ha
  | enter => exact hrunning
  | release hd _ =>
      have hcall := Tsfn.answers_napi t .release
      have hphase := Tsfn.napi_phase t .release
      generalize t.napi .release = u at hcall hphase ⊢
      cases hcall <;> exact hrunning
  | deliver => exact hrunning
  | close => simp
  | upgrade hphase _ => simpa [hphase] using hrunning
  | delete hphase _ => simpa [Tsfn.State.delete, hphase] using hrunning
  | lock hphase _ => simpa [Tsfn.State.delete, hphase] using hrunning

theorem aborted_next {a : Tsfn.Act Nat} (hH : Held t) (ha : a ≠ .abort)
    (ht : Tsfn.Takes t a t') (hflag : t'.aborted = true) : t'.phase = .deleted := by
  have haborted := hH.aborted
  cases ht with
  | clone =>
      unfold Tsfn.State.clone at hflag ⊢
      split at hflag
      · rename_i h
        simpa [h] using haborted h
      · exact absurd hflag ‹_›
  | begin =>
      unfold Tsfn.State.begin at hflag ⊢
      split at hflag
      · rename_i h
        simpa [h] using haborted h
      · exact absurd hflag ‹_›
  | call => simpa using haborted (by simpa using hflag)
  | drop => exact haborted hflag
  | abort => exact absurd rfl ha
  | enter => exact haborted hflag
  | release => simpa using haborted (by simpa using hflag)
  | deliver => exact haborted hflag
  | close _ hphase => simp [haborted hflag] at hphase
  | upgrade hphase _ => simp [haborted hflag] at hphase
  | delete | lock => rfl

theorem held_next {a : Tsfn.Act Nat} (hH : Held t) (hpos : 0 < t.handles) (ha : a ≠ .abort)
    (hn : Tsfn.next t a = some t') : Held t' := by
  have ht := Tsfn.takes_of_next hn
  refine ⟨Tsfn.inv_takes hH.inv ht, Tsfn.counted_takes hH.counted hH.inv ht, fun hfault => ?_,
    running_next hH ha ht, aborted_next hH ha ht⟩
  rcases (Tsfn.bad_takes hH.inv ht).mp (Or.inl hfault) with (hold | hdangling) | htimely
  · exact hH.unfaulted hold
  · exact hdangling.2.1 (hH.dropping hpos)
  · refine htimely ?_
    cases a with
    | finalize => exact fun hzero => absurd hzero (Nat.ne_of_gt hpos)
    | clone | begin | call | drop | abort | proceed | dispatch | cleanup | lock => trivial

/-! ### One request and the function -/

/-- The answer is that of the handler, or the environment had ended before the request was
sent. -/
def Right (t : Tsfn.State Nat) (i : Nat) (g : Get) (r : Answer) : Prop :=
  (∃ h o, g.handler = some h ∧ h.outcome = some o ∧ r = answer o) ∨
    ∃ status, r = .error (.call (some status)) ∧ i ∉ t.sent ∧ t.phase ≠ .running

structure Fits (c : Loader.Fetch.Client) (t : Tsfn.State Nat) (i : Nat) (g : Get) : Prop where
  calling : i ∈ t.readers ↔ g.stage = .calling
  unsent : g.stage = .created ∨ g.stage = .calling → i ∉ t.sent
  waiting : g.stage = .waiting → i ∈ t.sent ∧ i ∉ t.delivered
  promised : g.stage = .promised → i ∈ t.delivered
  handler : g.handler.isSome = true ↔ i ∈ t.delivered
  /-- What has become of the call of the handler with the arguments of this request. -/
  own : ∀ h, g.handler = some h → ∃ es,
    (Loader.Fetch.machine c).replay (Loader.Fetch.handler c false g.url g.userAgent) es = some h
  right : ∀ r, g.stage = .ready r ∨ g.stage = .done r → Right t i g r

/-- The step of the function is not about this request. -/
structure Agrees (t t' : Tsfn.State Nat) (i : Nat) : Prop where
  readers : i ∈ t'.readers ↔ i ∈ t.readers
  sent : i ∈ t'.sent ↔ i ∈ t.sent
  delivered : i ∈ t'.delivered ↔ i ∈ t.delivered
  phase : t.phase ≠ .running → t'.phase ≠ .running

theorem Agrees.refl (t : Tsfn.State Nat) (i : Nat) : Agrees t t i :=
  ⟨Iff.rfl, Iff.rfl, Iff.rfl, id⟩

theorem Agrees.trans {t'' : Tsfn.State Nat} (h : Agrees t t' i) (h' : Agrees t' t'' i) :
    Agrees t t'' i where
  readers := h'.readers.trans h.readers
  sent := h'.sent.trans h.sent
  delivered := h'.delivered.trans h.delivered
  phase := h'.phase ∘ h.phase

theorem Right.agrees {r : Answer} (h : Right t i g r) (ha : Agrees t t' i) : Right t' i g r := by
  rcases h with hanswer | ⟨status, hr, hsent, hphase⟩
  · exact Or.inl hanswer
  · exact Or.inr ⟨status, hr, fun hs => hsent (ha.sent.mp hs), ha.phase hphase⟩

theorem Fits.agrees (h : Fits c t i g) (ha : Agrees t t' i) : Fits c t' i g where
  calling := ha.readers.trans h.calling
  unsent hg hs := h.unsent hg (ha.sent.mp hs)
  waiting hg := ⟨ha.sent.mpr (h.waiting hg).1, fun hd => (h.waiting hg).2 (ha.delivered.mp hd)⟩
  promised hg := ha.delivered.mpr (h.promised hg)
  handler := h.handler.trans ha.delivered.symm
  own := h.own
  right r hr := (h.right r hr).agrees ha

/-- All that holds between two steps. -/
structure Sound (c : Loader.Fetch.Client) (s : State) : Prop where
  held : Held s.tsfn
  /-- One handle is the client's. -/
  handles : s.tsfn.handles = 1 + s.gets.countP (·.stage.live)
  readers : s.tsfn.readers.Nodup
  sent : s.tsfn.sent.Nodup
  known : ∀ i, i ∈ s.tsfn.readers ∨ i ∈ s.tsfn.sent → i < s.gets.length
  fits : ∀ i g, s.gets[i]? = some g → Fits c s.tsfn i g

theorem sound_init : Sound c State.init where
  held := held_init
  handles := rfl
  readers := List.nodup_nil
  sent := List.nodup_nil
  known := by simp [State.init, Tsfn.State.init]
  fits := by simp [State.init]

theorem Sound.pos (hS : Sound c s) : 0 < s.tsfn.handles := by
  rw [hS.handles]
  exact Nat.add_pos_left Nat.one_pos _

/-- A step of the function alone. -/
theorem Sound.engine (hS : Sound c s) (hheld : Held t') (hhandles : t'.handles = s.tsfn.handles)
    (hreaders : t'.readers = s.tsfn.readers) (hsent : t'.sent = s.tsfn.sent)
    (hdelivered : t'.delivered = s.tsfn.delivered)
    (hphase : s.tsfn.phase ≠ .running → t'.phase ≠ .running) : Sound c { s with tsfn := t' } where
  held := hheld
  handles := hhandles.trans hS.handles
  readers := hreaders ▸ hS.readers
  sent := hsent ▸ hS.sent
  known := by
    simp only [hreaders, hsent]
    exact hS.known
  fits i g hg := by
    refine (hS.fits i g hg).agrees ⟨?_, ?_, ?_, hphase⟩
    · rw [hreaders]
    · rw [hsent]
    · rw [hdelivered]

/-- A step about one request. -/
theorem Sound.set {g' : Get} (hS : Sound c s) (hg : s.gets[i]? = some g) (hheld : Held t')
    (hhandles : t'.handles + g.stage.live.toNat = s.tsfn.handles + g'.stage.live.toNat)
    (hreaders : t'.readers.Nodup) (hsent : t'.sent.Nodup)
    (hagrees : ∀ j, j ≠ i → Agrees s.tsfn t' j) (hfits : Fits c t' i g') :
    Sound c ⟨t', s.gets.set i g'⟩ where
  held := hheld
  handles := by
    obtain ⟨hi, rfl⟩ := List.getElem?_eq_some_iff.mp hg
    have hold := hS.handles
    have hcount := List.countP_set (p := fun g : Get => g.stage.live) (a := g') hi
    have hle : (if s.gets[i].stage.live = true then 1 else 0) ≤
        s.gets.countP (·.stage.live) := by
      split
      · rename_i hlive
        exact List.countP_pos_iff.mpr ⟨_, List.getElem_mem hi, hlive⟩
      · exact Nat.zero_le _
    show t'.handles = 1 + (s.gets.set i g').countP (·.stage.live)
    rw [hcount]
    cases hlive : s.gets[i].stage.live <;> cases hlive' : g'.stage.live <;>
      simp only [hlive, hlive', Bool.toNat_true, Bool.toNat_false, if_true, Bool.false_eq_true,
        if_false] at hhandles hle ⊢ <;> omega
  readers := hreaders
  sent := hsent
  known j hj := by
    rw [List.length_set]
    obtain ⟨hi, -⟩ := List.getElem?_eq_some_iff.mp hg
    by_cases hji : j = i
    · exact hji ▸ hi
    · have ha := hagrees j hji
      exact hS.known j (hj.imp ha.readers.mp ha.sent.mp)
  fits j x hx := by
    by_cases hji : j = i
    · subst hji
      obtain ⟨hi, -⟩ := List.getElem?_eq_some_iff.mp hg
      have hx' : (s.gets.set j g')[j]? = some x := hx
      rw [List.getElem?_set_self hi] at hx'
      obtain rfl := Option.some.inj hx'
      exact hfits
    · have hx' : (s.gets.set i g')[j]? = some x := hx
      rw [List.getElem?_set_ne (Ne.symm hji)] at hx'
      exact (hS.fits j x hx').agrees (hagrees j hji)

/-! ### The steps -/

/-- The future of a request ends: its clone is not the last handle. -/
theorem Sound.finish {stage : Stage} (hS : Sound c s) (hg : s.gets[i]? = some g)
    (hlive : g.stage.live = true) (hcalling : g.stage ≠ .calling)
    (hstage : stage = .dropped ∨ ∃ r, stage = .done r ∧ Right s.tsfn i g r)
    (hn : s.finish i g stage = some s') : Sound c s' := by
  obtain ⟨t', ht', rfl⟩ := Option.map_eq_some_iff.mp hn
  have hfits := hS.fits i g hg
  have hheld := held_next hS.held hS.pos (by simp) ht'
  simp only [Tsfn.next, Option.ite_none_right_eq_some, Option.some.injEq] at ht'
  obtain ⟨-, rfl⟩ := ht'
  have hended : stage.live = false := by
    rcases hstage with rfl | ⟨r, rfl, -⟩ <;> rfl
  have hagrees : ∀ j, Agrees s.tsfn s.tsfn.dropHandle j := fun j => ⟨Iff.rfl, Iff.rfl, Iff.rfl, id⟩
  refine hS.set hg hheld ?_ hS.readers hS.sent (fun j _ => hagrees j) ?_
  · have hpos := hS.pos
    simp only [hlive, hended, Bool.toNat_true, Bool.toNat_false, Tsfn.State.dropHandle]
    omega
  · have hnot : i ∉ s.tsfn.readers := fun hi => hcalling (hfits.calling.mp hi)
    refine Fits.agrees ⟨iff_of_false hnot ?_, ?_, ?_, ?_, hfits.handler, hfits.own, ?_⟩ (hagrees i)
    · rcases hstage with rfl | ⟨r, rfl, -⟩ <;> simp
    · rcases hstage with rfl | ⟨r, rfl, -⟩ <;> simp
    · rcases hstage with rfl | ⟨r, rfl, -⟩ <;> simp
    · rcases hstage with rfl | ⟨r, rfl, -⟩ <;> simp
    · intro r' hr'
      rcases hstage with rfl | ⟨r, rfl, hright⟩
      · simp at hr'
      · obtain rfl : r = r' := by simpa using hr'
        exact hright

/-- The first poll: the lock, and the flag. -/
theorem Sound.begin (hS : Sound c s) (hg : s.gets[i]? = some g) (hstage : g.stage = .created)
    (hn : s.poll i g = some s') : Sound c s' := by
  simp only [State.poll, hstage] at hn
  obtain ⟨t', ht', hn⟩ := Option.bind_eq_some_iff.mp hn
  have hfits := hS.fits i g hg
  have hheld := held_next hS.held hS.pos (by simp) ht'
  simp only [Tsfn.next, Option.ite_none_right_eq_some, Option.some.injEq] at ht'
  obtain ⟨-, rfl⟩ := ht'
  by_cases hflag : s.tsfn.aborted = true
  · simp only [Tsfn.State.begin, hflag, if_true] at hheld hn
    have hS' := hS.engine hheld rfl rfl rfl rfl id
    have hended : s.tsfn.phase ≠ .running := by simp [hS.held.aborted hflag]
    refine hS'.finish hg (by simp [hstage, Stage.live]) (by simp [hstage]) ?_ hn
    exact Or.inr ⟨_, rfl, Or.inr ⟨.closing, rfl, hfits.unsent (Or.inl hstage), hended⟩⟩
  · simp only [Tsfn.State.begin, hflag, if_false, Bool.false_eq_true] at hheld hn
    obtain rfl := Option.some.inj hn
    have hnot : i ∉ s.tsfn.readers := fun hi => by simpa [hstage] using hfits.calling.mp hi
    refine hS.set hg hheld ?_ ?_ hS.sent ?_ ?_
    · simp [hstage, Stage.live]
    · exact List.nodup_cons.mpr ⟨hnot, hS.readers⟩
    · intro j hj
      exact ⟨by simp [hj], Iff.rfl, Iff.rfl, id⟩
    · refine ⟨by simp, fun _ => hfits.unsent (Or.inl hstage), by simp, by simp, hfits.handler,
        hfits.own, by simp⟩

/-- The call of the engine. -/
theorem Sound.call (hS : Sound c s) (hg : s.gets[i]? = some g) (hstage : g.stage = .calling)
    (hn : s.poll i g = some s') : Sound c s' := by
  simp only [State.poll, hstage] at hn
  obtain ⟨t', ht', hn⟩ := Option.bind_eq_some_iff.mp hn
  have hfits := hS.fits i g hg
  have hheld := held_next hS.held hS.pos (by simp) ht'
  simp only [Tsfn.next, Option.ite_none_right_eq_some, Option.some.injEq] at ht'
  obtain ⟨hi, rfl⟩ := ht'
  obtain ⟨hpos, -, hphase⟩ := hS.held.inv.readers (List.ne_nil_of_mem hi)
  have hunsent := hfits.unsent (Or.inr hstage)
  let t : Tsfn.State Nat := { s.tsfn with readers := s.tsfn.readers.erase i }
  have hstatus : t.status (.call i) = s.tsfn.status (.call i) := rfl
  have hcalls := Tsfn.napi_calls t (.call i)
  have hreaders := Tsfn.napi_readers t (.call i)
  have hhandles := Tsfn.napi_handles t (.call i)
  have hphases := Tsfn.napi_phase t (.call i)
  have hcall := Tsfn.answers_napi t (.call i)
  change Held (t.napi (.call i)) at hheld
  change (if _ then some (State.setStage ⟨t.napi (.call i), s.gets⟩ i g .waiting) else
    State.finish ⟨t.napi (.call i), s.gets⟩ i g _) = some s' at hn
  generalize t.napi (.call i) = u at hcalls hreaders hhandles hphases hcall hheld hn
  have hother : ∀ j, j ≠ i → (j ∈ u.readers ↔ j ∈ s.tsfn.readers) := by
    intro j hj
    rw [hreaders]
    exact List.mem_erase_of_ne hj
  have hnot : i ∉ u.readers := by
    rw [hreaders]
    exact List.Nodup.not_mem_erase hS.readers
  have hnodup : u.readers.Nodup := by
    rw [hreaders]
    exact hS.readers.erase i
  split at hn
  · rename_i hok
    obtain rfl := Option.some.inj hn
    obtain ⟨hsent, hdelivered⟩ :
        u.sent = s.tsfn.sent ++ [i] ∧ u.delivered = s.tsfn.delivered := by
      rw [hstatus, hok] at hcalls
      cases hcall with
      | sent => exact ⟨rfl, rfl⟩
      | closing | unused | deleted => simp at hcalls
    have hundelivered : i ∉ s.tsfn.delivered := by
      intro hd
      exact hunsent (hS.held.inv.items ▸ List.mem_append_left _ (List.mem_append_left _ hd))
    refine hS.set hg hheld ?_ hnodup ?_ ?_ ?_
    · simp [hstage, Stage.live, hhandles, t]
    · rw [hsent]
      exact List.nodup_append.mpr ⟨hS.sent, by simp, fun x hx y hy => by
        obtain rfl := List.mem_singleton.mp hy
        exact fun hxy => hunsent (hxy ▸ hx)⟩
    · intro j hj
      exact ⟨hother j hj, by simp [hsent, hj], by rw [hdelivered], by simp [hphases, t]⟩
    · refine ⟨iff_of_false hnot (by simp), by simp, fun _ => ?_, by simp, ?_, hfits.own, by simp⟩
      · rw [hsent, hdelivered]
        exact ⟨by simp, hundelivered⟩
      · rw [hdelivered]
        exact hfits.handler
  · rename_i hfailed
    have hclosing : s.tsfn.closing ≠ false := by
      intro hopen
      exact hfailed (by simp [Tsfn.State.status, hphase, hopen])
    have hended : s.tsfn.phase ≠ .running := fun hrun => hclosing (hS.held.running.mp hrun)
    obtain ⟨status, hsome⟩ : ∃ status, s.tsfn.status (.call i) = some status :=
      Option.ne_none_iff_exists'.mp fun hnone => hphase (Tsfn.status_eq_none.mp hnone)
    obtain ⟨hsent, hdelivered⟩ : u.sent = s.tsfn.sent ∧ u.delivered = s.tsfn.delivered := by
      cases hcall with
      | sent _ hopen => exact absurd hopen hclosing
      | closing | unused | deleted => exact ⟨rfl, rfl⟩
    let r : Answer := .error (.call (some status))
    have hS' : Sound c ⟨u, s.gets.set i { g with stage := .ready r }⟩ := by
      refine hS.set hg hheld ?_ hnodup (hsent ▸ hS.sent) ?_ ?_
      · simp [hstage, Stage.live, hhandles, t]
      · intro j hj
        exact ⟨hother j hj, by rw [hsent], by rw [hdelivered], by simp [hphases, t]⟩
      · refine ⟨iff_of_false hnot (by simp), by simp, by simp, by simp, ?_, hfits.own, ?_⟩
        · rw [hdelivered]
          exact hfits.handler
        · intro r' hr'
          obtain rfl : r = r' := by simpa using hr'
          exact Or.inr ⟨status, rfl, by rwa [hsent], by rwa [hphases]⟩
    obtain ⟨hlt, -⟩ := List.getElem?_eq_some_iff.mp hg
    refine hS'.finish (List.getElem?_set_self hlt) rfl (by simp) (Or.inr ⟨r, rfl, ?_⟩) ?_
    · exact Or.inr ⟨status, rfl, by rwa [hsent], by rwa [hphases]⟩
    · rw [hsome] at hn
      simpa [State.finish, State.setStage, List.set_set] using hn

/-- The handler is called. -/
theorem Sound.dispatch (hS : Sound c s) (hn : next c s .dispatch = some s') : Sound c s' := by
  obtain ⟨t', ht', rfl⟩ := Option.map_eq_some_iff.mp hn
  have hheld := held_next hS.held hS.pos (by simp) ht'
  have hitems := hS.held.inv.items
  cases Tsfn.takes_of_next ht' with
  | @deliver i queue hphase hopen hq =>
      have hi : i ∈ s.tsfn.sent := by simp [hitems, hq]
      have hundelivered : i ∉ s.tsfn.delivered := by
        have hnodup := hS.sent
        rw [hitems, hq] at hnodup
        obtain ⟨-, -, hdisjoint⟩ := List.nodup_append.mp hnodup
        exact fun hd => hdisjoint i (List.mem_append_left _ hd) i List.mem_cons_self rfl
      obtain ⟨g, hg⟩ : ∃ g, s.gets[i]? = some g := by
        have hlt := hS.known i (Or.inr hi)
        exact ⟨_, List.getElem?_eq_getElem hlt⟩
      have hfits := hS.fits i g hg
      simp only [hopen, hq, State.handle, hg] at hheld ⊢
      have hstage := hfits.calling
      refine hS.set hg hheld ?_ hS.readers hS.sent ?_ ?_
      · have hlive : g.stage.deliver.live = g.stage.live := by cases g.stage <;> rfl
        simp [hlive]
      · intro j hj
        exact ⟨Iff.rfl, Iff.rfl, by simp [hj], id⟩
      · refine ⟨?_, ?_, ?_, fun _ => by simp, by simp, ?_, ?_⟩
        · rw [hstage]
          cases g.stage <;> simp [Stage.deliver]
        · intro hg'
          refine hfits.unsent ?_
          revert hg'
          cases g.stage <;> simp [Stage.deliver]
        · cases g.stage <;> simp [Stage.deliver]
        · intro h hh
          obtain rfl := Option.some.inj hh
          exact ⟨[], rfl⟩
        · intro r hr
          -- a request that is answered has been called for, or never sent
          have hold : g.stage = .ready r ∨ g.stage = .done r := by
            revert hr
            cases g.stage <;> simp [Stage.deliver]
          rcases hfits.right r hold with ⟨h, o, hh, -⟩ | ⟨-, -, hunsent, -⟩
          · exact absurd (hfits.handler.mp (by simp [hh])) hundelivered
          · exact absurd hi hunsent
  | close ha hphase =>
      have hopen := hS.held.running.mp hphase
      have hempty : s.tsfn.queue = [] := by
        cases hq : s.tsfn.queue with
        | nil => rfl
        | cons i queue => simp [Tsfn.next, Tsfn.State.dispatch, hphase, hopen, hq] at ht'
      simp only [hopen, hempty] at hheld ⊢
      exact hS.engine hheld rfl rfl rfl rfl (by simp)

/-- A new request, with a clone for its future. -/
theorem Sound.get (hS : Sound c s) {url : String} {userAgent : Option String}
    (hn : next c s (.get url userAgent) = some s') : Sound c s' := by
  obtain ⟨t', ht', rfl⟩ := Option.map_eq_some_iff.mp hn
  have hheld := held_next hS.held hS.pos (by simp) ht'
  simp only [Tsfn.next, Option.ite_none_right_eq_some, Option.some.injEq] at ht'
  obtain ⟨-, rfl⟩ := ht'
  by_cases hflag : s.tsfn.aborted = true
  · simp only [Tsfn.State.clone, hflag, if_true] at hheld ⊢
    exact hS.engine hheld rfl rfl rfl rfl id
  · simp only [Tsfn.State.clone, hflag, if_false, Bool.false_eq_true] at hheld ⊢
    have hnew : ∀ i, i = s.gets.length → i ∉ s.tsfn.readers ∧ i ∉ s.tsfn.sent := by
      rintro i rfl
      exact ⟨fun hi => Nat.lt_irrefl _ (hS.known _ (Or.inl hi)),
        fun hi => Nat.lt_irrefl _ (hS.known _ (Or.inr hi))⟩
    refine ⟨hheld, ?_, hS.readers, hS.sent, fun i hi => ?_, fun i g hg => ?_⟩
    · have hold := hS.handles
      have hcreated : Stage.live .created = true := rfl
      simp only [List.countP_append, List.countP_singleton, hcreated, if_true]
      omega
    · rw [List.length_append]
      exact Nat.lt_add_right _ (hS.known i hi)
    · rw [List.getElem?_append] at hg
      split at hg
      · exact (hS.fits i g hg).agrees ⟨Iff.rfl, Iff.rfl, Iff.rfl, id⟩
      · rename_i hlt
        obtain ⟨hle, hlast⟩ := List.getElem?_eq_some_iff.mp hg
        have hi : i = s.gets.length := by
          simp only [List.length_singleton] at hle
          omega
        obtain ⟨hreader, hsent⟩ := hnew i hi
        have hdelivered : i ∉ s.tsfn.delivered := by
          intro hd
          exact hsent (hS.held.inv.items ▸ List.mem_append_left _ (List.mem_append_left _ hd))
        obtain rfl : Get.mk url userAgent .created none = g := by simpa using hlast
        exact ⟨iff_of_false hreader (by simp), fun _ => hsent, by simp, by simp,
          iff_of_false (by simp) hdelivered, by simp, by simp⟩

/-- Something happens to a request of the handler: what it has come to stays. -/
theorem Sound.event (hS : Sound c s) (hg : s.gets[i]? = some g) {h h' : Loader.Fetch.State}
    {e : Nat × Loader.Fetch.Event} (hh : g.handler = some h)
    (hn : Loader.Fetch.next c h e = some h') :
    Sound c { s with gets := s.gets.set i { g with handler := some h' } } := by
  have hfits := hS.fits i g hg
  refine hS.set hg hS.held (by simp) hS.readers hS.sent (fun j _ => .refl _ j) ?_
  refine ⟨hfits.calling, hfits.unsent, hfits.waiting, hfits.promised, ?_, fun x hx => ?_,
    fun r hr => ?_⟩
  · rw [← hfits.handler, hh]
    simp
  · obtain rfl := Option.some.inj hx
    obtain ⟨es, hes⟩ := hfits.own h hh
    refine ⟨es ++ [e], ?_⟩
    rw [Machine.replay_append, hes, Option.bind_some, Machine.replay_cons]
    exact ⟨h', hn, rfl⟩
  · rcases hfits.right r hr with ⟨x, o, hx, ho, hr⟩ | hunsent
    · obtain rfl := Option.some.inj (hh.symm.trans hx)
      exact Or.inl ⟨h', o, rfl, Loader.Fetch.outcome_next hn ho, hr⟩
    · exact Or.inr hunsent

/-- The promise of the handler has settled. -/
theorem Sound.settle (hS : Sound c s) (hg : s.gets[i]? = some g) (hstage : g.stage = .promised)
    {h : Loader.Fetch.State} {o : Except Loader.Fetch.Failure Loader.Fetch.Response}
    (hh : g.handler = some h) (ho : h.outcome = some o) :
    Sound c (s.setStage i g (.ready (answer o))) := by
  have hfits := hS.fits i g hg
  have hnot : i ∉ s.tsfn.readers := fun hi => by simpa [hstage] using hfits.calling.mp hi
  refine hS.set hg hS.held (by simp [hstage, Stage.live]) hS.readers hS.sent
    (fun j _ => .refl _ j) ?_
  refine ⟨iff_of_false hnot (by simp), by simp, by simp, by simp, hfits.handler, hfits.own,
    fun r hr => ?_⟩
  obtain rfl : answer o = r := by simpa using hr
  exact Or.inl ⟨h, o, hh, ho, rfl⟩

theorem sound_next {a : Act} (hS : Sound c s) (hn : next c s a = some s') : Sound c s' := by
  cases a with
  | get url userAgent => exact hS.get hn
  | poll i =>
      obtain ⟨g, hg, hpoll⟩ := Option.bind_eq_some_iff.mp hn
      cases hstage : g.stage with
      | created => exact hS.begin hg hstage hpoll
      | calling => exact hS.call hg hstage hpoll
      | ready r =>
          simp only [State.poll, hstage] at hpoll
          refine hS.finish hg (by simp [hstage, Stage.live]) (by simp [hstage]) ?_ hpoll
          exact Or.inr ⟨r, rfl, (hS.fits i g hg).right r (Or.inl hstage)⟩
      | waiting | promised | done | dropped => simp [State.poll, hstage] at hpoll
  | cancel i =>
      obtain ⟨g, hg, hcancel⟩ := Option.bind_eq_some_iff.mp hn
      have hlive : g.stage.live = true ∧ g.stage ≠ .calling ∧ s.finish i g .dropped = some s' := by
        cases hstage : g.stage <;> simp [hstage, Stage.live] at hcancel ⊢ <;> exact hcancel
      exact hS.finish hg hlive.1 hlive.2.1 (Or.inl rfl) hlive.2.2
  | dispatch => exact hS.dispatch hn
  | event i e =>
      simp only [next, Option.ite_none_right_eq_some] at hn
      obtain ⟨g, hg, hn⟩ := Option.bind_eq_some_iff.mp hn.2
      obtain ⟨h', hevent, rfl⟩ := Option.map_eq_some_iff.mp hn
      obtain ⟨h, hh, hevent⟩ := Option.bind_eq_some_iff.mp hevent
      exact hS.event hg hh hevent
  | settle i =>
      simp only [next, Option.ite_none_right_eq_some] at hn
      obtain ⟨g, hg, hn⟩ := Option.bind_eq_some_iff.mp hn.2
      split at hn
      · rename_i o hstage ho
        obtain rfl := Option.some.inj hn
        obtain ⟨h, hh, ho⟩ := Option.bind_eq_some_iff.mp ho
        exact hS.settle hg hstage hh ho
      · cases hn
  | cleanup =>
      obtain ⟨t', ht', rfl⟩ := Option.map_eq_some_iff.mp hn
      have hheld := held_next hS.held hS.pos (by simp) ht'
      simp only [Tsfn.next, Option.ite_none_right_eq_some, Option.some.injEq] at ht'
      obtain ⟨-, rfl⟩ := ht'
      exact hS.engine hheld rfl rfl rfl rfl (by simp)
  | finalize =>
      obtain ⟨t', ht', rfl⟩ := Option.map_eq_some_iff.mp hn
      have hheld := held_next hS.held hS.pos (by simp) ht'
      simp only [Tsfn.next, Option.ite_none_right_eq_some, Option.some.injEq] at ht'
      obtain ⟨-, rfl⟩ := ht'
      rw [if_pos hS.pos] at hheld ⊢
      exact hS.engine hheld rfl rfl rfl rfl (by simp)
  | lock =>
      obtain ⟨t', ht', rfl⟩ := Option.map_eq_some_iff.mp hn
      have hheld := held_next hS.held hS.pos (by simp) ht'
      simp only [Tsfn.next, Option.ite_none_right_eq_some, Option.some.injEq] at ht'
      obtain ⟨-, rfl⟩ := ht'
      exact hS.engine hheld rfl rfl rfl rfl (by simp [Tsfn.State.delete])

theorem sound_reachable (h : (client c).Reachable s) : Sound c s := by
  induction h with
  | start hs =>
      obtain rfl := hs
      exact sound_init
  | step _ _ hn ih => exact sound_next ih hn

/-! ### The answers -/

/-- **The end does no harm to the function**: the engine is never called about a function
that it has deleted, and the assertion in the drop never fails. -/
theorem unharmed (h : (client c).Reachable s) :
    ¬Tsfn.Faulted s.tsfn ∧ Tsfn.Panic.release ∉ s.tsfn.panics := by
  have hS := sound_reachable h
  refine ⟨hS.held.unfaulted, fun hpanic => ?_⟩
  exact hS.held.counted.not_released hS.pos (hS.held.counted.assertion.mp hpanic).1

/-- One request has the lock when the environment ends, one comes to it too late, and one is
never made. -/
theorem unharmed_late :
    ∃ s, (client Loader.Fetch.clientOf).replay .init
        [.get "https://a/x" none, .get "https://a/y" none, .poll 0, .cleanup, .finalize, .poll 0,
          .lock, .poll 1, .get "https://a/x" none] = some s ∧
      ¬Tsfn.Faulted s.tsfn ∧ Tsfn.Panic.release ∉ s.tsfn.panics := by
  have hstart : (client Loader.Fetch.clientOf).Reachable .init := .start rfl
  have hrun : ∃ s, (client Loader.Fetch.clientOf).replay .init
      [.get "https://a/x" none, .get "https://a/y" none, .poll 0, .cleanup, .finalize, .poll 0,
        .lock, .poll 1, .get "https://a/x" none] = some s := ⟨_, rfl⟩
  obtain ⟨s, hs⟩ := hrun
  exact ⟨s, hs, unharmed (Machine.Reachable.replay _ hstart hs)⟩

/-- **Every answer is the request's own.** The handler is called at most once for a request,
and in the order in which the requests were sent. A request that is done has what the call
with its own arguments came to, or an error of `call_async`, which did not call the handler
since the environment had ended. -/
theorem answers_own (h : (client c).Reachable s) :
    s.tsfn.delivered.Nodup ∧ s.tsfn.delivered <+: s.tsfn.sent ∧
      ∀ (i : Nat) (g : Get) (r : Answer), s.gets[i]? = some g → g.stage = .done r →
        (∃ es x o, (Loader.Fetch.machine c).replay
            (Loader.Fetch.handler c false g.url g.userAgent) es = some x ∧
          g.handler = some x ∧ x.outcome = some o ∧ r = answer o) ∨
        (∃ status, r = .error (.call (some status)) ∧ g.handler = none ∧
          s.tsfn.phase ≠ .running) := by
  have hS := sound_reachable h
  have hitems := hS.held.inv.items
  rw [List.append_assoc] at hitems
  have horder : s.tsfn.delivered <+: s.tsfn.sent := ⟨_, hitems.symm⟩
  refine ⟨horder.sublist.nodup hS.sent, horder, fun i g r hg hstage => ?_⟩
  have hfits := hS.fits i g hg
  rcases hfits.right r (Or.inr hstage) with ⟨x, o, hx, ho, hr⟩ | ⟨status, hr, hunsent, hended⟩
  · obtain ⟨es, hes⟩ := hfits.own x hx
    exact Or.inl ⟨es, x, o, hes, hx, ho, hr⟩
  · refine Or.inr ⟨status, hr, ?_, hended⟩
    rw [← Option.not_isSome_iff_eq_none, hfits.handler]
    exact fun hd => hunsent (horder.subset hd)

/-- A request that is answered in full, next to one that is not. -/
def answered : List Act :=
  [.get "https://a/x" none, .get "https://a/y" none, .poll 1, .poll 0, .poll 0, .poll 1, .dispatch,
    .event 0 (0, .response ⟨some 200, none⟩), .event 0 (0, .data [1, 2]), .event 0 (0, .finish),
    .settle 0, .poll 0]

theorem answers_own_answered :
    ∃ s, (client Loader.Fetch.clientOf).replay .init answered = some s ∧
      s.tsfn.delivered.Nodup ∧ s.tsfn.delivered <+: s.tsfn.sent ∧
      ∀ (i : Nat) (g : Get) (r : Answer), s.gets[i]? = some g → g.stage = .done r →
        (∃ es x o, (Loader.Fetch.machine Loader.Fetch.clientOf).replay
            (Loader.Fetch.handler Loader.Fetch.clientOf false g.url g.userAgent) es = some x ∧
          g.handler = some x ∧ x.outcome = some o ∧ r = answer o) ∨
        (∃ status, r = .error (.call (some status)) ∧ g.handler = none ∧
          s.tsfn.phase ≠ .running) := by
  have hstart : (client Loader.Fetch.clientOf).Reachable .init := .start rfl
  have hrun : ∃ s, (client Loader.Fetch.clientOf).replay .init answered = some s := ⟨_, rfl⟩
  obtain ⟨s, hs⟩ := hrun
  exact ⟨s, hs, answers_own (Machine.Reachable.replay _ hstart hs)⟩

end TurbopackWasi.Fetch
