import TurbopackWasi.Fetch.Answers

/-!
# TurbopackWasi.Fetch.Answerable

**When a request can still be answered.** Until it has been sent, and once its promise has
settled, a request needs nothing but polls. In between it depends on JavaScript: a request
that awaits the handler when the environment ends stays in its future for ever.

`Moves` says what one step may do to one request; that nothing leads back is an induction on
the run. That there is always a way is shown from the end of a request to its beginning.
-/

namespace TurbopackWasi.Fetch

open Lib Napi

variable {c : Loader.Fetch.Client} {s s' : State} {t t' : Tsfn.State Nat} {i : Nat} {g : Get}

/-! ### One step and one request -/

/-- The environment does not come back. -/
theorem ended_takes {a : Tsfn.Act Nat} (ht : Tsfn.Takes t a t') (h : t.phase ≠ .running) :
    t'.phase ≠ .running := by
  cases ht with
  | clone =>
      unfold Tsfn.State.clone
      split <;> exact h
  | begin =>
      unfold Tsfn.State.begin
      split <;> exact h
  | call => simpa using h
  | drop => exact h
  | abort =>
      simp only [Tsfn.State.abort, Tsfn.State.dropHandle]
      split
      · exact h
      · simpa using h
  | enter => exact h
  | release => simpa using h
  | deliver => exact h
  | close _ hphase => exact absurd hphase h
  | upgrade | delete | lock => simp [Tsfn.State.delete]

theorem ended_next {a : Tsfn.Act Nat} (hn : Tsfn.next t a = some t') (h : t.phase ≠ .running) :
    t'.phase ≠ .running :=
  ended_takes (Tsfn.takes_of_next hn) h

/-- What a step makes of a request. -/
inductive Moves (c : Loader.Fetch.Client) (s : State) (i : Nat) (g : Get) : Get → Prop
  | stay : Moves c s i g g
  /-- A poll before the request has been sent, or with the answer. -/
  | poll {stage : Stage} :
      g.stage = .created ∨ g.stage = .calling ∨ (∃ r, g.stage = .ready r) →
      Moves c s i g { g with stage }
  | drop : Moves c s i g { g with stage := .dropped }
  | deliver : s.tsfn.phase = .running → i ∉ s.tsfn.delivered →
      Moves c s i g
        { g with
          stage := g.stage.deliver
          handler := some (Loader.Fetch.handler c false g.url g.userAgent) }
  | event {h h' : Loader.Fetch.State} {e : Nat × Loader.Fetch.Event} :
      s.tsfn.phase = .running → g.handler = some h → Loader.Fetch.next c h e = some h' →
      Moves c s i g { g with handler := some h' }
  | settle {h : Loader.Fetch.State} {o : Except Loader.Fetch.Failure Loader.Fetch.Response} :
      s.tsfn.phase = .running → g.stage = .promised → g.handler = some h → h.outcome = some o →
      Moves c s i g { g with stage := .ready (answer o) }

theorem gets_finish {j : Nat} {x : Get} {stage : Stage} (hn : s.finish j x stage = some s') :
    s'.gets = s.gets.set j { x with stage } ∧ (s.tsfn.phase ≠ .running → s'.tsfn.phase ≠ .running) := by
  obtain ⟨t', ht', rfl⟩ := Option.map_eq_some_iff.mp hn
  exact ⟨rfl, ended_next ht'⟩

/-- A poll changes the stage of its own request only. -/
theorem gets_poll {j : Nat} {x : Get} (hn : s.poll j x = some s') :
    (x.stage = .created ∨ x.stage = .calling ∨ ∃ r, x.stage = .ready r) ∧
      (∃ stage, s'.gets = s.gets.set j { x with stage }) ∧
      (s.tsfn.phase ≠ .running → s'.tsfn.phase ≠ .running) := by
  cases hstage : x.stage with
  | created =>
      simp only [State.poll, hstage] at hn
      obtain ⟨t', ht', hn⟩ := Option.bind_eq_some_iff.mp hn
      refine ⟨by simp, ?_⟩
      split at hn
      · obtain ⟨hgets, hphase⟩ := gets_finish hn
        exact ⟨⟨_, hgets⟩, fun h => hphase (ended_next ht' h)⟩
      · obtain rfl := Option.some.inj hn
        exact ⟨⟨_, rfl⟩, ended_next ht'⟩
  | calling =>
      simp only [State.poll, hstage] at hn
      obtain ⟨t', ht', hn⟩ := Option.bind_eq_some_iff.mp hn
      refine ⟨by simp, ?_⟩
      split at hn
      · obtain rfl := Option.some.inj hn
        exact ⟨⟨_, rfl⟩, ended_next ht'⟩
      · obtain ⟨hgets, hphase⟩ := gets_finish hn
        exact ⟨⟨_, hgets⟩, fun h => hphase (ended_next ht' h)⟩
  | ready r =>
      simp only [State.poll, hstage] at hn
      obtain ⟨hgets, hphase⟩ := gets_finish hn
      exact ⟨by simp, ⟨_, hgets⟩, hphase⟩
  | waiting | promised | done | dropped => simp [State.poll, hstage] at hn

/-- A step about one request, seen from any. -/
theorem exists_set {gets : List Get} {j : Nat} {x x' : Get} {P : Get → Prop}
    (hx : gets[j]? = some x) (hg : gets[i]? = some g) (hsame : P g)
    (hset : j = i → x = g → P x') : ∃ g', (gets.set j x')[i]? = some g' ∧ P g' := by
  by_cases hji : j = i
  · subst hji
    obtain ⟨hlt, -⟩ := List.getElem?_eq_some_iff.mp hx
    exact ⟨x', List.getElem?_set_self hlt, hset rfl (Option.some.inj (hx.symm.trans hg))⟩
  · exact ⟨g, by rwa [List.getElem?_set_ne hji], hsame⟩

theorem moves_next {a : Act} (hS : Sound c s) (hg : s.gets[i]? = some g)
    (hn : next c s a = some s') :
    (∃ g', s'.gets[i]? = some g' ∧ Moves c s i g g') ∧
      (s.tsfn.phase ≠ .running → s'.tsfn.phase ≠ .running) := by
  cases a with
  | get url userAgent =>
      obtain ⟨t', ht', rfl⟩ := Option.map_eq_some_iff.mp hn
      obtain ⟨hlt, -⟩ := List.getElem?_eq_some_iff.mp hg
      split
      · exact ⟨⟨g, hg, .stay⟩, ended_next ht'⟩
      · refine ⟨⟨g, ?_, .stay⟩, ended_next ht'⟩
        show (s.gets ++ _)[i]? = some g
        rw [List.getElem?_append_left hlt, hg]
  | poll j =>
      obtain ⟨x, hx, hpoll⟩ := Option.bind_eq_some_iff.mp hn
      obtain ⟨hstage, ⟨stage, hgets⟩, hphase⟩ := gets_poll hpoll
      refine ⟨?_, hphase⟩
      rw [hgets]
      refine exists_set hx hg .stay fun _ hxg => ?_
      subst hxg
      exact .poll hstage
  | cancel j =>
      obtain ⟨x, hx, hcancel⟩ := Option.bind_eq_some_iff.mp hn
      have hfinish : s.finish j x .dropped = some s' := by
        cases hstage : x.stage <;> simp [hstage] at hcancel <;> exact hcancel
      obtain ⟨hgets, hphase⟩ := gets_finish hfinish
      refine ⟨?_, hphase⟩
      rw [hgets]
      refine exists_set hx hg .stay fun _ hxg => ?_
      subst hxg
      exact .drop
  | dispatch =>
      obtain ⟨t', ht', rfl⟩ := Option.map_eq_some_iff.mp hn
      cases Tsfn.takes_of_next ht' with
      | @deliver j queue hphase hopen hq =>
          refine ⟨?_, fun h => absurd hphase h⟩
          have hundelivered : j ∉ s.tsfn.delivered := by
            have hnodup := hS.sent
            rw [hS.held.inv.items, hq] at hnodup
            obtain ⟨-, -, hdisjoint⟩ := List.nodup_append.mp hnodup
            exact fun hd => hdisjoint j (List.mem_append_left _ hd) j List.mem_cons_self rfl
          simp only [hopen, hq, State.handle]
          cases hx : s.gets[j]? with
          | none => exact ⟨g, hg, .stay⟩
          | some x =>
              refine exists_set hx hg .stay fun hji hxg => ?_
              subst hji hxg
              exact .deliver hphase hundelivered
      | close _ hphase =>
          refine ⟨?_, fun h => absurd hphase h⟩
          split
          · rename_i hopen hq
            simp [Tsfn.next, Tsfn.State.dispatch, hphase, hopen, hq] at ht'
          · exact ⟨g, hg, .stay⟩
  | event j e =>
      simp only [next, Option.ite_none_right_eq_some] at hn
      obtain ⟨hphase, hn⟩ := hn
      obtain ⟨x, hx, hn⟩ := Option.bind_eq_some_iff.mp hn
      obtain ⟨h', hevent, rfl⟩ := Option.map_eq_some_iff.mp hn
      obtain ⟨h, hh, hevent⟩ := Option.bind_eq_some_iff.mp hevent
      refine ⟨exists_set hx hg .stay fun _ hxg => ?_, id⟩
      subst hxg
      exact .event hphase hh hevent
  | settle j =>
      simp only [next, Option.ite_none_right_eq_some] at hn
      obtain ⟨hphase, hn⟩ := hn
      obtain ⟨x, hx, hn⟩ := Option.bind_eq_some_iff.mp hn
      split at hn
      · rename_i o hstage ho
        obtain rfl := Option.some.inj hn
        obtain ⟨h, hh, ho⟩ := Option.bind_eq_some_iff.mp ho
        refine ⟨exists_set hx hg .stay fun _ hxg => ?_, id⟩
        subst hxg
        exact .settle hphase hstage hh ho
      · cases hn
  | cleanup | finalize | lock =>
      obtain ⟨t', ht', rfl⟩ := Option.map_eq_some_iff.mp hn
      exact ⟨⟨g, hg, .stay⟩, ended_next ht'⟩

/-! ### Where there is no way -/

/-- There is a way for the promise of the handler to settle. -/
def Settleable (c : Loader.Fetch.Client) (h : Loader.Fetch.State) : Prop :=
  ∃ es h', (Loader.Fetch.machine c).replay h es = some h' ∧ h'.outcome.isSome

/-- The future awaits JavaScript. -/
def Stage.Awaits (stage : Stage) : Prop := stage = .waiting ∨ stage = .promised

/-- What the request waits for can still happen. -/
def Open (c : Loader.Fetch.Client) (s : State) (g : Get) : Prop :=
  s.tsfn.phase = .running ∧ ∀ h, g.handler = some h → Settleable c h

def Stuck (c : Loader.Fetch.Client) (s : State) (i : Nat) : Prop :=
  ∃ g, s.gets[i]? = some g ∧ (g.stage = .dropped ∨ g.stage.Awaits ∧ ¬Open c s g)

theorem stuck_next {a : Act} (hS : Sound c s) (hstuck : Stuck c s i)
    (hn : next c s a = some s') : Stuck c s' i := by
  obtain ⟨g, hg, hstage⟩ := hstuck
  have hfits := hS.fits i g hg
  obtain ⟨⟨g', hg', hmoves⟩, hended⟩ := moves_next hS hg hn
  refine ⟨g', hg', ?_⟩
  cases hmoves with
  | stay =>
      refine hstage.imp_right fun ⟨hawaits, hclosed⟩ => ⟨hawaits, fun hopen => hclosed ?_⟩
      exact ⟨by_contra fun h => hended h hopen.1, hopen.2⟩
  | poll hpoll =>
      rcases hstage with hdropped | ⟨hawaits, -⟩
      · simp [hdropped] at hpoll
      · rcases hawaits with h | h <;> simp [h] at hpoll
  | drop => exact Or.inl rfl
  | deliver hrun hundelivered =>
      refine hstage.imp (fun h => by simp [h, Stage.deliver]) fun ⟨hawaits, hclosed⟩ => ?_
      refine absurd ⟨hrun, fun h hh => ?_⟩ hclosed
      exact absurd (hfits.handler.mp (by simp [hh])) hundelivered
  | @event h h' e hrun hh hevent =>
      refine hstage.imp_right fun ⟨hawaits, hclosed⟩ => ⟨hawaits, fun hopen => hclosed ⟨hrun, ?_⟩⟩
      intro x hx
      obtain rfl := Option.some.inj (hh.symm.trans hx)
      obtain ⟨es, z, hrest, hz⟩ := hopen.2 h' rfl
      exact ⟨e :: es, z, (Machine.replay_cons _).mpr ⟨h', hevent, hrest⟩, hz⟩
  | @settle h o hrun hpromised hh ho =>
      rcases hstage with hdropped | ⟨-, hclosed⟩
      · simp [hpromised] at hdropped
      · refine absurd ⟨hrun, fun x hx => ?_⟩ hclosed
        obtain rfl := Option.some.inj (hh.symm.trans hx)
        exact ⟨[], h, rfl, by simp [ho]⟩

theorem stuck_replay {as : List Act} (hS : Sound c s) (hstuck : Stuck c s i)
    (hrun : (client c).replay s as = some s') : Stuck c s' i := by
  induction as generalizing s with
  | nil =>
      obtain rfl : s = s' := by simpa using hrun
      exact hstuck
  | cons a as ih =>
      obtain ⟨m, hm, hrest⟩ := (Machine.replay_cons _).mp hrun
      exact ih (sound_next hS hm) (stuck_next hS hstuck hm) hrest

/-! ### Where there is one -/

/-- Some run goes on to the answer of the request. -/
def Answerable (c : Loader.Fetch.Client) (s : State) (i : Nat) : Prop :=
  ∃ as s' g r, (client c).replay s as = some s' ∧ s'.gets[i]? = some g ∧ g.stage = .done r

theorem Answerable.of_next {a : Act} (hn : next c s a = some s') (h : Answerable c s' i) :
    Answerable c s i := by
  obtain ⟨as, s'', g, r, hrun, hg, hstage⟩ := h
  exact ⟨a :: as, s'', g, r, (Machine.replay_cons _).mpr ⟨s', hn, hrun⟩, hg, hstage⟩

/-- A clone that is dropped is not the last handle. -/
theorem Sound.exists_finish (hS : Sound c s) (hg : s.gets[i]? = some g)
    (hlive : g.stage.live = true) (hhandles : t.handles = s.tsfn.handles) (stage : Stage) :
    ∃ t', State.finish ⟨t, s.gets⟩ i g stage =
      some ⟨t', s.gets.set i { g with stage }⟩ := by
  have hcount : 0 < s.gets.countP (·.stage.live) :=
    List.countP_pos_iff.mpr ⟨g, List.mem_of_getElem? hg, hlive⟩
  have hmany : 1 < t.handles := by
    rw [hhandles, hS.handles]
    omega
  refine ⟨t.dropHandle, ?_⟩
  simp [State.finish, Tsfn.next, hmany, State.setStage]

theorem answerable_of_finish {r : Answer} {a : Act} (hS : Sound c s) (hg : s.gets[i]? = some g)
    (hlive : g.stage.live = true) (hhandles : t.handles = s.tsfn.handles)
    (hn : next c s a = State.finish ⟨t, s.gets⟩ i g (.done r)) : Answerable c s i := by
  obtain ⟨t', ht'⟩ := hS.exists_finish hg hlive hhandles (.done r)
  rw [ht'] at hn
  obtain ⟨hlt, -⟩ := List.getElem?_eq_some_iff.mp hg
  exact .of_next hn ⟨[], _, _, r, rfl, List.getElem?_set_self hlt, rfl⟩

theorem answerable_ready {r : Answer} (hS : Sound c s) (hg : s.gets[i]? = some g)
    (hstage : g.stage = .ready r) : Answerable c s i := by
  have hn : next c s (.poll i) = State.finish ⟨s.tsfn, s.gets⟩ i g (.done r) := by
    simp only [next, hg, Option.bind_some, State.poll, hstage]
  exact answerable_of_finish hS hg (by simp [hstage, Stage.live]) rfl hn

/-- The events of the handler, one after the other, and then the end of the promise. -/
theorem answerable_promised {h h' : Loader.Fetch.State} {es : List (Nat × Loader.Fetch.Event)}
    (hS : Sound c s) (hg : s.gets[i]? = some g) (hstage : g.stage = .promised)
    (hphase : s.tsfn.phase = .running) (hh : g.handler = some h)
    (hrun : (Loader.Fetch.machine c).replay h es = some h') (ho : h'.outcome.isSome) :
    Answerable c s i := by
  obtain ⟨hlt, -⟩ := List.getElem?_eq_some_iff.mp hg
  induction es generalizing s g h with
  | nil =>
      obtain rfl : h = h' := by simpa using hrun
      obtain ⟨o, ho⟩ := Option.isSome_iff_exists.mp ho
      have hn : next c s (.settle i) = some (s.setStage i g (.ready (answer o))) := by
        simp [next, hphase, hg, hstage, hh, ho]
      exact .of_next hn (answerable_ready (sound_next hS hn) (List.getElem?_set_self hlt) rfl)
  | cons e es ih =>
      obtain ⟨m, hm, hrest⟩ := (Machine.replay_cons _).mp hrun
      have hevent : Loader.Fetch.next c h e = some m := hm
      have hn : next c s (.event i e) =
          some { s with gets := s.gets.set i { g with handler := some m } } := by
        simp [next, hphase, hg, hh, hevent]
      refine .of_next hn (ih (sound_next hS hn) (List.getElem?_set_self hlt) hstage hphase rfl
        hrest ?_)
      simpa using hlt

/-- A request that has just been issued may fail. -/
theorem settleable_handler (url : String) (userAgent : Option String) :
    Settleable c (Loader.Fetch.handler c false url userAgent) := by
  cases hparse : c.parse url with
  | none =>
      refine ⟨[], _, rfl, ?_⟩
      simp [Loader.Fetch.handler, Loader.Fetch.fetchOnce, hparse, Loader.Fetch.State.outcome,
        Promise.outcome]
  | some u =>
      by_cases haccepts : c.accepts (u.options userAgent) = true
      · have hstart : Loader.Fetch.handler c false url userAgent =
            ⟨[⟨url, 5, .pending, none, .ok ⟨none, [], none⟩⟩], userAgent, false⟩ := by
          simp [Loader.Fetch.handler, Loader.Fetch.fetchOnce, hparse, haccepts]
        rw [hstart]
        exact ⟨[(0, .requestError)], _, rfl, rfl⟩
      · refine ⟨[], _, rfl, ?_⟩
        simp [Loader.Fetch.handler, Loader.Fetch.fetchOnce, hparse, haccepts,
          Loader.Fetch.State.outcome, Promise.outcome]

/-- The queue is looked after, up to this request. -/
theorem answerable_waiting {before after : List Nat} (hS : Sound c s) (hg : s.gets[i]? = some g)
    (hstage : g.stage = .waiting) (hphase : s.tsfn.phase = .running)
    (hqueue : s.tsfn.queue = before ++ i :: after) : Answerable c s i := by
  have hopen : s.tsfn.closing = false := hS.held.running.mp hphase
  induction before generalizing s with
  | nil =>
      have hn : next c s .dispatch = some (State.handle c { s with tsfn :=
          { s.tsfn with queue := after, delivered := s.tsfn.delivered ++ [i] } } i) := by
        simp [next, Tsfn.next, Tsfn.State.dispatch, hphase, hopen, hqueue]
      simp only [State.handle, hg, hstage, Stage.deliver] at hn
      obtain ⟨hlt, -⟩ := List.getElem?_eq_some_iff.mp hg
      obtain ⟨es, h, hrun, ho⟩ := settleable_handler (c := c) g.url g.userAgent
      exact .of_next hn (answerable_promised (sound_next hS hn) (List.getElem?_set_self hlt) rfl
        hphase rfl hrun ho)
  | cons j before ih =>
      have hn : next c s .dispatch = some (State.handle c { s with tsfn :=
          { s.tsfn with
            queue := before ++ i :: after
            delivered := s.tsfn.delivered ++ [j] } } j) := by
        simp [next, Tsfn.next, Tsfn.State.dispatch, hphase, hopen, hqueue]
      have hji : j ≠ i := by
        have hnodup := hS.sent
        rw [hS.held.inv.items, hqueue] at hnodup
        have hfront := (List.nodup_append.mp hnodup).2.1
        rintro rfl
        simp at hfront
      exact .of_next hn (ih (sound_next hS hn) (by rwa [handle_getElem?_ne c _ hji])
        (by simpa using hphase) (by simp) (by simpa using hopen))

/-- The engine takes the request, or says that it is closing. -/
theorem answerable_calling (hS : Sound c s) (hg : s.gets[i]? = some g)
    (hstage : g.stage = .calling) : Answerable c s i := by
  obtain ⟨hlt, -⟩ := List.getElem?_eq_some_iff.mp hg
  have hi : i ∈ s.tsfn.readers := (hS.fits i g hg).calling.mpr hstage
  have hphase : s.tsfn.phase ≠ .deleted := (hS.held.inv.readers (List.ne_nil_of_mem hi)).2.2
  let t := Tsfn.State.napi { s.tsfn with readers := s.tsfn.readers.erase i } (.call i)
  by_cases hok : s.tsfn.status (.call i) = some .ok
  · have hn : next c s (.poll i) = some (State.setStage ⟨t, s.gets⟩ i g .waiting) := by
      simp [next, hg, State.poll, hstage, Tsfn.next, hi, hok, t]
    have hopen : s.tsfn.closing = false := by
      cases hclosing : s.tsfn.closing with
      | false => rfl
      | true =>
          simp only [Tsfn.State.status, hphase, hclosing, if_true, if_false] at hok
          split at hok <;> cases hok
    have hrun : s.tsfn.phase = .running := hS.held.running.mpr hopen
    have hqueue : t.queue = s.tsfn.queue ++ i :: [] := by
      simp [t, Tsfn.State.napi, Tsfn.State.status, hrun, hopen]
    exact .of_next hn (answerable_waiting (sound_next hS hn) (List.getElem?_set_self hlt) rfl
      (by simpa [State.setStage, t] using hrun) hqueue)
  · have hn : next c s (.poll i) = State.finish ⟨t, s.gets⟩ i g
        (.done (.error (.call (s.tsfn.status (.call i))))) := by
      simp [next, hg, State.poll, hstage, Tsfn.next, hi, hok, t]
    exact answerable_of_finish hS hg (by simp [hstage, Stage.live]) (by simp [t]) hn

theorem answerable_created (hS : Sound c s) (hg : s.gets[i]? = some g)
    (hstage : g.stage = .created) : Answerable c s i := by
  obtain ⟨hlt, -⟩ := List.getElem?_eq_some_iff.mp hg
  have hpos := hS.pos
  by_cases hflag : s.tsfn.aborted = true
  · have hn : next c s (.poll i) = State.finish ⟨s.tsfn.begin i, s.gets⟩ i g
        (.done (.error (.call (some .closing)))) := by
      simp [next, hg, State.poll, hstage, Tsfn.next, hpos, hflag]
    exact answerable_of_finish hS hg (by simp [hstage, Stage.live])
      (by simp [Tsfn.State.begin, hflag]) hn
  · have hn : next c s (.poll i) = some (State.setStage ⟨s.tsfn.begin i, s.gets⟩ i g .calling) := by
      simp [next, hg, State.poll, hstage, Tsfn.next, hpos, hflag]
    exact .of_next hn (answerable_calling (sound_next hS hn) (List.getElem?_set_self hlt) rfl)

/-- **A request can be answered**, as long as its future has not been dropped, iff the future
awaits nothing of JavaScript, or else the environment has not ended and the promise of the
handler can still settle. -/
theorem answerable_iff (h : (client c).Reachable s) (hg : s.gets[i]? = some g) :
    Answerable c s i ↔ g.stage ≠ .dropped ∧ (g.stage.Awaits → Open c s g) := by
  have hS := sound_reachable h
  constructor
  · rintro ⟨as, s', g', r, hrun, hg', hdone⟩
    by_contra hnot
    have hstuck : Stuck c s i := by
      refine ⟨g, hg, ?_⟩
      by_cases hdropped : g.stage = .dropped
      · exact Or.inl hdropped
      · exact Or.inr (Classical.not_imp.mp fun hopen => hnot ⟨hdropped, hopen⟩)
    obtain ⟨x, hx, hstage⟩ := stuck_replay hS hstuck hrun
    obtain rfl := Option.some.inj (hg'.symm.trans hx)
    rcases hstage with hstage | ⟨hstage | hstage, -⟩ <;> simp [hstage] at hdone
  · rintro ⟨hdropped, hopen⟩
    cases hstage : g.stage with
    | created => exact answerable_created hS hg hstage
    | calling => exact answerable_calling hS hg hstage
    | waiting =>
        obtain ⟨hphase, -⟩ := hopen (Or.inl hstage)
        obtain ⟨hsent, hundelivered⟩ := (hS.fits i g hg).waiting hstage
        have hqueued : i ∈ s.tsfn.queue := by
          have hlost := hS.held.inv.lost (by simp [hphase])
          simpa [hS.held.inv.items, hundelivered, hlost] using hsent
        obtain ⟨before, after, hqueue⟩ := List.append_of_mem hqueued
        exact answerable_waiting hS hg hstage hphase hqueue
    | promised =>
        obtain ⟨hphase, hsettles⟩ := hopen (Or.inr hstage)
        have hfits := hS.fits i g hg
        obtain ⟨x, hx⟩ := Option.isSome_iff_exists.mp (hfits.handler.mpr (hfits.promised hstage))
        obtain ⟨es, x', hrun, ho⟩ := hsettles x hx
        exact answerable_promised hS hg hstage hphase hx hrun ho
    | ready r => exact answerable_ready hS hg hstage
    | done r => exact ⟨[], s, g, r, rfl, hg, hstage⟩
    | dropped => exact absurd hstage hdropped

/-- A request is in the queue when the environment ends. -/
theorem answerable_iff_queued :
    ∃ s, (client Loader.Fetch.clientOf).replay .init
        [.get "https://a/x" none, .poll 0, .poll 0, .cleanup] = some s ∧
      ¬Answerable Loader.Fetch.clientOf s 0 := by
  have hstart : (client Loader.Fetch.clientOf).Reachable .init := .start rfl
  have hrun : ∃ s g, (client Loader.Fetch.clientOf).replay .init
      [.get "https://a/x" none, .poll 0, .poll 0, .cleanup] = some s ∧
        s.gets[0]? = some g ∧ g.stage = .waiting ∧ s.tsfn.phase = .shut :=
    ⟨_, _, rfl, rfl, rfl, rfl⟩
  obtain ⟨s, g, hs, hg, hstage, hphase⟩ := hrun
  refine ⟨s, hs, fun h => ?_⟩
  have hopen := ((answerable_iff (Machine.Reachable.replay _ hstart hs) hg).mp h).2 (Or.inl hstage)
  simp [hopen.1] at hphase

end TurbopackWasi.Fetch
