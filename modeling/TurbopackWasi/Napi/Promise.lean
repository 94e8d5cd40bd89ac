import TurbopackWasi.Lib.Machine
import TurbopackWasi.Lib.Promise

/-!
# TurbopackWasi.Napi.Promise

**Awaiting a promise of JavaScript in Rust.** `Promise::from_napi_value` calls
`promise.then(then_callback).catch(catch_callback)`. Both callbacks share one box, with the
sender of a channel and the flag `aborted`, and each takes it back from the same raw pointer.
The future holds the receiver, and sets the flag when it is dropped. A result goes through the
channel as a raw pointer, which only the poll that receives it makes a box again.

JavaScript runs on one thread and the future on any; the drop of the future is two steps. The
promise is one of the language, which calls its reactions once. What `T::from_napi_value`
makes of a value is a parameter. Besides its result it may leave an exception pending, with
which the callback then ends.

`clean_iff` says which runs free the box no more than once, and `delivered` what becomes of the
result in them.
-/

namespace TurbopackWasi.Napi.Promise

open Lib

variable {V T E F : Type}

/-- What `T::from_napi_value` comes to. -/
structure Converted (F T E : Type) where
  result : Except F T
  /-- The exception that it leaves pending. -/
  pending : Option E

/-- Why the future fails. -/
inductive Cause (F E : Type)
  | conversion (f : F)
  | rejected (e : E)
  /-- The sender is gone. -/
  | closed
  deriving DecidableEq

structure State (V T E F : Type) where
  promise : Lib.Promise E V
  /-- The reaction of the promise has been called. -/
  reacted : Bool
  /-- The promise that `then` has returned. -/
  derived : Lib.Promise E Unit
  caught : Bool
  /-- A callback has found the flag unset, and goes on with this. -/
  running : Option (Except E V)
  /-- How often the box was freed. -/
  frees : Nat
  /-- The sender was dropped without a result. -/
  closed : Bool
  /-- What is in the channel. -/
  sent : Option (Except (Cause F E) T)
  /-- The results that nobody frees. -/
  leaked : List (Except (Cause F E) T)
  /-- What a poll has received. -/
  got : Option (Except (Cause F E) T)
  aborted : Bool
  receiver : Bool

/-- `from_napi_value` -/
def State.init : State V T E F where
  promise := .pending
  reacted := false
  derived := .pending
  caught := false
  running := none
  frees := 0
  closed := false
  sent := none
  leaked := []
  got := none
  aborted := false
  receiver := true

/-- `sender.send` -/
def State.send (s : State V T E F) (r : Except (Cause F E) T) : State V T E F :=
  if s.receiver then { s with sent := some r } else { s with leaked := s.leaked ++ [r] }

/-- A callback, up to its look at the flag. -/
def State.enter (s : State V T E F) (x : Except E V) : State V T E F :=
  let t := { s with frees := s.frees + 1 }
  -- what a second callback finds in the box is no sender any more
  if s.frees = 0 then
    if s.aborted then { t with closed := true, derived := s.derived.settle (.fulfilled ()) }
    else { t with running := some x }
  else t

/-! ### Steps -/

inductive Act (V E : Type)
  | resolve (v : V)
  | reject (e : E)
  /-- The reaction of the promise, which calls `then_callback` if it is fulfilled. -/
  | onThen
  /-- The reaction of the derived promise, which calls `catch_callback` if it is rejected. -/
  | onCatch
  /-- The rest of a callback. -/
  | send
  | poll
  /-- The drop of the future sets the flag. -/
  | abort
  /-- The drop of its receiver. -/
  | close

/-- The rest of `then_callback` and of `catch_callback`. -/
def State.finish (convert : V → Converted F T E) (s : State V T E F) :
    Except E V → State V T E F
  | .ok v =>
      let derived : Lib.Promise E Unit :=
        match (convert v).pending with
        | some e => .rejected e
        | none => .fulfilled ()
      { s with running := none, derived }.send ((convert v).result.mapError .conversion)
  | .error e => { s with running := none }.send (.error (.rejected e))

def next (convert : V → Converted F T E) (s : State V T E F) : Act V E → Option (State V T E F)
  | .resolve v => some { s with promise := s.promise.settle (.fulfilled v) }
  | .reject e => some { s with promise := s.promise.settle (.rejected e) }
  | .onThen =>
      if s.reacted ∨ s.running.isSome then none
      else
        match s.promise with
        | .fulfilled v => some ({ s with reacted := true }.enter (.ok v))
        | .rejected e => some { s with reacted := true, derived := .rejected e }
        | _ => none
  | .onCatch =>
      if s.caught ∨ s.running.isSome then none
      else
        match s.derived with
        | .rejected e => some ({ s with caught := true }.enter (.error e))
        | _ => none
  | .send => s.running.map (s.finish convert)
  | .poll =>
      if s.aborted ∨ s.got.isSome then none
      else
        match s.sent with
        | some r => some { s with got := some r, sent := none }
        | none => if s.closed then some { s with got := some (.error .closed) } else none
  | .abort => if s.aborted then none else some { s with aborted := true }
  | .close =>
      if s.aborted ∧ s.receiver then
        some { s with receiver := false, leaked := s.leaked ++ s.sent.toList, sent := none }
      else none

/-- One promise, and the future that awaits it. -/
def awaited (convert : V → Converted F T E) : Machine (State V T E F) (Act V E) :=
  ⟨(· = .init), next convert⟩

variable {convert : V → Converted F T E} {s s' : State V T E F} {x : Except E V}

@[simp] theorem send_frees (r : Except (Cause F E) T) : (s.send r).frees = s.frees := by
  unfold State.send
  split <;> rfl

@[simp] theorem send_caught (r : Except (Cause F E) T) : (s.send r).caught = s.caught := by
  unfold State.send
  split <;> rfl

@[simp] theorem send_reacted (r : Except (Cause F E) T) : (s.send r).reacted = s.reacted := by
  unfold State.send
  split <;> rfl

@[simp] theorem send_derived (r : Except (Cause F E) T) : (s.send r).derived = s.derived := by
  unfold State.send
  split <;> rfl

@[simp] theorem send_running (r : Except (Cause F E) T) : (s.send r).running = s.running := by
  unfold State.send
  split <;> rfl

/-! ### What one step does -/

/-- A callback begins: alone with the box it goes on or ends, and the second one has nothing to
go on with. -/
inductive Enters (s : State V T E F) (x : Except E V) : State V T E F → Prop
  | ends : s.frees = 0 → s.aborted = true → Enters s x
      { s with frees := 1, closed := true, derived := s.derived.settle (.fulfilled ()) }
  | goes : s.frees = 0 → s.aborted = false → Enters s x { s with frees := 1, running := some x }
  | again : s.frees ≠ 0 → Enters s x { s with frees := s.frees + 1 }

theorem enters (s : State V T E F) (x : Except E V) : Enters s x (s.enter x) := by
  unfold State.enter
  by_cases hfirst : s.frees = 0
  · cases hflag : s.aborted with
    | true => simpa [hfirst, hflag] using Enters.ends (x := x) hfirst hflag
    | false => simpa [hfirst, hflag] using Enters.goes (x := x) hfirst hflag
  · simpa [hfirst] using Enters.again hfirst

inductive Takes (convert : V → Converted F T E) (s : State V T E F) :
    Act V E → State V T E F → Prop
  | resolve (v : V) :
      Takes convert s (.resolve v) { s with promise := s.promise.settle (.fulfilled v) }
  | reject (e : E) :
      Takes convert s (.reject e) { s with promise := s.promise.settle (.rejected e) }
  | fulfilled {v : V} {t : State V T E F} :
      s.reacted = false → s.running = none → s.promise = .fulfilled v →
      Enters { s with reacted := true } (.ok v) t → Takes convert s .onThen t
  | rejected {e : E} : s.reacted = false → s.running = none → s.promise = .rejected e →
      Takes convert s .onThen { s with reacted := true, derived := .rejected e }
  | caught {e : E} {t : State V T E F} :
      s.caught = false → s.running = none → s.derived = .rejected e →
      Enters { s with caught := true } (.error e) t → Takes convert s .onCatch t
  | send {x : Except E V} : s.running = some x → Takes convert s .send (s.finish convert x)
  | poll {r : Except (Cause F E) T} : s.aborted = false → s.got = none → s.sent = some r →
      Takes convert s .poll { s with got := some r, sent := none }
  | gone : s.aborted = false → s.got = none → s.closed = true →
      Takes convert s .poll { s with got := some (.error .closed) }
  | abort : s.aborted = false → Takes convert s .abort { s with aborted := true }
  | close : s.aborted = true → s.receiver = true → Takes convert s .close
      { s with receiver := false, leaked := s.leaked ++ s.sent.toList, sent := none }

theorem takes_of_next {a : Act V E} (h : next convert s a = some s') : Takes convert s a s' := by
  cases a with
  | resolve v =>
      obtain rfl := Option.some.inj h
      exact .resolve v
  | reject e =>
      obtain rfl := Option.some.inj h
      exact .reject e
  | onThen =>
      simp only [next, Option.ite_none_left_eq_some, not_or, Bool.not_eq_true,
        Option.isSome_eq_false_iff, Option.isNone_iff_eq_none] at h
      obtain ⟨⟨hreacted, hrunning⟩, h⟩ := h
      split at h
      · rename_i v hp
        obtain rfl := Option.some.inj h
        exact .fulfilled hreacted hrunning hp (enters _ _)
      · rename_i e hp
        obtain rfl := Option.some.inj h
        exact .rejected hreacted hrunning hp
      · cases h
  | onCatch =>
      simp only [next, Option.ite_none_left_eq_some, not_or, Bool.not_eq_true,
        Option.isSome_eq_false_iff, Option.isNone_iff_eq_none] at h
      obtain ⟨⟨hcaught, hrunning⟩, h⟩ := h
      split at h
      · rename_i e hp
        obtain rfl := Option.some.inj h
        exact .caught hcaught hrunning hp (enters _ _)
      · cases h
  | send =>
      obtain ⟨x, hx, rfl⟩ := Option.map_eq_some_iff.mp h
      exact .send hx
  | poll =>
      simp only [next, Option.ite_none_left_eq_some, not_or, Bool.not_eq_true,
        Option.isSome_eq_false_iff, Option.isNone_iff_eq_none] at h
      obtain ⟨⟨hflag, hgot⟩, h⟩ := h
      split at h
      · rename_i r hr
        obtain rfl := Option.some.inj h
        exact .poll hflag hgot hr
      · obtain ⟨hclosed, h⟩ := Option.ite_none_right_eq_some.mp h
        obtain rfl := Option.some.inj h
        exact .gone hflag hgot hclosed
  | abort =>
      simp only [next, Option.ite_none_left_eq_some, Bool.not_eq_true] at h
      obtain ⟨hflag, h⟩ := h
      obtain rfl := Option.some.inj h
      exact .abort hflag
  | close =>
      simp only [next, Option.ite_none_right_eq_some] at h
      obtain ⟨⟨hflag, hreceiver⟩, h⟩ := h
      obtain rfl := Option.some.inj h
      exact .close hflag hreceiver

/-! ### The box -/

/-- JavaScript calls the callbacks one after the other. -/
structure Inv (s : State V T E F) : Prop where
  fresh : s.reacted = false →
    s.frees = 0 ∧ s.caught = false ∧ s.derived = .pending ∧ s.running = none
  value : ∀ v, s.running = some (.ok v) →
    s.frees = 1 ∧ s.caught = false ∧ s.derived = .pending
  reason : ∀ e, s.running = some (.error e) → s.caught = true

theorem inv_init : Inv (State.init : State V T E F) where
  fresh := fun _ => ⟨rfl, rfl, rfl, rfl⟩
  value := by simp [State.init]
  reason := by simp [State.init]

theorem Inv.reacted (hI : Inv s) (h : s.derived ≠ .pending ∨ s.running ≠ none) :
    s.reacted = true := by
  cases hreacted : s.reacted with
  | true => rfl
  | false =>
      obtain ⟨-, -, hderived, hrunning⟩ := hI.fresh hreacted
      simp [hderived, hrunning] at h

/-- The conversion of a value leaves no exception behind. -/
def Clean (convert : V → Converted F T E) (s : State V T E F) : Act V E → Prop
  | .send => ∀ v, s.running = some (.ok v) → (convert v).pending = none
  | _ => True

/-- The box is free, and `catch_callback` will still be called. -/
def Doomed (s : State V T E F) : Prop :=
  s.frees = 1 ∧ s.caught = false ∧ ∃ e, s.derived = .rejected e

theorem inv_takes {a : Act V E} (hI : Inv s) (ht : Takes convert s a s') : Inv s' := by
  cases ht with
  | resolve v | reject v | poll | gone | abort | close => exact ⟨hI.fresh, hI.value, hI.reason⟩
  | fulfilled hreacted hrunning hp he =>
      obtain ⟨hfrees, hcaught, hderived, -⟩ := hI.fresh hreacted
      cases he with
      | ends => exact ⟨by simp, by simp [hrunning], by simp [hrunning]⟩
      | goes => exact ⟨by simp, by simp [hcaught, hderived], by simp⟩
      | again hagain => exact absurd hfrees hagain
  | rejected hreacted hrunning hp =>
      exact ⟨by simp, by simp [hrunning], by simp [hrunning]⟩
  | caught hcaught hrunning hp he =>
      have hreacted := hI.reacted (by simp [hp])
      cases he with
      | ends => exact ⟨by simp [hreacted], by simp [hrunning], by simp [hrunning]⟩
      | goes => exact ⟨by simp [hreacted], by simp, by simp⟩
      | again => exact ⟨by simp [hreacted], by simp [hrunning], by simp [hrunning]⟩
  | @send x hx =>
      have hreacted := hI.reacted (by simp [hx])
      cases x <;> exact ⟨by simp [State.finish, hreacted], by simp [State.finish],
        by simp [State.finish]⟩

/-- The box was freed twice. -/
def Twice (s : State V T E F) : Prop := 2 ≤ s.frees

theorem bad_takes {a : Act V E} (hI : Inv s) (ht : Takes convert s a s') :
    Twice s' ∨ Doomed s' ↔ (Twice s ∨ Doomed s) ∨ ¬Clean convert s a := by
  cases ht with
  | resolve | reject | poll | gone | abort | close => simp [Twice, Doomed, Clean]
  | fulfilled hreacted hrunning hp he =>
      obtain ⟨hfrees, hcaught, hderived, -⟩ := hI.fresh hreacted
      cases he with
      | ends => simp [Twice, Doomed, Clean, hfrees, hderived]
      | goes => simp [Twice, Doomed, Clean, hfrees, hderived]
      | again hagain => exact absurd hfrees hagain
  | rejected hreacted hrunning hp =>
      obtain ⟨hfrees, -⟩ := hI.fresh hreacted
      simp [Twice, Doomed, Clean, hfrees]
  | caught hcaught hrunning hp he =>
      cases he with
      | ends hfrees | goes hfrees =>
          have hfrees : s.frees = 0 := hfrees
          simp [Twice, Doomed, Clean, hfrees]
      | again hfrees =>
          -- freed before, with the reaction still to come
          have hfrees : s.frees ≠ 0 := hfrees
          have hbad : Twice s ∨ Doomed s := by
            by_cases hone : s.frees = 1
            · exact Or.inr ⟨hone, hcaught, _, hp⟩
            · exact Or.inl (show 2 ≤ s.frees by omega)
          have hbad' : 2 ≤ s.frees + 1 := by omega
          exact iff_of_true (Or.inl hbad') (Or.inl hbad)
  | @send x hx =>
      cases x with
      | ok v =>
          obtain ⟨hfrees, hcaught, hderived⟩ := hI.value v hx
          have hclean : Clean convert s .send ↔ (convert v).pending = none := by
            simp [Clean, hx]
          rw [hclean]
          cases hpending : (convert v).pending <;>
            simp [Twice, Doomed, State.finish, hfrees, hcaught, hderived, hpending]
      | error e =>
          have hcaught := hI.reason e hx
          simp [Twice, Doomed, Clean, State.finish, hcaught, hx]

/-- The rejection of the derived promise calls the other callback. -/
theorem Doomed.twice (hI : Inv s) (hd : Doomed s) : ∃ bs t,
    (awaited convert).replay s bs = some t ∧ (awaited convert).EachStep (Clean convert) s bs ∧
      Twice t := by
  obtain ⟨hfrees, hcaught, e, hderived⟩ := hd
  have hrunning : s.running = none := by
    rcases hx : s.running with - | e | v
    · rfl
    · simp [hI.reason e hx] at hcaught
    · simp [(hI.value v hx).2.2] at hderived
  have hn : next convert s .onCatch = some ({ s with caught := true }.enter (.error e)) := by
    simp [next, hcaught, hrunning, hderived]
  refine ⟨[.onCatch], _, (Machine.replay_cons _).mpr ⟨_, hn, rfl⟩, ⟨trivial, fun _ _ => trivial⟩, ?_⟩
  simp [Twice, State.enter, hfrees]

/-- **The box of the callbacks.** However a run goes on with clean conversions: the box is freed
once at most, exactly if all conversions so far were clean. -/
theorem clean_iff {as : List (Act V E)} (h : (awaited convert).replay .init as = some s) :
    (awaited convert).EachStep (Clean convert) .init as ↔
      ∀ bs t, (awaited convert).replay s bs = some t →
        (awaited convert).EachStep (Clean convert) s bs → ¬Twice t := by
  refine Machine.eachStep_iff_continues (M := awaited convert) (I := Inv)
    (B := fun s => Twice s ∨ Doomed s) (fun hI hn => inv_takes hI (takes_of_next hn))
    (fun hI hn => bad_takes hI (takes_of_next hn)) (fun _ => Or.inl) ?_ inv_init ?_ h
  · intro s hI hbad
    rcases hbad with htwice | hdoomed
    · exact ⟨[], s, rfl, trivial, htwice⟩
    · exact hdoomed.twice hI
  · simp [Twice, Doomed, State.init]

/-- The conversion of a getter that throws. -/
theorem clean_iff_throws :
    ∃ s : State Unit Unit Unit Unit, (awaited fun _ => ⟨.error (), some ()⟩).replay .init
        [.resolve (), .onThen, .send] = some s ∧
      ∃ bs t, (awaited fun _ => ⟨.error (), some ()⟩).replay s bs = some t ∧ Twice t := by
  have hrun : ∃ s : State Unit Unit Unit Unit, (awaited fun _ => ⟨.error (), some ()⟩).replay .init
      [.resolve (), .onThen, .send] = some s := ⟨_, rfl⟩
  obtain ⟨s, hs⟩ := hrun
  refine ⟨s, hs, by_contra fun hsafe => ?_⟩
  have hclean := (clean_iff hs).mpr fun bs t hbs _ htwice => hsafe ⟨bs, t, hbs, htwice⟩
  have hpending := ((hclean.2 _ rfl).2 _ rfl).1 () rfl
  cases hpending

/-! ### The result -/

/-- The result is that of the promise. -/
def Right (convert : V → Converted F T E) (p : Lib.Promise E V) (r : Except (Cause F E) T) :
    Prop :=
  (∃ v, p = .fulfilled v ∧ r = (convert v).result.mapError .conversion) ∨
    ∃ e, p = .rejected e ∧ r = .error (.rejected e)

theorem Right.settle {p : Lib.Promise E V} {r : Except (Cause F E) T} (h : Right convert p r)
    (q : Lib.Promise E V) : Right convert (p.settle q) r := by
  rcases h with ⟨v, rfl, hr⟩ | ⟨e, rfl, hr⟩
  · exact Or.inl ⟨v, rfl, hr⟩
  · exact Or.inr ⟨e, rfl, hr⟩

/-- A callback has sent its result. -/
def Made (s : State V T E F) : Prop := 0 < s.frees ∧ s.closed = false ∧ s.running = none

/-- All results there are, wherever they are. -/
def State.results (s : State V T E F) : List (Except (Cause F E) T) :=
  s.leaked ++ s.sent.toList ++ s.got.toList

structure Accounted (convert : V → Converted F T E) (s : State V T E F) : Prop where
  running : ∀ x, s.running = some x →
    0 < s.frees ∧ s.closed = false ∧ s.promise = .ofOutcome (some x)
  derived : s.frees = 0 → ∀ e, s.derived = .rejected e → s.promise = .rejected e
  closed : s.closed = true → s.aborted = true ∧ 0 < s.frees
  receiver : s.receiver = false → s.sent = none
  leaked : s.leaked ≠ [] → s.receiver = false
  made : Made s → ∃ r, s.results = [r] ∧ Right convert s.promise r
  unmade : ¬Made s → s.results = []

theorem accounted_init : Accounted convert .init where
  running := by simp [State.init]
  derived := by simp [State.init]
  closed := by simp [State.init]
  receiver := by simp [State.init]
  leaked := by simp [State.init]
  made := by simp [Made, State.init]
  unmade := fun _ => rfl

/-- The first callback begins. -/
theorem Accounted.enter {t : State V T E F} {reacted caught : Bool} (hA : Accounted convert s)
    (hfrees : s.frees = 0) (hx : s.promise = .ofOutcome (some x))
    (he : Enters { s with reacted, caught } x t) : Accounted convert t := by
  have hnone : s.results = [] := hA.unmade fun hmade => absurd hfrees (Nat.ne_of_gt hmade.1)
  have hopen : s.closed = false := by
    cases hc : s.closed with
    | false => rfl
    | true => exact absurd hfrees (Nat.ne_of_gt (hA.closed hc).2)
  have hidle : s.running = none := by
    cases hr : s.running with
    | none => rfl
    | some y => exact absurd hfrees (Nat.ne_of_gt (hA.running y hr).1)
  cases he with
  | ends _ hflag =>
      exact ⟨by simp [hidle], by simp, fun _ => ⟨hflag, Nat.one_pos⟩, hA.receiver, hA.leaked,
        by simp [Made], fun _ => hnone⟩
  | goes =>
      refine ⟨fun y hy => ?_, by simp, by simp [hopen], hA.receiver, hA.leaked, by simp [Made],
        fun _ => hnone⟩
      obtain rfl := Option.some.inj hy
      exact ⟨Nat.one_pos, hopen, hx⟩
  | again hagain => exact absurd hfrees hagain

/-- A callback ends with its result. -/
theorem Accounted.send {derived : Lib.Promise E Unit} {r : Except (Cause F E) T}
    (hA : Accounted convert s) (hx : s.running = some x) (hr : Right convert s.promise r) :
    Accounted convert ({ s with running := none, derived }.send r) := by
  obtain ⟨hpos, hopen, -⟩ := hA.running x hx
  have hnone : s.results = [] := hA.unmade fun hmade => by
    have hidle := hmade.2.2
    simp [hx] at hidle
  simp only [State.results, List.append_eq_nil_iff, Option.toList_eq_nil_iff] at hnone
  obtain ⟨⟨hnotleaked, hnotsent⟩, hnotgot⟩ := hnone
  have hzero : s.frees ≠ 0 := Nat.ne_of_gt hpos
  cases hreceiver : s.receiver with
  | true =>
      simp only [State.send, if_true]
      refine ⟨by simp, fun h => absurd h hzero, by simp [hopen], by simp, by simp [hnotleaked],
        fun _ => ⟨r, ?_, hr⟩, fun h => (h ⟨hpos, hopen, rfl⟩).elim⟩
      simp [State.results, hnotleaked, hnotgot]
  | false =>
      simp only [State.send, if_false, Bool.false_eq_true]
      refine ⟨by simp, fun h => absurd h hzero, by simp [hopen], fun _ => hnotsent, fun _ => rfl,
        fun _ => ⟨r, ?_, hr⟩, fun h => (h ⟨hpos, hopen, rfl⟩).elim⟩
      simp [State.results, hnotleaked, hnotsent, hnotgot]

theorem Accounted.settle (hA : Accounted convert s) (q : Lib.Promise E V) :
    Accounted convert { s with promise := s.promise.settle q } where
  running x hx := by
    obtain ⟨hpos, hopen, hp⟩ := hA.running x hx
    refine ⟨hpos, hopen, ?_⟩
    show s.promise.settle q = _
    rw [hp]
    cases x <;> rfl
  derived hfrees e he := by
    show s.promise.settle q = _
    rw [hA.derived hfrees e he]
    rfl
  closed := hA.closed
  receiver := hA.receiver
  leaked := hA.leaked
  made hmade := by
    obtain ⟨r, hr, hright⟩ := hA.made hmade
    exact ⟨r, hr, hright.settle q⟩
  unmade := hA.unmade

theorem accounted_takes {a : Act V E} (hI : Inv s) (hA : Accounted convert s)
    (ht : Takes convert s a s') : Accounted convert s' := by
  cases ht with
  | resolve | reject => exact hA.settle _
  | @fulfilled v _ hreacted hrunning hp he =>
      have hfrees := (hI.fresh hreacted).1
      exact hA.enter (x := .ok v) hfrees hp he
  | @rejected e hreacted hrunning hp =>
      refine ⟨hA.running, fun _ e' he' => ?_, hA.closed, hA.receiver, hA.leaked, hA.made, hA.unmade⟩
      obtain rfl : e = e' := by simpa using he'
      exact hp
  | @caught e t hcaught hrunning hp he =>
      by_cases hfrees : s.frees = 0
      · exact hA.enter (x := .error e) hfrees (hA.derived hfrees e hp) he
      · -- the result has been sent by the other callback, or was not wanted
        cases he with
        | ends hzero | goes hzero => exact absurd hzero hfrees
        | again =>
            have hpos : 0 < s.frees := Nat.pos_of_ne_zero hfrees
            refine ⟨by simp [hrunning], by simp, fun hc => ⟨(hA.closed hc).1, Nat.succ_pos _⟩,
              hA.receiver, hA.leaked, fun hmade => ?_, fun hunmade => ?_⟩
            · exact hA.made ⟨hpos, hmade.2⟩
            · exact hA.unmade fun hmade => hunmade ⟨Nat.succ_pos _, hmade.2⟩
  | @send x hx =>
      have hp := (hA.running x hx).2.2
      cases x with
      | ok v => exact hA.send hx (Or.inl ⟨v, hp, rfl⟩)
      | error e => exact hA.send hx (Or.inr ⟨e, hp, rfl⟩)
  | poll hflag hgot hsent =>
      refine ⟨hA.running, hA.derived, hA.closed, fun _ => rfl, hA.leaked, fun hmade => ?_,
        fun hunmade => ?_⟩
      · simpa [State.results, hgot, hsent] using hA.made hmade
      · simpa [State.results, hgot, hsent] using hA.unmade hunmade
  | gone hflag _ hclosed => simp [(hA.closed hclosed).1] at hflag
  | abort =>
      exact ⟨hA.running, hA.derived, fun hc => ⟨rfl, (hA.closed hc).2⟩, hA.receiver, hA.leaked,
        hA.made, hA.unmade⟩
  | close hflag hreceiver =>
      refine ⟨hA.running, hA.derived, hA.closed, fun _ => rfl, fun _ => rfl, fun hmade => ?_,
        fun hunmade => ?_⟩
      · simpa [State.results] using hA.made hmade
      · simpa [State.results] using hA.unmade hunmade

theorem accounted_reachable (h : (awaited convert).Reachable s) :
    Inv s ∧ Accounted convert s := by
  induction h with
  | start hs =>
      obtain rfl := hs
      exact ⟨inv_init, accounted_init⟩
  | step _ _ hn ih =>
      have ht := takes_of_next hn
      exact ⟨inv_takes ih.1 ht, accounted_takes ih.1 ih.2 ht⟩

/-- The one callback that had the box found the future there, and has sent its result. -/
def Sent (s : State V T E F) : Prop := s.frees = 1 ∧ s.closed = false ∧ s.running = none

theorem made_iff (hfreed : ¬Twice s) : Made s ↔ Sent s := by
  have hle : s.frees < 2 := Nat.not_le.mp hfreed
  have hone : 0 < s.frees ↔ s.frees = 1 := by omega
  simp [Made, Sent, hone]

/-- **What becomes of the result**, unless the box was freed twice. What the future is ready with
is the result of the promise, and never that the sender is gone. A result is leaked exactly if
the callback found the future there, and then this was dropped before the poll. -/
theorem delivered (h : (awaited convert).Reachable s) (hfreed : ¬Twice s) :
    (∀ r, s.got = some r → Right convert s.promise r) ∧
      (s.leaked ≠ [] ↔ Sent s ∧ s.receiver = false ∧ s.got = none) := by
  obtain ⟨-, hA⟩ := accounted_reachable h
  rw [← made_iff hfreed]
  by_cases hmade : Made s
  · obtain ⟨r, hr, hright⟩ := hA.made hmade
    refine ⟨fun r' hr' => ?_, fun hleaked => ?_, fun hdropped => ?_⟩
    · have hmem : r' ∈ s.results := by simp [State.results, hr']
      obtain rfl : r' = r := by simpa [hr] using hmem
      exact hright
    · refine ⟨hmade, hA.leaked hleaked, ?_⟩
      have hlength := congrArg List.length hr
      have hpos := List.length_pos_iff.mpr hleaked
      cases hgot : s.got with
      | none => rfl
      | some r' =>
          simp [State.results, hgot] at hlength
          omega
    · intro hnone
      simp [State.results, hnone, hA.receiver hdropped.2.1, hdropped.2.2] at hr
  · have hnone := hA.unmade hmade
    simp only [State.results, List.append_eq_nil_iff, Option.toList_eq_nil_iff] at hnone
    refine ⟨by simp [hnone.2], iff_of_false (by simp [hnone.1.1]) fun h => hmade h.1⟩

/-- The future is dropped while `then_callback` converts the value. -/
theorem delivered_dropped :
    ∃ s : State Nat Nat Unit Unit, (awaited fun v => ⟨.ok v, none⟩).replay .init
        [.resolve 1, .onThen, .abort, .close, .send] = some s ∧ s.leaked ≠ [] := by
  have hstart : (awaited fun v => ⟨.ok v, none⟩).Reachable
      (State.init : State Nat Nat Unit Unit) := .start rfl
  have hrun : ∃ s : State Nat Nat Unit Unit, (awaited fun v => ⟨.ok v, none⟩).replay .init
      [.resolve 1, .onThen, .abort, .close, .send] = some s ∧
        Sent s ∧ s.receiver = false ∧ s.got = none := ⟨_, rfl, ⟨rfl, rfl, rfl⟩, rfl, rfl⟩
  obtain ⟨s, hs, hdropped⟩ := hrun
  have hfreed : ¬Twice s := by simp [Twice, hdropped.1.1]
  exact ⟨s, hs, (delivered (Machine.Reachable.replay _ hstart hs) hfreed).2.mpr hdropped⟩

end TurbopackWasi.Napi.Promise
