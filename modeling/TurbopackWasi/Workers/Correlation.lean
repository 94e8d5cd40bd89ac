import TurbopackWasi.Workers.Rpc
import Mathlib.Data.List.Nodup
import Mathlib.Data.List.Perm.Basic

/-!
# TurbopackWasi.Workers.Correlation

**Every request has one raw call, and every promise the outcome of its own.**

A request has one *place* at any time: it waits at the port of its worker, its `handleRpc`
waits for the raw call, its reply waits at the port, or its promise is settled. The ids of
a worker are only unique together with the worker, so a place is counted by both
(`State.places`). Each step moves one request from one place to the next, or makes one.
-/

namespace TurbopackWasi.Workers

open Lib

variable {V ι : Type} [DecidableEq ι] {stackOf : String → String} {s s' : State ι V} {w : ι}

/-! ### Places -/

def requestKey (x : ι × Option (Request V)) : Option (ι × Nat) := x.2.map (x.1, ·.id)

def replyKey (x : ι × Option (Reply V)) : Option (ι × Nat) := x.2.map (x.1, ·.id)

def RawCall.key (c : RawCall ι V) : ι × Nat := (c.worker, c.id)

def Outcome.key (o : Outcome ι V) : ι × Nat := (o.worker, o.id)

def Settled.key (x : Settled ι V) : ι × Nat := (x.worker, x.promise + 1)

/-- The requests whose promise is not settled. -/
def State.unsettled (s : State ι V) : List (ι × Nat) :=
  s.requests.waiting.filterMap requestKey ++ (s.running ++ s.replies.waiting.filterMap replyKey)

def State.places (s : State ι V) : List (ι × Nat) :=
  s.unsettled ++ s.settled.map Settled.key

/-- The requests of a worker as they arrive: the call `k` has the id `k + 1`. -/
def State.posted (s : State ι V) (w : ι) : List (Request V) :=
  (s.made w).mapIdx fun k c => ⟨k + 1, c.1, c.2.map Value.clone⟩

/-- The raw call that a message causes. -/
def callOf (x : ι × Option (Request V)) : Option (RawCall ι V) :=
  x.2.bind fun r =>
    if r.method ∈ RPC_METHODS then some ⟨x.1, r.id, r.method, r.args.map toNapiArg⟩ else none

/-- The reply tells the outcome of the raw call for its request, or that there is none. -/
def Answers (stackOf : String → String) (s : State ι V) (w : ι) (reply : Reply V) : Prop :=
  ∃ k method args, reply.id = k + 1 ∧ (s.made w)[k]? = some (method, args) ∧
    ((method ∈ RPC_METHODS ∧ ∃ o, ⟨w, reply.id, o⟩ ∈ s.outcomes ∧ reply.result = replyOf o) ∨
      (method ∉ RPC_METHODS ∧ reply.result = .error (notBridged stackOf method).toError))

/-- What holds between two events. -/
structure Inv (stackOf : String → String) (s : State ι V) : Prop where
  requests : Lanes.InOrder Prod.fst s.requests
  replies : Lanes.InOrder Prod.fst s.replies
  nextId : ∀ w, s.nextId w = (s.made w).length + 1
  issued : ∀ w, (s.requests.issued.filter (·.1 = w)).filterMap Prod.snd = s.posted w
  calls : s.calls = s.requests.executed.filterMap callOf
  /-- Every request is at one place. -/
  nodup : s.places.Nodup
  mem : ∀ w id, (w, id) ∈ s.places ↔ 0 < id ∧ id ≤ (s.made w).length
  pending : ∀ w id, (w, id) ∈ s.unsettled → s.pending w id = some (id - 1)
  /-- Every raw call ended, or is waited for. -/
  outcomes : (s.outcomes.map Outcome.key ++ s.running).Perm (s.calls.map RawCall.key)
  answers : ∀ w reply, (w, some reply) ∈ s.replies.issued → Answers stackOf s w reply
  settled : ∀ x ∈ s.settled, (x.worker, some ⟨x.promise + 1, x.result⟩) ∈ s.replies.issued

theorem inv_init : Inv stackOf (State.init : State ι V) where
  requests := Lanes.inOrder_empty
  replies := Lanes.inOrder_empty
  nextId _ := rfl
  issued _ := rfl
  calls := rfl
  nodup := List.nodup_nil
  mem w id := by
    simp [State.places, State.unsettled, State.init, Lanes.empty]
    omega
  pending w id h := by simp [State.unsettled, State.init, Lanes.empty] at h
  outcomes := .refl _
  answers w reply h := by simp [State.init, Lanes.empty] at h
  settled x h := by simp [State.init] at h

/-! ### Moves -/

/-- A request that moves leaves all places as they are. -/
theorem nodup_move (hI : Inv stackOf s) (hplaces : s'.places.Perm s.places)
    (hmade : s'.made = s.made) :
    s'.places.Nodup ∧ ∀ w id, (w, id) ∈ s'.places ↔ 0 < id ∧ id ≤ (s'.made w).length := by
  constructor
  · exact hplaces.nodup_iff.mpr hI.nodup
  · intro w id
    rw [hplaces.mem_iff, hmade]
    exact hI.mem w id

/-- The promise of a request is kept as long as it is not settled. -/
theorem pending_move (hI : Inv stackOf s) (hplaces : s'.unsettled.Perm s.unsettled)
    (hpending : s'.pending = s.pending) :
    ∀ w id, (w, id) ∈ s'.unsettled → s'.pending w id = some (id - 1) := by
  intro w id h
  rw [hpending]
  exact hI.pending w id (hplaces.mem_iff.mp h)

omit [DecidableEq ι] in
theorem places_perm (h : s'.unsettled.Perm s.unsettled) (hsettled : s'.settled = s.settled) :
    s'.places.Perm s.places := by
  unfold State.places
  rw [hsettled]
  exact h.append_right _

omit [DecidableEq ι] in
/-- What has been answered stays so. -/
theorem Answers.mono {reply : Reply V} (h : Answers stackOf s w reply) (hmade : s'.made = s.made)
    (houtcomes : s.outcomes ⊆ s'.outcomes) : Answers stackOf s' w reply := by
  obtain ⟨k, method, args, hid, hk, hres⟩ := h
  refine ⟨k, method, args, hid, hmade ▸ hk, ?_⟩
  rcases hres with ⟨hm, o, ho, hres⟩ | hres
  · exact Or.inl ⟨hm, o, houtcomes ho, hres⟩
  · exact Or.inr hres

/-- A message is one of those posted. -/
theorem Inv.made_of_issued (hI : Inv stackOf s) {r : Request V}
    (h : (w, some r) ∈ s.requests.issued) :
    ∃ k c, r.id = k + 1 ∧ (s.made w)[k]? = some c ∧ r = ⟨k + 1, c.1, c.2.map Value.clone⟩ := by
  have hmem : r ∈ (s.requests.issued.filter (·.1 = w)).filterMap Prod.snd :=
    List.mem_filterMap.mpr ⟨(w, some r), List.mem_filter.mpr ⟨h, by simp⟩, rfl⟩
  rw [hI.issued w] at hmem
  obtain ⟨k, hk, rfl⟩ := List.mem_mapIdx.mp hmem
  exact ⟨k, (s.made w)[k], rfl, List.getElem?_eq_getElem hk, rfl⟩

/-- A raw call is that of a request with a bridged method. -/
theorem Inv.made_of_call (hI : Inv stackOf s) {c : RawCall ι V} (hc : c ∈ s.calls) :
    ∃ k args, c.id = k + 1 ∧ (s.made c.worker)[k]? = some (c.method, args) ∧
      c.method ∈ RPC_METHODS ∧ c.args = (args.map Value.clone).map toNapiArg := by
  rw [hI.calls] at hc
  obtain ⟨⟨v, m⟩, hx, hcall⟩ := List.mem_filterMap.mp hc
  obtain ⟨r, rfl, hr⟩ := Option.bind_eq_some_iff.mp hcall
  obtain ⟨k, c', hid, hk, rfl⟩ := hI.made_of_issued (hI.requests.executed_subset hx)
  dsimp only at hr
  split at hr
  · next hmethod =>
      obtain rfl := Option.some.inj hr
      exact ⟨k, c'.2, rfl, hk, hmethod, rfl⟩
  · simp at hr

/-! ### Steps -/

theorem posted_rpc (s : State ι V) (w v : ι) (method : String) (args : List (Value V)) :
    (s.rpc w method args).posted v =
      if v = w then s.posted w ++ [⟨(s.made w).length + 1, method, args.map Value.clone⟩]
      else s.posted v := by
  by_cases h : v = w
  · subst h
    simp [State.posted, State.rpc, List.mapIdx_append]
  · simp [State.posted, State.rpc, h]

/-- A call of `rpc` makes a request, which waits at the port. -/
theorem unsettled_rpc (s : State ι V) (w : ι) (method : String) (args : List (Value V)) :
    (s.rpc w method args).unsettled.Perm ((w, s.nextId w) :: s.unsettled) := by
  have hwaiting : (s.rpc w method args).unsettled =
      s.requests.waiting.filterMap requestKey ++ (w, s.nextId w) ::
        (s.running ++ s.replies.waiting.filterMap replyKey) := by
    simp [State.unsettled, State.rpc, Lanes.issue, requestKey]
  rw [hwaiting]
  exact List.perm_middle

theorem inv_rpc (hI : Inv stackOf s) (w : ι) (method : String) (args : List (Value V)) :
    Inv stackOf (s.rpc w method args) := by
  have hid := hI.nextId w
  have hplaces : (s.rpc w method args).places.Perm ((w, s.nextId w) :: s.places) :=
    (unsettled_rpc s w method args).append_right _
  have hnew : (w, s.nextId w) ∉ s.places := by
    intro h
    have hle := ((hI.mem _ _).mp h).2
    omega
  have hlength : ∀ v, ((s.rpc w method args).made v).length =
      if v = w then (s.made w).length + 1 else (s.made v).length := by
    intro v
    by_cases h : v = w
    · subst h
      simp [State.rpc]
    · simp [State.rpc, h]
  have hgrow : ∀ {v : ι} {k : Nat} {c : String × List (Value V)}, (s.made v)[k]? = some c →
      ((s.rpc w method args).made v)[k]? = some c := by
    intro v k c hk
    by_cases h : v = w
    · subst h
      simp only [State.rpc, Function.update_self]
      exact List.getElem?_append_left (List.getElem?_eq_some_iff.mp hk).1 ▸ hk
    · simpa [State.rpc, Function.update_of_ne h] using hk
  constructor
  case requests => exact Lanes.inOrder_issue hI.requests _
  case replies => exact hI.replies
  case nextId =>
    intro v
    rw [hlength]
    by_cases h : v = w
    · subst h
      simp [State.rpc, hid]
    · simpa [State.rpc, Function.update_of_ne h, h] using hI.nextId v
  case issued =>
    intro v
    have hv := hI.issued v
    rw [posted_rpc]
    by_cases h : v = w
    · subst h
      simp only [if_true]
      rw [← hv]
      simp [State.rpc, Lanes.issue, hid]
    · rw [if_neg h, ← hv]
      have hne : ¬w = v := fun hwv => h hwv.symm
      simp [State.rpc, Lanes.issue, hne]
  case calls => exact hI.calls
  case nodup => exact hplaces.nodup_iff.mpr (List.nodup_cons.mpr ⟨hnew, hI.nodup⟩)
  case mem =>
    intro v id
    rw [hplaces.mem_iff, List.mem_cons, hI.mem, hlength]
    by_cases h : v = w
    · subst h
      simp only [Prod.mk.injEq, true_and, if_true]
      omega
    · simp [h]
  case pending =>
    intro v id hmem
    rcases List.mem_cons.mp ((unsettled_rpc s w method args).mem_iff.mp hmem) with heq | hmem
    · obtain ⟨rfl, rfl⟩ := Prod.mk.inj heq
      simp [State.rpc, hid]
    · have hold := hI.pending v id hmem
      have hne : (v, id) ≠ (w, s.nextId w) := by
        intro heq
        exact hnew (heq ▸ List.mem_append_left _ hmem)
      by_cases h : v = w
      · subst h
        have hidne : id ≠ s.nextId v := fun heq => hne (by rw [heq])
        simp [State.rpc, Function.update_of_ne hidne, hold]
      · simp [State.rpc, Function.update_of_ne h, hold]
  case outcomes => exact hI.outcomes
  case answers =>
    intro v reply hmem
    obtain ⟨k, m, as, hk, hmade, hres⟩ := hI.answers v reply hmem
    exact ⟨k, m, as, hk, hgrow hmade, hres⟩
  case settled => exact hI.settled

/-- A message that is no request changes nothing. -/
theorem inv_postOther (hI : Inv stackOf s) (w : ι) :
    Inv stackOf { s with requests := s.requests.issue (w, none) } := by
  have hunsettled : State.unsettled { s with requests := s.requests.issue (w, none) } =
      s.unsettled := by
    simp [State.unsettled, Lanes.issue, requestKey]
  have hplaces : State.places { s with requests := s.requests.issue (w, none) } = s.places := by
    simp only [State.places, hunsettled]
  refine { hI with
    requests := Lanes.inOrder_issue hI.requests _
    issued := ?_
    nodup := hplaces ▸ hI.nodup
    mem := hplaces ▸ hI.mem
    pending := hunsettled ▸ hI.pending }
  intro v
  have hv := hI.issued v
  by_cases h : w = v
  · simpa [State.posted, Lanes.issue, h] using hv
  · simpa [State.posted, Lanes.issue, h] using hv

theorem inv_replyOther (hI : Inv stackOf s) (w : ι) :
    Inv stackOf { s with replies := s.replies.issue (w, none) } := by
  have hunsettled : State.unsettled { s with replies := s.replies.issue (w, none) } =
      s.unsettled := by
    simp [State.unsettled, Lanes.issue, replyKey]
  have hplaces : State.places { s with replies := s.replies.issue (w, none) } = s.places := by
    simp only [State.places, hunsettled]
  refine { hI with
    replies := Lanes.inOrder_issue hI.replies _
    nodup := hplaces ▸ hI.nodup
    mem := hplaces ▸ hI.mem
    pending := hunsettled ▸ hI.pending
    answers := ?_
    settled := fun x hx => List.mem_append_left _ (hI.settled x hx) }
  intro v reply hmem
  have hmem : (v, some reply) ∈ s.replies.issued := by simpa [Lanes.issue] using hmem
  exact hI.answers v reply hmem

/-! #### The main thread -/

section Deliver

variable {m : Option (Request V)} {σ : Lanes (ι × Option (Request V))}

/-- A message that is no request is dropped. -/
theorem inv_skip (hI : Inv stackOf s) (hd : s.requests.dispatch Prod.fst w = some ((w, none), σ)) :
    Inv stackOf { s with requests := σ } := by
  obtain ⟨-, hissued, hexecuted, hwaiting⟩ := Lanes.dispatch_took hd
  have hmove : (State.unsettled { s with requests := σ }).Perm s.unsettled := by
    have hkeys := (hwaiting.filterMap requestKey).symm
    exact hkeys.append_right (s.running ++ s.replies.waiting.filterMap replyKey)
  obtain ⟨hnodup, hmem⟩ := nodup_move hI (places_perm hmove rfl) rfl
  refine { hI with
    requests := Lanes.inOrder_dispatch_lane hI.requests hd
    issued := ?_
    calls := ?_
    nodup := hnodup
    mem := hmem
    pending := pending_move hI hmove rfl }
  · intro v
    rw [hissued]
    exact hI.issued v
  · rw [hexecuted, List.filterMap_append]
    simpa [callOf] using hI.calls

/-- The raw call is made at once; its `handleRpc` waits. -/
theorem inv_start (hI : Inv stackOf s) {r : Request V} (hr : r.method ∈ RPC_METHODS)
    (hd : s.requests.dispatch Prod.fst w = some ((w, some r), σ)) :
    Inv stackOf (State.handleRpc stackOf { s with requests := σ } w r none) := by
  obtain ⟨-, hissued, hexecuted, hwaiting⟩ := Lanes.dispatch_took hd
  have hstate : State.handleRpc stackOf { s with requests := σ } w r none =
      { s with
        requests := σ
        calls := s.calls ++ [⟨w, r.id, r.method, r.args.map toNapiArg⟩]
        running := s.running ++ [(w, r.id)] } := by
    simp [State.handleRpc, hr]
  rw [hstate]
  have hmove : (State.unsettled { s with
      requests := σ
      calls := s.calls ++ [⟨w, r.id, r.method, r.args.map toNapiArg⟩]
      running := s.running ++ [(w, r.id)] }).Perm s.unsettled := by
    have hkeys := (hwaiting.filterMap requestKey).symm.append_right
      (s.running ++ s.replies.waiting.filterMap replyKey)
    refine List.Perm.trans ?_ hkeys
    simp only [State.unsettled, List.append_assoc, List.singleton_append]
    rw [← List.append_assoc]
    refine List.perm_middle.trans ?_
    rw [List.append_assoc]
    exact .refl _
  obtain ⟨hnodup, hmem⟩ := nodup_move hI (places_perm hmove rfl) rfl
  refine { hI with
    requests := Lanes.inOrder_dispatch_lane hI.requests hd
    issued := ?_
    calls := ?_
    nodup := hnodup
    mem := hmem
    pending := pending_move hI hmove rfl
    outcomes := ?_ }
  · intro v
    rw [hissued]
    exact hI.issued v
  · rw [hexecuted, List.filterMap_append, ← hI.calls]
    simp [callOf, hr]
  · rw [List.map_append, ← List.append_assoc]
    exact hI.outcomes.append_right _

/-- A method that is not bridged is answered at once. -/
theorem inv_reject (hI : Inv stackOf s) {r : Request V} (hr : r.method ∉ RPC_METHODS)
    (thrown : Option Thrown) (hd : s.requests.dispatch Prod.fst w = some ((w, some r), σ)) :
    Inv stackOf (State.handleRpc stackOf { s with requests := σ } w r thrown) := by
  obtain ⟨-, hissued, hexecuted, hwaiting⟩ := Lanes.dispatch_took hd
  have hmsg : (w, some r) ∈ s.requests.issued :=
    hI.requests.waiting_subset (hwaiting.mem_iff.mpr List.mem_cons_self)
  obtain ⟨k, c, hid, hmade, hc⟩ := hI.made_of_issued hmsg
  have hmethod : r.method = c.1 := by rw [hc]
  have hstate : State.handleRpc stackOf { s with requests := σ } w r thrown =
      { s with
        requests := σ
        replies := s.replies.issue
          (w, some ⟨r.id, .error (notBridged stackOf r.method).toError⟩) } := by
    simp [State.handleRpc, State.postReply, hr]
  rw [hstate]
  have hmove : (State.unsettled { s with
      requests := σ
      replies := s.replies.issue
        (w, some ⟨r.id, .error (notBridged stackOf r.method).toError⟩) }).Perm s.unsettled := by
    have hkeys := (hwaiting.filterMap requestKey).symm.append_right
      (s.running ++ s.replies.waiting.filterMap replyKey)
    refine List.Perm.trans ?_ hkeys
    simp only [State.unsettled, Lanes.issue, List.filterMap_append]
    rw [← List.append_assoc, ← List.append_assoc]
    refine (List.perm_append_singleton _ _).trans ?_
    rw [List.append_assoc]
    exact .refl _
  obtain ⟨hnodup, hmem⟩ := nodup_move hI (places_perm hmove rfl) rfl
  refine { hI with
    requests := Lanes.inOrder_dispatch_lane hI.requests hd
    replies := Lanes.inOrder_issue hI.replies _
    issued := ?_
    calls := ?_
    nodup := hnodup
    mem := hmem
    pending := pending_move hI hmove rfl
    answers := ?_
    settled := fun x hx => List.mem_append_left _ (hI.settled x hx) }
  · intro v
    rw [hissued]
    exact hI.issued v
  · rw [hexecuted, List.filterMap_append, ← hI.calls]
    simp [callOf, hr]
  · intro v reply hmem
    rcases List.mem_append.mp hmem with hmem | hmem
    · exact hI.answers v reply hmem
    · simp only [List.mem_singleton, Prod.mk.injEq, Option.some.injEq] at hmem
      obtain ⟨rfl, rfl⟩ := hmem
      exact ⟨k, c.1, c.2, hid, hmade, Or.inr ⟨hmethod ▸ hr, by rw [hmethod]⟩⟩

end Deliver

/-- The raw call ends, and its reply is posted. -/
theorem inv_resume (hI : Inv stackOf s) {id : Nat} (hrun : (w, id) ∈ s.running)
    (o : Except Thrown (Value V)) : Inv stackOf (s.resume w id o) := by
  have herase : s.running.Perm ((w, id) :: s.running.erase (w, id)) := List.perm_cons_erase hrun
  have hcall : (w, id) ∈ s.calls.map RawCall.key :=
    hI.outcomes.mem_iff.mp (List.mem_append_right _ hrun)
  obtain ⟨c, hc, hkey⟩ := List.mem_map.mp hcall
  obtain ⟨hw, hid⟩ := Prod.mk.inj hkey
  obtain ⟨k, args, hk, hmade, hmethod, -⟩ := hI.made_of_call hc
  have hmove : (s.resume w id o).unsettled.Perm s.unsettled := by
    refine List.Perm.append_left (s.requests.waiting.filterMap requestKey) ?_
    have hback : (s.resume w id o).replies.waiting.filterMap replyKey =
        s.replies.waiting.filterMap replyKey ++ [(w, id)] := by
      simp [State.resume, State.postReply, Lanes.issue, replyKey]
    rw [hback, ← List.append_assoc]
    refine (List.perm_append_singleton _ _).trans ?_
    exact (herase.symm.append_right _)
  obtain ⟨hnodup, hmem⟩ := nodup_move hI (places_perm hmove rfl) rfl
  refine { hI with
    replies := Lanes.inOrder_issue hI.replies _
    nodup := hnodup
    mem := hmem
    pending := pending_move hI hmove rfl
    outcomes := ?_
    answers := ?_
    settled := fun x hx => List.mem_append_left _ (hI.settled x hx) }
  · refine List.Perm.trans ?_ hI.outcomes
    show ((s.outcomes ++ [Outcome.mk w id o]).map Outcome.key ++ s.running.erase (w, id)).Perm _
    rw [List.map_append, List.append_assoc]
    exact herase.symm.append_left _
  · intro v reply hmem
    have hsub : s.outcomes ⊆ (s.resume w id o).outcomes := List.subset_append_left _ _
    rcases List.mem_append.mp hmem with hmem | hmem
    · exact (hI.answers v reply hmem).mono rfl hsub
    · simp only [List.mem_singleton, Prod.mk.injEq, Option.some.injEq] at hmem
      obtain ⟨rfl, rfl⟩ := hmem
      refine ⟨k, c.method, args, hid.symm.trans hk, hw ▸ hmade, Or.inl ⟨hmethod, o, ?_, rfl⟩⟩
      exact List.mem_append_right _ (by simp)

/-- A call that throws at once is one whose promise is rejected at once. -/
theorem handleRpc_thrown {r : Request V} (hr : r.method ∈ RPC_METHODS)
    (hrun : (w, r.id) ∉ s.running) (e : Thrown) :
    s.handleRpc stackOf w r (some e) = (s.handleRpc stackOf w r none).resume w r.id (.error e) := by
  have herase : (s.running ++ [(w, r.id)]).erase (w, r.id) = s.running := by
    rw [List.erase_append_right _ hrun]
    simp
  simp [State.handleRpc, State.resume, State.postReply, hr, herase]

/-- **One message of a worker.** -/
theorem inv_onRequest (hI : Inv stackOf s) {m : Option (Request V)}
    {σ : Lanes (ι × Option (Request V))} (thrown : Option Thrown)
    (hd : s.requests.dispatch Prod.fst w = some ((w, m), σ)) :
    Inv stackOf (State.onRequest stackOf { s with requests := σ } w thrown m) := by
  cases m with
  | none => exact inv_skip hI hd
  | some r =>
      by_cases hr : r.method ∈ RPC_METHODS
      · have hstart := inv_start hI hr hd
        cases thrown with
        | none => exact hstart
        | some e =>
            -- the request waited, so no call for it did
            have hrun : (w, r.id) ∉ s.running := by
              obtain ⟨-, -, -, hwaiting⟩ := Lanes.dispatch_took hd
              have hkey : (w, r.id) ∈ s.requests.waiting.filterMap requestKey :=
                List.mem_filterMap.mpr
                  ⟨(w, some r), hwaiting.mem_iff.mpr List.mem_cons_self, rfl⟩
              have hdisj := (List.nodup_append.mp (List.nodup_append.mp hI.nodup).1).2.2
              intro hmem
              exact hdisj _ hkey _ (List.mem_append_left _ hmem) rfl
            show Inv stackOf (State.handleRpc stackOf { s with requests := σ } w r (some e))
            rw [handleRpc_thrown (s := { s with requests := σ }) hr hrun]
            refine inv_resume hstart ?_ _
            simp [State.handleRpc, hr]
      · exact inv_reject hI hr thrown hd

/-! #### The worker -/

section Receive

variable {σ : Lanes (ι × Option (Reply V))}

/-- A message that is no reply is dropped. -/
theorem inv_ignore (hI : Inv stackOf s) (hd : s.replies.dispatch Prod.fst w = some ((w, none), σ)) :
    Inv stackOf { s with replies := σ } := by
  obtain ⟨-, hissued, -, hwaiting⟩ := Lanes.dispatch_took hd
  have hmove : (State.unsettled { s with replies := σ }).Perm s.unsettled := by
    have hkeys := (hwaiting.filterMap replyKey).symm
    exact (hkeys.append_left s.running).append_left _
  obtain ⟨hnodup, hmem⟩ := nodup_move hI (places_perm hmove rfl) rfl
  refine { hI with
    replies := Lanes.inOrder_dispatch_lane hI.replies hd
    nodup := hnodup
    mem := hmem
    pending := pending_move hI hmove rfl
    answers := ?_
    settled := ?_ }
  · intro v reply h
    exact hI.answers v reply (hissued ▸ h)
  · intro x hx
    exact hissued.symm ▸ hI.settled x hx

/-- **A reply settles the promise of its request.** -/
theorem inv_onReply (hI : Inv stackOf s) {reply : Reply V}
    (hd : s.replies.dispatch Prod.fst w = some ((w, some reply), σ)) :
    Inv stackOf (State.onReply { s with replies := σ } w (some reply)) := by
  obtain ⟨-, hissued, -, hwaiting⟩ := Lanes.dispatch_took hd
  have hmsg : (w, some reply) ∈ s.replies.issued :=
    hI.replies.waiting_subset (hwaiting.mem_iff.mpr List.mem_cons_self)
  obtain ⟨k, method, args, hid, -⟩ := hI.answers w reply hmsg
  -- the request leaves those that are not settled
  have hleave : s.unsettled.Perm ((w, reply.id) :: State.unsettled { s with replies := σ }) := by
    have hkeys := ((hwaiting.filterMap replyKey).append_left s.running).append_left
      (s.requests.waiting.filterMap requestKey)
    refine hkeys.trans ?_
    simp only [State.unsettled, List.filterMap_cons, replyKey, Option.map_some]
    rw [← List.append_assoc]
    refine List.perm_middle.trans ?_
    rw [List.append_assoc]
  have hpend : s.pending w reply.id = some k := by
    rw [hI.pending w reply.id (hleave.mem_iff.mpr List.mem_cons_self), hid, Nat.add_sub_cancel]
  have hnot : (w, reply.id) ∉ State.unsettled { s with replies := σ } := by
    have hnodup := hleave.nodup_iff.mp (List.nodup_append.mp hI.nodup).1
    exact (List.nodup_cons.mp hnodup).1
  have hstate : State.onReply { s with replies := σ } w (some reply) =
      { s with
        replies := σ
        pending := Function.update s.pending w (Function.update (s.pending w) reply.id none)
        settled := s.settled ++ [⟨w, k, reply.result⟩] } := by
    simp [State.onReply, hpend]
  rw [hstate]
  have hplaces : (State.places { s with
      replies := σ
      pending := Function.update s.pending w (Function.update (s.pending w) reply.id none)
      settled := s.settled ++ [⟨w, k, reply.result⟩] }).Perm s.places := by
    have hkey : Settled.key (⟨w, k, reply.result⟩ : Settled ι V) = (w, reply.id) := by
      rw [Settled.key, hid]
    refine List.Perm.trans ?_ (hleave.append_right _).symm
    show (State.unsettled { s with replies := σ } ++
      (s.settled ++ [Settled.mk w k reply.result]).map Settled.key).Perm _
    rw [List.map_append, List.map_singleton, hkey, ← List.append_assoc]
    exact List.perm_append_singleton _ _
  obtain ⟨hnodup, hmem⟩ := nodup_move hI hplaces rfl
  refine { hI with
    replies := Lanes.inOrder_dispatch_lane hI.replies hd
    nodup := hnodup
    mem := hmem
    pending := ?_
    answers := ?_
    settled := ?_ }
  · intro v id h
    have hold := hI.pending v id (hleave.mem_iff.mpr (List.mem_cons_of_mem _ h))
    by_cases hv : v = w
    · subst hv
      have hne : id ≠ reply.id := by
        intro heq
        exact hnot (heq ▸ h)
      simp [Function.update_of_ne hne, hold]
    · simp [Function.update_of_ne hv, hold]
  · intro v reply' h
    exact hI.answers v reply' (hissued ▸ h)
  · intro x hx
    show _ ∈ σ.issued
    rw [hissued]
    rcases List.mem_append.mp hx with hx | hx
    · exact hI.settled x hx
    · obtain rfl := List.mem_singleton.mp hx
      rw [← hid]
      exact hmsg

end Receive

/-- **The accounts hold in every state.** -/
theorem inv_of_reachable (h : (machine stackOf).Reachable s) : Inv stackOf s := by
  refine h.invariant (I := Inv stackOf) ?_ ?_
  · intro s hs
    exact hs ▸ inv_init
  · intro s a s' hI _ hn
    cases a with
    | invoke w prop arg =>
        simp only [machine, next] at hn
        split at hn
        · obtain rfl := Option.some.inj hn
          exact inv_rpc hI w _ _
        · exact Option.some.inj hn ▸ hI
    | call w method args =>
        obtain rfl := Option.some.inj hn
        exact inv_rpc hI w method args
    | postOther w =>
        obtain rfl := Option.some.inj hn
        exact inv_postOther hI w
    | replyOther w =>
        obtain rfl := Option.some.inj hn
        exact inv_replyOther hI w
    | deliver w thrown =>
        obtain ⟨⟨⟨v, m⟩, σ⟩, hd, rfl⟩ := Option.map_eq_some_iff.mp hn
        obtain rfl : v = w := (Lanes.dispatch_took hd).1
        exact inv_onRequest hI thrown hd
    | settle w id o =>
        by_cases hrun : (w, id) ∈ s.running
        · obtain rfl : s.resume w id o = s' := by simpa [machine, next, hrun] using hn
          exact inv_resume hI hrun o
        · simp [machine, next, hrun] at hn
    | receive w =>
        obtain ⟨⟨⟨v, m⟩, σ⟩, hd, rfl⟩ := Option.map_eq_some_iff.mp hn
        obtain rfl : v = w := (Lanes.dispatch_took hd).1
        cases m with
        | none => exact inv_ignore hI hd
        | some reply => exact inv_onReply hI hd

/-! ### What the workers see -/

/-- The value as a raw method gets it: `data` is a `Buffer`, with the bytes of the one sent. -/
def Value.asBuffer : Value V → Value V
  | .withData rest data => .withData rest data.toBuffer
  | .other v => .other v

theorem toNapiArg_clone (v : Value V) : toNapiArg v.clone = v.asBuffer := by
  cases v with
  | withData rest data => rfl
  | other v => rfl

omit [DecidableEq ι] in
/-- The raw calls that a worker's own calls of `rpc` ask for. -/
def State.wanted (s : State ι V) (w : ι) : List (RawCall ι V) :=
  ((s.made w).mapIdx fun k c => ⟨w, k + 1, c.1, c.2.map Value.asBuffer⟩).filter
    (·.method ∈ RPC_METHODS)

/-- What the RPC promises. -/
structure Correlated (stackOf : String → String) (s : State ι V) : Prop where
  /-- The raw calls made for a worker, then those that its port still holds, are the ones
  that it asked for: each once, in its order and with its arguments. -/
  calls : ∀ w, s.calls.filter (·.worker = w) ++
    (s.requests.queue Prod.fst w).filterMap callOf = s.wanted w
  /-- No call comes before one that the worker asked for earlier. -/
  order : ∀ w c c', [c, c'].Sublist (s.wanted w) → c' ∈ s.calls → [c, c'].Sublist s.calls
  /-- A method that is not bridged is not called. -/
  bridged : ∀ c ∈ s.calls, c.method ∈ RPC_METHODS
  /-- A raw call ends at most once. -/
  ended : (s.outcomes.map Outcome.key).Nodup
  /-- A promise is settled at most once, -/
  once : (s.settled.map fun x => (x.worker, x.promise)).Nodup
  /-- with the outcome of its own raw call, or the rejection if there is none. -/
  own : ∀ x ∈ s.settled, ∃ method args, (s.made x.worker)[x.promise]? = some (method, args) ∧
    ((method ∈ RPC_METHODS ∧
        ⟨x.worker, x.promise + 1, method, args.map Value.asBuffer⟩ ∈ s.calls ∧
        ∃ o, ⟨x.worker, x.promise + 1, o⟩ ∈ s.outcomes ∧ x.result = replyOf o) ∨
      (method ∉ RPC_METHODS ∧ x.result = .error (notBridged stackOf method).toError))
  /-- No request is lost: it waits at the port, for its raw call, or with its answer at the
  port, or it is settled. -/
  placed : ∀ w k method args, (s.made w)[k]? = some (method, args) →
    (∃ r, (w, some r) ∈ s.requests.waiting ∧ r.id = k + 1) ∨
    (method ∈ RPC_METHODS ∧ (w, k + 1) ∈ s.running) ∨
    (∃ reply, (w, some reply) ∈ s.replies.waiting ∧ reply.id = k + 1) ∨
    (∃ x ∈ s.settled, x.worker = w ∧ x.promise = k)
  /-- Whatever waits can go on. -/
  deliver : ∀ w thrown, s.requests.queue Prod.fst w ≠ [] →
    (next stackOf s (.deliver w thrown)).isSome
  settle : ∀ w id o, (w, id) ∈ s.running → (next stackOf s (.settle w id o)).isSome
  receive : ∀ w, s.replies.queue Prod.fst w ≠ [] → (next stackOf s (.receive w)).isSome

omit [DecidableEq ι] in
theorem callOf_worker {x : ι × Option (Request V)} {c : RawCall ι V} (h : callOf x = some c) :
    c.worker = x.1 := by
  obtain ⟨r, -, hr⟩ := Option.bind_eq_some_iff.mp h
  split at hr
  · rw [← Option.some.inj hr]
  · simp at hr

/-- The calls for a worker are those that its messages cause. -/
theorem filter_callOf (as : List (ι × Option (Request V))) (w : ι) :
    (as.filterMap callOf).filter (·.worker = w) = (as.filter (·.1 = w)).filterMap callOf := by
  induction as with
  | nil => rfl
  | cons x as ih =>
      cases hx : callOf x with
      | none =>
          rw [List.filterMap_cons_none hx, ih]
          by_cases hw : x.1 = w
          · rw [List.filter_cons_of_pos (by simpa using hw), List.filterMap_cons_none hx]
          · rw [List.filter_cons_of_neg (by simpa using hw)]
      | some c =>
          have hc := callOf_worker hx
          rw [List.filterMap_cons_some hx]
          by_cases hw : x.1 = w
          · rw [List.filter_cons_of_pos (by simpa [hc] using hw), ih,
              List.filter_cons_of_pos (by simpa using hw), List.filterMap_cons_some hx]
          · rw [List.filter_cons_of_neg (by simpa [hc] using hw), ih,
              List.filter_cons_of_neg (by simpa using hw)]

theorem Inv.wanted (hI : Inv stackOf s) (w : ι) :
    (s.requests.issued.filter (·.1 = w)).filterMap callOf = s.wanted w := by
  -- of the messages of `w`, a call depends on the request alone
  have hcongr : (s.requests.issued.filter (·.1 = w)).filterMap callOf =
      (s.requests.issued.filter (·.1 = w)).filterMap fun x =>
        x.2.bind fun r => callOf (w, some r) := by
    refine List.filterMap_congr ?_
    intro x hx
    have hw : x.1 = w := by simpa using (List.mem_filter.mp hx).2
    simp [callOf, hw]
  rw [hcongr, ← List.filterMap_filterMap, hI.issued w]
  simp only [State.posted, State.wanted, List.mapIdx_eq_zipIdx_map, List.filterMap_map]
  rw [← List.filterMap_eq_filter, List.filterMap_map]
  refine List.filterMap_congr ?_
  intro x _
  simp [callOf, Option.guard, Function.comp_def, toNapiArg_clone]

omit [DecidableEq ι] in
/-- A worker asks for its calls in the order of their ids. -/
theorem wanted_pairwise (s : State ι V) (w : ι) :
    (s.wanted w).Pairwise fun c c' => c.id < c'.id := by
  refine List.Pairwise.sublist List.filter_sublist ?_
  rw [List.pairwise_iff_getElem]
  intro i j hi hj hij
  simpa using hij

theorem Inv.calls_wanted (hI : Inv stackOf s) (w : ι) :
    s.calls.filter (·.worker = w) ++ (s.requests.queue Prod.fst w).filterMap callOf =
      s.wanted w := by
  rw [hI.calls, filter_callOf, ← hI.wanted w, ← hI.requests w, List.filterMap_append]
  rfl

omit [DecidableEq ι] in
theorem mem_wanted {c : RawCall ι V} (h : c ∈ s.wanted w) : c.worker = w := by
  obtain ⟨k, hk, rfl⟩ := List.mem_mapIdx.mp (List.mem_of_mem_filter h)
  rfl

/-- The calls made are the first of those asked for. -/
theorem Inv.calls_order (hI : Inv stackOf s) {c c' : RawCall ι V}
    (h : [c, c'].Sublist (s.wanted w)) (hc : c' ∈ s.calls) : [c, c'].Sublist s.calls := by
  have hw : c'.worker = w := mem_wanted (h.subset (by simp))
  have hmem : c' ∈ s.calls.filter (·.worker = w) := List.mem_filter.mpr ⟨hc, by simpa using hw⟩
  have hpair := wanted_pairwise s w
  rw [← hI.calls_wanted w] at h hpair
  obtain ⟨l₁, l₂, hsplit, hl₁, hl₂⟩ := List.sublist_append_iff.mp h
  rcases List.eq_nil_or_concat l₂ with rfl | ⟨l, d, rfl⟩
  · rw [List.append_nil] at hsplit
    exact (hsplit ▸ hl₁).trans List.filter_sublist
  · -- `c'` is made, so it does not wait
    exfalso
    have hd : c' = d := by
      have hlast := congrArg List.getLast? hsplit
      simpa using hlast
    have hlt := (List.pairwise_append.mp hpair).2.2 c' hmem d (hl₂.subset (by simp))
    rw [hd] at hlt
    exact Nat.lt_irrefl _ hlt

/-- No two raw calls are for the same request. -/
theorem Inv.calls_nodup (hI : Inv stackOf s) : (s.calls.map RawCall.key).Nodup := by
  refine List.pairwise_map.mpr (List.pairwise_iff_forall_sublist.mpr ?_)
  intro c c' hsub heq
  obtain ⟨hw, hid⟩ := Prod.mk.inj heq
  have hfilter : [c, c'].Sublist (s.calls.filter (·.worker = c.worker)) := by
    have hboth := hsub.filter (·.worker = c.worker)
    rwa [List.filter_cons_of_pos (by simp), List.filter_cons_of_pos (by simp [hw])] at hboth
  have hpair := wanted_pairwise s c.worker
  rw [← hI.calls_wanted c.worker] at hpair
  have hlt := List.pairwise_iff_forall_sublist.mp (List.pairwise_append.mp hpair).1 hfilter
  omega

/-- A request that is made is at one of the four places. -/
theorem Inv.placed (hI : Inv stackOf s) {k : Nat} {method : String} {args : List (Value V)}
    (hk : (s.made w)[k]? = some (method, args)) :
    (∃ r, (w, some r) ∈ s.requests.waiting ∧ r.id = k + 1) ∨
    (method ∈ RPC_METHODS ∧ (w, k + 1) ∈ s.running) ∨
    (∃ reply, (w, some reply) ∈ s.replies.waiting ∧ reply.id = k + 1) ∨
    (∃ x ∈ s.settled, x.worker = w ∧ x.promise = k) := by
  have hlt : k < (s.made w).length := (List.getElem?_eq_some_iff.mp hk).1
  have hplace : (w, k + 1) ∈ s.places := (hI.mem w (k + 1)).mpr ⟨by omega, by omega⟩
  rcases List.mem_append.mp hplace with hopen | hsettled
  · rcases List.mem_append.mp hopen with hrequest | hrest
    · obtain ⟨⟨v, m⟩, hx, hkey⟩ := List.mem_filterMap.mp hrequest
      obtain ⟨r, rfl, hr⟩ := Option.map_eq_some_iff.mp hkey
      obtain ⟨rfl, hid⟩ := Prod.mk.inj hr
      exact Or.inl ⟨r, hx, hid⟩
    · rcases List.mem_append.mp hrest with hrun | hreply
      · have hcall := hI.outcomes.mem_iff.mp (List.mem_append_right _ hrun)
        obtain ⟨c, hc, hkey⟩ := List.mem_map.mp hcall
        obtain ⟨rfl, hid⟩ := Prod.mk.inj hkey
        obtain ⟨k', args', hk', hmade, hmethod, -⟩ := hI.made_of_call hc
        obtain rfl : k' = k := by omega
        have hsame : c.method = method := congrArg Prod.fst (Option.some.inj (hmade.symm.trans hk))
        exact Or.inr (Or.inl ⟨hsame ▸ hmethod, hrun⟩)
      · obtain ⟨⟨v, m⟩, hx, hkey⟩ := List.mem_filterMap.mp hreply
        obtain ⟨reply, rfl, hr⟩ := Option.map_eq_some_iff.mp hkey
        obtain ⟨rfl, hid⟩ := Prod.mk.inj hr
        exact Or.inr (Or.inr (Or.inl ⟨reply, hx, hid⟩))
  · obtain ⟨x, hx, hkey⟩ := List.mem_map.mp hsettled
    obtain ⟨hw, hid⟩ := Prod.mk.inj hkey
    exact Or.inr (Or.inr (Or.inr ⟨x, hx, hw, by omega⟩))

/-- The promise of a request is settled with what its own raw call gave. -/
theorem Inv.own (hI : Inv stackOf s) {x : Settled ι V} (hx : x ∈ s.settled) :
    ∃ method args, (s.made x.worker)[x.promise]? = some (method, args) ∧
      ((method ∈ RPC_METHODS ∧
          ⟨x.worker, x.promise + 1, method, args.map Value.asBuffer⟩ ∈ s.calls ∧
          ∃ o, ⟨x.worker, x.promise + 1, o⟩ ∈ s.outcomes ∧ x.result = replyOf o) ∨
        (method ∉ RPC_METHODS ∧ x.result = .error (notBridged stackOf method).toError)) := by
  obtain ⟨k, method, args, hid, hk, hres⟩ := hI.answers _ _ (hI.settled x hx)
  obtain rfl : k = x.promise := by
    have hsucc : x.promise + 1 = k + 1 := hid
    omega
  refine ⟨method, args, hk, ?_⟩
  rcases hres with ⟨hm, o, ho, hres⟩ | hres
  · refine Or.inl ⟨hm, ?_, o, ho, hres⟩
    -- an outcome is that of a call
    have hkey : (x.worker, x.promise + 1) ∈ s.calls.map RawCall.key :=
      hI.outcomes.mem_iff.mp (List.mem_append_left _ (List.mem_map.mpr ⟨_, ho, rfl⟩))
    obtain ⟨⟨v, id, method', args'⟩, hc, heq⟩ := List.mem_map.mp hkey
    obtain ⟨rfl, rfl⟩ := Prod.mk.inj heq
    obtain ⟨k', as, hk', hmade, -, hargs⟩ := hI.made_of_call hc
    obtain rfl : x.promise = k' := by
      have hsucc : x.promise + 1 = k' + 1 := hk'
      omega
    obtain ⟨rfl, rfl⟩ := Prod.mk.inj (Option.some.inj (hmade.symm.trans hk))
    have hsame : args' = as.map Value.asBuffer := by
      rw [show args' = (as.map Value.clone).map toNapiArg from hargs, List.map_map]
      exact List.map_congr_left fun v _ => toNapiArg_clone v
    exact hsame ▸ hc
  · exact Or.inr hres

theorem dispatch_isSome {α : Type} {σ : Lanes (ι × α)} (h : σ.queue Prod.fst w ≠ []) :
    (σ.dispatch Prod.fst w).isSome := by
  obtain ⟨a, as, hqueue⟩ := List.exists_cons_of_ne_nil h
  have hmem : a ∈ σ.waiting.filter (·.1 = w) := by
    rw [show σ.waiting.filter (·.1 = w) = a :: as from hqueue]
    exact List.mem_cons_self
  simp only [Lanes.dispatch, Option.isSome_map, List.find?_isSome]
  exact ⟨a, List.mem_filter.mp hmem⟩

/-- Two workers wait for tasks; the second, which asked last, gets its first. -/
def twoWorkers : List (Act Bool Nat) :=
  [.invoke true "workerCreated" (.other 1), .invoke true "recvTaskMessageInWorker" (.other 1),
    .invoke false "recvTaskMessageInWorker" (.other 2), .deliver true none,
    .deliver false none, .deliver true none, .settle false 1 (.ok (.withData 7 ⟨true, [1, 2]⟩)),
    .settle true 2 (.error ⟨"", "closed", none⟩), .receive true, .receive false]

end TurbopackWasi.Workers
