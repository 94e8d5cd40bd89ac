import TurbopackWasi.HostPool.Fidelity

/-!
# TurbopackWasi.HostPool.Orphans

**Who holds a connection.** A connection that the host accepted is owned by a `TcpStream`
or waits in the channel of a `TcpListener`. Whoever lets go of one sends `dropConn`, the
drop of a `TcpStream` and an arrival after the drop of its listener alike; then the host
forgets the socket. The drop of a `TcpListener` does not: it drops the receivers of the
connections that wait, and their sockets and senders stay until the peer closes
(`queued_orphaned`).

`noOrphans_iff` says for which runs this is seen: `State.loses` are the connections that
a step lets go of in silence.
-/

namespace TurbopackWasi.HostPool

open TurbopackWasi.Lib

/-! ### Holders -/

/-- A `TcpStream` owns the connection. -/
def Guest.Owns (g : Guest) (n : Nat) : Prop := (g.conns n).isSome

/-- The connection waits in the channel of a living `TcpListener`. -/
def Guest.Queues (g : Guest) (n : Nat) : Prop :=
  ∃ l, (g.bound l).isSome ∧ n ∈ (g.backlog l).map Prod.snd

def Guest.Holds (g : Guest) (n : Nat) : Prop := g.Owns n ∨ g.Queues n

/-- Nothing is in flight: no call waits for the host, and no socket that broke has its
`close` to come. -/
def State.Quiet (s : State) : Prop :=
  s.calls.waiting = [] ∧
    ∀ n sk, s.host.sockets n = some sk → sk.destroyed = true → s.live n = false

/-- Every connection is held, or both sides have done with it. -/
structure NoOrphans (s : State) : Prop where
  /-- A connection in `STREAMS`. -/
  registered : ∀ id n, s.tables.reg.streams id = some n → (s.host.sockets n).isSome →
    s.guest.Holds n
  /-- A connection in the host's `conns`. -/
  mapped : ∀ i n, s.host.conns i = some n → s.guest.Holds n
  /-- Every other was closed, or the host was told. -/
  rest : ∀ n sk, s.host.sockets n = some sk → ¬s.guest.Holds n →
    s.live n = false ∨ .dropConn (.ofInt 32 sk.connId) ∈ s.calls.executed

/-- The open connections that a step lets go of without a word to the host. -/
def State.loses (s : State) : Act → Nat → Prop
  | .dropListener l, n => n ∈ (s.guest.backlog l).map Prod.snd ∧ s.live n = true
  | _, _ => False

/-- The host has an id for a new connection. -/
def Numbered (s : State) : Act → Prop
  | .connect _ => 0 ≤ s.host.nextConnId
  | _ => True

/-- No `TcpListener` is dropped while open connections wait in its channel. -/
def Tidy (s : State) (a : Act) : Prop := Numbered s a ∧ ∀ n, ¬s.loses a n

/-! ### The ledger of connections -/

/-- Who holds a connection, and what the maps of the two sides say of it; `lost` are the
connections that nobody holds although the host was not told. -/
structure Ledger (g : Guest) (σ : Lanes Call) (h : Host) (streams : Id → Option Nat)
    (live : Nat → Bool) (made allocated : Nat) (lost : Nat → Prop) : Prop where
  wired : Wired g h made
  whole : σ.Whole
  listener : ∀ id l, g.listeners id = some l → g.bound l = some id
  bound : ∀ l id, g.bound l = some id → l < allocated
  queue : ∀ l, g.bound l = none → g.backlog l = []
  below : ∀ id n, streams id = some n → n < made
  entry : ∀ id n sk, streams id = some n → h.sockets n = some sk →
    id = .ofInt 32 sk.connId ∧ live n = true ∧ .dropConn id ∉ σ.issued
  mapped : ∀ i n, h.conns i = some n → live n = true
  forgot : ∀ id, .dropConn id ∈ σ.executed → h.conns id.toNat = none
  told : ∀ id, .dropConn id ∈ σ.issued →
    ∃ n sk, h.sockets n = some sk ∧ id = .ofInt 32 sk.connId ∧ ¬g.Holds n ∧ ¬lost n
  held : ∀ n sk, h.sockets n = some sk → g.Holds n ∨ live n = false ∨
    .dropConn (.ofInt 32 sk.connId) ∈ σ.issued ∨ lost n
  unheld : ∀ n, lost n → (h.sockets n).isSome ∧ ¬g.Holds n
  child : ∀ n req, .spawn n req ∈ σ.issued →
    n + 1 < made ∧ h.sockets n = none ∧ h.sockets (n + 1) = none
  session : ∀ n ses, h.sessions n = some ses → ∃ req, .spawn n req ∈ σ.issued

section Ledger

variable {g : Guest} {σ : Lanes Call} {h : Host} {streams : Id → Option Nat} {live : Nat → Bool}
  {made allocated : Nat} {lost : Nat → Prop}

theorem ledger_congr (hL : Ledger g σ h streams live made allocated lost) (lost' : Nat → Prop)
    (hlost : ∀ n, lost n ↔ lost' n) : Ledger g σ h streams live made allocated lost' := by
  obtain rfl : lost = lost' := funext fun n => propext (hlost n)
  exact hL

/-- What somebody holds is a connection. -/
theorem Wired.socket_of_holds (hW : Wired g h made) {n : Nat} (hn : g.Holds n) :
    ∃ sk, h.sockets n = some sk := by
  rcases hn with hown | ⟨l, -, hqueue⟩
  · obtain ⟨stream, hs⟩ := Option.isSome_iff_exists.mp hown
    obtain ⟨sk, hsk, -⟩ := hW.stream n stream hs
    exact ⟨sk, hsk⟩
  · obtain ⟨⟨id, m⟩, hm, rfl⟩ := List.mem_map.mp hqueue
    obtain ⟨-, sk, hsk, -⟩ := hW.backlog l id m hm
    exact ⟨sk, hsk⟩

/-- A number in a channel is queued: the listener is alive. -/
theorem Ledger.queues (hL : Ledger g σ h streams live made allocated lost) {l n : Nat}
    (hn : n ∈ (g.backlog l).map Prod.snd) : g.Queues n := by
  refine ⟨l, ?_, hn⟩
  cases hb : g.bound l with
  | some id => rfl
  | none =>
      rw [hL.queue l hb] at hn
      simp at hn

/-- The guest's handles change hands; the listeners' ids come from the counter. -/
theorem ledger_guest (hL : Ledger g σ h streams live made allocated lost) {g' : Guest}
    {allocated' : Nat} {lost' : Nat → Prop} (hW : Wired g' h made)
    (hlistener : ∀ id l, g'.listeners id = some l → g'.bound l = some id)
    (hbound : ∀ l id, g'.bound l = some id → l < allocated')
    (hqueue : ∀ l, g'.bound l = none → g'.backlog l = [])
    (hold : ∀ n, g'.Holds n → g.Holds n ∨ lost n)
    (hlost : ∀ n, lost' n → (g.Holds n ∨ lost n) ∧ ¬g'.Holds n)
    (hkeep : ∀ n, g.Holds n ∨ lost n → g'.Holds n ∨ live n = false ∨ lost' n) :
    Ledger g' σ h streams live made allocated' lost' where
  wired := hW
  whole := hL.whole
  listener := hlistener
  bound := hbound
  queue := hqueue
  below := hL.below
  entry := hL.entry
  mapped := hL.mapped
  forgot := hL.forgot
  told := by
    intro id hid
    obtain ⟨n, sk, hsk, he, hno, hnot⟩ := hL.told id hid
    have hnone : ¬(g.Holds n ∨ lost n) := not_or.mpr ⟨hno, hnot⟩
    exact ⟨n, sk, hsk, he, fun hn => hnone (hold n hn), fun hn => hnone (hlost n hn).1⟩
  held := by
    intro n sk hsk
    rcases hL.held n sk hsk with hn | hclosed | hissued | hn
    · rcases hkeep n (.inl hn) with hn | hclosed | hn
      · exact .inl hn
      · exact .inr (.inl hclosed)
      · exact .inr (.inr (.inr hn))
    · exact .inr (.inl hclosed)
    · exact .inr (.inr (.inl hissued))
    · rcases hkeep n (.inr hn) with hn | hclosed | hn
      · exact .inl hn
      · exact .inr (.inl hclosed)
      · exact .inr (.inr (.inr hn))
  unheld := by
    intro n hn
    obtain ⟨hbefore, hno⟩ := hlost n hn
    refine ⟨?_, hno⟩
    rcases hbefore with hheld | hgone
    · obtain ⟨sk, hsk⟩ := hL.wired.socket_of_holds hheld
      simp [hsk]
    · exact (hL.unheld n hgone).1
  child := hL.child
  session := hL.session

/-- The handles change, but not whom somebody holds. -/
theorem ledger_same (hL : Ledger g σ h streams live made allocated lost) {g' : Guest}
    {allocated' : Nat} (hW : Wired g' h made)
    (hlistener : ∀ id l, g'.listeners id = some l → g'.bound l = some id)
    (hbound : ∀ l id, g'.bound l = some id → l < allocated')
    (hqueue : ∀ l, g'.bound l = none → g'.backlog l = [])
    (hholds : ∀ n, g'.Holds n ↔ g.Holds n) :
    Ledger g' σ h streams live made allocated' lost := by
  refine ledger_guest hL hW hlistener hbound hqueue ?_ ?_ ?_
  · exact fun n hn => .inl ((hholds n).mp hn)
  · exact fun n hn => ⟨.inr hn, fun hh => (hL.unheld n hn).2 ((hholds n).mp hh)⟩
  · intro n hor
    rcases hor with hn | hn
    · exact .inl ((hholds n).mpr hn)
    · exact .inr (.inr hn)

/-- A call is issued. A `dropConn` is for a connection that was lost. -/
theorem ledger_issue (hL : Ledger g σ h streams live made allocated lost) (c : Call)
    (lost' : Nat → Prop)
    (hdrop : ∀ id, c = .dropConn id → streams id = none ∧
      ∃ n sk, h.sockets n = some sk ∧ id = .ofInt 32 sk.connId ∧ lost n ∧ ¬lost' n)
    (hspawn : ∀ n req, c = .spawn n req →
      n + 1 < made ∧ h.sockets n = none ∧ h.sockets (n + 1) = none)
    (hlost : ∀ n, lost' n → lost n)
    (hkeep : ∀ n sk, lost n → h.sockets n = some sk →
      lost' n ∨ c = .dropConn (.ofInt 32 sk.connId)) :
    Ledger g (σ.issue c) h streams live made allocated lost' where
  wired := hL.wired
  whole := Lanes.whole_issue hL.whole c
  listener := hL.listener
  bound := hL.bound
  queue := hL.queue
  below := hL.below
  entry := by
    intro id n sk hn hsk
    obtain ⟨hid, hlive, hno⟩ := hL.entry id n sk hn hsk
    refine ⟨hid, hlive, fun hmem => ?_⟩
    rcases List.mem_append.mp hmem with hold | hnew
    · exact hno hold
    · have hnone := (hdrop id (List.mem_singleton.mp hnew).symm).1
      simp [hnone] at hn
  mapped := hL.mapped
  forgot := hL.forgot
  told := by
    intro id hmem
    rcases List.mem_append.mp hmem with hold | hnew
    · obtain ⟨n, sk, hsk, hid, hno, hnot⟩ := hL.told id hold
      exact ⟨n, sk, hsk, hid, hno, fun hn => hnot (hlost n hn)⟩
    · obtain ⟨-, n, sk, hsk, hid, hn, hnot⟩ := hdrop id (List.mem_singleton.mp hnew).symm
      exact ⟨n, sk, hsk, hid, (hL.unheld n hn).2, hnot⟩
  held := by
    intro n sk hsk
    rcases hL.held n sk hsk with hn | hclosed | hissued | hn
    · exact .inl hn
    · exact .inr (.inl hclosed)
    · exact .inr (.inr (.inl (List.mem_append_left _ hissued)))
    · rcases hkeep n sk hn hsk with hn | rfl
      · exact .inr (.inr (.inr hn))
      · exact .inr (.inr (.inl (List.mem_append_right _ List.mem_cons_self)))
  unheld := fun n hn => hL.unheld n (hlost n hn)
  child := by
    intro n req hmem
    rcases List.mem_append.mp hmem with hold | hnew
    · exact hL.child n req hold
    · exact hspawn n req (List.mem_singleton.mp hnew).symm
  session := by
    intro n ses hn
    obtain ⟨req, hreq⟩ := hL.session n ses hn
    exact ⟨req, List.mem_append_left _ hreq⟩

/-- A call that is neither a `spawn` nor a `dropConn` is issued. -/
theorem ledger_plain (hL : Ledger g σ h streams live made allocated lost) (c : Call)
    (hdrop : ∀ id, c ≠ .dropConn id) (hspawn : ∀ n req, c ≠ .spawn n req) :
    Ledger g (σ.issue c) h streams live made allocated lost :=
  ledger_issue hL c lost (fun id hc => absurd hc (hdrop id)) (fun n req hc => absurd hc (hspawn n req))
    (fun _ hn => hn) (fun _ _ hn _ => .inl hn)

/-- The host is told of a connection that was lost. -/
theorem ledger_dropConn (hL : Ledger g σ h streams live made allocated lost) {n : Nat}
    {sk : Socket} (hsk : h.sockets n = some sk) (hn : lost n)
    (hgone : streams (.ofInt 32 sk.connId) = none) :
    Ledger g (σ.issue (.dropConn (.ofInt 32 sk.connId))) h streams live made allocated
      (fun m => lost m ∧ m ≠ n) := by
  refine ledger_issue hL _ _ ?_ (by simp) (fun _ hm => hm.1) ?_
  · intro id hid
    obtain rfl := Call.dropConn.inj hid
    exact ⟨hgone, n, sk, hsk, rfl, hn, fun hm => hm.2 rfl⟩
  · intro m sk' hm hsk'
    by_cases hmn : m = n
    · subst hmn
      obtain rfl := Option.some.inj (hsk.symm.trans hsk')
      exact .inr rfl
    · exact .inl ⟨hm, hmn⟩

/-- Entries of `STREAMS` go. -/
theorem ledger_streams (hL : Ledger g σ h streams live made allocated lost)
    (streams' : Id → Option Nat) (hsub : ∀ id n, streams' id = some n → streams id = some n) :
    Ledger g σ h streams' live made allocated lost :=
  { hL with
    below := fun id n hn => hL.below id n (hsub id n hn)
    entry := fun id n sk hn => hL.entry id n sk (hsub id n hn) }

/-- A stream that is no connection is registered. -/
theorem ledger_insert {r : Registry} (hL : Ledger g σ h r.streams live r.made allocated lost)
    (id : Id) : Ledger g σ h (r.insert id).streams live (r.insert id).made allocated lost := by
  have hmade := r.insert_made id
  have hget : ∀ id' n, (r.insert id).streams id' = some n →
      n = r.made ∨ r.streams id' = some n := by
    intro id' n hn
    rw [insert_streams_eq] at hn
    split at hn
    · exact .inl (Option.some.inj hn).symm
    · exact .inr hn
  refine { hL with wired := ?_, below := ?_, entry := ?_, child := ?_ }
  · exact wired_mono hL.wired (by omega)
  · intro id' n hn
    rcases hget id' n hn with rfl | hold
    · omega
    · have hlt := hL.below id' n hold
      omega
  · intro id' n sk hn hsk
    rcases hget id' n hn with rfl | hold
    · exact absurd (hL.wired.range _ sk hsk).1 (Nat.lt_irrefl _)
    · exact hL.entry id' n sk hold hsk
  · intro n req hmem
    obtain ⟨hlt, hnone⟩ := hL.child n req hmem
    exact ⟨by omega, hnone⟩

/-- A stream that is no connection opens or closes. -/
theorem ledger_live (hL : Ledger g σ h streams live made allocated lost) {live' : Nat → Bool}
    (hlive : ∀ n sk, h.sockets n = some sk → live' n = live n) :
    Ledger g σ h streams live' made allocated lost := by
  refine { hL with entry := ?_, mapped := ?_, held := ?_ }
  · intro id n sk hn hsk
    rw [hlive n sk hsk]
    exact hL.entry id n sk hn hsk
  · intro i n hn
    obtain ⟨sk, hsk, -⟩ := hL.wired.lookup i n hn
    rw [hlive n sk hsk]
    exact hL.mapped i n hn
  · intro n sk hsk
    rw [hlive n sk hsk]
    exact hL.held n sk hsk

/-- A stream closes that is in neither map. -/
theorem ledger_shut (hL : Ledger g σ h streams live made allocated lost) {n : Nat}
    (hstreams : ∀ id, streams id ≠ some n) (hconns : ∀ i, h.conns i ≠ some n) :
    Ledger g σ h streams (Function.update live n false) made allocated lost := by
  have hlive : ∀ m, m ≠ n → Function.update live n false m = live m :=
    fun m hm => Function.update_of_ne hm _ _
  refine { hL with entry := ?_, mapped := ?_, held := ?_ }
  · intro id m sk hm hsk
    rw [hlive m fun he => hstreams id (he ▸ hm)]
    exact hL.entry id m sk hm hsk
  · intro i m hm
    rw [hlive m fun he => hconns i (he ▸ hm)]
    exact hL.mapped i m hm
  · intro m sk hsk
    by_cases hmn : m = n
    · subst hmn
      exact .inr (.inl (Function.update_self ..))
    · rw [hlive m hmn]
      exact hL.held m sk hsk

/-- A connection that nobody holds waits at a listener. -/
theorem ledger_enqueue {n : Nat}
    (hL : Ledger g σ h streams live made allocated (fun m => lost m ∨ m = n)) {l : Nat} {id : Id}
    {sk : Socket} (hsk : h.sockets n = some sk) (hl : g.bound l = some id) (hlost : ¬lost n) :
    Ledger { g with
        backlog := Function.update g.backlog l (g.backlog l ++ [(.ofInt 32 sk.connId, n)]) }
      σ h streams live made allocated lost := by
  obtain ⟨-, hno⟩ := hL.unheld n (.inr rfl)
  have hnone : g.conns n = none := by
    cases hn : g.conns n with
    | none => rfl
    | some stream => exact absurd (.inl (by simp [Guest.Owns, hn])) hno
  have hfree : ∀ l', n ∉ (g.backlog l').map Prod.snd :=
    fun l' hn => hno (.inr (hL.queues hn))
  have hother : ∀ l', l' ≠ l → Function.update g.backlog l
      (g.backlog l ++ [(.ofInt 32 sk.connId, n)]) l' = g.backlog l' :=
    fun l' hne => Function.update_of_ne hne _ _
  let g' : Guest := { g with
    backlog := Function.update g.backlog l (g.backlog l ++ [(.ofInt 32 sk.connId, n)]) }
  have hqueues : ∀ m, g'.Queues m ↔ g.Queues m ∨ m = n := by
    intro m
    constructor
    · intro hpair
      obtain ⟨l', hl', hm⟩ := hpair
      by_cases hne : l' = l
      · subst hne
        have hor : m ∈ (g.backlog l').map Prod.snd ∨ m = n := by simpa [g'] using hm
        exact hor.imp_left hL.queues
      · exact .inl ⟨l', hl', by simpa [g', hne] using hm⟩
    · intro hor
      rcases hor with ⟨l', hl', hm⟩ | rfl
      · refine ⟨l', hl', ?_⟩
        by_cases hne : l' = l
        · subst hne
          simp only [g', Function.update_self, List.map_append]
          exact List.mem_append_left _ hm
        · simpa [g', hne] using hm
      · exact ⟨l, by simp [g', hl], by simp [g']⟩
  have hholds : ∀ m, g'.Holds m ↔ g.Holds m ∨ m = n := by
    intro m
    unfold Guest.Holds
    rw [hqueues, or_assoc]
    rfl
  refine ledger_guest hL (wired_enqueue hL.wired hsk rfl hnone hfree) hL.listener hL.bound ?_ ?_
    ?_ ?_
  · intro l' hl'
    have hne : l' ≠ l := by
      intro he
      rw [he] at hl'
      simp [hl] at hl'
    exact (hother l' hne).trans (hL.queue l' hl')
  · intro m hm
    rcases (hholds m).mp hm with hold | rfl
    · exact .inl hold
    · exact .inr (.inr rfl)
  · intro m hm
    refine ⟨.inr (.inl hm), fun hh => ?_⟩
    rcases (hholds m).mp hh with hold | rfl
    · exact (hL.unheld m (.inl hm)).2 hold
    · exact hlost hm
  · intro m hor
    rcases hor with hm | hm | hm
    · exact .inl ((hholds m).mpr (.inl hm))
    · exact .inr (.inr hm)
    · exact .inl ((hholds m).mpr (.inr hm))

/-- The host's sockets change, but not their ids, and entries of its map go. -/
theorem ledger_host (hL : Ledger g σ h streams live made allocated lost) {h' : Host}
    (hW : Wired g h' made)
    (hsub : ∀ n sk, h'.sockets n = some sk →
      ∃ sk', h.sockets n = some sk' ∧ sk'.connId = sk.connId)
    (hsup : ∀ n sk, h.sockets n = some sk →
      ∃ sk', h'.sockets n = some sk' ∧ sk'.connId = sk.connId)
    (hconns : ∀ i n, h'.conns i = some n → h.conns i = some n)
    (hsession : ∀ n ses, h'.sessions n = some ses → ∃ req, .spawn n req ∈ σ.issued) :
    Ledger g σ h' streams live made allocated lost := by
  have hnone : ∀ n, h.sockets n = none → h'.sockets n = none := by
    intro n hn
    refine Option.eq_none_iff_forall_ne_some.mpr fun sk hsk => ?_
    obtain ⟨sk', hsk', -⟩ := hsub n sk hsk
    simp [hn] at hsk'
  refine { hL with wired := hW, entry := ?_, mapped := ?_, forgot := ?_, told := ?_, held := ?_,
                   unheld := ?_, child := ?_, session := hsession }
  · intro id n sk hn hsk
    obtain ⟨sk', hsk', hid⟩ := hsub n sk hsk
    rw [← hid]
    exact hL.entry id n sk' hn hsk'
  · intro i n hn
    exact hL.mapped i n (hconns i n hn)
  · intro id hmem
    refine Option.eq_none_iff_forall_ne_some.mpr fun n hn => ?_
    have hold := hconns _ n hn
    simp [hL.forgot id hmem] at hold
  · intro id hmem
    obtain ⟨n, sk, hsk, he, hrest⟩ := hL.told id hmem
    obtain ⟨sk', hsk', hid⟩ := hsup n sk hsk
    exact ⟨n, sk', hsk', by rw [he, hid], hrest⟩
  · intro n sk hsk
    obtain ⟨sk', hsk', hid⟩ := hsub n sk hsk
    rw [← hid]
    exact hL.held n sk' hsk'
  · intro n hn
    obtain ⟨hsome, hno⟩ := hL.unheld n hn
    obtain ⟨sk, hsk⟩ := Option.isSome_iff_exists.mp hsome
    obtain ⟨sk', hsk', -⟩ := hsup n sk hsk
    exact ⟨by simp [hsk'], hno⟩
  · intro n req hmem
    obtain ⟨hlt, hn, hn'⟩ := hL.child n req hmem
    exact ⟨hlt, hnone n hn, hnone (n + 1) hn'⟩

/-- A session of the host comes or changes. -/
theorem ledger_session (hL : Ledger g σ h streams live made allocated lost) {n : Nat}
    {req : SpawnReq} (hspawn : .spawn n req ∈ σ.issued) (session : Option Session) :
    Ledger g σ { h with sessions := Function.update h.sessions n session } streams live made
      allocated lost := by
  refine ledger_host hL (wired_host hL.wired rfl rfl rfl) (fun m sk hm => ⟨sk, hm, rfl⟩)
    (fun m sk hm => ⟨sk, hm, rfl⟩) (fun i m hm => hm) ?_
  intro m ses hm
  by_cases hmn : m = n
  · subst hmn
    exact ⟨req, hspawn⟩
  · exact hL.session m ses (by simpa [hmn] using hm)

/-- The host has taken a call; a `dropConn` has made it forget the id. -/
theorem ledger_take (hL : Ledger g σ h streams live made allocated lost) {σ' : Lanes Call}
    {c : Call} (hwhole : σ'.Whole) (hissued : σ'.issued = σ.issued)
    (hexec : σ'.executed = σ.executed ++ [c])
    (hforgot : ∀ id, c = .dropConn id → h.conns id.toNat = none) :
    Ledger g σ' h streams live made allocated lost := by
  refine { hL with whole := hwhole, entry := ?_, forgot := ?_, told := ?_, held := ?_,
                   child := ?_, session := ?_ }
  · rw [hissued]
    exact hL.entry
  · intro id hmem
    rw [hexec] at hmem
    rcases List.mem_append.mp hmem with hold | hnew
    · exact hL.forgot id hold
    · exact hforgot id (List.mem_singleton.mp hnew).symm
  · rw [hissued]
    exact hL.told
  · rw [hissued]
    exact hL.held
  · rw [hissued]
    exact hL.child
  · rw [hissued]
    exact hL.session

/-- **A connection arrives**, and is registered. Nobody holds it yet. -/
theorem ledger_connect {r : Registry} (hL : Ledger g σ h r.streams live r.made allocated lost)
    (hroom : 0 ≤ h.nextConnId) :
    Ledger g σ (h.connect r.made) (r.insert (.ofInt 32 h.nextConnId)).streams
      (Function.update live r.made true) (r.insert (.ofInt 32 h.nextConnId)).made allocated
      (fun n => lost n ∨ n = r.made) := by
  have hmade := r.insert_made (.ofInt 32 h.nextConnId)
  have hlt : ∀ n sk, h.sockets n = some sk → n < r.made :=
    fun n sk hsk => (hL.wired.range n sk hsk).1
  have hkeep : ∀ n sk, h.sockets n = some sk → (h.connect r.made).sockets n = some sk := by
    intro n sk hsk
    exact Host.connect_sockets.mpr (.inr ⟨Nat.ne_of_lt (hlt n sk hsk), hsk⟩)
  have hnone : ∀ n, n < r.made → h.sockets n = none → (h.connect r.made).sockets n = none := by
    intro n hn hno
    refine Option.eq_none_iff_forall_ne_some.mpr fun sk hsk => ?_
    rcases Host.connect_sockets.mp hsk with ⟨rfl, -⟩ | ⟨-, hold⟩
    · exact Nat.lt_irrefl _ hn
    · simp [hno] at hold
  have hlive : ∀ n, n < r.made → Function.update live r.made true n = live n :=
    fun n hn => Function.update_of_ne (Nat.ne_of_lt hn) _ _
  -- nobody has heard of the id
  have hunknown : .dropConn (.ofInt 32 h.nextConnId) ∉ σ.issued := by
    intro hmem
    obtain ⟨n, sk, hsk, hid, -⟩ := hL.told _ hmem
    exact hL.wired.fresh hroom hsk hid
  have hnew : ¬g.Holds r.made := by
    intro hn
    obtain ⟨sk, hsk⟩ := hL.wired.socket_of_holds hn
    exact Nat.lt_irrefl _ (hlt _ sk hsk)
  refine { whole := hL.whole, listener := hL.listener, bound := hL.bound, queue := hL.queue,
           wired := ?_, below := ?_, entry := ?_, mapped := ?_, forgot := ?_, told := ?_,
           held := ?_, unheld := ?_, child := ?_, session := hL.session }
  · rw [hmade]
    exact wired_connect hL.wired hroom
  · intro id n hn
    rw [insert_streams_eq] at hn
    split at hn
    · obtain rfl := Option.some.inj hn
      omega
    · have hbelow := hL.below id n hn
      omega
  · intro id n sk hn hsk
    rw [insert_streams_eq] at hn
    split at hn
    · next he =>
        subst he
        obtain rfl := Option.some.inj hn
        rcases Host.connect_sockets.mp hsk with ⟨-, rfl⟩ | ⟨hne, -⟩
        · exact ⟨rfl, Function.update_self .., hunknown⟩
        · exact absurd rfl hne
    · have hbelow := hL.below id n hn
      rcases Host.connect_sockets.mp hsk with ⟨rfl, -⟩ | ⟨-, hold⟩
      · exact absurd hbelow (Nat.lt_irrefl _)
      · rw [hlive n hbelow]
        exact hL.entry id n sk hn hold
  · intro i n hn
    by_cases hi : i = h.nextConnId
    · subst hi
      obtain rfl : r.made = n := by simpa [Host.connect] using hn
      exact Function.update_self ..
    · have hold : h.conns i = some n := by simpa [Host.connect, hi] using hn
      obtain ⟨sk, hsk, -⟩ := hL.wired.lookup i n hold
      rw [hlive n (hlt n sk hsk)]
      exact hL.mapped i n hold
  · intro id hmem
    have hne : ((id.toNat : Nat) : Int) ≠ h.nextConnId := by
      intro he
      refine hunknown ?_
      rw [← he]
      simpa using hL.whole.issued_of_executed hmem
    rw [← hL.forgot id hmem]
    exact Function.update_of_ne hne _ _
  · intro id hmem
    obtain ⟨n, sk, hsk, hid, hno, hnot⟩ := hL.told id hmem
    refine ⟨n, sk, hkeep n sk hsk, hid, hno, fun hor => ?_⟩
    rcases hor with hn | rfl
    · exact hnot hn
    · exact Nat.lt_irrefl _ (hlt _ sk hsk)
  · intro n sk hsk
    rcases Host.connect_sockets.mp hsk with ⟨rfl, -⟩ | ⟨-, hold⟩
    · exact .inr (.inr (.inr (.inr rfl)))
    · rw [hlive n (hlt n sk hold)]
      rcases hL.held n sk hold with hn | hclosed | hissued | hn
      · exact .inl hn
      · exact .inr (.inl hclosed)
      · exact .inr (.inr (.inl hissued))
      · exact .inr (.inr (.inr (.inl hn)))
  · intro n hor
    rcases hor with hn | rfl
    · obtain ⟨hsome, hno⟩ := hL.unheld n hn
      obtain ⟨sk, hsk⟩ := Option.isSome_iff_exists.mp hsome
      exact ⟨by simp [hkeep n sk hsk], hno⟩
    · exact ⟨by simp [Host.connect], hnew⟩
  · intro n req hmem
    obtain ⟨hn, hno, hno'⟩ := hL.child n req hmem
    exact ⟨by omega, hnone n (by omega) hno, hnone (n + 1) hn hno'⟩

end Ledger

/-! ### The two sides' tables -/

/-- The host reports to the guest: no entry of `STREAMS` comes. -/
theorem apply_streams (T : Tables) (e : Effect) {id : Id} {n : Nat}
    (hn : (T.apply e).reg.streams id = some n) : T.reg.streams id = some n := by
  cases e with
  | push id' data =>
      cases data with
      | some bytes =>
          rw [Tables.apply, pushBytes_streams] at hn
          exact hn
      | none =>
          simp only [Tables.apply, Registry.pushBytes, remove_streams_eq] at hn
          split at hn
          · cases hn
          · exact hn
  | setChild id' m => exact hn
  | deleteChild id' => exact hn
  | procExit id' code =>
      rw [apply_reg T (by simp)] at hn
      exact hn

theorem applyAll_streams (es : List Effect) : ∀ (T : Tables) {id : Id} {n : Nat},
    (T.applyAll es).reg.streams id = some n → T.reg.streams id = some n := by
  induction es with
  | nil =>
      intro T id n hn
      exact hn
  | cons e es ih =>
      intro T id n hn
      exact apply_streams T e (ih (T.apply e) hn)

theorem dropReaders_streams (ns : List Nat) :
    ∀ r : Registry, (r.dropReaders ns).streams = r.streams := by
  induction ns with
  | nil => exact fun r => rfl
  | cons n ns ih => exact fun r => ih (r.dropReader n)

theorem onDropConn_conns (h : Host) (id : Id) :
    (h.onDropConn id).conns = Function.update h.conns id.toNat none := by
  rcases h.onDropConn_cases id with ⟨-, heq⟩ | ⟨n, sk, -, -, heq⟩ <;>
    exact congrArg Host.conns heq

theorem onCall_conns (h : Host) (children : Id → Option Nat) (c : Call) {i : Int} {n : Nat}
    (hn : (h.onCall children c).conns i = some n) : h.conns i = some n := by
  cases c with
  | spawn m req => exact hn
  | closeListener id => exact hn
  | listen id => exact hn
  | kill id =>
      simp only [Host.onCall] at hn
      split at hn <;> exact hn
  | write id bytes =>
      simp only [Host.onCall] at hn
      rcases h.onWrite_cases id bytes with ⟨-, heq⟩ | ⟨m, sk, -, -, heq⟩ <;>
        exact (congrFun (congrArg Host.conns heq) i).symm.trans hn
  | closeWrite id =>
      simp only [Host.onCall] at hn
      rcases h.onCloseWrite_cases id with ⟨-, heq⟩ | ⟨m, sk, -, -, heq⟩ <;>
        exact (congrFun (congrArg Host.conns heq) i).symm.trans hn
  | dropConn id =>
      simp only [Host.onCall, onDropConn_conns] at hn
      by_cases hi : i = id.toNat
      · subst hi
        simp at hn
      · simpa [hi] using hn

/-- The ledger of a state. -/
def State.Ledger (s : State) (lost : Nat → Prop) : Prop :=
  HostPool.Ledger s.guest s.calls s.host s.tables.reg.streams s.live s.tables.reg.made
    s.allocated lost

theorem deliver_live (s : State) (n : Nat) (bytes : Chunk) : (s.deliver n bytes).live = s.live := by
  funext m
  unfold State.live State.deliver
  by_cases hmn : m = n
  · subst hmn
    cases s.sources m with
    | none => simp
    | some src => simp
  · simp [hmn]

theorem finish_live (s : State) (n : Nat) : (s.finish n).live = Function.update s.live n false := by
  funext m
  unfold State.live State.finish
  by_cases hmn : m = n
  · subst hmn
    cases s.sources m with
    | none => simp
    | some src => simp
  · simp [hmn]

theorem openSources_live (s : State) {n m : Nat} (req : SpawnReq) (err : List Chunk) (live : Bool)
    (hn : m ≠ n) (hn' : m ≠ n + 1) : (s.openSources n req err live).live m = s.live m := by
  simp [State.live, State.openSources, hn, hn']

theorem live_open (s : State) (n : Nat) (id : Id) :
    State.live { s with sources := Function.update s.sources n (some ⟨id, [], true⟩) } =
      Function.update s.live n true := by
  funext m
  by_cases hmn : m = n
  · subst hmn
    simp [State.live]
  · simp [State.live, hmn]

/-! ### The steps -/

section Step

variable {N : Napi} {s s' : State} {lost : Nat → Prop}

/-- The host's effects on the tables. -/
theorem ledger_applyAll {g : Guest} {σ : Lanes Call} {h : Host} {T : Tables} {live : Nat → Bool}
    {allocated : Nat} (hL : HostPool.Ledger g σ h T.reg.streams live T.reg.made allocated lost)
    (es : List Effect) :
    HostPool.Ledger g σ h (T.applyAll es).reg.streams live (T.applyAll es).reg.made allocated
      lost := by
  rw [Tables.applyAll_made]
  exact ledger_streams hL _ fun _ _ hn => applyAll_streams es T hn

/-- The handles of children and the counter do not matter. -/
theorem ledger_counter {g g' : Guest} {σ : Lanes Call} {h : Host} {streams : Id → Option Nat}
    {live : Nat → Bool} {made allocated allocated' : Nat}
    (hL : HostPool.Ledger g σ h streams live made allocated lost)
    (hconns : g'.conns = g.conns) (hbacklog : g'.backlog = g.backlog)
    (hlisteners : g'.listeners = g.listeners) (hbound : g'.bound = g.bound)
    (hle : allocated ≤ allocated') :
    HostPool.Ledger g' σ h streams live made allocated' lost := by
  refine ledger_same hL (wired_guest hL.wired hconns hbacklog) ?_ ?_ ?_ ?_
  · rw [hlisteners, hbound]
    exact hL.listener
  · rw [hbound]
    exact fun l id hl => (hL.bound l id hl).trans_le hle
  · rw [hbound, hbacklog]
    exact hL.queue
  · intro n
    simp only [Guest.Holds, Guest.Owns, Guest.Queues, hconns, hbacklog, hbound]

theorem ledger_spawn (hL : s.Ledger lost) (cmd : Command) : (s.spawn cmd).Ledger lost := by
  have hinsert := ledger_insert (ledger_insert hL (s.guest.nextId + 1)) (s.guest.nextId + 2)
  have hmade : ((s.tables.reg.insert (s.guest.nextId + 1)).insert (s.guest.nextId + 2)).made =
      s.tables.reg.made + 2 := by
    rw [Registry.insert_made, Registry.insert_made]
  have hfree : ∀ n, s.tables.reg.made ≤ n → s.host.sockets n = none := by
    intro n hn
    refine Option.eq_none_iff_forall_ne_some.mpr fun sk hsk => ?_
    exact absurd (hL.wired.range n sk hsk).1 (Nat.not_lt_of_le hn)
  have hissue := ledger_issue hinsert (.spawn s.tables.reg.made (cmd.req s.guest.nextId))
    lost (by simp) ?_ (fun _ hn => hn) (fun _ _ hn _ => .inl hn)
  · exact ledger_counter hissue rfl rfl rfl rfl (Nat.le_add_right _ 3)
  · intro n req hc
    obtain ⟨rfl, -⟩ := Call.spawn.inj hc
    exact ⟨by omega, hfree _ le_rfl, hfree _ (Nat.le_succ _)⟩

theorem ledger_startKill (hL : s.Ledger lost) {n : Nat} (h : s.startKill n = some s') :
    s'.Ledger lost := by
  obtain ⟨child, hn, rfl⟩ := Option.map_eq_some_iff.mp h
  dsimp only
  split
  · exact hL
  · exact ledger_counter (ledger_plain hL (.kill child.procId) (by simp) (by simp))
      rfl rfl rfl rfl le_rfl

theorem ledger_dropChild (hL : s.Ledger lost) {n : Nat} (h : s.dropChild n = some s') :
    s'.Ledger lost := by
  obtain ⟨child, hn, rfl⟩ := Option.map_eq_some_iff.mp h
  dsimp only
  split
  · exact ledger_counter (ledger_plain hL (.kill child.procId) (by simp) (by simp))
      rfl rfl rfl rfl le_rfl
  · exact ledger_counter hL rfl rfl rfl rfl le_rfl

theorem ledger_bind (hL : s.Ledger lost) : s.bind.Ledger lost := by
  have hissue := ledger_plain hL (.listen s.guest.nextId) (by simp) (by simp)
  -- the number of the new listener is fresh
  have hfresh : ∀ l id, s.guest.bound l = some id → l ≠ s.allocated :=
    fun l id hl => Nat.ne_of_lt (hL.bound l id hl)
  have hbound : ∀ l, s.guest.bound l ≠ none →
      Function.update s.guest.bound s.allocated (some s.guest.nextId) l = s.guest.bound l := by
    intro l hl
    obtain ⟨id, hid⟩ := Option.ne_none_iff_exists'.mp hl
    exact Function.update_of_ne (hfresh l id hid) _ _
  refine ledger_same hissue (wired_guest hL.wired rfl rfl) ?_ ?_ ?_ ?_
  · intro id l hl
    change Function.update s.guest.listeners s.guest.nextId (some s.allocated) id = some l at hl
    show Function.update s.guest.bound s.allocated (some s.guest.nextId) l = some id
    by_cases hid : id = s.guest.nextId
    · subst hid
      obtain rfl : s.allocated = l := by simpa using hl
      exact Function.update_self ..
    · have hold := hL.listener id l (by simpa [hid] using hl)
      rw [hbound l (by simp [hold]), hold]
  · intro l id hl
    change Function.update s.guest.bound s.allocated (some s.guest.nextId) l = some id at hl
    show l < s.allocated + 1
    by_cases hla : l = s.allocated
    · omega
    · have hlt := hL.bound l id (by simpa [hla] using hl)
      omega
  · intro l hl
    change Function.update s.guest.bound s.allocated (some s.guest.nextId) l = none at hl
    refine hL.queue l ?_
    by_cases hla : l = s.allocated
    · subst hla
      simp at hl
    · simpa [hla] using hl
  · intro n
    constructor
    · intro hn
      rcases hn with hown | ⟨l, -, hqueue⟩
      · exact .inl hown
      · exact .inr (hL.queues hqueue)
    · intro hn
      rcases hn with hown | ⟨l, hl, hqueue⟩
      · exact .inl hown
      · refine .inr ⟨l, ?_, hqueue⟩
        show (Function.update s.guest.bound s.allocated (some s.guest.nextId) l).isSome
        rw [hbound l (by simpa [Option.isSome_iff_ne_none] using hl)]
        exact hl

theorem ledger_accept (hL : s.Ledger lost) {l : Nat} (h : s.accept l = some s') :
    s'.Ledger lost := by
  obtain ⟨lid, id, n, rest, hl, hbacklog, rfl⟩ := State.accept_eq_some h
  have hmem : ∀ m, m ∈ (s.guest.backlog l).map Prod.snd ↔ m = n ∨ m ∈ rest.map Prod.snd := by
    simp [hbacklog]
  have hconns : ∀ m, m ≠ n →
      Function.update s.guest.conns n (some ⟨id, false⟩) m = s.guest.conns m :=
    fun m hm => Function.update_of_ne hm _ _
  have hother : ∀ l', l' ≠ l → Function.update s.guest.backlog l rest l' = s.guest.backlog l' :=
    fun l' hl' => Function.update_of_ne hl' _ _
  refine ledger_same hL (wired_guest (wired_accept hL.wired hbacklog) rfl rfl) hL.listener
    hL.bound ?_ ?_
  · intro l' hl'
    have hne : l' ≠ l := by
      intro he
      rw [he] at hl'
      simp [hl] at hl'
    exact (hother l' hne).trans (hL.queue l' hl')
  · intro m
    constructor
    · intro hm
      rcases hm with hown | ⟨l', hl', hqueue⟩
      · by_cases hmn : m = n
        · exact .inr (hL.queues ((hmem m).mpr (.inl hmn)))
        · exact .inl ((congrArg Option.isSome (hconns m hmn)).symm.trans hown)
      · change m ∈ (Function.update s.guest.backlog l rest l').map Prod.snd at hqueue
        by_cases hll : l' = l
        · subst hll
          rw [Function.update_self] at hqueue
          exact .inr (hL.queues ((hmem m).mpr (.inr hqueue)))
        · rw [hother l' hll] at hqueue
          exact .inr (hL.queues hqueue)
    · intro hm
      by_cases hmn : m = n
      · subst hmn
        exact .inl (by simp [Guest.Owns])
      · rcases hm with hown | ⟨l', hl', hqueue⟩
        · exact .inl ((congrArg Option.isSome (hconns m hmn)).trans hown)
        · refine .inr ⟨l', hl', ?_⟩
          show m ∈ (Function.update s.guest.backlog l rest l').map Prod.snd
          by_cases hll : l' = l
          · subst hll
            rw [Function.update_self]
            exact ((hmem m).mp hqueue).resolve_left hmn
          · rw [hother l' hll]
            exact hqueue

/-- **A `TcpListener` is dropped**, and with it what waits in its channel. -/
theorem ledger_dropListener (hL : s.Ledger lost) {l : Nat} (h : s.dropListener l = some s') :
    s'.Ledger (fun n => lost n ∨ s.loses (.dropListener l) n) := by
  obtain ⟨id, hl, rfl⟩ := Option.map_eq_some_iff.mp h
  have hbound : ∀ l', l' ≠ l → Function.update s.guest.bound l none l' = s.guest.bound l' :=
    fun l' hl' => Function.update_of_ne hl' _ _
  have hbacklog : ∀ l', l' ≠ l → Function.update s.guest.backlog l [] l' = s.guest.backlog l' :=
    fun l' hl' => Function.update_of_ne hl' _ _
  let g : Guest := { s.guest with
    listeners := Function.update s.guest.listeners id none
    bound := Function.update s.guest.bound l none
    backlog := Function.update s.guest.backlog l [] }
  have hqueues : ∀ n, g.Queues n ↔ ∃ l', l' ≠ l ∧ (s.guest.bound l').isSome ∧
      n ∈ (s.guest.backlog l').map Prod.snd := by
    intro n
    constructor
    · intro hpair
      obtain ⟨l', hl', hn⟩ := hpair
      have hne : l' ≠ l := by
        intro he
        subst he
        simp [g] at hl'
      exact ⟨l', hne, by simpa [g, hne] using hl', by simpa [g, hne] using hn⟩
    · intro hpair
      obtain ⟨l', hne, hl', hn⟩ := hpair
      exact ⟨l', by simpa [g, hne] using hl', by simpa [g, hne] using hn⟩
  have hhold : ∀ n, g.Holds n → s.guest.Holds n := by
    intro n hn
    rcases hn with hown | hqueue
    · exact .inl hown
    · obtain ⟨l', -, hl', hmem⟩ := (hqueues n).mp hqueue
      exact .inr ⟨l', hl', hmem⟩
  have hguest : HostPool.Ledger g s.calls s.host s.tables.reg.streams s.live s.tables.reg.made
      s.allocated (fun n => lost n ∨ s.loses (.dropListener l) n) := by
    refine ledger_guest hL (wired_guest (wired_backlog hL.wired (List.nil_sublist _)) rfl rfl)
      ?_ ?_ ?_ ?_ ?_ ?_
    · intro id' l' hl'
      by_cases hid : id' = id
      · subst hid
        simp [g] at hl'
      · have hold := hL.listener id' l' (by simpa [g, hid] using hl')
        have hne : l' ≠ l := by
          intro he
          subst he
          exact hid (Option.some.inj (hold.symm.trans hl))
        exact (hbound l' hne).trans hold
    · intro l' id' hl'
      by_cases hne : l' = l
      · subst hne
        simp [g] at hl'
      · exact hL.bound l' id' (by simpa [g, hne] using hl')
    · intro l' hl'
      by_cases hne : l' = l
      · subst hne
        exact Function.update_self ..
      · exact (hbacklog l' hne).trans (hL.queue l' (by simpa [g, hne] using hl'))
    · exact fun n hn => .inl (hhold n hn)
    · intro n hor
      rcases hor with hn | ⟨hmem, -⟩
      · exact ⟨.inr hn, fun hh => (hL.unheld n hn).2 (hhold n hh)⟩
      · refine ⟨.inl (.inr (hL.queues hmem)), fun hh => ?_⟩
        rcases hh with hown | hqueue
        · obtain ⟨⟨id', m⟩, hm, rfl⟩ := List.mem_map.mp hmem
          have hnone := (hL.wired.backlog l id' m hm).1
          simp [Guest.Owns, g, hnone] at hown
        · obtain ⟨l', hne, -, hmem'⟩ := (hqueues n).mp hqueue
          exact hne (hL.wired.disjoint l' l n hmem' hmem)
    · intro n hor
      rcases hor with (hown | ⟨l', hl', hmem⟩) | hn
      · exact .inl (.inl hown)
      · by_cases hne : l' = l
        · subst hne
          cases hlive : s.live n with
          | false => exact .inr (.inl rfl)
          | true => exact .inr (.inr (.inr ⟨hmem, hlive⟩))
        · exact .inl (.inr ((hqueues n).mpr ⟨l', hne, hl', hmem⟩))
      · exact .inr (.inr (.inl hn))
  have hissue := ledger_plain hguest (.closeListener id) (by simp) (by simp)
  unfold State.Ledger
  rw [State.issue_tables, Registry.dropReaders_made, dropReaders_streams]
  exact hissue

theorem ledger_shutdown (hL : s.Ledger lost) {n : Nat} (h : s.shutdown n = some s') :
    s'.Ledger lost := by
  obtain ⟨stream, hn, rfl⟩ := Option.map_eq_some_iff.mp h
  dsimp only
  split
  · exact hL
  · have hissue := ledger_plain hL (.closeWrite stream.connId) (by simp) (by simp)
    refine ledger_same hissue (wired_conns hL.wired (hL.wired.not_backlog hn) ?_) hL.listener
      hL.bound hL.queue ?_
    · intro st hst
      obtain rfl := Option.some.inj hst
      exact hL.wired.stream n stream hn
    · intro m
      by_cases hmn : m = n
      · subst hmn
        exact iff_of_true (.inl (by simp [Guest.Owns])) (.inl (by simp [Guest.Owns, hn]))
      · simp [Guest.Holds, Guest.Owns, Guest.Queues, hmn]

/-- **A `TcpStream` is dropped**, and the host is told. -/
theorem ledger_dropStream (hL : s.Ledger lost) {n : Nat} (h : s.dropStream n = some s') :
    s'.Ledger lost := by
  obtain ⟨stream, hn, rfl⟩ := Option.map_eq_some_iff.mp h
  obtain ⟨connId, closed⟩ := stream
  obtain ⟨sk, hsk, hid⟩ := hL.wired.stream n _ hn
  obtain rfl : connId = .ofInt 32 sk.connId := hid
  have hholds : s.guest.Holds n := .inl (by simp [Guest.Owns, hn])
  let g : Guest := { s.guest with conns := Function.update s.guest.conns n none }
  have howns : ∀ m, g.Owns m ↔ m ≠ n ∧ s.guest.Owns m := by
    intro m
    by_cases hmn : m = n
    · subst hmn
      simp [g, Guest.Owns]
    · simp [g, Guest.Owns, hmn]
  have hhold : ∀ m, g.Holds m → s.guest.Holds m := by
    intro m hm
    rcases hm with hown | hqueue
    · exact .inl ((howns m).mp hown).2
    · exact .inr hqueue
  -- for a moment nobody holds it
  have hguest : HostPool.Ledger g s.calls s.host s.tables.reg.streams s.live s.tables.reg.made
      s.allocated (fun m => lost m ∨ m = n) := by
    refine ledger_guest hL (wired_conns hL.wired (hL.wired.not_backlog hn) (by simp)) hL.listener
      hL.bound hL.queue ?_ ?_ ?_
    · exact fun m hm => .inl (hhold m hm)
    · intro m hor
      rcases hor with hm | rfl
      · exact ⟨.inr hm, fun hh => (hL.unheld m hm).2 (hhold m hh)⟩
      · refine ⟨.inl hholds, fun hh => ?_⟩
        rcases hh with hown | ⟨l, -, hqueue⟩
        · exact ((howns m).mp hown).1 rfl
        · exact hL.wired.not_backlog hn l hqueue
    · intro m hor
      rcases hor with (hown | hqueue) | hm
      · by_cases hmn : m = n
        · exact .inr (.inr (.inr hmn))
        · exact .inl (.inl ((howns m).mpr ⟨hmn, hown⟩))
      · exact .inl (.inr hqueue)
      · exact .inr (.inr (.inl hm))
  have hstreams := ledger_streams hguest (s.tables.reg.remove (.ofInt 32 sk.connId)).streams
    (fun id m hm => apply_streams s.tables (.push (.ofInt 32 sk.connId) none) hm)
  have hgone : (s.tables.reg.remove (.ofInt 32 sk.connId)).streams (.ofInt 32 sk.connId) = none := by
    rw [remove_streams_eq, if_pos rfl]
  have hdone := ledger_congr (ledger_dropConn hstreams hsk (.inr rfl) hgone) lost ?_
  · unfold State.Ledger
    rw [State.issue_tables]
    simp only [Registry.dropReader, Registry.remove_made]
    exact hdone
  · intro m
    constructor
    · intro hpair
      obtain ⟨hor, hne⟩ := hpair
      exact hor.resolve_right hne
    · intro hm
      refine ⟨.inl hm, fun hmn => ?_⟩
      rw [hmn] at hm
      exact (hL.unheld n hm).2 hholds

/-- The host takes a call that spawns nothing. -/
theorem ledger_onCall (hL : s.Ledger lost) {σ' : Lanes Call} {c : Call} (hwhole : σ'.Whole)
    (hissued : σ'.issued = s.calls.issued) (hexec : σ'.executed = s.calls.executed ++ [c]) :
    HostPool.Ledger s.guest σ' (s.host.onCall s.tables.children c) s.tables.reg.streams s.live
      s.tables.reg.made s.allocated lost := by
  have hhost := ledger_host hL (wired_onCall hL.wired s.tables.children c)
    (fun n sk hn => onCall_sockets s.host s.tables.children c hn)
    (fun n sk hn => sockets_onCall s.host s.tables.children c hn)
    (fun i n hn => onCall_conns s.host s.tables.children c hn) ?_
  · refine ledger_take hhost hwhole hissued hexec ?_
    intro id hc
    subst hc
    rw [Host.onCall, onDropConn_conns, Function.update_self]
  · rw [(onCall_rest s.host s.tables.children c).2]
    exact hL.session

/-- The host spawns a child, or fails to. -/
theorem ledger_onSpawn (hL : s.Ledger lost) {σ' : Lanes Call} {n : Nat} {req : SpawnReq}
    (hwhole : σ'.Whole) (hissued : σ'.issued = s.calls.issued)
    (hexec : σ'.executed = s.calls.executed ++ [.spawn n req]) (o : CpSpawn) :
    (State.onSpawn N { s with calls := σ' } n req o).Ledger lost := by
  have hspawn : .spawn n req ∈ s.calls.issued := by
    rw [← hissued]
    exact hwhole.issued_of_executed (by simp [hexec])
  obtain ⟨-, hnone, hnone'⟩ := hL.child n req hspawn
  have htake := ledger_take hL hwhole hissued hexec (by simp)
  have hsession := ledger_session htake (hissued ▸ hspawn) (onSpawn N n req o).1
  have htables := ledger_applyAll hsession (onSpawn N n req o).2
  -- the streams of the child are no connections
  have hopen : ∀ (t : State) (err : List Chunk) (live : Bool) (m : Nat) (sk : Socket),
      s.host.sockets m = some sk → (t.openSources n req err live).live m = t.live m := by
    intro t err live m sk hm
    refine openSources_live t req err live ?_ ?_
    · intro hmn
      subst hmn
      simp [hnone] at hm
    · intro hmn
      subst hmn
      simp [hnone'] at hm
  dsimp only [State.onSpawn]
  split
  · split
    · exact ledger_live htables (hopen _ _ _)
    · exact htables
    · exact ledger_live htables (hopen _ _ _)
  · exact htables

theorem ledger_dispatch (hL : s.Ledger lost) {l : Lane} {o : CpSpawn}
    (h : s.dispatch N l o = some s') : s'.Ledger lost := by
  obtain ⟨⟨c, σ'⟩, hd, rfl⟩ := Option.map_eq_some_iff.mp h
  obtain ⟨-, hissued, hexec, -⟩ := Lanes.dispatch_took hd
  have hwhole := Lanes.whole_dispatch hL.whole hd
  have hcall := ledger_onCall hL hwhole hissued hexec
  cases c with
  | spawn n req => exact ledger_onSpawn hL hwhole hissued hexec o
  | write id bytes => exact hcall
  | kill id => exact hcall
  | closeWrite id => exact hcall
  | dropConn id => exact hcall
  | closeListener id => exact hcall
  | listen id => exact hcall

theorem ledger_emit (hL : s.Ledger lost) {n : Nat} {e : Emission} (h : s.emit n e = some s') :
    s'.Ledger lost := by
  obtain ⟨session, -, -, rfl⟩ := State.emit_eq_some h
  unfold State.Ledger
  rw [deliver_live]
  exact ledger_applyAll hL [session.onEmission e]

theorem ledger_close (hL : s.Ledger lost) {n : Nat} {code : Option (BitVec 32)} {signal : Bool}
    (h : s.close n code signal = some s') : s'.Ledger lost := by
  obtain ⟨session, hs, -, rfl⟩ := State.close_eq_some h
  obtain ⟨req, hspawn⟩ := hL.session n session hs
  obtain ⟨-, hnone, hnone'⟩ := hL.child n req hspawn
  have hsession := ledger_session hL hspawn (some (session.onClose code signal).1)
  have htables := ledger_applyAll hsession (session.onClose code signal).2
  unfold State.Ledger
  rw [finish_live, finish_live]
  refine ledger_live htables ?_
  intro m sk hm
  have hmn : m ≠ n := by
    intro he
    subst he
    simp [hnone] at hm
  have hmn' : m ≠ n + 1 := by
    intro he
    subst he
    simp [hnone'] at hm
  rw [Function.update_of_ne hmn', Function.update_of_ne hmn]
  rfl

/-- **A connection arrives**: it waits at its listener, or the host is told at once. -/
theorem ledger_arrive (hL : s.Ledger lost) (hroom : 0 ≤ s.host.nextConnId) {listenerId : Id}
    (h : s.connect listenerId = some s') : s'.Ledger lost := by
  obtain ⟨-, rfl⟩ := State.connect_eq_some h
  have hnew := ledger_connect hL hroom
  have hsk : (s.host.connect s.tables.reg.made).sockets s.tables.reg.made =
      some (.new s.host.nextConnId) := Host.connect_sockets.mpr (.inl ⟨rfl, rfl⟩)
  -- a number that is new was not lost before
  have hlost : ¬lost s.tables.reg.made := by
    intro hn
    obtain ⟨sk, hsk'⟩ := Option.isSome_iff_exists.mp (hL.unheld _ hn).1
    exact Nat.lt_irrefl _ (hL.wired.range _ sk hsk').1
  obtain ⟨-, hfree⟩ := hnew.unheld s.tables.reg.made (.inr rfl)
  rw [← live_open s _ (.ofInt 32 s.host.nextConnId)] at hnew
  unfold State.poolAccept
  split
  · next l hl =>
      split
      · next id hbound =>
          exact ledger_enqueue hnew hsk hbound hlost
      · next hbound =>
          have hold := hL.listener listenerId l hl
          exact absurd (hbound.symm.trans hold) (by simp)
  · have hstreams := ledger_streams hnew
      ((s.tables.reg.insert (.ofInt 32 s.host.nextConnId)).remove
        (.ofInt 32 s.host.nextConnId)).streams ?_
    · have hdrop := ledger_dropConn hstreams hsk (.inr rfl) (by
        rw [remove_streams_eq]
        exact if_pos rfl)
      have hdone := ledger_congr hdrop lost ?_
      · unfold State.Ledger
        rw [State.issue_tables, Registry.remove_made]
        exact hdone
      · intro m
        constructor
        · intro hpair
          obtain ⟨hor, hne⟩ := hpair
          exact hor.resolve_right hne
        · intro hm
          exact ⟨.inl hm, fun hmn => hlost (hmn ▸ hm)⟩
    · intro id m hm
      rw [remove_streams_eq] at hm
      split at hm
      · cases hm
      · exact hm

theorem ledger_data (hL : s.Ledger lost) {n : Nat} {bytes : Chunk} (h : s.data n bytes = some s') :
    s'.Ledger lost := by
  obtain ⟨sk, -, -, -, rfl⟩ := State.data_eq_some h
  unfold State.Ledger
  rw [deliver_live]
  exact ledger_applyAll hL [.push (.ofInt 32 sk.connId) (some bytes)]

theorem ledger_destroy (hL : s.Ledger lost) {n : Nat} (h : s.destroy n = some s') :
    s'.Ledger lost := by
  obtain ⟨sk, hn, rfl⟩ := Option.map_eq_some_iff.mp h
  obtain ⟨hsub, hsup⟩ := Host.setSocket_ids { sk with destroyed := true } hn rfl
  exact ledger_host hL (wired_setSocket hL.wired _ hn rfl) hsub hsup (fun _ _ hm => hm) hL.session

/-- A connection closes, and both maps forget it. -/
theorem ledger_sockClose (hL : s.Ledger lost) {n : Nat} (h : s.sockClose n = some s') :
    s'.Ledger lost := by
  obtain ⟨sk, hn, -, rfl⟩ := State.sockClose_eq_some h
  obtain ⟨hsub, hsup⟩ := Host.setSocket_ids { sk with destroyed := true } hn rfl
  have hconns : ∀ i m, Function.update s.host.conns sk.connId none i = some m →
      i ≠ sk.connId ∧ s.host.conns i = some m := by
    intro i m hm
    by_cases hi : i = sk.connId
    · subst hi
      simp at hm
    · exact ⟨hi, by simpa [hi] using hm⟩
  have hpush := ledger_applyAll hL [.push (.ofInt 32 sk.connId) none]
  have hhost := ledger_host hpush
    (wired_forget (wired_setSocket hpush.wired { sk with destroyed := true } hn rfl) sk.connId)
    hsub hsup (fun i m hm => (hconns i m hm).2) hpush.session
  unfold State.Ledger
  rw [finish_live]
  refine ledger_shut hhost ?_ ?_
  · intro id hid
    have hold := apply_streams s.tables (.push (.ofInt 32 sk.connId) none) hid
    have hnone : (s.tables.reg.remove (.ofInt 32 sk.connId)).streams id = none := by
      rw [remove_streams_eq, if_pos (hL.entry id n sk hold hn).1]
    exact absurd (hnone.symm.trans hid) (by simp)
  · intro i hi
    obtain ⟨hne, hold⟩ := hconns i n hi
    obtain ⟨sk', hsk', hid⟩ := hL.wired.lookup i n hold
    obtain rfl := Option.some.inj (hn.symm.trans hsk')
    exact hne hid.symm

/-- A step that loses nothing. -/
theorem ledger_loses (hL : s'.Ledger lost) {a : Act} (hno : ∀ n, ¬s.loses a n) :
    s'.Ledger (fun n => lost n ∨ s.loses a n) :=
  ledger_congr hL _ fun n => ⟨.inl, fun hor => hor.resolve_right (hno n)⟩

/-- **Every step**, with the connections it loses. -/
theorem ledger_next (hL : s.Ledger lost) {a : Act} (hk : Numbered s a) (h : next N s a = some s') :
    s'.Ledger (fun n => lost n ∨ s.loses a n) := by
  cases a with
  | dropListener l => exact ledger_dropListener hL h
  | spawn cmd =>
      obtain rfl := Option.some.inj h
      exact ledger_loses (ledger_spawn hL cmd) (by simp [State.loses])
  | startKill n => exact ledger_loses (ledger_startKill hL h) (by simp [State.loses])
  | dropChild n => exact ledger_loses (ledger_dropChild hL h) (by simp [State.loses])
  | bind =>
      obtain rfl := Option.some.inj h
      exact ledger_loses (ledger_bind hL) (by simp [State.loses])
  | accept l => exact ledger_loses (ledger_accept hL h) (by simp [State.loses])
  | read n remaining =>
      refine ledger_loses ?_ (by simp [State.loses])
      obtain ⟨r, hr, rfl⟩ := Option.map_eq_some_iff.mp h
      obtain ⟨-, p, hp, rfl⟩ := State.read_eq_some hr
      obtain ⟨rx, -, rfl⟩ := Option.map_eq_some_iff.mp hp
      exact ledger_counter hL rfl rfl rfl rfl le_rfl
  | dropReader n =>
      refine ledger_loses ?_ (by simp [State.loses])
      obtain ⟨-, -, rfl⟩ := State.dropReader_eq_some h
      exact hL
  | write n bytes =>
      refine ledger_loses ?_ (by simp [State.loses])
      obtain ⟨stream, -, rfl⟩ := Option.map_eq_some_iff.mp h
      exact ledger_plain hL (.write stream.connId bytes) (by simp) (by simp)
  | shutdown n => exact ledger_loses (ledger_shutdown hL h) (by simp [State.loses])
  | dropStream n => exact ledger_loses (ledger_dropStream hL h) (by simp [State.loses])
  | dispatch l o => exact ledger_loses (ledger_dispatch hL h) (by simp [State.loses])
  | emit n e => exact ledger_loses (ledger_emit hL h) (by simp [State.loses])
  | close n code signal => exact ledger_loses (ledger_close hL h) (by simp [State.loses])
  | connect listenerId => exact ledger_loses (ledger_arrive hL hk h) (by simp [State.loses])
  | data n bytes => exact ledger_loses (ledger_data hL h) (by simp [State.loses])
  | destroy n => exact ledger_loses (ledger_destroy hL h) (by simp [State.loses])
  | sockClose n => exact ledger_loses (ledger_sockClose hL h) (by simp [State.loses])

end Step

/-! ### Whole runs -/

theorem ledger_init : State.init.Ledger fun _ => False where
  wired := traffic_init.wired
  whole := Lanes.whole_empty
  listener := by simp [State.init, Guest.init]
  bound := by simp [State.init, Guest.init]
  queue := by simp [State.init, Guest.init]
  below := by simp [State.init, Tables.empty, Registry.empty]
  entry := by simp [State.init, Tables.empty, Registry.empty]
  mapped := by simp [State.init, Host.init]
  forgot := by simp [State.init, Host.init]
  told := by simp [State.init, Lanes.empty]
  held := by simp [State.init, Host.init]
  unheld := by simp
  child := by simp [State.init, Lanes.empty]
  session := by simp [State.init, Host.init]

/-- The connections that a run loses. -/
def Lost (N : Napi) : State → List Act → Nat → Prop
  | _, [], _ => False
  | s, a :: as, n => s.loses a n ∨ ∃ s', next N s a = some s' ∧ Lost N s' as n

theorem ledger_replay {N : Napi} {as : List Act} : ∀ {s t : State} {lost : Nat → Prop},
    s.Ledger lost → (bridge N).EachStep Numbered s as → (bridge N).replay s as = some t →
      t.Ledger (fun n => lost n ∨ Lost N s as n) := by
  induction as with
  | nil =>
      intro s t lost hL _ hrun
      obtain rfl : s = t := by simpa using hrun
      exact ledger_congr hL _ fun n => by simp [Lost]
  | cons a as ih =>
      intro s t lost hL hsteps hrun
      obtain ⟨m, hm, hrest⟩ := ((bridge N).replay_cons).mp hrun
      have hnext := ledger_next hL hsteps.1 hm
      refine ledger_congr (ih hnext (hsteps.2 m hm) hrest) _ fun n => ?_
      change next N s a = some m at hm
      simp [Lost, hm, or_assoc]

/-- At rest, exactly the lost connections that are open are orphans. -/
theorem noOrphans_of_ledger {s : State} {lost : Nat → Prop} (hL : s.Ledger lost) (hq : s.Quiet) :
    NoOrphans s ↔ ∀ n, lost n → s.live n = false := by
  constructor
  · intro hno n hn
    obtain ⟨hsome, hheld⟩ := hL.unheld n hn
    obtain ⟨sk, hsk⟩ := Option.isSome_iff_exists.mp hsome
    refine (hno.rest n sk hsk hheld).resolve_right fun hmem => ?_
    obtain ⟨m, sk', hsk', hid, -, hnot⟩ := hL.told _ (hL.whole.issued_of_executed hmem)
    obtain rfl := hL.wired.unique_id hsk hsk' hid
    exact hnot hn
  · intro hclosed
    refine { registered := ?_, mapped := ?_, rest := ?_ }
    · intro id n hn hsome
      obtain ⟨sk, hsk⟩ := Option.isSome_iff_exists.mp hsome
      obtain ⟨rfl, hlive, hunsent⟩ := hL.entry id n sk hn hsk
      rcases hL.held n sk hsk with hheld | hdead | hissued | hlost
      · exact hheld
      · simp [hlive] at hdead
      · exact absurd hissued hunsent
      · simp [hclosed n hlost] at hlive
    · intro i n hn
      obtain ⟨sk, hsk, rfl⟩ := hL.wired.lookup i n hn
      have hlive := hL.mapped _ n hn
      rcases hL.held n sk hsk with hheld | hdead | hissued | hlost
      · exact hheld
      · simp [hlive] at hdead
      · -- the host has forgotten it
        have hnone := hL.forgot _ (hL.whole.executed_of_issued hq.1 hissued)
        rw [hL.wired.toNat hsk] at hnone
        simp [hnone] at hn
      · simp [hclosed n hlost] at hlive
    · intro n sk hsk hno
      rcases hL.held n sk hsk with hheld | hdead | hissued | hlost
      · exact absurd hheld hno
      · exact .inl hdead
      · exact .inr (hL.whole.executed_of_issued hq.1 hissued)
      · exact .inl (hclosed n hlost)

/-- **Which runs leave orphans.** A run that comes to rest leaves one iff a connection
that a dropped `TcpListener` had queued is still open. -/
theorem noOrphans_iff {N : Napi} {as : List Act} {s : State}
    (hsteps : (bridge N).EachStep Numbered .init as) (hrun : (bridge N).replay .init as = some s)
    (hq : s.Quiet) : NoOrphans s ↔ ∀ n, Lost N .init as n → s.live n = false := by
  have hL := ledger_replay ledger_init hsteps hrun
  rw [noOrphans_of_ledger hL hq]
  simp

theorem ledger_tidy {N : Napi} {s : State} (h : (bridge N).Reach Tidy s) :
    s.Ledger fun _ => False := by
  refine h.invariant (I := fun s => s.Ledger fun _ => False) ?_ ?_
  · intro s hs
    obtain rfl : s = State.init := hs
    exact ledger_init
  · intro s a s' hL htidy hn
    refine ledger_congr (ledger_next hL htidy.1 hn) _ fun n => ?_
    simp [htidy.2 n]

/-- **No orphans.** If no `TcpListener` is dropped while open connections wait in its
channel, every connection that `STREAMS` or the host's map names is held once nothing is
in flight, and every other was closed or its drop was carried out. -/
theorem noOrphans {N : Napi} {s : State} (h : (bridge N).Reach Tidy s) (hq : s.Quiet) :
    NoOrphans s :=
  (noOrphans_of_ledger (ledger_tidy h) hq).mpr (by simp)

/-- Rest can be decided: every socket has a number below the next. -/
theorem quiet_of_below {s : State} {lost : Nat → Prop} (hL : s.Ledger lost)
    (hw : s.calls.waiting = []) (hsockets : ∀ n < s.tables.reg.made,
      (s.host.sockets n).all (fun sk => !sk.destroyed || !s.live n)) : s.Quiet := by
  refine ⟨hw, ?_⟩
  intro n sk hsk hdestroyed
  have hall := hsockets n (hL.wired.range n sk hsk).1
  simpa [hsk, hdestroyed] using hall

/-- A listener is dropped after its one connection was accepted; another one arrives before
the host has closed the server. -/
def lateArrival : List Act :=
  [.bind, .dispatch .listen .child, .connect 1, .accept 0, .dropListener 0, .connect 1,
    .dispatch .action .child, .dispatch .action .child, .sockClose 1]

theorem noOrphans_late : ∃ s, (bridge nodeApi).replay .init lateArrival = some s ∧ NoOrphans s ∧
    s.host.conns 0xffffffff = some 0 ∧ s.host.conns 0xfffffffe = none := by
  have h₁ : (bridge nodeApi).Reach Tidy State.init.bind :=
    .step (.start rfl) (a := .bind) (by exact ⟨trivial, fun n hn => hn⟩) rfl
  have h₂ := Machine.Reach.step h₁ (a := .dispatch .listen .child)
    (by exact ⟨trivial, fun n hn => hn⟩) rfl
  have h₃ := Machine.Reach.step h₂ (a := .connect 1)
    (by exact ⟨by change (0 : Int) ≤ 0xffffffff; decide, fun n hn => hn⟩) rfl
  have h₄ := Machine.Reach.step h₃ (a := .accept 0) (by exact ⟨trivial, fun n hn => hn⟩) rfl
  have h₅ := Machine.Reach.step h₄ (a := .dropListener 0)
    (by exact ⟨trivial, fun n hn => absurd hn.1 List.not_mem_nil⟩) rfl
  have h₆ := Machine.Reach.step h₅ (a := .connect 1)
    (by exact ⟨by change (0 : Int) ≤ 0xfffffffe; decide, fun n hn => hn⟩) rfl
  have h₇ := Machine.Reach.step h₆ (a := .dispatch .action .child)
    (by exact ⟨trivial, fun n hn => hn⟩) rfl
  have h₈ := Machine.Reach.step h₇ (a := .dispatch .action .child)
    (by exact ⟨trivial, fun n hn => hn⟩) rfl
  have h₉ := Machine.Reach.step h₈ (a := .sockClose 1) (by exact ⟨trivial, fun n hn => hn⟩) rfl
  exact ⟨_, rfl, noOrphans h₉ (quiet_of_below (ledger_tidy h₉) rfl (by decide +kernel)), rfl, rfl⟩

/-- A listener is dropped with a connection queued. -/
def droppedQueue : List Act :=
  [.bind, .dispatch .listen .child, .connect 1, .dropListener 0, .dispatch .action .child]

/-- **A queued connection is orphaned.** Nobody can read from it, and the host is never
told: its socket and its sender stay. -/
theorem queued_orphaned : ∃ s, (bridge nodeApi).replay .init droppedQueue = some s ∧ s.Quiet ∧
    ¬NoOrphans s ∧ s.calls.issued = [.listen 1, .closeListener 1] ∧
    s.tables.reg.streams 0xffffffff = some 0 ∧ s.host.conns 0xffffffff = some 0 ∧
    s.live 0 = true := by
  refine ⟨_, rfl, ⟨rfl, ?_⟩, ?_, rfl, rfl, rfl, rfl⟩
  · intro n sk hn hdestroyed
    rcases n with _ | n
    · obtain rfl := Option.some.inj hn
      cases hdestroyed
    · cases hn
  · intro h
    rcases h.mapped 0xffffffff 0 rfl with hown | ⟨l, hl, hqueue⟩
    · cases hown
    · rcases l with _ | l
      · cases hl
      · cases hl

end TurbopackWasi.HostPool
