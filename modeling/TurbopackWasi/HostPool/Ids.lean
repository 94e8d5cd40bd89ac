import TurbopackWasi.HostPool.Fidelity

/-!
# TurbopackWasi.HostPool.Ids

**The ids of the bridge**, with every step of their allocation apart. `Command::spawn` and
`TcpListener::bind` run on any number of threads: a thread advances `NEXT_ID`, and enters its
ids into the tables and calls the host later, when other threads may have done the same. The
host counts its connections down from the top.

`distinct` follows the two counters to the point where they meet. As long as no more ids are
taken than there are, all are different, so no insertion finds a live entry. The one addition
that can overflow is that of `NEXT_ID` itself, when the guest takes the last id there is
(`counter_overflows`).
-/

namespace TurbopackWasi.HostPool.Ids

open Lib

/-! ### The state -/

inductive Table
  | streams
  | procs
  | listeners
  /-- `procs`, `conns` and `servers` of the host. -/
  | hostProcs
  | hostConns
  | hostServers
  deriving DecidableEq

/-- A place in a table; the host has the ids as numbers. -/
abbrev Entry := Table × Int

inductive Kind
  | proc
  | stdout
  | stderr
  | listener
  | conn
  deriving DecidableEq

/-- The additions of `u32` values. -/
inductive Addition
  | counter
  | stdoutId
  | stderrId
  deriving DecidableEq

/-- Where a thread is in `spawn` or `bind`, with the id that it has taken. -/
inductive Pc
  | idle
  | spawning (procId : Id)
  /-- The streams are in `STREAMS`. -/
  | streamed (procId : Id)
  | registered (procId : Id)
  | binding (listenerId : Id)
  | listening (listenerId : Id)

/-- A call of a threadsafe function that the host has not seen. -/
inductive Call
  | spawn (procId : Id)
  | listen (listenerId : Id)
  deriving DecidableEq

structure State (τ : Type) where
  nextId : Id
  nextConnId : Int
  live : Entry → Bool
  thread : τ → Pc
  calls : List Call
  /-- The host is in `turbopack_pool_accept`. -/
  accepting : Option Int
  /-- The ids taken so far. -/
  ids : List (Kind × Int)
  /-- The insertions that replaced a live entry. -/
  displaced : List Entry
  overflows : List Addition

def State.init (τ : Type) : State τ where
  nextId := 1
  nextConnId := 0xffffffff
  live := fun _ => false
  thread := fun _ => .idle
  calls := []
  accepting := none
  ids := []
  displaced := []
  overflows := []

/-! ### Steps -/

variable {τ : Type} [DecidableEq τ]

def num (id : Id) : Int := id.toNat

def State.insert (s : State τ) (e : Entry) : State τ :=
  { s with
    live := Function.update s.live e true
    displaced := if s.live e then e :: s.displaced else s.displaced }

omit [DecidableEq τ] in
theorem State.insert_live (s : State τ) {e e' : Entry} (h : e' ≠ e) :
    (s.insert e).live e' = s.live e' := by
  simp [State.insert, h]

/-- The addition `x + y`. -/
def State.add (s : State τ) (which : Addition) (x y : Id) : State τ :=
  { s with overflows := if x.uaddOverflow y then which :: s.overflows else s.overflows }

omit [DecidableEq τ] in
theorem add_subset (s : State τ) (which : Addition) (x y : Id) :
    s.overflows ⊆ (s.add which x y).overflows := by
  rw [State.add]
  split
  · exact List.subset_cons_self _ _
  · exact List.Subset.refl _

omit [DecidableEq τ] in
theorem add_overflows (s : State τ) (which : Addition) {x y : Id} (h : x.uaddOverflow y = true) :
    which ∈ (s.add which x y).overflows := by
  simp [State.add, h]

def State.setThread (s : State τ) (t : τ) (pc : Pc) : State τ :=
  { s with thread := Function.update s.thread t pc }

/-- `NEXT_ID.fetch_add(n)`. -/
def State.fetchAdd (s : State τ) (n : Id) : State τ :=
  { s.add .counter s.nextId n with nextId := s.nextId + n }

/-- `spawn` takes its three ids. -/
def State.spawn (s : State τ) (t : τ) : State τ :=
  let procId := s.nextId
  let s := ((s.fetchAdd 3).add .stdoutId procId 1).add .stderrId procId 2
  { s.setThread t (.spawning procId) with
    ids := (.proc, num procId) :: (.stdout, num (procId + 1)) :: (.stderr, num (procId + 2)) :: s.ids }

def State.bind (s : State τ) (t : τ) : State τ :=
  let listenerId := s.nextId
  let s := s.fetchAdd 1
  { s.setThread t (.binding listenerId) with ids := (.listener, num listenerId) :: s.ids }

def State.issue (s : State τ) (c : Call) : State τ := { s with calls := s.calls ++ [c] }

/-- The next statement of a thread in `spawn` or `bind`. -/
def State.advance (s : State τ) (t : τ) : Option (State τ) :=
  match s.thread t with
  | .idle => none
  | .spawning p =>
      some (((s.setThread t (.streamed p)).insert (.streams, num (p + 1))).insert
        (.streams, num (p + 2)))
  | .streamed p => some ((s.setThread t (.registered p)).insert (.procs, num p))
  | .registered p => some ((s.setThread t .idle).issue (.spawn p))
  | .binding l => some ((s.setThread t (.listening l)).insert (.listeners, num l))
  | .listening l => some ((s.setThread t .idle).issue (.listen l))

def Call.id : Call → Id
  | .spawn p => p
  | .listen l => l

def Call.entry : Call → Entry
  | .spawn p => (.hostProcs, num p)
  | .listen l => (.hostServers, num l)

/-- The host runs the callback; `cp.spawn` may throw. -/
def State.onCall (s : State τ) (c : Call) (started : Bool) : State τ :=
  let s := { s with calls := s.calls.erase c }
  match c with
  | .spawn _ => if started then s.insert c.entry else s
  | .listen _ => s.insert c.entry

/-- The callback of `net.createServer`, up to `turbopackPoolAccept`. -/
def State.arrive (s : State τ) : State τ :=
  let connId := s.nextConnId
  { s.insert (.hostConns, connId) with
    nextConnId := connId - 1
    accepting := some connId
    ids := (.conn, connId) :: s.ids }

def State.accept (s : State τ) (connId : Int) : State τ :=
  { s.insert (.streams, num (BitVec.ofInt 32 connId)) with accepting := none }

/-- An entry is removed: at the end of a stream, by a drop, after a failure. -/
def State.forget (s : State τ) (e : Entry) : State τ :=
  { s with live := Function.update s.live e false }

inductive Act (τ : Type)
  | spawn (t : τ)
  | bind (t : τ)
  | advance (t : τ)
  | call (c : Call) (started : Bool)
  | arrive
  | accept
  | forget (e : Entry)

def next (s : State τ) : Act τ → Option (State τ)
  | .spawn t =>
      match s.thread t with
      | .idle => some (s.spawn t)
      | _ => none
  | .bind t =>
      match s.thread t with
      | .idle => some (s.bind t)
      | _ => none
  | .advance t => s.advance t
  | .call c started =>
      if s.accepting = none ∧ c ∈ s.calls then some (s.onCall c started) else none
  | .arrive => if s.accepting = none then some s.arrive else none
  | .accept => s.accepting.map s.accept
  | .forget e => some (s.forget e)

def threads (τ : Type) [DecidableEq τ] : Machine (State τ) (Act τ) := ⟨(· = .init τ), next⟩

/-! ### What a thread still has to do -/

variable {s s' : State τ} {t : τ} {e : Entry} {pc : Pc} {a h : Nat}

/-- The ids that a thread has taken and is not done with. -/
def Pc.Has : Pc → Int → Prop
  | .idle, _ => False
  | .spawning p, x | .streamed p, x | .registered p, x => num p ≤ x ∧ x ≤ num p + 2
  | .binding l, x | .listening l, x => x = num l

/-- The insertions to come, on both sides. -/
def Pc.plan : Pc → List Entry
  | .idle => []
  | .spawning p =>
      [(.streams, num (p + 1)), (.streams, num (p + 2)), (.procs, num p), (.hostProcs, num p)]
  | .streamed p => [(.procs, num p), (.hostProcs, num p)]
  | .registered p => [(.hostProcs, num p)]
  | .binding l => [(.listeners, num l), (.hostServers, num l)]
  | .listening l => [(.hostServers, num l)]

/-- The guest has taken `a` ids and the host `h`, and there was room for them. -/
structure Inv (a h : Nat) (s : State τ) : Prop where
  room : a + h ≤ 0xffffffff
  nextId : s.nextId = BitVec.ofNat 32 (1 + a)
  nextConnId : s.nextConnId = 0xffffffff - h
  length : s.ids.length = a + h
  guest : s.ids.countP (·.1 ≠ .conn) = a
  range : ∀ x ∈ s.ids.map Prod.snd, 1 ≤ x ∧ x ≤ a ∨ 0xffffffff - h < x ∧ x ≤ 0xffffffff
  nodup : (s.ids.map Prod.snd).Nodup
  /-- What is in a table was taken. -/
  live : ∀ e, s.live e = true → 1 ≤ e.2 ∧ e.2 ≤ a ∨ 0xffffffff - h < e.2
  block : ∀ t x, (s.thread t).Has x → 1 ≤ x ∧ x ≤ a
  apart : ∀ t t' x, (s.thread t).Has x → (s.thread t').Has x → t = t'
  due : ∀ t, ∀ e ∈ (s.thread t).plan, s.live e = false
  called : ∀ c ∈ s.calls, 1 ≤ num c.id ∧ num c.id ≤ a ∧ s.live c.entry = false ∧
    ∀ t, ¬(s.thread t).Has (num c.id)
  callsNodup : (s.calls.map Call.id).Nodup
  accepting : ∀ c, s.accepting = some c →
    0 < h ∧ c = 0xffffffff - h + 1 ∧ s.live (.streams, c) = false
  displaced : s.displaced = []
  /-- Only the last id of all makes the counter overflow. -/
  overflows : ∀ o ∈ s.overflows, o = .counter ∧ a = 0xffffffff

omit [DecidableEq τ] in
theorem inv_init : Inv 0 0 (State.init τ) := by
  constructor <;> simp [State.init, Pc.Has, Pc.plan]

theorem num_ofNat {n : Nat} (hn : n < 2 ^ 32) : num (BitVec.ofNat 32 n) = n := by
  rw [num, BitVec.toNat_ofNat, Nat.mod_eq_of_lt hn]

/-- The ids of one child are three in a row. -/
theorem num_add {p : Id} {k : Nat} (hk : num p + k < 2 ^ 32) :
    num (p + BitVec.ofNat 32 k) = num p + k := by
  have hp : p.toNat + k < 2 ^ 32 := by
    rw [num] at hk
    omega
  have hk' : k < 2 ^ 32 := by omega
  rw [num, num, BitVec.toNat_add, BitVec.toNat_ofNat, Nat.mod_eq_of_lt hk', Nat.mod_eq_of_lt hp]
  omega

/-- A plan is about the ids of its thread. -/
theorem has_of_plan (hroom : ∀ x, pc.Has x → x ≤ 0xffffffff) (he : e ∈ pc.plan) : pc.Has e.2 := by
  have hspawn : ∀ p : Id, (∀ x, num p ≤ x ∧ x ≤ num p + 2 → x ≤ 0xffffffff) →
      num (p + 1) = num p + 1 ∧ num (p + 2) = num p + 2 := by
    intro p hp
    have htop := hp (num p + 2) ⟨by omega, le_rfl⟩
    exact ⟨num_add (k := 1) (by omega), num_add (k := 2) (by omega)⟩
  cases pc with
  | idle => cases he
  | spawning p =>
      obtain ⟨h₁, h₂⟩ := hspawn p hroom
      simp only [Pc.plan, List.mem_cons, List.not_mem_nil, or_false] at he
      rcases he with rfl | rfl | rfl | rfl <;> simp only [Pc.Has] <;> omega
  | streamed p =>
      simp only [Pc.plan, List.mem_cons, List.not_mem_nil, or_false] at he
      rcases he with rfl | rfl <;> simp only [Pc.Has] <;> omega
  | registered p =>
      simp only [Pc.plan, List.mem_cons, List.not_mem_nil, or_false] at he
      subst he
      simp only [Pc.Has]
      omega
  | binding l =>
      simp only [Pc.plan, List.mem_cons, List.not_mem_nil, or_false] at he
      rcases he with rfl | rfl <;> rfl
  | listening l =>
      simp only [Pc.plan, List.mem_cons, List.not_mem_nil, or_false] at he
      subst he
      rfl

/-! ### One step -/

theorem num_injective {x y : Id} (hxy : num x = num y) : x = y := by
  refine BitVec.eq_of_toNat_eq ?_
  rw [num, num] at hxy
  omega

omit [DecidableEq τ] in
theorem Inv.has_of_plan (hI : Inv a h s) (he : e ∈ (s.thread t).plan) : (s.thread t).Has e.2 := by
  refine Ids.has_of_plan ?_ he
  intro x hx
  have hblock := hI.block t x hx
  have hroom := hI.room
  omega

/-- A thread goes on with less to do. -/
theorem Inv.setThread (hI : Inv a h s) (t : τ) (pc : Pc)
    (hhas : ∀ x, pc.Has x → (s.thread t).Has x) (hplan : ∀ e ∈ pc.plan, e ∈ (s.thread t).plan) :
    Inv a h (s.setThread t pc) := by
  have hHas : ∀ t' x, ((s.setThread t pc).thread t').Has x → (s.thread t').Has x := by
    intro t' x hx
    by_cases ht : t' = t
    · subst ht
      exact hhas x (by simpa [State.setThread] using hx)
    · simpa [State.setThread, ht] using hx
  refine { hI with block := ?_, apart := ?_, due := ?_, called := ?_ }
  · intro t' x hx
    exact hI.block t' x (hHas t' x hx)
  · intro t₁ t₂ x h₁ h₂
    exact hI.apart t₁ t₂ x (hHas t₁ x h₁) (hHas t₂ x h₂)
  · intro t' e he
    by_cases ht : t' = t
    · subst ht
      exact hI.due t' e (hplan e (by simpa [State.setThread] using he))
    · exact hI.due t' e (by simpa [State.setThread, ht] using he)
  · intro c hc
    obtain ⟨hlo, hhi, hlive, hnot⟩ := hI.called c hc
    exact ⟨hlo, hhi, hlive, fun t' hx => hnot t' (hHas t' _ hx)⟩

omit [DecidableEq τ] in
/-- An insertion that nobody else is about to make. -/
theorem Inv.insert (hI : Inv a h s) (hfree : s.live e = false)
    (hrange : 1 ≤ e.2 ∧ e.2 ≤ a ∨ 0xffffffff - h < e.2)
    (hplan : ∀ t, e ∉ (s.thread t).plan) (hcalls : ∀ c ∈ s.calls, c.entry ≠ e)
    (hacc : ∀ c, s.accepting = some c → (.streams, c) ≠ e) : Inv a h (s.insert e) := by
  have hother : ∀ e', e' ≠ e → (s.insert e).live e' = s.live e' := fun _ => State.insert_live s
  refine { hI with live := ?_, due := ?_, called := ?_, accepting := ?_, displaced := ?_ }
  · intro e' he'
    by_cases heq : e' = e
    · rw [heq]
      exact hrange
    · rw [hother e' heq] at he'
      exact hI.live e' he'
  · intro t e' he'
    have hne : e' ≠ e := by
      intro heq
      exact hplan t (heq ▸ he')
    rw [hother e' hne]
    exact hI.due t e' he'
  · intro c hc
    rw [hother _ (hcalls c hc)]
    exact hI.called c hc
  · intro c hc
    rw [hother _ (hacc c hc)]
    exact hI.accepting c hc
  · simp [State.insert, hfree, hI.displaced]

omit [DecidableEq τ] in
/-- A thread inserts what it has. -/
theorem Inv.enter (hI : Inv a h s) (hhas : (s.thread t).Has e.2) (hfree : s.live e = false)
    (hown : e ∉ (s.thread t).plan) (htable : e.1 ≠ .hostProcs ∧ e.1 ≠ .hostServers) :
    Inv a h (s.insert e) := by
  have hblock := hI.block t e.2 hhas
  refine hI.insert hfree (.inl hblock) ?_ ?_ ?_
  · intro t' he
    have ht := hI.apart t' t e.2 (hI.has_of_plan he) hhas
    exact hown (ht ▸ he)
  · intro c hc heq
    cases c with
    | spawn p => exact htable.1 (by rw [← heq]; rfl)
    | listen l => exact htable.2 (by rw [← heq]; rfl)
  · intro c hc heq
    have hconn := (hI.accepting c hc).2.1
    have hroom := hI.room
    rw [← heq] at hblock
    simp only at hblock
    omega

omit [DecidableEq τ] in
theorem Inv.forget (hI : Inv a h s) (e : Entry) : Inv a h (s.forget e) := by
  have hlive : ∀ e', (s.forget e).live e' = true → s.live e' = true := by
    intro e' he'
    by_cases heq : e' = e
    · simp [State.forget, heq] at he'
    · simpa [State.forget, heq] using he'
  have hfree : ∀ e', s.live e' = false → (s.forget e).live e' = false := by
    intro e' he'
    by_contra hne
    rw [hlive e' (by simpa using hne)] at he'
    cases he'
  refine { hI with live := ?_, due := ?_, called := ?_, accepting := ?_ }
  · intro e' he'
    exact hI.live e' (hlive e' he')
  · intro t e' he'
    exact hfree e' (hI.due t e' he')
  · intro c hc
    obtain ⟨hlo, hhi, hc', hnot⟩ := hI.called c hc
    exact ⟨hlo, hhi, hfree _ hc', hnot⟩
  · intro c hc
    obtain ⟨hpos, hconn, hlive'⟩ := hI.accepting c hc
    exact ⟨hpos, hconn, hfree _ hlive'⟩

/-- A thread hands its id over to the host. -/
theorem Inv.issue {c : Call} (hI : Inv a h s) (hhas : (s.thread t).Has (num c.id))
    (hfree : s.live c.entry = false) : Inv a h ((s.setThread t .idle).issue c) := by
  have hidle := hI.setThread t .idle (by simp [Pc.Has]) (by simp [Pc.plan])
  have hblock := hI.block t _ hhas
  refine { hidle with called := ?_, callsNodup := ?_ }
  · intro c' hc'
    rcases List.mem_append.mp hc' with hc' | hc'
    · exact hidle.called c' hc'
    · obtain rfl := List.mem_singleton.mp hc'
      refine ⟨hblock.1, hblock.2, hfree, ?_⟩
      intro t' ht'
      by_cases htt : t' = t
      · simp [State.issue, State.setThread, htt, Pc.Has] at ht'
      · exact htt (hI.apart t' t _ (by simpa [State.issue, State.setThread, htt] using ht') hhas)
  · simp only [State.issue, List.map_append, List.map_cons, List.map_nil]
    refine List.nodup_append.mpr ⟨hidle.callsNodup, by simp, ?_⟩
    intro x hx y hy hxy
    obtain rfl := List.mem_singleton.mp hy
    obtain ⟨c', hc', hid⟩ := List.mem_map.mp hx
    obtain ⟨-, -, -, hnot⟩ := hI.called c' hc'
    exact hnot t (by rw [hid, hxy]; exact hhas)

theorem inv_advance (hI : Inv a h s) (hn : s.advance t = some s') : Inv a h s' := by
  rw [State.advance] at hn
  have hroom := hI.room
  have hdue := hI.due t
  cases hpc : s.thread t with
  | idle =>
      rw [hpc] at hn
      cases hn
  | spawning p =>
      rw [hpc] at hn hdue
      obtain rfl := Option.some.inj hn
      have htop := hI.block t (num p + 2) (by rw [hpc]; exact ⟨by omega, le_rfl⟩)
      have h₁ : num (p + 1) = num p + 1 := num_add (k := 1) (by omega)
      have h₂ : num (p + 2) = num p + 2 := num_add (k := 2) (by omega)
      have hset := hI.setThread t (.streamed p) (by simp [hpc, Pc.Has])
        (by simp [hpc, Pc.plan])
      have hstdout := hset.enter (t := t) (e := (.streams, num (p + 1)))
        (by simp only [State.setThread, Function.update_self, Pc.Has]; omega)
        (hdue _ (by simp [Pc.plan])) (by simp [State.setThread, Pc.plan]) (by simp)
      refine hstdout.enter (t := t) ?_ ?_ ?_ (by simp)
      · simp only [State.insert, State.setThread, Function.update_self, Pc.Has]
        omega
      · have hne : ((Table.streams, num (p + 2)) : Entry) ≠ (.streams, num (p + 1)) := by
          rw [h₁, h₂]
          simp
        rw [State.insert_live _ hne]
        exact hdue _ (by simp [Pc.plan])
      · simp [State.insert, State.setThread, Pc.plan]
  | streamed p =>
      rw [hpc] at hn hdue
      obtain rfl := Option.some.inj hn
      have hset := hI.setThread t (.registered p) (by simp [hpc, Pc.Has])
        (by simp [hpc, Pc.plan])
      refine hset.enter (t := t) ?_ (hdue _ (by simp [Pc.plan])) ?_ (by simp)
      · simp [State.setThread, Pc.Has]
      · simp [State.setThread, Pc.plan]
  | registered p =>
      rw [hpc] at hn hdue
      obtain rfl := Option.some.inj hn
      exact hI.issue (by simp [hpc, Pc.Has, Call.id]) (hdue _ (by simp [Pc.plan, Call.entry]))
  | binding l =>
      rw [hpc] at hn hdue
      obtain rfl := Option.some.inj hn
      have hset := hI.setThread t (.listening l) (by simp [hpc, Pc.Has])
        (by simp [hpc, Pc.plan])
      refine hset.enter (t := t) ?_ (hdue _ (by simp [Pc.plan])) ?_ (by simp)
      · simp [State.setThread, Pc.Has]
      · simp [State.setThread, Pc.plan]
  | listening l =>
      rw [hpc] at hn hdue
      obtain rfl := Option.some.inj hn
      exact hI.issue (by simp [hpc, Pc.Has, Call.id]) (hdue _ (by simp [Pc.plan, Call.entry]))

/-! ### Allocation -/

/-- A thread takes `k` ids. -/
theorem Inv.take (hI : Inv a h s) (pc : Pc) (k : Nat) (new : List (Kind × Int))
    (overflows : List Addition) (hidle : s.thread t = .idle) (hroom : a + k + h ≤ 0xffffffff)
    (hhas : ∀ x, pc.Has x → a < x ∧ x ≤ a + k) (hplan : ∀ e ∈ pc.plan, pc.Has e.2)
    (hlength : new.length = k) (hguest : new.countP (·.1 ≠ .conn) = k)
    (hrange : ∀ x ∈ new.map Prod.snd, a < x ∧ x ≤ a + k) (hnodup : (new.map Prod.snd).Nodup)
    (hoverflows : ∀ o ∈ overflows, o = .counter ∧ a + k = 0xffffffff) :
    Inv (a + k) h { s.setThread t pc with
      nextId := BitVec.ofNat 32 (1 + (a + k))
      ids := new ++ s.ids
      overflows := overflows } := by
  have hHas : ∀ t' x, ((s.setThread t pc).thread t').Has x →
      t' = t ∧ pc.Has x ∨ t' ≠ t ∧ (s.thread t').Has x := by
    intro t' x hx
    by_cases ht : t' = t
    · subst ht
      exact .inl ⟨rfl, by simpa [State.setThread] using hx⟩
    · exact .inr ⟨ht, by simpa [State.setThread, ht] using hx⟩
  constructor
  case room => omega
  case nextId => rfl
  case nextConnId => exact hI.nextConnId
  case length =>
    have hlength' := hI.length
    simp only [List.length_append]
    omega
  case guest =>
    rw [List.countP_append, hI.guest, hguest]
    omega
  case range =>
    intro x hx
    rw [List.map_append] at hx
    rcases List.mem_append.mp hx with hx | hx
    · have hx' := hrange x hx
      omega
    · have hx' := hI.range x hx
      omega
  case nodup =>
    rw [List.map_append]
    refine List.nodup_append.mpr ⟨hnodup, hI.nodup, ?_⟩
    intro x hx y hy hxy
    have hx' := hrange x hx
    have hy' := hI.range y hy
    omega
  case live =>
    intro e he
    have he' := hI.live e he
    omega
  case block =>
    intro t' x hx
    rcases hHas t' x hx with ⟨-, hx'⟩ | ⟨-, hx'⟩
    · have hnew := hhas x hx'
      omega
    · have hold := hI.block t' x hx'
      omega
  case apart =>
    intro t₁ t₂ x h₁ h₂
    rcases hHas t₁ x h₁ with ⟨ht₁, h₁'⟩ | ⟨-, h₁'⟩ <;> rcases hHas t₂ x h₂ with ⟨ht₂, h₂'⟩ | ⟨-, h₂'⟩
    · rw [ht₁, ht₂]
    · have hnew := hhas x h₁'
      have hold := hI.block t₂ x h₂'
      omega
    · have hnew := hhas x h₂'
      have hold := hI.block t₁ x h₁'
      omega
    · exact hI.apart t₁ t₂ x h₁' h₂'
  case due =>
    intro t' e he
    by_cases ht : t' = t
    · subst ht
      have hnew := hhas e.2 (hplan e (by simpa [State.setThread] using he))
      by_contra hlive
      have hold := hI.live e (by simpa [State.setThread] using hlive)
      omega
    · exact hI.due t' e (by simpa [State.setThread, ht] using he)
  case called =>
    intro c hc
    obtain ⟨hlo, hhi, hlive, hnot⟩ := hI.called c hc
    refine ⟨hlo, by omega, hlive, ?_⟩
    intro t' hx
    rcases hHas t' _ hx with ⟨-, hx'⟩ | ⟨-, hx'⟩
    · have hnew := hhas _ hx'
      omega
    · exact hnot t' hx'
  case callsNodup => exact hI.callsNodup
  case accepting => exact hI.accepting
  case displaced => exact hI.displaced
  case overflows => exact hoverflows

omit [DecidableEq τ] in
/-- Before the last id nothing has overflown. -/
theorem Inv.overflows_nil (hI : Inv a h s) (ha : a < 0xffffffff) : s.overflows = [] := by
  refine List.eq_nil_iff_forall_not_mem.mpr ?_
  intro o ho
  have hlast := (hI.overflows o ho).2
  omega

omit [DecidableEq τ] in
theorem mem_add {which o : Addition} {x y : Id} (ho : o ∈ (s.add which x y).overflows) :
    o ∈ s.overflows ∨ o = which ∧ (0xffffffff : Int) < num x + num y := by
  simp only [State.add] at ho
  split at ho
  · next hover =>
      rcases List.mem_cons.mp ho with rfl | ho
      · refine .inr ⟨rfl, ?_⟩
        simp only [BitVec.uaddOverflow, ge_iff_le, decide_eq_true_eq] at hover
        rw [num, num]
        omega
      · exact .inl ho
  · exact .inl ho

theorem inv_spawn (hI : Inv a h s) (hidle : s.thread t = .idle)
    (hroom : a + 3 + h ≤ 0xffffffff) : Inv (a + 3) h (s.spawn t) := by
  have hp : num s.nextId = 1 + a := by
    rw [hI.nextId, num_ofNat (by omega)]
    omega
  have h₁ : num (s.nextId + 1) = num s.nextId + 1 := num_add (k := 1) (by omega)
  have h₂ : num (s.nextId + 2) = num s.nextId + 2 := num_add (k := 2) (by omega)
  have htake := hI.take (.spawning s.nextId) 3
    [(.proc, num s.nextId), (.stdout, num (s.nextId + 1)), (.stderr, num (s.nextId + 2))]
    (((s.fetchAdd 3).add .stdoutId s.nextId 1).add .stderrId s.nextId 2).overflows hidle hroom
    (by intro x hx; simp only [Pc.Has] at hx; omega)
    (by
      intro e he
      simp only [Pc.plan, List.mem_cons, List.not_mem_nil, or_false] at he
      rcases he with rfl | rfl | rfl | rfl <;> simp only [Pc.Has] <;> omega)
    rfl rfl
    (by
      intro x hx
      simp only [List.map_cons, List.map_nil, List.mem_cons, List.not_mem_nil, or_false] at hx
      omega)
    (by
      simp only [List.map_cons, List.map_nil, h₁, h₂]
      simp)
    (by
      intro o ho
      have hnone := hI.overflows_nil (by omega)
      -- only the sum of the counter can reach the end
      rcases mem_add ho with ho | ⟨-, hover⟩
      · rcases mem_add ho with ho | ⟨-, hover⟩
        · rcases mem_add ho with ho | ⟨rfl, hover⟩
          · rw [hnone] at ho
            cases ho
          · have hthree : num 3 = 3 := rfl
            exact ⟨rfl, by omega⟩
        · have hone : num 1 = 1 := rfl
          omega
      · have htwo : num 2 = 2 := rfl
        omega)
  have hnext : s.nextId + 3 = BitVec.ofNat 32 (1 + (a + 3)) := by
    rw [hI.nextId]
    exact (BitVec.ofNat_add (1 + a) 3).symm
  rw [← hnext] at htake
  exact htake

theorem inv_bind (hI : Inv a h s) (hidle : s.thread t = .idle)
    (hroom : a + 1 + h ≤ 0xffffffff) : Inv (a + 1) h (s.bind t) := by
  have hl : num s.nextId = 1 + a := by
    rw [hI.nextId, num_ofNat (by omega)]
    omega
  have htake := hI.take (.binding s.nextId) 1 [(.listener, num s.nextId)]
    (s.fetchAdd 1).overflows hidle hroom
    (by intro x hx; simp only [Pc.Has] at hx; omega)
    (by
      intro e he
      simp only [Pc.plan, List.mem_cons, List.not_mem_nil, or_false] at he
      rcases he with rfl | rfl <;> rfl)
    rfl rfl
    (by
      intro x hx
      obtain rfl := List.mem_singleton.mp hx
      omega)
    (by simp)
    (by
      intro o ho
      rcases mem_add ho with ho | ⟨rfl, hover⟩
      · rw [hI.overflows_nil (by omega)] at ho
        cases ho
      · have hone : num 1 = 1 := rfl
        exact ⟨rfl, by omega⟩)
  have hnext : s.nextId + 1 = BitVec.ofNat 32 (1 + (a + 1)) := by
    rw [hI.nextId]
    exact (BitVec.ofNat_add (1 + a) 1).symm
  rw [← hnext] at htake
  exact htake

/-! ### The host -/

omit [DecidableEq τ] in
/-- The host takes a call off the queue. -/
theorem Inv.taken {c : Call} (hI : Inv a h s) :
    Inv a h { s with calls := s.calls.erase c } := by
  refine { hI with called := ?_, callsNodup := ?_ }
  · intro c' hc'
    exact hI.called c' (List.mem_of_mem_erase hc')
  · exact hI.callsNodup.sublist (List.erase_sublist.map Call.id)

omit [DecidableEq τ] in
theorem Call.entry_ne {c c' : Call} (h : c.id ≠ c'.id) : c.entry ≠ c'.entry := by
  intro heq
  refine h (num_injective ?_)
  cases c <;> cases c' <;> simp_all [Call.entry, Call.id]

omit [DecidableEq τ] in
theorem inv_onCall {c : Call} (hI : Inv a h s) (hc : c ∈ s.calls) (hidle : s.accepting = none)
    (started : Bool) : Inv a h (s.onCall c started) := by
  obtain ⟨hlo, hhi, hfree, hnot⟩ := hI.called c hc
  have hid : c.entry.2 = num c.id := by cases c <;> rfl
  have hinsert : Inv a h (State.insert { s with calls := s.calls.erase c } c.entry) := by
    refine hI.taken.insert hfree (.inl (by rw [hid]; exact ⟨hlo, hhi⟩)) ?_ ?_ ?_
    · intro t he
      have hhas := hI.has_of_plan he
      rw [hid] at hhas
      exact hnot t hhas
    · intro c' hc'
      have hne : c' ≠ c := by
        intro heq
        exact hI.callsNodup.of_map.not_mem_erase (heq ▸ hc')
      refine Call.entry_ne ?_
      intro heq
      exact hne (List.inj_on_of_nodup_map hI.callsNodup (List.mem_of_mem_erase hc') hc heq)
    · intro k hk
      rw [hidle] at hk
      cases hk
  cases c with
  | spawn p =>
      cases started with
      | true => exact hinsert
      | false => exact hI.taken
  | listen l => exact hinsert

omit [DecidableEq τ] in
theorem inv_accept {c : Int} (hI : Inv a h s) (hc : s.accepting = some c) :
    Inv a h (s.accept c) := by
  obtain ⟨hpos, hconn, hfree⟩ := hI.accepting c hc
  have hroom := hI.room
  have hnum : num (BitVec.ofInt 32 c) = c := toNat_ofInt (by omega) (by omega)
  have hdone : Inv a h { s with accepting := none } :=
    { hI with accepting := fun _ hnone => by cases hnone }
  have hinsert := hdone.insert (e := (.streams, c)) hfree (.inr (by simp only; omega))
    (by
      intro t he
      have hblock := hI.block t c (hI.has_of_plan he)
      omega)
    (by
      intro c' _ heq
      cases c' <;> cases heq)
    (fun _ hnone => by cases hnone)
  rw [State.accept, hnum]
  exact hinsert

omit [DecidableEq τ] in
theorem inv_arrive (hI : Inv a h s) (hroom : a + (h + 1) ≤ 0xffffffff) :
    Inv a (h + 1) s.arrive := by
  have hconn := hI.nextConnId
  have hfresh : ∀ tbl : Table, s.live (tbl, s.nextConnId) = false := by
    intro tbl
    by_contra hlive
    have hold := hI.live _ (by simpa using hlive)
    simp only at hold
    omega
  have hother : ∀ e : Entry, e.2 ≤ a → s.arrive.live e = s.live e := by
    intro e he
    refine s.insert_live ?_
    intro heq
    rw [heq] at he
    simp only at he
    omega
  constructor
  case room => omega
  case nextId => exact hI.nextId
  case nextConnId =>
    simp only [State.arrive]
    omega
  case length =>
    have hlength := hI.length
    simp only [State.arrive, List.length_cons]
    omega
  case guest =>
    rw [State.arrive, List.countP_cons_of_neg (by simp)]
    exact hI.guest
  case range =>
    intro x hx
    rcases List.mem_cons.mp hx with rfl | hx
    · omega
    · have hold := hI.range x hx
      omega
  case nodup =>
    simp only [State.arrive, List.map_cons]
    refine List.nodup_cons.mpr ⟨?_, hI.nodup⟩
    intro hmem
    have hold := hI.range _ hmem
    omega
  case live =>
    intro e he
    by_cases heq : e = (.hostConns, s.nextConnId)
    · rw [heq]
      simp only
      omega
    · have hold := hI.live e (by rwa [State.arrive, State.insert_live s heq] at he)
      omega
  case block => exact hI.block
  case apart => exact hI.apart
  case due =>
    intro t e he
    rw [hother e (hI.block t e.2 (hI.has_of_plan he)).2]
    exact hI.due t e he
  case called =>
    intro c hc
    obtain ⟨hlo, hhi, hfree, hnot⟩ := hI.called c hc
    have hid : c.entry.2 = num c.id := by cases c <;> rfl
    refine ⟨hlo, hhi, ?_, hnot⟩
    rw [hother c.entry (by rw [hid]; exact hhi)]
    exact hfree
  case callsNodup => exact hI.callsNodup
  case accepting =>
    intro c hc
    obtain rfl := Option.some.inj hc
    refine ⟨h.succ_pos, by omega, ?_⟩
    have hne : ((Table.streams, s.nextConnId) : Entry) ≠ (.hostConns, s.nextConnId) := by simp
    rw [State.arrive, State.insert_live s hne]
    exact hfresh .streams
  case displaced => simp [State.arrive, State.insert, hfresh, hI.displaced]
  case overflows => exact hI.overflows

/-! ### Runs -/

inductive Takes (s : State τ) : Act τ → State τ → Prop
  | spawn {t : τ} (hidle : s.thread t = .idle) : Takes s (.spawn t) (s.spawn t)
  | bind {t : τ} (hidle : s.thread t = .idle) : Takes s (.bind t) (s.bind t)
  | advance {t : τ} {s' : State τ} (hs' : s.advance t = some s') : Takes s (.advance t) s'
  | call {c : Call} (hidle : s.accepting = none) (hc : c ∈ s.calls) (started : Bool) :
      Takes s (.call c started) (s.onCall c started)
  | arrive : Takes s .arrive s.arrive
  | accept {c : Int} (hc : s.accepting = some c) : Takes s .accept (s.accept c)
  | forget (e : Entry) : Takes s (.forget e) (s.forget e)

theorem takes_of_next {act : Act τ} (hn : next s act = some s') : Takes s act s' := by
  cases act with
  | spawn t =>
      simp only [next] at hn
      split at hn
      · next hidle =>
          obtain rfl := Option.some.inj hn
          exact .spawn hidle
      · cases hn
  | bind t =>
      simp only [next] at hn
      split at hn
      · next hidle =>
          obtain rfl := Option.some.inj hn
          exact .bind hidle
      · cases hn
  | advance t => exact .advance hn
  | call c started =>
      simp only [next] at hn
      split at hn
      · next hcall =>
          obtain rfl := Option.some.inj hn
          exact .call hcall.1 hcall.2 started
      · cases hn
  | arrive =>
      simp only [next] at hn
      split at hn
      · obtain rfl := Option.some.inj hn
        exact .arrive
      · cases hn
  | accept =>
      obtain ⟨c, hc, rfl⟩ := Option.map_eq_some_iff.mp hn
      exact .accept hc
  | forget e =>
      obtain rfl := Option.some.inj hn
      exact .forget e

/-- The number of ids that a step takes. -/
def Act.takes : Act τ → Nat
  | .spawn _ => 3
  | .bind _ | .arrive => 1
  | _ => 0

theorem ids_advance (hn : s.advance t = some s') : s'.ids = s.ids := by
  rw [State.advance] at hn
  split at hn
  · cases hn
  all_goals
    obtain rfl := Option.some.inj hn
    rfl

theorem ids_takes {act : Act τ} (hs' : Takes s act s') :
    s'.ids.length = s.ids.length + act.takes := by
  cases hs' with
  | advance hs' => exact congrArg List.length (ids_advance hs')
  | @call c hidle hc started => cases c <;> cases started <;> rfl
  | spawn | bind | arrive | accept | forget => rfl

/-- A step that leaves room. -/
theorem inv_takes {act : Act τ} (hI : Inv a h s) (hs' : Takes s act s')
    (hroom : s'.ids.length ≤ 0xffffffff) : ∃ a' h', Inv a' h' s' := by
  have hlength := hI.length
  rw [ids_takes hs'] at hroom
  cases hs' with
  | spawn hidle =>
      simp only [Act.takes] at hroom
      exact ⟨a + 3, h, inv_spawn hI hidle (by omega)⟩
  | bind hidle =>
      simp only [Act.takes] at hroom
      exact ⟨a + 1, h, inv_bind hI hidle (by omega)⟩
  | advance hs' => exact ⟨a, h, inv_advance hI hs'⟩
  | call hidle hc started => exact ⟨a, h, inv_onCall hI hc hidle started⟩
  | arrive =>
      simp only [Act.takes] at hroom
      exact ⟨a, h + 1, inv_arrive hI (by omega)⟩
  | accept hc => exact ⟨a, h, inv_accept hI hc⟩
  | forget e => exact ⟨a, h, hI.forget e⟩

theorem inv_of_reachable (h : (threads τ).Reachable s) (hroom : s.ids.length ≤ 0xffffffff) :
    ∃ a h, Inv a h s := by
  have hall : s.ids.length ≤ 0xffffffff → ∃ a h, Inv a h s := by
    refine h.invariant (I := fun s => s.ids.length ≤ 0xffffffff → ∃ a h, Inv a h s) ?_ ?_
    · intro s hs _
      rw [hs]
      exact ⟨0, 0, inv_init⟩
    · intro s act s' hI _ hn hroom'
      have htakes := takes_of_next hn
      have hlength := ids_takes htakes
      obtain ⟨a, h, hI⟩ := hI (by omega)
      exact inv_takes hI htakes hroom'
  exact hall hroom

/-! ### No id is shared -/

structure Distinct (s : State τ) : Prop where
  nodup : (s.ids.map Prod.snd).Nodup
  displaced : s.displaced = []
  /-- No sum that makes an id overflows; `NEXT_ID` does with the last id of all. -/
  overflows : ∀ o ∈ s.overflows,
    o = .counter ∧ s.ids.countP (·.1 ≠ .conn) = 0xffffffff

/-- **Ids are never reused or shared**, up to the point where the counters meet. -/
theorem distinct (h : (threads τ).Reachable s) (hroom : s.ids.length ≤ 0xffffffff) :
    Distinct s := by
  obtain ⟨a, h, hI⟩ := inv_of_reachable h hroom
  refine ⟨hI.nodup, hI.displaced, ?_⟩
  intro o ho
  rw [hI.guest]
  exact hI.overflows o ho

/-- Two threads take their ids before either enters them, and a connection arrives between. -/
def interleaved : List (Act Bool) :=
  [.spawn true, .bind false, .arrive, .advance true, .advance false, .advance true, .accept,
    .advance true, .advance false, .call (.listen 4) true, .call (.spawn 1) true]

theorem distinct_interleaved :
    ∃ s, (threads Bool).replay (.init Bool) interleaved = some s ∧
      s.ids.map Prod.snd = [0xffffffff, 4, 1, 2, 3] ∧ Distinct s := by
  obtain ⟨s, hs, hids⟩ : ∃ s, (threads Bool).replay (.init Bool) interleaved = some s ∧
      s.ids = [(.conn, 0xffffffff), (.listener, 4), (.proc, 1), (.stdout, 2), (.stderr, 3)] :=
    ⟨_, rfl, by decide +kernel⟩
  refine ⟨s, hs, by rw [hids]; rfl, distinct (Machine.Reachable.replay _ (.start rfl) hs) ?_⟩
  rw [hids]
  decide

/-! ### A thread on its own -/

/-- The guest's side of the system, where `spawn` and `bind` are single steps. -/
structure Agrees (s : State τ) (S : HostPool.State) : Prop where
  nextId : s.nextId = S.guest.nextId
  streams : ∀ id, s.live (.streams, num id) = (S.tables.reg.streams id).isSome
  procs : ∀ id, s.live (.procs, num id) = (S.tables.procs id).isSome
  listeners : ∀ id, s.live (.listeners, num id) = (S.guest.listeners id).isSome

@[simp] theorem setThread_thread (s : State τ) (t : τ) (pc : Pc) :
    (s.setThread t pc).thread t = pc := by
  simp [State.setThread]

omit [DecidableEq τ] in
@[simp] theorem insert_thread (s : State τ) (e : Entry) : (s.insert e).thread = s.thread := rfl

@[simp] theorem spawn_thread (s : State τ) (t : τ) :
    (s.spawn t).thread t = .spawning s.nextId := by
  simp [State.spawn, State.setThread]

@[simp] theorem bind_thread (s : State τ) (t : τ) :
    (s.bind t).thread t = .binding s.nextId := by
  simp [State.bind, State.setThread]

theorem num_inj {x y : Id} : num x = num y ↔ x = y :=
  ⟨num_injective, congrArg num⟩

omit [DecidableEq τ] in
theorem insert_live_iff (s : State τ) (tbl tbl' : Table) (x y : Id) :
    (s.insert (tbl, num x)).live (tbl', num y) =
      if tbl' = tbl ∧ y = x then true else s.live (tbl', num y) := by
  simp only [State.insert, Function.update_apply, Prod.mk.injEq, num_inj]

/-- A thread that nobody interrupts spawns as `HostPool.State.spawn` does. -/
theorem spawn_alone {S : HostPool.State} (hA : Agrees s S) (hidle : s.thread t = .idle)
    (cmd : Command) :
    ∃ s', (threads τ).replay s [.spawn t, .advance t, .advance t, .advance t] = some s' ∧
      Agrees s' (S.spawn cmd) := by
  have hrun : ∃ s', (threads τ).replay s [.spawn t, .advance t, .advance t, .advance t] = some s' ∧
      s'.nextId = s.nextId + 3 ∧
      s'.live = (((s.insert (.streams, num (s.nextId + 1))).insert
        (.streams, num (s.nextId + 2))).insert (.procs, num s.nextId)).live := by
    refine ⟨((((((s.spawn t).setThread t (.streamed s.nextId)).insert
      (.streams, num (s.nextId + 1))).insert (.streams, num (s.nextId + 2))).setThread t
        (.registered s.nextId)).insert (.procs, num s.nextId)).setThread t .idle |>.issue
          (.spawn s.nextId), ?_, rfl, rfl⟩
    simp [Machine.replay, threads, next, hidle, State.advance]
  obtain ⟨s', hs', hnext, hlive⟩ := hrun
  refine ⟨s', hs', ?_, ?_, ?_, ?_⟩
  · rw [hnext, hA.nextId]
    rfl
  · intro id
    have hreg : (S.spawn cmd).tables.reg =
        (S.tables.reg.insert (S.guest.nextId + 1)).insert (S.guest.nextId + 2) := rfl
    rw [hlive, hreg, insert_streams_eq, insert_streams_eq]
    simp only [insert_live_iff, hA.streams, hA.nextId, true_and, reduceCtorEq, false_and, if_false]
    split
    · rfl
    · split <;> rfl
  · intro id
    have hprocs : (S.spawn cmd).tables.procs =
        Function.update S.tables.procs S.guest.nextId (some S.tables.reg.made) := rfl
    rw [hlive, hprocs, Function.update_apply]
    simp only [insert_live_iff, hA.procs, hA.nextId, true_and, reduceCtorEq, false_and, if_false]
    split <;> rfl
  · intro id
    have hlisteners : (S.spawn cmd).guest.listeners = S.guest.listeners := rfl
    rw [hlive, hlisteners]
    simp [insert_live_iff, hA.listeners]

/-- And binds as `HostPool.State.bind` does. -/
theorem bind_alone {S : HostPool.State} (hA : Agrees s S) (hidle : s.thread t = .idle) :
    ∃ s', (threads τ).replay s [.bind t, .advance t, .advance t] = some s' ∧
      Agrees s' S.bind := by
  have hrun : ∃ s', (threads τ).replay s [.bind t, .advance t, .advance t] = some s' ∧
      s'.nextId = s.nextId + 1 ∧ s'.live = (s.insert (.listeners, num s.nextId)).live := by
    refine ⟨((((s.bind t).setThread t (.listening s.nextId)).insert
      (.listeners, num s.nextId)).setThread t .idle).issue (.listen s.nextId), ?_, rfl, rfl⟩
    simp [Machine.replay, threads, next, hidle, State.advance]
  obtain ⟨s', hs', hnext, hlive⟩ := hrun
  refine ⟨s', hs', ?_, ?_, ?_, ?_⟩
  · rw [hnext, hA.nextId]
    rfl
  · intro id
    have hreg : S.bind.tables = S.tables := rfl
    rw [hlive, hreg]
    simp [insert_live_iff, hA.streams]
  · intro id
    have hprocs : S.bind.tables = S.tables := rfl
    rw [hlive, hprocs]
    simp [insert_live_iff, hA.procs]
  · intro id
    have hlisteners : S.bind.guest.listeners =
        Function.update S.guest.listeners S.guest.nextId (some S.allocated) := rfl
    rw [hlive, hlisteners, Function.update_apply]
    simp only [insert_live_iff, hA.listeners, hA.nextId, true_and]
    split <;> rfl

/-! ### The last id -/

/-- After `k` children of one thread. -/
structure Children (k : Nat) (s : State Unit) : Prop where
  idle : s.thread () = .idle
  nextId : s.nextId = BitVec.ofNat 32 (1 + 3 * k)
  length : s.ids.length = 3 * k

theorem children_reachable (k : Nat) : ∃ s, (threads Unit).Reachable s ∧ Children k s := by
  induction k with
  | zero => exact ⟨.init Unit, .start rfl, rfl, rfl, rfl⟩
  | succ k ih =>
      obtain ⟨s, hs, hidle, hnext, hlength⟩ := ih
      have hspawn : (threads Unit).next s (.spawn ()) = some (s.spawn ()) := by
        simp [threads, next, hidle]
      refine ⟨_, .step (a := .advance ()) (.step (a := .advance ()) (.step (a := .advance ())
        (.step hs trivial hspawn) trivial rfl) trivial rfl) trivial rfl, rfl, ?_, ?_⟩
      · show s.nextId + 3 = _
        rw [hnext]
        exact (BitVec.ofNat_add (1 + 3 * k) 3).symm
      · show s.ids.length + 3 = _
        omega

/-- **The counter does overflow**, when 1431655765 children have taken all ids. -/
theorem counter_overflows : ¬∀ s : State Unit, (threads Unit).Reachable s →
    s.ids.length ≤ 0xffffffff →
      (s.ids.map Prod.snd).Nodup ∧ s.displaced = [] ∧ s.overflows = [] := by
  intro hclaim
  obtain ⟨s, hs, hidle, hnext, hlength⟩ := children_reachable 1431655764
  have hspawn : (threads Unit).next s (.spawn ()) = some (s.spawn ()) := by
    simp [threads, next, hidle]
  have hids : (s.spawn ()).ids.length = s.ids.length + 3 := rfl
  obtain ⟨-, -, hnone⟩ := hclaim _ (.step hs trivial hspawn) (by omega)
  have hmem : Addition.counter ∈ (s.spawn ()).overflows := by
    have hover : s.nextId.uaddOverflow 3 = true := by
      rw [hnext]
      decide
    exact add_subset _ _ _ _ (add_subset _ _ _ _ (add_overflows _ _ hover))
  rw [hnone] at hmem
  cases hmem

end TurbopackWasi.HostPool.Ids
