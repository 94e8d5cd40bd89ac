import Mathlib.Data.List.Infix
import TurbopackWasi.HostPool.Exit
import TurbopackWasi.HostPool.System

/-!
# TurbopackWasi.HostPool.Commands

**The order of the guest's commands.** The bridge counts on the order of the JS events,
but `spawn`, `write` and `action` are queues of their own, and the host takes from any of
them. It passes over a `kill` of a process it does not know and a `write` to a connection
that is gone, so a command that overtakes another is lost without an error
(`commands_overtake`).

`ordered` shows what is needed: no dispatch overtakes a command on the same process or
connection, and nobody writes to a stream after shutting it down, which the bridge does
not refuse.
-/

namespace TurbopackWasi.HostPool

open TurbopackWasi.Lib

/-! ### What is asked and what is promised -/

def Call.chunkFor (id : Id) : Call → Option Chunk
  | .write id' bytes => if id' = id then some bytes else none
  | _ => none

/-- The chunks written to a connection. -/
def writesTo (id : Id) (cs : List Call) : List Chunk := cs.filterMap (Call.chunkFor id)

/-- A step that keeps to the order: it overtakes nothing, and writes to no stream that was
shut down; and the host has an id for a new connection. -/
def Keeps (s : State) : Act → Prop
  | .dispatch l _ => ¬s.calls.Overtakes Call.lane Call.target l
  | .write n _ => ∀ stream, s.guest.conns n = some stream → stream.writeClosed = false
  | .connect _ => 0 ≤ s.host.nextConnId
  | _ => True

/-- The commands on each process and connection are executed in the order of issue. -/
structure Ordered (s : State) : Prop where
  sorted : s.calls.Sorted Call.target
  /-- A process is spawned before it is killed. -/
  kills : ∀ l id, l ++ [.kill id] <+: s.calls.executed → ∃ n req, .spawn n req ∈ l ∧ req.procId = id
  /-- A socket that was ended or destroyed for the guest has got every chunk. -/
  chunks : ∀ n sk, s.host.sockets n = some sk → sk.ended = true ∨ sk.dropped = true →
    sk.written = writesTo (.ofInt 32 sk.connId) s.calls.issued

/-! ### Connections and their ids -/

/-- The numbers and the ids of the connections on both sides belong together. -/
structure Wired (g : Guest) (h : Host) (made : Nat) : Prop where
  low : -1 ≤ h.nextConnId
  high : h.nextConnId ≤ 0xffffffff
  range : ∀ n sk, h.sockets n = some sk →
    n < made ∧ h.nextConnId < sk.connId ∧ sk.connId ≤ 0xffffffff
  unique : ∀ n m sk sk', h.sockets n = some sk → h.sockets m = some sk' →
    sk.connId = sk'.connId → n = m
  lookup : ∀ i n, h.conns i = some n → ∃ sk, h.sockets n = some sk ∧ sk.connId = i
  stream : ∀ n stream, g.conns n = some stream →
    ∃ sk, h.sockets n = some sk ∧ stream.connId = .ofInt 32 sk.connId
  backlog : ∀ l id n, (id, n) ∈ g.backlog l →
    g.conns n = none ∧ ∃ sk, h.sockets n = some sk ∧ id = .ofInt 32 sk.connId
  nodup : ∀ l, ((g.backlog l).map Prod.snd).Nodup
  disjoint : ∀ l l' n, n ∈ (g.backlog l).map Prod.snd → n ∈ (g.backlog l').map Prod.snd → l = l'

section Wired

variable {g : Guest} {h : Host} {made : Nat}

/-- An id of the host survives the passage through a `u32`. -/
theorem toNat_ofInt {i : Int} (h₀ : 0 ≤ i) (h₁ : i ≤ 0xffffffff) :
    ((BitVec.ofInt 32 i).toNat : Int) = i := by
  rw [BitVec.toNat_ofInt]
  omega

theorem Wired.toNat (hW : Wired g h made) {n : Nat} {sk : Socket} (hs : h.sockets n = some sk) :
    ((BitVec.ofInt 32 sk.connId).toNat : Int) = sk.connId := by
  obtain ⟨-, h₀, h₁⟩ := hW.range n sk hs
  have hlow := hW.low
  exact toNat_ofInt (by omega) h₁

/-- Sockets with the same id are the same. -/
theorem Wired.unique_id (hW : Wired g h made) {n m : Nat} {sk sk' : Socket}
    (hn : h.sockets n = some sk) (hm : h.sockets m = some sk')
    (hid : BitVec.ofInt 32 sk.connId = BitVec.ofInt 32 sk'.connId) : n = m := by
  refine hW.unique n m sk sk' hn hm ?_
  rw [← hW.toNat hn, ← hW.toNat hm, hid]

theorem wired_mono (hW : Wired g h made) {made' : Nat} (hle : made ≤ made') : Wired g h made' := by
  refine { hW with range := ?_ }
  intro n sk hs
  obtain ⟨hn, hrange⟩ := hW.range n sk hs
  exact ⟨by omega, hrange⟩

theorem Host.setSocket_sockets {n m : Nat} {sk sk' : Socket} :
    (h.setSocket n sk').sockets m = some sk ↔
      m = n ∧ sk = sk' ∨ m ≠ n ∧ h.sockets m = some sk := by
  by_cases hmn : m = n
  · subst hmn
    simp [Host.setSocket, eq_comm]
  · simp [Host.setSocket, hmn]

/-- The ids of the sockets, when one socket changes but not its id. -/
theorem Host.setSocket_ids {n : Nat} {sk : Socket} (sk' : Socket) (hn : h.sockets n = some sk)
    (hid : sk'.connId = sk.connId) :
    (∀ m sk₁, (h.setSocket n sk').sockets m = some sk₁ →
      ∃ sk₂, h.sockets m = some sk₂ ∧ sk₂.connId = sk₁.connId) ∧
    ∀ m sk₂, h.sockets m = some sk₂ →
      ∃ sk₁, (h.setSocket n sk').sockets m = some sk₁ ∧ sk₁.connId = sk₂.connId := by
  constructor
  · intro m sk₁ hm
    rcases Host.setSocket_sockets.mp hm with ⟨rfl, rfl⟩ | ⟨-, hold⟩
    · exact ⟨sk, hn, hid.symm⟩
    · exact ⟨sk₁, hold, rfl⟩
  · intro m sk₂ hm
    by_cases hmn : m = n
    · subst hmn
      obtain rfl := Option.some.inj (hn.symm.trans hm)
      exact ⟨sk', Host.setSocket_sockets.mpr (.inl ⟨rfl, rfl⟩), hid⟩
    · exact ⟨sk₂, Host.setSocket_sockets.mpr (.inr ⟨hmn, hm⟩), rfl⟩

/-- A socket changes, but not its id. -/
theorem wired_setSocket (hW : Wired g h made) {n : Nat} {sk : Socket} (sk' : Socket)
    (hn : h.sockets n = some sk) (hid : sk'.connId = sk.connId) :
    Wired g (h.setSocket n sk') made := by
  obtain ⟨hget, hset⟩ := Host.setSocket_ids sk' hn hid
  refine { low := hW.low, high := hW.high, range := ?_, unique := ?_, lookup := ?_, stream := ?_,
           backlog := ?_, nodup := hW.nodup, disjoint := hW.disjoint }
  · intro m sk₁ hm
    obtain ⟨sk₂, hm₂, heq⟩ := hget m sk₁ hm
    rw [← heq]
    exact hW.range m sk₂ hm₂
  · intro m m' sk₁ sk₁' hm hm' heq
    obtain ⟨sk₂, hm₂, he⟩ := hget m sk₁ hm
    obtain ⟨sk₂', hm₂', he'⟩ := hget m' sk₁' hm'
    exact hW.unique m m' sk₂ sk₂' hm₂ hm₂' (he.trans (heq.trans he'.symm))
  · intro i m hm
    obtain ⟨sk₂, hm₂, he₂⟩ := hW.lookup i m hm
    obtain ⟨sk₁, hm₁, he₁⟩ := hset m sk₂ hm₂
    exact ⟨sk₁, hm₁, he₁.trans he₂⟩
  · intro m stream hm
    obtain ⟨sk₂, hm₂, he₂⟩ := hW.stream m stream hm
    obtain ⟨sk₁, hm₁, he₁⟩ := hset m sk₂ hm₂
    exact ⟨sk₁, hm₁, by rw [he₁, he₂]⟩
  · intro l id m hm
    obtain ⟨hnone, sk₂, hm₂, he₂⟩ := hW.backlog l id m hm
    obtain ⟨sk₁, hm₁, he₁⟩ := hset m sk₂ hm₂
    exact ⟨hnone, sk₁, hm₁, by rw [he₁, he₂]⟩

/-- An id is forgotten. -/
theorem wired_forget (hW : Wired g h made) (i : Int) :
    Wired g { h with conns := Function.update h.conns i none } made := by
  refine { hW with lookup := ?_ }
  intro j n hj
  by_cases hji : j = i
  · subst hji
    simp at hj
  · exact hW.lookup j n (by simpa [hji] using hj)

theorem Host.lookup_eq {id : Id} {n : Nat} {sk : Socket} :
    h.lookup id = some (n, sk) ↔ h.conns id.toNat = some n ∧ h.sockets n = some sk := by
  constructor
  · intro hl
    obtain ⟨m, hm, hl⟩ := Option.bind_eq_some_iff.mp hl
    obtain ⟨sk', hsk, hpair⟩ := Option.map_eq_some_iff.mp hl
    obtain ⟨rfl, rfl⟩ := Prod.mk.inj hpair
    exact ⟨hm, hsk⟩
  · rintro ⟨hn, hsk⟩
    simp [Host.lookup, hn, hsk]

/-- The socket of a connection is gone or broken. -/
def Host.Misses (h : Host) (id : Id) : Prop :=
  ∀ n sk, h.lookup id = some (n, sk) → sk.destroyed = true

/-- What all callbacks of a connection begin with. -/
theorem Host.socket_cases {α : Type} (h : Host) (id : Id) (miss : α) (hit : Nat → Socket → α) :
    (h.Misses id ∧ (match h.lookup id with
      | some (n, sk) => if sk.destroyed then miss else hit n sk
      | none => miss) = miss) ∨
    ∃ n sk, h.lookup id = some (n, sk) ∧ sk.destroyed = false ∧ (match h.lookup id with
      | some (n, sk) => if sk.destroyed then miss else hit n sk
      | none => miss) = hit n sk := by
  cases hl : h.lookup id with
  | none => exact .inl ⟨by simp [Host.Misses, hl], rfl⟩
  | some r =>
      obtain ⟨n, sk⟩ := r
      cases hd : sk.destroyed with
      | true => exact .inl ⟨by simp [Host.Misses, hl, hd], by simp [hd]⟩
      | false => exact .inr ⟨n, sk, rfl, hd, by simp [hd]⟩

theorem Host.onWrite_cases (h : Host) (id : Id) (bytes : Chunk) :
    (h.Misses id ∧ h.onWrite id bytes = h) ∨
    ∃ n sk, h.lookup id = some (n, sk) ∧ sk.destroyed = false ∧
      h.onWrite id bytes = h.setSocket n { sk with written := sk.written ++ [bytes] } :=
  h.socket_cases id _ _

theorem Host.onCloseWrite_cases (h : Host) (id : Id) :
    (h.Misses id ∧ h.onCloseWrite id = h) ∨
    ∃ n sk, h.lookup id = some (n, sk) ∧ sk.destroyed = false ∧
      h.onCloseWrite id = h.setSocket n { sk with ended := true } :=
  h.socket_cases id _ _

theorem Host.onDropConn_cases (h : Host) (id : Id) :
    (h.Misses id ∧
      h.onDropConn id = { h with conns := Function.update h.conns id.toNat none }) ∨
    ∃ n sk, h.lookup id = some (n, sk) ∧ sk.destroyed = false ∧
      h.onDropConn id = Host.setSocket { h with conns := Function.update h.conns id.toNat none } n
        { sk with dropped := true, destroyed := true } :=
  h.socket_cases id _ _

/-- `LISTENERS` and the handles of children do not matter. -/
theorem wired_guest (hW : Wired g h made) {g' : Guest} (hconns : g'.conns = g.conns)
    (hbacklog : g'.backlog = g.backlog) : Wired g' h made := by
  refine { hW with stream := ?_, backlog := ?_, nodup := ?_, disjoint := ?_ }
  · rw [hconns]
    exact hW.stream
  · rw [hconns, hbacklog]
    exact hW.backlog
  · rw [hbacklog]
    exact hW.nodup
  · rw [hbacklog]
    exact hW.disjoint

/-- The host's other tables do not matter. -/
theorem wired_host (hW : Wired g h made) {h' : Host} (hnext : h'.nextConnId = h.nextConnId)
    (hconns : h'.conns = h.conns) (hsockets : h'.sockets = h.sockets) : Wired g h' made where
  low := hnext ▸ hW.low
  high := hnext ▸ hW.high
  range := by
    rw [hnext, hsockets]
    exact hW.range
  unique := by
    rw [hsockets]
    exact hW.unique
  lookup := by
    rw [hconns, hsockets]
    exact hW.lookup
  stream := by
    rw [hsockets]
    exact hW.stream
  backlog := by
    rw [hsockets]
    exact hW.backlog
  nodup := hW.nodup
  disjoint := hW.disjoint

/-- A handle of a stream comes, changes or goes; its number is in no backlog. -/
theorem wired_conns (hW : Wired g h made) {n : Nat} {stream : Option TcpStream}
    (hfree : ∀ l, n ∉ (g.backlog l).map Prod.snd)
    (hs : ∀ st, stream = some st → ∃ sk, h.sockets n = some sk ∧
      st.connId = .ofInt 32 sk.connId) :
    Wired { g with conns := Function.update g.conns n stream } h made := by
  refine { hW with stream := ?_, backlog := ?_ }
  · intro m st hm
    by_cases hmn : m = n
    · subst hmn
      exact hs st (by simpa using hm)
    · exact hW.stream m st (by simpa [hmn] using hm)
  · intro l id m hm
    have hmn : m ≠ n := fun he => hfree l (he ▸ List.mem_map_of_mem hm)
    obtain ⟨hnone, hsk⟩ := hW.backlog l id m hm
    exact ⟨by simpa [hmn] using hnone, hsk⟩

/-- The backlog of a listener shrinks. -/
theorem wired_backlog (hW : Wired g h made) {l : Nat} {rest : List (Id × Nat)}
    (hsub : List.Sublist rest (g.backlog l)) :
    Wired { g with backlog := Function.update g.backlog l rest } h made := by
  have hmem : ∀ m x, x ∈ Function.update g.backlog l rest m → x ∈ g.backlog m := by
    intro m x hx
    by_cases hml : m = l
    · subst hml
      exact hsub.subset (by simpa using hx)
    · simpa [hml] using hx
  have hmap : ∀ m n, n ∈ (Function.update g.backlog l rest m).map Prod.snd →
      n ∈ (g.backlog m).map Prod.snd := by
    intro m n hn
    obtain ⟨x, hx, rfl⟩ := List.mem_map.mp hn
    exact List.mem_map_of_mem (hmem m x hx)
  refine { hW with backlog := ?_, nodup := ?_, disjoint := ?_ }
  · intro m id n hn
    exact hW.backlog m id n (hmem m _ hn)
  · intro m
    show ((Function.update g.backlog l rest m).map Prod.snd).Nodup
    by_cases hml : m = l
    · subst hml
      rw [Function.update_self]
      exact (hW.nodup m).sublist (hsub.map _)
    · rw [Function.update_of_ne hml]
      exact hW.nodup m
  · intro m m' n hn hn'
    exact hW.disjoint m m' n (hmap m n hn) (hmap m' n hn')

/-- A connection that waits is accepted. -/
theorem wired_accept (hW : Wired g h made) {l n : Nat} {id : Id} {rest : List (Id × Nat)}
    (hbacklog : g.backlog l = (id, n) :: rest) :
    Wired { g with
      backlog := Function.update g.backlog l rest
      conns := Function.update g.conns n (some ⟨id, false⟩) } h made := by
  have hmem : (id, n) ∈ g.backlog l := by simp [hbacklog]
  have hnodup : n ∉ rest.map Prod.snd := by
    have hnodup := hW.nodup l
    simp only [hbacklog, List.map_cons, List.nodup_cons] at hnodup
    exact hnodup.1
  have hfree : ∀ m, n ∉ (Function.update g.backlog l rest m).map Prod.snd := by
    intro m hm
    by_cases hml : m = l
    · subst hml
      exact hnodup (by simpa using hm)
    · rw [Function.update_of_ne hml] at hm
      exact hml (hW.disjoint m l n hm (List.mem_map_of_mem hmem))
  refine wired_conns (wired_backlog hW (by simp [hbacklog])) hfree ?_
  intro st hst
  obtain rfl := Option.some.inj hst
  exact (hW.backlog l id n hmem).2

/-- A handle's number is in no backlog. -/
theorem Wired.not_backlog (hW : Wired g h made) {n : Nat} {stream : TcpStream}
    (hn : g.conns n = some stream) (l : Nat) : n ∉ (g.backlog l).map Prod.snd := by
  intro hmem
  obtain ⟨⟨id, m⟩, hm, rfl⟩ := List.mem_map.mp hmem
  have hnone := (hW.backlog l id m hm).1
  simp [hnone] at hn

theorem wired_onWrite (hW : Wired g h made) (id : Id) (bytes : Chunk) :
    Wired g (h.onWrite id bytes) made := by
  rcases h.onWrite_cases id bytes with ⟨-, heq⟩ | ⟨n, sk, hl, -, heq⟩
  · rw [heq]
    exact hW
  · rw [heq]
    exact wired_setSocket hW _ (Host.lookup_eq.mp hl).2 rfl

theorem wired_onCloseWrite (hW : Wired g h made) (id : Id) :
    Wired g (h.onCloseWrite id) made := by
  rcases h.onCloseWrite_cases id with ⟨-, heq⟩ | ⟨n, sk, hl, -, heq⟩
  · rw [heq]
    exact hW
  · rw [heq]
    exact wired_setSocket hW _ (Host.lookup_eq.mp hl).2 rfl

theorem wired_onDropConn (hW : Wired g h made) (id : Id) :
    Wired g (h.onDropConn id) made := by
  rcases h.onDropConn_cases id with ⟨-, heq⟩ | ⟨n, sk, hl, -, heq⟩
  · rw [heq]
    exact wired_forget hW _
  · rw [heq]
    exact wired_setSocket (wired_forget hW _) _ (Host.lookup_eq.mp hl).2 rfl

theorem wired_onCall (hW : Wired g h made) (children : Id → Option Nat) (c : Call) :
    Wired g (h.onCall children c) made := by
  cases c with
  | spawn n req => exact hW
  | write id bytes => exact wired_onWrite hW id bytes
  | kill id =>
      simp only [Host.onCall]
      split
      · exact wired_host hW rfl rfl rfl
      · exact hW
  | closeWrite id => exact wired_onCloseWrite hW id
  | dropConn id => exact wired_onDropConn hW id
  | closeListener id => exact wired_host hW rfl rfl rfl
  | listen id => exact wired_host hW rfl rfl rfl

theorem Host.connect_sockets {n m : Nat} {sk : Socket} :
    (h.connect n).sockets m = some sk ↔
      m = n ∧ sk = .new h.nextConnId ∨ m ≠ n ∧ h.sockets m = some sk := by
  by_cases hmn : m = n
  · subst hmn
    simp [Host.connect, eq_comm]
  · simp [Host.connect, hmn]

/-- A new connection gets the next id. -/
theorem wired_connect (hW : Wired g h made) (hroom : 0 ≤ h.nextConnId) :
    Wired g (h.connect made) (made + 1) := by
  have hkeep : ∀ n sk, h.sockets n = some sk → (h.connect made).sockets n = some sk := by
    intro n sk hn
    have hlt := (hW.range n sk hn).1
    exact Host.connect_sockets.mpr (.inr ⟨by omega, hn⟩)
  have hhigh := hW.high
  refine { low := ?_, high := ?_, range := ?_, unique := ?_, lookup := ?_, stream := ?_,
           backlog := ?_, nodup := hW.nodup, disjoint := hW.disjoint }
  · show -1 ≤ h.nextConnId - 1
    omega
  · show h.nextConnId - 1 ≤ 0xffffffff
    omega
  · intro n sk hn
    show n < made + 1 ∧ h.nextConnId - 1 < sk.connId ∧ sk.connId ≤ 0xffffffff
    rcases Host.connect_sockets.mp hn with ⟨rfl, rfl⟩ | ⟨-, hn⟩
    · exact ⟨by omega, by simp [Socket.new], hhigh⟩
    · have hrange := hW.range n sk hn
      omega
  · intro n m sk sk' hn hm hid
    -- the new id is below every other
    rcases Host.connect_sockets.mp hn with ⟨rfl, rfl⟩ | ⟨-, hold⟩ <;>
      rcases Host.connect_sockets.mp hm with ⟨rfl, rfl⟩ | ⟨-, hold'⟩
    · rfl
    · have hrange := (hW.range m sk' hold').2.1
      simp only [Socket.new] at hid
      omega
    · have hrange := (hW.range n sk hold).2.1
      simp only [Socket.new] at hid
      omega
    · exact hW.unique n m sk sk' hold hold' hid
  · intro i n hi
    by_cases hii : i = h.nextConnId
    · subst hii
      obtain rfl : made = n := by simpa [Host.connect] using hi
      exact ⟨_, Host.connect_sockets.mpr (.inl ⟨rfl, rfl⟩), rfl⟩
    · obtain ⟨sk, hn, hid⟩ := hW.lookup i n (by simpa [Host.connect, hii] using hi)
      exact ⟨sk, hkeep n sk hn, hid⟩
  · intro n stream hn
    obtain ⟨sk, hsk, hid⟩ := hW.stream n stream hn
    exact ⟨sk, hkeep n sk hsk, hid⟩
  · intro l id n hn
    obtain ⟨hnone, sk, hsk, hid⟩ := hW.backlog l id n hn
    exact ⟨hnone, sk, hkeep n sk hsk, hid⟩

/-- A connection waits at a listener. -/
theorem wired_enqueue (hW : Wired g h made) {l n : Nat} {sk : Socket} {id : Id}
    (hsk : h.sockets n = some sk) (hid : id = .ofInt 32 sk.connId) (hnone : g.conns n = none)
    (hfree : ∀ l, n ∉ (g.backlog l).map Prod.snd) :
    Wired { g with backlog := Function.update g.backlog l (g.backlog l ++ [(id, n)]) } h made := by
  let backlog := Function.update g.backlog l (g.backlog l ++ [(id, n)])
  have hget : ∀ m x, x ∈ backlog m → x ∈ g.backlog m ∨ m = l ∧ x = (id, n) := by
    intro m x hx
    by_cases hml : m = l
    · subst hml
      simpa [backlog] using hx
    · exact .inl (by simpa [backlog, hml] using hx)
  have hmap : ∀ m k, k ∈ (backlog m).map Prod.snd →
      k ∈ (g.backlog m).map Prod.snd ∨ m = l ∧ k = n := by
    intro m k hk
    obtain ⟨x, hx, rfl⟩ := List.mem_map.mp hk
    rcases hget m x hx with hx | ⟨rfl, rfl⟩
    · exact .inl (List.mem_map_of_mem hx)
    · exact .inr ⟨rfl, rfl⟩
  refine { hW with backlog := ?_, nodup := ?_, disjoint := ?_ }
  · intro m id' k hk
    rcases hget m _ hk with hold | ⟨-, hnew⟩
    · exact hW.backlog m id' k hold
    · obtain ⟨rfl, rfl⟩ := Prod.mk.inj hnew
      exact ⟨hnone, sk, hsk, hid⟩
  · intro m
    show ((backlog m).map Prod.snd).Nodup
    by_cases hml : m = l
    · subst hml
      simp only [backlog, Function.update_self, List.map_append, List.map_cons, List.map_nil]
      refine List.nodup_append.mpr ⟨hW.nodup m, by simp, ?_⟩
      intro a ha b hb
      obtain rfl : b = n := by simpa using hb
      exact fun he => hfree m (he ▸ ha)
    · simp only [backlog, Function.update_of_ne hml]
      exact hW.nodup m
  · intro m m' k hk hk'
    rcases hmap m k hk with hold | ⟨hm, hkn⟩ <;> rcases hmap m' k hk' with hold' | ⟨hm', hkn'⟩
    · exact hW.disjoint m m' k hold hold'
    · exact absurd hold (hkn' ▸ hfree m)
    · exact absurd hold' (hkn ▸ hfree m')
    · rw [hm, hm']

end Wired

/-! ### The calls and the sockets -/

theorem writesTo_append {id : Id} {cs cs' : List Call} :
    writesTo id (cs ++ cs') = writesTo id cs ++ writesTo id cs' :=
  List.filterMap_append

theorem Call.chunkFor_eq_some {id : Id} {c : Call} {bytes : Chunk} :
    c.chunkFor id = some bytes ↔ c = .write id bytes := by
  cases c with
  | write id' bytes' => simp [Call.chunkFor]
  | _ => simp [Call.chunkFor]

theorem writesTo_eq_nil {id : Id} {cs : List Call} (h : ∀ bytes, .write id bytes ∉ cs) :
    writesTo id cs = [] := by
  refine List.filterMap_eq_nil_iff.mpr fun c hc => ?_
  refine Option.eq_none_iff_forall_ne_some.mpr fun bytes hb => ?_
  rw [Call.chunkFor_eq_some] at hb
  exact h bytes (hb ▸ hc)

theorem writesTo_filter {id : Id} {cs : List Call} :
    writesTo id (cs.filter (Call.target · = .conn id)) = writesTo id cs := by
  unfold writesTo
  rw [List.filterMap_filter]
  refine List.filterMap_congr fun c _ => ?_
  by_cases hc : c.target = .conn id
  · simp [hc]
  · have hnone : c.chunkFor id = none := by
      refine Option.eq_none_iff_forall_ne_some.mpr fun bytes hb => ?_
      rw [Call.chunkFor_eq_some] at hb
      exact hc (hb ▸ rfl)
    simp [hc, hnone]

/-- The end of a connection, for the writer or for both. -/
def Call.Ends (id : Id) (c : Call) : Prop := c = .closeWrite id ∨ c = .dropConn id

/-- No chunk is written to a connection that was ended. -/
def Final (c c' : Call) : Prop := ∀ id bytes, c.Ends id → c' ≠ .write id bytes

def Call.IsKill (c : Call) : Prop := ∃ id, c = .kill id

/-- A process and what kills it. -/
def Kills (c c' : Call) : Prop := ∃ n req, c = .spawn n req ∧ c' = .kill req.procId

/-- What the calls and the sockets have to do with each other. -/
structure Traffic (g : Guest) (σ : Lanes Call) (h : Host) (made : Nat) : Prop where
  wired : Wired g h made
  inOrder : σ.InOrder Call.target
  known : ∀ c ∈ σ.issued, ∀ id, c.target = .conn id →
    ∃ n sk, h.sockets n = some sk ∧ id = .ofInt 32 sk.connId
  final : σ.issued.Pairwise Final
  caused : Lanes.Caused Call.IsKill Kills σ.issued
  child : ∀ n child, g.children n = some child →
    ∃ m req, .spawn m req ∈ σ.issued ∧ req.procId = child.procId
  stream : ∀ n stream, g.conns n = some stream → .dropConn stream.connId ∉ σ.issued ∧
    (stream.writeClosed = false → .closeWrite stream.connId ∉ σ.issued)
  backlog : ∀ l id n, (id, n) ∈ g.backlog l → ∀ c ∈ σ.issued, c.target ≠ .conn id
  intact : ∀ n sk, h.sockets n = some sk → sk.destroyed = false →
    h.conns sk.connId = some n ∧ sk.written = writesTo (.ofInt 32 sk.connId) σ.executed
  ended : ∀ n sk, h.sockets n = some sk → sk.ended = true ∨ sk.dropped = true →
    (∃ c ∈ σ.executed, c.Ends (.ofInt 32 sk.connId)) ∧
      sk.written = writesTo (.ofInt 32 sk.connId) σ.issued

section Traffic

variable {g : Guest} {σ : Lanes Call} {h : Host} {made : Nat}

/-- **A call is issued.** -/
theorem traffic_issue (hT : Traffic g σ h made) {c : Call}
    (hknown : ∀ id, c.target = .conn id →
      (∃ n sk, h.sockets n = some sk ∧ id = .ofInt 32 sk.connId) ∧
        ∀ l n, (id, n) ∉ g.backlog l)
    (hkill : ∀ id, c = .kill id → ∃ m req, .spawn m req ∈ σ.issued ∧ req.procId = id)
    (hdrop : ∀ n stream, g.conns n = some stream → c ≠ .dropConn stream.connId)
    (hclose : ∀ n stream, g.conns n = some stream → c = .closeWrite stream.connId →
      stream.writeClosed = true)
    (hwrite : ∀ id bytes, c = .write id bytes → ∀ c' ∈ σ.issued, ¬c'.Ends id) :
    Traffic g (σ.issue c) h made where
  wired := hT.wired
  inOrder := Lanes.inOrder_issue hT.inOrder c
  known := by
    intro c' hc' id hid
    rcases List.mem_append.mp hc' with hold | hnew
    · exact hT.known c' hold id hid
    · obtain rfl := List.mem_singleton.mp hnew
      exact (hknown id hid).1
  final := by
    refine List.pairwise_append.mpr ⟨hT.final, List.pairwise_singleton _ _, ?_⟩
    intro c₁ hc₁ c₂ hc₂ id bytes hends hc
    obtain rfl := List.mem_singleton.mp hc₂
    exact hwrite id bytes hc c₁ hc₁ hends
  caused := by
    refine Lanes.caused_concat hT.caused ?_
    rintro ⟨id, rfl⟩
    obtain ⟨m, req, hmem, rfl⟩ := hkill id rfl
    exact ⟨_, hmem, m, req, rfl, rfl⟩
  child := by
    intro n child hn
    obtain ⟨m, req, hmem, hid⟩ := hT.child n child hn
    exact ⟨m, req, List.mem_append_left _ hmem, hid⟩
  stream := by
    intro n stream hn
    obtain ⟨hnodrop, hnoclose⟩ := hT.stream n stream hn
    refine ⟨?_, fun hwc => ?_⟩
    · intro hmem
      rcases List.mem_append.mp hmem with hold | hnew
      · exact hnodrop hold
      · exact hdrop n stream hn (List.mem_singleton.mp hnew).symm
    · intro hmem
      rcases List.mem_append.mp hmem with hold | hnew
      · exact hnoclose hwc hold
      · have hclosed := hclose n stream hn (List.mem_singleton.mp hnew).symm
        simp [hwc] at hclosed
  backlog := by
    intro l id n hn c' hc' hid
    rcases List.mem_append.mp hc' with hold | hnew
    · exact hT.backlog l id n hn c' hold hid
    · obtain rfl := List.mem_singleton.mp hnew
      exact (hknown id hid).2 l n hn
  intact := hT.intact
  ended := by
    intro n sk hn hend
    obtain ⟨⟨c', hc', hends⟩, hwritten⟩ := hT.ended n sk hn hend
    refine ⟨⟨c', hc', hends⟩, ?_⟩
    have hissued := hT.inOrder.executed_subset hc'
    have hnone : writesTo (.ofInt 32 sk.connId) [c] = [] := by
      refine writesTo_eq_nil fun bytes hmem => ?_
      exact hwrite _ bytes (List.mem_singleton.mp hmem).symm c' hissued hends
    rw [hwritten]
    show _ = writesTo _ (σ.issued ++ [c])
    rw [writesTo_append, hnone, List.append_nil]

/-- Once the end of a connection is executed, every chunk is. -/
theorem drained (hI : σ.InOrder Call.target) (hF : σ.issued.Pairwise Final) {c : Call} {id : Id}
    (hc : c ∈ σ.executed) (hends : c.Ends id) :
    writesTo id σ.executed = writesTo id σ.issued := by
  have hnone : writesTo id (σ.waiting.filter (Call.target · = .conn id)) = [] := by
    refine writesTo_eq_nil fun bytes hmem => ?_
    have hpair := (List.pairwise_append.mp (hI.pairwise hF (.conn id))).2.2
    have htarget : c.target = .conn id := by
      rcases hends with rfl | rfl <;> rfl
    exact hpair c (List.mem_filter.mpr ⟨hc, by simpa using htarget⟩) _ hmem id bytes hends rfl
  have hall := congrArg (writesTo id) (hI (.conn id))
  rw [writesTo_append, hnone, List.append_nil, writesTo_filter, writesTo_filter] at hall
  exact hall

theorem Wired.lookup_id (hW : Wired g h made) {id : Id} {n : Nat} {sk : Socket}
    (hl : h.lookup id = some (n, sk)) : id = .ofInt 32 sk.connId := by
  obtain ⟨hn, hsk⟩ := Host.lookup_eq.mp hl
  obtain ⟨sk', hsk', hid⟩ := hW.lookup _ _ hn
  obtain rfl := Option.some.inj (hsk.symm.trans hsk')
  rw [hid]
  simp

/-- An intact socket is found. -/
theorem Traffic.lookup (hT : Traffic g σ h made) {n : Nat} {sk : Socket}
    (hn : h.sockets n = some sk) (hok : sk.destroyed = false) :
    h.lookup (.ofInt 32 sk.connId) = some (n, sk) := by
  refine Host.lookup_eq.mpr ⟨?_, hn⟩
  rw [hT.wired.toNat hn]
  exact (hT.intact n sk hn hok).1

/-- A call is executed: what it must do to the sockets. -/
theorem traffic_exec (hT : Traffic g σ h made) {σ' : Lanes Call} {h' : Host} {c : Call}
    (hI : σ'.InOrder Call.target) (hissued : σ'.issued = σ.issued)
    (hexec : σ'.executed = σ.executed ++ [c]) (hW : Wired g h' made)
    (hkeep : ∀ n sk, h.sockets n = some sk →
      ∃ sk', h'.sockets n = some sk' ∧ sk'.connId = sk.connId)
    (hintact : ∀ n sk, h'.sockets n = some sk → sk.destroyed = false →
      h'.conns sk.connId = some n ∧
        sk.written = writesTo (.ofInt 32 sk.connId) (σ.executed ++ [c]))
    (hended : ∀ n sk, h'.sockets n = some sk → sk.ended = true ∨ sk.dropped = true →
      h.sockets n = some sk ∨
        (∃ c' ∈ σ.executed ++ [c], c'.Ends (.ofInt 32 sk.connId)) ∧
          sk.written = writesTo (.ofInt 32 sk.connId) (σ.executed ++ [c])) :
    Traffic g σ' h' made where
  wired := hW
  inOrder := hI
  known := by
    intro c' hc' id hid
    obtain ⟨n, sk, hn, rfl⟩ := hT.known c' (hissued ▸ hc') id hid
    obtain ⟨sk', hn', hconn⟩ := hkeep n sk hn
    exact ⟨n, sk', hn', by rw [hconn]⟩
  final := hissued ▸ hT.final
  caused := hissued ▸ hT.caused
  child := hissued ▸ hT.child
  stream := hissued ▸ hT.stream
  backlog := hissued ▸ hT.backlog
  intact := hexec ▸ hintact
  ended := by
    intro n sk hn hend
    rcases hended n sk hn hend with hold | ⟨⟨c', hc', hends⟩, hwritten⟩
    · obtain ⟨⟨c', hc', hends⟩, hwritten⟩ := hT.ended n sk hold hend
      rw [hissued, hexec]
      exact ⟨⟨c', List.mem_append_left _ hc', hends⟩, hwritten⟩
    · rw [hexec]
      refine ⟨⟨c', hc', hends⟩, hwritten.trans ?_⟩
      rw [← hexec] at hc' ⊢
      exact drained hI (hissued ▸ hT.final) hc' hends

/-- A call that writes nothing and leaves the connections alone is executed. -/
theorem traffic_other (hT : Traffic g σ h made) {σ' : Lanes Call} {h' : Host} {c : Call}
    (hI : σ'.InOrder Call.target) (hissued : σ'.issued = σ.issued)
    (hexec : σ'.executed = σ.executed ++ [c]) (hW : Wired g h' made)
    (hconns : h'.conns = h.conns) (hsockets : h'.sockets = h.sockets)
    (hc : ∀ id bytes, c ≠ .write id bytes) : Traffic g σ' h' made := by
  refine traffic_exec hT hI hissued hexec hW ?_ ?_ ?_
  · intro n sk hn
    exact ⟨sk, hsockets ▸ hn, rfl⟩
  · intro n sk hn hok
    rw [hsockets] at hn
    have hnone : writesTo (.ofInt 32 sk.connId) [c] = [] :=
      writesTo_eq_nil fun bytes hmem => hc _ bytes (List.mem_singleton.mp hmem).symm
    rw [hconns, writesTo_append, hnone, List.append_nil]
    exact hT.intact n sk hn hok
  · intro n sk hn _
    exact .inl (hsockets ▸ hn)

/-- A call on another connection changes nothing here. -/
theorem writesTo_other {id : Id} {cs : List Call} {c : Call} (hc : c.target ≠ .conn id) :
    writesTo id (cs ++ [c]) = writesTo id cs := by
  have hnone : writesTo id [c] = [] := by
    refine writesTo_eq_nil fun bytes hmem => hc ?_
    rw [← List.mem_singleton.mp hmem]
    rfl
  rw [writesTo_append, hnone, List.append_nil]

section Exec

variable {σ' : Lanes Call} {h' : Host} {c : Call} {id : Id} {n : Nat} {sk sk' : Socket}

/-- A call on a connection whose socket is gone or broken. -/
theorem traffic_miss (hT : Traffic g σ h made) (hI : σ'.InOrder Call.target)
    (hissued : σ'.issued = σ.issued) (hexec : σ'.executed = σ.executed ++ [c])
    (hc : c.target = .conn id) (hW : Wired g h' made)
    (hl : h.Misses id) (hsockets : h'.sockets = h.sockets)
    (hconns : ∀ i : Int, i ≠ id.toNat → h'.conns i = h.conns i) : Traffic g σ' h' made := by
  refine traffic_exec hT hI hissued hexec hW ?_ ?_ ?_
  · intro m sk₁ hm
    exact ⟨sk₁, hsockets ▸ hm, rfl⟩
  · intro m sk₁ hm hok
    rw [hsockets] at hm
    have hne : id ≠ .ofInt 32 sk₁.connId := by
      rintro rfl
      simp [hl m sk₁ (hT.lookup hm hok)] at hok
    have hnat : sk₁.connId ≠ id.toNat := by
      intro he
      exact hne (by rw [he]; simp)
    rw [hconns _ hnat, writesTo_other (hc ▸ fun he => hne (Target.conn.inj he))]
    exact hT.intact m sk₁ hm hok
  · intro m sk₁ hm _
    exact .inl (hsockets ▸ hm)

/-- A call on a connection whose socket is found. -/
theorem traffic_hit (hT : Traffic g σ h made) (hI : σ'.InOrder Call.target)
    (hissued : σ'.issued = σ.issued) (hexec : σ'.executed = σ.executed ++ [c])
    (hc : c.target = .conn id) (hW : Wired g h' made) (hl : h.lookup id = some (n, sk))
    (hsockets : ∀ m sk₁, h'.sockets m = some sk₁ ↔
      m = n ∧ sk₁ = sk' ∨ m ≠ n ∧ h.sockets m = some sk₁)
    (hconnId : sk'.connId = sk.connId)
    (hconns : ∀ i : Int, i ≠ id.toNat → h'.conns i = h.conns i)
    (hmine : sk'.destroyed = false → h'.conns id.toNat = some n)
    (hwritten : sk'.written = writesTo id (σ.executed ++ [c]))
    (hend : sk'.ended = true ∨ sk'.dropped = true → ∃ c' ∈ σ.executed ++ [c], c'.Ends id) :
    Traffic g σ' h' made := by
  have hid := hT.wired.lookup_id hl
  obtain ⟨-, hn⟩ := Host.lookup_eq.mp hl
  have hnat : sk.connId = id.toNat := by
    rw [hid]
    exact (hT.wired.toNat hn).symm
  refine traffic_exec hT hI hissued hexec hW ?_ ?_ ?_
  · intro m sk₁ hm
    by_cases hmn : m = n
    · subst hmn
      obtain rfl := Option.some.inj (hn.symm.trans hm)
      exact ⟨sk', (hsockets m sk').mpr (.inl ⟨rfl, rfl⟩), hconnId⟩
    · exact ⟨sk₁, (hsockets m sk₁).mpr (.inr ⟨hmn, hm⟩), rfl⟩
  · intro m sk₁ hm hok
    rcases (hsockets m sk₁).mp hm with ⟨rfl, rfl⟩ | ⟨hmn, hold⟩
    · rw [hconnId, ← hid, hnat]
      exact ⟨hmine hok, hwritten⟩
    · have hne : id ≠ .ofInt 32 sk₁.connId :=
        fun he => hmn (hT.wired.unique_id hold hn (he.symm.trans hid))
      have hnat' : sk₁.connId ≠ id.toNat := by
        intro he
        exact hne (by rw [he]; simp)
      rw [hconns _ hnat', writesTo_other (hc ▸ fun he => hne (Target.conn.inj he))]
      exact hT.intact m sk₁ hold hok
  · intro m sk₁ hm hends
    rcases (hsockets m sk₁).mp hm with ⟨rfl, rfl⟩ | ⟨hmn, hold⟩
    · rw [hconnId, ← hid]
      exact .inr ⟨hend hends, hwritten⟩
    · exact .inl hold

/-- **The host executes a call.** -/
theorem traffic_onCall (hT : Traffic g σ h made) (hI : σ'.InOrder Call.target)
    (hissued : σ'.issued = σ.issued) (hexec : σ'.executed = σ.executed ++ [c])
    (children : Id → Option Nat) : Traffic g σ' (h.onCall children c) made := by
  have hW := wired_onCall hT.wired children c
  cases c with
  | spawn n req => exact traffic_other hT hI hissued hexec hW rfl rfl (by simp)
  | kill id =>
      simp only [Host.onCall] at hW ⊢
      split
      · exact traffic_other hT hI hissued hexec (wired_host hT.wired rfl rfl rfl) rfl rfl (by simp)
      · exact traffic_other hT hI hissued hexec hT.wired rfl rfl (by simp)
  | closeListener id => exact traffic_other hT hI hissued hexec hW rfl rfl (by simp)
  | listen id => exact traffic_other hT hI hissued hexec hW rfl rfl (by simp)
  | write id bytes =>
      simp only [Host.onCall] at hW ⊢
      rcases h.onWrite_cases id bytes with ⟨hmiss, heq⟩ | ⟨n, sk, hl, hok, heq⟩
      · rw [heq] at hW ⊢
        exact traffic_miss hT hI hissued hexec rfl hW hmiss rfl (fun _ _ => rfl)
      · rw [heq] at hW ⊢
        obtain ⟨hconn, hn⟩ := Host.lookup_eq.mp hl
        have hid := hT.wired.lookup_id hl
        refine traffic_hit hT hI hissued hexec rfl hW hl
          (fun _ _ => Host.setSocket_sockets) ?_ (fun _ _ => rfl) (fun _ => hconn) ?_ ?_
        · rfl
        · show sk.written ++ [bytes] = _
          rw [(hT.intact n sk hn hok).2, writesTo_append, hid]
          simp [writesTo, Call.chunkFor]
        · intro hend
          obtain ⟨c, hc, hends⟩ := (hT.ended n sk hn hend).1
          exact ⟨c, List.mem_append_left _ hc, hid ▸ hends⟩
  | closeWrite id =>
      simp only [Host.onCall] at hW ⊢
      rcases h.onCloseWrite_cases id with ⟨hmiss, heq⟩ | ⟨n, sk, hl, hok, heq⟩
      · rw [heq] at hW ⊢
        exact traffic_miss hT hI hissued hexec rfl hW hmiss rfl (fun _ _ => rfl)
      · rw [heq] at hW ⊢
        obtain ⟨hconn, hn⟩ := Host.lookup_eq.mp hl
        have hid := hT.wired.lookup_id hl
        refine traffic_hit hT hI hissued hexec rfl hW hl
          (fun _ _ => Host.setSocket_sockets) ?_ (fun _ _ => rfl) (fun _ => hconn) ?_ ?_
        · rfl
        · show sk.written = _
          rw [(hT.intact n sk hn hok).2, writesTo_append, hid]
          simp [writesTo, Call.chunkFor]
        · intro _
          exact ⟨_, List.mem_append_right _ List.mem_cons_self, .inl rfl⟩
  | dropConn id =>
      simp only [Host.onCall] at hW ⊢
      have hconns : ∀ i : Int, i ≠ id.toNat →
          Function.update h.conns id.toNat none i = h.conns i :=
        fun i hi => Function.update_of_ne hi _ _
      rcases h.onDropConn_cases id with ⟨hmiss, heq⟩ | ⟨n, sk, hl, hok, heq⟩
      · rw [heq] at hW ⊢
        exact traffic_miss hT hI hissued hexec rfl hW hmiss rfl hconns
      · rw [heq] at hW ⊢
        obtain ⟨-, hn⟩ := Host.lookup_eq.mp hl
        have hid := hT.wired.lookup_id hl
        refine traffic_hit hT hI hissued hexec rfl hW hl
          (fun _ _ => Host.setSocket_sockets) ?_ hconns (by simp) ?_ ?_
        · rfl
        · show sk.written = _
          rw [(hT.intact n sk hn hok).2, writesTo_append, hid]
          simp [writesTo, Call.chunkFor]
        · intro _
          exact ⟨_, List.mem_append_right _ List.mem_cons_self, .inr rfl⟩

end Exec

/-! ### The two sides -/

/-- The guest's other tables do not matter, but a child's process has been spawned. -/
theorem traffic_guest (hT : Traffic g σ h made) {g' : Guest} (hconns : g'.conns = g.conns)
    (hbacklog : g'.backlog = g.backlog) (hchild : ∀ n child, g'.children n = some child →
      ∃ m req, .spawn m req ∈ σ.issued ∧ req.procId = child.procId) : Traffic g' σ h made where
  wired := wired_guest hT.wired hconns hbacklog
  inOrder := hT.inOrder
  known := hT.known
  final := hT.final
  caused := hT.caused
  child := hchild
  stream := hconns ▸ hT.stream
  backlog := hbacklog ▸ hT.backlog
  intact := hT.intact
  ended := hT.ended

theorem traffic_made (hT : Traffic g σ h made) {made' : Nat} (hle : made ≤ made') :
    Traffic g σ h made' := by
  exact { hT with wired := wired_mono hT.wired hle }

/-- The host's other tables do not matter. -/
theorem traffic_host (hT : Traffic g σ h made) {h' : Host} (hnext : h'.nextConnId = h.nextConnId)
    (hconns : h'.conns = h.conns) (hsockets : h'.sockets = h.sockets) : Traffic g σ h' made where
  wired := wired_host hT.wired hnext hconns hsockets
  inOrder := hT.inOrder
  known := hsockets ▸ hT.known
  final := hT.final
  caused := hT.caused
  child := hT.child
  stream := hT.stream
  backlog := hT.backlog
  intact := by
    rw [hsockets, hconns]
    exact hT.intact
  ended := hsockets ▸ hT.ended

/-- A handle of a stream comes, changes or goes. -/
theorem traffic_conns (hT : Traffic g σ h made) (n : Nat) (stream : Option TcpStream)
    (hW : Wired { g with conns := Function.update g.conns n stream } h made)
    (hs : ∀ st, stream = some st → .dropConn st.connId ∉ σ.issued ∧
      (st.writeClosed = false → .closeWrite st.connId ∉ σ.issued)) :
    Traffic { g with conns := Function.update g.conns n stream } σ h made := by
  refine { hT with wired := hW, stream := ?_ }
  intro m st hm
  by_cases hmn : m = n
  · subst hmn
    exact hs st (by simpa using hm)
  · exact hT.stream m st (by simpa [hmn] using hm)

/-- The backlog of a listener changes. -/
theorem traffic_backlog (hT : Traffic g σ h made) (l : Nat) (rest : List (Id × Nat))
    (hW : Wired { g with backlog := Function.update g.backlog l rest } h made)
    (hrest : ∀ id n, (id, n) ∈ rest → ∀ c ∈ σ.issued, c.target ≠ .conn id) :
    Traffic { g with backlog := Function.update g.backlog l rest } σ h made := by
  refine { hT with wired := hW, backlog := ?_ }
  intro m id n hn
  by_cases hml : m = l
  · subst hml
    exact hrest id n (by simpa using hn)
  · exact hT.backlog m id n (by simpa [hml] using hn)

/-- A socket breaks or closes. -/
theorem traffic_destroy (hT : Traffic g σ h made) {h' : Host} {n : Nat} {sk : Socket}
    (hn : h.sockets n = some sk) (hW : Wired g h' made)
    (hsockets : h'.sockets = (h.setSocket n { sk with destroyed := true }).sockets)
    (hconns : ∀ i : Int, i ≠ sk.connId → h'.conns i = h.conns i) : Traffic g σ h' made := by
  refine { hT with wired := hW, known := ?_, intact := ?_, ended := ?_ }
  · intro c hc id hid
    obtain ⟨m, sk₁, hm, rfl⟩ := hT.known c hc id hid
    rw [hsockets]
    obtain ⟨sk₂, hm₂, he⟩ := (Host.setSocket_ids { sk with destroyed := true } hn rfl).2 m sk₁ hm
    exact ⟨m, sk₂, hm₂, by rw [he]⟩
  · intro m sk₁ hm hok
    rw [hsockets] at hm
    rcases Host.setSocket_sockets.mp hm with ⟨rfl, rfl⟩ | ⟨hmn, hold⟩
    · simp at hok
    · rw [hconns _ fun he => hmn (hT.wired.unique m n sk₁ sk hold hn he)]
      exact hT.intact m sk₁ hold hok
  · intro m sk₁ hm hend
    rw [hsockets] at hm
    rcases Host.setSocket_sockets.mp hm with ⟨rfl, rfl⟩ | ⟨-, hold⟩
    · exact hT.ended m sk hn hend
    · exact hT.ended m sk₁ hold hend

/-- The id of a new connection is not in use. -/
theorem Wired.fresh (hW : Wired g h made) (hroom : 0 ≤ h.nextConnId) {n : Nat} {sk : Socket}
    (hn : h.sockets n = some sk) : BitVec.ofInt 32 h.nextConnId ≠ .ofInt 32 sk.connId := by
  intro he
  have hlt := (hW.range n sk hn).2.1
  have hnat := hW.toNat hn
  rw [← he, toNat_ofInt hroom hW.high] at hnat
  omega

theorem traffic_connect (hT : Traffic g σ h made) (hroom : 0 ≤ h.nextConnId) :
    Traffic g σ (h.connect made) (made + 1) := by
  have hkeep : ∀ n sk, h.sockets n = some sk → (h.connect made).sockets n = some sk := by
    intro n sk hn
    have hlt := (hT.wired.range n sk hn).1
    exact Host.connect_sockets.mpr (.inr ⟨by omega, hn⟩)
  have hunknown : ∀ c ∈ σ.issued, c.target ≠ .conn (.ofInt 32 h.nextConnId) := by
    intro c hc hid
    obtain ⟨n, sk, hn, he⟩ := hT.known c hc _ hid
    exact hT.wired.fresh hroom hn he
  refine { hT with wired := wired_connect hT.wired hroom, known := ?_, intact := ?_, ended := ?_ }
  · intro c hc id hid
    obtain ⟨n, sk, hn, he⟩ := hT.known c hc id hid
    exact ⟨n, sk, hkeep n sk hn, he⟩
  · intro n sk hn hok
    rcases Host.connect_sockets.mp hn with ⟨rfl, rfl⟩ | ⟨-, hold⟩
    · refine ⟨by simp [Host.connect, Socket.new], ?_⟩
      refine (writesTo_eq_nil fun bytes hmem => ?_).symm
      exact hunknown _ (hT.inOrder.executed_subset hmem) rfl
    · have hlt := (hT.wired.range n sk hold).2.1
      have hne : sk.connId ≠ h.nextConnId := by omega
      have hconn : (h.connect made).conns sk.connId = h.conns sk.connId :=
        Function.update_of_ne hne _ _
      rw [hconn]
      exact hT.intact n sk hold hok
  · intro n sk hn hend
    rcases Host.connect_sockets.mp hn with ⟨rfl, rfl⟩ | ⟨-, hold⟩
    · simp [Socket.new] at hend
    · exact hT.ended n sk hold hend

end Traffic

/-! ### The steps -/

/-- What the calls and the sockets of a state have to do with each other. -/
def State.Traffic (s : State) : Prop :=
  HostPool.Traffic s.guest s.calls s.host s.tables.reg.made

section Step

variable {N : Napi} {s s' : State}

theorem traffic_spawn (hT : s.Traffic) (cmd : Command) : (s.spawn cmd).Traffic := by
  have hissue := traffic_issue hT (c := .spawn s.tables.reg.made (cmd.req s.guest.nextId))
    nofun nofun nofun nofun nofun
  have hmade : s.tables.reg.made ≤ (s.tables.spawn s.guest.nextId).reg.made := by
    simp only [Tables.spawn, Registry.insert_made]
    omega
  refine traffic_guest (traffic_made hissue hmade) rfl rfl ?_
  intro n child hn
  by_cases hnm : n = s.tables.reg.made
  · subst hnm
    obtain rfl : ⟨s.guest.nextId, false⟩ = child := by simpa [State.spawn] using hn
    exact ⟨_, _, List.mem_append_right _ List.mem_cons_self, rfl⟩
  · exact hissue.child n child (by simpa [State.spawn, hnm] using hn)

/-- A kill of a process that has a handle. -/
theorem traffic_kill (hT : s.Traffic) {n : Nat} {child : Child}
    (hn : s.guest.children n = some child) :
    HostPool.Traffic s.guest (s.calls.issue (.kill child.procId)) s.host s.tables.reg.made := by
  refine traffic_issue hT nofun ?_ nofun nofun nofun
  intro id hid
  obtain rfl := Call.kill.inj hid
  exact hT.child n child hn

theorem traffic_startKill (hT : s.Traffic) {n : Nat} (h : s.startKill n = some s') :
    s'.Traffic := by
  obtain ⟨child, hn, rfl⟩ := Option.map_eq_some_iff.mp h
  by_cases hk : child.killed
  · rw [if_pos hk]
    exact hT
  · rw [if_neg hk]
    have hkill := traffic_kill hT hn
    refine traffic_guest hkill rfl rfl ?_
    intro m child' hm
    by_cases hmn : m = n
    · subst hmn
      obtain rfl : { child with killed := true } = child' := by simpa using hm
      exact hkill.child m child hn
    · exact hkill.child m child' (by simpa [hmn] using hm)

theorem traffic_dropChild (hT : s.Traffic) {n : Nat} (h : s.dropChild n = some s') :
    s'.Traffic := by
  obtain ⟨child, hn, rfl⟩ := Option.map_eq_some_iff.mp h
  have hchild : ∀ m child', Function.update s.guest.children n none m = some child' →
      s.guest.children m = some child' := by
    intro m child' hm
    by_cases hmn : m = n
    · subst hmn
      simp at hm
    · simpa [hmn] using hm
  dsimp only
  split
  · have hkill := traffic_kill hT hn
    exact traffic_guest hkill rfl rfl fun m child' hm => hkill.child m child' (hchild m child' hm)
  · exact traffic_guest hT rfl rfl fun m child' hm => hT.child m child' (hchild m child' hm)

theorem traffic_bind (hT : s.Traffic) : s.bind.Traffic := by
  have hissue := traffic_issue hT (c := .listen s.guest.nextId) nofun nofun nofun nofun nofun
  exact traffic_guest hissue rfl rfl hissue.child

theorem traffic_accept (hT : s.Traffic) {l : Nat} (h : s.accept l = some s') : s'.Traffic := by
  obtain ⟨-, id, n, rest, -, hbacklog, rfl⟩ := State.accept_eq_some h
  have hfirst := traffic_backlog hT l rest
    (wired_backlog hT.wired (by simp [hbacklog]))
    (fun id' m hm => hT.backlog l id' m (by simp [hbacklog, hm]))
  have hnew := hT.backlog l id n (by simp [hbacklog])
  have hconns := traffic_conns hfirst n (some ⟨id, false⟩) (wired_accept hT.wired hbacklog) ?_
  · exact traffic_guest hconns rfl rfl hconns.child
  · intro st hst
    obtain rfl := Option.some.inj hst
    exact ⟨fun hc => hnew _ hc rfl, fun _ hc => hnew _ hc rfl⟩

theorem traffic_dropListener (hT : s.Traffic) {l : Nat} (h : s.dropListener l = some s') :
    s'.Traffic := by
  obtain ⟨id, -, rfl⟩ := Option.map_eq_some_iff.mp h
  have hempty := traffic_backlog hT l [] (wired_backlog hT.wired (by simp)) nofun
  have hissue := traffic_issue hempty (c := .closeListener id) nofun nofun nofun nofun nofun
  have hmade := Registry.dropReaders_made ((s.guest.backlog l).map Prod.snd) s.tables.reg
  exact traffic_guest (traffic_made hissue hmade.ge) rfl rfl hissue.child

/-- Which connection a handle writes to. -/
theorem traffic_known (hT : s.Traffic) {n : Nat} {stream : TcpStream}
    (hn : s.guest.conns n = some stream) :
    (∃ m sk, s.host.sockets m = some sk ∧ stream.connId = .ofInt 32 sk.connId) ∧
      ∀ l m, (stream.connId, m) ∉ s.guest.backlog l := by
  obtain ⟨sk, hsk, hid⟩ := hT.wired.stream n stream hn
  refine ⟨⟨n, sk, hsk, hid⟩, fun l m hm => ?_⟩
  -- the same id would be the same socket, but that has a handle
  obtain ⟨hnone, sk', hsk', hid'⟩ := hT.wired.backlog l _ m hm
  obtain rfl := hT.wired.unique_id hsk' hsk (hid'.symm.trans hid)
  simp [hn] at hnone

/-- Two handles are of two connections. -/
theorem traffic_handle (hT : s.Traffic) {n m : Nat} {stream stream' : TcpStream}
    (hn : s.guest.conns n = some stream) (hm : s.guest.conns m = some stream')
    (hid : stream.connId = stream'.connId) : n = m := by
  obtain ⟨sk, hsk, he⟩ := hT.wired.stream n stream hn
  obtain ⟨sk', hsk', he'⟩ := hT.wired.stream m stream' hm
  exact hT.wired.unique_id hsk hsk' (he ▸ he' ▸ hid)

theorem traffic_write (hT : s.Traffic) {n : Nat} {bytes : Chunk}
    (hopen : ∀ stream, s.guest.conns n = some stream → stream.writeClosed = false)
    (h : s.write n bytes = some s') : s'.Traffic := by
  obtain ⟨stream, hn, rfl⟩ := Option.map_eq_some_iff.mp h
  obtain ⟨hnodrop, hnoclose⟩ := hT.stream n stream hn
  refine traffic_issue hT ?_ nofun nofun nofun ?_
  · intro id hid
    obtain rfl := Target.conn.inj hid
    exact traffic_known hT hn
  · intro id bytes' hw c hc hends
    obtain ⟨rfl, -⟩ := Call.write.inj hw
    rcases hends with rfl | rfl
    · exact hnoclose (hopen stream hn) hc
    · exact hnodrop hc

theorem traffic_shutdown (hT : s.Traffic) {n : Nat} (h : s.shutdown n = some s') :
    s'.Traffic := by
  obtain ⟨stream, hn, rfl⟩ := Option.map_eq_some_iff.mp h
  by_cases hw : stream.writeClosed
  · rw [if_pos hw]
    exact hT
  · rw [if_neg hw]
    have hclosed := traffic_conns hT n (some { stream with writeClosed := true })
      (wired_conns hT.wired (hT.wired.not_backlog hn) ?_) ?_
    · refine traffic_issue hclosed ?_ nofun nofun ?_ nofun
      · intro id hid
        obtain rfl := Target.conn.inj hid
        exact traffic_known hT hn
      · intro m st hm hid
        by_cases hmn : m = n
        · subst hmn
          obtain rfl : { stream with writeClosed := true } = st := by simpa using hm
          rfl
        · have hm' : s.guest.conns m = some st := by simpa [hmn] using hm
          exact absurd (traffic_handle hT hm' hn (Call.closeWrite.inj hid).symm) hmn
    · intro st hst
      obtain rfl := Option.some.inj hst
      exact hT.wired.stream n stream hn
    · intro st hst
      obtain rfl := Option.some.inj hst
      exact ⟨(hT.stream n stream hn).1, nofun⟩

theorem traffic_dropStream (hT : s.Traffic) {n : Nat} (h : s.dropStream n = some s') :
    s'.Traffic := by
  obtain ⟨stream, hn, rfl⟩ := Option.map_eq_some_iff.mp h
  have hgone := traffic_conns hT n none
    (wired_conns hT.wired (hT.wired.not_backlog hn) nofun) nofun
  have hissue := traffic_issue hgone (c := .dropConn stream.connId) ?_ nofun ?_ nofun nofun
  · exact traffic_made hissue (s.tables.reg.remove_made stream.connId).ge
  · intro id hid
    obtain rfl := Target.conn.inj hid
    exact traffic_known hT hn
  · intro m st hm hid
    by_cases hmn : m = n
    · subst hmn
      simp at hm
    · have hm' : s.guest.conns m = some st := by simpa [hmn] using hm
      exact hmn (traffic_handle hT hm' hn (Call.dropConn.inj hid).symm)

theorem traffic_dispatch (hT : s.Traffic) {l : Lane} {o : CpSpawn}
    (hno : ¬s.calls.Overtakes Call.lane Call.target l) (h : s.dispatch N l o = some s') :
    s'.Traffic := by
  obtain ⟨⟨c, σ'⟩, hd, rfl⟩ := Option.map_eq_some_iff.mp h
  have hI := Lanes.inOrder_dispatch hT.inOrder hno hd
  obtain ⟨as₁, as₂, -, -, -, hσ⟩ := Lanes.dispatch_cases hd
  have hissued : σ'.issued = s.calls.issued := by rw [hσ]
  have hexec : σ'.executed = s.calls.executed ++ [c] := by rw [hσ]
  have hcall := traffic_onCall hT hI hissued hexec s.tables.children
  cases c with
  | spawn n req =>
      have hmade := Tables.applyAll_made (onSpawn N n req o).2 s.tables
      have hspawn := traffic_made hcall hmade.ge
      dsimp only [State.onSpawn]
      split
      · split <;> exact traffic_host hspawn rfl rfl rfl
      · exact traffic_host hspawn rfl rfl rfl
  | write id bytes => exact hcall
  | kill id => exact hcall
  | closeWrite id => exact hcall
  | dropConn id => exact hcall
  | closeListener id => exact hcall
  | listen id => exact hcall

theorem traffic_emit (hT : s.Traffic) {n : Nat} {e : Emission} (h : s.emit n e = some s') :
    s'.Traffic := by
  obtain ⟨session, -, -, rfl⟩ := State.emit_eq_some h
  exact traffic_made hT (s.tables.apply_made _).ge

theorem traffic_close (hT : s.Traffic) {n : Nat} {code : Option (BitVec 32)} {signal : Bool}
    (h : s.close n code signal = some s') : s'.Traffic := by
  obtain ⟨session, -, -, rfl⟩ := State.close_eq_some h
  have hmade := Tables.applyAll_made (session.onClose code signal).2 s.tables
  exact traffic_host (traffic_made hT hmade.ge) rfl rfl rfl

theorem traffic_arrive (hT : s.Traffic) (hroom : 0 ≤ s.host.nextConnId) {listenerId : Id}
    (h : s.connect listenerId = some s') : s'.Traffic := by
  obtain ⟨-, rfl⟩ := State.connect_eq_some h
  let id : Id := .ofInt 32 s.host.nextConnId
  let n := s.tables.reg.made
  have hnew := traffic_connect hT hroom
  have hmade : (s.tables.reg.insert id).made = n + 1 := s.tables.reg.insert_made id
  have hsk : (s.host.connect n).sockets n = some (.new s.host.nextConnId) :=
    Host.connect_sockets.mpr (.inl ⟨rfl, rfl⟩)
  -- nobody has heard of the id
  have hbacklog : ∀ l m, (id, m) ∉ s.guest.backlog l := by
    intro l m hm
    obtain ⟨-, sk, hsk', hid⟩ := hT.wired.backlog l id m hm
    exact hT.wired.fresh hroom hsk' hid
  have hstream : ∀ m stream, s.guest.conns m = some stream → stream.connId ≠ id := by
    intro m stream hm he
    obtain ⟨sk, hsk', hid⟩ := hT.wired.stream m stream hm
    exact hT.wired.fresh hroom hsk' (he.symm.trans hid)
  unfold State.poolAccept
  split
  · next l hl =>
      split
      · next hbound =>
          have hfree : ∀ l', n ∉ (s.guest.backlog l').map Prod.snd := by
            intro l' hm
            obtain ⟨⟨id', m⟩, hmem, hmn⟩ := List.mem_map.mp hm
            obtain ⟨-, sk, hsk', -⟩ := hT.wired.backlog l' id' m hmem
            have hlt := (hT.wired.range m sk hsk').1
            exact absurd hmn (Nat.ne_of_lt hlt)
          have hnone : s.guest.conns n = none := by
            cases hn : s.guest.conns n with
            | none => rfl
            | some stream =>
                obtain ⟨sk, hsk', -⟩ := hT.wired.stream n stream hn
                exact absurd (hT.wired.range n sk hsk').1 (Nat.lt_irrefl _)
          have hqueue := traffic_backlog hnew l (s.guest.backlog l ++ [(id, n)])
            (wired_enqueue hnew.wired hsk rfl hnone hfree) ?_
          · exact traffic_made hqueue hmade.ge
          · intro id' m hm c hc
            rcases List.mem_append.mp hm with hold | hlast
            · exact hT.backlog l id' m hold c hc
            · obtain ⟨rfl, -⟩ := Prod.mk.inj (List.mem_singleton.mp hlast)
              intro hid
              obtain ⟨m', sk, hsk', he⟩ := hT.known c hc _ hid
              exact hT.wired.fresh hroom hsk' he
      · exact traffic_made hnew hmade.ge
  · have hissue := traffic_issue hnew (c := .dropConn id) ?_ nofun ?_ nofun nofun
    · refine traffic_made hissue ?_
      rw [State.issue_tables, Registry.remove_made]
      exact hmade.ge
    · intro id' hid
      obtain rfl := Target.conn.inj hid
      exact ⟨⟨n, _, hsk, rfl⟩, hbacklog⟩
    · intro m stream hm hid
      exact hstream m stream hm (Call.dropConn.inj hid).symm

theorem traffic_sockClose (hT : s.Traffic) {n : Nat} (h : s.sockClose n = some s') :
    s'.Traffic := by
  obtain ⟨sk, hn, -, rfl⟩ := State.sockClose_eq_some h
  have hmade := traffic_made hT (s.tables.apply_made (.push (.ofInt 32 sk.connId) none)).ge
  refine traffic_destroy hmade hn ?_ rfl (fun i hi => Function.update_of_ne hi _ _)
  exact wired_forget (wired_setSocket hmade.wired { sk with destroyed := true } hn rfl) sk.connId

/-- **Every step that keeps to the order.** -/
theorem traffic_next (hT : s.Traffic) {a : Act} (hk : Keeps s a) (h : next N s a = some s') :
    s'.Traffic := by
  cases a with
  | spawn cmd =>
      obtain rfl := Option.some.inj h
      exact traffic_spawn hT cmd
  | startKill n => exact traffic_startKill hT h
  | dropChild n => exact traffic_dropChild hT h
  | bind =>
      obtain rfl := Option.some.inj h
      exact traffic_bind hT
  | accept l => exact traffic_accept hT h
  | dropListener l => exact traffic_dropListener hT h
  | read n remaining =>
      obtain ⟨r, hr, rfl⟩ := Option.map_eq_some_iff.mp h
      obtain ⟨-, p, hp, rfl⟩ := State.read_eq_some hr
      obtain ⟨rx, -, rfl⟩ := Option.map_eq_some_iff.mp hp
      exact hT
  | dropReader n =>
      obtain ⟨-, -, rfl⟩ := State.dropReader_eq_some h
      exact hT
  | write n bytes => exact traffic_write hT hk h
  | shutdown n => exact traffic_shutdown hT h
  | dropStream n => exact traffic_dropStream hT h
  | dispatch l o => exact traffic_dispatch hT hk h
  | emit n e => exact traffic_emit hT h
  | close n code signal => exact traffic_close hT h
  | connect listenerId => exact traffic_arrive hT hk h
  | data n bytes =>
      obtain ⟨sk, -, -, -, rfl⟩ := State.data_eq_some h
      exact traffic_made hT (s.tables.apply_made _).ge
  | destroy n =>
      obtain ⟨sk, hn, rfl⟩ := Option.map_eq_some_iff.mp h
      exact traffic_destroy hT hn (wired_setSocket hT.wired _ hn rfl) rfl (fun _ _ => rfl)
  | sockClose n => exact traffic_sockClose hT h

end Step

/-! ### Whole runs -/

theorem traffic_init : State.init.Traffic where
  wired := {
    low := by simp [State.init, Host.init]
    high := by simp [State.init, Host.init]
    range := nofun
    unique := nofun
    lookup := nofun
    stream := nofun
    backlog := nofun
    nodup := fun _ => List.nodup_nil
    disjoint := nofun }
  inOrder := Lanes.inOrder_empty
  known := nofun
  final := List.Pairwise.nil
  caused := Lanes.caused_nil
  child := nofun
  stream := nofun
  backlog := nofun
  intact := nofun
  ended := nofun

theorem kills_target {c c' : Call} (h : Kills c c') : c.target = c'.target := by
  obtain ⟨n, req, rfl, rfl⟩ := h
  rfl

theorem ordered_of_traffic {s : State} (hT : s.Traffic) : Ordered s where
  sorted := hT.inOrder.sorted
  kills := by
    intro l id hl
    have hcaused := hT.inOrder.sorted.caused (fun _ _ => kills_target) hT.caused
    obtain ⟨c, hc, n, req, rfl, hid⟩ := hcaused l (.kill id) hl ⟨id, rfl⟩
    exact ⟨n, req, hc, (Call.kill.inj hid).symm⟩
  chunks n sk hn hend := (hT.ended n sk hn hend).2

/-- **No command overtakes.** In a run whose dispatches overtake no command on the same
process or connection, and in which nobody writes to a stream after shutting it down,
the host executes the commands on each process and connection in the order of issue. -/
theorem ordered {N : Napi} {s : State} (h : (bridge N).Reach Keeps s) : Ordered s := by
  have hT : s.Traffic := by
    refine h.invariant (I := State.Traffic) ?_ ?_
    · rintro _ rfl
      exact traffic_init
    · intro s a s' hT hk hn
      exact traffic_next hT hk hn
  exact ordered_of_traffic hT

/-- A run of `bind`, a connection, a write and the end of the stream. -/
theorem ordered_echo : ∃ s, (bridge nodeApi).replay .init
      [.bind, .dispatch .listen .child, .connect 1, .accept 0, .write 0 [104, 105], .shutdown 0,
        .dispatch .write .child, .dispatch .action .child] = some s ∧ Ordered s ∧
    s.host.sockets 0 = some ⟨0xffffffff, [[104, 105]], true, false, false⟩ := by
  have h₁ : (bridge nodeApi).Reach Keeps State.init.bind :=
    .step (.start rfl) (a := .bind) trivial rfl
  have h₂ := Machine.Reach.step h₁ (a := .dispatch .listen .child)
    (by exact Lanes.not_overtakes_first rfl rfl) rfl
  have h₃ := Machine.Reach.step h₂ (a := .connect 1)
    (by change (0 : Int) ≤ 0xffffffff; decide) rfl
  have h₄ := Machine.Reach.step h₃ (a := .accept 0) (by exact trivial) rfl
  have h₅ := Machine.Reach.step h₄ (a := .write 0 [104, 105])
    (by rintro _ ⟨⟩; rfl) rfl
  have h₆ := Machine.Reach.step h₅ (a := .shutdown 0) (by exact trivial) rfl
  have h₇ := Machine.Reach.step h₆ (a := .dispatch .write .child)
    (by exact Lanes.not_overtakes_first rfl rfl) rfl
  have h₈ := Machine.Reach.step h₇ (a := .dispatch .action .child)
    (by exact Lanes.not_overtakes_first rfl rfl) rfl
  exact ⟨_, rfl, ordered h₈, rfl⟩

/-- A command without arguments. -/
def plain : Command := ⟨"node", [], "", []⟩

/-- A child that is dropped at once, while the host takes the `action` first. -/
def lostKill : List Act :=
  [.spawn plain, .dropChild 0, .dispatch .action .child, .dispatch .spawn .child]

/-- A stream that is dropped after a write, likewise. -/
def lostTail : List Act :=
  [.bind, .dispatch .listen .child, .connect 1, .accept 0, .write 0 [104, 105], .dropStream 0,
    .dispatch .action .child, .dispatch .write .child]

/-- **Commands overtake.** The kill is discarded and the child runs on; the chunk never
gets to the socket. -/
theorem commands_overtake :
    (∃ s, (bridge nodeApi).replay .init lostKill = some s ∧ ¬Ordered s ∧
      s.calls.executed = [.kill 1, .spawn 0 (plain.req 1)] ∧ s.host.killed 0 = false ∧
      s.host.sessions 0 = some ⟨plain.req 1, false⟩) ∧
    ∃ s, (bridge nodeApi).replay .init lostTail = some s ∧ ¬Ordered s ∧
      s.calls.waiting = [] ∧ s.host.sockets 0 = some ⟨0xffffffff, [], false, true, true⟩ := by
  constructor
  · refine ⟨_, rfl, ?_, rfl, rfl, rfl⟩
    intro h
    obtain ⟨n, req, hmem, -⟩ := h.kills [] 1 ⟨[.spawn 0 (plain.req 1)], rfl⟩
    cases hmem
  · refine ⟨_, rfl, ?_, rfl, rfl⟩
    intro h
    exact absurd (h.chunks 0 _ rfl (.inr rfl)) (by decide)

end TurbopackWasi.HostPool
