import Mathlib.Data.List.Basic
import Mathlib.Data.BitVec

/-!
# TurbopackWasi.HostPool.Streams

The byte streams that the host pushes into the guest. Every stream has an unbounded
channel, whose sender sits in the map `STREAMS` under the stream's id and nowhere else:
removing the entry is the end of the stream. The receiver is a `ByteRx`, which hands a
pushed chunk out piece by piece if the reader's buffer is smaller.

Channels are numbered in the order of their registration. A number is not part of the
program: ids are, and they are 32 bits wide.
-/

namespace TurbopackWasi.HostPool

/-- A `u32`: processes, listeners, and byte streams. -/
abbrev Id := BitVec 32

abbrev Chunk := List UInt8

/-! ### The reader -/

/-- The receiver with its carry-over, a chunk that did not fit the caller's buffer. -/
structure ByteRx where
  pending : Chunk
  pos : Nat
  deriving DecidableEq, Repr

def ByteRx.new : ByteRx := ⟨[], 0⟩

/-- The part of the carry-over that is still to be read. -/
def ByteRx.rest (rx : ByteRx) : Chunk := rx.pending.drop rx.pos

/-- The read from the carry-over. -/
def ByteRx.take (rx : ByteRx) (remaining : Nat) : Chunk × ByteRx :=
  let n := min (rx.pending.length - rx.pos) remaining
  let pos := rx.pos + n
  (rx.rest.take n, if pos = rx.pending.length then .new else { rx with pos := pos })

/-- What a poll leaves behind: the bytes filled in if it is ready, the reader, and the
chunks still in the channel. -/
structure Polled where
  ready : Option Chunk
  rx : ByteRx
  items : List Chunk

/-- `poll_read` on a channel with chunks queued, into a buffer with `remaining` bytes
left. A closed channel is ready with nothing. -/
def ByteRx.pollRead (remaining : Nat) (sender : Bool) : ByteRx → List Chunk → Polled
  | rx, items =>
    if rx.pos < rx.pending.length then
      ⟨some (rx.take remaining).1, (rx.take remaining).2, items⟩
    else
      match items with
      | [] => ⟨if sender then none else some [], rx, []⟩
      | bytes :: items => pollRead remaining sender ⟨bytes, 0⟩ items

section Reader

variable {remaining : Nat} {sender : Bool} {rx : ByteRx} {items : List Chunk}

theorem ByteRx.rest_eq_nil (h : ¬rx.pos < rx.pending.length) : rx.rest = [] :=
  List.drop_eq_nil_of_le (Nat.le_of_not_lt h)

theorem ByteRx.take_rest (h : rx.pos < rx.pending.length) :
    (rx.take remaining).1 ++ (rx.take remaining).2.rest = rx.rest := by
  unfold ByteRx.take
  dsimp only
  split
  · next hall =>
      -- the last piece
      have hlen : rx.rest.length ≤ min (rx.pending.length - rx.pos) remaining := by
        rw [ByteRx.rest, List.length_drop]
        omega
      rw [List.take_of_length_le hlen]
      exact List.append_nil _
  · show rx.rest.take _ ++ rx.pending.drop _ = rx.rest
    rw [← List.drop_drop]
    exact List.take_append_drop _ _

/-- A poll loses nothing: what it fills in, carries over and leaves is what there was. -/
theorem ByteRx.pollRead_bytes : ∀ {items : List Chunk} {rx : ByteRx},
    (rx.pollRead remaining sender items).ready.getD [] ++
      (rx.pollRead remaining sender items).rx.rest ++
        (rx.pollRead remaining sender items).items.flatten = rx.rest ++ items.flatten := by
  intro items
  induction items with
  | nil =>
      intro rx
      unfold ByteRx.pollRead
      split
      · next h => simp [ByteRx.take_rest h]
      · next h =>
          cases sender with
          | true => simp
          | false => simp
  | cons bytes items ih =>
      intro rx
      unfold ByteRx.pollRead
      split
      · next h => simp [ByteRx.take_rest h]
      · next h =>
          have hbytes : (⟨bytes, 0⟩ : ByteRx).rest = bytes := rfl
          rw [ih, hbytes, ByteRx.rest_eq_nil h]
          rfl

theorem ByteRx.take_ne_nil (h : rx.pos < rx.pending.length) (hr : 0 < remaining) :
    (rx.take remaining).1 ≠ [] := by
  intro hnil
  have hlen := congrArg List.length hnil
  simp only [ByteRx.take, ByteRx.rest, List.length_take, List.length_drop, List.length_nil] at hlen
  omega

/-- Ready with nothing into a buffer with room: the sender is gone, and so is every
byte. -/
theorem ByteRx.pollRead_eof (hr : 0 < remaining) : ∀ {items : List Chunk} {rx : ByteRx},
    (rx.pollRead remaining sender items).ready = some [] →
      sender = false ∧ rx.rest ++ items.flatten = [] := by
  intro items
  induction items with
  | nil =>
      intro rx h
      unfold ByteRx.pollRead at h
      split at h
      · next hpos => exact absurd (Option.some.inj h) (ByteRx.take_ne_nil hpos hr)
      · next hpos =>
          cases sender with
          | true => simp at h
          | false => exact ⟨rfl, by simp [ByteRx.rest_eq_nil hpos]⟩
  | cons bytes items ih =>
      intro rx h
      unfold ByteRx.pollRead at h
      split at h
      · next hpos => exact absurd (Option.some.inj h) (ByteRx.take_ne_nil hpos hr)
      · next hpos =>
          obtain ⟨hsender, hrest⟩ := ih h
          refine ⟨hsender, ?_⟩
          rw [ByteRx.rest_eq_nil hpos]
          exact hrest

/-- No more bytes than the buffer has room for. -/
theorem ByteRx.pollRead_length : ∀ {items : List Chunk} {rx : ByteRx} {bytes : Chunk},
    (rx.pollRead remaining sender items).ready = some bytes → bytes.length ≤ remaining := by
  intro items
  induction items with
  | nil =>
      intro rx bytes h
      unfold ByteRx.pollRead at h
      split at h
      · obtain rfl := Option.some.inj h
        simp only [ByteRx.take, List.length_take]
        omega
      · cases sender with
        | true => simp at h
        | false =>
            obtain rfl := Option.some.inj h
            exact Nat.zero_le _
  | cons b items ih =>
      intro rx bytes h
      unfold ByteRx.pollRead at h
      split at h
      · obtain rfl := Option.some.inj h
        simp only [ByteRx.take, List.length_take]
        omega
      · exact ih h

/-- The carry-over is dropped as soon as it is read. -/
example : (⟨[1, 2, 3], 1⟩ : ByteRx).pollRead 2 true [[4]] = ⟨some [2, 3], .new, [[4]]⟩ := rfl

end Reader

/-! ### The map of streams -/

/-- An unbounded channel: the chunks sent and not received, and whether its sender is
alive. -/
structure Mpsc where
  items : List Chunk
  sender : Bool

structure Registry where
  /-- `STREAMS`: the channel whose sender is kept under an id. -/
  streams : Id → Option Nat
  chans : Nat → Mpsc
  /-- The receivers that are alive. -/
  readers : Nat → Option ByteRx
  /-- The number of channels so far. -/
  made : Nat

namespace Registry

def empty : Registry := ⟨fun _ => none, fun _ => ⟨[], false⟩, fun _ => none, 0⟩

/-- A sender is dropped. -/
def dropSender (r : Registry) : Option Nat → Registry
  | none => r
  | some n => { r with chans := Function.update r.chans n { r.chans n with sender := false } }

/-- A new channel, its sender inserted under `id`. A sender that was there is dropped. -/
def insert (r : Registry) (id : Id) : Registry :=
  let r := r.dropSender (r.streams id)
  { streams := Function.update r.streams id (some r.made)
    chans := Function.update r.chans r.made ⟨[], true⟩
    readers := Function.update r.readers r.made (some .new)
    made := r.made + 1 }

def remove (r : Registry) (id : Id) : Registry :=
  { r.dropSender (r.streams id) with streams := Function.update r.streams id none }

/-- `tx.send`: a chunk for a receiver that is gone is lost. -/
def send (r : Registry) (n : Nat) (bytes : Chunk) : Registry :=
  match r.readers n with
  | none => r
  | some _ =>
      { r with
        chans := Function.update r.chans n
          { r.chans n with items := (r.chans n).items ++ [bytes] } }

/-- `turbopack_pool_push_bytes`; `none` is the end of the stream. -/
def pushBytes (r : Registry) (id : Id) : Option Chunk → Registry
  | some bytes =>
    match r.streams id with
    | some n => r.send n bytes
    | none => r
  | none => r.remove id

def dropReader (r : Registry) (n : Nat) : Registry :=
  { r with readers := Function.update r.readers n none }

/-- A poll of the reader of a channel. -/
def pollRead (r : Registry) (n remaining : Nat) : Option (Option Chunk × Registry) :=
  (r.readers n).map fun rx =>
    let p := rx.pollRead remaining (r.chans n).sender (r.chans n).items
    (p.ready, { r with
      readers := Function.update r.readers n (some p.rx)
      chans := Function.update r.chans n { r.chans n with items := p.items } })

/-- What is under way to the reader of a channel. -/
def buffered (r : Registry) (n : Nat) (rx : ByteRx) : Chunk :=
  rx.rest ++ (r.chans n).items.flatten

/-! ### Nothing but `insert` makes a channel -/

theorem remove_made (r : Registry) (id : Id) : (r.remove id).made = r.made := by
  unfold remove dropSender
  split <;> rfl

theorem insert_made (r : Registry) (id : Id) : (r.insert id).made = r.made + 1 := by
  unfold insert dropSender
  split <;> rfl

theorem send_made (r : Registry) (n : Nat) (bytes : Chunk) :
    (r.send n bytes).made = r.made := by
  unfold send
  split <;> rfl

theorem pushBytes_made (r : Registry) (id : Id) (data : Option Chunk) :
    (r.pushBytes id data).made = r.made := by
  cases data with
  | none => exact r.remove_made id
  | some bytes =>
      simp only [pushBytes]
      split
      · exact r.send_made _ bytes
      · rfl

end Registry

end TurbopackWasi.HostPool
