import Mathlib.Data.List.Pairwise
import TurbopackWasi.HostPool.Commands

/-!
# TurbopackWasi.HostPool.Fidelity

**Every stream hands out its own bytes.** What a reader got and what is under way to it
is what the host delivered for the stream, so nothing is lost, nothing is mixed up, and
the end comes last: `faithful`.

All senders are kept in one map under 32-bit ids. The ids of the guest count up and those
of the host count down, and the bridge counts on their never meeting (`State.Room`). Where
they do, or where the guest's alone go round, a new stream takes the entry of an old one,
and the old one ends early: `ids_wrap`.
-/

namespace TurbopackWasi.HostPool

open TurbopackWasi.Lib

/-- The chunks of a channel's source. -/
def own (sources : Nat → Option Source) (n : Nat) : List Chunk := (sources n).elim [] Source.own

/-- A reader gets the bytes of its own stream, all of them, and then its end. -/
structure Faithful (s : State) : Prop where
  /-- The reads so far returned a beginning of the stream. -/
  begins : ∀ n, s.filled n <+: (own s.sources n).flatten
  /-- What a living reader has not got is under way. -/
  lossless : ∀ n rx, s.tables.reg.readers n = some rx →
    s.filled n ++ s.tables.reg.buffered n rx = (own s.sources n).flatten
  /-- Zero bytes into a buffer with room: the stream was closed, and every byte returned. -/
  eof : ∀ n remaining s', 0 < remaining → s.read n remaining = some (some [], s') →
    (∃ src, s.sources n = some src ∧ src.live = false) ∧
      s.filled n = (own s.sources n).flatten

/-! ### Channels and their sources -/

/-- The map of senders and the sources belong together. -/
structure Flow (r : Registry) (sources : Nat → Option Source) (filled : Nat → Chunk) : Prop where
  bound : ∀ id n, r.streams id = some n → n < r.made
  sender : ∀ id n, r.streams id = some n → (r.chans n).sender = true
  unique : ∀ id id' n, r.streams id = some n → r.streams id' = some n → id = id'
  begins : ∀ n, filled n <+: (own sources n).flatten
  bytes : ∀ n rx, r.readers n = some rx → filled n ++ r.buffered n rx = (own sources n).flatten
  closed : ∀ n rx, r.readers n = some rx → (r.chans n).sender = false →
    ∃ src, sources n = some src ∧ src.live = false
  mine : ∀ n src, sources n = some src → r.streams src.id = none ∨ r.streams src.id = some n
  live : ∀ n src rx, sources n = some src → src.live = true → r.readers n = some rx →
    r.streams src.id = some n
  new : ∀ n, r.made ≤ n → r.readers n = none ∧ sources n = none ∧ filled n = []

section Flow

variable {r : Registry} {sources : Nat → Option Source} {filled : Nat → Chunk}

theorem own_update {n m : Nat} {src : Option Source} (hne : m ≠ n) :
    own (Function.update sources n src) m = own sources m := by
  simp [own, hne]

theorem own_of_none {n : Nat} (h : sources n = none) : own sources n = [] := by
  simp [own, h]

theorem own_of_some {n : Nat} {src : Source} (h : sources n = some src) :
    own sources n = src.own := by
  simp [own, h]

theorem remove_streams_eq (r : Registry) {id id' : Id} :
    (r.remove id).streams id' = if id' = id then none else r.streams id' := by
  by_cases h : id' = id
  · subst h
    simp [Registry.remove]
  · simp [Registry.remove, h]

/-- A new channel under an id that nothing else has. -/
theorem flow_insert (hF : Flow r sources filled) {id : Id} (hfree : r.streams id = none)
    (hnew : ∀ n src, sources n = some src → src.id ≠ id) : Flow (r.insert id) sources filled := by
  have hinsert : r.insert id =
      { streams := Function.update r.streams id (some r.made)
        chans := Function.update r.chans r.made ⟨[], true⟩
        readers := Function.update r.readers r.made (some .new)
        made := r.made + 1 } := by
    simp [Registry.insert, hfree, Registry.dropSender]
  have hbound := hF.bound
  rw [hinsert]
  refine { bound := ?_, sender := ?_, unique := ?_, begins := hF.begins, bytes := ?_,
           closed := ?_, mine := ?_, live := ?_, new := ?_ }
  · intro id' n hn
    by_cases hid : id' = id
    · subst hid
      obtain rfl : r.made = n := by simpa using hn
      exact Nat.lt_succ_self _
    · exact Nat.lt_succ_of_lt (hbound id' n (by simpa [hid] using hn))
  · intro id' n hn
    by_cases hid : id' = id
    · subst hid
      obtain rfl : r.made = n := by simpa using hn
      simp
    · have hold : r.streams id' = some n := by simpa [hid] using hn
      have hne : n ≠ r.made := Nat.ne_of_lt (hbound id' n hold)
      simp only [Function.update_of_ne hne]
      exact hF.sender id' n hold
  · intro id₁ id₂ n h₁ h₂
    by_cases hid₁ : id₁ = id <;> by_cases hid₂ : id₂ = id
    · rw [hid₁, hid₂]
    · subst hid₁
      obtain rfl : r.made = n := by simpa using h₁
      exact absurd (hbound id₂ _ (by simpa [hid₂] using h₂)) (Nat.lt_irrefl _)
    · subst hid₂
      obtain rfl : r.made = n := by simpa using h₂
      exact absurd (hbound id₁ _ (by simpa [hid₁] using h₁)) (Nat.lt_irrefl _)
    · exact hF.unique id₁ id₂ n (by simpa [hid₁] using h₁) (by simpa [hid₂] using h₂)
  · intro n rx hn
    by_cases hnm : n = r.made
    · -- nothing has been delivered to it
      subst hnm
      obtain rfl : ByteRx.new = rx := by simpa using hn
      obtain ⟨-, hsource, hfilled⟩ := hF.new r.made (Nat.le_refl _)
      rw [hfilled, own_of_none hsource]
      simp [Registry.buffered, ByteRx.new, ByteRx.rest]
    · have hold := hF.bytes n rx (by simpa [hnm] using hn)
      simpa [Registry.buffered, hnm] using hold
  · intro n rx hn hs
    by_cases hnm : n = r.made
    · subst hnm
      simp at hs
    · exact hF.closed n rx (by simpa [hnm] using hn) (by simpa [hnm] using hs)
  · intro n src hn
    simp only [Function.update_of_ne (hnew n src hn)]
    exact hF.mine n src hn
  · intro n src rx hn hlive hrx
    simp only [Function.update_of_ne (hnew n src hn)]
    have hnm : n ≠ r.made := by
      rintro rfl
      simp [(hF.new r.made (Nat.le_refl _)).2.1] at hn
    exact hF.live n src rx hn hlive (by simpa [hnm] using hrx)
  · intro n hn
    have hne : n ≠ r.made := by
      rintro rfl
      exact Nat.not_succ_le_self _ hn
    simp only [Function.update_of_ne hne]
    exact hF.new n (Nat.le_of_succ_le hn)

/-- A receiver is dropped. -/
theorem flow_dropReader (hF : Flow r sources filled) (n : Nat) :
    Flow (r.dropReader n) sources filled := by
  have hold : ∀ m rx, (r.dropReader n).readers m = some rx → r.readers m = some rx := by
    intro m rx hm
    by_cases hmn : m = n
    · subst hmn
      simp [Registry.dropReader] at hm
    · simpa [Registry.dropReader, hmn] using hm
  refine { bound := hF.bound, sender := hF.sender, unique := hF.unique, begins := hF.begins,
           bytes := ?_, closed := ?_, mine := hF.mine, live := ?_, new := ?_ }
  · intro m rx hm
    exact hF.bytes m rx (hold m rx hm)
  · intro m rx hm hs
    exact hF.closed m rx (hold m rx hm) hs
  · intro m src rx hm hlive hrx
    exact hF.live m src rx hm hlive (hold m rx hrx)
  · intro m hm
    refine ⟨?_, (hF.new m hm).2⟩
    refine Option.eq_none_iff_forall_ne_some.mpr fun rx hrx => ?_
    have hnone := (hF.new m hm).1
    simp [hold m rx hrx] at hnone

/-- A poll moves bytes from the channel to the reader. -/
theorem flow_read (hF : Flow r sources filled) {n remaining : Nat} {ready : Option Chunk}
    {r' : Registry} (h : r.pollRead n remaining = some (ready, r')) :
    Flow r' sources (Function.update filled n (filled n ++ ready.getD [])) := by
  obtain ⟨rx, hrx, hpair⟩ := Option.map_eq_some_iff.mp h
  obtain ⟨rfl, rfl⟩ := Prod.mk.inj hpair
  have hpoll := @ByteRx.pollRead_bytes remaining (r.chans n).sender (r.chans n).items rx
  have hsum := hF.bytes n rx hrx
  rw [Registry.buffered, ← hpoll] at hsum
  have hmade : ∀ m, r.made ≤ m → m ≠ n := by
    rintro m hm rfl
    simp [(hF.new m hm).1] at hrx
  refine { bound := hF.bound, sender := ?_, unique := hF.unique, begins := ?_, bytes := ?_,
           closed := ?_, mine := hF.mine, live := ?_, new := ?_ }
  · intro id m hm
    by_cases hmn : m = n
    · subst hmn
      simpa using hF.sender id m hm
    · simpa [hmn] using hF.sender id m hm
  · intro m
    by_cases hmn : m = n
    · subst hmn
      rw [Function.update_self, ← hsum]
      simp only [List.append_assoc]
      exact List.prefix_append_right_inj _ |>.mpr (List.prefix_append _ _)
    · rw [Function.update_of_ne hmn]
      exact hF.begins m
  · intro m rx' hm
    by_cases hmn : m = n
    · subst hmn
      obtain rfl : (rx.pollRead remaining (r.chans m).sender (r.chans m).items).rx = rx' := by
        simpa using hm
      rw [Function.update_self, ← hsum]
      simp [Registry.buffered]
    · have hold := hF.bytes m rx' (by simpa [hmn] using hm)
      simpa [Registry.buffered, hmn] using hold
  · intro m rx' hm hs
    by_cases hmn : m = n
    · subst hmn
      exact hF.closed m rx hrx (by simpa using hs)
    · exact hF.closed m rx' (by simpa [hmn] using hm) (by simpa [hmn] using hs)
  · intro m src rx' hm hlive hrx'
    by_cases hmn : m = n
    · subst hmn
      exact hF.live m src rx hm hlive hrx
    · exact hF.live m src rx' hm hlive (by simpa [hmn] using hrx')
  · intro m hm
    simp only [Function.update_of_ne (hmade m hm)]
    exact hF.new m hm

/-- **A chunk is pushed** under the id of the stream that delivered it. -/
theorem flow_push (hF : Flow r sources filled) {n : Nat} {src : Source} (hn : sources n = some src)
    (hlive : src.live = true) (bytes : Chunk) :
    Flow (r.pushBytes src.id (some bytes))
      (Function.update sources n (some { src with own := src.own ++ [bytes] })) filled := by
  have hown : (own (Function.update sources n (some { src with own := src.own ++ [bytes] })) n) =
      own sources n ++ [bytes] := by
    rw [own_of_some (Function.update_self ..), own_of_some hn]
  have hbegins : ∀ m, filled m <+:
      (own (Function.update sources n (some { src with own := src.own ++ [bytes] })) m).flatten := by
    intro m
    by_cases hmn : m = n
    · subst hmn
      rw [hown, List.flatten_append]
      exact (hF.begins m).trans (List.prefix_append _ _)
    · rw [own_update hmn]
      exact hF.begins m
  have hsource : ∀ m src',
      Function.update sources n (some { src with own := src.own ++ [bytes] }) m = some src' →
        ∃ src₀, sources m = some src₀ ∧ src₀.id = src'.id ∧ src₀.live = src'.live := by
    intro m src' hm
    by_cases hmn : m = n
    · subst hmn
      obtain rfl : { src with own := src.own ++ [bytes] } = src' := by simpa using hm
      exact ⟨src, hn, rfl, rfl⟩
    · exact ⟨src', by simpa [hmn] using hm, rfl, rfl⟩
  have hset : ∀ m src₀, sources m = some src₀ → ∃ src',
      Function.update sources n (some { src with own := src.own ++ [bytes] }) m = some src' ∧
        src'.live = src₀.live := by
    intro m src₀ hm
    by_cases hmn : m = n
    · subst hmn
      obtain rfl := Option.some.inj (hn.symm.trans hm)
      exact ⟨{ src with own := src.own ++ [bytes] }, by simp, rfl⟩
    · exact ⟨src₀, by simpa [hmn] using hm, rfl⟩
  have hmade : ∀ m, r.made ≤ m → m ≠ n := by
    rintro m hm rfl
    simp [(hF.new m hm).2.1] at hn
  cases hrx : r.readers n with
  | none =>
      -- nobody reads: the chunk is lost, if it gets to the channel at all
      have hsame : r.pushBytes src.id (some bytes) = r := by
        rcases hF.mine n src hn with hid | hid
        · simp [Registry.pushBytes, hid]
        · simp [Registry.pushBytes, hid, Registry.send, hrx]
      rw [hsame]
      refine { bound := hF.bound, sender := hF.sender, unique := hF.unique, begins := hbegins,
               bytes := ?_, closed := ?_, mine := ?_, live := ?_, new := ?_ }
      · intro m rx hm
        have hmn : m ≠ n := by
          rintro rfl
          simp [hrx] at hm
        rw [own_update hmn]
        exact hF.bytes m rx hm
      · intro m rx hm hs
        obtain ⟨src₀, hm₀, hdead⟩ := hF.closed m rx hm hs
        obtain ⟨src', hm', he⟩ := hset m src₀ hm₀
        exact ⟨src', hm', he.trans hdead⟩
      · intro m src' hm
        obtain ⟨src₀, hm₀, hid, -⟩ := hsource m src' hm
        rw [← hid]
        exact hF.mine m src₀ hm₀
      · intro m src' rx hm hl hrx'
        obtain ⟨src₀, hm₀, hid, he⟩ := hsource m src' hm
        rw [← hid]
        exact hF.live m src₀ rx hm₀ (he.trans hl) hrx'
      · intro m hm
        rw [Function.update_of_ne (hmade m hm)]
        exact hF.new m hm
  | some rx =>
      have hid := hF.live n src rx hn hlive hrx
      have hsend : r.pushBytes src.id (some bytes) =
          { r with
            chans := Function.update r.chans n
              ⟨(r.chans n).items ++ [bytes], (r.chans n).sender⟩ } := by
        simp [Registry.pushBytes, hid, Registry.send, hrx]
      have hsender : ∀ m, (Function.update r.chans n
          ⟨(r.chans n).items ++ [bytes], (r.chans n).sender⟩ m).sender = (r.chans m).sender := by
        intro m
        by_cases hmn : m = n
        · subst hmn
          simp
        · simp [hmn]
      rw [hsend]
      refine { bound := hF.bound, sender := ?_, unique := hF.unique, begins := hbegins,
               bytes := ?_, closed := ?_, mine := ?_, live := ?_, new := ?_ }
      · intro id m hm
        exact (hsender m).trans (hF.sender id m hm)
      · intro m rx' hm
        by_cases hmn : m = n
        · subst hmn
          have hold := hF.bytes m rx' hm
          rw [hown, List.flatten_append, ← hold]
          simp [Registry.buffered]
        · rw [own_update hmn]
          have hold := hF.bytes m rx' hm
          simpa [Registry.buffered, hmn] using hold
      · intro m rx' hm hs
        obtain ⟨src₀, hm₀, hdead⟩ := hF.closed m rx' hm ((hsender m).symm.trans hs)
        obtain ⟨src', hm', he⟩ := hset m src₀ hm₀
        exact ⟨src', hm', he.trans hdead⟩
      · intro m src' hm
        obtain ⟨src₀, hm₀, hid', -⟩ := hsource m src' hm
        rw [← hid']
        exact hF.mine m src₀ hm₀
      · intro m src' rx' hm hl hrx'
        obtain ⟨src₀, hm₀, hid', he⟩ := hsource m src' hm
        rw [← hid']
        exact hF.live m src₀ rx' hm₀ (he.trans hl) hrx'
      · intro m hm
        rw [Function.update_of_ne (hmade m hm)]
        exact hF.new m hm

theorem remove_chans (r : Registry) (id : Id) (m : Nat) :
    (r.remove id).chans m =
      if r.streams id = some m then { r.chans m with sender := false } else r.chans m := by
  unfold Registry.remove Registry.dropSender
  cases hid : r.streams id with
  | none => simp
  | some n =>
      by_cases hmn : m = n
      · subst hmn
        simp
      · simp [hmn, Ne.symm hmn]

theorem remove_readers (r : Registry) (id : Id) : (r.remove id).readers = r.readers := by
  unfold Registry.remove Registry.dropSender
  split <;> rfl

/-- **The sender under an id is removed**, and that is the end of the stream, or nobody
reads it. -/
theorem flow_remove (hF : Flow r sources filled) {n : Nat} {src : Source} {live : Bool}
    (hn : sources n = some src) (hend : live = false ∨ r.readers n = none ∧ live = src.live) :
    Flow (r.remove src.id) (Function.update sources n (some { src with live := live })) filled := by
  have hown : ∀ m, own (Function.update sources n (some { src with live := live })) m =
      own sources m := by
    intro m
    by_cases hmn : m = n
    · subst hmn
      rw [own_of_some (Function.update_self ..), own_of_some hn]
    · exact own_update hmn
  have hmade : ∀ m, r.made ≤ m → m ≠ n := by
    rintro m hm rfl
    simp [(hF.new m hm).2.1] at hn
  have hstreams : ∀ id m, (r.remove src.id).streams id = some m →
      id ≠ src.id ∧ r.streams id = some m := by
    intro id m hm
    rw [remove_streams_eq] at hm
    split at hm
    · cases hm
    · next hid => exact ⟨hid, hm⟩
  -- the entry, if there is one, is of this channel
  have hother : ∀ m, m ≠ n → r.streams src.id ≠ some m := by
    intro m hmn hm
    rcases hF.mine n src hn with hid | hid
    · simp [hid] at hm
    · exact hmn (Option.some.inj (hm.symm.trans hid))
  have hchans : ∀ m, m ≠ n → (r.remove src.id).chans m = r.chans m := by
    intro m hmn
    rw [remove_chans, if_neg (hother m hmn)]
  have hitems : ∀ m, ((r.remove src.id).chans m).items = (r.chans m).items := by
    intro m
    rw [remove_chans]
    split <;> rfl
  refine { bound := ?_, sender := ?_, unique := ?_, begins := ?_, bytes := ?_, closed := ?_,
           mine := ?_, live := ?_, new := ?_ }
  · intro id m hm
    rw [Registry.remove_made]
    exact hF.bound id m (hstreams id m hm).2
  · intro id m hm
    obtain ⟨hid, hold⟩ := hstreams id m hm
    rw [remove_chans, if_neg fun he => hid (hF.unique id src.id m hold he)]
    exact hF.sender id m hold
  · intro id id' m hm hm'
    exact hF.unique id id' m (hstreams id m hm).2 (hstreams id' m hm').2
  · intro m
    rw [hown]
    exact hF.begins m
  · intro m rx hm
    rw [remove_readers] at hm
    rw [hown, Registry.buffered, hitems]
    exact hF.bytes m rx hm
  · intro m rx hm hs
    rw [remove_readers] at hm
    by_cases hmn : m = n
    · subst hmn
      rcases hend with rfl | ⟨hnone, -⟩
      · exact ⟨_, Function.update_self .., rfl⟩
      · simp [hnone] at hm
    · rw [hchans m hmn] at hs
      obtain ⟨src', hm', hdead⟩ := hF.closed m rx hm hs
      exact ⟨src', by simpa [hmn] using hm', hdead⟩
  · intro m src' hm
    rw [remove_streams_eq]
    by_cases hid : src'.id = src.id
    · exact .inl (if_pos hid)
    · rw [if_neg hid]
      have hmn : m ≠ n := by
        rintro rfl
        obtain rfl : { src with live := live } = src' := by simpa using hm
        exact hid rfl
      exact hF.mine m src' (by simpa [hmn] using hm)
  · intro m src' rx hm hl hrx
    rw [remove_readers] at hrx
    have hmn : m ≠ n := by
      rintro rfl
      obtain rfl : { src with live := live } = src' := by simpa using hm
      rcases hend with rfl | ⟨hnone, -⟩
      · simp at hl
      · simp [hnone] at hrx
    have hold := hF.live m src' rx (by simpa [hmn] using hm) hl hrx
    rw [remove_streams_eq, if_neg]
    · exact hold
    · intro hid
      rw [hid] at hold
      exact hother m hmn hold
  · intro m hm
    rw [Registry.remove_made] at hm
    rw [remove_readers, Function.update_of_ne (hmade m hm)]
    exact hF.new m hm

/-- A stream begins. -/
theorem flow_open (hF : Flow r sources filled) {n : Nat} (id : Id) (hn : sources n = none)
    (hid : r.streams id = some n) :
    Flow r (Function.update sources n (some ⟨id, [], true⟩)) filled := by
  have hown : ∀ m, own (Function.update sources n (some ⟨id, [], true⟩)) m = own sources m := by
    intro m
    by_cases hmn : m = n
    · subst hmn
      rw [own_of_some (Function.update_self ..), own_of_none hn]
    · exact own_update hmn
  refine { bound := hF.bound, sender := hF.sender, unique := hF.unique, begins := ?_, bytes := ?_,
           closed := ?_, mine := ?_, live := ?_, new := ?_ }
  · intro m
    rw [hown]
    exact hF.begins m
  · intro m rx hm
    rw [hown]
    exact hF.bytes m rx hm
  · intro m rx hm hs
    have hmn : m ≠ n := by
      rintro rfl
      simp [hF.sender id m hid] at hs
    obtain ⟨src, hsrc, hdead⟩ := hF.closed m rx hm hs
    exact ⟨src, by simpa [hmn] using hsrc, hdead⟩
  · intro m src hm
    by_cases hmn : m = n
    · subst hmn
      obtain rfl : ⟨id, [], true⟩ = src := by simpa using hm
      exact .inr hid
    · exact hF.mine m src (by simpa [hmn] using hm)
  · intro m src rx hm hl hrx
    by_cases hmn : m = n
    · subst hmn
      obtain rfl : ⟨id, [], true⟩ = src := by simpa using hm
      exact hid
    · exact hF.live m src rx (by simpa [hmn] using hm) hl hrx
  · intro m hm
    have hmn : m ≠ n := by
      rintro rfl
      exact Nat.lt_irrefl _ (Nat.lt_of_lt_of_le (hF.bound id m hid) hm)
    rw [Function.update_of_ne hmn]
    exact hF.new m hm

end Flow

/-! ### Who pushes where -/

/-- Two children have different streams. -/
def Apart (c c' : Call) : Prop :=
  ∀ n req m req', c = .spawn n req → c' = .spawn m req' → n + 2 ≤ m

/-- An id has been handed out, by the guest or by the host. -/
def Taken (h : Host) (allocated : Nat) (id : Id) : Prop :=
  1 ≤ id.toNat ∧ id.toNat ≤ allocated ∨ h.nextConnId < id.toNat

/-- The stream of a session that has not ended. -/
def Streams (sources : Nat → Option Source) (n : Nat) (id : Id) : Prop :=
  ∃ src, sources n = some src ∧ src.id = id ∧ src.live = true

/-- Every stream that is pushed to is under its own id, and no id is in use twice. -/
structure Flows (g : Guest) (σ : Lanes Call) (h : Host) (r : Registry)
    (sources : Nat → Option Source) (filled : Nat → Chunk) (allocated : Nat) : Prop where
  flow : Flow r sources filled
  next : g.nextId = .ofNat 32 (allocated + 1)
  high : h.nextConnId ≤ 0xffffffff
  streams : ∀ id n, r.streams id = some n → Taken h allocated id
  source : ∀ n src, sources n = some src → Taken h allocated src.id
  apart : σ.issued.Pairwise Apart
  waits : σ.waiting.Sublist σ.issued
  pair : ∀ n req, .spawn n req ∈ σ.issued → n + 2 ≤ r.made
  request : ∀ n req, .spawn n req ∈ σ.waiting → sources n = none ∧ sources (n + 1) = none ∧
    r.streams req.stdoutId = some n ∧ r.streams req.stderrId = some (n + 1)
  spawned : ∀ n session, h.sessions n = some session → ∃ req, .spawn n req ∈ σ.issued
  session : ∀ n session, h.sessions n = some session → session.exited = false →
    Streams sources n session.req.stdoutId ∧ Streams sources (n + 1) session.req.stderrId
  alone : ∀ n sk, h.sockets n = some sk → ∀ m req, .spawn m req ∈ σ.issued → n ≠ m ∧ n ≠ m + 1
  socket : ∀ n sk, h.sockets n = some sk →
    ∃ src, sources n = some src ∧ src.id = .ofInt 32 sk.connId
  stream : ∀ n stream, g.conns n = some stream →
    ∃ src, sources n = some src ∧ src.id = stream.connId
  backlog : ∀ l id n, (id, n) ∈ g.backlog l → ∃ src, sources n = some src ∧ src.id = id

section Flows

variable {g : Guest} {σ : Lanes Call} {h : Host} {r : Registry}
variable {sources : Nat → Option Source} {filled : Nat → Chunk} {allocated : Nat}

/-- The children of two different spawns. -/
theorem Flows.apart_of (hS : Flows g σ h r sources filled allocated) {n m : Nat}
    {req req' : SpawnReq} (hn : .spawn n req ∈ σ.issued) (hm : .spawn m req' ∈ σ.issued)
    (hne : n ≠ m) : n + 2 ≤ m ∨ m + 2 ≤ n := by
  have hsymm : σ.issued.Pairwise fun c c' => Apart c c' ∨ Apart c' c :=
    hS.apart.imp fun hc => .inl hc
  have : Std.Symm fun c c' => Apart c c' ∨ Apart c' c := ⟨fun _ _ hc => hc.symm⟩
  have hdiff : Call.spawn n req ≠ .spawn m req' := fun he => hne (Call.spawn.inj he).1
  rcases hsymm.forall hn hm hdiff with hlt | hlt
  · exact .inl (hlt n req m req' rfl rfl)
  · exact .inr (hlt m req' n req rfl rfl)

/-- The guest's other tables do not matter; handles may go. -/
theorem flows_guest (hS : Flows g σ h r sources filled allocated) {g' : Guest}
    (hnext : g'.nextId = g.nextId)
    (hstream : ∀ n stream, g'.conns n = some stream →
      ∃ src, sources n = some src ∧ src.id = stream.connId)
    (hbacklog : ∀ l id n, (id, n) ∈ g'.backlog l → ∃ src, sources n = some src ∧ src.id = id) :
    Flows g' σ h r sources filled allocated := by
  refine { hS with next := ?_, stream := hstream, backlog := hbacklog }
  rw [hnext]
  exact hS.next

/-- The host's other tables do not matter; sessions may end. -/
theorem flows_host (hS : Flows g σ h r sources filled allocated) {h' : Host}
    (hnext : h'.nextConnId = h.nextConnId)
    (hsockets : ∀ n sk, h'.sockets n = some sk →
      ∃ sk', h.sockets n = some sk' ∧ sk'.connId = sk.connId)
    (hspawned : ∀ n session, h'.sessions n = some session → ∃ req, .spawn n req ∈ σ.issued)
    (hsession : ∀ n session, h'.sessions n = some session → session.exited = false →
      Streams sources n session.req.stdoutId ∧ Streams sources (n + 1) session.req.stderrId) :
    Flows g σ h' r sources filled allocated := by
  have htaken : ∀ id, Taken h allocated id → Taken h' allocated id := by
    intro id hid
    rw [Taken, hnext]
    exact hid
  refine { hS with high := ?_, streams := ?_, source := ?_, spawned := hspawned,
                   session := hsession, alone := ?_, socket := ?_ }
  · rw [hnext]
    exact hS.high
  · intro id n hn
    exact htaken id (hS.streams id n hn)
  · intro n src hn
    exact htaken src.id (hS.source n src hn)
  · intro n sk hn
    obtain ⟨sk', hn', -⟩ := hsockets n sk hn
    exact hS.alone n sk' hn'
  · intro n sk hn
    obtain ⟨sk', hn', hid⟩ := hsockets n sk hn
    rw [← hid]
    exact hS.socket n sk' hn'

/-- A call that spawns nothing is issued. -/
theorem flows_issue (hS : Flows g σ h r sources filled allocated) {c : Call}
    (hc : ∀ n req, c ≠ .spawn n req) :
    Flows g (σ.issue c) h r sources filled allocated := by
  have hmem : ∀ {cs : List Call} {n req}, .spawn n req ∈ cs ++ [c] → .spawn n req ∈ cs := by
    intro cs n req hn
    rcases List.mem_append.mp hn with hold | hnew
    · exact hold
    · exact absurd (List.mem_singleton.mp hnew).symm (hc n req)
  refine { hS with apart := ?_, waits := ?_, pair := ?_, request := ?_, spawned := ?_,
                   alone := ?_ }
  · refine List.pairwise_append.mpr ⟨hS.apart, List.pairwise_singleton _ _, ?_⟩
    intro c₁ _ c₂ hc₂ n req m req' _ he
    exact absurd ((List.mem_singleton.mp hc₂).symm.trans he) (hc m req')
  · exact hS.waits.append (List.Sublist.refl _)
  · intro n req hn
    exact hS.pair n req (hmem hn)
  · intro n req hn
    exact hS.request n req (hmem hn)
  · intro n session hn
    obtain ⟨req, hreq⟩ := hS.spawned n session hn
    exact ⟨req, List.mem_append_left _ hreq⟩
  · intro n sk hn m req hm
    exact hS.alone n sk hn m req (hmem hm)

/-- A call is taken from its queue. -/
theorem flows_take (hS : Flows g σ h r sources filled allocated) {σ' : Lanes Call}
    (hissued : σ'.issued = σ.issued) (hwaiting : σ'.waiting.Sublist σ.waiting) :
    Flows g σ' h r sources filled allocated := by
  refine { hS with apart := ?_, waits := ?_, pair := ?_, request := ?_, spawned := ?_,
                   alone := ?_ }
  · rw [hissued]
    exact hS.apart
  · rw [hissued]
    exact hwaiting.trans hS.waits
  · rw [hissued]
    exact hS.pair
  · intro n req hn
    exact hS.request n req (hwaiting.subset hn)
  · rw [hissued]
    exact hS.spawned
  · rw [hissued]
    exact hS.alone

/-- What happens to the readers only. -/
theorem flows_readers (hS : Flows g σ h r sources filled allocated) {r' : Registry}
    {filled' : Nat → Chunk} (hF : Flow r' sources filled') (hstreams : r'.streams = r.streams)
    (hmade : r'.made = r.made) : Flows g σ h r' sources filled' allocated := by
  refine { hS with flow := hF, streams := ?_, pair := ?_, request := ?_ }
  · rw [hstreams]
    exact hS.streams
  · rw [hmade]
    exact hS.pair
  · rw [hstreams]
    exact hS.request

/-- A source changes, but not its id, and senders may go. -/
theorem flows_source (hS : Flows g σ h r sources filled allocated) {r' : Registry} {n : Nat}
    {src src' : Source} (hn : sources n = some src) (hid : src'.id = src.id)
    (hF : Flow r' (Function.update sources n (some src')) filled) (hmade : r'.made = r.made)
    (hstreams : ∀ id m, r'.streams id = some m → r.streams id = some m)
    (hkeep : ∀ id m, m ≠ n → r.streams id = some m → r'.streams id = some m)
    (hlive : src'.live = src.live ∨ ∀ m session, h.sessions m = some session →
      session.exited = false → n ≠ m ∧ n ≠ m + 1) :
    Flows g σ h r' (Function.update sources n (some src')) filled allocated := by
  have hset : ∀ m src₀, sources m = some src₀ → ∃ src₁,
      Function.update sources n (some src') m = some src₁ ∧ src₁.id = src₀.id ∧
        (src₁.live = src₀.live ∨ m = n) := by
    intro m src₀ hm
    by_cases hmn : m = n
    · subst hmn
      obtain rfl := Option.some.inj (hn.symm.trans hm)
      exact ⟨src', by simp, hid, .inr rfl⟩
    · exact ⟨src₀, by simpa [hmn] using hm, rfl, .inl rfl⟩
  have hstays : ∀ m id, (∃ src₀, sources m = some src₀ ∧ src₀.id = id) →
      ∃ src₁, Function.update sources n (some src') m = some src₁ ∧ src₁.id = id := by
    rintro m id ⟨src₀, hm, rfl⟩
    obtain ⟨src₁, hm₁, hid₁, -⟩ := hset m src₀ hm
    exact ⟨src₁, hm₁, hid₁⟩
  have hstream : ∀ m id, (src'.live = src.live ∨ n ≠ m) → Streams sources m id →
      Streams (Function.update sources n (some src')) m id := by
    rintro m id hor ⟨src₀, hm, rfl, hl⟩
    by_cases hmn : m = n
    · subst hmn
      obtain rfl := Option.some.inj (hn.symm.trans hm)
      rcases hor with he | hne
      · exact ⟨src', by simp, hid, he.trans hl⟩
      · exact absurd rfl hne
    · exact ⟨src₀, by simpa [hmn] using hm, rfl, hl⟩
  refine { hS with flow := hF, streams := ?_, source := ?_, pair := ?_, request := ?_,
                   session := ?_, socket := ?_, stream := ?_, backlog := ?_ }
  · intro id m hm
    exact hS.streams id m (hstreams id m hm)
  · intro m src₁ hm
    by_cases hmn : m = n
    · subst hmn
      obtain rfl : src' = src₁ := by simpa using hm
      rw [hid]
      exact hS.source m src hn
    · exact hS.source m src₁ (by simpa [hmn] using hm)
  · intro m req hm
    rw [hmade]
    exact hS.pair m req hm
  · intro m req hm
    obtain ⟨hout, herr, hstdout, hstderr⟩ := hS.request m req hm
    have hmn : m ≠ n := by
      rintro rfl
      simp [hout] at hn
    have hmn' : m + 1 ≠ n := by
      rintro rfl
      simp [herr] at hn
    exact ⟨by simpa [hmn] using hout, by simpa [hmn'] using herr, hkeep _ _ hmn hstdout,
      hkeep _ _ hmn' hstderr⟩
  · intro m session hm hx
    obtain ⟨hout, herr⟩ := hS.session m session hm hx
    rcases hlive with he | hother
    · exact ⟨hstream m _ (.inl he) hout, hstream (m + 1) _ (.inl he) herr⟩
    · obtain ⟨hne, hne'⟩ := hother m session hm hx
      exact ⟨hstream m _ (.inr hne) hout, hstream (m + 1) _ (.inr hne') herr⟩
  · intro m sk hm
    exact hstays m _ (hS.socket m sk hm)
  · intro m stream hm
    exact hstays m _ (hS.stream m stream hm)
  · intro l id m hm
    exact hstays m _ (hS.backlog l id m hm)

theorem pushBytes_streams (r : Registry) (id : Id) (bytes : Chunk) :
    (r.pushBytes id (some bytes)).streams = r.streams := by
  simp only [Registry.pushBytes]
  split
  · unfold Registry.send
    split <;> rfl
  · rfl

/-- **A living stream delivers a chunk.** -/
theorem flows_push (hS : Flows g σ h r sources filled allocated) {n : Nat} {src : Source}
    (hn : sources n = some src) (hlive : src.live = true) (bytes : Chunk) :
    Flows g σ h (r.pushBytes src.id (some bytes))
      (Function.update sources n (some { src with own := src.own ++ [bytes] })) filled
      allocated := by
  refine flows_source hS hn rfl (flow_push hS.flow hn hlive bytes) (r.pushBytes_made _ _) ?_ ?_
    (.inl rfl)
  · intro id m hm
    rwa [pushBytes_streams] at hm
  · intro id m _ hm
    rwa [pushBytes_streams]

/-- **The sender of a stream is removed.** -/
theorem flows_remove (hS : Flows g σ h r sources filled allocated) {n : Nat} {src : Source}
    (live : Bool) (hn : sources n = some src)
    (hend : live = false ∨ r.readers n = none ∧ live = src.live)
    (hlive : live = src.live ∨ ∀ m session, h.sessions m = some session →
      session.exited = false → n ≠ m ∧ n ≠ m + 1) :
    Flows g σ h (r.remove src.id) (Function.update sources n (some { src with live := live }))
      filled allocated := by
  refine flows_source hS hn rfl (flow_remove hS.flow hn hend) (r.remove_made _) ?_ ?_ hlive
  · intro id m hm
    rw [remove_streams_eq] at hm
    split at hm
    · cases hm
    · exact hm
  · intro id m hmn hm
    rw [remove_streams_eq, if_neg]
    · exact hm
    · rintro rfl
      rcases hS.flow.mine n src hn with hid | hid
      · simp [hid] at hm
      · exact hmn (Option.some.inj (hm.symm.trans hid))

/-- The same of a stream that nobody reads any more. -/
theorem flows_forget (hS : Flows g σ h r sources filled allocated) {n : Nat} {src : Source}
    (hn : sources n = some src) (hnone : r.readers n = none) :
    Flows g σ h (r.remove src.id) sources filled allocated := by
  have hremove := flows_remove hS src.live hn (.inr ⟨hnone, rfl⟩) (.inl rfl)
  have hsame : Function.update sources n (some { src with live := src.live }) = sources := by
    rw [← hn, Function.update_eq_self]
  rwa [hsame] at hremove

/-- A receiver is dropped. -/
theorem flows_dropReader (hS : Flows g σ h r sources filled allocated) (n : Nat) :
    Flows g σ h (r.dropReader n) sources filled allocated :=
  flows_readers hS (flow_dropReader hS.flow n) rfl rfl

theorem flows_dropReaders (ns : List Nat) : ∀ {r : Registry},
    Flows g σ h r sources filled allocated →
      Flows g σ h (r.dropReaders ns) sources filled allocated := by
  induction ns with
  | nil => exact fun hS => hS
  | cons n ns ih => exact fun hS => ih (flows_dropReader hS n)

/-- A stream begins. -/
theorem flows_open (hS : Flows g σ h r sources filled allocated) {n : Nat} {id : Id}
    (hn : sources n = none) (hid : r.streams id = some n)
    (hwait : ∀ m req, .spawn m req ∈ σ.waiting → m ≠ n ∧ m + 1 ≠ n) :
    Flows g σ h r (Function.update sources n (some ⟨id, [], true⟩)) filled allocated := by
  have hkeep : ∀ m src, sources m = some src →
      Function.update sources n (some ⟨id, [], true⟩) m = some src := by
    intro m src hm
    have hmn : m ≠ n := by
      rintro rfl
      simp [hn] at hm
    rw [Function.update_of_ne hmn]
    exact hm
  have hstays : ∀ m id', (∃ src, sources m = some src ∧ src.id = id') →
      ∃ src, Function.update sources n (some ⟨id, [], true⟩) m = some src ∧ src.id = id' := by
    rintro m id' ⟨src, hm, he⟩
    exact ⟨src, hkeep m src hm, he⟩
  refine { hS with flow := flow_open hS.flow id hn hid, source := ?_, request := ?_, session := ?_,
                   socket := ?_, stream := ?_, backlog := ?_ }
  · intro m src hm
    by_cases hmn : m = n
    · subst hmn
      obtain rfl : ⟨id, [], true⟩ = src := by simpa using hm
      exact hS.streams id m hid
    · exact hS.source m src (by simpa [hmn] using hm)
  · intro m req hm
    obtain ⟨hne, hne'⟩ := hwait m req hm
    rw [Function.update_of_ne hne, Function.update_of_ne hne']
    exact hS.request m req hm
  · intro m session hm hx
    obtain ⟨⟨src, hsrc, hout⟩, ⟨src', hsrc', herr⟩⟩ := hS.session m session hm hx
    exact ⟨⟨src, hkeep m src hsrc, hout⟩, ⟨src', hkeep (m + 1) src' hsrc', herr⟩⟩
  · intro m sk hm
    exact hstays m _ (hS.socket m sk hm)
  · intro m stream hm
    exact hstays m _ (hS.stream m stream hm)
  · intro l id' m hm
    exact hstays m _ (hS.backlog l id' m hm)

theorem insert_streams_eq (r : Registry) {id id' : Id} :
    (r.insert id).streams id' = if id' = id then some r.made else r.streams id' := by
  have hdrop : (r.dropSender (r.streams id)).streams = r.streams ∧
      (r.dropSender (r.streams id)).made = r.made := by
    unfold Registry.dropSender
    split <;> exact ⟨rfl, rfl⟩
  by_cases h : id' = id
  · subst h
    simp [Registry.insert, hdrop.2]
  · simp [Registry.insert, h, hdrop.1]

/-- A free id is in no table. -/
theorem Flows.free (hS : Flows g σ h r sources filled allocated) (id : Id)
    (hid : ¬Taken h allocated id) :
    r.streams id = none ∧ ∀ n src, sources n = some src → src.id ≠ id := by
  constructor
  · refine Option.eq_none_iff_forall_ne_some.mpr fun n hn => ?_
    exact hid (hS.streams id n hn)
  · rintro n src hn rfl
    exact hid (hS.source n src hn)

theorem Taken.mono {h' : Host} {allocated' : Nat} {id : Id} (hT : Taken h allocated id)
    (hnext : h'.nextConnId ≤ h.nextConnId) (hle : allocated ≤ allocated') :
    Taken h' allocated' id := by
  rcases hT with ⟨h₁, h₂⟩ | h₃
  · exact .inl ⟨h₁, h₂.trans hle⟩
  · exact .inr (lt_of_le_of_lt hnext h₃)

/-- The counter's next ids, short of its end. -/
theorem toNat_add {a k : Nat} (h : a + k < 2 ^ 32) :
    (BitVec.ofNat 32 a + BitVec.ofNat 32 k).toNat = a + k := by
  rw [← BitVec.ofNat_add, BitVec.toNat_ofNat, Nat.mod_eq_of_lt h]

/-- **A child gets its two streams.** -/
theorem flows_spawn (hS : Flows g σ h r sources filled allocated) {g' : Guest} (req : SpawnReq)
    (hroom : (allocated : Int) + 3 ≤ h.nextConnId) (hout : req.stdoutId = g.nextId + 1)
    (herr : req.stderrId = g.nextId + 2) (hnext : g'.nextId = g.nextId + 3)
    (hconns : g'.conns = g.conns) (hbacklog : g'.backlog = g.backlog) :
    Flows g' (σ.issue (.spawn r.made req)) h
      ((r.insert req.stdoutId).insert req.stderrId) sources filled (allocated + 3) := by
  have hhigh := hS.high
  have houtNat : req.stdoutId.toNat = allocated + 2 := by
    have hlt : allocated + 1 + 1 < 2 ^ 32 := by omega
    rw [hout, hS.next]
    exact toNat_add hlt
  have herrNat : req.stderrId.toNat = allocated + 3 := by
    have hlt : allocated + 1 + 2 < 2 ^ 32 := by omega
    rw [herr, hS.next]
    exact toNat_add hlt
  have hne : req.stderrId ≠ req.stdoutId := by
    intro he
    rw [he] at herrNat
    omega
  obtain ⟨houtFree, houtNew⟩ := hS.free req.stdoutId (by rw [Taken, houtNat]; omega)
  obtain ⟨herrFree, herrNew⟩ := hS.free req.stderrId (by rw [Taken, herrNat]; omega)
  have hfirst := flow_insert hS.flow houtFree houtNew
  have herrFree' : (r.insert req.stdoutId).streams req.stderrId = none := by
    rw [insert_streams_eq, if_neg hne]
    exact herrFree
  have hflow := flow_insert hfirst herrFree' herrNew
  have hmade : ((r.insert req.stdoutId).insert req.stderrId).made = r.made + 2 := by
    rw [Registry.insert_made, Registry.insert_made]
  have hstreams : ∀ id, ((r.insert req.stdoutId).insert req.stderrId).streams id =
      if id = req.stderrId then some (r.made + 1)
      else if id = req.stdoutId then some r.made else r.streams id := by
    intro id
    rw [insert_streams_eq, insert_streams_eq, Registry.insert_made]
  have hmono : ∀ id, Taken h allocated id → Taken h (allocated + 3) id :=
    fun id hid => hid.mono (Int.le_refl _) (by omega)
  have hnone := (hS.flow.new r.made (Nat.le_refl _)).2.1
  have hnone' := (hS.flow.new (r.made + 1) (Nat.le_succ _)).2.1
  refine { hS with flow := hflow, next := ?_, streams := ?_, source := ?_, apart := ?_, waits := ?_,
                   pair := ?_, request := ?_, spawned := ?_, alone := ?_, stream := ?_,
                   backlog := ?_ }
  · rw [hnext, hS.next]
    exact (BitVec.ofNat_add (allocated + 1) 3).symm
  · intro id n hn
    rw [hstreams] at hn
    split at hn
    · next he => exact .inl (by rw [he, herrNat]; omega)
    · split at hn
      · next he => exact .inl (by rw [he, houtNat]; omega)
      · exact hmono id (hS.streams id n hn)
  · intro n src hn
    exact hmono src.id (hS.source n src hn)
  · refine List.pairwise_append.mpr ⟨hS.apart, List.pairwise_singleton _ _, ?_⟩
    intro c₁ hc₁ c₂ hc₂ n req₁ m req₂ he₁ he₂
    obtain ⟨rfl, -⟩ := Call.spawn.inj ((List.mem_singleton.mp hc₂).symm.trans he₂)
    exact hS.pair n req₁ (he₁ ▸ hc₁)
  · exact hS.waits.append (List.Sublist.refl _)
  · intro n req' hn
    rw [hmade]
    rcases List.mem_append.mp hn with hold | hnew
    · exact Nat.le_add_right_of_le (hS.pair n req' hold)
    · obtain ⟨rfl, -⟩ := Call.spawn.inj (List.mem_singleton.mp hnew)
      exact Nat.le_refl _
  · intro n req' hn
    rw [hstreams, hstreams]
    rcases List.mem_append.mp hn with hold | hnew
    · obtain ⟨h₁, h₂, h₃, h₄⟩ := hS.request n req' hold
      have hneq : ∀ {id id' k}, r.streams id = none → r.streams id' = some k → id' ≠ id := by
        rintro id _ k hid hid' rfl
        simp [hid] at hid'
      rw [if_neg (hneq herrFree h₃), if_neg (hneq houtFree h₃), if_neg (hneq herrFree h₄),
        if_neg (hneq houtFree h₄)]
      exact ⟨h₁, h₂, h₃, h₄⟩
    · obtain ⟨rfl, rfl⟩ := Call.spawn.inj (List.mem_singleton.mp hnew)
      rw [if_neg hne.symm, if_pos rfl, if_pos rfl]
      exact ⟨hnone, hnone', rfl, rfl⟩
  · intro n session hn
    obtain ⟨req', hreq⟩ := hS.spawned n session hn
    exact ⟨req', List.mem_append_left _ hreq⟩
  · intro n sk hn m req' hm
    rcases List.mem_append.mp hm with hold | hnew
    · exact hS.alone n sk hn m req' hold
    · obtain ⟨rfl, -⟩ := Call.spawn.inj (List.mem_singleton.mp hnew)
      obtain ⟨src, hsrc, -⟩ := hS.socket n sk hn
      constructor
      · rintro rfl
        simp [hnone] at hsrc
      · rintro rfl
        simp [hnone'] at hsrc
  · rw [hconns]
    exact hS.stream
  · rw [hbacklog]
    exact hS.backlog

/-- **A connection gets its stream.** -/
theorem flows_connect (hS : Flows g σ h r sources filled allocated)
    (hroom : (allocated : Int) < h.nextConnId) :
    Flows g σ (h.connect r.made) (r.insert (.ofInt 32 h.nextConnId))
      (Function.update sources r.made (some ⟨.ofInt 32 h.nextConnId, [], true⟩)) filled
      allocated := by
  have hnat := toNat_ofInt (Int.le_trans (Int.natCast_nonneg _) (Int.le_of_lt hroom)) hS.high
  have hhigh := hS.high
  obtain ⟨hfree, hnew⟩ := hS.free (.ofInt 32 h.nextConnId) (by rw [Taken]; omega)
  have hnone := (hS.flow.new r.made (Nat.le_refl _)).2.1
  have hinsert := flow_insert hS.flow hfree hnew
  have hstreams : ∀ id, (r.insert (.ofInt 32 h.nextConnId)).streams id =
      if id = .ofInt 32 h.nextConnId then some r.made else r.streams id :=
    fun id => insert_streams_eq r
  have hflow := flow_open hinsert (.ofInt 32 h.nextConnId) hnone (by rw [hstreams, if_pos rfl])
  have hmono : ∀ id, Taken h allocated id → Taken (h.connect r.made) allocated id :=
    fun id hid => hid.mono (Int.sub_le_self _ (by decide)) (Nat.le_refl _)
  have hmine : Taken (h.connect r.made) allocated (.ofInt 32 h.nextConnId) := by
    refine .inr ?_
    show h.nextConnId - 1 < _
    omega
  have hkeep : ∀ m src, sources m = some src → m ≠ r.made ∧
      Function.update sources r.made (some ⟨.ofInt 32 h.nextConnId, [], true⟩) m = some src := by
    intro m src hm
    have hmn : m ≠ r.made := by
      rintro rfl
      simp [hnone] at hm
    exact ⟨hmn, by rw [Function.update_of_ne hmn]; exact hm⟩
  have hstays : ∀ m id', (∃ src, sources m = some src ∧ src.id = id') →
      ∃ src, Function.update sources r.made (some ⟨.ofInt 32 h.nextConnId, [], true⟩) m =
        some src ∧ src.id = id' := by
    rintro m id' ⟨src, hm, he⟩
    exact ⟨src, (hkeep m src hm).2, he⟩
  refine { hS with flow := hflow, high := ?_, streams := ?_, source := ?_, pair := ?_,
                   request := ?_, session := ?_, alone := ?_, socket := ?_, stream := ?_,
                   backlog := ?_ }
  · show h.nextConnId - 1 ≤ 0xffffffff
    omega
  · intro id n hn
    rw [hstreams] at hn
    split at hn
    · next he => exact he ▸ hmine
    · exact hmono id (hS.streams id n hn)
  · intro n src hn
    by_cases hnm : n = r.made
    · subst hnm
      obtain rfl : ⟨.ofInt 32 h.nextConnId, [], true⟩ = src := by simpa using hn
      exact hmine
    · exact hmono src.id (hS.source n src (by simpa [hnm] using hn))
  · intro n req hn
    rw [Registry.insert_made]
    exact Nat.le_succ_of_le (hS.pair n req hn)
  · intro n req hn
    obtain ⟨h₁, h₂, h₃, h₄⟩ := hS.request n req hn
    have hle := hS.pair n req (hS.waits.subset hn)
    have hneq : ∀ {id k}, r.streams id = some k → id ≠ .ofInt 32 h.nextConnId := by
      rintro _ k hid rfl
      simp [hfree] at hid
    rw [Function.update_of_ne (by omega), Function.update_of_ne (by omega), hstreams, hstreams,
      if_neg (hneq h₃), if_neg (hneq h₄)]
    exact ⟨h₁, h₂, h₃, h₄⟩
  · intro n session hn hx
    obtain ⟨⟨src, hsrc, hout⟩, ⟨src', hsrc', herr⟩⟩ := hS.session n session hn hx
    exact ⟨⟨src, (hkeep n src hsrc).2, hout⟩, ⟨src', (hkeep (n + 1) src' hsrc').2, herr⟩⟩
  · intro n sk hn m req hm
    rcases Host.connect_sockets.mp hn with ⟨rfl, rfl⟩ | ⟨-, hold⟩
    · have hle := hS.pair m req hm
      omega
    · exact hS.alone n sk hold m req hm
  · intro n sk hn
    rcases Host.connect_sockets.mp hn with ⟨rfl, rfl⟩ | ⟨-, hold⟩
    · exact ⟨_, Function.update_self .., rfl⟩
    · exact hstays n _ (hS.socket n sk hold)
  · intro n stream hn
    exact hstays n _ (hS.stream n stream hn)
  · intro l id n hn
    exact hstays n _ (hS.backlog l id n hn)

end Flows

/-! ### The steps -/

def State.Flows (s : State) : Prop :=
  HostPool.Flows s.guest s.calls s.host s.tables.reg s.sources s.filled s.allocated

section Step

variable {N : Napi} {s s' : State}

/-- A change of the host's own map and of the exit states moves no bytes. -/
theorem apply_reg (T : Tables) {e : Effect} (he : ∀ id data, e ≠ .push id data) :
    (T.apply e).reg = T.reg := by
  cases e with
  | push id data => exact absurd rfl (he id data)
  | setChild id n => rfl
  | deleteChild id => rfl
  | procExit id code =>
      unfold Tables.apply
      dsimp only
      split <;> rfl

/-- `exit` removes the two senders. -/
theorem exit_reg (T : Tables) {session : Session} (hx : session.exited = false)
    (code : BitVec 32) : (T.applyAll (session.exit code).2).reg =
      (T.reg.remove session.req.stdoutId).remove session.req.stderrId := by
  have heffects : (session.exit code).2 =
      [.push session.req.stdoutId none, .push session.req.stderrId none,
        .deleteChild session.req.procId, .procExit session.req.procId code] := by
    simp [Session.exit, hx]
  rw [heffects]
  simp only [Tables.applyAll, List.foldl_cons, List.foldl_nil]
  rw [apply_reg _ (by simp), apply_reg _ (by simp)]
  rfl

theorem flows_startKill (hS : s.Flows) {n : Nat} (h : s.startKill n = some s') : s'.Flows := by
  obtain ⟨child, hn, rfl⟩ := Option.map_eq_some_iff.mp h
  dsimp only
  split
  · exact hS
  · exact flows_guest (flows_issue hS (by simp)) rfl hS.stream hS.backlog

theorem flows_dropChild (hS : s.Flows) {n : Nat} (h : s.dropChild n = some s') : s'.Flows := by
  obtain ⟨child, hn, rfl⟩ := Option.map_eq_some_iff.mp h
  dsimp only
  split
  · exact flows_guest (flows_issue hS (by simp)) rfl hS.stream hS.backlog
  · exact flows_guest hS rfl hS.stream hS.backlog

theorem flows_bind (hS : s.Flows) : s.bind.Flows := by
  have hissue := flows_issue hS (c := .listen s.guest.nextId) (by simp)
  have hmono : ∀ id, Taken s.host s.allocated id → Taken s.host (s.allocated + 1) id :=
    fun id hid => hid.mono (Int.le_refl _) (Nat.le_succ _)
  refine { hissue with next := ?_, streams := ?_, source := ?_ }
  · show s.guest.nextId + 1 = _
    rw [hS.next]
    exact (BitVec.ofNat_add (s.allocated + 1) 1).symm
  · intro id n hn
    exact hmono id (hS.streams id n hn)
  · intro n src hn
    exact hmono src.id (hS.source n src hn)

theorem flows_accept (hS : s.Flows) {l : Nat} (h : s.accept l = some s') : s'.Flows := by
  obtain ⟨-, id, n, rest, -, hbacklog, rfl⟩ := State.accept_eq_some h
  refine flows_guest hS rfl ?_ ?_
  · intro m stream hm
    by_cases hmn : m = n
    · subst hmn
      obtain rfl : ⟨id, false⟩ = stream := by simpa using hm
      exact hS.backlog l id m (by simp [hbacklog])
    · exact hS.stream m stream (by simpa [hmn] using hm)
  · intro m id' k hk
    by_cases hml : m = l
    · subst hml
      have hmem : (id', k) ∈ rest := by simpa using hk
      exact hS.backlog m id' k (by simp [hbacklog, hmem])
    · exact hS.backlog m id' k (by simpa [hml] using hk)

theorem flows_dropListener (hS : s.Flows) {l : Nat} (h : s.dropListener l = some s') :
    s'.Flows := by
  obtain ⟨id, -, rfl⟩ := Option.map_eq_some_iff.mp h
  have hreaders := flows_dropReaders ((s.guest.backlog l).map Prod.snd) hS
  refine flows_guest (flows_issue hreaders (c := .closeListener id) (by simp)) rfl hS.stream ?_
  intro m id' n hn
  by_cases hml : m = l
  · subst hml
    simp at hn
  · exact hS.backlog m id' n (by simpa [hml] using hn)

theorem flows_read (hS : s.Flows) {n remaining : Nat} {ready : Option Chunk}
    (h : s.read n remaining = some (ready, s')) : s'.Flows := by
  obtain ⟨-, p, hp, hpair⟩ := State.read_eq_some h
  obtain ⟨rfl, rfl⟩ := Prod.mk.inj hpair
  have hflow := flow_read hS.flow hp
  obtain ⟨rx, -, rfl⟩ := Option.map_eq_some_iff.mp hp
  exact flows_readers hS hflow rfl rfl

theorem flows_write (hS : s.Flows) {n : Nat} {bytes : Chunk} (h : s.write n bytes = some s') :
    s'.Flows := by
  obtain ⟨stream, -, rfl⟩ := Option.map_eq_some_iff.mp h
  exact flows_issue hS (by simp)

theorem flows_shutdown (hS : s.Flows) {n : Nat} (h : s.shutdown n = some s') : s'.Flows := by
  obtain ⟨stream, hn, rfl⟩ := Option.map_eq_some_iff.mp h
  dsimp only
  split
  · exact hS
  · refine flows_guest (flows_issue hS (by simp)) rfl ?_ hS.backlog
    intro m stream' hm
    by_cases hmn : m = n
    · subst hmn
      obtain rfl : { stream with writeClosed := true } = stream' := by simpa using hm
      exact hS.stream m stream hn
    · exact hS.stream m stream' (by simpa [hmn] using hm)

theorem dropReader_remove (r : Registry) (id : Id) (n : Nat) :
    (r.remove id).dropReader n = (r.dropReader n).remove id := by
  unfold Registry.remove Registry.dropSender Registry.dropReader
  dsimp only
  split <;> rfl

theorem flows_dropStream (hS : s.Flows) {n : Nat} (h : s.dropStream n = some s') : s'.Flows := by
  obtain ⟨stream, hn, rfl⟩ := Option.map_eq_some_iff.mp h
  obtain ⟨src, hsrc, hid⟩ := hS.stream n stream hn
  have hforget := flows_forget (flows_dropReader hS n) hsrc (by simp [Registry.dropReader])
  rw [hid, ← dropReader_remove] at hforget
  refine flows_guest (flows_issue hforget (c := .dropConn stream.connId) (by simp)) rfl ?_
    hS.backlog
  intro m stream' hm
  have hmn : m ≠ n := by
    rintro rfl
    simp at hm
  exact hS.stream m stream' (by simpa [hmn] using hm)

/-- A call changes one socket at most, and not its id. -/
theorem onCall_cases (h : Host) (children : Id → Option Nat) (c : Call) :
    (h.onCall children c).sockets = h.sockets ∨
      ∃ n sk sk', h.sockets n = some sk ∧ sk'.connId = sk.connId ∧
        (h.onCall children c).sockets = (h.setSocket n sk').sockets := by
  cases c with
  | spawn m req => exact .inl rfl
  | closeListener id => exact .inl rfl
  | listen id => exact .inl rfl
  | kill id =>
      simp only [Host.onCall]
      split <;> exact .inl rfl
  | write id bytes =>
      rcases h.onWrite_cases id bytes with ⟨-, heq⟩ | ⟨n, sk, hl, -, heq⟩
      · exact .inl (by rw [Host.onCall, heq])
      · exact .inr ⟨n, sk, { sk with written := sk.written ++ [bytes] },
          (Host.lookup_eq.mp hl).2, rfl, by rw [Host.onCall, heq]⟩
  | closeWrite id =>
      rcases h.onCloseWrite_cases id with ⟨-, heq⟩ | ⟨n, sk, hl, -, heq⟩
      · exact .inl (by rw [Host.onCall, heq])
      · exact .inr ⟨n, sk, { sk with ended := true },
          (Host.lookup_eq.mp hl).2, rfl, by rw [Host.onCall, heq]⟩
  | dropConn id =>
      rcases h.onDropConn_cases id with ⟨-, heq⟩ | ⟨n, sk, hl, -, heq⟩
      · exact .inl (by rw [Host.onCall, heq])
      · exact .inr ⟨n, sk, { sk with dropped := true, destroyed := true },
          (Host.lookup_eq.mp hl).2, rfl, by rw [Host.onCall, heq]; rfl⟩

theorem onCall_sockets (h : Host) (children : Id → Option Nat) (c : Call) {n : Nat} {sk : Socket}
    (hn : (h.onCall children c).sockets n = some sk) :
    ∃ sk', h.sockets n = some sk' ∧ sk'.connId = sk.connId := by
  rcases onCall_cases h children c with hsame | ⟨m, sk₁, sk₂, hm, hid, hset⟩
  · exact ⟨sk, hsame ▸ hn, rfl⟩
  · exact (Host.setSocket_ids sk₂ hm hid).1 n sk (hset ▸ hn)

theorem sockets_onCall (h : Host) (children : Id → Option Nat) (c : Call) {n : Nat} {sk : Socket}
    (hn : h.sockets n = some sk) :
    ∃ sk', (h.onCall children c).sockets n = some sk' ∧ sk'.connId = sk.connId := by
  rcases onCall_cases h children c with hsame | ⟨m, sk₁, sk₂, hm, hid, hset⟩
  · exact ⟨sk, hsame ▸ hn, rfl⟩
  · rw [hset]
    exact (Host.setSocket_ids sk₂ hm hid).2 n sk hn

theorem onCall_rest (h : Host) (children : Id → Option Nat) (c : Call) :
    (h.onCall children c).nextConnId = h.nextConnId ∧
      (h.onCall children c).sessions = h.sessions := by
  cases c with
  | spawn m req => exact ⟨rfl, rfl⟩
  | closeListener id => exact ⟨rfl, rfl⟩
  | listen id => exact ⟨rfl, rfl⟩
  | kill id =>
      simp only [Host.onCall]
      split <;> exact ⟨rfl, rfl⟩
  | write id bytes =>
      rcases h.onWrite_cases id bytes with ⟨-, heq⟩ | ⟨n, sk, -, -, heq⟩
      · simp [Host.onCall, heq]
      · simp [Host.onCall, heq, Host.setSocket]
  | closeWrite id =>
      rcases h.onCloseWrite_cases id with ⟨-, heq⟩ | ⟨n, sk, -, -, heq⟩
      · simp [Host.onCall, heq]
      · simp [Host.onCall, heq, Host.setSocket]
  | dropConn id =>
      rcases h.onDropConn_cases id with ⟨-, heq⟩ | ⟨n, sk, -, -, heq⟩
      · simp [Host.onCall, heq]
      · simp [Host.onCall, heq, Host.setSocket]

/-- The host takes a call that spawns nothing. -/
theorem flows_onCall (hS : s.Flows) {σ' : Lanes Call} (hissued : σ'.issued = s.calls.issued)
    (hwaiting : σ'.waiting.Sublist s.calls.waiting) (c : Call) :
    HostPool.Flows s.guest σ' (s.host.onCall s.tables.children c) s.tables.reg s.sources s.filled
      s.allocated := by
  obtain ⟨hnext, hsessions⟩ := onCall_rest s.host s.tables.children c
  have htake := flows_take hS hissued hwaiting
  refine flows_host htake hnext ?_ ?_ ?_
  · intro n sk hn
    exact onCall_sockets s.host s.tables.children c hn
  · rw [hsessions]
    exact htake.spawned
  · rw [hsessions]
    exact htake.session

/-- A session of the host is replaced. -/
theorem flows_setSession {g : Guest} {σ : Lanes Call} {h : Host} {r : Registry}
    {sources : Nat → Option Source} {filled : Nat → Chunk} {allocated : Nat}
    (hS : HostPool.Flows g σ h r sources filled allocated) (n : Nat) (session : Option Session)
    (hspawn : ∃ req, .spawn n req ∈ σ.issued)
    (hlive : ∀ ses, session = some ses → ses.exited = false →
      Streams sources n ses.req.stdoutId ∧ Streams sources (n + 1) ses.req.stderrId) :
    HostPool.Flows g σ { h with sessions := Function.update h.sessions n session } r sources filled
      allocated := by
  refine flows_host hS rfl (fun m sk hm => ⟨sk, hm, rfl⟩) ?_ ?_
  · intro m ses hm
    by_cases hmn : m = n
    · subst hmn
      exact hspawn
    · exact hS.spawned m ses (by simpa [hmn] using hm)
  · intro m ses hm hx
    by_cases hmn : m = n
    · subst hmn
      exact hlive ses (by simpa using hm) hx
    · exact hS.session m ses (by simpa [hmn] using hm) hx

/-- **The host spawns a child**, or fails to. -/
theorem flows_onSpawn (hS : s.Flows) {σ' : Lanes Call} {as₁ as₂ : List Call} {n : Nat}
    {req : SpawnReq} (hsplit : s.calls.waiting = as₁ ++ .spawn n req :: as₂)
    (hissued : σ'.issued = s.calls.issued) (hwaiting : σ'.waiting = as₁ ++ as₂) (o : CpSpawn) :
    (State.onSpawn N { s with calls := σ' } n req o).Flows := by
  have hmem : .spawn n req ∈ s.calls.waiting := by simp [hsplit]
  have hmem' := hS.waits.subset hmem
  have hsub : σ'.waiting.Sublist s.calls.waiting := by
    rw [hwaiting, hsplit]
    exact List.Sublist.append_left (List.sublist_cons_self _ _) _
  obtain ⟨hout, herr, hstdout, hstderr⟩ := hS.request n req hmem
  have htake := flows_take hS hissued hsub
  have hspawn : ∃ req, .spawn n req ∈ σ'.issued := ⟨req, hissued ▸ hmem'⟩
  -- the other spawns that wait are of other streams
  have hwait : ∀ m req', .spawn m req' ∈ σ'.waiting → m + 2 ≤ n ∨ n + 2 ≤ m := by
    intro m req' hm
    have hpair := hS.apart.sublist hS.waits
    rw [hsplit] at hpair
    obtain ⟨-, hlater, hearlier⟩ := List.pairwise_append.mp hpair
    rw [hwaiting] at hm
    rcases List.mem_append.mp hm with hm | hm
    · exact .inl (hearlier _ hm _ List.mem_cons_self m req' n req rfl rfl)
    · exact .inr ((List.pairwise_cons.mp hlater).1 _ hm n req m req' rfl rfl)
  -- no session has these streams yet
  have hfresh : ∀ m session, s.host.sessions m = some session → session.exited = false →
      n ≠ m ∧ n ≠ m + 1 ∧ n + 1 ≠ m := by
    intro m session hm hx
    obtain ⟨⟨src, hsrc, -⟩, ⟨src', hsrc', -⟩⟩ := hS.session m session hm hx
    refine ⟨?_, ?_, ?_⟩
    · rintro rfl
      simp [hout] at hsrc
    · rintro rfl
      simp [hout] at hsrc'
    · rintro rfl
      simp [herr] at hsrc
  by_cases hconv : req.converts N
  · have hone := flows_open htake hout hstdout fun m req' hm => by
      have hne := hwait m req' hm
      omega
    have htwo := flows_open hone (n := n + 1) (by simpa using herr) hstderr fun m req' hm => by
      have hne := hwait m req' hm
      omega
    cases o with
    | noStdio =>
        have hset := flows_setSession htake n none hspawn (by simp)
        simpa [State.Flows, State.onSpawn, onSpawn, hconv, Tables.applyAll, Tables.apply] using hset
    | child =>
        have hset := flows_setSession htwo n (some ⟨req, false⟩) hspawn ?_
        · simpa [State.Flows, State.onSpawn, State.openSources, onSpawn, hconv, Tables.applyAll,
            Tables.apply] using hset
        · rintro ses ⟨⟩ -
          exact ⟨⟨⟨req.stdoutId, [], true⟩, by simp, rfl, rfl⟩,
            ⟨⟨req.stderrId, [], true⟩, by simp, rfl, rfl⟩⟩
    | throws message =>
        have hpush := flows_push htwo (n := n + 1) (Function.update_self ..) rfl (failure message)
        have hfirst := flows_remove hpush (n := n) false
          (show _ = some ⟨req.stdoutId, [], true⟩ by simp) (.inl rfl) (.inr fun m ses hm hx => by
            have hne := hfresh m ses hm hx
            omega)
        have hsecond := flows_remove hfirst (n := n + 1) false
          (show _ = some ⟨req.stderrId, [] ++ [failure message], true⟩ by simp) (.inl rfl)
          (.inr fun m ses hm hx => by
            have hne := hfresh m ses hm hx
            omega)
        have hset := flows_setSession hsecond n none hspawn (by simp)
        have hreg : (s.tables.applyAll (onSpawn N n req (.throws message)).2).reg =
            ((s.tables.reg.pushBytes req.stderrId (some (failure message))).remove
              req.stdoutId).remove req.stderrId := by
          have heffects : (onSpawn N n req (.throws message)).2 =
              .push req.stderrId (some (failure message)) :: (Session.exit ⟨req, false⟩ 127).2 := by
            simp [onSpawn, hconv]
          rw [heffects]
          exact exit_reg (s.tables.apply (.push req.stderrId (some (failure message)))) rfl 127
        have hsources : ∀ sources : Nat → Option Source,
            Function.update (Function.update (Function.update (Function.update
              (Function.update sources n (some ⟨req.stdoutId, [], true⟩))
              (n + 1) (some ⟨req.stderrId, [], true⟩))
              (n + 1) (some ⟨req.stderrId, [] ++ [failure message], true⟩))
              n (some ⟨req.stdoutId, [], false⟩))
              (n + 1) (some ⟨req.stderrId, [] ++ [failure message], false⟩) =
            Function.update (Function.update sources n (some ⟨req.stdoutId, [], false⟩))
              (n + 1) (some ⟨req.stderrId, [failure message], false⟩) := by
          intro sources
          funext m
          by_cases hm : m = n + 1
          · subst hm
            simp
          · by_cases hmn : m = n
            · subst hmn
              simp
            · simp [hm, hmn]
        rw [hsources] at hset
        have hdone : State.onSpawn N { s with calls := σ' } n req (.throws message) =
            State.openSources
              { s with
                calls := σ'
                tables := s.tables.applyAll (onSpawn N n req (.throws message)).2
                host := { s.host with
                  sessions := Function.update s.host.sessions n none } } n req
              [failure message] false := by
          simp [State.onSpawn, onSpawn, hconv]
        rw [hdone]
        unfold State.Flows State.openSources
        dsimp only
        rw [hreg]
        exact hset
  · have hset := flows_setSession htake n none hspawn (by simp)
    simpa [State.Flows, State.onSpawn, onSpawn, hconv, Tables.applyAll] using hset

theorem flows_dispatch (hS : s.Flows) {l : Lane} {o : CpSpawn}
    (h : s.dispatch N l o = some s') : s'.Flows := by
  obtain ⟨⟨c, σ'⟩, hd, rfl⟩ := Option.map_eq_some_iff.mp h
  obtain ⟨as₁, as₂, hsplit, -, -, hσ⟩ := Lanes.dispatch_cases hd
  have hissued : σ'.issued = s.calls.issued := by rw [hσ]
  have hwaiting : σ'.waiting = as₁ ++ as₂ := by rw [hσ]
  have hsub : σ'.waiting.Sublist s.calls.waiting := by
    rw [hwaiting, hsplit]
    exact List.Sublist.append_left (List.sublist_cons_self _ _) _
  cases c with
  | spawn n req => exact flows_onSpawn hS hsplit hissued hwaiting o
  | write id bytes => exact flows_onCall hS hissued hsub (.write id bytes)
  | kill id => exact flows_onCall hS hissued hsub (.kill id)
  | closeWrite id => exact flows_onCall hS hissued hsub (.closeWrite id)
  | dropConn id => exact flows_onCall hS hissued hsub (.dropConn id)
  | closeListener id => exact flows_onCall hS hissued hsub (.closeListener id)
  | listen id => exact flows_onCall hS hissued hsub (.listen id)

/-- The stream and the id of an emission belong together. -/
theorem emission_stream {sources : Nat → Option Source} {n : Nat} {session : Session}
    (hout : Streams sources n session.req.stdoutId)
    (herr : Streams sources (n + 1) session.req.stderrId) (e : Emission) :
    ∃ src, sources (e.stream n) = some src ∧ src.live = true ∧
      session.onEmission e = .push src.id (some e.chunk) := by
  obtain ⟨src, hsrc, hid, hlive⟩ := hout
  obtain ⟨src', hsrc', hid', hlive'⟩ := herr
  cases e with
  | stdout bytes => exact ⟨src, hsrc, hlive, by rw [hid]; rfl⟩
  | stderr bytes => exact ⟨src', hsrc', hlive', by rw [hid']; rfl⟩
  | error message => exact ⟨src', hsrc', hlive', by rw [hid']; rfl⟩

theorem flows_emit (hS : s.Flows) {n : Nat} {e : Emission} (h : s.emit n e = some s') :
    s'.Flows := by
  obtain ⟨session, hn, hopen, rfl⟩ := State.emit_eq_some h
  obtain ⟨hout, herr⟩ := hS.session n session hn hopen
  obtain ⟨src, hsrc, hlive, heffect⟩ := emission_stream hout herr e
  have hpush := flows_push hS hsrc hlive e.chunk
  unfold State.Flows State.deliver
  simp only [heffect, hsrc, Option.map_some]
  exact hpush

theorem flows_close (hS : s.Flows) {n : Nat} {code : Option (BitVec 32)} {signal : Bool}
    (h : s.close n code signal = some s') : s'.Flows := by
  obtain ⟨session, hn, hx, rfl⟩ := State.close_eq_some h
  obtain ⟨⟨src, hsrc, hid, -⟩, ⟨src', hsrc', hid', -⟩⟩ := hS.session n session hn hx
  obtain ⟨req, hreq⟩ := hS.spawned n session hn
  have hexited : (session.onClose code signal).1.exited = true := by
    simp [Session.onClose, Session.exit, hx]
  have hset := flows_setSession hS n (some (session.onClose code signal).1)
    ⟨req, hreq⟩ (by rintro ses ⟨⟩ hopen; simp [hexited] at hopen)
  -- the sessions that go on have other streams
  have hother : ∀ m ses, Function.update s.host.sessions n
      (some (session.onClose code signal).1) m = some ses → ses.exited = false →
        n ≠ m ∧ n ≠ m + 1 ∧ n + 1 ≠ m := by
    intro m ses hm hopen
    have hmn : m ≠ n := by
      rintro rfl
      obtain rfl : (session.onClose code signal).1 = ses := by simpa using hm
      simp [hexited] at hopen
    obtain ⟨req', hreq'⟩ := hS.spawned m ses (by simpa [hmn] using hm)
    have hapart := hS.apart_of hreq hreq' hmn.symm
    omega
  have hfirst := flows_remove hset false hsrc (.inl rfl)
    (.inr fun m ses hm hopen => by
      have hne := hother m ses hm hopen
      omega)
  have hsecond := flows_remove hfirst (n := n + 1) false
    (show _ = some src' by simpa using hsrc') (.inl rfl) (.inr fun m ses hm hopen => by
      have hne := hother m ses hm hopen
      omega)
  have hreg := exit_reg s.tables hx (exitCode code signal)
  unfold State.Flows State.finish
  dsimp only
  have hreg' : (s.tables.applyAll (session.onClose code signal).2).reg =
      (s.tables.reg.remove src.id).remove src'.id := by
    rw [hid, hid']
    exact hreg
  have hnext : Function.update s.sources n (some { src with live := false }) (n + 1) =
      some src' := by simpa using hsrc'
  rw [hreg', hsrc, Option.map_some, hnext, Option.map_some]
  exact hsecond

theorem flows_arrive (hS : s.Flows) (hroom : (s.allocated : Int) < s.host.nextConnId)
    {listenerId : Id} (h : s.connect listenerId = some s') : s'.Flows := by
  obtain ⟨-, rfl⟩ := State.connect_eq_some h
  have hnew := flows_connect hS hroom
  have hsrc : Function.update s.sources s.tables.reg.made
      (some ⟨.ofInt 32 s.host.nextConnId, [], true⟩) s.tables.reg.made =
        some ⟨.ofInt 32 s.host.nextConnId, [], true⟩ := Function.update_self ..
  unfold State.poolAccept
  dsimp only
  split
  · next l hl =>
      split
      · refine flows_guest hnew rfl hnew.stream ?_
        intro m id n hn
        by_cases hml : m = l
        · subst hml
          have hor : (id, n) ∈ s.guest.backlog m ∨
              (id, n) = (.ofInt 32 s.host.nextConnId, s.tables.reg.made) := by simpa using hn
          rcases hor with hold | hlast
          · exact hnew.backlog m id n hold
          · obtain ⟨rfl, rfl⟩ := Prod.mk.inj hlast
            exact ⟨_, hsrc, rfl⟩
        · exact hnew.backlog m id n (by simpa [hml] using hn)
      · exact flows_dropReader hnew s.tables.reg.made
  · have hforget := flows_forget (flows_dropReader hnew s.tables.reg.made) hsrc
      (by simp [Registry.dropReader])
    exact flows_issue hforget (by simp)

theorem flows_data (hS : s.Flows) {n : Nat} {bytes : Chunk} (h : s.data n bytes = some s') :
    s'.Flows := by
  obtain ⟨sk, hn, hlive, -, rfl⟩ := State.data_eq_some h
  obtain ⟨src, hsrc, hid⟩ := hS.socket n sk hn
  have hl : src.live = true := by simpa [State.live, hsrc] using hlive
  have hpush := flows_push hS hsrc hl bytes
  unfold State.Flows State.deliver
  simp only [hsrc, Option.map_some]
  rw [← hid]
  exact hpush

theorem flows_sockClose (hS : s.Flows) {n : Nat} (h : s.sockClose n = some s') : s'.Flows := by
  obtain ⟨sk, hn, -, rfl⟩ := State.sockClose_eq_some h
  obtain ⟨src, hsrc, hid⟩ := hS.socket n sk hn
  have hremove := flows_remove hS false hsrc (.inl rfl)
    (.inr fun m session hm hx => by
      obtain ⟨req, hreq⟩ := hS.spawned m session hm
      exact hS.alone n sk hn m req hreq)
  unfold State.Flows State.finish
  simp only [hsrc, Option.map_some]
  rw [← hid]
  have hids := (Host.setSocket_ids { sk with destroyed := true } hn rfl).1
  exact flows_host hremove rfl hids hremove.spawned hremove.session

/-- A connection takes one id of the host's. -/
theorem connect_ids {listenerId : Id} (h : s.connect listenerId = some s') :
    s'.allocated = s.allocated ∧ s'.host.nextConnId = s.host.nextConnId - 1 := by
  obtain ⟨-, rfl⟩ := State.connect_eq_some h
  unfold State.poolAccept
  dsimp only
  split
  · split <;> exact ⟨rfl, rfl⟩
  · exact ⟨rfl, rfl⟩

/-- **Every step whose ids have room.** -/
theorem flows_next (hS : s.Flows) {a : Act} (h : next N s a = some s')
    (hroom : s'.Room) : s'.Flows := by
  cases a with
  | spawn cmd =>
      obtain rfl := Option.some.inj h
      have hle : (s.allocated : Int) + 3 ≤ s.host.nextConnId := by
        simp only [State.Room, State.accepted, State.spawn, State.issue_allocated,
          State.issue_host] at hroom
        omega
      exact flows_spawn hS (cmd.req s.guest.nextId) hle rfl rfl rfl rfl rfl
  | startKill n => exact flows_startKill hS h
  | dropChild n => exact flows_dropChild hS h
  | bind =>
      obtain rfl := Option.some.inj h
      exact flows_bind hS
  | accept l => exact flows_accept hS h
  | dropListener l => exact flows_dropListener hS h
  | read n remaining =>
      obtain ⟨⟨ready, s₁⟩, hr, rfl⟩ := Option.map_eq_some_iff.mp h
      exact flows_read hS hr
  | dropReader n =>
      obtain ⟨-, -, rfl⟩ := State.dropReader_eq_some h
      exact flows_dropReader hS n
  | write n bytes => exact flows_write hS h
  | shutdown n => exact flows_shutdown hS h
  | dropStream n => exact flows_dropStream hS h
  | dispatch l o => exact flows_dispatch hS h
  | emit n e => exact flows_emit hS h
  | close n code signal => exact flows_close hS h
  | connect listenerId =>
      have hlt : (s.allocated : Int) < s.host.nextConnId := by
        obtain ⟨hallocated, hnext⟩ := connect_ids h
        simp only [State.Room, State.accepted, hallocated, hnext] at hroom
        omega
      exact flows_arrive hS hlt h
  | data n bytes => exact flows_data hS h
  | destroy n =>
      obtain ⟨sk, hn, rfl⟩ := Option.map_eq_some_iff.mp h
      have hids := (Host.setSocket_ids { sk with destroyed := true } hn rfl).1
      exact flows_host hS rfl hids hS.spawned hS.session
  | sockClose n => exact flows_sockClose hS h

/-- Ids are only ever handed out. -/
theorem ids_mono {a : Act} (h : next N s a = some s') :
    s.allocated ≤ s'.allocated ∧ s'.host.nextConnId ≤ s.host.nextConnId := by
  cases a with
  | spawn cmd =>
      obtain rfl := Option.some.inj h
      exact ⟨Nat.le_add_right _ _, Int.le_refl _⟩
  | startKill n =>
      obtain ⟨child, -, rfl⟩ := Option.map_eq_some_iff.mp h
      dsimp only
      split <;> exact ⟨Nat.le_refl _, Int.le_refl _⟩
  | dropChild n =>
      obtain ⟨child, -, rfl⟩ := Option.map_eq_some_iff.mp h
      dsimp only
      split <;> exact ⟨Nat.le_refl _, Int.le_refl _⟩
  | bind =>
      obtain rfl := Option.some.inj h
      exact ⟨Nat.le_add_right _ _, Int.le_refl _⟩
  | accept l =>
      obtain ⟨-, id, n, rest, -, -, rfl⟩ := State.accept_eq_some h
      exact ⟨Nat.le_refl _, Int.le_refl _⟩
  | dropListener l =>
      obtain ⟨id, -, rfl⟩ := Option.map_eq_some_iff.mp h
      exact ⟨Nat.le_refl _, Int.le_refl _⟩
  | read n remaining =>
      obtain ⟨r, hr, rfl⟩ := Option.map_eq_some_iff.mp h
      obtain ⟨-, p, -, rfl⟩ := State.read_eq_some hr
      exact ⟨Nat.le_refl _, Int.le_refl _⟩
  | dropReader n =>
      obtain ⟨-, -, rfl⟩ := State.dropReader_eq_some h
      exact ⟨Nat.le_refl _, Int.le_refl _⟩
  | write n bytes =>
      obtain ⟨stream, -, rfl⟩ := Option.map_eq_some_iff.mp h
      exact ⟨Nat.le_refl _, Int.le_refl _⟩
  | shutdown n =>
      obtain ⟨stream, -, rfl⟩ := Option.map_eq_some_iff.mp h
      dsimp only
      split <;> exact ⟨Nat.le_refl _, Int.le_refl _⟩
  | dropStream n =>
      obtain ⟨stream, -, rfl⟩ := Option.map_eq_some_iff.mp h
      exact ⟨Nat.le_refl _, Int.le_refl _⟩
  | dispatch l o =>
      obtain ⟨⟨c, σ'⟩, -, rfl⟩ := Option.map_eq_some_iff.mp h
      have hnext := (onCall_rest s.host s.tables.children c).1
      cases c with
      | spawn n req =>
          dsimp only [State.onSpawn]
          split
          · split <;> exact ⟨Nat.le_refl _, Int.le_refl _⟩
          · exact ⟨Nat.le_refl _, Int.le_refl _⟩
      | _ => exact ⟨Nat.le_refl _, hnext.le⟩
  | emit n e =>
      obtain ⟨session, -, -, rfl⟩ := State.emit_eq_some h
      exact ⟨Nat.le_refl _, Int.le_refl _⟩
  | close n code signal =>
      obtain ⟨session, -, -, rfl⟩ := State.close_eq_some h
      exact ⟨Nat.le_refl _, Int.le_refl _⟩
  | connect listenerId =>
      obtain ⟨hallocated, hnext⟩ := connect_ids h
      omega
  | data n bytes =>
      obtain ⟨sk, -, -, -, rfl⟩ := State.data_eq_some h
      exact ⟨Nat.le_refl _, Int.le_refl _⟩
  | destroy n =>
      obtain ⟨sk, -, rfl⟩ := Option.map_eq_some_iff.mp h
      exact ⟨Nat.le_refl _, Int.le_refl _⟩
  | sockClose n =>
      obtain ⟨sk, -, -, rfl⟩ := State.sockClose_eq_some h
      exact ⟨Nat.le_refl _, Int.le_refl _⟩

end Step

/-! ### Whole runs -/

theorem flows_init : State.init.Flows where
  flow := {
    bound := nofun
    sender := nofun
    unique := nofun
    begins := fun _ => List.prefix_rfl
    bytes := nofun
    closed := nofun
    mine := nofun
    live := nofun
    new := fun _ _ => ⟨rfl, rfl, rfl⟩ }
  next := rfl
  high := Int.le_refl _
  streams := nofun
  source := nofun
  apart := List.Pairwise.nil
  waits := List.Sublist.refl _
  pair := nofun
  request := nofun
  spawned := nofun
  session := nofun
  alone := nofun
  socket := nofun
  stream := nofun
  backlog := nofun

theorem faithful_of_flows {s : State} (hS : s.Flows) : Faithful s where
  begins := hS.flow.begins
  lossless := hS.flow.bytes
  eof := by
    intro n remaining s' hr h
    obtain ⟨-, p, hp, hpair⟩ := State.read_eq_some h
    obtain ⟨rx, hrx, rfl⟩ := Option.map_eq_some_iff.mp hp
    have hready : (rx.pollRead remaining (s.tables.reg.chans n).sender
        (s.tables.reg.chans n).items).ready = some [] := (Prod.mk.inj hpair).1.symm
    obtain ⟨hsender, hrest⟩ := ByteRx.pollRead_eof hr hready
    refine ⟨hS.flow.closed n rx hrx hsender, ?_⟩
    have hbytes := hS.flow.bytes n rx hrx
    rwa [Registry.buffered, hrest, List.append_nil] at hbytes

/-- **Fidelity.** As long as the ids of the guest and of the host have not met, every
stream hands out its own bytes, all of them, and ends after the last. -/
theorem faithful {N : Napi} {s : State} (h : (bridge N).Reachable s) (hroom : s.Room) :
    Faithful s := by
  have hS : s.Room → s.Flows := by
    refine h.invariant (I := fun s => s.Room → s.Flows) ?_ ?_
    · rintro _ rfl -
      exact flows_init
    · intro s a s' hS _ hn hroom'
      obtain ⟨hallocated, hnext⟩ := ids_mono hn
      have hroom : s.Room := by
        simp only [State.Room, State.accepted] at hroom' ⊢
        omega
      exact flows_next (hS hroom) hn hroom'
  exact faithful_of_flows (hS hroom)

/-- A child with some output, a read that takes a part of it, and the end. -/
def someOutput : List Act :=
  [.spawn plain, .dispatch .spawn .child, .emit 0 (.stdout [104, 105]), .read 0 1,
    .emit 0 (.stderr []), .close 0 (some 0) false]

theorem faithful_output : ∃ s, (bridge nodeApi).replay .init someOutput = some s ∧ Faithful s ∧
    s.filled 0 = [104] ∧ s.sources 0 = some ⟨2, [[104, 105]], false⟩ := by
  have hrun : ∀ s, (bridge nodeApi).replay .init someOutput = some s →
      (bridge nodeApi).Reachable s := fun s h => Machine.Reachable.replay _ (.start rfl) h
  refine ⟨_, rfl, faithful (hrun _ rfl) ?_, rfl, rfl⟩
  change (3 : Int) + (0xffffffff - 0xffffffff) < 2 ^ 32
  decide

/-! ### The ids go round -/

/-- One child runs, and `k` more were spawned. -/
structure Spawned (k : Nat) (s : State) : Prop where
  next : s.guest.nextId = .ofNat 32 (4 + 3 * k)
  made : 0 < s.tables.reg.made
  mine : s.tables.reg.streams 2 = some 0
  only : ∀ id, s.tables.reg.streams id = some 0 → id = 2
  chan : s.tables.reg.chans 0 = ⟨[], true⟩
  reader : s.tables.reg.readers 0 = some .new
  opened : s.guest.opened 0 = true
  source : s.sources 0 = some ⟨2, [], true⟩

/-- A new channel under another id leaves the first one alone. -/
theorem insert_other {r : Registry} (id : Id) (hid : id ≠ 2) (hmade : 0 < r.made)
    (hmine : r.streams 2 = some 0) (honly : ∀ id, r.streams id = some 0 → id = 2) :
    (r.insert id).streams 2 = some 0 ∧ (∀ id', (r.insert id).streams id' = some 0 → id' = 2) ∧
      (r.insert id).chans 0 = r.chans 0 ∧ (r.insert id).readers 0 = r.readers 0 := by
  have hmade' : (0 : Nat) ≠ r.made := Nat.ne_of_lt hmade
  refine ⟨?_, ?_, ?_, ?_⟩
  · rw [insert_streams_eq, if_neg hid.symm]
    exact hmine
  · intro id' h
    rw [insert_streams_eq] at h
    split at h
    · exact absurd (Option.some.inj h).symm hmade'
    · exact honly id' h
  · cases hold : r.streams id with
    | none => simp [Registry.insert, Registry.dropSender, hold, hmade']
    | some n =>
        have hn : (0 : Nat) ≠ n := by
          rintro rfl
          exact hid (honly id hold)
        simp [Registry.insert, Registry.dropSender, hold, hmade', hn]
  · cases hold : r.streams id with
    | none => simp [Registry.insert, Registry.dropSender, hold, hmade']
    | some n => simp [Registry.insert, Registry.dropSender, hold, hmade']

/-- A new channel under the id of an old one ends that. -/
theorem insert_again {r : Registry} {id : Id} {n : Nat} (hold : r.streams id = some n)
    (hn : n ≠ r.made) : (r.insert id).chans n = { r.chans n with sender := false } ∧
      (r.insert id).readers n = r.readers n := by
  constructor
  · simp [Registry.insert, Registry.dropSender, hold, hn]
  · simp [Registry.insert, Registry.dropSender, hold, hn]

/-- Short of the last id, another child does not matter. -/
theorem spawned_succ {k : Nat} {s : State} (hS : Spawned k s) (hk : k < 1431655764) :
    Spawned (k + 1) (s.spawn plain) := by
  have hout : s.guest.nextId + 1 ≠ 2 := by
    rw [hS.next]
    have hlt : 4 + 3 * k + 1 < 2 ^ 32 := by omega
    intro he
    have hnat := (toNat_add hlt).symm.trans (congrArg BitVec.toNat he)
    change 4 + 3 * k + 1 = 2 at hnat
    omega
  have herr : s.guest.nextId + 2 ≠ 2 := by
    rw [hS.next]
    have hlt : 4 + 3 * k + 2 < 2 ^ 32 := by omega
    intro he
    have hnat := (toNat_add hlt).symm.trans (congrArg BitVec.toNat he)
    change 4 + 3 * k + 2 = 2 at hnat
    omega
  obtain ⟨h₁, h₂, h₃, h₄⟩ := insert_other _ hout hS.made hS.mine hS.only
  have hmade : 0 < (s.tables.reg.insert (s.guest.nextId + 1)).made := by
    rw [Registry.insert_made]
    exact Nat.succ_pos _
  obtain ⟨h₁', h₂', h₃', h₄'⟩ := insert_other _ herr hmade h₁ h₂
  refine { next := ?_, made := ?_, mine := h₁', only := h₂', chan := h₃'.trans (h₃.trans hS.chan),
           reader := h₄'.trans (h₄.trans hS.reader), opened := ?_, source := hS.source }
  · show s.guest.nextId + 3 = _
    rw [hS.next]
    exact (BitVec.ofNat_add (4 + 3 * k) 3).symm
  · show 0 < ((s.tables.reg.insert _).insert _).made
    rw [Registry.insert_made]
    exact Nat.succ_pos _
  · have hne : (0 : Nat) ≠ s.tables.reg.made := Nat.ne_of_lt hS.made
    simp [State.spawn, hne, hS.opened]

theorem spawned_reachable : ∀ {k : Nat}, k ≤ 1431655764 →
    ∃ s, (bridge nodeApi).Reachable s ∧ Spawned k s := by
  intro k
  induction k with
  | zero =>
      intro _
      have hrun : ∀ s, (bridge nodeApi).replay .init [.spawn plain, .dispatch .spawn .child] =
          some s → (bridge nodeApi).Reachable s := fun s h => Machine.Reachable.replay _ (.start rfl) h
      refine ⟨_, hrun _ rfl, ?_⟩
      refine { next := rfl, made := ?_, mine := rfl, only := ?_, chan := rfl, reader := rfl,
               opened := rfl, source := rfl }
      · exact Nat.succ_pos 1
      · intro id h
        change ((Registry.empty.insert 2).insert 3).streams id = some 0 at h
        rw [insert_streams_eq, insert_streams_eq] at h
        split at h
        · cases h
        · split at h
          · assumption
          · cases h
  | succ k ih =>
      intro hk
      obtain ⟨s, hs, hS⟩ := ih (by omega)
      exact ⟨s.spawn plain, .step hs trivial (a := .spawn plain) rfl, spawned_succ hS (by omega)⟩

/-- **The guest's own ids go round.** After 1431655765 more spawns the `stderr` of the
last one has the id of the first child's `stdout`, which ends although it was not closed. -/
theorem ids_wrap : ∃ s s', (bridge nodeApi).Reachable s ∧ s.read 0 1 = some (some [], s') ∧
    s.sources 0 = some ⟨2, [], true⟩ ∧ ¬Faithful s := by
  obtain ⟨s, hs, hS⟩ := spawned_reachable (Nat.le_refl _)
  have hlast : (bridge nodeApi).Reachable (s.spawn plain) :=
    .step hs trivial (a := .spawn plain) rfl
  have hnext : s.guest.nextId = 0 := by
    rw [hS.next]
    rfl
  obtain ⟨h₁, h₂, h₃, h₄⟩ := insert_other 1 (by decide) hS.made hS.mine hS.only
  have hreg : (s.spawn plain).tables.reg = (s.tables.reg.insert 1).insert 2 := by
    show (s.tables.reg.insert (s.guest.nextId + 1)).insert (s.guest.nextId + 2) = _
    rw [hnext]
    rfl
  have hmade : (0 : Nat) ≠ (s.tables.reg.insert 1).made := by
    rw [Registry.insert_made]
    exact (Nat.succ_ne_zero _).symm
  have hchan : (s.spawn plain).tables.reg.chans 0 = ⟨[], false⟩ := by
    rw [hreg, (insert_again h₁ hmade).1, h₃, hS.chan]
  have hreader : (s.spawn plain).tables.reg.readers 0 = some .new := by
    rw [hreg, (insert_again h₁ hmade).2, h₄, hS.reader]
  have hopened : (s.spawn plain).guest.opened 0 = true := by
    have hne : (0 : Nat) ≠ s.tables.reg.made := Nat.ne_of_lt hS.made
    simp [State.spawn, hne, hS.opened]
  have hread : ∃ s', (s.spawn plain).read 0 1 = some (some [], s') := by
    unfold State.read
    rw [if_pos hopened]
    simp [Registry.pollRead, hreader, hchan, ByteRx.pollRead, ByteRx.new]
  obtain ⟨s', hs'⟩ := hread
  refine ⟨s.spawn plain, s', hlast, hs', hS.source, ?_⟩
  intro hF
  obtain ⟨⟨src, hsrc, hdead⟩, -⟩ := hF.eof 0 1 s' Nat.one_pos hs'
  obtain rfl := Option.some.inj (hS.source.symm.trans hsrc)
  simp at hdead

end TurbopackWasi.HostPool
