import Mathlib.Data.List.Nodup
import Mathlib.Data.List.Perm.Basic
import Mathlib.Logic.Function.Basic

/-!
# TurbopackWasi.Lib.Server

**A sequential server with a message queue.** Each client posts one message. Messages
reach the queue in any order (`inflight`); the server takes them from its head and serves
one client at a time, from beginning to end.

`Server.Inv` is the accounting of such a server: every client that has posted is at one
place, and the services begin in the order of the queue. It holds along every sequence of
steps (`Server.Inv.step`).
-/

namespace TurbopackWasi.Lib

/-- How far the service of a client is. -/
inductive Stage
  | idle
  | posted
  | serving
  | finished
  deriving DecidableEq, Repr

structure Server (κ : Type) where
  stage : κ → Stage
  /-- Messages on their way. -/
  inflight : List κ
  queue : List κ
  /-- The client that is served now. -/
  current : Option κ
  /-- All messages that were queued, in order. -/
  delivered : List κ
  /-- All services, in order. -/
  begun : List κ

namespace Server

variable {κ : Type} [DecidableEq κ]

def empty : Server κ := ⟨fun _ => .idle, [], [], none, [], []⟩

inductive Step (σ : Server κ) : Server κ → Prop
  | post {c : κ} : σ.stage c = .idle →
      Step σ { σ with stage := Function.update σ.stage c .posted, inflight := σ.inflight ++ [c] }
  | deliver {c : κ} {rest : List κ} : σ.inflight.Perm (c :: rest) →
      Step σ { σ with
        inflight := rest
        queue := σ.queue ++ [c]
        delivered := σ.delivered ++ [c] }
  | take {c : κ} {q : List κ} : σ.current = none → σ.queue = c :: q →
      Step σ { σ with
        stage := Function.update σ.stage c .serving
        queue := q
        current := some c
        begun := σ.begun ++ [c] }
  | finish {c : κ} : σ.current = some c →
      Step σ { σ with stage := Function.update σ.stage c .finished, current := none }

/-- Where the messages are, and in which order they were served. -/
structure Inv (σ : Server κ) : Prop where
  posted : ∀ c, c ∈ σ.inflight ++ σ.queue ↔ σ.stage c = .posted
  serving : ∀ c, σ.current = some c ↔ σ.stage c = .serving
  begun : ∀ c, c ∈ σ.begun ↔ σ.stage c = .serving ∨ σ.stage c = .finished
  once : (σ.inflight ++ σ.delivered).Nodup
  order : σ.delivered = σ.begun ++ σ.queue

omit [DecidableEq κ] in
theorem inv_empty : Inv (empty : Server κ) where
  posted c := by simp [empty]
  serving c := by simp [empty]
  begun c := by simp [empty]
  once := List.nodup_nil
  order := rfl

variable {σ σ' : Server κ}

omit [DecidableEq κ] in
theorem Inv.not_mem_of_idle (hI : Inv σ) {c : κ} (hc : σ.stage c = .idle) :
    c ∉ σ.inflight ++ σ.delivered := by
  intro hmem
  rcases List.mem_append.mp hmem with h | h
  · have hposted := (hI.posted c).mp (List.mem_append_left _ h)
    simp [hc] at hposted
  · rw [hI.order] at h
    rcases List.mem_append.mp h with h | h
    · have hbegun := (hI.begun c).mp h
      simp [hc] at hbegun
    · have hposted := (hI.posted c).mp (List.mem_append_right _ h)
      simp [hc] at hposted

theorem inv_post (hI : Inv σ) {c : κ} (hc : σ.stage c = .idle) :
    Inv { σ with stage := Function.update σ.stage c .posted, inflight := σ.inflight ++ [c] } where
  posted d := by
    have hd := hI.posted d
    by_cases h : d = c
    · subst h
      simp
    · simp only [Function.update_of_ne h]
      rw [← hd]
      simp [h]
  serving d := by
    have hd := hI.serving d
    by_cases h : d = c
    · subst h
      simp [hd, hc]
    · simpa only [Function.update_of_ne h] using hd
  begun d := by
    have hd := hI.begun d
    by_cases h : d = c
    · subst h
      simp [hd, hc]
    · simpa only [Function.update_of_ne h] using hd
  once := by
    have hperm : ((σ.inflight ++ [c]) ++ σ.delivered).Perm (c :: (σ.inflight ++ σ.delivered)) := by
      rw [List.append_assoc]
      exact List.perm_middle
    rw [hperm.nodup_iff, List.nodup_cons]
    exact ⟨hI.not_mem_of_idle hc, hI.once⟩
  order := hI.order

omit [DecidableEq κ] in
/-- A message moves from one list to the end of the other. -/
theorem deliver_perm {c : κ} {as rest bs : List κ} (has : as.Perm (c :: rest)) :
    (rest ++ (bs ++ [c])).Perm (as ++ bs) := by
  have hback : (bs ++ [c]).Perm (c :: bs) := List.perm_append_singleton ..
  have hfront : (c :: (rest ++ bs)).Perm (as ++ bs) := has.symm.append_right bs
  exact (hback.append_left _).trans (List.perm_middle.trans hfront)

omit [DecidableEq κ] in
theorem inv_deliver (hI : Inv σ) {c : κ} {rest : List κ} (hc : σ.inflight.Perm (c :: rest)) :
    Inv { σ with
      inflight := rest
      queue := σ.queue ++ [c]
      delivered := σ.delivered ++ [c] } where
  posted d := by
    rw [(deliver_perm hc).mem_iff]
    exact hI.posted d
  serving := hI.serving
  begun := hI.begun
  once := by
    rw [(deliver_perm hc).nodup_iff]
    exact hI.once
  order := by
    show σ.delivered ++ [c] = σ.begun ++ (σ.queue ++ [c])
    rw [hI.order, List.append_assoc]

theorem inv_take (hI : Inv σ) {c : κ} {q : List κ} (hcur : σ.current = none)
    (hq : σ.queue = c :: q) :
    Inv { σ with
      stage := Function.update σ.stage c .serving
      queue := q
      current := some c
      begun := σ.begun ++ [c] } where
  posted d := by
    have hd := hI.posted d
    have hnodup : (σ.inflight ++ (c :: q)).Nodup := by
      have hsub : List.Sublist (σ.inflight ++ (c :: q)) (σ.inflight ++ σ.delivered) := by
        rw [hI.order, hq]
        exact List.Sublist.append_left (List.sublist_append_right ..) _
      exact hI.once.sublist hsub
    rw [hq] at hd
    by_cases h : d = c
    · subst h
      have hnot : d ∉ σ.inflight ++ q :=
        (List.nodup_cons.mp (List.perm_middle.nodup_iff.mp hnodup)).1
      simpa using hnot
    · simp only [Function.update_of_ne h]
      rw [← hd]
      simp [h]
  serving d := by
    have hd := hI.serving d
    by_cases h : d = c
    · subst h
      simp
    · simp only [Function.update_of_ne h]
      rw [← hd, hcur]
      simp [Ne.symm h]
  begun d := by
    have hd := hI.begun d
    by_cases h : d = c
    · subst h
      simp
    · simp only [Function.update_of_ne h]
      rw [← hd]
      simp [h]
  once := hI.once
  order := by
    show σ.delivered = σ.begun ++ [c] ++ q
    rw [hI.order, hq, List.append_assoc]
    rfl

theorem inv_finish (hI : Inv σ) {c : κ} (hcur : σ.current = some c) :
    Inv { σ with stage := Function.update σ.stage c .finished, current := none } where
  posted d := by
    have hd := hI.posted d
    by_cases h : d = c
    · subst h
      simp [hd, (hI.serving d).mp hcur]
    · simpa only [Function.update_of_ne h] using hd
  serving d := by
    have hd := hI.serving d
    by_cases h : d = c
    · subst h
      simp
    · simp only [Function.update_of_ne h]
      rw [← hd, hcur]
      simp [Ne.symm h]
  begun d := by
    have hd := hI.begun d
    by_cases h : d = c
    · subst h
      simp [hd, (hI.serving d).mp hcur]
    · simpa only [Function.update_of_ne h] using hd
  once := hI.once
  order := hI.order

/-- **The accounting is kept by every step.** -/
theorem Inv.step (hI : Inv σ) (h : Step σ σ') : Inv σ' := by
  cases h with
  | post hc => exact inv_post hI hc
  | deliver hc => exact inv_deliver hI hc
  | take hcur hq => exact inv_take hI hcur hq
  | finish hcur => exact inv_finish hI hcur

end Server

end TurbopackWasi.Lib
