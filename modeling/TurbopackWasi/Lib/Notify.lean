import Mathlib.Logic.Basic

/-!
# TurbopackWasi.Lib.Notify

**Notifications for everyone who waits.** A waiter makes a future, looks whether there is
still something to wait for, and polls the future; the other side makes its change and then
notifies all futures that exist. No wake-up is lost if a future counts from the moment it
is made, not only from its first poll: `Notify.Delivers`.

`Notify` is the interface of an implementation, and `Notify.counter` one that numbers the
notifications.
-/

namespace TurbopackWasi.Lib

structure Notify where
  State : Type
  Future : Type
  new : State
  /-- Makes a future. -/
  notified : State → Future × State
  /-- Whether the future is ready. -/
  poll : State → Future → Bool × Future × State
  /-- A future is dropped. -/
  cancel : State → Future → State
  notifyWaiters : State → State

namespace Notify

/-- A future that was not ready so far, and whether it was notified since it was made. -/
inductive Outstanding (N : Notify) : Bool → N.State → N.Future → Prop
  | made (n : N.State) : Outstanding N false (N.notified n).2 (N.notified n).1
  | polled {got : Bool} {n : N.State} {f : N.Future} :
      Outstanding N got n f → (N.poll n f).1 = false →
        Outstanding N got (N.poll n f).2.2 (N.poll n f).2.1
  | notify {got : Bool} {n : N.State} {f : N.Future} :
      Outstanding N got n f → Outstanding N true (N.notifyWaiters n) f

/-- A future made before a notification receives it, polled before or not. -/
def Delivers (N : Notify) : Prop := ∀ n f, N.Outstanding true n f → (N.poll n f).1 = true

/-- The state counts the notifications, and a future keeps the count of its making. -/
abbrev counter : Notify where
  State := Nat
  Future := Nat
  new := 0
  notified n := (n, n)
  poll n f := (decide (f < n), f, n)
  cancel n _ := n
  notifyWaiters n := n + 1

theorem counter_outstanding {got : Bool} {n : counter.State} {f : counter.Future}
    (h : counter.Outstanding got n f) : f ≤ n ∧ (got = true → f < n) := by
  induction h with
  | made n => exact ⟨Nat.le_refl n, by simp⟩
  | polled _ _ ih => exact ih
  | notify _ ih => exact ⟨Nat.le_succ_of_le ih.1, fun _ => Nat.lt_succ_of_le ih.1⟩

theorem counter_delivers : counter.Delivers := by
  intro n f h
  have hlt := (counter_outstanding h).2 rfl
  exact decide_eq_true hlt

end Notify

end TurbopackWasi.Lib
