import Mathlib.Logic.Basic

/-!
# TurbopackWasi.Lib.Promise

**Promises that may be resolved with one another.** A promise settles at most
once: what resolves or rejects it later has no effect. Resolved with another
promise it is *locked in*, and settles as that one does.

`Promise.outcome` reads a chain of promises, each of which may be locked in on the
next one. However the promises of a chain are settled and however the chain grows,
an outcome never changes (`outcome_set`, `outcome_append`).
-/

namespace TurbopackWasi.Lib

universe u v

variable {ε : Type u} {α : Type v}

inductive Promise (ε : Type u) (α : Type v)
  | pending
  /-- Resolved with the next promise of the chain. -/
  | locked
  | fulfilled (a : α)
  | rejected (e : ε)
  deriving DecidableEq

namespace Promise

/-- A call of `resolve` or `reject`, to the effect `q`. -/
def settle (p q : Promise ε α) : Promise ε α :=
  match p with
  | .pending => q
  | p => p

@[simp] theorem settle_pending (q : Promise ε α) : settle .pending q = q := rfl
@[simp] theorem settle_locked (q : Promise ε α) : settle .locked q = .locked := rfl

@[simp] theorem settle_self (p : Promise ε α) : p.settle p = p := by cases p <;> rfl

theorem settle_eq_self {p : Promise ε α} (h : p ≠ .pending) (q : Promise ε α) :
    p.settle q = p := by
  cases p with
  | pending => exact absurd rfl h
  | locked => rfl
  | fulfilled a => rfl
  | rejected e => rfl

/-- How the first promise of a chain has settled. -/
def outcome : List (Promise ε α) → Option (Except ε α)
  | [] => none
  | .pending :: _ => none
  | .locked :: ps => outcome ps
  | .fulfilled a :: _ => some (.ok a)
  | .rejected e :: _ => some (.error e)

/-- The promise that has settled in this way. -/
def ofOutcome : Option (Except ε α) → Promise ε α
  | none => .pending
  | some (.ok a) => .fulfilled a
  | some (.error e) => .rejected e

@[simp] theorem outcome_ofOutcome (o : Option (Except ε α)) (ps : List (Promise ε α)) :
    outcome (ofOutcome o :: ps) = o := by
  rcases o with - | - | - <;> rfl

@[simp] theorem settle_ofOutcome (o o' : Option (Except ε α)) :
    (ofOutcome o).settle (ofOutcome o') = ofOutcome (o.or o') := by
  rcases o with - | - | - <;> rfl

/-- Calls on any promise of a chain leave an outcome as it is. -/
theorem outcome_set {ps : List (Promise ε α)} {o : Except ε α} (h : outcome ps = some o)
    {i : Nat} {p : Promise ε α} (hp : ps[i]? = some p) (q : Promise ε α) :
    outcome (ps.set i (p.settle q)) = some o := by
  induction ps generalizing i with
  | nil => cases hp
  | cons head ps ih =>
      cases i with
      | zero =>
          obtain rfl : head = p := by simpa using hp
          have hsettled : head ≠ .pending := by
            intro hpending
            rw [hpending] at h
            cases h
          rw [List.set_cons_zero, settle_eq_self hsettled]
          exact h
      | succ i =>
          rw [List.set_cons_succ]
          cases head with
          | pending => cases h
          | locked => exact ih h hp
          | fulfilled a => exact h
          | rejected e => exact h

/-- A longer chain has the same outcome. -/
theorem outcome_append {ps : List (Promise ε α)} {o : Except ε α} (h : outcome ps = some o)
    (qs : List (Promise ε α)) : outcome (ps ++ qs) = some o := by
  induction ps with
  | nil => cases h
  | cons head ps ih =>
      cases head with
      | pending => cases h
      | locked => exact ih h
      | fulfilled a => exact h
      | rejected e => exact h

end Promise

end TurbopackWasi.Lib
