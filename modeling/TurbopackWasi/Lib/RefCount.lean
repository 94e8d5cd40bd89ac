import Mathlib.Logic.Basic

/-!
# TurbopackWasi.Lib.RefCount

**Handles of a shared value that the last one releases.** A handle that is dropped first
reads the count of the handles. If it reads one, it releases the value; only then, or else
at once, does it give up its own count. Reading and giving up are two steps, and the drops
of several handles interleave.

`Handles` counts the handles by where they are. Its field is the reason that the check is
sound: whoever has read one is alone, and stays alone. The check is not complete: two drops
that both read two leave nobody to release the value (`pass_gone`).
-/

namespace TurbopackWasi.Lib

universe u

/-- The handles of one value; a drop that read one carries what it is doing. -/
structure Handles (κ : Type u) where
  idle : Nat
  /-- Dropped, after a count above one, and still counted. -/
  passing : Nat
  /-- Dropped, after a count of one. -/
  acting : Option κ
  sole : acting.isSome → idle = 0 ∧ passing = 0

namespace Handles

variable {κ : Type u} {h h' : Handles κ} {k k' : κ}

/-- No handle: the value does not exist, or nobody has it. -/
def gone : Handles κ := ⟨0, 0, none, by simp⟩

def one : Handles κ := ⟨1, 0, none, by simp⟩

/-- The count that a handle reads. -/
def strong (h : Handles κ) : Nat := h.idle + h.passing + if h.acting.isSome then 1 else 0

theorem acting_none (h : Handles κ) (hi : 0 < h.idle + h.passing) : h.acting = none := by
  cases ha : h.acting with
  | none => rfl
  | some k =>
      have hsole := h.sole (by rw [ha]; rfl)
      omega

def clone (h : Handles κ) : Option (Handles κ) :=
  if hi : 0 < h.idle then
    some ⟨h.idle + 1, h.passing, h.acting, by simp [h.acting_none (by omega)]⟩
  else none

/-- A handle is dropped, and reads the count. -/
def drop (h : Handles κ) (k : κ) : Option (Handles κ) :=
  if hi : 0 < h.idle then
    if hone : h.strong = 1 then
      some ⟨h.idle - 1, h.passing, some k, fun _ => by unfold strong at hone; omega⟩
    else some ⟨h.idle - 1, h.passing + 1, h.acting, by simp [h.acting_none (by omega)]⟩
  else none

/-- A handle that read more than one gives up its count. -/
def pass (h : Handles κ) : Option (Handles κ) :=
  if hp : 0 < h.passing then
    some ⟨h.idle, h.passing - 1, h.acting, by simp [h.acting_none (by omega)]⟩
  else none

/-- The handle that read one goes on, or gives up its count. -/
def act (h : Handles κ) (k : Option κ) : Handles κ :=
  if ha : h.acting.isSome then ⟨h.idle, h.passing, k, fun _ => h.sole ha⟩ else h

@[simp] theorem act_acting (k' : Option κ) (ha : h.acting = some k) : (h.act k').acting = k' := by
  simp [act, ha]

@[simp] theorem act_idle (k : Option κ) : (h.act k).idle = h.idle := by
  unfold act
  split <;> rfl

@[simp] theorem act_passing (k : Option κ) : (h.act k).passing = h.passing := by
  unfold act
  split <;> rfl

theorem clone_spec (hc : h.clone = some h') :
    0 < h.idle ∧ h'.idle = h.idle + 1 ∧ h'.passing = h.passing ∧ h'.acting = none := by
  unfold clone at hc
  split at hc
  · rename_i hi
    obtain rfl := Option.some.inj hc
    exact ⟨hi, rfl, rfl, h.acting_none (by omega)⟩
  · cases hc

/-- A drop either was the only handle, or has joined those that pass. -/
theorem drop_spec (hd : h.drop k = some h') :
    0 < h.idle ∧ ((h.strong = 1 ∧ h'.idle = 0 ∧ h'.passing = 0 ∧ h'.acting = some k) ∨
      (h.strong ≠ 1 ∧ h'.idle + h'.passing = h.idle + h.passing ∧ h'.acting = none)) := by
  unfold drop at hd
  split at hd
  · rename_i hi
    split at hd
    · rename_i hone
      obtain rfl := Option.some.inj hd
      unfold strong at hone
      exact ⟨hi, Or.inl ⟨hone, by show h.idle - 1 = 0; omega, by show h.passing = 0; omega, rfl⟩⟩
    · rename_i hne
      obtain rfl := Option.some.inj hd
      refine ⟨hi, Or.inr ⟨hne, ?_, h.acting_none (by omega)⟩⟩
      show h.idle - 1 + (h.passing + 1) = _
      omega
  · cases hd

theorem pass_spec (hp : h.pass = some h') :
    0 < h.passing ∧ h'.idle = h.idle ∧ h'.passing = h.passing - 1 ∧ h'.acting = none := by
  unfold pass at hp
  split at hp
  · rename_i hpos
    obtain rfl := Option.some.inj hp
    exact ⟨hpos, rfl, rfl, h.acting_none (by omega)⟩
  · cases hp

/-- The last handle goes without having read one. -/
theorem pass_gone (hp : h.pass = some h') : h'.strong = 0 ↔ h.strong = 1 := by
  obtain ⟨hpos, hi, hpass, hnone⟩ := pass_spec hp
  have hold := h.acting_none (by omega)
  simp only [strong, hi, hpass, hnone, hold]
  simp
  omega

end Handles

end TurbopackWasi.Lib
