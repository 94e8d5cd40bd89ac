import Mathlib.Logic.Function.Basic

/-!
# TurbopackWasi.Lib.Code

**Straight-line code over a shared block of words.** A party of a protocol that
works on a shared block between two synchronisation points runs a finite sequence
of loads and stores, where later accesses may depend on the words loaded; a
`Code ι ν σ` is such a sequence, ending at a control point `σ`.

`Code.tick` executes one access, so that code can be interleaved with other
parties access by access; `Code.run` executes all of them at once. A `tick` never
changes what `run` will come to (`run_tick`), which is what lets a proof speak
about the control points only.
-/

namespace TurbopackWasi.Lib

/-- Loads and stores on words `ν` indexed by `ι`, ending at a control point `σ`. -/
inductive Code (ι ν σ : Type)
  | load (i : ι) (k : ν → Code ι ν σ)
  | store (i : ι) (v : ν) (k : Code ι ν σ)
  | done (s : σ)

namespace Code

variable {ι ν σ : Type} [DecidableEq ι]

/-- Executes the next access; `none` at a control point. -/
def tick (w : ι → ν) : Code ι ν σ → Option ((ι → ν) × Code ι ν σ)
  | load i k => some (w, k (w i))
  | store i v k => some (Function.update w i v, k)
  | done _ => none

/-- Executes all accesses: the words afterwards and the control point reached. -/
def run (w : ι → ν) : Code ι ν σ → (ι → ν) × σ
  | load i k => (k (w i)).run w
  | store i v k => k.run (Function.update w i v)
  | done s => (w, s)

@[simp] theorem run_load (w : ι → ν) (i : ι) (k : ν → Code ι ν σ) :
    (load i k).run w = (k (w i)).run w := rfl

@[simp] theorem run_store (w : ι → ν) (i : ι) (v : ν) (k : Code ι ν σ) :
    (store i v k).run w = k.run (Function.update w i v) := rfl

@[simp] theorem run_done (w : ι → ν) (s : σ) : (done s : Code ι ν σ).run w = (w, s) := rfl

/-- An access does not change where the code ends, nor the words it ends with. -/
theorem run_tick {w w' : ι → ν} {c c' : Code ι ν σ} (h : c.tick w = some (w', c')) :
    c'.run w' = c.run w := by
  cases c with
  | load i k =>
      obtain ⟨rfl, rfl⟩ : w = w' ∧ k (w i) = c' := by simpa [tick] using h
      rfl
  | store i v k =>
      obtain ⟨rfl, rfl⟩ : Function.update w i v = w' ∧ k = c' := by simpa [tick] using h
      rfl
  | done s => simp [tick] at h

/-! ### Sequences of accesses -/

/-- Stores the given words, then goes on with `k`. -/
def stores (as : List (ι × ν)) (k : Code ι ν σ) : Code ι ν σ :=
  as.foldr (fun a c => store a.1 a.2 c) k

/-- The words after the given stores. -/
def storeAll (w : ι → ν) (as : List (ι × ν)) : ι → ν :=
  as.foldl (fun w a => Function.update w a.1 a.2) w

theorem run_stores (w : ι → ν) (as : List (ι × ν)) (k : Code ι ν σ) :
    (stores as k).run w = k.run (storeAll w as) := by
  induction as generalizing w with
  | nil => rfl
  | cons a as ih => exact ih _

/-- A word none of the stores names keeps its value. -/
theorem storeAll_of_not_mem {as : List (ι × ν)} {i : ι} (w : ι → ν)
    (h : ∀ a ∈ as, a.1 ≠ i) : storeAll w as i = w i := by
  induction as generalizing w with
  | nil => rfl
  | cons a as ih =>
      have htail : storeAll (Function.update w a.1 a.2) as i = Function.update w a.1 a.2 i :=
        ih _ fun b hb => h b (List.mem_cons_of_mem _ hb)
      rw [show storeAll w (a :: as) = storeAll (Function.update w a.1 a.2) as from rfl, htail,
        Function.update_of_ne (h a List.mem_cons_self).symm]

/-- The last store decides. -/
@[simp] theorem storeAll_append_last (w : ι → ν) (as : List (ι × ν)) (i : ι) (v : ν) :
    storeAll w (as ++ [(i, v)]) i = v := by
  simp [storeAll]

theorem storeAll_append (w : ι → ν) (as bs : List (ι × ν)) :
    storeAll w (as ++ bs) = storeAll (storeAll w as) bs :=
  List.foldl_append

/-- Loads the words at the given indices, then goes on with their values. -/
def loads : List ι → (List ν → Code ι ν σ) → Code ι ν σ
  | [], k => k []
  | i :: is, k => load i fun v => loads is fun vs => k (v :: vs)

theorem run_loads (w : ι → ν) (is : List ι) (k : List ν → Code ι ν σ) :
    (loads is k).run w = (k (is.map w)).run w := by
  induction is generalizing k with
  | nil => rfl
  | cons i is ih => exact ih fun vs => k (w i :: vs)

/-! ### Consecutive words -/

section Consecutive

variable {ν : Type}

/-- The stores of `vs` at the indices from `base + k` on. -/
theorem storeAll_zipIdx (w : Nat → ν) (base : Nat) (vs : List ν) (k j : Nat)
    (hj : j < vs.length) :
    storeAll w ((vs.zipIdx k).map fun v => (base + v.2, v.1)) (base + k + j) = vs[j] := by
  induction vs generalizing w k j with
  | nil => simp at hj
  | cons v vs ih =>
      rw [List.zipIdx_cons, List.map_cons]
      show storeAll (Function.update w (base + k) v) _ _ = _
      cases j with
      | zero =>
          -- later stores go to later words
          rw [storeAll_of_not_mem]
          · exact Function.update_self ..
          · intro a ha
            obtain ⟨b, hb, rfl⟩ := List.mem_map.mp ha
            have hk := (List.mem_zipIdx hb).1
            show base + b.2 ≠ base + k + 0
            omega
      | succ j =>
          have hih := ih (Function.update w (base + k) v) (k + 1) j (by simpa using hj)
          rw [show base + k + (j + 1) = base + (k + 1) + j by omega]
          simpa using hih

end Consecutive

/-! ### What code may store and where it may end -/

/-- Whatever words it loads, the code makes only stores with `Q` and ends at a control
point with `P`. -/
def Obeys (Q : ι → ν → Prop) (P : σ → Prop) : Code ι ν σ → Prop
  | load _ k => ∀ v, (k v).Obeys Q P
  | store i v k => Q i v ∧ k.Obeys Q P
  | done s => P s

variable {Q : ι → ν → Prop} {P : σ → Prop}

omit [DecidableEq ι] in
theorem obeys_stores {as : List (ι × ν)} {k : Code ι ν σ} (hQ : ∀ a ∈ as, Q a.1 a.2)
    (h : k.Obeys Q P) : (stores as k).Obeys Q P := by
  induction as with
  | nil => exact h
  | cons a as ih =>
      exact ⟨hQ a List.mem_cons_self, ih fun b hb => hQ b (List.mem_cons_of_mem _ hb)⟩

omit [DecidableEq ι] in
theorem obeys_loads {is : List ι} {k : List ν → Code ι ν σ} (h : ∀ vs, (k vs).Obeys Q P) :
    (loads is k).Obeys Q P := by
  induction is generalizing k with
  | nil => exact h []
  | cons i is ih => exact fun v => ih fun vs => h (v :: vs)

end Code

end TurbopackWasi.Lib
