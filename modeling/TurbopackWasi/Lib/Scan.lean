import Mathlib.Data.List.Basic

/-!
# TurbopackWasi.Lib.Scan

**Scanners** for patterns made of literals and decimal numbers, as a regular expression
matches them against a whole text. Each scanner takes its part off the front of a list of
characters and returns the rest. A number is scanned to its last digit, which loses no match
as long as a pattern never puts a digit behind a number.
-/

namespace TurbopackWasi.Lib.Scan

variable {cs rest : List Char} {n : Nat}

def literal (lit : List Char) (cs : List Char) : Option (List Char) :=
  if lit.isPrefixOf cs then some (cs.drop lit.length) else none

/-- `\d+`, and its value. -/
def number (cs : List Char) : Option (Nat × List Char) :=
  let digits := cs.takeWhile Char.isDigit
  if digits = [] then none else some (Nat.ofDigitChars 10 digits 0, cs.dropWhile Char.isDigit)

/-- The end of the text. -/
def finish {α : Type} (x : α) (cs : List Char) : Option α := if cs = [] then some x else none

theorem literal_eq_some {lit : List Char} : literal lit cs = some rest ↔ cs = lit ++ rest := by
  rw [literal]
  constructor
  · intro h
    split at h
    · next hlit =>
        obtain ⟨tail, rfl⟩ := List.isPrefixOf_iff_prefix.mp hlit
        obtain rfl : tail = rest := by simpa using h
        rfl
    · cases h
  · intro h
    subst h
    simp

@[simp] theorem literal_append (lit rest : List Char) : literal lit (lit ++ rest) = some rest :=
  literal_eq_some.mpr rfl

@[simp] theorem finish_nil {α : Type} (x : α) : finish x [] = some x := rfl

theorem finish_eq_some {α : Type} {x y : α} : finish x cs = some y ↔ cs = [] ∧ x = y := by
  rw [finish]
  split
  · next h => simp [h]
  · next h => simp [h]

/-- What `number` has scanned. -/
theorem number_eq_some (h : number cs = some (n, rest)) :
    ∃ digits, (∀ d ∈ digits, d.isDigit = true) ∧ cs = digits ++ rest := by
  rw [number] at h
  split at h
  · cases h
  · cases h
    refine ⟨cs.takeWhile Char.isDigit, ?_, List.takeWhile_append_dropWhile.symm⟩
    intro d hd
    exact List.all_eq_true.mp List.all_takeWhile d hd

theorem isDigit_of_mem_toDigits {d : Char} (h : d ∈ Nat.toDigits 10 n) : d.isDigit = true :=
  Nat.isDigit_of_mem_toDigits (by decide) (by decide) h

/-- A rendered number is read back, up to the next character that is no digit. -/
theorem number_toDigits (n : Nat) (rest : List Char) (h : ∀ c ∈ rest.head?, c.isDigit = false) :
    number (Nat.toDigits 10 n ++ rest) = some (n, rest) := by
  have htake : rest.takeWhile Char.isDigit = [] := by
    cases rest with
    | nil => rfl
    | cons c rest => simp [h c rfl]
  have hdrop : rest.dropWhile Char.isDigit = rest := by
    cases rest with
    | nil => rfl
    | cons c rest => simp [h c rfl]
  have hdigits : ∀ d ∈ Nat.toDigits 10 n, d.isDigit = true := fun _ => isDigit_of_mem_toDigits
  rw [number, List.takeWhile_append_of_pos hdigits, List.dropWhile_append_of_pos hdigits, htake,
    hdrop]
  simp

/-- A text splits in one way at the last occurrence of a separator. -/
theorem append_cons_inj {α : Type} {a : α} {xs ys ds es : List α} (hds : a ∉ ds) (hes : a ∉ es)
    (h : xs ++ a :: ds = ys ++ a :: es) : xs = ys ∧ ds = es := by
  rcases List.append_eq_append_iff.mp h with ⟨mid, hys, htail⟩ | ⟨mid, hxs, htail⟩
  · cases mid with
    | nil =>
        refine ⟨by simpa using hys.symm, ?_⟩
        simpa using htail
    | cons b mid =>
        obtain ⟨-, rfl⟩ := List.cons.inj htail
        exact absurd (by simp) hds
  · cases mid with
    | nil =>
        refine ⟨by simpa using hxs, ?_⟩
        simpa using htail.symm
    | cons b mid =>
        obtain ⟨-, rfl⟩ := List.cons.inj htail
        exact absurd (by simp) hes

end TurbopackWasi.Lib.Scan
