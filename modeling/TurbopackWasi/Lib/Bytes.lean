import Mathlib.Algebra.Group.Nat.Defs
import Mathlib.Data.List.Basic

/-!
# TurbopackWasi.Lib.Bytes

Byte arrays as the JavaScript typed-array operations see them: offsets and lengths
are numbers that may be negative or lie beyond the end, and the three operations
answer such numbers differently. `slice` counts a negative index from the end and
clamps, `set` and the view constructor throw a `RangeError`, here `none`.

`window` is the plain meaning that all three have when the numbers are in range
(`slice_eq_window`, `view_eq_window`, `set_eq_splice`).
-/

namespace TurbopackWasi.Lib.Bytes

/-- The `len` bytes from offset `off`. -/
def window (b : List UInt8) (off len : Nat) : List UInt8 := (b.drop off).take len

/-- `b` with `src` written over it from offset `off`. -/
def splice (b src : List UInt8) (off : Nat) : List UInt8 :=
  b.take off ++ src ++ b.drop (off + src.length)

/-- `b.slice(s, e)`: a negative index counts from the end; both are clamped. -/
def slice (b : List UInt8) (s e : Int) : List UInt8 :=
  let clamp (i : Int) : Nat :=
    if i < 0 then (b.length + i).toNat else min i.toNat b.length
  window b (clamp s) (clamp e - clamp s)

/-- `new Uint8Array(b, off, len)`: the bytes seen, or a `RangeError`. -/
def view (b : List UInt8) (off len : Int) : Option (List UInt8) :=
  if off < 0 ∨ len < 0 ∨ (b.length : Int) < off + len then none
  else some (window b off.toNat len.toNat)

/-- `Buffer.from(b, off, len)`: like the view, but a length below 0 counts as 0. -/
def bufferFrom (b : List UInt8) (off len : Int) : Option (List UInt8) := view b off (max len 0)

/-- `b.set(src, off)`: the bytes afterwards, or a `RangeError`. -/
def set (b src : List UInt8) (off : Int) : Option (List UInt8) :=
  if off < 0 ∨ (b.length : Int) < off + src.length then none
  else some (splice b src off.toNat)

/-- A `u32` that crosses as an `i32`, as JavaScript reads it. -/
def signed (x : Nat) : Int := (BitVec.ofNat 32 x).toInt

/-- `b'` is `b` with `src` at offset `off`, and no other byte changed. -/
structure Written (b b' : List UInt8) (off : Nat) (src : List UInt8) : Prop where
  length : b'.length = b.length
  get : ∀ i, b'[i]? = if off ≤ i ∧ i < off + src.length then src[i - off]? else b[i]?

theorem signed_of_lt {x : Nat} (h : x < 2 ^ 31) : signed x = x := by
  rw [signed, BitVec.toInt_eq_toNat_cond, BitVec.toNat_ofNat, Nat.mod_eq_of_lt (by omega),
    if_pos (by omega)]

theorem signed_neg {x : Nat} (h : 2 ^ 31 ≤ x) (hx : x < 2 ^ 32) : signed x < 0 := by
  rw [signed, BitVec.toInt_eq_toNat_cond, BitVec.toNat_ofNat, Nat.mod_eq_of_lt hx,
    if_neg (by omega)]
  omega

theorem signed_eq_zero {x : Nat} (hx : x < 2 ^ 32) : signed x = 0 ↔ x = 0 := by
  by_cases h : x < 2 ^ 31
  · rw [signed_of_lt h]
    omega
  · have hneg := signed_neg (by omega) hx
    omega

theorem length_window {b : List UInt8} {off len : Nat} (h : off + len ≤ b.length) :
    (window b off len).length = len := by
  simp only [window, List.length_take, List.length_drop]
  omega

theorem length_splice {b src : List UInt8} {off : Nat} (h : off + src.length ≤ b.length) :
    (splice b src off).length = b.length := by
  simp only [splice, List.length_append, List.length_take, List.length_drop]
  omega

theorem getElem?_splice {b src : List UInt8} {off : Nat} (h : off + src.length ≤ b.length)
    (i : Nat) :
    (splice b src off)[i]? =
      if off ≤ i ∧ i < off + src.length then src[i - off]? else b[i]? := by
  have htake : (b.take off).length = off := by
    rw [List.length_take]
    omega
  simp only [splice, List.append_assoc]
  by_cases hi : i < off
  · rw [List.getElem?_append_left (by omega), List.getElem?_take, if_pos hi, if_neg (by omega)]
  · rw [List.getElem?_append_right (by omega), htake]
    by_cases hsrc : i < off + src.length
    · rw [List.getElem?_append_left (by omega), if_pos (by omega)]
    · rw [List.getElem?_append_right (by omega), List.getElem?_drop, if_neg (by omega)]
      congr 1
      omega

theorem written_splice {b src : List UInt8} {off : Nat} (h : off + src.length ≤ b.length) :
    Written b (splice b src off) off src :=
  ⟨length_splice h, getElem?_splice h⟩

theorem written_nil (b : List UInt8) (off : Nat) : Written b b off [] := by
  refine ⟨rfl, fun i => ?_⟩
  rw [if_neg]
  simp only [List.length_nil]
  omega

/-- Of one length, only one text is written. -/
theorem Written.unique {b b' src src' : List UInt8} {off : Nat} (h : Written b b' off src)
    (h' : Written b b' off src') (hlen : src.length = src'.length) : src = src' := by
  refine List.ext_getElem? fun i => ?_
  by_cases hi : i < src.length
  · have hget := h.get (off + i)
    have hget' := h'.get (off + i)
    rw [if_pos (by omega), Nat.add_sub_cancel_left] at hget hget'
    exact hget.symm.trans hget'
  · rw [List.getElem?_eq_none (by omega), List.getElem?_eq_none (by omega)]

/-- What was written is read back. -/
theorem window_splice {b src : List UInt8} {off : Nat} (h : off + src.length ≤ b.length) :
    window (splice b src off) off src.length = src := by
  have hlen : (b.take off).length = off := by
    rw [List.length_take]
    omega
  simp only [window, splice, List.append_assoc]
  rw [List.drop_left' hlen, List.take_left' rfl]

/-- The window where a part of the bytes stands. -/
theorem window_append (before after : List UInt8) {b bs : List UInt8} {off len : Nat}
    (hb : b = before ++ bs ++ after) (hoff : off = before.length) (hlen : len = bs.length) :
    window b off len = bs := by
  rw [window, hb, hoff, hlen, List.append_assoc, List.drop_left, List.take_left]

/-- From the offset on, the bytes are these. -/
def At (b : List UInt8) (off : Nat) (rest : List UInt8) : Prop := b.drop off = rest

theorem At.skip {b bs rest : List UInt8} {off : Nat} (h : At b off (bs ++ rest)) :
    At b (off + bs.length) rest := by
  rw [At, ← List.drop_drop, h, List.drop_left]

theorem At.tail {b rest : List UInt8} {off : Nat} {x : UInt8} (h : At b off (x :: rest)) :
    At b (off + 1) rest := by
  have happend : At b off ([x] ++ rest) := h
  exact happend.skip

theorem At.head {b rest : List UInt8} {off : Nat} {x : UInt8} (h : At b off (x :: rest)) :
    b[off]? = some x := by
  rw [← Nat.add_zero off, ← List.getElem?_drop, h]
  rfl

theorem at_append (before rest : List UInt8) : At (before ++ rest) before.length rest :=
  List.drop_left

/-- A fresh array, written from its start in two pieces. -/
theorem splice_splice_replicate (xs ys : List UInt8) (z : UInt8) :
    splice (splice (List.replicate (xs.length + ys.length) z) xs 0) ys xs.length = xs ++ ys := by
  simp [splice]

theorem slice_eq_window {b : List UInt8} {off len : Nat} (h : off + len ≤ b.length) :
    slice b off (off + len) = window b off len := by
  have h₁ : ¬((off : Int) < 0) := by omega
  have h₂ : ¬((off : Int) + (len : Int) < 0) := by omega
  have h₃ : ((off : Int) + (len : Int)).toNat = off + len := by omega
  simp only [slice, h₁, h₂, if_false, h₃, Int.toNat_natCast]
  rw [Nat.min_eq_left h, Nat.min_eq_left (by omega), Nat.add_sub_cancel_left]

/-- A window named by its distance from the end. -/
theorem slice_neg_eq_window {b : List UInt8} {s : Int} {off len : Nat}
    (hoff : (b.length : Int) + s = off) (hend : s + len < 0) :
    slice b s (s + len) = window b off len := by
  have h₁ : s < 0 := by omega
  have h₂ : ((b.length : Int) + (s + len)).toNat - ((b.length : Int) + s).toNat = len := by omega
  have h₃ : ((b.length : Int) + s).toNat = off := by omega
  simp only [slice, h₁, hend, if_true]
  rw [h₂, h₃]

/-- The first byte of a slice that starts from the end. -/
theorem slice_neg_head {b : List UInt8} {s : Int} (hs : s < 0) (e : Int) :
    (slice b s e)[0]? = none ∨ (slice b s e)[0]? = b[((b.length : Int) + s).toNat]? := by
  simp only [slice, hs, if_true]
  generalize (if e < 0 then _ else _ : Nat) - _ = len
  cases len with
  | zero => exact Or.inl (by simp [window])
  | succ len => exact Or.inr (by simp [window])

/-- A slice that starts from the end and stops at the start is empty. -/
theorem slice_neg_zero {b : List UInt8} {s : Int} (hs : s < 0) : slice b s 0 = [] := by
  have h₀ : ¬((0 : Int) < 0) := by omega
  simp only [slice, hs, h₀, if_true, if_false, window]
  simp

theorem view_eq_window {b : List UInt8} {off len : Nat} (h : off + len ≤ b.length) :
    view b off len = some (window b off len) := by
  rw [view, if_neg (by omega), Int.toNat_natCast, Int.toNat_natCast]

theorem set_eq_splice {b src : List UInt8} {off : Nat} (h : off + src.length ≤ b.length) :
    set b src off = some (splice b src off) := by
  rw [set, if_neg (by omega), Int.toNat_natCast]

theorem bufferFrom_eq_window {b : List UInt8} {off len : Nat} (h : off + len ≤ b.length) :
    bufferFrom b off len = some (window b off len) := by
  rw [bufferFrom, Int.max_eq_left (by omega), view_eq_window h]

theorem view_neg {b : List UInt8} {off : Int} (h : off < 0) (len : Int) : view b off len = none := by
  rw [view, if_pos (Or.inl h)]

theorem view_eq_none {b : List UInt8} {off len : Nat} (h : b.length < off + len) :
    view b off len = none := by
  rw [view, if_pos (by omega)]

theorem set_neg {b : List UInt8} {off : Int} (h : off < 0) (src : List UInt8) :
    set b src off = none := by
  rw [set, if_pos (Or.inl h)]

theorem set_eq_none {b src : List UInt8} {off : Nat} (h : b.length < off + src.length) :
    set b src off = none := by
  rw [set, if_pos (by omega)]

/-- A view that does not throw is an in-range window. -/
theorem view_eq_some {b bs : List UInt8} {off len : Int} (h : view b off len = some bs) :
    0 ≤ off ∧ 0 ≤ len ∧ off + len ≤ b.length ∧ bs = window b off.toNat len.toNat := by
  unfold view at h
  split at h
  · simp at h
  · next hr =>
      obtain rfl := Option.some.inj h
      exact ⟨by omega, by omega, by omega, rfl⟩

/-- A `set` that does not throw writes an in-range window. -/
theorem set_eq_some {b src b' : List UInt8} {off : Int} (h : set b src off = some b') :
    0 ≤ off ∧ off + src.length ≤ b.length ∧ b' = splice b src off.toNat := by
  unfold set at h
  split at h
  · simp at h
  · next hr =>
      obtain rfl := Option.some.inj h
      exact ⟨by omega, by omega, rfl⟩

/-! ### Numbers in little-endian order -/

/-- The low `k` bytes of a number. -/
def littleEndian : Nat → Nat → List UInt8
  | 0, _ => []
  | k + 1, n => UInt8.ofNat n :: littleEndian k (n / 256)

def ofLittleEndian : List UInt8 → Nat
  | [] => 0
  | b :: bs => b.toNat + 256 * ofLittleEndian bs

@[simp] theorem length_littleEndian (k n : Nat) : (littleEndian k n).length = k := by
  induction k generalizing n with
  | zero => rfl
  | succ k ih => rw [littleEndian, List.length_cons, ih]

theorem ofLittleEndian_littleEndian (k n : Nat) :
    ofLittleEndian (littleEndian k n) = n % 256 ^ k := by
  induction k generalizing n with
  | zero => simp [littleEndian, ofLittleEndian, Nat.mod_one]
  | succ k ih =>
      have hbyte : (UInt8.ofNat n).toNat = n % 256 := UInt8.toNat_ofNat'
      rw [littleEndian, ofLittleEndian, ih, hbyte, Nat.pow_succ, Nat.mul_comm (256 ^ k),
        Nat.mod_mul]

end TurbopackWasi.Lib.Bytes
