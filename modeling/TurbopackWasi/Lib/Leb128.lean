import TurbopackWasi.Lib.Bytes
import Mathlib.Data.List.Basic
import Mathlib.Data.BitVec
import Mathlib.Data.Nat.Bitwise
import Mathlib.Tactic.Ring

/-!
# TurbopackWasi.Lib.Leb128

**Unsigned LEB128 numbers, and how JavaScript reads them.**

`Encodes N bs n` is the grammar of the WebAssembly binary format for `uN`: any encoding of
`n` in at most `⌈N / 7⌉` bytes, padded ones included.

`readLoop` is the usual loop in JavaScript. Its arithmetic is on 32-bit integers, with
shift counts modulo 32, and a byte past the end of the array is `undefined`, which counts
as 0. On an encoding of a `u32` it is exact (`read_encodes`).
-/

namespace TurbopackWasi.Lib.Leb128

/-- `bs` is an encoding of the `uN` number `n`. -/
inductive Encodes : Nat → List UInt8 → Nat → Prop
  | last {N : Nat} {b : UInt8} : b.toNat < 128 → b.toNat < 2 ^ N → Encodes N [b] b.toNat
  | more {N : Nat} {b : UInt8} {bs : List UInt8} {n : Nat} : 128 ≤ b.toNat → 7 < N →
      Encodes (N - 7) bs n → Encodes N (b :: bs) (b.toNat - 128 + 128 * n)

/-- The loop `result |= (byte & 0x7f) << shift`, `shift += 7`, as long as `byte & 0x80` is set,
on the bytes from the offset on: the number, and by how much the offset grows. -/
def readLoop : List UInt8 → BitVec 32 → Nat → BitVec 32 × Nat
  | [], result, _ => (result, 1)
  | b :: bs, result, shift =>
      let result := result ||| (BitVec.ofNat 32 (b &&& 0x7f).toNat <<< (shift % 32))
      if b &&& 0x80 = 0 then (result, 1)
      else
        let rest := readLoop bs result (shift + 7)
        (rest.1, rest.2 + 1)

/-- Reads a number at an offset: the number (`result >>> 0`) and the next offset. -/
def read (u8 : List UInt8) (o : Nat) : Nat × Nat :=
  let r := readLoop (u8.drop o) 0 0
  (r.1.toNat, o + r.2)

/-! ### The loop ends -/

theorem readLoop_pos (bs : List UInt8) (result : BitVec 32) (shift : Nat) :
    0 < (readLoop bs result shift).2 := by
  cases bs with
  | nil => exact Nat.zero_lt_one
  | cons b bs =>
      unfold readLoop
      split
      · exact Nat.zero_lt_one
      · exact Nat.succ_pos _

theorem read_lt (u8 : List UInt8) (o : Nat) : o < (read u8 o).2 := by
  have hpos := readLoop_pos (u8.drop o) 0 0
  simp only [read]
  omega

/-! ### Encodings -/

variable {N n : Nat} {bs : List UInt8}

/-- An encoding as a number of more bits. -/
theorem Encodes.mono (h : Encodes N bs n) {N' : Nat} (hN : N ≤ N') : Encodes N' bs n := by
  induction h generalizing N' with
  | @last N b hb hbN =>
      exact .last hb (Nat.lt_of_lt_of_le hbN (Nat.pow_le_pow_right (by decide) hN))
  | more hb hN7 _ ih => exact .more hb (by omega) (ih (by omega))

/-- The last bytes of an encoding are an encoding. -/
theorem Encodes.drop (h : Encodes N bs n) {j : Nat} (hj : j < bs.length) :
    ∃ w, Encodes N (bs.drop j) w := by
  induction h generalizing j with
  | @last N b hb hbN =>
      obtain rfl : j = 0 := by simpa using hj
      exact ⟨_, .last hb hbN⟩
  | @more N b bs n hb hN7 hbs ih =>
      cases j with
      | zero => exact ⟨_, .more hb hN7 hbs⟩
      | succ j =>
          obtain ⟨w, hw⟩ := ih (by simpa using hj)
          exact ⟨w, hw.mono (by omega)⟩

/-- The encoding with so many bytes before the last. -/
def encode : Nat → Nat → List UInt8
  | 0, n => [.ofNat n]
  | k + 1, n => .ofNat (n % 128 + 128) :: encode k (n / 128)

@[simp] theorem length_encode (k n : Nat) : (encode k n).length = k + 1 := by
  induction k generalizing n with
  | zero => rfl
  | succ k ih => rw [encode, List.length_cons, ih]

theorem encodes_encode {k : Nat} (hk : 7 * k < N) (hn : n < 2 ^ N) (hsmall : n < 2 ^ (7 * k + 7)) :
    Encodes N (encode k n) n := by
  induction k generalizing N n with
  | zero =>
      have hbyte : (UInt8.ofNat n).toNat = n := by
        rw [UInt8.toNat_ofNat']
        exact Nat.mod_eq_of_lt (by omega)
      have hlast : Encodes N [UInt8.ofNat n] (UInt8.ofNat n).toNat := by
        refine .last ?_ ?_
        · omega
        · rwa [hbyte]
      rwa [hbyte] at hlast
  | succ k ih =>
      have hbyte : (UInt8.ofNat (n % 128 + 128)).toNat = n % 128 + 128 := by
        rw [UInt8.toNat_ofNat']
        exact Nat.mod_eq_of_lt (by omega)
      have hpow : 2 ^ N = 128 * 2 ^ (N - 7) := by
        rw [show (128 : Nat) = 2 ^ 7 from rfl, ← Nat.pow_add]
        congr 1
        omega
      have hpow' : 2 ^ (7 * (k + 1) + 7) = 128 * 2 ^ (7 * k + 7) := by
        rw [show (128 : Nat) = 2 ^ 7 from rfl, ← Nat.pow_add]
        congr 1
        omega
      have hrest : Encodes (N - 7) (encode k (n / 128)) (n / 128) :=
        ih (by omega) (by omega) (by omega)
      have hmore := Encodes.more (b := UInt8.ofNat (n % 128 + 128)) (by omega)
        (show 7 < N by omega) hrest
      rw [hbyte] at hmore
      have hvalue : n % 128 + 128 - 128 + 128 * (n / 128) = n := by omega
      rwa [hvalue] at hmore

/-- Every `u32` has an encoding of five bytes. -/
theorem encodes_five (hn : n < 2 ^ 32) : Encodes 32 (encode 4 n) n :=
  encodes_encode (by decide) hn (by omega)

theorem and_7f (b : UInt8) : (b &&& 0x7f).toNat = b.toNat % 128 := by
  rw [UInt8.toNat_and]
  exact Nat.and_two_pow_sub_one_eq_mod b.toNat 7

/-- The high bit tells whether more bytes follow. -/
theorem and_80_eq_zero (b : UInt8) : b &&& 0x80 = 0 ↔ b.toNat < 128 := by
  have hand : b.toNat &&& 2 ^ 7 = (b.toNat.testBit 7).toNat * 2 ^ 7 := Nat.and_two_pow ..
  have hbyte := b.toNat_lt
  rw [← UInt8.toNat_inj, UInt8.toNat_and]
  show b.toNat &&& 2 ^ 7 = 0 ↔ b.toNat < 128
  rw [hand, Nat.testBit_eq_decide_div_mod_eq]
  by_cases h : b.toNat / 2 ^ 7 % 2 = 1
  · simp only [h, decide_true, Bool.toNat_true]
    omega
  · simp only [h, decide_false, Bool.toNat_false]
    omega

/-- Seven more bits above those read so far. -/
theorem or_shiftLeft {r : BitVec 32} {x s : Nat} (hr : r.toNat < 2 ^ s)
    (hx : x < 2 ^ (32 - s)) (hs : s < 32) :
    (r ||| (BitVec.ofNat 32 x <<< (s % 32))).toNat = r.toNat + x * 2 ^ s := by
  have hpow : 2 ^ 32 = 2 ^ (32 - s) * 2 ^ s := by
    rw [← Nat.pow_add]
    congr 1
    omega
  have hsum : (x + 1) * 2 ^ s ≤ 2 ^ 32 := by
    rw [hpow]
    exact Nat.mul_le_mul_right _ hx
  rw [Nat.add_mul, Nat.one_mul] at hsum
  have hxs : x * 2 ^ s < 2 ^ 32 := by omega
  have hx32 : x < 2 ^ 32 :=
    Nat.lt_of_le_of_lt (Nat.le_mul_of_pos_right x (Nat.two_pow_pos s)) hxs
  rw [Nat.mod_eq_of_lt hs, BitVec.toNat_or, BitVec.toNat_shiftLeft, BitVec.toNat_ofNat,
    Nat.mod_eq_of_lt hx32, Nat.shiftLeft_eq, Nat.mod_eq_of_lt hxs, Nat.or_comm, Nat.mul_comm x,
    ← Nat.two_pow_add_eq_or_of_lt hr, Nat.add_comm]

/-- **The loop is exact** on an encoding, whatever follows it. -/
theorem readLoop_encodes (h : Encodes N bs n) (rest : List UInt8) {r : BitVec 32} {s : Nat}
    (hN : N + s = 32) (hr : r.toNat < 2 ^ s) (hpos : 0 < N) :
    (readLoop (bs ++ rest) r s).1.toNat = r.toNat + n * 2 ^ s ∧
      (readLoop (bs ++ rest) r s).2 = bs.length := by
  induction h generalizing r s with
  | @last N b hb hbN =>
      have hlast : b &&& 0x80 = 0 := (and_80_eq_zero b).mpr hb
      have hbits : (b &&& 0x7f).toNat = b.toNat := by
        rw [and_7f]
        omega
      simp only [List.cons_append, List.nil_append, readLoop, hlast, if_true, hbits,
        List.length_singleton, and_true]
      exact or_shiftLeft hr (by rwa [show 32 - s = N by omega]) (by omega)
  | @more N b bs n hb hN7 hbs ih =>
      have hmore : ¬b &&& 0x80 = 0 := by
        rw [and_80_eq_zero]
        omega
      have hbyte := b.toNat_lt
      have hbits : (b &&& 0x7f).toNat = b.toNat - 128 := by
        rw [and_7f]
        omega
      have hlow : b.toNat - 128 < 2 ^ 7 := by omega
      have hstep : (r ||| (BitVec.ofNat 32 (b.toNat - 128) <<< (s % 32))).toNat =
          r.toNat + (b.toNat - 128) * 2 ^ s := by
        refine or_shiftLeft hr ?_ (by omega)
        exact Nat.lt_of_lt_of_le hlow (Nat.pow_le_pow_right (by decide) (by omega))
      have hnext : (r ||| (BitVec.ofNat 32 (b.toNat - 128) <<< (s % 32))).toNat < 2 ^ (s + 7) := by
        have hsum : (b.toNat - 128 + 1) * 2 ^ s ≤ 2 ^ 7 * 2 ^ s := Nat.mul_le_mul_right _ hlow
        rw [hstep, Nat.pow_add, Nat.mul_comm (2 ^ s)]
        rw [Nat.add_mul, Nat.one_mul] at hsum
        omega
      obtain ⟨hvalue, hlength⟩ := ih (s := s + 7) (by omega) hnext (by omega)
      simp only [List.cons_append, readLoop, hmore, if_false, hbits, List.length_cons]
      constructor
      · rw [hvalue, hstep, Nat.pow_add]
        ring
      · rw [hlength]

/-- The number at an offset. -/
theorem read_at (h : Encodes 32 bs n) {u8 rest : List UInt8} {o : Nat}
    (hat : Bytes.At u8 o (bs ++ rest)) : read u8 o = (n, o + bs.length) := by
  obtain ⟨hvalue, hlength⟩ := readLoop_encodes h rest (r := 0) (s := 0) rfl (by simp) (by decide)
  have hdrop : u8.drop o = bs ++ rest := hat
  simp only [read, hdrop, hlength]
  rw [hvalue]
  simp

/-- A `u32` is read where it stands. -/
theorem read_encodes (h : Encodes 32 bs n) (before rest : List UInt8) {u8 : List UInt8} {o : Nat}
    (hu8 : u8 = before ++ bs ++ rest) (ho : o = before.length) :
    read u8 o = (n, o + bs.length) := by
  have hat : Bytes.At u8 o (bs ++ rest) := by
    rw [hu8, ho, List.append_assoc]
    exact Bytes.at_append before (bs ++ rest)
  exact read_at h hat

end TurbopackWasi.Lib.Leb128
