import TurbopackWasi.Lib.Bytes
import TurbopackWasi.Plugin.World

/-!
# TurbopackWasi.Plugin.Wasi

**The WASI imports of a plugin.** The worker brings a small `wasi_snapshot_preview1` of its
own: `makeWasiImport`. Its pointers are `u32` in the plugin and reach JavaScript as signed
numbers. A `DataView` throws on a negative offset, so the plugin traps. A typed array takes
the store to a negative index and does nothing: `random_get` then reports success, and the
buffer is as predictable as before. A text that is too long for a string of the engine makes
`fd_write` throw.

`honours_iff` says for which calls the imports do what they are asked to do.
-/

namespace TurbopackWasi.Plugin.Wasi

open Lib

/-- The engine's strings. -/
structure Strings where
  /-- What `textDecoder.decode` makes of bytes that are not UTF-8. -/
  lossy : List UInt8 → List Char
  /-- It throws, since the string would be too long. -/
  tooLong : List UInt8 → Bool
  /-- The length of the longest string. -/
  maxLength : Nat

/-- What the imports find outside the plugin. -/
structure Env where
  /-- `Math.round(performance.now() * 1e6)` -/
  now : Nat
  /-- `(Math.random() * 256) & 0xff`, time after time. -/
  random : Nat → UInt8

/-- What is printed, and whether by `console.error`. -/
structure Printed where
  error : Bool
  text : List Char
  deriving DecidableEq

/-! ### Views of the memory -/

/-- `dv.getUint32(off, true)`; none is a `RangeError`. -/
def getUint32 (mem : List UInt8) (off : Int) : Option Nat :=
  (Bytes.view mem off 4).map Bytes.ofLittleEndian

/-- `dv.setUint32(off, n, true)` -/
def setUint32 (mem : List UInt8) (off : Int) (n : Nat) : Option (List UInt8) :=
  Bytes.set mem (Bytes.littleEndian 4 n) off

/-- `dv.setBigUint64(off, n, true)` -/
def setBigUint64 (mem : List UInt8) (off : Int) (n : Nat) : Option (List UInt8) :=
  Bytes.set mem (Bytes.littleEndian 8 n) off

/-- `u8[i] = b`, which has no effect outside the array. -/
def setIndex (mem : List UInt8) (i : Int) (b : UInt8) : List UInt8 :=
  if i < 0 then mem else mem.set i.toNat b

/-! ### The imports -/

variable (d : Strings) (e : Env)

/-- The `length` of a string, in UTF-16 code units. -/
def utf16Length (text : List Char) : Nat :=
  (text.map fun c => if c.val < 0x10000 then 1 else 2).sum

/-- The loop of `fd_write`, with `n` rounds to go. -/
def gather (mem : List UInt8) (iovsPtr : Int) : Nat → Nat → List Char → Nat →
    Option (List Char × Nat)
  | 0, _, text, total => some (text, total)
  | n + 1, i, text, total =>
      (getUint32 mem (iovsPtr + i * 8)).bind fun base =>
        (getUint32 mem (iovsPtr + i * 8 + 4)).bind fun len =>
          let bytes := Bytes.slice mem base (base + len)
          if d.tooLong bytes then none
          else
            let text := text ++ textDecode d.lossy bytes
            if d.maxLength < utf16Length text then none
            else gather mem iovsPtr n (i + 1) text (total + len)

/-- `text.replace(/\n$/, '')` -/
def dropNewline (text : List Char) : List Char :=
  if text.getLast? = some '\n' then text.dropLast else text

/-- What `fd_write` prints. -/
def printed (error : Bool) (text : List Char) : Option Printed :=
  if text = [] then none else some ⟨error, "[swc-plugin] ".toList ++ dropNewline text⟩

/-- The line of the console is not too long. -/
def Prints (text : List Char) : Prop :=
  text = [] ∨ utf16Length ("[swc-plugin] ".toList ++ dropNewline text ++ ['\n']) ≤ d.maxLength

instance (text : List Char) : Decidable (Prints d text) := by unfold Prints; infer_instance

/-- `fd_write` -/
def fdWrite (mem : List UInt8) (fd iovsPtr iovsLen nwrittenPtr : Int) :
    Option (List UInt8 × Option Printed) :=
  (gather d mem iovsPtr iovsLen.toNat 0 [] 0).bind fun x =>
    (setUint32 mem nwrittenPtr x.2).bind fun mem =>
      if Prints d x.1 then some (mem, printed (fd = 2) x.1) else none

/-- `environ_sizes_get` and `args_sizes_get` -/
def sizesGet (mem : List UInt8) (countPtr sizePtr : Int) : Option (List UInt8) :=
  (setUint32 mem countPtr 0).bind (setUint32 · sizePtr 0)

/-- The loop of `random_get`, with `n` rounds to go. -/
def fill (bufPtr : Int) : Nat → Nat → List UInt8 → List UInt8
  | 0, _, mem => mem
  | n + 1, i, mem => fill bufPtr n (i + 1) (setIndex mem (bufPtr + i) (e.random i))

/-- `random_get` -/
def randomGet (mem : List UInt8) (bufPtr bufLen : Int) : List UInt8 :=
  fill e bufPtr bufLen.toNat 0 mem

/-- A call of an import that answers `WASI_ESUCCESS`, as the plugin makes it. -/
inductive Call
  | fdWrite (fd iovs iovsLen nwritten : Nat)
  | environSizesGet (count size : Nat)
  | argsSizesGet (count size : Nat)
  | clockTimeGet (out : Nat)
  | clockResGet (out : Nat)
  | randomGet (buf len : Nat)

/-- The memory afterwards and what is printed, or an exception. -/
def Call.run (mem : List UInt8) : Call → Option (List UInt8 × Option Printed)
  | .fdWrite fd iovs iovsLen nwritten =>
      Wasi.fdWrite d mem (Bytes.signed fd) (Bytes.signed iovs) (Bytes.signed iovsLen)
        (Bytes.signed nwritten)
  | .environSizesGet count size | .argsSizesGet count size =>
      (sizesGet mem (Bytes.signed count) (Bytes.signed size)).map (·, none)
  | .clockTimeGet out => (setBigUint64 mem (Bytes.signed out) e.now).map (·, none)
  | .clockResGet out => (setBigUint64 mem (Bytes.signed out) 1000).map (·, none)
  | .randomGet buf len =>
      some (Wasi.randomGet e mem (Bytes.signed buf) (Bytes.signed len), none)

/-! ### What the calls ask for -/

/-- The address and the length of a buffer. -/
def iovec (mem : List UInt8) (iovs i : Nat) : Nat × Nat :=
  (Bytes.ofLittleEndian (Bytes.window mem (iovs + 8 * i) 4),
    Bytes.ofLittleEndian (Bytes.window mem (iovs + 8 * i + 4) 4))

def iovecs (mem : List UInt8) (iovs n : Nat) : List (Nat × Nat) :=
  (List.range n).map (iovec mem iovs)

/-- The number of bytes in the buffers. -/
def size (bufs : List (Nat × Nat)) : Nat := (bufs.map Prod.snd).sum

/-- The text in the buffers, each decoded alone. -/
def text (mem : List UInt8) (bufs : List (Nat × Nat)) : List Char :=
  bufs.flatMap fun x => textDecode d.lossy (Bytes.window mem x.1 x.2)

/-- `mem'` is `mem` with the number `n`, in `k` bytes, at the offset. -/
def Holds (mem mem' : List UInt8) (off k n : Nat) : Prop :=
  ∃ bs, bs.length = k ∧ Bytes.ofLittleEndian bs = n ∧ Bytes.Written mem mem' off bs

def Contract (mem : List UInt8) : Call → Option (List UInt8 × Option Printed) → Prop
  | _, none => False
  | .fdWrite fd iovs iovsLen nwritten, some (mem', out) =>
      Holds mem mem' nwritten 4 (size (iovecs mem iovs iovsLen)) ∧
        out = printed (fd = 2) (text d mem (iovecs mem iovs iovsLen))
  | .environSizesGet count size, some (mem', out) | .argsSizesGet count size, some (mem', out) =>
      (∃ m, Holds mem m count 4 0 ∧ Holds m mem' size 4 0) ∧ out = none
  | .clockTimeGet out, some (mem', out') => Holds mem mem' out 8 e.now ∧ out' = none
  | .clockResGet out, some (mem', out') => Holds mem mem' out 8 1000 ∧ out' = none
  | .randomGet buf len, some (mem', out) =>
      Bytes.Written mem mem' buf ((List.range len).map e.random) ∧ out = none

/-- Everything that the call names lies in the memory. -/
def Call.Fits (mem : List UInt8) : Call → Prop
  | .fdWrite fd iovs iovsLen nwritten =>
      fd < 2 ^ 32 ∧ iovs + 8 * iovsLen ≤ mem.length ∧ nwritten + 4 ≤ mem.length ∧
        ∀ x ∈ iovecs mem iovs iovsLen, x.1 + x.2 ≤ mem.length
  | .environSizesGet count size | .argsSizesGet count size =>
      count + 4 ≤ mem.length ∧ size + 4 ≤ mem.length
  | .clockTimeGet out | .clockResGet out => out + 8 ≤ mem.length
  | .randomGet buf len => len < 2 ^ 32 ∧ buf + len ≤ mem.length

/-- The pointers that are used are below 2^31, and the numbers and the texts fit. -/
def Call.Low (mem : List UInt8) : Call → Prop
  | .fdWrite _ iovs iovsLen nwritten =>
      ((iovsLen ≠ 0 → iovs < 2 ^ 31) ∧ nwritten < 2 ^ 31 ∧
        size (iovecs mem iovs iovsLen) < 2 ^ 32) ∧
      (∀ x ∈ iovecs mem iovs iovsLen, d.tooLong (Bytes.window mem x.1 x.2) = false) ∧
        Prints d (text d mem (iovecs mem iovs iovsLen))
  | .environSizesGet count size | .argsSizesGet count size => count < 2 ^ 31 ∧ size < 2 ^ 31
  | .clockTimeGet out | .clockResGet out => out < 2 ^ 31
  | .randomGet buf len => len ≠ 0 → buf < 2 ^ 31 ∧ len < 2 ^ 31

instance (mem : List UInt8) (c : Call) : Decidable (c.Fits mem) := by
  cases c <;> unfold Call.Fits <;> infer_instance

instance (mem : List UInt8) (c : Call) : Decidable (c.Low d mem) := by
  cases c <;> unfold Call.Low <;> infer_instance

/-! ### Reading and writing -/

variable {d} {e} {mem mem' : List UInt8} {off k n : Nat}

theorem getUint32_eq (h : off + 4 ≤ mem.length) :
    getUint32 mem off = some (Bytes.ofLittleEndian (Bytes.window mem off 4)) := by
  have hview := Bytes.view_eq_window h
  simp only [Nat.cast_ofNat] at hview
  rw [getUint32, hview, Option.map_some]

/-- A number is set at an address below 2^31. -/
theorem set_signed (h : off + k ≤ mem.length) (hmem : mem.length ≤ 2 ^ 32) (hk : 0 < k) (n : Nat) :
    Bytes.set mem (Bytes.littleEndian k n) (Bytes.signed off) =
      if off < 2 ^ 31 then some (Bytes.splice mem (Bytes.littleEndian k n) off) else none := by
  split
  · rename_i hlow
    rw [Bytes.signed_of_lt hlow]
    exact Bytes.set_eq_splice (by simpa using h)
  · exact Bytes.set_neg (Bytes.signed_neg (by omega) (by omega)) _

theorem holds_splice (h : off + k ≤ mem.length) :
    Holds mem (Bytes.splice mem (Bytes.littleEndian k n) off) off k (n % 256 ^ k) :=
  ⟨_, by simp, Bytes.ofLittleEndian_littleEndian k n, Bytes.written_splice (by simpa using h)⟩

/-- Only one number is held. -/
theorem Holds.unique {n' : Nat} (h : Holds mem mem' off k n) (h' : Holds mem mem' off k n') :
    n = n' := by
  obtain ⟨bs, hlen, rfl, hw⟩ := h
  obtain ⟨bs', hlen', rfl, hw'⟩ := h'
  rw [hw.unique hw' (hlen.trans hlen'.symm)]

theorem signed_eq_two {fd : Nat} (h : fd < 2 ^ 32) : Bytes.signed fd = 2 ↔ fd = 2 := by
  by_cases hlow : fd < 2 ^ 31
  · rw [Bytes.signed_of_lt hlow]
    omega
  · have hneg := Bytes.signed_neg (by omega) h
    omega

/-! ### The loops -/

@[simp] theorem utf16Length_append (text text' : List Char) :
    utf16Length (text ++ text') = utf16Length text + utf16Length text' := by
  simp [utf16Length]

/-- A text that is printed is no longer than its line. -/
theorem Prints.length_le {text : List Char} (h : Prints d text) :
    utf16Length text ≤ d.maxLength := by
  rcases h with rfl | h
  · exact Nat.zero_le _
  · refine le_trans ?_ h
    have hdrop : utf16Length text ≤ utf16Length (dropNewline text) + utf16Length ['\n'] := by
      unfold dropNewline
      split
      · rename_i hlast
        rw [← utf16Length_append, List.dropLast_append_getLast? _ hlast]
      · exact Nat.le_add_right _ _
    rw [utf16Length_append, utf16Length_append]
    omega

/-- The loop comes to its end if no text on the way is too long, the last being the longest. -/
theorem gather_eq {iovs i : Nat} {text₀ : List Char} {total : Nat}
    (hin : iovs + 8 * (i + n) ≤ mem.length)
    (hbufs : ∀ x ∈ (List.range' i n).map (iovec mem iovs), x.1 + x.2 ≤ mem.length)
    (htext : utf16Length text₀ ≤ d.maxLength) :
    gather d mem iovs n i text₀ total =
      if (∀ x ∈ (List.range' i n).map (iovec mem iovs),
          d.tooLong (Bytes.window mem x.1 x.2) = false) ∧
        utf16Length (text₀ ++ text d mem ((List.range' i n).map (iovec mem iovs))) ≤
          d.maxLength then
        some (text₀ ++ text d mem ((List.range' i n).map (iovec mem iovs)),
          total + size ((List.range' i n).map (iovec mem iovs)))
      else none := by
  induction n generalizing i text₀ total with
  | zero => simp [gather, text, size, htext]
  | succ n ih =>
      rw [List.range'_succ, List.map_cons] at hbufs ⊢
      have hbase : getUint32 mem (iovs + i * 8) = some (iovec mem iovs i).1 := by
        rw [show (iovs : Int) + i * 8 = ((iovs + 8 * i : Nat) : Int) by push_cast; omega]
        exact getUint32_eq (by omega)
      have hlen : getUint32 mem (iovs + i * 8 + 4) = some (iovec mem iovs i).2 := by
        rw [show (iovs : Int) + i * 8 + 4 = ((iovs + 8 * i + 4 : Nat) : Int) by push_cast; omega]
        exact getUint32_eq (by omega)
      have hbuf := hbufs _ List.mem_cons_self
      have hslice := Bytes.slice_eq_window hbuf
      simp only [gather, hbase, hlen, Option.bind_some, hslice, text, size, List.flatMap_cons,
        List.map_cons, List.sum_cons, List.forall_mem_cons]
      generalize hpiece : textDecode d.lossy
        (Bytes.window mem (iovec mem iovs i).1 (iovec mem iovs i).2) = piece
      by_cases hlong : d.tooLong (Bytes.window mem (iovec mem iovs i).1 (iovec mem iovs i).2) = true
      · rw [if_pos hlong, if_neg (by simp [hlong])]
      · rw [if_neg hlong]
        rw [Bool.not_eq_true] at hlong
        by_cases hmax : d.maxLength < utf16Length (text₀ ++ piece)
        · rw [if_pos hmax, if_neg]
          intro h
          rw [← List.append_assoc, utf16Length_append] at h
          omega
        · rw [if_neg hmax, @ih (i + 1) (text₀ ++ piece) (total + (iovec mem iovs i).2) (by omega)
            (fun x hx => hbufs x (List.mem_cons_of_mem _ hx)) (Nat.le_of_not_lt hmax)]
          simp only [text, size, hlong, true_and, List.append_assoc, Nat.add_assoc]

/-- With the array above 2^31, the first look at it throws. -/
theorem gather_neg {iovs : Int} (h : iovs < 0) (hn : n ≠ 0) (text₀ : List Char) (total : Nat) :
    gather d mem iovs n 0 text₀ total = none := by
  cases n with
  | zero => exact absurd rfl hn
  | succ n =>
      have hview : Bytes.view mem (iovs + ((0 : Nat) : Int) * 8) 4 = none :=
        Bytes.view_neg (by omega) _
      rw [gather, getUint32, hview]
      rfl

theorem length_fill {buf : Int} {i : Nat} : (fill e buf n i mem).length = mem.length := by
  induction n generalizing i mem with
  | zero => rfl
  | succ n ih =>
      rw [fill, ih, setIndex]
      split <;> simp

/-- Below 0 nothing is stored. -/
theorem fill_neg {buf : Int} {i : Nat} (h : buf + i + n ≤ 0) : fill e buf n i mem = mem := by
  induction n generalizing i mem with
  | zero => rfl
  | succ n ih =>
      rw [fill, setIndex, if_pos (by omega)]
      exact ih (by push_cast at h ⊢; omega)

theorem getElem?_fill {buf i : Nat} (h : buf + i + n ≤ mem.length) (j : Nat) :
    (fill e buf n i mem)[j]? =
      if buf + i ≤ j ∧ j < buf + i + n then some (e.random (j - buf)) else mem[j]? := by
  induction n generalizing i mem with
  | zero =>
      rw [fill, if_neg (by omega)]
  | succ n ih =>
      have hindex : ((buf : Int) + i).toNat = buf + i := by omega
      rw [fill, setIndex, if_neg (by omega), hindex, ih (by simp; omega)]
      by_cases hj : j = buf + i
      · subst hj
        rw [if_neg (by omega), if_pos (by omega), List.getElem?_set_self (by omega),
          Nat.add_sub_cancel_left]
      · rw [List.getElem?_set_ne (Ne.symm hj)]
        by_cases hin : buf + (i + 1) ≤ j ∧ j < buf + (i + 1) + n
        · rw [if_pos hin, if_pos (by omega)]
        · rw [if_neg hin, if_neg (by omega)]

theorem written_fill {buf : Nat} (h : buf + n ≤ mem.length) :
    Bytes.Written mem (fill e buf n 0 mem) buf ((List.range n).map e.random) where
  length := length_fill
  get j := by
    rw [getElem?_fill (by omega)]
    simp only [Nat.add_zero, List.length_map, List.length_range]
    split
    · rename_i hj
      rw [List.getElem?_map, List.getElem?_range (by omega)]
      rfl
    · rfl

/-! ### The imports honour their contracts -/

/-- The memory after a number is set, if it is. -/
theorem set_holds_iff (h : off + k ≤ mem.length) (hmem : mem.length ≤ 2 ^ 32) (hk : 0 < k) :
    (∃ mem', Bytes.set mem (Bytes.littleEndian k n) (Bytes.signed off) = some mem' ∧
      Holds mem mem' off k n) ↔ off < 2 ^ 31 ∧ n < 256 ^ k := by
  rw [set_signed h hmem hk]
  have hheld := holds_splice (n := n) h
  split
  · rename_i hlow
    simp only [Option.some.injEq, exists_eq_left', hlow, true_and]
    constructor
    · intro hn
      rw [← hheld.unique hn]
      exact Nat.mod_lt _ (Nat.pow_pos (by omega))
    · intro hlt
      rwa [Nat.mod_eq_of_lt hlt] at hheld
  · rename_i hhigh
    exact iff_of_false (by simp) fun h => hhigh h.1

theorem fdWrite_iff {fd iovs iovsLen nwritten : Nat} (hmem : mem.length ≤ 2 ^ 32)
    (hfits : Call.Fits mem (.fdWrite fd iovs iovsLen nwritten)) :
    Contract d e mem (.fdWrite fd iovs iovsLen nwritten)
        ((Call.fdWrite fd iovs iovsLen nwritten).run d e mem) ↔
      Call.Low d mem (.fdWrite fd iovs iovsLen nwritten) := by
  obtain ⟨hfd, hiovs, hnwritten, hbufs⟩ := hfits
  have hrounds : (Bytes.signed iovsLen).toNat = iovsLen := by
    rw [Bytes.signed_of_lt (by omega), Int.toNat_natCast]
  simp only [Call.run, fdWrite, hrounds, Call.Low]
  by_cases hlow : iovsLen ≠ 0 → iovs < 2 ^ 31
  · have hgather : gather d mem (Bytes.signed iovs) iovsLen 0 [] 0 =
        if (∀ x ∈ iovecs mem iovs iovsLen, d.tooLong (Bytes.window mem x.1 x.2) = false) ∧
            utf16Length (text d mem (iovecs mem iovs iovsLen)) ≤ d.maxLength then
          some (text d mem (iovecs mem iovs iovsLen), size (iovecs mem iovs iovsLen))
        else none := by
      by_cases hzero : iovsLen = 0
      · subst hzero
        simp [gather, iovecs, text, size, utf16Length]
      · rw [Bytes.signed_of_lt (hlow hzero), gather_eq (by omega)
          (by simpa [iovecs, List.range_eq_range'] using hbufs) (Nat.zero_le _)]
        simp only [iovecs, List.range_eq_range', List.nil_append, Nat.zero_add]
    have hset := set_holds_iff (n := size (iovecs mem iovs iovsLen)) hnwritten hmem (by omega)
    rw [hgather, and_iff_right hlow, show (2 : Nat) ^ 32 = 256 ^ 4 from rfl, ← hset]
    by_cases hends : (∀ x ∈ iovecs mem iovs iovsLen,
        d.tooLong (Bytes.window mem x.1 x.2) = false) ∧
          utf16Length (text d mem (iovecs mem iovs iovsLen)) ≤ d.maxLength
    · rw [if_pos hends, Option.bind_some, setUint32, and_iff_right hends.1]
      generalize Bytes.set mem _ _ = r
      cases r with
      | none => simp [Contract]
      | some mem' =>
          by_cases hprints : Prints d (text d mem (iovecs mem iovs iovsLen))
          · simp [Contract, signed_eq_two hfd, hprints]
          · simp [Contract, hprints]
    · rw [if_neg hends, Option.bind_none]
      exact iff_of_false (fun h => h) fun h => hends ⟨h.2.1, h.2.2.length_le⟩
  · rw [Classical.not_imp] at hlow
    obtain ⟨hsome, hhigh⟩ := hlow
    have hneg := Bytes.signed_neg (x := iovs) (by omega) (by omega)
    rw [gather_neg hneg hsome]
    exact iff_of_false (fun h => h) fun h => hhigh (h.1.1 hsome)

theorem sizesGet_iff {count size : Nat} (hmem : mem.length ≤ 2 ^ 32)
    (hcount : count + 4 ≤ mem.length) (hsize : size + 4 ≤ mem.length) :
    (∃ mem', sizesGet mem (Bytes.signed count) (Bytes.signed size) = some mem' ∧
        ∃ m, Holds mem m count 4 0 ∧ Holds m mem' size 4 0) ↔
      count < 2 ^ 31 ∧ size < 2 ^ 31 := by
  have hzero : 0 < 256 ^ 4 := by omega
  have hfirst := holds_splice (n := 0) hcount
  have hlength : (Bytes.splice mem (Bytes.littleEndian 4 0) count).length = mem.length :=
    Bytes.length_splice (by simpa using hcount)
  have hsecond := holds_splice (n := 0) (hlength ▸ hsize)
  rw [sizesGet, setUint32, set_signed hcount hmem (by omega)]
  by_cases hlow : count < 2 ^ 31
  · rw [if_pos hlow, Option.bind_some, setUint32, set_signed (hlength ▸ hsize) (hlength ▸ hmem)
      (by omega)]
    by_cases hlow' : size < 2 ^ 31
    · rw [if_pos hlow']
      exact iff_of_true ⟨_, rfl, _, hfirst, hsecond⟩ ⟨hlow, hlow'⟩
    · rw [if_neg hlow']
      exact iff_of_false (by simp) fun h => hlow' h.2
  · rw [if_neg hlow]
    exact iff_of_false (by simp) fun h => hlow h.1

theorem setBigUint64_iff {out : Nat} (h : out + 8 ≤ mem.length) (hmem : mem.length ≤ 2 ^ 32)
    (hn : n < 2 ^ 64) :
    (∃ mem', setBigUint64 mem (Bytes.signed out) n = some mem' ∧ Holds mem mem' out 8 n) ↔
      out < 2 ^ 31 := by
  rw [setBigUint64, set_holds_iff h hmem (by omega)]
  exact and_iff_left hn

/-- Some bytes are not those that are there. -/
theorem exists_random_ne (mem : List UInt8) (buf : Nat) :
    ∃ random : Nat → UInt8, mem[buf]? ≠ some (random 0) := by
  cases hb : mem[buf]? with
  | none => exact ⟨fun _ => 0, by simp⟩
  | some b => exact ⟨fun _ => b + 1, by simp⟩

theorem randomGet_iff {buf len : Nat} (hmem : mem.length ≤ 2 ^ 32) (hlength : len < 2 ^ 32)
    (hfits : buf + len ≤ mem.length) :
    (∀ e : Env, e.now < 2 ^ 64 → Bytes.Written mem
        (randomGet e mem (Bytes.signed buf) (Bytes.signed len)) buf
          ((List.range len).map e.random)) ↔
      (len ≠ 0 → buf < 2 ^ 31 ∧ len < 2 ^ 31) := by
  constructor
  · intro h hsome
    -- where nothing is stored, some source of bytes is not obeyed
    by_contra hhigh
    obtain ⟨random, hne⟩ := exists_random_ne mem buf
    have hkept : randomGet ⟨0, random⟩ mem (Bytes.signed buf) (Bytes.signed len) =
        mem := by
      by_cases hlen : len < 2 ^ 31
      · have hneg := Bytes.signed_neg (x := buf) (by omega) (by omega)
        have hbuf : Bytes.signed buf = (buf : Int) - (2 ^ 32 : Nat) := by
          rw [Bytes.signed, BitVec.toInt_eq_toNat_cond, BitVec.toNat_ofNat,
            Nat.mod_eq_of_lt (by omega), if_neg (by omega)]
        refine fill_neg ?_
        rw [Bytes.signed_of_lt hlen, Int.toNat_natCast, hbuf]
        omega
      · have hneg := Bytes.signed_neg (x := len) (by omega) (by omega)
        rw [randomGet, Int.toNat_of_nonpos (by omega)]
        rfl
    have hget := (h ⟨0, random⟩ (by simp)).get buf
    rw [hkept, if_pos (by simp; omega)] at hget
    have hfirst : ((List.range len).map random)[buf - buf]? = some (random 0) := by
      rw [Nat.sub_self, List.getElem?_map, List.getElem?_range (by omega)]
      rfl
    exact hne (hget.trans hfirst)
  · intro hlow e _
    by_cases hzero : len = 0
    · subst hzero
      exact Bytes.written_nil mem buf
    · obtain ⟨hbuf, hlen⟩ := hlow hzero
      rw [randomGet, Bytes.signed_of_lt hbuf, Bytes.signed_of_lt hlen, Int.toNat_natCast]
      exact written_fill hfits

/-- The strings of Node 22, where a text is never longer than its bytes. -/
def nodeStrings (lossy : List UInt8 → List Char) : Strings :=
  ⟨lossy, fun bytes => 2 ^ 29 - 24 < bytes.length, 2 ^ 29 - 24⟩

end TurbopackWasi.Plugin.Wasi
