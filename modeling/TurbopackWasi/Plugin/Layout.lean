import Mathlib.Data.Fintype.Basic
import TurbopackWasi.Plugin.World

/-!
# TurbopackWasi.Plugin.Layout

**Where the words of the control block are.** The guest lays `Channel` out by the rules
of `repr(C)`; the worker computes an `Int32Array` index from the address that `signal`
hands it and from its own table of `F_*` constants.

The table is right (`offset_eq`). The base is not: `channelAddr >> 2` shifts a *signed*
32-bit number, so a block at or above 2^31 gets a negative index (`sameWords_iff`), and
every access of the worker throws.
-/

namespace TurbopackWasi.Plugin

/-! ### The guest's layout -/

/-- The type of a member: an `AtomicI32`, or an array of them. -/
inductive Ty
  | atomicI32
  | array (n : Nat)

def Ty.size : Ty → Nat
  | .atomicI32 => 4
  | .array n => 4 * n

def Ty.align : Ty → Nat
  | .atomicI32 | .array _ => 4

/-- The members of `Channel`. -/
inductive Member
  | turn
  | op
  | args
  | rets
  | dataPtr
  | dataLen
  | modulePtr
  | moduleLen
  | namesPtr
  | namesLen
  | programPtr
  | programLen
  | mark
  | commentsProxy
  | resultCode
  deriving DecidableEq, Repr

def Member.ty : Member → Ty
  | .args => .array nArgs
  | .rets => .array nRets
  | _ => .atomicI32

/-- In the order of their declaration. -/
def members : List Member :=
  [.turn, .op, .args, .rets, .dataPtr, .dataLen, .modulePtr, .moduleLen, .namesPtr, .namesLen,
    .programPtr, .programLen, .mark, .commentsProxy, .resultCode]

/-- The next multiple of an alignment. -/
def roundUp (n a : Nat) : Nat := (n + a - 1) / a * a

/-- `repr(C)`: each member comes at the next offset with its alignment. -/
def offsetFrom (m : Member) : Nat → List Member → Nat
  | off, [] => off
  | off, m' :: ms =>
      let off := roundUp off m'.ty.align
      if m' = m then off else offsetFrom m (off + m'.ty.size) ms

def Member.offset (m : Member) : Nat := offsetFrom m 0 members

/-- `align(8)`. -/
def channelAlign : Nat := 8

/-- `size_of::<Channel>()`. -/
def channelSize : Nat := roundUp (Member.offset .resultCode + 4) channelAlign

/-! ### The words of both sides -/

/-- A word of the block. -/
inductive Field
  | turn
  | op
  | args (i : Fin nArgs)
  | rets (i : Fin nRets)
  | dataPtr
  | dataLen
  | modulePtr
  | moduleLen
  | namesPtr
  | namesLen
  | programPtr
  | programLen
  | mark
  | commentsProxy
  | resultCode
  deriving DecidableEq

/-- `offset_of` the member, and of the element in it. -/
def Field.offset : Field → Nat
  | .turn => Member.offset .turn
  | .op => Member.offset .op
  | .args i => Member.offset .args + 4 * i
  | .rets i => Member.offset .rets + 4 * i
  | .dataPtr => Member.offset .dataPtr
  | .dataLen => Member.offset .dataLen
  | .modulePtr => Member.offset .modulePtr
  | .moduleLen => Member.offset .moduleLen
  | .namesPtr => Member.offset .namesPtr
  | .namesLen => Member.offset .namesLen
  | .programPtr => Member.offset .programPtr
  | .programLen => Member.offset .programLen
  | .mark => Member.offset .mark
  | .commentsProxy => Member.offset .commentsProxy
  | .resultCode => Member.offset .resultCode

def fTurn : Nat := 0

/-- The worker's `F_*` constant, and the element after it. -/
def Field.index : Field → Nat
  | .turn => fTurn
  | .op => fOp
  | .args i => fArgs + i
  | .rets i => fRets + i
  | .dataPtr => fDataPtr
  | .dataLen => fDataLen
  | .modulePtr => fModulePtr
  | .moduleLen => fModuleLen
  | .namesPtr => fNamesPtr
  | .namesLen => fNamesLen
  | .programPtr => fProgramPtr
  | .programLen => fProgramLen
  | .mark => fMark
  | .commentsProxy => fCommentsProxy
  | .resultCode => fResultCode

/-- `channelAddr >> 2`: the shift makes a signed 32-bit number of its operand. -/
def channelBase (channelAddr : Nat) : Int := ((BitVec.ofNat 32 channelAddr).sshiftRight 2).toInt

/-- The index that the worker computes. -/
def Field.at (f : Field) (channelAddr : Nat) : Int := channelBase channelAddr + f.index

/-- An element of an `Int32Array` is the four bytes at `byte`. -/
def Covers (i : Int) (byte : Nat) : Prop := 0 ≤ i ∧ 4 * i = byte

/-- Both sides mean the same words. -/
structure SameWords (a : Nat) : Prop where
  covers : ∀ f : Field, Covers (f.at a) (a + f.offset)
  distinct : ∀ f f' : Field, f.at a = f'.at a → f = f'

/-! ### The table and the base -/

/-- **The worker's table is the guest's layout.** -/
theorem offset_eq (f : Field) : f.offset = 4 * f.index := by
  cases f with
  | args i =>
      show Member.offset .args + 4 * i.val = 4 * (fArgs + i)
      have hargs : Member.offset .args = 4 * fArgs := by decide
      omega
  | rets i =>
      show Member.offset .rets + 4 * i.val = 4 * (fRets + i)
      have hrets : Member.offset .rets = 4 * fRets := by decide
      omega
  | _ => decide

/-- No two words have the same index. -/
theorem index_injective {f f' : Field} (h : f.index = f'.index) : f = f' := by
  cases f with
  | args i =>
      have hi : i.val < 8 := i.isLt
      cases f' with
      | args j =>
          have hj : i.val = j.val := by
            simp only [Field.index] at h
            omega
          rw [Fin.ext hj]
      | rets j =>
          simp only [Field.index, fArgs, fRets] at h
          omega
      | _ =>
          simp only [Field.index, fArgs, fTurn, fOp, fDataPtr, fDataLen, fModulePtr, fModuleLen,
            fNamesPtr, fNamesLen, fProgramPtr, fProgramLen, fMark, fCommentsProxy,
            fResultCode] at h
          omega
  | rets i =>
      have hi : i.val < 4 := i.isLt
      cases f' with
      | args j =>
          have hj : j.val < 8 := j.isLt
          simp only [Field.index, fArgs, fRets] at h
          omega
      | rets j =>
          have hj : i.val = j.val := by
            simp only [Field.index] at h
            omega
          rw [Fin.ext hj]
      | _ =>
          simp only [Field.index, fRets, fTurn, fOp, fDataPtr, fDataLen, fModulePtr, fModuleLen,
            fNamesPtr, fNamesLen, fProgramPtr, fProgramLen, fMark, fCommentsProxy,
            fResultCode] at h
          omega
  | _ =>
      cases f' with
      | args j =>
          have hj : j.val < 8 := j.isLt
          simp only [Field.index, fArgs, fTurn, fOp, fDataPtr, fDataLen, fModulePtr, fModuleLen,
            fNamesPtr, fNamesLen, fProgramPtr, fProgramLen, fMark, fCommentsProxy,
            fResultCode] at h
          omega
      | rets j =>
          have hj : j.val < 4 := j.isLt
          simp only [Field.index, fRets, fTurn, fOp, fDataPtr, fDataLen, fModulePtr, fModuleLen,
            fNamesPtr, fNamesLen, fProgramPtr, fProgramLen, fMark, fCommentsProxy,
            fResultCode] at h
          omega
      | _ =>
          first
            | rfl
            | exact absurd h (by decide)

theorem channelBase_eq (a : Nat) : channelBase a = (BitVec.ofNat 32 a).toInt / 4 := by
  rw [channelBase, BitVec.toInt_sshiftRight, Int.shiftRight_eq_div_pow]
  rfl

/-- Below 2^31 the shift divides. -/
theorem channelBase_of_lt {a : Nat} (h : a < 2 ^ 31) : channelBase a = a / 4 := by
  rw [channelBase_eq, toInt_ofNat h]

/-- From 2^31 on it is negative. -/
theorem channelBase_neg {a : Nat} (h : 2 ^ 31 ≤ a) (ha : a < 2 ^ 32) : channelBase a < 0 := by
  have hneg : (BitVec.ofNat 32 a).toInt < 0 := by
    rw [BitVec.toInt_eq_toNat_cond, BitVec.toNat_ofNat, Nat.mod_eq_of_lt ha, if_neg (by omega)]
    omega
  rw [channelBase_eq]
  omega

/-- **Both sides mean the same words** of a block exactly if it lies below 2^31. -/
theorem sameWords_iff {a : Nat} (haligned : channelAlign ∣ a) (hfits : a + channelSize ≤ 2 ^ 32) :
    SameWords a ↔ a < 2 ^ 31 := by
  have hsize : channelSize = 104 := by decide
  constructor
  · intro h
    by_contra hge
    have hneg := channelBase_neg (a := a) (by omega) (by omega)
    have hturn := (h.covers .turn).1
    simp only [Field.at, Field.index, fTurn] at hturn
    omega
  · intro hlt
    have hbase := channelBase_of_lt hlt
    have hwords : 4 * (a / 4) = a := by
      have h4 : 4 ∣ a := Nat.dvd_trans (by decide) haligned
      omega
    constructor
    · intro f
      have hoff := offset_eq f
      constructor
      · simp only [Field.at, hbase]
        omega
      · simp only [Field.at, hbase, hoff]
        push_cast
        omega
    · intro f f' h
      simp only [Field.at] at h
      exact index_injective (by omega)

/-- A block low in the heap. -/
theorem sameWords_low : SameWords 0x100000 :=
  (sameWords_iff (by decide) (by decide)).mpr (by decide)

/-- A block at 2^31, which a heap of up to 4 GiB may hold. -/
theorem highBlock_not_sameWords : channelAlign ∣ 2 ^ 31 ∧ 2 ^ 31 + channelSize ≤ 2 ^ 32 ∧
    ¬SameWords (2 ^ 31) := by
  refine ⟨by decide, by decide, ?_⟩
  intro h
  have hturn := (h.covers .turn).1
  exact absurd hturn (by decide)

end TurbopackWasi.Plugin
