import Mathlib.Data.BitVec

/-!
# TurbopackWasi.Plugin.Channel

The control block that the guest transform thread `T` and the plugin driver
worker `P` share: the `Channel` of `swc-plugin-host-bridge`, with its `TURN_*` and
`OP_*` constants and the `F_*` word indices by which `swc-plugin-worker.mjs`
addresses the same block.

A word is an `i32` of the shared linear memory. The Rust side reads it as `u32`
or `i32` (`as` casts) and the JavaScript side stores through `| 0`, which all keep
the 32 bits; only a JavaScript *read* fixes the signed reading, `BitVec.toInt`.
-/

namespace TurbopackWasi.Plugin

/-- An `i32` word. -/
abbrev Word := BitVec 32

/-! ### Whose turn it is -/

/-- The embedder's plugin driver worker. -/
def turnP : Word := 0

/-- The guest transform thread. -/
def turnT : Word := 1

/-! ### Requests and answers -/

/-- T→P: instantiate the module, run the core-diag export. -/
def opInit : Word := 1
/-- T→P: run `__transform_plugin_process_impl`. -/
def opTransform : Word := 2
/-- T→P: drop the instance, stop servicing this channel. -/
def opClose : Word := 3
/-- P→T: run env import `args[0]` with `args[1..]`. -/
def opImport : Word := 10
/-- T→P: `__alloc(args[0])` in plugin memory. -/
def opCallerAlloc : Word := 20
/-- T→P: `__free(args[0], args[1])`. -/
def opCallerFree : Word := 21
/-- T→P: copy plugin memory into the guest window `data_ptr`, `data_len`. -/
def opCallerRead : Word := 22
/-- T→P: copy the guest window `data_ptr`, `data_len` into plugin memory. -/
def opCallerWrite : Word := 23
/-- Either direction: the previous request completed, see `rets`. -/
def opDone : Word := 30
/-- Either direction: the request failed. -/
def opError : Word := 31

/-- The number of `args` words. -/
def nArgs : Nat := 8

/-- The number of `rets` words. -/
def nRets : Nat := 4

/-! ### Word indices relative to the channel base

`turn` is word `0`. It is a field of its own in `Channel`, since the two parties
synchronise on it and never touch it in straight-line code. -/

def fOp : Nat := 1
/-- `args[i]` is word `fArgs + i`. -/
def fArgs : Nat := 2
/-- `rets[i]` is word `fRets + i`. -/
def fRets : Nat := 10
def fDataPtr : Nat := 14
def fDataLen : Nat := 15
def fModulePtr : Nat := 16
def fModuleLen : Nat := 17
def fNamesPtr : Nat := 18
def fNamesLen : Nat := 19
def fProgramPtr : Nat := 20
def fProgramLen : Nat := 21
def fMark : Nat := 22
def fCommentsProxy : Nat := 23
def fResultCode : Nat := 24

/-- The control block: the rendezvous word, and the other words by index. -/
structure Channel where
  turn : Word
  words : Nat → Word

/-- `Channel::new`: it is the guest's turn and every other word is zero. -/
def Channel.new : Channel := ⟨turnT, fun _ => 0⟩

@[simp] theorem turnP_ne_turnT : turnP ≠ turnT := by decide
@[simp] theorem turnT_ne_turnP : turnT ≠ turnP := by decide

end TurbopackWasi.Plugin
