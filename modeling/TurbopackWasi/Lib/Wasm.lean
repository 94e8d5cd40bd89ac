import TurbopackWasi.Lib.Leb128

/-!
# TurbopackWasi.Lib.Wasm

**The grammar of a WebAssembly binary**, as far as its sections. A section is its id, its
size and its contents; the contents of a custom section (id 0) start with its name. Sizes
and lengths are `u32` in any encoding.
-/

namespace TurbopackWasi.Lib.Wasm

/-- `utf8(name)`. -/
def utf8 (cs : List Char) : List UInt8 := cs.flatMap String.utf8EncodeChar

inductive Section
  | custom (name : List Char) (payload : List UInt8)
  | other (id : UInt8) (contents : List UInt8)

/-- A vector of bytes: its length, and the bytes. -/
def EncodesBytes (bs contents : List UInt8) : Prop :=
  ∃ size, Leb128.Encodes 32 size contents.length ∧ bs = size ++ contents

/-- The bytes of a section. -/
inductive EncodesSection : List UInt8 → Section → Prop
  | custom {bs bs' : List UInt8} {name : List Char} {payload : List UInt8} :
      EncodesBytes bs' (utf8 name) → EncodesBytes bs (bs' ++ payload) →
      EncodesSection (0 :: bs) (.custom name payload)
  | other {id : UInt8} {bs contents : List UInt8} : id ≠ 0 → EncodesBytes bs contents →
      EncodesSection (id :: bs) (.other id contents)

inductive EncodesSections : List UInt8 → List Section → Prop
  | nil : EncodesSections [] []
  | cons {bs bs' : List UInt8} {x : Section} {xs : List Section} : EncodesSection bs x →
      EncodesSections bs' xs → EncodesSections (bs ++ bs') (x :: xs)

/-- A module: the magic number and the version, and the sections. -/
def EncodesModule (bs : List UInt8) (xs : List Section) : Prop :=
  ∃ bs', EncodesSections bs' xs ∧ bs = [0x00, 0x61, 0x73, 0x6d, 0x01, 0x00, 0x00, 0x00] ++ bs'

/-- The payloads of the custom sections of a name, in order. -/
def payloads (name : List Char) (xs : List Section) : List (List UInt8) :=
  xs.filterMap fun
    | .custom name' payload => if name' = name then some payload else none
    | .other _ _ => none

/-- All of a custom section that comes in pieces, if there is one. -/
def customSection (name : List Char) (xs : List Section) : Option (List UInt8) :=
  match payloads name xs with
  | [] => none
  | ps => some ps.flatten

theorem EncodesSection.length_pos {bs : List UInt8} {x : Section} (h : EncodesSection bs x) :
    0 < bs.length := by
  cases h with
  | custom => simp
  | other => simp

/-- There are at least as many bytes as sections. -/
theorem EncodesSections.length_le {bs : List UInt8} {xs : List Section}
    (h : EncodesSections bs xs) : xs.length ≤ bs.length := by
  induction h with
  | nil => exact Nat.le_refl 0
  | cons hx hxs ih =>
      have hpos := hx.length_pos
      rw [List.length_append, List.length_cons]
      omega

/-- The sections before one, the section, and those after it. -/
theorem EncodesSections.eq_append {bs : List UInt8} {xs ys : List Section} {y : Section}
    (h : EncodesSections bs (xs ++ y :: ys)) :
    ∃ bs₁ bs₂ bs₃, bs = bs₁ ++ (bs₂ ++ bs₃) ∧ EncodesSections bs₁ xs ∧ EncodesSection bs₂ y ∧
      EncodesSections bs₃ ys := by
  induction xs generalizing bs with
  | nil =>
      cases h with
      | @cons bs₂ bs₃ _ _ hx hxs => exact ⟨[], bs₂, bs₃, rfl, .nil, hx, hxs⟩
  | cons x xs ih =>
      cases h with
      | @cons bs₀ bs' _ _ hx hxs =>
          obtain ⟨bs₁, bs₂, bs₃, rfl, h₁, h₂, h₃⟩ := ih hxs
          exact ⟨bs₀ ++ bs₁, bs₂, bs₃, by simp, .cons hx h₁, h₂, h₃⟩

theorem payloads_append (name : List Char) (xs ys : List Section) :
    payloads name (xs ++ ys) = payloads name xs ++ payloads name ys :=
  List.filterMap_append

/-- A further piece goes to the end. -/
theorem customSection_concat_custom (xs : List Section) (name : List Char) (payload : List UInt8) :
    customSection name (xs ++ [.custom name payload]) =
      some ((customSection name xs).getD [] ++ payload) := by
  rw [customSection, customSection, payloads_append]
  have hlast : payloads name [.custom name payload] = [payload] := by simp [payloads]
  rw [hlast]
  cases hps : payloads name xs with
  | nil => simp
  | cons p ps => simp

theorem customSection_concat_ne {name name' : List Char} (h : name' ≠ name) (xs : List Section)
    (payload : List UInt8) :
    customSection name (xs ++ [.custom name' payload]) = customSection name xs := by
  have hlast : payloads name [.custom name' payload] = [] := by simp [payloads, h]
  rw [customSection, customSection, payloads_append, hlast, List.append_nil]

theorem customSection_concat_other (name : List Char) (xs : List Section) (id : UInt8)
    (contents : List UInt8) :
    customSection name (xs ++ [.other id contents]) = customSection name xs := by
  have hlast : payloads name [.other id contents] = [] := by simp [payloads]
  rw [customSection, customSection, payloads_append, hlast, List.append_nil]

/-! ### Imports -/

inductive RefType
  | funcref
  | externref
  deriving DecidableEq

def RefType.byte : RefType → UInt8
  | .funcref => 0x70
  | .externref => 0x6f

inductive ValType
  | i32
  | i64
  | f32
  | f64
  | v128
  | ref (t : RefType)
  deriving DecidableEq

def ValType.byte : ValType → UInt8
  | .i32 => 0x7f
  | .i64 => 0x7e
  | .f32 => 0x7d
  | .f64 => 0x7c
  | .v128 => 0x7b
  | .ref t => t.byte

/-- The bounds of a table or a memory. -/
structure Bounds where
  min : Nat
  max : Option Nat
  deriving DecidableEq

inductive Desc
  | func (typeidx : Nat)
  | table (elem : RefType) (bounds : Bounds)
  | memory (bounds : Bounds) (shared : Bool)
  | global (type : ValType) (mutable : Bool)
  deriving DecidableEq

structure Import where
  module : List Char
  name : List Char
  desc : Desc

/-- The flags before the bounds: bit 0 for a maximum, bit 1 for a shared memory. -/
def flags (bounds : Bounds) (shared : Bool) : UInt8 :=
  (if bounds.max.isSome then 1 else 0) ||| (if shared then 2 else 0)

inductive EncodesBounds : List UInt8 → Bounds → Prop
  | min {bs : List UInt8} {n : Nat} : Leb128.Encodes 32 bs n → EncodesBounds bs ⟨n, none⟩
  | max {bs bs' : List UInt8} {n m : Nat} : Leb128.Encodes 32 bs n → Leb128.Encodes 32 bs' m →
      EncodesBounds (bs ++ bs') ⟨n, some m⟩

inductive EncodesDesc : List UInt8 → Desc → Prop
  | func {bs : List UInt8} {x : Nat} : Leb128.Encodes 32 bs x → EncodesDesc (0 :: bs) (.func x)
  | table {bs : List UInt8} {elem : RefType} {bounds : Bounds} : EncodesBounds bs bounds →
      EncodesDesc (1 :: elem.byte :: flags bounds false :: bs) (.table elem bounds)
  | memory {bs : List UInt8} {bounds : Bounds} {shared : Bool} : EncodesBounds bs bounds →
      EncodesDesc (2 :: flags bounds shared :: bs) (.memory bounds shared)
  | global {type : ValType} {mutable : Bool} :
      EncodesDesc [3, type.byte, if mutable then 1 else 0] (.global type mutable)

inductive EncodesImport : List UInt8 → Import → Prop
  | mk {bs₁ bs₂ bs₃ : List UInt8} {x : Import} : EncodesBytes bs₁ (utf8 x.module) →
      EncodesBytes bs₂ (utf8 x.name) → EncodesDesc bs₃ x.desc →
      EncodesImport (bs₁ ++ (bs₂ ++ bs₃)) x

inductive EncodesImports : List UInt8 → List Import → Prop
  | nil : EncodesImports [] []
  | cons {bs bs' : List UInt8} {x : Import} {xs : List Import} : EncodesImport bs x →
      EncodesImports bs' xs → EncodesImports (bs ++ bs') (x :: xs)

/-- The contents of an import section: a vector of imports. -/
def EncodesImportSection (bs : List UInt8) (xs : List Import) : Prop :=
  ∃ count bs', Leb128.Encodes 32 count xs.length ∧ EncodesImports bs' xs ∧ bs = count ++ bs'

def Section.isImports : Section → Bool
  | .other id _ => id = 2
  | .custom _ _ => false

/-- The imports of a module, which has at most one section of them. -/
inductive Imports : List Section → List Import → Prop
  | none {xs : List Section} : (∀ x ∈ xs, x.isImports = false) → Imports xs []
  | some {xs ys : List Section} {contents : List UInt8} {is : List Import} :
      (∀ x ∈ xs, x.isImports = false) → (∀ x ∈ ys, x.isImports = false) →
      EncodesImportSection contents is → Imports (xs ++ .other 2 contents :: ys) is

end TurbopackWasi.Lib.Wasm
