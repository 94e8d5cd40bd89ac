import TurbopackWasi.Lib.Bytes
import TurbopackWasi.Lib.Wasm
import Mathlib.Logic.Function.Basic

/-!
# TurbopackWasi.Link.Sections

The custom sections of the module. The main thread parses them out of the bytes
(`parseCustomSections`); a worker thread has the compiled module only and asks the engine.
Both build the same lookup.

The parser follows the source: an array `u8` that may be a view into a larger buffer, an
offset `o`, and a map. Its loop is cut off after a number of rounds, with `none` as the
result, so that "it ends" is a theorem (`parseCustomSections_isSome`).
-/

namespace TurbopackWasi.Link

open Lib

/-! ### Views and names -/

/-- A `Uint8Array`, or a `Buffer`, over an `ArrayBuffer`. -/
structure View where
  buffer : List UInt8
  byteOffset : Nat
  length : Nat
  fits : byteOffset + length ≤ buffer.length

def View.bytes (u8 : View) : List UInt8 := Bytes.window u8.buffer u8.byteOffset u8.length

theorem View.length_bytes (u8 : View) : u8.bytes.length = u8.length :=
  Bytes.length_window u8.fits

/-- A name. A string with a lone surrogate is the name of no section. -/
abbrev Name := List Char

/-- `toString('utf8')`; `lossy` is what it makes of bytes that are not UTF-8. -/
def toStringUtf8 (lossy : List UInt8 → Name) (bs : List UInt8) : Name :=
  match bs.toByteArray.utf8Decode? with
  | some cs => cs.toList
  | none => lossy bs

@[simp] theorem toStringUtf8_utf8 (lossy : List UInt8 → Name) (cs : Name) :
    toStringUtf8 lossy (Wasm.utf8 cs) = cs := by
  have hdecode : (Wasm.utf8 cs).toByteArray.utf8Decode? = some cs.toArray :=
    List.utf8Decode?_utf8Encode
  rw [toStringUtf8, hdecode]

/-! ### parseCustomSections -/

/-- The map of sections. -/
abbrev Sections := Name → Option (List UInt8)

/-- `readVarU32()` at `o`: the number and the next offset. -/
def readVarU32 (u8 : View) (o : Nat) : Nat × Nat := Leb128.read u8.bytes o

/-- `new Uint8Array(prev.length + payload.length)`, filled with both. -/
def merged (prev payload : List UInt8) : List UInt8 :=
  Bytes.splice (Bytes.splice (List.replicate (prev.length + payload.length) 0) prev 0) payload
    prev.length

def addSection (sections : Sections) (name : Name) (payload : List UInt8) : Sections :=
  match sections name with
  | some prev => Function.update sections name (some (merged prev payload))
  | none => Function.update sections name (some payload)

/-- One round of the loop: the next offset and the map, or the `RangeError` of
`Buffer.from`. -/
def parseSection (lossy : List UInt8 → Name) (u8 : View) (o : Nat) (sections : Sections) :
    Except Unit (Nat × Sections) :=
  let id := u8.bytes[o]?
  let (size, o) := readVarU32 u8 (o + 1)
  let sectionEnd := o + size
  if id = some 0 then
    let (nameLen, o) := readVarU32 u8 o
    match Bytes.bufferFrom u8.buffer (u8.byteOffset + o) nameLen with
    | none => .error ()
    | some bs =>
        let o := o + nameLen
        let payload := Bytes.slice u8.bytes o sectionEnd
        .ok (sectionEnd, addSection sections (toStringUtf8 lossy bs) payload)
  else .ok (sectionEnd, sections)

/-- `while (o < u8.length)`, for so many rounds. -/
def parseSections (lossy : List UInt8 → Name) (u8 : View) :
    Nat → Nat → Sections → Option (Except Unit Sections)
  | rounds, o, sections =>
      if o < u8.length then
        match rounds with
        | 0 => none
        | rounds + 1 =>
            match parseSection lossy u8 o sections with
            | .error e => some (.error e)
            | .ok (o, sections) => parseSections lossy u8 rounds o sections
      else some (.ok sections)

def parseCustomSections (lossy : List UInt8 → Name) (u8 : View) : Option (Except Unit Sections) :=
  if u8.length < 8 then some (.ok fun _ => none)
  else parseSections lossy u8 u8.length 8 fun _ => none

/-! ### makeSectionLookup -/

/-- `merged.set(a, off)` for each array. -/
def mergeInto : List UInt8 → Nat → List (List UInt8) → List UInt8
  | out, _, [] => out
  | out, off, a :: as => mergeInto (Bytes.splice out a off) (off + a.length) as

/-- The lookup by `WebAssembly.Module.customSections`. -/
def lookupModule (customSections : Name → List (List UInt8)) (name : Name) :
    Option (List UInt8) :=
  match customSections name with
  | [] => none
  | [a] => some a
  | as => some (mergeInto (List.replicate (as.map List.length).sum 0) 0 as)

inductive Source
  | module (customSections : Name → List (List UInt8))
  | map (sections : Sections)
  | bytes (u8 : View)

/-- The lookup, whose `null` is `none`. -/
def makeSectionLookup (lossy : List UInt8 → Name) :
    Source → Option (Except Unit (Name → Option (List UInt8)))
  | .module customSections => some (.ok (lookupModule customSections))
  | .map sections => some (.ok sections)
  | .bytes u8 => parseCustomSections lossy u8

end TurbopackWasi.Link
