import TurbopackWasi.Link.Lookup

/-!
# TurbopackWasi.Link.Read

The host import `read_custom_section`. Its four parameters are `u32` in the guest and reach
JavaScript as signed numbers, without a conversion back; what a negative one does depends
on where it goes. `Buffer.from` throws on a negative offset but takes a negative length for
0, a negative `targetLen` means that nothing is written, and `set` throws on a negative
offset. The name also has to fit into a string. `readCustomSection_iff` is the exact range in
which the contract holds.
-/

namespace TurbopackWasi.Link

open Lib

/-- `read_custom_section`: the memory afterwards and the size, or an exception. `tooLong` are
the bytes whose text does not fit into a string, so that `toString` throws. -/
def readCustomSection (lossy : List UInt8 → Name) (tooLong : List UInt8 → Bool)
    (lookup : Name → Option (List UInt8)) (mem : List UInt8)
    (namePtr nameLen targetPtr targetLen : Int) : Option (List UInt8 × Nat) :=
  match Bytes.bufferFrom mem namePtr nameLen with
  | none => none
  | some bs =>
      if tooLong bs then none
      else
        match lookup (toStringUtf8 lossy bs) with
        | none => some (mem, 0)
        | some found =>
            if targetPtr ≠ 0 ∧ 0 < targetLen then
              let n := min targetLen found.length
              (Bytes.set mem (Bytes.slice found 0 n) targetPtr).map (·, found.length)
            else some (mem, found.length)

/-- The import as the guest calls it. -/
def readImport (lossy : List UInt8 → Name) (tooLong : List UInt8 → Bool)
    (lookup : Name → Option (List UInt8)) (mem : List UInt8)
    (namePtr nameLen targetPtr targetLen : Nat) : Option (List UInt8 × Nat) :=
  readCustomSection lossy tooLong lookup mem (Bytes.signed namePtr) (Bytes.signed nameLen)
    (Bytes.signed targetPtr) (Bytes.signed targetLen)

/-- The section that a name in memory names; empty if there is none. -/
def sectionNamed (lossy : List UInt8 → Name) (lookup : Name → Option (List UInt8))
    (bs : List UInt8) : List UInt8 :=
  (lookup (toStringUtf8 lossy bs)).getD []

/-- What the guest is promised: the size of the section, and its first bytes at the target. -/
def Contract (lossy : List UInt8 → Name) (lookup : Name → Option (List UInt8))
    (mem : List UInt8) (namePtr nameLen targetPtr targetLen : Nat) :
    Option (List UInt8 × Nat) → Prop
  | none => False
  | some (mem', size) =>
      let found := sectionNamed lossy lookup (Bytes.window mem namePtr nameLen)
      size = found.length ∧
        Bytes.Written mem mem' targetPtr
          (if targetPtr ≠ 0 ∧ 0 < targetLen then found.take targetLen else [])

variable {lossy : List UInt8 → Name} {tooLong : List UInt8 → Bool}
  {lookup : Name → Option (List UInt8)} {mem : List UInt8}
  {namePtr nameLen targetPtr targetLen : Nat}

/-- The bytes that `Buffer.from` sees. -/
def nameSeen (mem : List UInt8) (namePtr nameLen : Nat) : List UInt8 :=
  if nameLen < 2 ^ 31 then Bytes.window mem namePtr nameLen else []

/-- When `read_custom_section` honours its contract. -/
structure InRange (lossy : List UInt8 → Name) (tooLong : List UInt8 → Bool)
    (lookup : Name → Option (List UInt8)) (mem : List UInt8)
    (namePtr nameLen targetPtr targetLen : Nat) : Prop where
  pointer : namePtr < 2 ^ 31
  /-- A string can hold the name. -/
  short : tooLong (nameSeen mem namePtr nameLen) = false
  /-- A longer name is taken for the empty one, which does no harm only if the sections of
  both look the same. -/
  name : nameLen < 2 ^ 31 ∨
    (sectionNamed lossy lookup []).length =
        (sectionNamed lossy lookup (Bytes.window mem namePtr nameLen)).length ∧
      (targetPtr ≠ 0 → 0 < targetLen → targetLen < 2 ^ 31 →
        (sectionNamed lossy lookup []).take targetLen =
          (sectionNamed lossy lookup (Bytes.window mem namePtr nameLen)).take targetLen)
  /-- The bytes fit below 2^31, or nothing has to be written. -/
  target : ∀ found, lookup (toStringUtf8 lossy (nameSeen mem namePtr nameLen)) = some found →
    targetPtr ≠ 0 → 0 < targetLen →
      (targetLen < 2 ^ 31 ∧ targetPtr < 2 ^ 31 ∧
        targetPtr + (found.take targetLen).length ≤ mem.length) ∨
      (2 ^ 31 ≤ targetLen ∧ Bytes.Written mem mem targetPtr
        ((sectionNamed lossy lookup (Bytes.window mem namePtr nameLen)).take targetLen))

/-! ### The parameters -/

theorem bufferFrom_neg (h : 2 ^ 31 ≤ namePtr) (hp : namePtr < 2 ^ 32) (len : Int) :
    Bytes.bufferFrom mem (Bytes.signed namePtr) len = none := by
  rw [Bytes.bufferFrom, Bytes.view, if_pos (Or.inl (Bytes.signed_neg h hp))]

/-- Below 2^31 the pointer is the address; the length may be lost. -/
theorem bufferFrom_signed (hp : namePtr < 2 ^ 31) (hn : nameLen < 2 ^ 32)
    (hfits : namePtr + nameLen ≤ mem.length) :
    Bytes.bufferFrom mem (Bytes.signed namePtr) (Bytes.signed nameLen) =
      some (nameSeen mem namePtr nameLen) := by
  rw [Bytes.signed_of_lt hp]
  unfold nameSeen
  split
  · next hlt =>
      rw [Bytes.signed_of_lt hlt]
      exact Bytes.bufferFrom_eq_window hfits
  · next hge =>
      have hneg := Bytes.signed_neg (by omega) hn
      have hzero : namePtr + 0 ≤ mem.length := by omega
      have hempty := Bytes.view_eq_window hzero
      rw [Bytes.bufferFrom, Int.max_eq_right (by omega)]
      simpa [Bytes.window] using hempty

/-- A target that is asked for: the write happens, throws or is left out. -/
theorem read_found (hp : namePtr < 2 ^ 31) (hn : nameLen < 2 ^ 32)
    (hshort : tooLong (nameSeen mem namePtr nameLen) = false)
    (hfits : namePtr + nameLen ≤ mem.length) (ht : targetPtr < 2 ^ 32) (hl : targetLen < 2 ^ 32)
    {found : List UInt8}
    (hfound : lookup (toStringUtf8 lossy (nameSeen mem namePtr nameLen)) = some found) :
    readImport lossy tooLong lookup mem namePtr nameLen targetPtr targetLen =
      if targetPtr ≠ 0 ∧ 0 < targetLen ∧ targetLen < 2 ^ 31 then
        if targetPtr < 2 ^ 31 ∧ targetPtr + (found.take targetLen).length ≤ mem.length then
          some (Bytes.splice mem (found.take targetLen) targetPtr, found.length)
        else none
      else some (mem, found.length) := by
  have hptr := Bytes.signed_eq_zero ht
  simp only [readImport, readCustomSection, bufferFrom_signed hp hn hfits, hshort,
    Bool.false_eq_true, if_false, hfound]
  by_cases hlen : targetLen < 2 ^ 31
  · rw [Bytes.signed_of_lt hlen]
    by_cases hwrite : targetPtr ≠ 0 ∧ 0 < targetLen
    · have hslice : Bytes.slice found 0 (min (targetLen : Int) found.length) =
          found.take targetLen := by
        have h : 0 + min targetLen found.length ≤ found.length := by omega
        have hs := Bytes.slice_eq_window h
        simp only [Nat.cast_zero, zero_add] at hs
        rw [show min (targetLen : Int) found.length = ((min targetLen found.length : Nat) : Int) by
          omega, hs, Bytes.window, List.drop_zero]
        exact List.take_eq_take_iff.mpr (by omega)
      rw [if_pos ⟨by simpa [hptr] using hwrite.1, by omega⟩, if_pos ⟨hwrite.1, hwrite.2, hlen⟩,
        hslice]
      by_cases hlow : targetPtr < 2 ^ 31
      · rw [Bytes.signed_of_lt hlow]
        by_cases hin : targetPtr + (found.take targetLen).length ≤ mem.length
        · rw [Bytes.set_eq_splice hin, if_pos ⟨hlow, hin⟩]
          rfl
        · rw [if_neg (fun h => hin h.2), Bytes.set, if_pos (by omega)]
          rfl
      · have hneg := Bytes.signed_neg (by omega) ht
        rw [if_neg (fun h => hlow h.1), Bytes.set, if_pos (Or.inl hneg)]
        rfl
    · rw [if_neg, if_neg (fun h => hwrite ⟨h.1, h.2.1⟩)]
      intro h
      exact hwrite ⟨fun h0 => h.1 (hptr.mpr h0), by omega⟩
  · have hneg := Bytes.signed_neg (by omega) hl
    rw [if_neg (by omega), if_neg (by omega)]

/-- The section that is read looks like the one that was named. -/
def Same (lossy : List UInt8 → Name) (lookup : Name → Option (List UInt8)) (mem : List UInt8)
    (namePtr nameLen targetPtr targetLen : Nat) : Prop :=
  let seen := sectionNamed lossy lookup (nameSeen mem namePtr nameLen)
  let named := sectionNamed lossy lookup (Bytes.window mem namePtr nameLen)
  seen.length = named.length ∧ (targetPtr ≠ 0 → 0 < targetLen → targetLen < 2 ^ 31 →
    seen.take targetLen = named.take targetLen)

/-- That is so for every name below 2^31. -/
theorem same_iff : Same lossy lookup mem namePtr nameLen targetPtr targetLen ↔
    nameLen < 2 ^ 31 ∨
    (sectionNamed lossy lookup []).length =
        (sectionNamed lossy lookup (Bytes.window mem namePtr nameLen)).length ∧
      (targetPtr ≠ 0 → 0 < targetLen → targetLen < 2 ^ 31 →
        (sectionNamed lossy lookup []).take targetLen =
          (sectionNamed lossy lookup (Bytes.window mem namePtr nameLen)).take targetLen) := by
  by_cases hlt : nameLen < 2 ^ 31
  · have hseen : nameSeen mem namePtr nameLen = Bytes.window mem namePtr nameLen := if_pos hlt
    refine ⟨fun _ => Or.inl hlt, fun _ => ?_⟩
    simp [Same, hseen]
  · have hseen : nameSeen mem namePtr nameLen = [] := if_neg hlt
    simp only [Same, hseen, hlt, false_or]

/-- No section is found under the name that is seen. -/
theorem contract_none (hlow : namePtr < 2 ^ 31) (hn : nameLen < 2 ^ 32)
    (hshort : tooLong (nameSeen mem namePtr nameLen) = false)
    (hfits : namePtr + nameLen ≤ mem.length)
    (hnone : lookup (toStringUtf8 lossy (nameSeen mem namePtr nameLen)) = none) :
    Contract lossy lookup mem namePtr nameLen targetPtr targetLen
        (readImport lossy tooLong lookup mem namePtr nameLen targetPtr targetLen) ↔
      Same lossy lookup mem namePtr nameLen targetPtr targetLen := by
  have hread : readImport lossy tooLong lookup mem namePtr nameLen targetPtr targetLen =
      some (mem, 0) := by
    simp only [readImport, readCustomSection, bufferFrom_signed hlow hn hfits, hshort,
      Bool.false_eq_true, if_false, hnone]
  have hseen : sectionNamed lossy lookup (nameSeen mem namePtr nameLen) = [] := by
    simp [sectionNamed, hnone]
  rw [hread]
  simp only [Contract, Same, hseen, List.length_nil]
  constructor
  · intro h
    have hnil : sectionNamed lossy lookup (Bytes.window mem namePtr nameLen) = [] :=
      List.eq_nil_of_length_eq_zero h.1.symm
    exact ⟨h.1, fun _ _ _ => by rw [hnil]⟩
  · intro h
    have hnil : sectionNamed lossy lookup (Bytes.window mem namePtr nameLen) = [] :=
      List.eq_nil_of_length_eq_zero h.1.symm
    refine ⟨h.1, ?_⟩
    rw [hnil, List.take_nil, ite_self]
    exact Bytes.written_nil mem targetPtr

/-- One is found. -/
theorem contract_some (hlow : namePtr < 2 ^ 31) (hn : nameLen < 2 ^ 32)
    (hshort : tooLong (nameSeen mem namePtr nameLen) = false)
    (hfits : namePtr + nameLen ≤ mem.length) (ht : targetPtr < 2 ^ 32) (hl : targetLen < 2 ^ 32)
    {found : List UInt8}
    (hfound : lookup (toStringUtf8 lossy (nameSeen mem namePtr nameLen)) = some found) :
    Contract lossy lookup mem namePtr nameLen targetPtr targetLen
        (readImport lossy tooLong lookup mem namePtr nameLen targetPtr targetLen) ↔
      Same lossy lookup mem namePtr nameLen targetPtr targetLen ∧
        (targetPtr ≠ 0 → 0 < targetLen →
          (targetLen < 2 ^ 31 ∧ targetPtr < 2 ^ 31 ∧
            targetPtr + (found.take targetLen).length ≤ mem.length) ∨
          (2 ^ 31 ≤ targetLen ∧ Bytes.Written mem mem targetPtr
            ((sectionNamed lossy lookup (Bytes.window mem namePtr nameLen)).take targetLen))) := by
  have hseen : sectionNamed lossy lookup (nameSeen mem namePtr nameLen) = found := by
    simp [sectionNamed, hfound]
  rw [read_found hlow hn hshort hfits ht hl hfound]
  simp only [Same, hseen]
  by_cases hwrite : targetPtr ≠ 0 ∧ 0 < targetLen
  · by_cases hlen : targetLen < 2 ^ 31
    · rw [if_pos ⟨hwrite.1, hwrite.2, hlen⟩]
      by_cases hin : targetPtr < 2 ^ 31 ∧ targetPtr + (found.take targetLen).length ≤ mem.length
      · -- the write happens
        rw [if_pos hin]
        simp only [Contract, if_pos hwrite]
        have hwritten := Bytes.written_splice hin.2
        constructor
        · intro h
          have htake : (found.take targetLen).length =
              ((sectionNamed lossy lookup (Bytes.window mem namePtr nameLen)).take
                targetLen).length := by
            rw [List.length_take, List.length_take, h.1]
          exact ⟨⟨h.1, fun _ _ _ => hwritten.unique h.2 htake⟩,
            fun _ _ => Or.inl ⟨hlen, hin⟩⟩
        · intro h
          refine ⟨h.1.1, ?_⟩
          rw [← h.1.2 hwrite.1 hwrite.2 hlen]
          exact hwritten
      · rw [if_neg hin]
        refine ⟨fun h => h.elim, fun h => ?_⟩
        rcases h.2 hwrite.1 hwrite.2 with h | h
        · exact absurd h.2 hin
        · omega
    · -- the write is left out
      rw [if_neg (fun h => hlen h.2.2)]
      simp only [Contract, if_pos hwrite]
      constructor
      · intro h
        exact ⟨⟨h.1, fun _ _ hlt => absurd hlt hlen⟩, fun _ _ => Or.inr ⟨by omega, h.2⟩⟩
      · intro h
        refine ⟨h.1.1, ?_⟩
        rcases h.2 hwrite.1 hwrite.2 with h | h
        · exact absurd h.1 hlen
        · exact h.2
  · rw [if_neg (fun h => hwrite ⟨h.1, h.2.1⟩)]
    simp only [Contract, if_neg hwrite]
    constructor
    · intro h
      exact ⟨⟨h.1, fun h0 hpos _ => absurd ⟨h0, hpos⟩ hwrite⟩,
        fun h0 hpos => absurd ⟨h0, hpos⟩ hwrite⟩
    · intro h
      exact ⟨h.1.1, Bytes.written_nil mem targetPtr⟩

/-- **Exactly when the contract holds.** -/
theorem readCustomSection_iff (hfits : namePtr + nameLen ≤ mem.length)
    (hp : namePtr < 2 ^ 32) (hn : nameLen < 2 ^ 32)
    (ht : targetPtr < 2 ^ 32) (hl : targetLen < 2 ^ 32) :
    Contract lossy lookup mem namePtr nameLen targetPtr targetLen
        (readImport lossy tooLong lookup mem namePtr nameLen targetPtr targetLen) ↔
      InRange lossy tooLong lookup mem namePtr nameLen targetPtr targetLen := by
  by_cases hlow : namePtr < 2 ^ 31
  · cases hshort : tooLong (nameSeen mem namePtr nameLen) with
    | true =>
        -- `toString` throws
        have hthrows : readImport lossy tooLong lookup mem namePtr nameLen targetPtr targetLen =
            none := by
          simp only [readImport, readCustomSection, bufferFrom_signed hlow hn hfits, hshort, if_true]
        rw [hthrows]
        exact ⟨fun h => h.elim, fun h => absurd (hshort.symm.trans h.short) (by decide)⟩
    | false =>
        cases hfound : lookup (toStringUtf8 lossy (nameSeen mem namePtr nameLen)) with
        | none =>
            rw [contract_none hlow hn hshort hfits hfound, same_iff]
            exact ⟨fun h => ⟨hlow, hshort, h, by simp [hfound]⟩, fun h => h.name⟩
        | some found =>
            rw [contract_some hlow hn hshort hfits ht hl hfound, same_iff]
            constructor
            · intro h
              refine ⟨hlow, hshort, h.1, ?_⟩
              intro found' hfound'
              obtain rfl : found = found' := Option.some.inj (hfound.symm.trans hfound')
              exact h.2
            · intro h
              exact ⟨h.name, h.target found hfound⟩
  · -- `Buffer.from` throws
    have hthrows : readImport lossy tooLong lookup mem namePtr nameLen targetPtr targetLen =
        none := by
      simp only [readImport, readCustomSection, bufferFrom_neg (by omega) hp]
    rw [hthrows]
    exact ⟨fun h => h.elim, fun h => absurd h.pointer hlow⟩

/-- **The size, and then the section**: below 2^31, and with a name that fits into a string, the
guest reads all of a section into a buffer of the size that it was told. -/
theorem query_then_read {found : List UInt8} (hfits : namePtr + nameLen ≤ mem.length)
    (hp : namePtr < 2 ^ 31) (hn : nameLen < 2 ^ 31)
    (hshort : tooLong (Bytes.window mem namePtr nameLen) = false)
    (hfound : lookup (toStringUtf8 lossy (Bytes.window mem namePtr nameLen)) = some found)
    (ht : 0 < targetPtr) (htarget : targetPtr + found.length ≤ mem.length)
    (hlow : targetPtr + found.length < 2 ^ 31) :
    readImport lossy tooLong lookup mem namePtr nameLen 0 0 = some (mem, found.length) ∧
      ∃ mem', readImport lossy tooLong lookup mem namePtr nameLen targetPtr found.length =
          some (mem', found.length) ∧
        Bytes.window mem' targetPtr found.length = found := by
  have hseen : nameSeen mem namePtr nameLen = Bytes.window mem namePtr nameLen := if_pos hn
  rw [← hseen] at hfound hshort
  constructor
  · rw [read_found hp (by omega) hshort hfits (by decide) (by decide) hfound, if_neg (by simp)]
  · rw [read_found hp (by omega) hshort hfits (by omega) (by omega) hfound, List.take_length]
    by_cases hpos : 0 < found.length
    · rw [if_pos ⟨by omega, hpos, by omega⟩, if_pos ⟨by omega, htarget⟩]
      exact ⟨_, rfl, Bytes.window_splice htarget⟩
    · have hnil : found = [] := List.eq_nil_of_length_eq_zero (by omega)
      rw [if_neg (fun h => hpos h.2.1)]
      exact ⟨mem, rfl, by rw [hnil]; exact List.take_zero⟩

/-- A section `a` of two bytes, its name low in memory, and a buffer for it. -/
def oneSection : Name → Option (List UInt8) := fun n => if n = ['a'] then some [7, 8] else none

/-- A string holds 2^29 - 24 code units at most. -/
def overlong (bs : List UInt8) : Bool := 536870888 < bs.length

theorem readCustomSection_low :
    Contract (fun _ => []) oneSection [0, 97, 0, 0] 1 1 2 2
      (readImport (fun _ => []) overlong oneSection [0, 97, 0, 0] 1 1 2 2) :=
  (readCustomSection_iff (by decide) (by decide) (by decide) (by decide) (by decide)).mpr
    ⟨by decide, by decide, Or.inl (by decide), fun found hfound _ _ => by
      obtain rfl : [7, 8] = found := Option.some.inj hfound
      exact Or.inl ⟨by decide, by decide, by decide⟩⟩

/-- The name `a` at 2^31, in a memory that reaches so far. -/
theorem highName_not_contract :
    ∃ mem : List UInt8, mem.length = 2 ^ 31 + 1 ∧ Bytes.window mem (2 ^ 31) 1 = [97] ∧
      ¬Contract (fun _ => []) oneSection mem (2 ^ 31) 1 0 0
        (readImport (fun _ => []) overlong oneSection mem (2 ^ 31) 1 0 0) := by
  have hlength : (List.replicate (2 ^ 31) (0 : UInt8)).length = 2 ^ 31 := List.length_replicate
  refine ⟨List.replicate (2 ^ 31) 0 ++ [97], ?_, ?_, ?_⟩
  · rw [List.length_append, hlength, List.length_singleton]
  · exact Bytes.window_append (List.replicate (2 ^ 31) 0) [] (by rw [List.append_nil])
      hlength.symm rfl
  · have hthrows : readImport (fun _ => []) overlong oneSection (List.replicate (2 ^ 31) 0 ++ [97])
        (2 ^ 31) 1 0 0 = none := by
      simp only [readImport, readCustomSection, bufferFrom_neg (Nat.le_refl _) (by decide)]
    rw [hthrows]
    exact not_false

end TurbopackWasi.Link
