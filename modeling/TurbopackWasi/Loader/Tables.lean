import TurbopackWasi.Loader.Limits

/-!
# TurbopackWasi.Loader.Tables

**Which tables `memoryLimits` survives**: those of `externref` without a maximum, and no
others. Behind any other table the parser is out of step. It takes a number of the
table's bounds for the length of a name, skips that many bytes of what follows, and so a
name that is long enough for it to land there tells it what to find.

The name is a *sled*, the byte 2 over and over: wherever the parser lands in it, it sees
lengths of 2, the kind of a memory, and its limits. A bound too large for a name leads
past the end, where there is nothing. Both are wrong if the module imports a memory of
another size.
-/

namespace TurbopackWasi.Loader

open Lib

variable {buf rest : List UInt8} {off k : Nat}

/-! ### Inside the sled -/

/-- `j` bytes of the sled, and what follows. -/
def sled (j : Nat) (rest : List UInt8) : List UInt8 := List.replicate j 2 ++ rest

theorem sled_succ (j : Nat) (rest : List UInt8) : sled (j + 1) rest = 2 :: sled j rest := by
  rw [sled, sled, List.replicate_succ, List.cons_append]

/-- Farther on in the sled. -/
theorem at_sled {j n : Nat} (hat : Bytes.At buf off (sled j rest)) (hn : n ≤ j) :
    Bytes.At buf (off + n) (sled (j - n) rest) := by
  have hsplit : sled j rest = List.replicate n 2 ++ sled (j - n) rest := by
    rw [sled, sled, ← List.append_assoc, List.replicate_append_replicate]
    congr 2
    omega
  rw [hsplit] at hat
  simpa using hat.skip

/-- What the parser finds in the sled. -/
def found : Limits := ⟨2, none, true⟩

theorem leb_sled {j : Nat} (hat : Bytes.At buf off (sled j rest)) (hj : 0 < j) :
    leb buf off = (2, off + 1) := by
  obtain ⟨j, rfl⟩ : ∃ i, j = i + 1 := ⟨j - 1, by omega⟩
  rw [sled_succ] at hat
  exact leb_byte (by decide) hat

theorem parseDesc_sled {j : Nat} (hat : Bytes.At buf off (sled j rest)) (hj : 3 ≤ j) :
    parseDesc buf off = .error found := by
  obtain ⟨j, rfl⟩ : ∃ i, j = i + 3 := ⟨j - 3, by omega⟩
  have hmin := leb_sled (at_sled hat (n := 2) (by omega)) (by omega)
  rw [sled_succ, sled_succ] at hat
  have hflags : bits buf (off + 1) = 2 := bits_at hat.tail
  simp only [parseDesc, hat.head, hflags, hmin]
  rfl

theorem parseName_sled {j : Nat} (hat : Bytes.At buf off (sled j rest)) (hj : 6 ≤ j) :
    parseName buf off = .error found := by
  rw [parseName, leb_sled hat (by omega)]
  exact parseDesc_sled (at_sled hat (n := 3) (by omega)) (by omega)

theorem parseImport_sled {j : Nat} (hat : Bytes.At buf off (sled j rest)) (hj : 9 ≤ j) :
    parseImport buf off = .error found := by
  rw [parseImport, leb_sled hat (by omega)]
  exact parseName_sled (at_sled hat (n := 3) (by omega)) (by omega)

/-! ### Past the end -/

theorem leb_past (h : buf.length ≤ off) : leb buf off = (0, off + 1) := by
  have hdrop : buf.drop off = [] := List.drop_eq_nil_iff.mpr h
  simp [leb, Leb128.read, hdrop, Leb128.readLoop]

theorem parseDesc_past (h : buf.length ≤ off) : parseDesc buf off = .ok (off + 1) := by
  have hkind : buf[off]? = none := List.getElem?_eq_none h
  simp [parseDesc, hkind]

theorem parseName_past (h : buf.length ≤ off) : parseName buf off = .ok (off + 2) := by
  simp only [parseName, leb_past h, Nat.add_zero]
  exact parseDesc_past (by omega)

theorem parseImports_past (h : buf.length ≤ off) : parseImports buf k off = none := by
  induction k generalizing off with
  | zero => rfl
  | succ k ih =>
      have hround : parseImport buf off = .ok (off + 3) := by
        simp only [parseImport, leb_past h, Nat.add_zero]
        exact parseName_past (by omega)
      rw [parseImports, hround]
      exact ih (by omega)

/-! ### The import behind the table -/

/-- The rest of the loop, one import later, comes to nothing or to what is in the sled. -/
def Misled (buf : List UInt8) (r : Except Limits Nat) : Prop :=
  r = .error found ∨ ∃ off, r = .ok off ∧
    (parseImports buf 1 off = none ∨ parseImports buf 1 off = some found)

/-- An import whose names are sleds, and a memory. -/
def trap (head : List UInt8) (n : Nat) : List UInt8 :=
  head ++ sled n (2 :: sled 2 [0, 0] ++ [0, 0, 2, 0, 1])

theorem misled_past (h : buf.length ≤ off) :
    Misled buf (parseName buf off) ∧ Misled buf (parseDesc buf off) := by
  rw [parseName_past h, parseDesc_past h]
  exact ⟨Or.inr ⟨_, rfl, Or.inl (parseImports_past (by omega))⟩,
    Or.inr ⟨_, rfl, Or.inl (parseImports_past (by omega))⟩⟩

/-- **Wherever the parser lands**, reading a length or a kind, it is misled by a name that
is chosen for the place. -/
theorem exists_trap (t : Nat) :
    ∃ head n, Leb128.Encodes 32 head n ∧ n < 2 ^ 31 + 20 ∧ head.length ≤ 5 ∧
      ∀ buf off, Bytes.At buf off (trap head n) →
        Misled buf (parseName buf (off + t)) ∧ Misled buf (parseDesc buf (off + t)) := by
  have hbyte : Leb128.Encodes 32 [120] 120 := .last (b := 120) (by decide) (by decide)
  by_cases hfar : 2 ^ 31 ≤ t
  · refine ⟨[120], 120, hbyte, by decide, by decide, fun buf off hat => ?_⟩
    have hlen := congrArg List.length hat
    simp only [trap, sled, List.length_drop, List.length_append, List.length_replicate,
      List.length_cons, List.length_nil] at hlen
    exact misled_past (by omega)
  · by_cases hnear : t ≤ 100
    · refine ⟨[120], 120, hbyte, by decide, by decide, fun buf off hat => ?_⟩
      have hsled : Bytes.At buf (off + 1) (sled 120 (2 :: sled 2 [0, 0] ++ [0, 0, 2, 0, 1])) :=
        hat.skip
      cases t with
      | zero =>
          -- at the length of the name: over it, or, as a kind, into it
          have hlen : leb buf off = (120, off + 1) := Leb128.read_at hbyte hat
          have hkind : buf[off]? = some 120 := hat.head
          have hend := at_sled hsled (Nat.le_refl 120)
          have hfield : sled 0 (2 :: sled 2 [0, 0] ++ [0, 0, 2, 0, 1]) =
              sled 3 [0, 0, 0, 0, 2, 0, 1] := rfl
          rw [Nat.sub_self, hfield] at hend
          constructor
          · refine Or.inl ?_
            rw [Nat.add_zero, parseName, hlen]
            exact parseDesc_sled hend (Nat.le_refl 3)
          · refine Or.inr ⟨off + 1, by simp [parseDesc, hkind], Or.inr ?_⟩
            rw [parseImports, parseImport_sled hsled (by decide)]
      | succ t =>
          have hin := at_sled hsled (n := t) (by omega)
          rw [show off + 1 + t = off + (t + 1) by omega] at hin
          exact ⟨Or.inl (parseName_sled hin (by omega)), Or.inl (parseDesc_sled hin (by omega))⟩
    · refine ⟨Leb128.encode 4 (t + 20), t + 20, Leb128.encodes_five (by omega), by omega,
        by simp, fun buf off hat => ?_⟩
      have hsled := hat.skip
      rw [Leb128.length_encode] at hsled
      have hin := at_sled hsled (n := t - 5) (by omega)
      rw [show off + (4 + 1) + (t - 5) = off + t by omega] at hin
      exact ⟨Or.inl (parseName_sled hin (by omega)), Or.inl (parseDesc_sled hin (by omega))⟩

/-- The numbers behind which the parser is out of step: it takes `v` for the length of a name,
and a second number may follow. -/
theorem exists_trap_behind {head tail : List UInt8} {v : Nat} (hhead : Leb128.Encodes 32 head v)
    (htail : tail = [] ∨ ∃ m, Leb128.Encodes 32 tail m) :
    ∃ head' n, Leb128.Encodes 32 head' n ∧ n < 2 ^ 31 + 20 ∧ head'.length ≤ 5 ∧
      ∀ buf off, Bytes.At buf off (head ++ (tail ++ trap head' n)) →
        Misled buf (parseImport buf off) := by
  by_cases hover : tail.length ≤ v
  · obtain ⟨head', n, hn, hsmall, hlen, hall⟩ := exists_trap (v - tail.length)
    refine ⟨head', n, hn, hsmall, hlen, fun buf off hat => ?_⟩
    have hname := (hall buf _ hat.skip.skip).1
    rw [show off + head.length + tail.length + (v - tail.length) = off + head.length + v by
      omega] at hname
    rwa [parseImport, leb_at hhead hat]
  · -- it lands inside the second number, and takes its last bytes for a length
    obtain rfl | hm := htail
    · simp at hover
    · obtain ⟨m, hm⟩ := hm
      obtain ⟨w, hw⟩ := hm.drop (Nat.lt_of_not_le hover)
      obtain ⟨head', n, hn, hsmall, hlen, hall⟩ := exists_trap w
      refine ⟨head', n, hn, hsmall, hlen, fun buf off hat => ?_⟩
      have hdesc := (hall buf _ hat.skip.skip).2
      have hsplit : tail = tail.take v ++ tail.drop v := (List.take_append_drop v tail).symm
      have htake : (tail.take v).length = v := by
        rw [List.length_take]
        omega
      have hinside : Bytes.At buf (off + head.length + v) (tail.drop v ++ trap head' n) := by
        have hskip := hat.skip
        rw [hsplit, List.append_assoc] at hskip
        have hskip' := hskip.skip
        rwa [htake] at hskip'
      have hlengths : off + head.length + v + (tail.drop v).length =
          off + head.length + tail.length := by
        rw [List.length_drop]
        omega
      rw [parseImport, leb_at hhead hat]
      simp only [parseName, leb_at hw hinside, hlengths]
      exact hdesc

/-! ### A module with the table -/

/-- The bounds are `u32` numbers. -/
def Encodable (bounds : Wasm.Bounds) : Prop :=
  bounds.min < 2 ^ 32 ∧ ∀ m, bounds.max = some m → m < 2 ^ 32

/-- Where the parser goes on behind a table that it does not read right. -/
theorem exists_out_of_step {elem : Wasm.RefType} {bounds : Wasm.Bounds}
    (hbad : ¬Readable (.table elem bounds)) (henc : Encodable bounds) :
    ∃ bs head v tail, Wasm.EncodesBounds bs bounds ∧ bs.length ≤ 10 ∧
      Leb128.Encodes 32 head v ∧ (tail = [] ∨ ∃ m, Leb128.Encodes 32 tail m) ∧
      ∀ buf off rest,
        Bytes.At buf off (1 :: elem.byte :: Wasm.flags bounds false :: (bs ++ rest)) →
        ∃ off', parseDesc buf off = .ok off' ∧ Bytes.At buf off' (head ++ (tail ++ rest)) := by
  obtain ⟨min, max⟩ := bounds
  obtain ⟨hmin, hmax⟩ := henc
  have hminEnc := Leb128.encodes_five hmin
  -- behind the flags of a table of functions, at the minimum
  have hfuncref {bs rest : List UInt8} {buf : List UInt8} {off : Nat} {bounds : Wasm.Bounds}
      (hat : Bytes.At buf off (1 :: 0x70 :: Wasm.flags bounds false :: (bs ++ rest))) :
      parseDesc buf off = .ok (off + 3) := by
    have hbits : bits buf (off + 1) = 0x70 := bits_at hat.tail
    have hflags := leb_byte (flags_lt bounds false) hat.tail.tail
    simp only [parseDesc, hat.head, Nat.add_sub_cancel, hbits, hflags]
    rfl
  cases elem with
  | funcref =>
      cases max with
      | none =>
          exact ⟨_, Leb128.encode 4 min, min, [], .min hminEnc, by simp, hminEnc, Or.inl rfl,
            fun buf off rest hat => ⟨off + 3, hfuncref hat, hat.tail.tail.tail⟩⟩
      | some m =>
          have hmaxEnc := Leb128.encodes_five (hmax m rfl)
          refine ⟨_, Leb128.encode 4 min, min, Leb128.encode 4 m, .max hminEnc hmaxEnc, by simp,
            hminEnc, Or.inr ⟨m, hmaxEnc⟩, fun buf off rest hat => ⟨off + 3, hfuncref hat, ?_⟩⟩
          rw [← List.append_assoc]
          exact hat.tail.tail.tail
  | externref =>
      cases max with
      | none => exact absurd ⟨rfl, rfl⟩ hbad
      | some m =>
          have hmaxEnc := Leb128.encodes_five (hmax m rfl)
          refine ⟨_, Leb128.encode 4 m, m, [], .max hminEnc hmaxEnc, by simp, hmaxEnc, Or.inl rfl,
            fun buf off rest hat => ?_⟩
          have hbits : bits buf (off + 1) = 0x6f := bits_at hat.tail
          have hflags := leb_byte (flags_lt ⟨min, some m⟩ false) hat.tail.tail
          have hnumbers := hat.tail.tail.tail
          rw [List.append_assoc] at hnumbers
          have hminRead := leb_at hminEnc hnumbers
          refine ⟨off + 3 + (Leb128.encode 4 min).length, ?_, hnumbers.skip⟩
          simp only [parseDesc, hat.head, Nat.add_sub_cancel, hbits, hflags, hminRead]
          rfl

/-- The import of the trap, and the memory. -/
def trapImports (n : Nat) : List Wasm.Import :=
  [⟨List.replicate n '\u0002', ['\u0002', '\u0002'], .func 0⟩,
    ⟨[], [], .memory ⟨1, none⟩ false⟩]

theorem utf8_sled (n : Nat) : Wasm.utf8 (List.replicate n '\u0002') = List.replicate n 2 := by
  induction n with
  | zero => rfl
  | succ n ih =>
      rw [List.replicate_succ, List.replicate_succ, Wasm.utf8, List.flatMap_cons]
      show _ ++ Wasm.utf8 (List.replicate n '\u0002') = _
      rw [ih]
      rfl

theorem encodes_trap {head : List UInt8} {n : Nat} (hhead : Leb128.Encodes 32 head n) :
    Wasm.EncodesImports (trap head n) (trapImports n) := by
  have hname : Wasm.EncodesBytes (head ++ List.replicate n 2)
      (Wasm.utf8 (List.replicate n '\u0002')) := by
    rw [utf8_sled]
    exact ⟨head, by rwa [List.length_replicate], rfl⟩
  have hfield : Wasm.EncodesBytes [2, 2, 2] (Wasm.utf8 ['\u0002', '\u0002']) :=
    ⟨[2], .last (b := 2) (by decide) (by decide), rfl⟩
  have hempty : Wasm.EncodesBytes [0] (Wasm.utf8 []) :=
    ⟨[0], .last (b := 0) (by decide) (by decide), rfl⟩
  have hzero : Leb128.Encodes 32 [0] 0 := .last (b := 0) (by decide) (by decide)
  have hone : Leb128.Encodes 32 [1] 1 := .last (b := 1) (by decide) (by decide)
  have hfunc : Wasm.EncodesImport (head ++ List.replicate n 2 ++ ([2, 2, 2] ++ [0, 0]))
      ⟨List.replicate n '\u0002', ['\u0002', '\u0002'], .func 0⟩ :=
    .mk hname hfield (.func hzero)
  have hdesc : Wasm.EncodesDesc (2 :: Wasm.flags ⟨1, none⟩ false :: [1])
      (.memory ⟨1, none⟩ false) := .memory (.min hone)
  have hmemory : Wasm.EncodesImport ([0] ++ ([0] ++ [2, 0, 1]))
      ⟨[], [], .memory ⟨1, none⟩ false⟩ := .mk hempty hempty hdesc
  have hboth := Wasm.EncodesImports.cons hfunc (.cons hmemory .nil)
  have hbytes : trap head n =
      head ++ List.replicate n 2 ++ ([2, 2, 2] ++ [0, 0]) ++ ([0] ++ ([0] ++ [2, 0, 1]) ++ []) := by
    simp [trap, sled, List.replicate]
  rw [hbytes]
  exact hboth

/-- **No other table is skipped right**: for some module that imports it, and a memory behind
it, the limits are wrong. -/
theorem exists_misread {elem : Wasm.RefType} {bounds : Wasm.Bounds}
    (hbad : ¬Readable (.table elem bounds)) (henc : Encodable bounds) :
    ∃ bs xs is, Wasm.EncodesModule bs xs ∧ Wasm.Imports xs is ∧
      is.map Wasm.Import.desc = [.table elem bounds, .func 0, .memory ⟨1, none⟩ false] ∧
      memoryLimits bs ≠ some (declared (is.map Wasm.Import.desc)) := by
  obtain ⟨tbs, head, v, tail, htable, htlen, hhead, htail, hstep⟩ := exists_out_of_step hbad henc
  obtain ⟨head', n, hn, hsmall, hlen, hmisled⟩ := exists_trap_behind hhead htail
  have hempty : Wasm.EncodesBytes [0] (Wasm.utf8 []) :=
    ⟨[0], .last (b := 0) (by decide) (by decide), rfl⟩
  have hthree : Leb128.Encodes 32 [3] 3 := .last (b := 3) (by decide) (by decide)
  have himport : Wasm.EncodesImport
      ([0] ++ ([0] ++ (1 :: elem.byte :: Wasm.flags bounds false :: tbs)))
      ⟨[], [], .table elem bounds⟩ := .mk hempty hempty (.table htable)
  have hitems := Wasm.EncodesImports.cons himport (encodes_trap hn)
  generalize hbytes : [0] ++ ([0] ++ (1 :: elem.byte :: Wasm.flags bounds false :: tbs)) ++
    trap head' n = items at hitems
  have hcontents : ([3] ++ items).length < 2 ^ 32 := by
    rw [← hbytes]
    simp only [trap, sled, List.length_append, List.length_cons, List.length_nil,
      List.length_replicate]
    omega
  have hsize := Leb128.encodes_five hcontents
  have hsection : Wasm.EncodesBytes (Leb128.encode 4 ([3] ++ items).length ++ ([3] ++ items))
      ([3] ++ items) := ⟨_, hsize, rfl⟩
  have hother : Wasm.EncodesSection
      (2 :: (Leb128.encode 4 ([3] ++ items).length ++ ([3] ++ items)))
      (.other 2 ([3] ++ items)) := .other (by decide) hsection
  have hmodule := Wasm.EncodesSections.cons hother .nil
  have himports : Wasm.Imports ([] ++ .other 2 ([3] ++ items) :: [])
      (⟨[], [], .table elem bounds⟩ :: trapImports n) :=
    .some (by simp) (by simp) ⟨[3], items, hthree, hitems, rfl⟩
  refine ⟨_, _, _, ⟨_, hmodule, rfl⟩, himports, rfl, ?_⟩
  -- one round over the sections, and three over the imports
  generalize hbuf : [0x00, 0x61, 0x73, 0x6d, 0x01, 0x00, 0x00, 0x00] ++
    (2 :: (Leb128.encode 4 ([3] ++ items).length ++ ([3] ++ items)) ++ []) = buf
  have hat : Bytes.At buf 8
      (2 :: (Leb128.encode 4 ([3] ++ items).length ++ ([3] ++ items)) ++ []) := by
    rw [← hbuf]
    exact Bytes.at_append _ _
  obtain ⟨r, hr⟩ : ∃ r, buf.length = r + 1 := by
    rw [← hbuf]
    exact ⟨_, rfl⟩
  obtain ⟨off, hoff, hround⟩ := parseSections_imports r hsection rfl hthree hat
  rw [memoryLimits, hr, hround]
  rw [List.append_nil, ← hbytes, List.append_assoc, List.append_assoc] at hoff
  obtain ⟨hparse, htableAt⟩ := parseImport_at hempty hempty hoff
  obtain ⟨off', hoff', hbehind⟩ := hstep buf _ _ htableAt
  have hthird : parseImports buf 3 off = parseImports buf 2 off' := by
    rw [parseImports, hparse, hoff']
  have hresult : parseImports buf 3 off = none ∨ parseImports buf 3 off = some found := by
    rw [hthird, parseImports]
    rcases hmisled buf off' hbehind with herror | ⟨off'', hok, hlast⟩
    · rw [herror]
      exact Or.inr rfl
    · rw [hok]
      exact hlast
  rcases hresult with hnone | hfound
  · rw [hnone]
    have hend : Bytes.At buf (8 + (2 :: (Leb128.encode 4 ([3] ++ items).length ++
        ([3] ++ items))).length) [] := hat.skip
    dsimp only
    rw [parseSections_end r hend]
    simp [trapImports, declared]
  · rw [hfound]
    simp [trapImports, declared, found]

theorem aligned_of_tables {ds : List Wasm.Desc}
    (h : ∀ elem bounds, .table elem bounds ∈ ds → elem = .externref ∧ bounds.max = none) :
    Aligned ds := by
  induction ds with
  | nil => trivial
  | cons d ds ih =>
      have hrest := ih fun elem bounds hmem => h elem bounds (List.mem_cons_of_mem _ hmem)
      cases d with
      | memory bounds shared => trivial
      | table elem bounds => exact ⟨Or.inl (h elem bounds List.mem_cons_self), hrest⟩
      | func x => exact hrest
      | «global» t m => exact hrest

/-- Every table that these imports contain is of this type. -/
def Tables (elem : Wasm.RefType) (bounds : Wasm.Bounds) (is : List Wasm.Import) : Prop :=
  ∀ elem' bounds', .table elem' bounds' ∈ is.map Wasm.Import.desc → elem' = elem ∧ bounds' = bounds

/-- The imports of the table `env.t`, of one element or more, and of the memory `env.m`. -/
def tableItems (elem : Wasm.RefType) : List UInt8 :=
  [3, 0x65, 0x6e, 0x76, 1, 0x74, 1, elem.byte, 0, 1, 3, 0x65, 0x6e, 0x76, 1, 0x6d, 2, 0, 1]

/-- A module of these imports. -/
def tableModule (elem : Wasm.RefType) : List UInt8 :=
  [0x00, 0x61, 0x73, 0x6d, 0x01, 0x00, 0x00, 0x00] ++ (2 :: ([20] ++ ([2] ++ tableItems elem)) ++ [])

def tableImports (elem : Wasm.RefType) : List Wasm.Import :=
  [⟨['e', 'n', 'v'], ['t'], .table elem ⟨1, none⟩⟩,
    ⟨['e', 'n', 'v'], ['m'], .memory ⟨1, none⟩ false⟩]

theorem encodes_tableModule (elem : Wasm.RefType) :
    ∃ xs, Wasm.EncodesModule (tableModule elem) xs ∧ Wasm.Imports xs (tableImports elem) := by
  have hbyte {b : UInt8} (hb : b.toNat < 128) : Leb128.Encodes 32 [b] b.toNat :=
    .last hb (by omega)
  have henv : Wasm.EncodesBytes [3, 0x65, 0x6e, 0x76] (Wasm.utf8 ['e', 'n', 'v']) :=
    ⟨[3], hbyte (b := 3) (by decide), by decide⟩
  have ht : Wasm.EncodesBytes [1, 0x74] (Wasm.utf8 ['t']) :=
    ⟨[1], hbyte (b := 1) (by decide), by decide⟩
  have hm : Wasm.EncodesBytes [1, 0x6d] (Wasm.utf8 ['m']) :=
    ⟨[1], hbyte (b := 1) (by decide), by decide⟩
  have hbounds : Wasm.EncodesBounds [1] ⟨1, none⟩ := .min (hbyte (b := 1) (by decide))
  have htable : Wasm.EncodesDesc (1 :: elem.byte :: Wasm.flags ⟨1, none⟩ false :: [1])
      (.table elem ⟨1, none⟩) := .table hbounds
  have hmemory : Wasm.EncodesDesc (2 :: Wasm.flags ⟨1, none⟩ false :: [1])
      (.memory ⟨1, none⟩ false) := .memory hbounds
  have hfirst : Wasm.EncodesImport _ ⟨['e', 'n', 'v'], ['t'], .table elem ⟨1, none⟩⟩ :=
    .mk henv ht htable
  have hsecond : Wasm.EncodesImport _ ⟨['e', 'n', 'v'], ['m'], .memory ⟨1, none⟩ false⟩ :=
    .mk henv hm hmemory
  have hitems : Wasm.EncodesImports (tableItems elem) (tableImports elem) :=
    .cons hfirst (.cons hsecond .nil)
  have hsection : Wasm.EncodesSection (2 :: ([20] ++ ([2] ++ tableItems elem)))
      (.other 2 ([2] ++ tableItems elem)) :=
    .other (by decide) ⟨[20], hbyte (b := 20) (by decide), rfl⟩
  have himports : Wasm.Imports ([] ++ .other 2 ([2] ++ tableItems elem) :: [])
      (tableImports elem) :=
    .some (by simp) (by simp) ⟨[2], _, hbyte (b := 2) (by decide), hitems, rfl⟩
  exact ⟨_, ⟨_, .cons hsection .nil, rfl⟩, himports⟩

end TurbopackWasi.Loader
