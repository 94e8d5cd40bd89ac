import TurbopackWasi.Lib.Wasm

/-!
# TurbopackWasi.Loader.Limits

`memoryLimits` looks for the limits of the imported memory in the bytes of a module. To
reach it, the loop must skip every earlier import by exactly its length. It does not skip
tables so: the flags it tests are in the byte after the one it looks at, the element type.

`Aligned` says of which imports this makes no difference, and `memoryLimits_of_aligned` that the
limits are then the declared ones. The loop over the sections is cut off after a number of
rounds, with `none` as the result; there are always enough (`memoryLimits_isSome`).
-/

namespace TurbopackWasi.Loader

open Lib

/-! ### memoryLimits -/

/-- `{ min, max, shared }`. -/
structure Limits where
  min : Nat
  max : Option Nat
  shared : Bool
  deriving DecidableEq, Repr

/-- `leb()` at an offset: the number and the next offset. -/
def leb (buf : List UInt8) (off : Nat) : Nat × Nat := Leb128.read buf off

/-- `buf[off]` as the operand of `&`: past the end it counts as 0. -/
def bits (buf : List UInt8) (off : Nat) : UInt8 := (buf[off]?).getD 0

/-- The descriptor of an import, from its kind on: the next offset, or the limits that are
returned. -/
def parseDesc (buf : List UInt8) (off : Nat) : Except Limits Nat :=
  let kind := buf[off]?
  let off := off + 1
  if kind = some 0 then .ok (leb buf off).2
  else if kind = some 1 then
    let off := off + 1
    -- the byte before `off` is the element type
    if bits buf (off - 1) &&& 1 ≠ 0 then
      let (_, off) := leb buf off
      .ok (leb buf off).2
    else .ok (leb buf off).2
  else if kind = some 2 then
    let flags := bits buf off
    let (min, off) := leb buf (off + 1)
    let max := if flags &&& 1 ≠ 0 then some (leb buf off).1 else none
    .error ⟨min, max, decide (flags &&& 2 ≠ 0)⟩
  else if kind = some 3 then .ok (off + 2)
  else .ok off

/-- `const nlen = leb(); off += nlen`, and the descriptor. -/
def parseName (buf : List UInt8) (off : Nat) : Except Limits Nat :=
  let (nlen, off) := leb buf off
  parseDesc buf (off + nlen)

/-- One round of the loop over the imports. -/
def parseImport (buf : List UInt8) (off : Nat) : Except Limits Nat :=
  let (mlen, off) := leb buf off
  parseName buf (off + mlen)

/-- The loop over so many imports, until it comes to a memory. -/
def parseImports (buf : List UInt8) : Nat → Nat → Option Limits
  | 0, _ => none
  | count + 1, off =>
      match parseImport buf off with
      | .ok off => parseImports buf count off
      | .error limits => some limits

/-- `while (off < buf.length)`, for so many rounds; `null` is `some none`. -/
def parseSections (buf : List UInt8) : Nat → Nat → Option (Option Limits)
  | rounds, off =>
      if off < buf.length then
        match rounds with
        | 0 => none
        | rounds + 1 =>
            let id := buf[off]?
            let (size, off) := leb buf (off + 1)
            let sectionEnd := off + size
            if id = some 2 then
              let (count, off) := leb buf off
              match parseImports buf count off with
              | some limits => some (some limits)
              | none => parseSections buf rounds sectionEnd
            else parseSections buf rounds sectionEnd
      else some none

def memoryLimits (buf : List UInt8) : Option (Option Limits) := parseSections buf buf.length 8

/-! ### What it must return -/

/-- The limits of the first imported memory. -/
def declared : List Wasm.Desc → Option Limits
  | [] => none
  | .memory bounds shared :: _ => some ⟨bounds.min, bounds.max, shared⟩
  | _ :: ds => declared ds

/-- Before the first memory no table is skipped wrongly: it has an odd element type and no
maximum, or there is nothing behind it to be found. -/
def Aligned : List Wasm.Desc → Prop
  | [] => True
  | .memory _ _ :: _ => True
  | .table elem bounds :: ds => (elem = .externref ∧ bounds.max = none ∨ ds = []) ∧ Aligned ds
  | _ :: ds => Aligned ds

/-! ### The loop ends -/

theorem parseSections_isSome {buf : List UInt8} (rounds : Nat) {off : Nat}
    (hrounds : buf.length ≤ rounds + off) : (parseSections buf rounds off).isSome = true := by
  induction rounds generalizing off with
  | zero =>
      have hend : ¬off < buf.length := by omega
      simp [parseSections, hend]
  | succ rounds ih =>
      unfold parseSections
      split
      · have hlt := Leb128.read_lt buf (off + 1)
        have hnext : (parseSections buf rounds
            ((leb buf (off + 1)).2 + (leb buf (off + 1)).1)).isSome = true := by
          refine ih ?_
          simp only [leb]
          omega
        dsimp only
        split
        · split
          · rfl
          · exact hnext
        · exact hnext
      · rfl

theorem memoryLimits_isSome (buf : List UInt8) : (memoryLimits buf).isSome = true :=
  parseSections_isSome buf.length (Nat.le_add_right _ _)

/-! ### One import -/

section Encoded

variable {buf bs rest : List UInt8} {off n : Nat}

theorem leb_at (h : Leb128.Encodes 32 bs n) (hat : Bytes.At buf off (bs ++ rest)) :
    leb buf off = (n, off + bs.length) :=
  Leb128.read_at h hat

theorem bits_at {x : UInt8} (hat : Bytes.At buf off (x :: rest)) : bits buf off = x := by
  rw [bits, hat.head]
  rfl

/-- A length and as many bytes are skipped. -/
theorem leb_bytes {contents : List UInt8} (h : Wasm.EncodesBytes bs contents)
    (hat : Bytes.At buf off (bs ++ rest)) :
    (leb buf off).2 + (leb buf off).1 = off + bs.length := by
  obtain ⟨size, hsize, rfl⟩ := h
  rw [List.append_assoc] at hat
  rw [leb_at hsize hat, List.length_append]
  omega

theorem parseImport_at {bs₁ bs₂ bs₃ module name : List UInt8}
    (h₁ : Wasm.EncodesBytes bs₁ module) (h₂ : Wasm.EncodesBytes bs₂ name)
    (hat : Bytes.At buf off (bs₁ ++ (bs₂ ++ bs₃))) :
    parseImport buf off = parseDesc buf (off + bs₁.length + bs₂.length) ∧
      Bytes.At buf (off + bs₁.length + bs₂.length) bs₃ := by
  have hname := hat.skip
  refine ⟨?_, hname.skip⟩
  have hmlen := leb_bytes h₁ hat
  have hnlen := leb_bytes h₂ hname
  simp only [parseImport, parseName, hmlen, hnlen]

/-- A byte with bit 7 clear is a number. -/
theorem leb_byte {x : UInt8} (hx : x.toNat < 128) (hat : Bytes.At buf off (x :: rest)) :
    leb buf off = (x.toNat, off + 1) := by
  have hbyte : Leb128.Encodes 32 [x] x.toNat := .last hx (by omega)
  have hall : Bytes.At buf off ([x] ++ rest) := hat
  exact leb_at hbyte hall

theorem flags_lt (bounds : Wasm.Bounds) (shared : Bool) :
    (Wasm.flags bounds shared).toNat < 128 := by
  unfold Wasm.flags
  cases bounds.max.isSome <;> cases shared <;> decide

theorem flags_and_one (bounds : Wasm.Bounds) (shared : Bool) :
    Wasm.flags bounds shared &&& 1 ≠ 0 ↔ bounds.max.isSome = true := by
  unfold Wasm.flags
  cases bounds.max.isSome <;> cases shared <;> decide

theorem flags_and_two (bounds : Wasm.Bounds) (shared : Bool) :
    Wasm.flags bounds shared &&& 2 ≠ 0 ↔ shared = true := by
  unfold Wasm.flags
  cases bounds.max.isSome <;> cases shared <;> decide

/-- What `parseDesc` must make of a descriptor of `len` bytes. -/
def Reads (off len : Nat) : Wasm.Desc → Except Limits Nat
  | .memory bounds shared => .error ⟨bounds.min, bounds.max, shared⟩
  | _ => .ok (off + len)

/-- The descriptors that are read right. -/
def Readable : Wasm.Desc → Prop
  | .table elem bounds => elem = .externref ∧ bounds.max = none
  | _ => True

theorem parseDesc_memory {bounds : Wasm.Bounds} {shared : Bool}
    (hbs : Wasm.EncodesBounds bs bounds)
    (hat : Bytes.At buf off (2 :: Wasm.flags bounds shared :: bs ++ rest)) :
    parseDesc buf off = .error ⟨bounds.min, bounds.max, shared⟩ := by
  have hbits := bits_at hat.tail
  have hshared : decide (Wasm.flags bounds shared &&& 2 ≠ 0) = shared := by
    rw [Bool.eq_iff_iff, decide_eq_true_iff]
    exact flags_and_two bounds shared
  have hmax := flags_and_one bounds shared
  have htail : Bytes.At buf (off + 1 + 1) (bs ++ rest) := hat.tail.tail
  cases hbs with
  | @min bs n hn =>
      have hno : ¬(Wasm.flags ⟨n, none⟩ shared &&& 1 ≠ 0) := by
        rw [hmax]
        simp
      simp [parseDesc, hat.head, hbits, leb_at hn htail, hshared, hno]
  | @max bs bs' n m hn hm =>
      have hyes : Wasm.flags ⟨n, some m⟩ shared &&& 1 ≠ 0 := hmax.mpr rfl
      rw [List.append_assoc] at htail
      have hsecond := htail.skip
      simp [parseDesc, hat.head, hbits, leb_at hn htail, leb_at hm hsecond, hshared, hyes]

/-- **A descriptor is read right**, unless it is a table with flags in the wrong place. -/
theorem parseDesc_encodes {d : Wasm.Desc} (hd : Wasm.EncodesDesc bs d) (hgood : Readable d)
    (hat : Bytes.At buf off (bs ++ rest)) : parseDesc buf off = Reads off bs.length d := by
  cases hd with
  | @func bs x hx =>
      have hread := leb_at hx hat.tail
      simp only [parseDesc, hat.head, if_true, hread, Reads, List.length_cons]
      congr 1
      omega
  | memory hbs => exact parseDesc_memory hbs hat
  | «global» => simp [parseDesc, hat.head, Reads]
  | @table bs elem bounds hbs =>
      obtain ⟨helem, hmax⟩ := hgood
      subst helem
      have hbits : bits buf (off + 1) = 0x6f := bits_at hat.tail
      have hflags := leb_byte (flags_lt bounds false) hat.tail.tail
      cases hbs with
      | max => cases hmax
      | @min bs n hn =>
          have hmin := leb_at hn hat.tail.tail.tail
          simp only [parseDesc, hat.head, Nat.add_sub_cancel, hbits, hflags, hmin, Reads,
            List.length_cons]
          rw [if_neg (by decide), if_pos trivial, if_pos (by decide)]
          congr 1
          omega

/-- A table is skipped in any case, if only by the wrong length. -/
theorem parseDesc_table {elem : Wasm.RefType}
    (hat : Bytes.At buf off (1 :: elem.byte :: bs)) : ∃ off', parseDesc buf off = .ok off' := by
  have hkind : buf[off]? = some 1 := hat.head
  unfold parseDesc
  simp only [hkind]
  rw [if_neg (by decide), if_pos trivial]
  split
  · exact ⟨_, rfl⟩
  · exact ⟨_, rfl⟩

/-! ### The loops -/

theorem parseImports_encodes {items : List UInt8} {is : List Wasm.Import}
    (h : Wasm.EncodesImports items is) (hgood : Aligned (is.map Wasm.Import.desc))
    (hat : Bytes.At buf off (items ++ rest)) :
    parseImports buf is.length off = declared (is.map Wasm.Import.desc) := by
  induction h generalizing off with
  | nil => rfl
  | @cons bs bs' x xs hx hxs ih =>
      obtain @⟨bs₁, bs₂, bs₃, x, h₁, h₂, h₃⟩ := hx
      rw [List.append_assoc, List.append_assoc, List.append_assoc] at hat
      obtain ⟨hparse, hdesc⟩ := parseImport_at h₁ h₂ hat
      rw [List.length_cons, parseImports, hparse, List.map_cons]
      rw [List.map_cons] at hgood
      -- a descriptor that is read right leads to the next import
      have hnext (hr : Readable x.desc) (hal : Aligned (xs.map Wasm.Import.desc))
          (hd : declared (x.desc :: xs.map Wasm.Import.desc) = declared (xs.map Wasm.Import.desc))
          (hm : Reads (off + bs₁.length + bs₂.length) bs₃.length x.desc =
            .ok (off + bs₁.length + bs₂.length + bs₃.length)) :
          (match parseDesc buf (off + bs₁.length + bs₂.length) with
            | .ok off => parseImports buf xs.length off
            | .error limits => some limits) = declared (x.desc :: xs.map Wasm.Import.desc) := by
        rw [parseDesc_encodes h₃ hr hdesc, hm, hd]
        exact ih hal hdesc.skip
      cases hdx : x.desc with
      | func y =>
          rw [hdx] at hgood hnext
          exact hnext trivial hgood rfl rfl
      | «global» t m =>
          rw [hdx] at hgood hnext
          exact hnext trivial hgood rfl rfl
      | memory bounds shared =>
          rw [hdx] at h₃
          rw [parseDesc_encodes h₃ trivial hdesc]
          rfl
      | table elem bounds =>
          rw [hdx] at hgood hnext
          obtain ⟨hread | hlast, hal⟩ := hgood
          · exact hnext hread hal rfl rfl
          · -- nothing is behind it
            obtain rfl : xs = [] := List.map_eq_nil_iff.mp hlast
            rw [hdx] at h₃
            cases h₃ with
            | table hbs =>
                obtain ⟨off', hoff'⟩ := parseDesc_table hdesc
                rw [hoff']
                rfl

/-- A section of another kind is passed over. -/
theorem parseSections_section {rounds : Nat} {x : Wasm.Section} (hx : Wasm.EncodesSection bs x)
    (hno : x.isImports = false) (hat : Bytes.At buf off (bs ++ rest)) :
    parseSections buf (rounds + 1) off = parseSections buf rounds (off + bs.length) := by
  have hstep {id : UInt8} {bs contents : List UInt8} (hbs : Wasm.EncodesBytes bs contents)
      (hid : id ≠ 2) (hat : Bytes.At buf off (id :: bs ++ rest)) :
      parseSections buf (rounds + 1) off =
        parseSections buf rounds (off + (id :: bs).length) := by
    have hlt : off < buf.length := (List.getElem?_eq_some_iff.mp hat.head).1
    have hend := leb_bytes hbs hat.tail
    have hne : ¬(some id : Option UInt8) = some 2 := by simpa using hid
    have hlen : off + 1 + bs.length = off + (id :: bs).length := by
      rw [List.length_cons]
      omega
    conv_lhs => unfold parseSections
    simp only [hlt, if_true, hat.head, if_neg hne, hend, hlen]
  cases hx with
  | custom hname hbs => exact hstep hbs (by decide) hat
  | other hid hbs =>
      refine hstep hbs ?_ hat
      simpa [Wasm.Section.isImports] using hno

theorem parseSections_skip {r : Nat} {xs : List Wasm.Section} (hxs : Wasm.EncodesSections bs xs)
    (hno : ∀ x ∈ xs, x.isImports = false) (hat : Bytes.At buf off (bs ++ rest)) :
    parseSections buf (xs.length + r) off = parseSections buf r (off + bs.length) := by
  induction hxs generalizing off with
  | nil => simp
  | @cons bs bs' x xs hx hxs ih =>
      rw [List.append_assoc] at hat
      have hround : (x :: xs).length + r = xs.length + r + 1 := by
        rw [List.length_cons]
        omega
      rw [hround, parseSections_section hx (hno x List.mem_cons_self) hat,
        ih (fun y hy => hno y (List.mem_cons_of_mem _ hy)) hat.skip, List.length_append,
        Nat.add_assoc]

theorem parseSections_end (rounds : Nat) (hat : Bytes.At buf off []) :
    parseSections buf rounds off = some none := by
  have hend : ¬off < buf.length := Nat.not_lt.mpr (List.drop_eq_nil_iff.mp hat)
  unfold parseSections
  rw [if_neg hend]

/-- The section of the imports is read by the loop over them. -/
theorem parseSections_imports (rounds : Nat) {contents count items : List UInt8}
    (hbs : Wasm.EncodesBytes bs contents) (hcontents : contents = count ++ items)
    (hcount : Leb128.Encodes 32 count n) (hat : Bytes.At buf off (2 :: bs ++ rest)) :
    ∃ off', Bytes.At buf off' (items ++ rest) ∧
      parseSections buf (rounds + 1) off =
        match parseImports buf n off' with
        | some limits => some (some limits)
        | none => parseSections buf rounds (off + (2 :: bs).length) := by
  have hlt : off < buf.length := (List.getElem?_eq_some_iff.mp hat.head).1
  have hend := leb_bytes hbs hat.tail
  obtain ⟨size, hsize, rfl⟩ := hbs
  subst hcontents
  have htail := hat.tail
  have hat₁ : Bytes.At buf (off + 1) (size ++ (count ++ (items ++ rest))) := by
    simpa using htail
  refine ⟨off + 1 + size.length + count.length, hat₁.skip.skip, ?_⟩
  have hread := leb_at hsize hat₁
  rw [hread] at hend
  dsimp only at hend
  have hlen : off + 1 + (size ++ (count ++ items)).length =
      off + (2 :: (size ++ (count ++ items))).length := by
    rw [List.length_cons]
    omega
  conv_lhs => unfold parseSections
  simp only [hlt, if_true, hat.head, hread, leb_at hcount hat₁.skip, hend, hlen]

end Encoded

/-- **The declared limits are returned** for every module whose imports are aligned. -/
theorem memoryLimits_of_aligned {bs : List UInt8} {xs : List Wasm.Section}
    {is : List Wasm.Import} (hbs : Wasm.EncodesModule bs xs) (his : Wasm.Imports xs is)
    (hgood : Aligned (is.map Wasm.Import.desc)) :
    memoryLimits bs = some (declared (is.map Wasm.Import.desc)) := by
  obtain ⟨body, hbody, rfl⟩ := hbs
  have hat : Bytes.At ([0x00, 0x61, 0x73, 0x6d, 0x01, 0x00, 0x00, 0x00] ++ body) 8 body :=
    Bytes.at_append _ body
  have hlen := hbody.length_le
  generalize hbuf : [0x00, 0x61, 0x73, 0x6d, 0x01, 0x00, 0x00, 0x00] ++ body = buf at hat ⊢
  have hrounds : xs.length ≤ buf.length := by
    rw [← hbuf, List.length_append]
    omega
  unfold memoryLimits
  cases his with
  | none hno =>
      obtain ⟨r, hr⟩ := Nat.exists_eq_add_of_le hrounds
      have hall : Bytes.At buf 8 (body ++ []) := by simpa using hat
      rw [hr, parseSections_skip hbody hno hall]
      exact parseSections_end r hall.skip
  | @some xs ys contents is hxs hys hcontents =>
      obtain ⟨bs₁, bs₂, bs₃, rfl, h₁, h₂, h₃⟩ := hbody.eq_append
      rw [List.length_append, List.length_cons] at hrounds
      obtain ⟨r, hr⟩ := Nat.exists_eq_add_of_le hrounds
      have hsplit : buf.length = xs.length + (ys.length + r + 1) := by omega
      obtain ⟨count, items, hcount, hitems, hcontents⟩ := hcontents
      rw [hsplit, parseSections_skip h₁ hxs hat]
      cases h₂ with
      | @other _ bs₂ _ _ hbs₂ =>
      obtain ⟨off', hoff', hparse⟩ :=
        parseSections_imports (ys.length + r) hbs₂ hcontents hcount hat.skip
      rw [hparse, parseImports_encodes hitems hgood hoff']
      cases declared (is.map Wasm.Import.desc) with
      | some limits => rfl
      | none =>
          have hrest : Bytes.At buf (8 + bs₁.length + (2 :: bs₂).length) (bs₃ ++ []) := by
            rw [List.append_nil]
            exact hat.skip.skip
          dsimp only
          rw [parseSections_skip h₃ hys hrest]
          exact parseSections_end r hrest.skip

end TurbopackWasi.Loader
