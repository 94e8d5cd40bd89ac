import TurbopackWasi.Link.Sections

/-!
# TurbopackWasi.Link.Lookup

**The parser finds the custom sections of the module**: on a well-formed binary the map of
`parseCustomSections` is `Wasm.customSection`, so the lookup from the bytes and the lookup
from the compiled module agree. On any other bytes the loop still ends.
-/

namespace TurbopackWasi.Link

open Lib

variable {lossy : List UInt8 → Name} {u8 : View} {o o' : Nat} {sections sections' : Sections}

/-! ### The loop ends -/

/-- Every round moves on. -/
theorem parseSection_lt (h : parseSection lossy u8 o sections = .ok (o', sections')) : o < o' := by
  have hsize : o + 1 < (readVarU32 u8 (o + 1)).2 := Leb128.read_lt _ _
  simp only [parseSection] at h
  split at h
  · split at h
    · cases h
    · obtain ⟨rfl, -⟩ := Prod.mk.inj (Except.ok.inj h)
      omega
  · obtain ⟨rfl, -⟩ := Prod.mk.inj (Except.ok.inj h)
    omega

theorem parseSections_isSome (rounds : Nat) (hrounds : u8.length ≤ rounds + o) :
    (parseSections lossy u8 rounds o sections).isSome = true := by
  induction rounds generalizing o sections with
  | zero =>
      have hend : ¬o < u8.length := by omega
      simp [parseSections, hend]
  | succ rounds ih =>
      unfold parseSections
      split
      · cases hstep : parseSection lossy u8 o sections with
        | error e => rfl
        | ok r =>
            obtain ⟨o', sections'⟩ := r
            have hlt := parseSection_lt hstep
            exact ih (by omega)
      · rfl

/-- **The parser ends** on any bytes, after at most as many rounds as there are bytes. -/
theorem parseCustomSections_isSome (lossy : List UInt8 → Name) (u8 : View) :
    (parseCustomSections lossy u8).isSome = true := by
  unfold parseCustomSections
  split
  · rfl
  · exact parseSections_isSome _ (by omega)

/-! ### One section -/

/-- What lies in the view lies in the buffer under it. -/
theorem View.window_buffer {len : Nat} (h : o + len ≤ u8.length) :
    Bytes.window u8.buffer (u8.byteOffset + o) len = Bytes.window u8.bytes o len := by
  simp only [View.bytes, Bytes.window, List.drop_take, List.drop_drop, List.take_take]
  congr 1
  omega

theorem merged_eq (prev payload : List UInt8) : merged prev payload = prev ++ payload :=
  Bytes.splice_splice_replicate prev payload 0

/-- The map gains a piece of a section. -/
theorem addSection_customSection (xs : List Wasm.Section) (name : Name) (payload : List UInt8) :
    addSection (fun n => Wasm.customSection n xs) name payload =
      fun n => Wasm.customSection n (xs ++ [.custom name payload]) := by
  have hadd : addSection (fun n => Wasm.customSection n xs) name payload =
      Function.update (fun n => Wasm.customSection n xs) name
        (some ((Wasm.customSection name xs).getD [] ++ payload)) := by
    cases hprev : Wasm.customSection name xs with
    | some prev => simp [addSection, hprev, merged_eq]
    | none => simp [addSection, hprev]
  rw [hadd]
  funext n
  by_cases hn : n = name
  · subst hn
    rw [Function.update_self, Wasm.customSection_concat_custom]
  · rw [Function.update_of_ne hn, Wasm.customSection_concat_ne (fun h => hn h.symm)]

theorem readVarU32_encodes {bs : List UInt8} {n : Nat} (h : Leb128.Encodes 32 bs n)
    (before after : List UInt8) (hu8 : u8.bytes = before ++ bs ++ after)
    (ho : o = before.length) : readVarU32 u8 o = (n, o + bs.length) :=
  Leb128.read_encodes h before after hu8 ho

/-- **One round reads one section**, wherever it stands. -/
theorem parseSection_encodes {before bs after : List UInt8} {x : Wasm.Section}
    (hx : Wasm.EncodesSection bs x) (hu8 : u8.bytes = before ++ bs ++ after)
    (xs : List Wasm.Section) :
    parseSection lossy u8 before.length (fun n => Wasm.customSection n xs) =
      .ok (before.length + bs.length, fun n => Wasm.customSection n (xs ++ [x])) := by
  cases hx with
  | @other id bs contents hid hbs =>
      obtain ⟨size, hsize, rfl⟩ := hbs
      have hread : readVarU32 u8 (before.length + 1) =
          (contents.length, before.length + 1 + size.length) :=
        readVarU32_encodes hsize (before ++ [id]) (contents ++ after) (by simp [hu8]) (by simp)
      have hhead : u8.bytes[before.length]? = some id := by simp [hu8]
      have hne : ¬(some id : Option UInt8) = some 0 := by simpa using hid
      have hend : before.length + 1 + size.length + contents.length =
          before.length + (id :: (size ++ contents)).length := by
        simp only [List.length_cons, List.length_append]
        omega
      simp only [parseSection, hread, hhead, if_neg hne, hend, Wasm.customSection_concat_other]
  | @custom bs bs' name payload hname hbs =>
      obtain ⟨nameSize, hnameSize, rfl⟩ := hname
      obtain ⟨size, hsize, rfl⟩ := hbs
      have hread : readVarU32 u8 (before.length + 1) =
          ((nameSize ++ Wasm.utf8 name ++ payload).length, before.length + 1 + size.length) :=
        readVarU32_encodes hsize (before ++ [0]) (nameSize ++ Wasm.utf8 name ++ payload ++ after)
          (by simp [hu8]) (by simp)
      -- where the name, the payload and the end of the section are
      obtain ⟨start, hstart⟩ : ∃ start, start = before.length + 1 + size.length + nameSize.length :=
        ⟨_, rfl⟩
      have hreadName : readVarU32 u8 (before.length + 1 + size.length) =
          ((Wasm.utf8 name).length, start) := by
        rw [hstart]
        exact readVarU32_encodes hnameSize (before ++ [0] ++ size)
          (Wasm.utf8 name ++ payload ++ after) (by simp [hu8]) (by simp; omega)
      have hend : before.length + 1 + size.length +
          (nameSize ++ Wasm.utf8 name ++ payload).length =
          start + (Wasm.utf8 name).length + payload.length := by
        simp only [List.length_append]
        omega
      have hlength : start + (Wasm.utf8 name).length + payload.length ≤ u8.length := by
        have h := congrArg List.length hu8
        rw [View.length_bytes] at h
        simp only [List.length_append, List.length_cons] at h
        omega
      have hnameBytes : Bytes.window u8.bytes start (Wasm.utf8 name).length = Wasm.utf8 name :=
        Bytes.window_append (before ++ [0] ++ size ++ nameSize) (payload ++ after)
          (by simp [hu8]) (by simp [hstart]; omega) rfl
      have hfrom : Bytes.bufferFrom u8.buffer (u8.byteOffset + start) (Wasm.utf8 name).length =
          some (Wasm.utf8 name) := by
        have hfits := u8.fits
        have h : u8.byteOffset + start + (Wasm.utf8 name).length ≤ u8.buffer.length := by omega
        have hbuffer := Bytes.bufferFrom_eq_window h
        rw [View.window_buffer (by omega), hnameBytes] at hbuffer
        exact_mod_cast hbuffer
      have hpayloadBytes : Bytes.window u8.bytes (start + (Wasm.utf8 name).length) payload.length =
          payload :=
        Bytes.window_append (before ++ [0] ++ size ++ nameSize ++ Wasm.utf8 name) after
          (by simp [hu8]) (by simp [hstart]; omega) rfl
      have hpayload : Bytes.slice u8.bytes (start + (Wasm.utf8 name).length : Nat)
          (start + (Wasm.utf8 name).length + payload.length : Nat) = payload := by
        have h : start + (Wasm.utf8 name).length + payload.length ≤ u8.bytes.length := by
          rw [View.length_bytes]
          exact hlength
        have hslice := Bytes.slice_eq_window h
        rw [hpayloadBytes] at hslice
        exact_mod_cast hslice
      have hhead : u8.bytes[before.length]? = some 0 := by simp [hu8]
      have hnext : start + (Wasm.utf8 name).length + payload.length =
          before.length + (0 :: (size ++ (nameSize ++ Wasm.utf8 name ++ payload))).length := by
        simp only [List.length_append, List.length_cons]
        omega
      simp only [parseSection, hread, hhead, if_true, hreadName, hend, hfrom, hpayload,
        toStringUtf8_utf8, addSection_customSection]
      rw [hnext]

/-! ### All sections -/

/-- The loop reads all sections: the induction is on the sections, and the map holds those
read so far. -/
theorem parseSections_encodes {before bs : List UInt8} {xs : List Wasm.Section}
    (hxs : Wasm.EncodesSections bs xs) (hu8 : u8.bytes = before ++ bs) {rounds : Nat}
    (hrounds : bs.length ≤ rounds) (read : List Wasm.Section) :
    parseSections lossy u8 rounds before.length (fun n => Wasm.customSection n read) =
      some (.ok fun n => Wasm.customSection n (read ++ xs)) := by
  have hlength : u8.length = before.length + bs.length := by
    rw [← View.length_bytes, hu8, List.length_append]
  induction hxs generalizing before rounds read with
  | nil =>
      have hend : ¬before.length < u8.length := by
        rw [hlength]
        simp
      unfold parseSections
      rw [if_neg hend, List.append_nil]
  | @cons bs bs' x xs hx hxs ih =>
      have hpos := hx.length_pos
      rw [List.length_append] at hrounds hlength
      have hmore : before.length < u8.length := by omega
      obtain ⟨rounds, rfl⟩ : ∃ k, rounds = k + 1 := ⟨rounds - 1, by omega⟩
      have hsection : parseSection lossy u8 before.length (fun n => Wasm.customSection n read) =
          .ok (before.length + bs.length, fun n => Wasm.customSection n (read ++ [x])) :=
        parseSection_encodes hx (by rw [hu8, List.append_assoc]) read
      have hrest : parseSections lossy u8 rounds (before ++ bs).length
          (fun n => Wasm.customSection n (read ++ [x])) =
          some (.ok fun n => Wasm.customSection n (read ++ [x] ++ xs)) :=
        ih (by rw [hu8, List.append_assoc]) (by omega) (read ++ [x])
          (by rw [List.length_append]; omega)
      rw [List.length_append, List.append_assoc] at hrest
      unfold parseSections
      rw [if_pos hmore]
      simp only [hsection]
      exact hrest

/-- **The parser finds the custom sections of a module.** -/
theorem parseCustomSections_encodes {xs : List Wasm.Section}
    (h : Wasm.EncodesModule u8.bytes xs) :
    parseCustomSections lossy u8 = some (.ok fun n => Wasm.customSection n xs) := by
  obtain ⟨bs, hbs, hu8⟩ := h
  have hlength : u8.length = 8 + bs.length := by
    rw [← View.length_bytes, hu8, List.length_append]
    rfl
  have hrounds : bs.length ≤ u8.length := by omega
  unfold parseCustomSections
  rw [if_neg (by omega)]
  exact parseSections_encodes hbs hu8 hrounds []

/-! ### The module -/

/-- The pieces come one after the other. -/
theorem mergeInto_eq (done : List UInt8) (as : List (List UInt8)) :
    mergeInto (done ++ List.replicate (as.map List.length).sum 0) done.length as =
      done ++ as.flatten := by
  induction as generalizing done with
  | nil => simp [mergeInto]
  | cons a as ih =>
      have hsplice : Bytes.splice (done ++ List.replicate ((a :: as).map List.length).sum 0) a
          done.length = (done ++ a) ++ List.replicate (as.map List.length).sum 0 := by
        simp [Bytes.splice, List.drop_append, List.drop_replicate]
      have hrest := ih (done ++ a)
      rw [List.length_append] at hrest
      rw [mergeInto, hsplice, hrest]
      simp

theorem lookupModule_eq {customSections : Name → List (List UInt8)} {xs : List Wasm.Section}
    (h : ∀ n, customSections n = Wasm.payloads n xs) (n : Name) :
    lookupModule customSections n = Wasm.customSection n xs := by
  unfold lookupModule Wasm.customSection
  rw [h n]
  cases hps : Wasm.payloads n xs with
  | nil => rfl
  | cons p ps =>
      cases ps with
      | nil => simp
      | cons q qs => exact congrArg some (mergeInto_eq [] (p :: q :: qs))

/-- A module in the middle of a buffer, with a section in two pieces and a padded size. -/
def twoPieces : View where
  buffer := [9, 0x00, 0x61, 0x73, 0x6d, 0x01, 0x00, 0x00, 0x00, 0, 3, 1, 97, 7, 1, 1, 0,
    0, 0x83, 0x00, 1, 97, 8]
  byteOffset := 1
  length := 22
  fits := by decide

theorem twoPieces_encodes : Wasm.EncodesModule twoPieces.bytes
    [.custom ['a'] [7], .other 1 [0], .custom ['a'] [8]] := by
  have hname : Wasm.EncodesBytes [1, 97] (Wasm.utf8 ['a']) :=
    ⟨[1], .last (by decide) (by decide), by decide⟩
  have hfirst : Wasm.EncodesSection [0, 3, 1, 97, 7] (.custom ['a'] [7]) :=
    .custom hname ⟨[3], .last (by decide) (by decide), rfl⟩
  have hsecond : Wasm.EncodesSection [1, 1, 0] (.other 1 [0]) :=
    .other (by decide) ⟨[1], .last (by decide) (by decide), rfl⟩
  have hthird : Wasm.EncodesSection [0, 0x83, 0x00, 1, 97, 8] (.custom ['a'] [8]) :=
    .custom hname ⟨[0x83, 0x00], .more (by decide) (by decide) (.last (by decide) (by decide)), rfl⟩
  exact ⟨_, .cons hfirst (.cons hsecond (.cons hthird .nil)), rfl⟩

end TurbopackWasi.Link
