import TurbopackWasi.Plugin.Simulation

/-!
# TurbopackWasi.Plugin.Dispatch

**A call of an import runs the closure of that name.** The names cross as one blob, joined
by newlines; the worker's index map is read off its lines. The index of the import takes
`args[0]`, so that the arguments come one word later than `serve` reads the first of them
when it is full: eight arguments do not fit a block of eight words. And a forwarder
returns one number, whatever the type of its import.

A call is followed through its four pieces of code: the forwarder up to its hand-off
(`forwarded`), `serve` on the words it finds (`entered`), the end of the `OP_IMPORT`
branch, and the forwarder once more (`returned`). The words change between them only as
the closure's own operations change them.
-/

namespace TurbopackWasi.Plugin

open TurbopackWasi.Lib

variable {W : World}

/-! ### The index map -/

theorem nameToIdx_eq_none {lines : List Char} {n : Name} :
    nameToIdx lines n = none ↔ n ∉ lines.splitOn '\n' := by
  rw [nameToIdx, List.lookup_eq_none_iff]
  constructor
  · intro h hmem
    obtain ⟨i, hi⟩ := List.getElem?_of_mem hmem
    have hpair : (n, i) ∈ ((lines.splitOn '\n').zipIdx).reverse := by
      rw [List.mem_reverse, List.mem_zipIdx_iff_getElem?]
      simpa using hi
    simpa using h _ hpair
  · intro h p hp
    rw [List.mem_reverse] at hp
    have hmem : p.1 ∈ lines.splitOn '\n' := List.fst_mem_of_mem_zipIdx hp
    rw [bne_iff_ne]
    intro heq
    exact h (heq ▸ hmem)

/-- On distinct lines the map is the position of a line. -/
theorem nameToIdx_of_nodup {lines : List Char} (hnd : (lines.splitOn '\n').Nodup) {n : Name}
    {i : Nat} (h : (lines.splitOn '\n')[i]? = some n) : nameToIdx lines n = some i := by
  cases hidx : nameToIdx lines n with
  | none => exact absurd (List.mem_of_getElem? h) (nameToIdx_eq_none.mp hidx)
  | some j =>
      have hj := nameToIdx_eq_some hidx
      have hlt := (List.getElem?_eq_some_iff.mp h).1
      rw [(List.getElem?_inj hlt hnd).mp (h.trans hj.symm)]

/-- The names that the worker decodes. -/
def Job.lines (J : Job W) : List Char := textDecode W.engine.lossy J.names.bytes

theorem Job.lines_eq (J : Job W) : J.lines = stripBom (namesBlob (J.imports.map Prod.fst)) := by
  rw [Job.lines, J.names_eq, textDecode_utf8]

/-- The name that the first import has. -/
def Job.firstName (J : Job W) : Option Name := (J.imports.map Prod.fst).head?

/-- Unless the first name begins with a byte order mark, the lines are the names. -/
theorem splitOn_lines {J : Job W} (hne : J.imports ≠ [])
    (hnl : ∀ n ∈ J.imports.map Prod.fst, '\n' ∉ n)
    (hbom : ∀ n, J.firstName = some n → n.head? ≠ some '\uFEFF') :
    J.lines.splitOn '\n' = J.imports.map Prod.fst := by
  have hne' : J.imports.map Prod.fst ≠ [] := by simpa using hne
  have hstrip : stripBom (namesBlob (J.imports.map Prod.fst)) =
      namesBlob (J.imports.map Prod.fst) := by
    cases hn : J.imports.map Prod.fst with
    | nil => rfl
    | cons n ns =>
        have hfirst := hbom n (by rw [Job.firstName, hn]; rfl)
        have hkeep : stripBom n = n := by
          cases n with
          | nil => rfl
          | cons c cs =>
              have hc : c ≠ '\uFEFF' := by simpa using hfirst
              simp [stripBom, hc]
        rw [stripBom_namesBlob, hkeep]
  rw [J.lines_eq, hstrip, splitOn_namesBlob hne' hnl]

/-! ### One call -/

/-- A call of `env.<name>`: the stub of an unknown name throws, and any other is forwarded. -/
theorem pRun_call {s : State W} {m : W.engine.Module} {i : Inst W.engine.Priv} {phase : Phase}
    {f f' : W.engine.Frame} {name : Name} {args : List Word} {hasResult : Bool}
    (h : W.engine.step m f i = .call name args hasResult f') :
    (pRun s m i phase f).p =
      match nameToIdx s.host.names name with
      | none => reportError
      | some idx => makeForwarder idx args ⟨phase, hasResult, f'⟩ := by
  rw [pRun, h]
  dsimp only
  cases nameToIdx s.host.names name with
  | none => rfl
  | some idx => rfl

/-- Where `serve` arrives on waking. -/
def entered (J : Job W) (top : Top W) (words : Nat → Word) : TPoint W :=
  ((serveCode J top (words fOp)).run words).2

/-- What the engine makes of the number that an imported function returns, for an import with
this many results: only an iterable stands for several. -/
def toResults : Nat → Word → Option (List Word)
  | 0, _ => some []
  | 1, v => some [v]
  | _, _ => none

/-- The words that `serve` hands over once the closure has returned. -/
def answered (rets : Nat) (outs : List Word) (top : Top W) (words : Nat → Word) : Nat → Word :=
  ((importDone rets outs top).run words).1

/-- The results of the import, in the words that the forwarder wakes to. -/
def returned (rets : Nat) (words : Nat → Word) : Option (List Word) :=
  if words fOp = opDone then toResults rets (words fRets) else none

/-- With at most one result, this is what the plugin resumes with. -/
theorem forwardCode_returned (h : Host W) (x : Suspended W) (words : Nat → Word)
    (hop : words fOp = opDone) :
    ∃ results, returned (if x.hasResult then 1 else 0) words = some results ∧
      ((forwardCode h x (words fOp)).run words).2 =
        .run x.phase (W.engine.resume x.frame results.head?) := by
  cases hx : x.hasResult with
  | true => exact ⟨[words fRets], by simp [returned, hop, toResults], by simp [forwardCode, hop, hx]⟩
  | false => exact ⟨[], by simp [returned, hop, toResults], by simp [forwardCode, hop, hx]⟩

/-- A call of `name` with these arguments runs its closure on them, and its results are those
of the call. -/
structure Faithful (J : Job W) (idx : Nat) (name : Name) (func : Func W.guest)
    (args : List Word) : Prop where
  /-- The forwarder overwrites `op` and `args[0..=n]` only. -/
  frame : ∀ words j, forwarded idx args words j ≠ words j →
    j = fOp ∨ ∃ a, a ≤ args.length ∧ a < nArgs ∧ j = fArgs + a
  enters : ∀ words top,
    entered J top (forwarded idx args words) = .enter name func args top
  /-- `serve` overwrites `op` and `rets[0..n]` only. -/
  frameBack : ∀ outs (top : Top W) words j, answered func.sign.2 outs top words j ≠ words j →
    j = fOp ∨ ∃ a, a < func.sign.2 ∧ a < nRets ∧ j = fRets + a
  returns : ∀ outs (top : Top W) words, outs.length = func.sign.2 →
    returned func.sign.2 (answered func.sign.2 outs top words) = some outs

/-- Every import of the job reaches its closure, and no other name reaches any. -/
structure Dispatches (J : Job W) : Prop where
  known : ∀ name func, (name, func) ∈ J.imports → ∀ args, args.length = func.sign.1 →
    ∃ idx, nameToIdx J.lines name = some idx ∧ Faithful J idx name func args
  unknown : ∀ name, name ∉ J.imports.map Prod.fst → nameToIdx J.lines name = none

/-! ### The stores of both sides -/

theorem forwarded_frame {idx : Nat} {args : List Word} (hargs : args.length < nArgs)
    (words : Nat → Word) (j : Nat) (h : forwarded idx args words j ≠ words j) :
    j = fOp ∨ ∃ a, a ≤ args.length ∧ a < nArgs ∧ j = fArgs + a := by
  by_contra hnot
  push Not at hnot
  obtain ⟨hop, hother⟩ := hnot
  refine h ?_
  rw [forwarded]
  refine Code.storeAll_of_not_mem _ fun a ha => ?_
  rcases List.mem_append.mp ha with ha | ha
  · rcases List.mem_cons.mp ha with rfl | ha
    · exact (hother 0 (Nat.zero_le _) (by decide)).symm
    · obtain ⟨b, hb, rfl⟩ := List.mem_map.mp ha
      have hlt : b.2 < args.length := by
        have hle := (List.mem_zipIdx hb).2.1
        omega
      have hne := hother (b.2 + 1) hlt (by omega)
      show fArgs + 1 + b.2 ≠ j
      omega
  · obtain rfl := List.mem_singleton.mp ha
    exact Ne.symm hop

theorem length_outVals (n : Nat) (outs : List Word) : (outVals n outs).length = n := by
  simp [outVals]

theorem answered_frame (rets : Nat) (outs : List Word) (top : Top W) (words : Nat → Word) (j : Nat)
    (h : answered rets outs top words j ≠ words j) :
    j = fOp ∨ ∃ a, a < rets ∧ a < nRets ∧ j = fRets + a := by
  by_contra hnot
  push Not at hnot
  obtain ⟨hop, hother⟩ := hnot
  refine h ?_
  rw [answered, importDone, Code.run_stores, Code.run_done]
  refine Code.storeAll_of_not_mem _ fun a ha => ?_
  rcases List.mem_append.mp ha with ha | ha
  · obtain ⟨b, hb, rfl⟩ := List.mem_map.mp ha
    have hlt : b.2 < min rets nRets := by
      have hle := (List.mem_zipIdx hb).2.1
      rw [length_outVals] at hle
      omega
    exact (hother b.2 (by omega) (by omega)).symm
  · obtain rfl := List.mem_singleton.mp ha
    exact Ne.symm hop

/-- One result, or none, is handed over. -/
theorem returned_answered {rets : Nat} (hrets : rets ≤ 1) {outs : List Word}
    (hlen : outs.length = rets) (top : Top W) (words : Nat → Word) :
    returned rets (answered rets outs top words) = some outs := by
  obtain hzero | hone : rets = 0 ∨ rets = 1 := by omega
  · subst hzero
    obtain rfl := List.length_eq_zero_iff.mp hlen
    rfl
  · subst hone
    obtain ⟨v, rfl⟩ := List.length_eq_one_iff.mp hlen
    rfl

/-- `serve` on the words of a forwarder. -/
theorem entered_forwarded (J : Job W) {idx : Nat} {name : Name} {func : Func W.guest}
    {args : List Word} (hidx : idx < J.imports.length) (hentry : J.imports[idx]? = some (name, func))
    (words : Nat → Word) (top : Top W) :
    entered J top (forwarded idx args words) =
      if nArgs ≤ func.sign.1 ∨ nRets < func.sign.2 then .panicked
      else .enter name func
        ((List.range (min func.sign.1 (nArgs - 1))).map
          fun j => forwarded idx args words (fArgs + 1 + j)) top := by
  obtain ⟨hop, hfirst, -⟩ := forwarded_get idx args words
  have htoNat : (BitVec.ofNat 32 idx).toNat = idx := by
    rw [BitVec.toNat_ofNat]
    exact Nat.mod_eq_of_lt (hidx.trans (length_imports J))
  rw [entered, hop]
  simp only [serveCode, if_neg (show opImport ≠ opDone by decide),
    if_neg (show opImport ≠ opError by decide), if_true, Code.run_load, hfirst, htoNat, hentry,
    Code.run_loads]
  split <;> simp [List.map_map, Function.comp_def]

/-- Whatever `serve` finds, it enters no closure of eight arguments. -/
theorem lt_of_entered {J : Job W} {top : Top W} {words : Nat → Word} {name : Name}
    {func : Func W.guest} {args : List Word} (hop : words fOp = opImport)
    (h : entered J top words = .enter name func args top) : func.sign.1 < nArgs := by
  simp only [entered, hop, serveCode, if_neg (show opImport ≠ opDone by decide),
    if_neg (show opImport ≠ opError by decide), if_true, Code.run_load] at h
  cases hentry : J.imports[(words fArgs).toNat]? with
  | none =>
      rw [hentry] at h
      cases top with
      | init => cases h
      | transform c => cases h
  | some e =>
      obtain ⟨name', func'⟩ := e
      rw [hentry] at h
      simp only [Code.run_loads] at h
      split at h
      · cases h
      · next hno =>
          simp only [Code.run_done, TPoint.enter.injEq] at h
          rw [← h.2.1]
          exact Nat.lt_of_not_le fun hle => hno (Or.inl hle)

/-- With fewer than eight arguments all of them arrive. -/
theorem forwarded_args {idx : Nat} {args : List Word} {n : Nat} (hlen : args.length = n)
    (hn : n < nArgs) (words : Nat → Word) :
    ((List.range (min n (nArgs - 1))).map fun j => forwarded idx args words (fArgs + 1 + j)) =
      args := by
  obtain ⟨-, -, hargs⟩ := forwarded_get idx args words
  have hmin : min n (nArgs - 1) = args.length := by omega
  rw [hmin]
  refine List.ext_getElem (by simp) fun j h₁ h₂ => ?_
  rw [List.getElem_map, List.getElem_range]
  exact hargs j h₂

/-! ### When calls are dispatched -/

section Exact

variable {J : Job W}

theorem faithful_of_getElem? {idx : Nat} {name : Name} {func : Func W.guest} {args : List Word}
    (hentry : J.imports[idx]? = some (name, func)) (hlen : args.length = func.sign.1)
    (hargs : func.sign.1 < nArgs) (hrets : func.sign.2 ≤ 1) : Faithful J idx name func args where
  frame words j := forwarded_frame (by omega) words j
  enters words top := by
    have hlt := (List.getElem?_eq_some_iff.mp hentry).1
    have hno : ¬(nArgs ≤ func.sign.1 ∨ nRets < func.sign.2) := by
      show ¬(8 ≤ func.sign.1 ∨ 4 < func.sign.2)
      have hargs' : func.sign.1 < 8 := hargs
      omega
    rw [entered_forwarded J hlt hentry, if_neg hno, forwarded_args hlen hargs]
  frameBack outs top words j := answered_frame _ outs top words j
  returns outs top words hout := returned_answered hrets hout top words

/-- A first name with a byte order mark is not found. -/
theorem bom_of_dispatches (hnd : (J.imports.map Prod.fst).Nodup)
    (hnl : ∀ n ∈ J.imports.map Prod.fst, '\n' ∉ n) (h : Dispatches J) :
    ∀ n, J.firstName = some n → n.head? ≠ some '\uFEFF' := by
  intro n hn hmark
  cases himports : J.imports with
  | nil => simp [Job.firstName, himports] at hn
  | cons e rest =>
      obtain ⟨name, func⟩ := e
      obtain rfl : name = n := by simpa [Job.firstName, himports] using hn
      have hmem : (name, func) ∈ J.imports := by
        rw [himports]
        exact List.mem_cons_self
      obtain ⟨idx, hidx, -⟩ :=
        h.known name func hmem (List.replicate func.sign.1 0) List.length_replicate
      have hget := nameToIdx_eq_some hidx
      have hnl' : ∀ l ∈ stripBom name :: rest.map Prod.fst, '\n' ∉ l := by
        intro l hl
        rw [himports, List.map_cons] at hnl
        rcases List.mem_cons.mp hl with rfl | hl
        · exact not_mem_stripBom (hnl name List.mem_cons_self)
        · exact hnl l (List.mem_cons_of_mem _ hl)
      rw [J.lines_eq, himports, List.map_cons, stripBom_namesBlob,
        splitOn_namesBlob (by simp) hnl'] at hget
      cases idx with
      | zero =>
          -- the first line is the name without its mark
          cases name with
          | nil => cases hmark
          | cons c cs =>
              obtain rfl : c = '\uFEFF' := by simpa using hmark
              simp [stripBom] at hget
      | succ idx =>
          rw [List.getElem?_cons_succ] at hget
          have hlater : name ∈ rest.map Prod.fst := List.mem_of_getElem? hget
          rw [himports, List.map_cons, List.nodup_cons] at hnd
          exact hnd.1 hlater

/-- Without imports the blob still has a line, the empty one. -/
theorem ne_nil_of_dispatches (h : Dispatches J) : J.imports ≠ [] := by
  intro hnil
  have hnone := h.unknown [] (by simp [hnil])
  have hlines : J.lines = [] := by
    rw [J.lines_eq, hnil]
    rfl
  rw [nameToIdx_eq_none, hlines] at hnone
  exact hnone (by simp)

theorem sign_of_dispatches (h : Dispatches J) {e : Name × Func W.guest} (he : e ∈ J.imports) :
    e.2.sign.1 < nArgs ∧ e.2.sign.2 ≤ 1 := by
  obtain ⟨name, func⟩ := e
  obtain ⟨idx, -, hfaithful⟩ :=
    h.known name func he (List.replicate func.sign.1 0) List.length_replicate
  have hrets : func.sign.2 ≤ 1 := by
    have hret := hfaithful.returns (List.replicate func.sign.2 0) .init (fun _ => 0)
      List.length_replicate
    by_contra hmany
    obtain ⟨k, hk⟩ : ∃ k, func.sign.2 = k + 2 := ⟨func.sign.2 - 2, by omega⟩
    rw [hk, returned] at hret
    split at hret
    · cases hret
    · cases hret
  have hop := (forwarded_get idx (List.replicate func.sign.1 0) (fun _ => 0)).1
  exact ⟨lt_of_entered hop (hfaithful.enters (fun _ => 0) .init), hrets⟩

/-- **Every call runs the closure of its name** with its arguments and results, and no
other name runs one, exactly if there is an import, the first name has no byte order mark,
and every closure takes at most seven arguments and returns at most one result. -/
theorem dispatches_iff (hnd : (J.imports.map Prod.fst).Nodup)
    (hnl : ∀ n ∈ J.imports.map Prod.fst, '\n' ∉ n) :
    Dispatches J ↔ J.imports ≠ [] ∧ (∀ n, J.firstName = some n → n.head? ≠ some '\uFEFF') ∧
      ∀ e ∈ J.imports, e.2.sign.1 < nArgs ∧ e.2.sign.2 ≤ 1 := by
  constructor
  · intro h
    exact ⟨ne_nil_of_dispatches h, bom_of_dispatches hnd hnl h, fun e => sign_of_dispatches h⟩
  · intro h
    obtain ⟨hne, hbom, hsmall⟩ := h
    have hlines := splitOn_lines hne hnl hbom
    constructor
    · intro name func hmem args hlen
      obtain ⟨idx, hidx⟩ := List.getElem?_of_mem hmem
      have hline : (J.lines.splitOn '\n')[idx]? = some name := by
        rw [hlines, List.getElem?_map, hidx]
        rfl
      refine ⟨idx, nameToIdx_of_nodup (hlines ▸ hnd) hline, ?_⟩
      exact faithful_of_getElem? hidx hlen (hsmall _ hmem).1 (hsmall _ hmem).2
    · intro name hno
      rw [nameToIdx_eq_none, hlines]
      exact hno

end Exact

/-- One import, `f`, with this signature. -/
def signedJob (sign : Nat × Nat) : Job (scriptWorld []) :=
  { scriptJob [] [] [] with
    imports := [(['f'], ⟨sign, fun _ => []⟩)]
    names_eq := rfl }

/-- The largest signature that is forwarded faithfully. -/
theorem dispatches_seven : Dispatches (signedJob (7, 1)) :=
  (dispatches_iff (by simp [signedJob]) (by simp [signedJob])).mpr
    ⟨by simp [signedJob], by simp [signedJob, Job.firstName], by simp [signedJob, nArgs]⟩

/-- Eight arguments, and two results, are within the limits of the block. -/
theorem eight_not_dispatches :
    (∀ e ∈ (signedJob (8, 0)).imports, e.2.sign.1 ≤ nArgs ∧ e.2.sign.2 ≤ nRets) ∧
      ¬Dispatches (signedJob (8, 0)) ∧
      (∀ e ∈ (signedJob (0, 2)).imports, e.2.sign.1 ≤ nArgs ∧ e.2.sign.2 ≤ nRets) ∧
      ¬Dispatches (signedJob (0, 2)) := by
  refine ⟨by simp [signedJob, nArgs], ?_, by simp [signedJob, nRets], ?_⟩
  · intro h
    have hargs := (sign_of_dispatches h (e := (['f'], ⟨(8, 0), fun _ => []⟩)) (by simp [signedJob])).1
    exact absurd hargs (by decide)
  · intro h
    have hrets := (sign_of_dispatches h (e := (['f'], ⟨(0, 2), fun _ => []⟩)) (by simp [signedJob])).2
    exact absurd hrets (by decide)

end TurbopackWasi.Plugin
