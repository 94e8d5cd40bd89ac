import TurbopackWasi.Plugin.Conformance

/-!
# TurbopackWasi.Plugin.Windows

**Which bytes the bulk transfers move.** A guest buffer crosses as two `i32` words, an
address and a length, and the worker reads a word as a signed number. From 2^31 on an
address is negative: `set` and the view constructor throw, `slice` counts from the end of
the memory.

`moves_iff` says for which buffers and plugin addresses the transfers nevertheless move
the bytes they are asked to move. Here a buffer lies anywhere in the guest's memory; that
of `World` lies below 2^31.
-/

namespace TurbopackWasi.Plugin

open TurbopackWasi.Lib

variable {W : World}

/-! ### The words of a request -/

/-- The words of `read_buf` and `write_buf` for a buffer. -/
def bufferArgs (ptr addr : Word) (len : Nat) : List (Nat × Word) :=
  [(fArgs, ptr), (fDataPtr, addr), (fDataLen, .ofNat 32 len)]

/-- The words of `start`. -/
def startArgs (moduleAddr : Word) (moduleLen : Nat) (namesAddr : Word) (namesLen : Nat) :
    List (Nat × Word) :=
  [(fModulePtr, moduleAddr), (fModuleLen, .ofNat 32 moduleLen), (fNamesPtr, namesAddr),
    (fNamesLen, .ofNat 32 namesLen)]

theorem callerCode_readBuf (ptr : Word) (buf : Buf W.memSize) (r : Asker W) :
    callerCode (.readBuf ptr buf) r =
      .stores (bufferArgs ptr (.ofNat 32 buf.addr) buf.len ++ [(fOp, opCallerRead)])
        (.done (.give (some (.request (.readBuf ptr buf) r)))) := rfl

theorem callerCode_writeBuf (ptr : Word) (buf : Slice W.memSize) (r : Asker W) :
    callerCode (.writeBuf ptr buf) r =
      .stores (bufferArgs ptr (.ofNat 32 buf.addr) buf.bytes.length ++ [(fOp, opCallerWrite)])
        (.done (.give (some (.request (.writeBuf ptr buf) r)))) := rfl

theorem startCode_eq (J : Job W) :
    startCode J =
      .stores (startArgs (.ofNat 32 J.module.addr) J.module.bytes.length
          (.ofNat 32 J.names.addr) J.names.bytes.length ++ [(fOp, opInit)])
        (.done .signal) := rfl

/-- Where the worker's code arrives on these words and this op. -/
def arrives (c : Word → PCode W) (words : Nat → Word) (args : List (Nat × Word)) (op : Word) :
    PPoint W :=
  ((c op).run (Code.storeAll words (args ++ [(fOp, op)]))).2

theorem arrives_read (words : Nat → Word) (ptr addr : Word) (len : Nat) (k : PWait W) :
    arrives (serviceCaller true · k) words (bufferArgs ptr addr len) opCallerRead =
      .service (.read ptr addr (.ofNat 32 len)) k := rfl

theorem arrives_write (words : Nat → Word) (ptr addr : Word) (len : Nat) (k : PWait W) :
    arrives (serviceCaller true · k) words (bufferArgs ptr addr len) opCallerWrite =
      .service (.write ptr addr (.ofNat 32 len)) k := rfl

theorem arrives_init (words : Nat → Word) (h : Host W) (ma na : Word) (ml nl : Nat) :
    arrives (loopCode h) words (startArgs ma ml na nl) opInit =
      .instantiate ma (.ofNat 32 ml) na (.ofNat 32 nl) := rfl

/-! ### What a transfer must do -/

/-- The bytes that `instantiatePlugin` copies out of the guest. -/
def initBytes (mem : List UInt8) (ptr len : Word) : List UInt8 :=
  Bytes.slice mem ptr.toInt (ptr.toInt + len.toInt)

theorem pPoint_instantiate (s : State W) (mp ml np nl : Word) :
    pPoint s (.instantiate mp ml np nl) =
      some { s with
        host := (instantiatePlugin (initBytes s.mem mp ml) (initBytes s.mem np nl) s.host).1
        p := (instantiatePlugin (initBytes s.mem mp ml) (initBytes s.mem np nl) s.host).2 } := rfl

/-- The worker answers `OP_DONE`, with these memories. -/
structure Transferred (s : State W) (m : W.engine.Module) (i : Inst W.engine.Priv) (k : PWait W)
    (mem pluginMem : List UInt8) : Prop where
  mem : s.mem = mem
  live : s.host.live = some (m, { i with mem := pluginMem })
  done : s.p = reportDone k

/-- The worker answers `OP_ERROR`, and no memory has changed. -/
structure Refused (s : State W) (m : W.engine.Module) (i : Inst W.engine.Priv)
    (mem : List UInt8) : Prop where
  mem : s.mem = mem
  live : s.host.live = some (m, i)
  error : s.p = reportError

/-- The transfers between the `n` bytes at `g` in a guest memory of `L` bytes, and `p` in a
plugin memory of `PL` bytes, move exactly these bytes, whatever the memories hold. -/
structure Moves (L PL n : Nat) (g p : Word) : Prop where
  read : ∀ {W : World} (s : State W) (m : W.engine.Module) (i : Inst W.engine.Priv)
    (k : PWait W), s.mem.length = L → i.mem.length = PL → s.host.live = some (m, i) →
    ∃ x, arrives (serviceCaller true · k) s.chan.words (bufferArgs p g n) opCallerRead =
        .service x k ∧
      if p.toNat + n ≤ PL then
        ∃ mem, Bytes.Written s.mem mem g.toNat (Bytes.window i.mem p.toNat n) ∧
          Transferred (pService s m i k x) m i k mem i.mem
      else Refused (pService s m i k x) m i s.mem
  write : ∀ {W : World} (s : State W) (m : W.engine.Module) (i : Inst W.engine.Priv)
    (k : PWait W), s.mem.length = L → i.mem.length = PL → s.host.live = some (m, i) →
    ∃ x, arrives (serviceCaller true · k) s.chan.words (bufferArgs p g n) opCallerWrite =
        .service x k ∧
      if p.toNat + n ≤ PL then
        ∃ pluginMem, Bytes.Written i.mem pluginMem p.toNat (Bytes.window s.mem g.toNat n) ∧
          Transferred (pService s m i k x) m i k s.mem pluginMem
      else Refused (pService s m i k x) m i s.mem
  /-- As the module bytes of `start`. -/
  module : ∀ {W : World} (h : Host W) (words : Nat → Word) (mem : List UInt8) (na : Word)
    (nl : Nat), mem.length = L →
    ∃ mp ml np nl', arrives (loopCode h) words (startArgs g n na nl) opInit =
        .instantiate mp ml np nl' ∧
      initBytes mem mp ml = Bytes.window mem g.toNat n
  /-- As its names blob. -/
  names : ∀ {W : World} (h : Host W) (words : Nat → Word) (mem : List UInt8) (ma : Word)
    (ml : Nat), mem.length = L →
    ∃ mp ml' np nl, arrives (loopCode h) words (startArgs ma ml g n) opInit =
        .instantiate mp ml' np nl ∧
      initBytes mem np nl = Bytes.window mem g.toNat n

/-! ### Signed addresses -/

theorem toInt_of_lt {x : Word} (h : x.toNat < 2 ^ 31) : x.toInt = x.toNat := by
  rw [BitVec.toInt_eq_toNat_cond, if_pos (by omega)]

theorem toInt_of_le {x : Word} (h : 2 ^ 31 ≤ x.toNat) : x.toInt = x.toNat - 2 ^ 32 := by
  rw [BitVec.toInt_eq_toNat_cond, if_neg (by omega)]
  norm_cast

/-- `slice` finds the window at the signed reading of its address. -/
def InPlace (L n g : Nat) : Prop := g < 2 ^ 31 ∨ n = 0 ∨ (L = 2 ^ 32 ∧ g + n < 2 ^ 32)

theorem initBytes_eq {mem : List UInt8} {g : Word} {n : Nat} (hn : n < 2 ^ 31)
    (hfit : g.toNat + n ≤ mem.length) (h : InPlace mem.length n g.toNat) :
    initBytes mem g (.ofNat 32 n) = Bytes.window mem g.toNat n := by
  rw [initBytes, toInt_ofNat hn]
  rcases h with hlow | rfl | ⟨hfull, hend⟩
  · rw [toInt_of_lt hlow]
    exact Bytes.slice_eq_window hfit
  · simp [Bytes.slice, Bytes.window]
  · by_cases hlow : g.toNat < 2 ^ 31
    · rw [toInt_of_lt hlow]
      exact Bytes.slice_eq_window hfit
    · -- in a memory of 2^32 bytes, counting from the end gives the address back
      rw [toInt_of_le (by omega)]
      exact Bytes.slice_neg_eq_window (by omega) (by omega)

/-- Otherwise it finds other bytes, unless they happen to be the same. -/
theorem exists_initBytes_ne {L n : Nat} {g : Word} (hL : L ≤ 2 ^ 32) (hn : n < 2 ^ 31)
    (hfit : g.toNat + n ≤ L) (h : ¬InPlace L n g.toNat) :
    ∃ mem : List UInt8, mem.length = L ∧
      initBytes mem g (.ofNat 32 n) ≠ Bytes.window mem g.toNat n := by
  have hhigh : 2 ^ 31 ≤ g.toNat := Nat.le_of_not_lt fun hlt => h (Or.inl hlt)
  have hpos : 0 < n := Nat.pos_of_ne_zero fun hzero => h (Or.inr (Or.inl hzero))
  have hsigned : g.toInt < 0 := by
    rw [toInt_of_le hhigh]
    omega
  -- zeros below the window, ones from it on
  let mem : List UInt8 := List.replicate g.toNat 0 ++ List.replicate (L - g.toNat) 1
  have hlen : mem.length = L := by
    simp only [mem, List.length_append, List.length_replicate]
    omega
  have hwindow : (Bytes.window mem g.toNat n)[0]? = some 1 := by
    rw [Bytes.window, List.getElem?_take, if_pos hpos, List.getElem?_drop, Nat.add_zero,
      List.getElem?_append_right (by simp), List.length_replicate, Nat.sub_self,
      List.getElem?_replicate, if_pos (by omega)]
  refine ⟨mem, hlen, fun heq => ?_⟩
  rw [← heq, initBytes, toInt_ofNat hn] at hwindow
  by_cases hfull : L = 2 ^ 32
  · have hend : g.toInt + n = 0 := by
      have hge : ¬(g.toNat + n < 2 ^ 32) := fun hlt => h (Or.inr (Or.inr ⟨hfull, hlt⟩))
      rw [toInt_of_le hhigh]
      omega
    rw [hend, Bytes.slice_neg_zero hsigned] at hwindow
    cases hwindow
  · have hzero : mem[((mem.length : Int) + g.toInt).toNat]? = some 0 := by
      have hstart : ((mem.length : Int) + g.toInt).toNat < g.toNat := by
        rw [hlen, toInt_of_le hhigh]
        omega
      rw [List.getElem?_append_left (by simpa using hstart), List.getElem?_replicate,
        if_pos hstart]
    rcases Bytes.slice_neg_head (b := mem) hsigned (g.toInt + n) with hnone | hfirst
    · rw [hnone] at hwindow
      cases hwindow
    · rw [hfirst, hzero] at hwindow
      exact absurd (Option.some.inj hwindow) (by decide)

/-! ### The transfers -/

theorem reportDone_ne_reportError (k : PWait W) : reportDone k ≠ reportError := by
  intro h
  cases h

section Transfers

variable {s : State W} {m : W.engine.Module} {i : Inst W.engine.Priv} {k : PWait W} {n : Nat}
  {g p : Word}

theorem pService_read (hn : n < 2 ^ 31) (hlive : s.host.live = some (m, i))
    (hfit : g.toNat + n ≤ s.mem.length) (hg : g.toNat < 2 ^ 31) (hp : p.toNat < 2 ^ 31)
    (hin : p.toNat + n ≤ i.mem.length) :
    ∃ mem, Bytes.Written s.mem mem g.toNat (Bytes.window i.mem p.toNat n) ∧
      Transferred (pService s m i k (.read p g (.ofNat 32 n))) m i k mem i.mem := by
  have hlen := Bytes.length_window hin
  have hroom : g.toNat + (Bytes.window i.mem p.toNat n).length ≤ s.mem.length := by omega
  refine ⟨_, Bytes.written_splice hroom, ?_⟩
  rw [pService, toInt_of_lt hp, toInt_of_lt hg, toInt_ofNat hn, Bytes.view_eq_window hin]
  dsimp only
  rw [Bytes.set_eq_splice hroom]
  exact ⟨rfl, hlive, rfl⟩

/-- A read out of the plugin's range throws before it touches the guest. -/
theorem pService_read_out (hn : n < 2 ^ 31) (hlive : s.host.live = some (m, i))
    (hout : ¬p.toNat + n ≤ i.mem.length) :
    Refused (pService s m i k (.read p g (.ofNat 32 n))) m i s.mem := by
  have hview : Bytes.view i.mem p.toInt (n : Int) = none := by
    by_cases hp : p.toNat < 2 ^ 31
    · rw [toInt_of_lt hp]
      exact Bytes.view_eq_none (by omega)
    · refine Bytes.view_neg ?_ _
      rw [toInt_of_le (by omega)]
      omega
  rw [pService, toInt_ofNat hn, hview]
  exact ⟨rfl, hlive, rfl⟩

theorem pService_write (hn : n < 2 ^ 31) (hfit : g.toNat + n ≤ s.mem.length)
    (hg : InPlace s.mem.length n g.toNat)
    (hp : p.toNat < 2 ^ 31) (hin : p.toNat + n ≤ i.mem.length) :
    ∃ pluginMem, Bytes.Written i.mem pluginMem p.toNat (Bytes.window s.mem g.toNat n) ∧
      Transferred (pService s m i k (.write p g (.ofNat 32 n))) m i k s.mem pluginMem := by
  have hlen := Bytes.length_window hfit
  have hroom : p.toNat + (Bytes.window s.mem g.toNat n).length ≤ i.mem.length := by omega
  have hsrc := initBytes_eq hn hfit hg
  unfold initBytes at hsrc
  refine ⟨_, Bytes.written_splice hroom, ?_⟩
  rw [pService, hsrc, toInt_of_lt hp]
  dsimp only
  rw [Bytes.set_eq_splice hroom]
  exact ⟨rfl, rfl, rfl⟩

theorem pService_write_out (hn : n < 2 ^ 31) (hlive : s.host.live = some (m, i))
    (hfit : g.toNat + n ≤ s.mem.length) (hg : InPlace s.mem.length n g.toNat)
    (hout : ¬p.toNat + n ≤ i.mem.length) :
    Refused (pService s m i k (.write p g (.ofNat 32 n))) m i s.mem := by
  have hlen := Bytes.length_window hfit
  have hsrc := initBytes_eq hn hfit hg
  unfold initBytes at hsrc
  have hset : Bytes.set i.mem (Bytes.window s.mem g.toNat n) p.toInt = none := by
    by_cases hp : p.toNat < 2 ^ 31
    · rw [toInt_of_lt hp]
      exact Bytes.set_eq_none (by omega)
    · refine Bytes.set_neg ?_ _
      rw [toInt_of_le (by omega)]
      omega
  rw [pService, hsrc]
  dsimp only
  rw [hset]
  exact ⟨rfl, hlive, rfl⟩

/-- A read that is done has found both addresses below 2^31. -/
theorem low_of_read {len : Word} (h : (pService s m i k (.read p g len)).p = reportDone k) :
    g.toNat < 2 ^ 31 ∧ p.toNat < 2 ^ 31 := by
  rw [pService] at h
  cases hview : Bytes.view i.mem p.toInt len.toInt with
  | none =>
      rw [hview] at h
      exact absurd h.symm (reportDone_ne_reportError k)
  | some src =>
      rw [hview] at h
      dsimp only at h
      cases hset : Bytes.set s.mem src g.toInt with
      | none =>
          rw [hset] at h
          exact absurd h.symm (reportDone_ne_reportError k)
      | some mem =>
          have hp := (Bytes.view_eq_some hview).1
          have hg := (Bytes.set_eq_some hset).1
          constructor
          · by_contra hhigh
            rw [toInt_of_le (by omega)] at hg
            omega
          · by_contra hhigh
            rw [toInt_of_le (by omega)] at hp
            omega

end Transfers

/-- A channel whose plugin has `PL` bytes of memory, and the guest `L`. -/
def idleState (L PL : Nat) : State (scriptWorld []) where
  chan := .new
  mem := List.replicate L 0
  signalled := true
  t := .done .closed
  gs := ()
  p := .done .left
  host := ⟨[], some ((), ⟨List.replicate PL 0, ()⟩), true, true⟩
  log := []

section Exact

variable {L PL n : Nat} {g p : Word}

theorem low_of_moves (h : Moves L PL n g p) (hin : p.toNat + n ≤ PL) :
    g.toNat < 2 ^ 31 ∧ p.toNat < 2 ^ 31 := by
  obtain ⟨x, hx, hread⟩ := h.read (idleState L PL) () ⟨List.replicate PL 0, ()⟩ .loop
    (by simp [idleState]) (by simp) rfl
  rw [arrives_read] at hx
  obtain rfl : Service.read p g (.ofNat 32 n) = x := by
    injection hx
  rw [if_pos hin] at hread
  obtain ⟨mem, -, hdone⟩ := hread
  exact low_of_read hdone.done

theorem inPlace_of_moves (hL : L ≤ 2 ^ 32) (hn : n < 2 ^ 31) (hfit : g.toNat + n ≤ L)
    (h : Moves L PL n g p) : InPlace L n g.toNat := by
  by_contra hnot
  obtain ⟨mem, hlen, hne⟩ := exists_initBytes_ne hL hn hfit hnot
  obtain ⟨mp, ml, np, nl, hx, hbytes⟩ :=
    h.module (Host.new (W := scriptWorld [])) (fun _ => 0) mem 0 0 hlen
  rw [arrives_init] at hx
  obtain ⟨rfl, rfl⟩ : g = mp ∧ BitVec.ofNat 32 n = ml := by
    injection hx with h₁ h₂
    exact ⟨h₁, h₂⟩
  exact hne hbytes

theorem moves_of_inPlace (hn : n < 2 ^ 31) (hfit : g.toNat + n ≤ L)
    (hlow : p.toNat + n ≤ PL → g.toNat < 2 ^ 31 ∧ p.toNat < 2 ^ 31)
    (hplace : InPlace L n g.toNat) : Moves L PL n g p := by
  constructor
  · intro W s m i k hmem hpl hlive
    refine ⟨_, arrives_read .., ?_⟩
    rw [← hmem] at hfit
    rw [← hpl] at hlow ⊢
    split
    · next hin => exact pService_read hn hlive hfit (hlow hin).1 (hlow hin).2 hin
    · next hout => exact pService_read_out hn hlive hout
  · intro W s m i k hmem hpl hlive
    refine ⟨_, arrives_write .., ?_⟩
    rw [← hmem] at hfit hplace
    rw [← hpl] at hlow ⊢
    split
    · next hin => exact pService_write hn hfit hplace (hlow hin).2 hin
    · next hout => exact pService_write_out hn hlive hfit hplace hout
  · intro W h words mem na nl hlen
    refine ⟨_, _, _, _, arrives_init .., ?_⟩
    rw [← hlen] at hfit hplace
    exact initBytes_eq hn hfit hplace
  · intro W h words mem ma ml hlen
    refine ⟨_, _, _, _, arrives_init .., ?_⟩
    rw [← hlen] at hfit hplace
    exact initBytes_eq hn hfit hplace

/-- **The transfers move the bytes they are asked to move** exactly if a plugin window in
range has low addresses on both sides, and `slice` finds the guest's window. -/
theorem moves_iff (hL : L ≤ 2 ^ 32) (hn : n < 2 ^ 31) (hfit : g.toNat + n ≤ L) :
    Moves L PL n g p ↔
      (p.toNat + n ≤ PL → g.toNat < 2 ^ 31 ∧ p.toNat < 2 ^ 31) ∧ InPlace L n g.toNat :=
  ⟨fun h => ⟨low_of_moves h, inPlace_of_moves hL hn hfit h⟩,
    fun h => moves_of_inPlace hn hfit h.1 h.2⟩

end Exact

/-- A buffer low in the heap. -/
theorem moves_low : Moves (2 ^ 32) (2 ^ 20) 4 0x100000#32 0x400#32 :=
  (moves_iff (by decide) (by decide) (by decide)).mpr
    ⟨fun _ => ⟨by decide, by decide⟩, Or.inl (by decide)⟩

/-- A buffer at 2^31, in a memory of 2^32 bytes and in one that ends right after it: no read
finds it, nor, in the second, does `init`. -/
theorem highBuffer_not_moves :
    ¬Moves (2 ^ 32) (2 ^ 20) 4 0x80000000#32 0x400#32 ∧
      ¬Moves (2 ^ 31 + 4) 0 4 0x80000000#32 0x400#32 := by
  constructor
  · intro h
    have hlow := low_of_moves h (by decide)
    exact absurd hlow.1 (by decide)
  · intro h
    rcases inPlace_of_moves (by decide) (by decide) (by decide) h with hlt | hzero | hfull
    · exact absurd hlt (by decide)
    · exact absurd hzero (by decide)
    · exact absurd hfull.1 (by decide)

end TurbopackWasi.Plugin
