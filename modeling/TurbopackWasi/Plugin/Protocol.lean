import TurbopackWasi.Plugin.Bridge

/-!
# TurbopackWasi.Plugin.Protocol

**Strict alternation and protocol conformance on one channel.**

The invariant (`Inv`) ties the `turn` and `op` words to the positions of both
parties in their nested loops. It speaks about the channel as it will be once the
party at work has finished its current straight-line piece of accesses
(`State.settled`), so an access needs no argument at all and every other step
moves between control points.

For `T` at a point, `Protocol` says whose turn it is and in which wait loop `P`
sits: the loop of `serveChannel` while `T` is outside `serve`, a forwarder while
`T` runs a closure. While `T` waits, the request has either not been picked up
(`Asked`), or is being worked on (`Working`), or has been answered (`Answered`).
A worker that reported an error or died is `gone`.
-/

namespace TurbopackWasi.Plugin

open TurbopackWasi.Lib

variable {W : World}

/-! ### Positions -/

/-- The wait loop that `P` is in, is on its way to, or has just left. -/
def PPoint.frame : PPoint W → Option (PWait W)
  | .pending | .entryTurn | .entryOp => some .loop
  | .wait _ k | .woke k | .notify (some k) => some k
  | _ => none

/-- `P` is between leaving `waitForP` and the store of its next hand-off. -/
def PPoint.Owns : PPoint W → Prop
  | .woke _ | .instantiate _ _ _ _ | .run _ _ | .service _ _ | .give _ => True
  | _ => False

/-- `P` will not come back to the channel. -/
def PPoint.Gone : PPoint W → Prop
  | .notify none | .left | .dead => True
  | _ => False

def PPoint.AtLoop (p : PPoint W) : Prop := p.frame = some .loop

def PPoint.AtForward (p : PPoint W) : Prop := ∃ x, p.frame = some (.forward x)

/-- `T` is between leaving `park_until`, or the creation of the channel, and the
store of its next hand-off. -/
def TPoint.Owns : TPoint W → Prop
  | .client _ | .enter _ _ _ _ | .closure _ _ _ | .signal | .give _ | .woke _ | .answered _ _ _
  | .panicked => True
  | _ => False

/-- The wait loop that serves the caller of a `Caller` method. -/
def PPoint.Serves (p : PPoint W) : Asker W → Prop
  | .client _ => p.AtLoop
  | .closure _ _ _ => p.AtForward

/-! ### The invariant -/

/-- The windows that `P` reads on `OP_INIT` are the ones `start` stored. -/
structure Boot (J : Job W) (words : Nat → Word) (mem : List UInt8) : Prop where
  mem_eq : mem = J.mem
  modulePtr : words fModulePtr = .ofNat 32 J.module.addr
  moduleLen : words fModuleLen = .ofNat 32 J.module.bytes.length
  namesPtr : words fNamesPtr = .ofNat 32 J.names.addr
  namesLen : words fNamesLen = .ofNat 32 J.names.bytes.length

/-- `T` handed a request over for which it waits in `k` (`none`: the one of `drop`), and
`P`, at `p`, is in the loop that accepts it. -/
def Asked (J : Job W) (words : Nat → Word) (mem : List UInt8) (p : PPoint W) :
    Option (TWait W) → Prop
  | none => words fOp = opClose ∧ p.AtLoop
  | some (.serve .init) =>
      words fOp = opInit ∧ p.AtLoop ∧ Boot J words mem ∨ words fOp = opDone ∧ p.AtForward
  | some (.serve (.transform _)) =>
      words fOp = opTransform ∧ p.AtLoop ∨ words fOp = opDone ∧ p.AtForward
  | some (.request o r) => words fOp = o.op ∧ p.Serves r

/-- The request that `T` waits for in `k` has an answer. -/
def Answered (J : Job W) (words : Nat → Word) (p : PPoint W) : TWait W → Prop
  | .serve _ =>
      words fOp = opDone ∧ (p.AtLoop ∨ p.Gone) ∨ words fOp = opError ∧ p.Gone ∨
        words fOp = opImport ∧ (words fArgs).toNat < J.imports.length ∧ (p.AtForward ∨ p.Gone)
  | .request _ r =>
      words fOp = opDone ∧ (p.Serves r ∨ p.Gone) ∨ words fOp = opError ∧ p.Gone

/-- `P` works on the request that `T` waits for in `k`. -/
def Working (J : Job W) (words : Nat → Word) (mem : List UInt8) (k : TWait W) :
    PPoint W → Prop
  | .woke kp => Asked J words mem (.woke kp) (some k)
  | .instantiate mp ml np nl =>
      k = .serve .init ∧ mem = J.mem ∧ mp = .ofNat 32 J.module.addr ∧
        ml = .ofNat 32 J.module.bytes.length ∧ np = .ofNat 32 J.names.addr ∧
        nl = .ofNat 32 J.names.bytes.length
  | .run _ _ => ∃ top, k = .serve top
  | .service _ kp => ∃ o r, k = .request o r ∧ (PPoint.woke kp).Serves r
  | .give (some kp) => Answered J words (.notify (some kp)) k
  | .give none => words fOp = opError
  | _ => False

/-- `T` waits in `k`. -/
def Waiting (J : Job W) (turn : Word) (words : Nat → Word) (mem : List UInt8) (k : TWait W)
    (p : PPoint W) : Prop :=
  turn = turnT ∧ ¬p.Owns ∧ Answered J words p k ∨
    turn = turnP ∧ ¬p.Owns ∧ (Asked J words mem p (some k) ∨ p.Gone) ∨
    turn = turnP ∧ Working J words mem k p

/-- The state of the protocol, by the position of `T`. -/
def Protocol (J : Job W) (turn : Word) (words : Nat → Word) (mem : List UInt8) :
    TPoint W → PPoint W → Prop
  | .client _, p => turn = turnT ∧ ¬p.Owns ∧ (p.AtLoop ∨ p.Gone)
  | .enter _ _ _ _, p => turn = turnT ∧ ¬p.Owns ∧ (p.AtForward ∨ p.Gone)
  | .closure _ _ _, p => turn = turnT ∧ ¬p.Owns ∧ (p.AtForward ∨ p.Gone)
  | .answered _ _ r, p => turn = turnT ∧ ¬p.Owns ∧ (p.Serves r ∨ p.Gone)
  | .signal, p =>
      turn = turnT ∧ ¬p.Owns ∧ (p.AtLoop ∨ p.Gone) ∧ words fOp = opInit ∧ Boot J words mem
  | .give k, p => turn = turnT ∧ ¬p.Owns ∧ (Asked J words mem p k ∨ p.Gone)
  | .notify none, p => turn = turnP ∧ (¬p.Owns ∧ p.Gone ∨ Asked J words mem p none)
  | .closed, p => turn = turnP ∧ (¬p.Owns ∧ p.Gone ∨ Asked J words mem p none)
  | .notify (some k), p => Waiting J turn words mem k p
  | .park _ k, p => Waiting J turn words mem k p
  | .woke k, p => turn = turnT ∧ ¬p.Owns ∧ Answered J words p k
  | .dropped, p => turn = turnT ∧ ¬p.Owns ∧ p.Gone
  | .panicked, p => turn = turnT ∧ ¬p.Owns

/-- The channel's words and both positions once the current accesses are done. -/
structure View (W : World) where
  words : Nat → Word
  t : TPoint W
  p : PPoint W

def State.settled (s : State W) : View W :=
  let a := s.t.run s.chan.words
  let b := s.p.run a.1
  ⟨b.1, a.2, b.2⟩

/-- The invariant of a channel. -/
structure Inv (J : Job W) (s : State W) : Prop where
  /-- Only the holder of the turn accesses the channel in straight-line code. -/
  tCode : (∃ x, s.t = .done x) ∨ s.chan.turn = turnT
  pCode : (∃ y, s.p = .done y) ∨ s.chan.turn = turnP
  names : s.host.live ≠ none → s.host.names = stripBom (namesBlob (J.imports.map Prod.fst))
  proto : Protocol J s.chan.turn s.settled.words s.mem s.settled.t s.settled.p

theorem Inv.pDone {J : Job W} {s : State W} (hI : Inv J s) (h : s.chan.turn = turnT) :
    ∃ y, s.p = .done y :=
  hI.pCode.resolve_right (by simp [h])

theorem Inv.tDone {J : Job W} {s : State W} (hI : Inv J s) (h : s.chan.turn = turnP) :
    ∃ x, s.t = .done x :=
  hI.tCode.resolve_right (by simp [h])

/-! ### Settling -/

theorem settled_of_tDone {s : State W} {x : TPoint W} (ht : s.t = .done x) :
    s.settled = ⟨(s.p.run s.chan.words).1, x, (s.p.run s.chan.words).2⟩ := by
  simp [State.settled, ht]

theorem settled_of_pDone {s : State W} {y : PPoint W} (hp : s.p = .done y) :
    s.settled = ⟨(s.t.run s.chan.words).1, (s.t.run s.chan.words).2, y⟩ := by
  simp [State.settled, hp]

theorem Inv.protoT {J : Job W} {s : State W} {x : TPoint W} (hI : Inv J s)
    (ht : s.t = .done x) :
    Protocol J s.chan.turn (s.p.run s.chan.words).1 s.mem x (s.p.run s.chan.words).2 := by
  have h := hI.proto
  rwa [settled_of_tDone ht] at h

theorem Inv.protoP {J : Job W} {s : State W} {y : PPoint W} (hI : Inv J s)
    (hp : s.p = .done y) :
    Protocol J s.chan.turn (s.t.run s.chan.words).1 s.mem (s.t.run s.chan.words).2 y := by
  have h := hI.proto
  rwa [settled_of_pDone hp] at h

theorem Inv.protoDone {J : Job W} {s : State W} {x : TPoint W} {y : PPoint W} (hI : Inv J s)
    (ht : s.t = .done x) (hp : s.p = .done y) :
    Protocol J s.chan.turn s.chan.words s.mem x y := by
  have h := hI.protoT ht
  rwa [hp] at h

/-! ### Whose turn it is -/

/-- While `T` holds the turn, `P` does not. -/
theorem Protocol.of_tOwns {J : Job W} {turn : Word} {words : Nat → Word} {mem : List UInt8}
    {x : TPoint W} {y : PPoint W} (h : Protocol J turn words mem x y) (hx : x.Owns) :
    turn = turnT ∧ ¬y.Owns := by
  cases x with
  | client c => exact ⟨h.1, h.2.1⟩
  | enter n f a top => exact ⟨h.1, h.2.1⟩
  | closure c n top => exact ⟨h.1, h.2.1⟩
  | signal => exact ⟨h.1, h.2.1⟩
  | give k => exact ⟨h.1, h.2.1⟩
  | woke k => exact ⟨h.1, h.2.1⟩
  | answered o v r => exact ⟨h.1, h.2.1⟩
  | panicked => exact h
  | _ => exact hx.elim

theorem Waiting.of_pOwns {J : Job W} {turn : Word} {words : Nat → Word} {mem : List UInt8}
    {k : TWait W} {y : PPoint W} (h : Waiting J turn words mem k y) (hy : y.Owns) :
    turn = turnP ∧ Working J words mem k y := by
  rcases h with ⟨-, hn, -⟩ | ⟨-, hn, -⟩ | hw
  · exact absurd hy hn
  · exact absurd hy hn
  · exact hw

/-- While `P` holds the turn, `T` does not. -/
theorem Protocol.of_pOwns {J : Job W} {turn : Word} {words : Nat → Word} {mem : List UInt8}
    {x : TPoint W} {y : PPoint W} (h : Protocol J turn words mem x y) (hy : y.Owns) :
    turn = turnP ∧ ¬x.Owns := by
  have hx : ¬x.Owns := fun hx => (h.of_tOwns hx).2 hy
  refine ⟨?_, hx⟩
  cases x with
  | notify k =>
      cases k with
      | none => exact h.1
      | some k => exact (Waiting.of_pOwns h hy).1
  | park pc k => exact (Waiting.of_pOwns h hy).1
  | closed => exact h.1
  | dropped => exact absurd hy h.2.1
  | _ => exact absurd trivial hx

/-! ### `P` away from the turn -/

/-- Only the holder of the turn works. -/
theorem Working.owns {J : Job W} {words : Nat → Word} {mem : List UInt8} {k : TWait W}
    {y : PPoint W} (h : Working J words mem k y) : y.Owns := by
  cases y with
  | pending | entryTurn | entryOp | wait | notify | left | dead => exact h.elim
  | woke | instantiate | run | service | give => trivial

/-- A request knows of `P` only its loop. -/
theorem Asked.of_frame {J : Job W} {words : Nat → Word} {mem : List UInt8} {y y' : PPoint W}
    {k : Option (TWait W)} (ha : Asked J words mem y k) (hf : y'.frame = y.frame) :
    Asked J words mem y' k := by
  have hloop : y.AtLoop → y'.AtLoop := fun hl => hf.trans hl
  have hforward : y.AtForward → y'.AtForward := fun ⟨x, hx⟩ => ⟨x, hf.trans hx⟩
  match k with
  | none => exact ⟨ha.1, hloop ha.2⟩
  | some (.serve .init) =>
      rcases ha with ⟨ho, hl, hb⟩ | ⟨ho, hat⟩
      · exact Or.inl ⟨ho, hloop hl, hb⟩
      · exact Or.inr ⟨ho, hforward hat⟩
  | some (.serve (.transform c)) =>
      rcases ha with ⟨ho, hl⟩ | ⟨ho, hat⟩
      · exact Or.inl ⟨ho, hloop hl⟩
      · exact Or.inr ⟨ho, hforward hat⟩
  | some (.request o (.client c)) => exact ⟨ha.1, hloop ha.2⟩
  | some (.request o (.closure c n top)) => exact ⟨ha.1, hforward ha.2⟩

/-- `P` moves from `y` to `y'` without holding the turn: it stays with its wait loop or
is gone. -/
structure PPoint.Moves (y y' : PPoint W) : Prop where
  idle : ¬y.Owns
  idle' : ¬y'.Owns
  frame : y'.frame = y.frame ∨ y'.Gone
  gone : y.Gone → y'.Gone

namespace PPoint.Moves

variable {J : Job W} {turn : Word} {words : Nat → Word} {mem : List UInt8} {y y' : PPoint W}

theorem atLoop (h : y.Moves y') (hat : y.AtLoop) : y'.AtLoop ∨ y'.Gone :=
  h.frame.imp_left fun hf => hf.trans hat

theorem atForward (h : y.Moves y') (hat : y.AtForward) : y'.AtForward ∨ y'.Gone := by
  obtain ⟨x, hx⟩ := hat
  exact h.frame.imp_left fun hf => ⟨x, hf.trans hx⟩

theorem serves (h : y.Moves y') {r : Asker W} (hr : y.Serves r) : y'.Serves r ∨ y'.Gone := by
  cases r with
  | client c => exact h.atLoop hr
  | closure c n top => exact h.atForward hr

theorem asked (h : y.Moves y') {k : Option (TWait W)} (ha : Asked J words mem y k) :
    Asked J words mem y' k ∨ y'.Gone :=
  h.frame.imp_left fun hf => ha.of_frame hf

theorem answered (h : y.Moves y') {k : TWait W} (ha : Answered J words y k) :
    Answered J words y' k := by
  cases k with
  | serve top =>
      rcases ha with ⟨ho, hat⟩ | ⟨ho, hg⟩ | ⟨ho, hi, hat⟩
      · exact Or.inl ⟨ho, hat.elim h.atLoop fun hg => Or.inr (h.gone hg)⟩
      · exact Or.inr (Or.inl ⟨ho, h.gone hg⟩)
      · exact Or.inr (Or.inr ⟨ho, hi, hat.elim h.atForward fun hg => Or.inr (h.gone hg)⟩)
  | request o r =>
      rcases ha with ⟨ho, hat⟩ | ⟨ho, hg⟩
      · exact Or.inl ⟨ho, hat.elim h.serves fun hg => Or.inr (h.gone hg)⟩
      · exact Or.inr ⟨ho, h.gone hg⟩

theorem waiting (h : y.Moves y') {k : TWait W} (hw : Waiting J turn words mem k y) :
    Waiting J turn words mem k y' := by
  rcases hw with ⟨ht, -, ha⟩ | ⟨ht, -, ha⟩ | ⟨-, hw⟩
  · exact Or.inl ⟨ht, h.idle', h.answered ha⟩
  · exact Or.inr (Or.inl ⟨ht, h.idle', ha.elim h.asked fun hg => Or.inr (h.gone hg)⟩)
  · exact absurd hw.owns h.idle

theorem left (h : y.Moves y') (hl : ¬y.Owns ∧ y.Gone ∨ Asked J words mem y none) :
    ¬y'.Owns ∧ y'.Gone ∨ Asked J words mem y' none := by
  rcases hl with ⟨-, hg⟩ | ha
  · exact Or.inl ⟨h.idle', h.gone hg⟩
  · exact (h.asked ha).symm.imp_left fun hg => ⟨h.idle', hg⟩

theorem protocol (h : y.Moves y') {x : TPoint W} (hp : Protocol J turn words mem x y) :
    Protocol J turn words mem x y' := by
  match x with
  | .client c => exact ⟨hp.1, h.idle', hp.2.2.elim h.atLoop fun hg => Or.inr (h.gone hg)⟩
  | .enter _ _ _ _ => exact ⟨hp.1, h.idle', hp.2.2.elim h.atForward fun hg => Or.inr (h.gone hg)⟩
  | .closure _ _ _ => exact ⟨hp.1, h.idle', hp.2.2.elim h.atForward fun hg => Or.inr (h.gone hg)⟩
  | .answered _ _ _ => exact ⟨hp.1, h.idle', hp.2.2.elim h.serves fun hg => Or.inr (h.gone hg)⟩
  | .signal =>
      exact ⟨hp.1, h.idle', hp.2.2.1.elim h.atLoop fun hg => Or.inr (h.gone hg), hp.2.2.2⟩
  | .give k => exact ⟨hp.1, h.idle', hp.2.2.elim h.asked fun hg => Or.inr (h.gone hg)⟩
  | .notify none => exact ⟨hp.1, h.left hp.2⟩
  | .closed => exact ⟨hp.1, h.left hp.2⟩
  | .notify (some k) => exact h.waiting hp
  | .park pc k => exact h.waiting hp
  | .woke k => exact ⟨hp.1, h.idle', h.answered hp.2.2⟩
  | .dropped => exact ⟨hp.1, h.idle', h.gone hp.2.2⟩
  | .panicked => exact ⟨hp.1, h.idle'⟩

end PPoint.Moves

theorem PPoint.moves_dead {y : PPoint W} (hy : ¬y.Owns) : y.Moves .dead :=
  ⟨hy, not_false, Or.inr trivial, fun _ => trivial⟩

/-- A worker that dies with the turn leaves `T` waiting, or closed. -/
theorem Protocol.dead_of_turnP {J : Job W} {words words' : Nat → Word} {mem : List UInt8}
    {x : TPoint W} {y : PPoint W} (h : Protocol J turnP words mem x y) :
    Protocol J turnP words' mem x .dead := by
  have hgone : ¬(PPoint.dead : PPoint W).Owns ∧ (PPoint.dead : PPoint W).Gone :=
    ⟨not_false, trivial⟩
  have hwait : ∀ k, Waiting J turnP words' mem k .dead := fun k =>
    Or.inr (Or.inl ⟨rfl, hgone.1, Or.inr hgone.2⟩)
  match x with
  | .notify none => exact ⟨rfl, Or.inl hgone⟩
  | .closed => exact ⟨rfl, Or.inl hgone⟩
  | .notify (some k) => exact hwait k
  | .park pc k => exact hwait k
  | .client _ | .enter _ _ _ _ | .closure _ _ _ | .answered _ _ _ | .signal | .give _ | .woke _
  | .dropped | .panicked => exact absurd h.1 turnP_ne_turnT

/-! ### Steps of `T` -/

section TSteps

variable {J : Job W} {s s' : State W}

/-- A step of `T` with the turn: `P` stays where it is. -/
theorem inv_of_tStep {y : PPoint W} (hI : Inv J s) (hT : s'.chan.turn = turnT)
    (hp : s'.p = .done y) (hhost : s'.host = s.host)
    (hproto : Protocol J turnT (s'.t.run s'.chan.words).1 s'.mem (s'.t.run s'.chan.words).2 y) :
    Inv J s' where
  tCode := Or.inr hT
  pCode := Or.inl ⟨y, hp⟩
  names := by rw [hhost]; exact hI.names
  proto := by rw [settled_of_pDone hp, hT]; exact hproto

/-- Both parties at a point. -/
theorem inv_of_done {x : TPoint W} {y : PPoint W} (ht : s'.t = .done x) (hp : s'.p = .done y)
    (hnames : s'.host.live ≠ none →
      s'.host.names = stripBom (namesBlob (J.imports.map Prod.fst)))
    (hproto : Protocol J s'.chan.turn s'.chan.words s'.mem x y) : Inv J s' where
  tCode := Or.inl ⟨x, ht⟩
  pCode := Or.inl ⟨y, hp⟩
  names := hnames
  proto := by
    rw [settled_of_tDone ht, hp]
    exact hproto

theorem run_callerCode (o : CallerOp W.memSize) (r : Asker W) (w : Nat → Word) :
    ∃ w', (callerCode o r).run w = (w', .give (some (.request o r))) ∧ w' fOp = o.op := by
  refine ⟨_, Code.run_stores _ _ _, ?_⟩
  exact Code.storeAll_append_last _ _ _ _

theorem run_importDone (rets : Nat) (outs : List Word) (top : Top W) (w : Nat → Word) :
    ∃ w', (importDone rets outs top).run w = (w', .give (some (.serve top))) ∧
      w' fOp = opDone := by
  refine ⟨_, Code.run_stores _ _ _, ?_⟩
  exact Code.storeAll_append_last _ _ _ _

/-- A request of a `Caller` method, from a point at which `P` serves the caller. -/
theorem proto_callerCode {w : Nat → Word} {mem : List UInt8} {y : PPoint W}
    (o : CallerOp W.memSize) (r : Asker W) (hn : ¬y.Owns) (hat : y.Serves r ∨ y.Gone) :
    Protocol J turnT ((callerCode o r).run w).1 mem ((callerCode o r).run w).2 y := by
  obtain ⟨w', hrun, hop⟩ := run_callerCode o r w
  rw [hrun]
  exact ⟨rfl, hn, hat.imp_left fun h => ⟨hop, h⟩⟩

/-- Back in the caller of a `Caller` method. -/
theorem proto_resume {w : Nat → Word} {mem : List UInt8} {y : PPoint W} (r : Asker W)
    (reply : Reply) (hn : ¬y.Owns) (hat : y.Serves r ∨ y.Gone) :
    Protocol J turnT w mem (r.resume reply) y := by
  cases r with
  | client c => exact ⟨rfl, hn, hat⟩
  | closure c n top => exact ⟨rfl, hn, hat⟩

/-- What `serve` does with an answer. -/
theorem proto_serveCode {w : Nat → Word} {mem : List UInt8} {y : PPoint W} {top : Top W}
    (hn : ¬y.Owns) (h : Answered J w y (.serve top)) :
    Protocol J turnT ((serveCode J top (w fOp)).run w).1 mem
      ((serveCode J top (w fOp)).run w).2 y := by
  unfold serveCode
  rcases h with ⟨hop, hat⟩ | ⟨hop, hgone⟩ | ⟨hop, hidx, hat⟩
  · rw [if_pos hop]
    cases top with
    | init => exact ⟨rfl, hn, hat⟩
    | transform c => exact ⟨rfl, hn, hat⟩
  · rw [hop, if_neg (by decide), if_pos rfl]
    cases top with
    | init => exact ⟨rfl, hn, hgone⟩
    | transform c => exact ⟨rfl, hn, Or.inr hgone⟩
  · rw [hop, if_neg (by decide), if_neg (by decide), if_pos rfl, Code.run_load,
      List.getElem?_eq_getElem hidx]
    dsimp only
    rw [Code.run_loads]
    split
    · exact ⟨rfl, hn⟩
    · exact ⟨rfl, hn, hat⟩

/-- What `request` does with an answer. -/
theorem proto_requestCode {w : Nat → Word} {mem : List UInt8} {y : PPoint W}
    {o : CallerOp W.memSize} {r : Asker W} (hn : ¬y.Owns) (h : Answered J w y (.request o r)) :
    Protocol J turnT ((requestCode o r (w fOp)).run w).1 mem
      ((requestCode o r (w fOp)).run w).2 y := by
  unfold requestCode
  rcases h with ⟨hop, hat⟩ | ⟨hop, hgone⟩
  · rw [if_pos hop]
    exact ⟨rfl, hn, hat⟩
  · rw [hop, if_neg (by decide), if_pos rfl]
    exact proto_resume r _ hn (Or.inr hgone)

/-- `T` at a point where it holds the turn. -/
theorem inv_tPoint_owns {x : TPoint W} (hI : Inv J s) (ht : s.t = .done x) (hx : x.Owns)
    (h : tPoint J s x = some s') : Inv J s' := by
  obtain ⟨hT, -⟩ := (hI.protoT ht).of_tOwns hx
  obtain ⟨y, hp⟩ := hI.pDone hT
  have hproto := hI.protoDone ht hp
  rw [hT] at hproto
  cases x with
  | client c =>
      obtain ⟨-, hn, hat⟩ := hproto
      simp only [tPoint] at h
      split at h <;> obtain rfl := Option.some.inj h
      · exact inv_of_tStep hI hT hp rfl ⟨rfl, hn, hat⟩
      · exact inv_of_tStep hI hT hp rfl (proto_callerCode _ _ hn hat)
      · refine inv_of_tStep hI hT hp rfl ⟨rfl, hn, hat.imp_left fun hl => Or.inl ⟨?_, hl⟩⟩
        simp [transformCode, Code.run_stores, Code.storeAll]
      · refine inv_of_tStep hI hT hp rfl ⟨rfl, hn, hat.imp_left fun hl => ⟨?_, hl⟩⟩
        simp [dropCode, Code.run_stores, Code.storeAll]
  | enter name func args top =>
      obtain ⟨-, hn, hat⟩ := hproto
      obtain rfl := Option.some.inj h
      exact inv_of_tStep hI hT hp rfl ⟨rfl, hn, hat⟩
  | closure c rets top =>
      obtain ⟨-, hn, hat⟩ := hproto
      simp only [tPoint] at h
      split at h <;> obtain rfl := Option.some.inj h
      · exact inv_of_tStep hI hT hp rfl ⟨rfl, hn, hat⟩
      · exact inv_of_tStep hI hT hp rfl (proto_callerCode _ _ hn hat)
      · refine inv_of_tStep hI hT hp rfl ?_
        obtain ⟨w', hrun, hop⟩ := run_importDone (W := W) rets _ top s.chan.words
        rw [hrun]
        refine ⟨rfl, hn, hat.imp_left fun hf => ?_⟩
        cases top with
        | init => exact Or.inr ⟨hop, hf⟩
        | transform c => exact Or.inr ⟨hop, hf⟩
  | signal =>
      obtain ⟨-, hn, hat, hop, hboot⟩ := hproto
      obtain rfl := Option.some.inj h
      exact inv_of_tStep hI hT hp rfl ⟨rfl, hn, hat.imp_left fun hl => Or.inl ⟨hop, hl, hboot⟩⟩
  | give k =>
      obtain ⟨-, hn, hasked⟩ := hproto
      obtain rfl := Option.some.inj h
      refine inv_of_done rfl hp hI.names ?_
      cases k with
      | none => exact ⟨rfl, hasked.symm.imp_left fun hg => ⟨hn, hg⟩⟩
      | some k => exact Or.inr (Or.inl ⟨rfl, hn, hasked⟩)
  | woke k =>
      obtain ⟨-, hn, hans⟩ := hproto
      obtain rfl := Option.some.inj h
      refine inv_of_tStep hI hT hp rfl ?_
      cases k with
      | serve top => exact proto_serveCode hn hans
      | request o r => exact proto_requestCode hn hans
  | answered o v r =>
      obtain ⟨-, hn, hat⟩ := hproto
      obtain rfl := Option.some.inj h
      exact inv_of_tStep hI hT hp rfl (proto_resume r _ hn hat)
  | panicked => simp [tPoint] at h
  | _ => exact hx.elim

theorem parkUntil_leave {turn : Word} {pc : ParkPc} (h : parkUntil turn pc = .leave) :
    turn = turnT := by
  cases pc with
  | load =>
      simp only [parkUntil] at h
      split at h
      · assumption
      · simp at h
  | reload => simp [parkUntil] at h
  | wait e =>
      simp only [parkUntil] at h
      split at h <;> simp at h
  | parked => simp [parkUntil] at h

/-- A notify of `T` leaves `P` where it is in the protocol. -/
theorem proto_wakeP {turn : Word} {words : Nat → Word} {mem : List UInt8} {x : TPoint W}
    {p : PCode W} (h : Protocol J turn (p.run words).1 mem x (p.run words).2) :
    Protocol J turn ((wakeP p).run words).1 mem x ((wakeP p).run words).2 := by
  match p with
  | .load i k => exact h
  | .store i v k => exact h
  | .done (.wait pc k) =>
      have hmove : (PPoint.wait pc k : PPoint W).Moves (.wait pc.notified k) :=
        ⟨not_false, not_false, Or.inl rfl, False.elim⟩
      exact hmove.protocol h
  | .done .pending | .done .entryTurn | .done .entryOp | .done (.woke _)
  | .done (.instantiate _ _ _ _) | .done (.run _ _) | .done (.service _ _) | .done (.give _)
  | .done (.notify _) | .done .left | .done .dead => exact h

theorem wakeP_done {p : PCode W} (h : ∃ y, p = .done y) : ∃ y, wakeP p = .done y := by
  obtain ⟨y, rfl⟩ := h
  cases y <;> exact ⟨_, rfl⟩

/-- A step of `T` between points, for any position of `P`. -/
theorem inv_of_tMove {x : TPoint W} (hI : Inv J s) (ht : s'.t = .done x)
    (hturn : s'.chan = s.chan) (hp : s'.p = s.p ∨ s'.p = wakeP s.p) (hhost : s'.host = s.host)
    (hproto : Protocol J s.chan.turn (s.p.run s.chan.words).1 s'.mem x
      (s.p.run s.chan.words).2) : Inv J s' where
  tCode := Or.inl ⟨x, ht⟩
  pCode := by
    rw [hturn]
    rcases hp with hp | hp
    · rw [hp]
      exact hI.pCode
    · rw [hp]
      exact hI.pCode.imp_left wakeP_done
  names := by rw [hhost]; exact hI.names
  proto := by
    rw [settled_of_tDone ht, hturn]
    rcases hp with hp | hp
    · rw [hp]
      exact hproto
    · rw [hp]
      exact proto_wakeP hproto

/-- `T` at a point where it waits, or is done with the channel. -/
theorem inv_tPoint_waits {x : TPoint W} (hI : Inv J s) (ht : s.t = .done x) (hx : ¬x.Owns)
    (h : tPoint J s x = some s') : Inv J s' := by
  have hproto := hI.protoT ht
  match x with
  | .notify none =>
      obtain rfl := Option.some.inj h
      exact inv_of_tMove hI rfl rfl (Or.inr rfl) rfl hproto
  | .notify (some k) =>
      obtain rfl := Option.some.inj h
      exact inv_of_tMove hI rfl rfl (Or.inr rfl) rfl hproto
  | .park pc k =>
      simp only [tPoint] at h
      split at h
      · next hleave =>
          obtain rfl := Option.some.inj h
          refine inv_of_tMove hI rfl rfl (Or.inl rfl) rfl ?_
          have hT := parkUntil_leave hleave
          rcases hproto with hw | ⟨hP, -⟩ | ⟨hP, -⟩
          · exact hw
          · exact absurd (hP.symm.trans hT) turnP_ne_turnT
          · exact absurd (hP.symm.trans hT) turnP_ne_turnT
      · obtain rfl := Option.some.inj h
        exact inv_of_tMove hI rfl rfl (Or.inl rfl) rfl hproto
      · simp at h
  | .closed => simp [tPoint] at h
  | .dropped => simp [tPoint] at h
  | .client _ | .enter _ _ _ _ | .closure _ _ _ | .signal | .give _ | .woke _ | .answered _ _ _
  | .panicked => exact absurd trivial hx

/-- An access of `T`: what it comes to stays the same. -/
theorem inv_tAccess {w : Nat → Word} {c : TCode W} (hI : Inv J s)
    (h : s.t.tick s.chan.words = some (w, c)) :
    Inv J { s with chan := { s.chan with words := w }, t := c } := by
  have hT : s.chan.turn = turnT := by
    rcases hI.tCode with ⟨x, hx⟩ | hT
    · simp [hx, Code.tick] at h
    · exact hT
  obtain ⟨y, hp⟩ := hI.pDone hT
  refine inv_of_tStep hI hT hp rfl ?_
  have hproto := hI.protoP hp
  rw [hT] at hproto
  rw [← Code.run_tick h] at hproto
  exact hproto

/-- **Every step of `T` keeps the invariant.** -/
theorem inv_tNext (hI : Inv J s) (h : tNext J s = some s') : Inv J s' := by
  cases ht : s.t with
  | load i k =>
      simp only [tNext, ht] at h
      obtain rfl := Option.some.inj h
      exact inv_tAccess hI (w := s.chan.words) (by rw [ht]; rfl)
  | store i v k =>
      simp only [tNext, ht] at h
      obtain rfl := Option.some.inj h
      exact inv_tAccess hI (by rw [ht]; rfl)
  | done x =>
      simp only [tNext, ht] at h
      by_cases hx : x.Owns
      · exact inv_tPoint_owns hI ht hx h
      · exact inv_tPoint_waits hI ht hx h

end TSteps

end TurbopackWasi.Plugin
