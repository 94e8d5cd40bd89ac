import TurbopackWasi.Loader.Fetch
import Mathlib.Data.List.Chain

/-!
# TurbopackWasi.Loader.Settling

**A fetch settles inside its promise**, but for two answers of a server. To a `Location` to be
followed that is no URL, `new URL` throws in the callback of the response, outside the
executor whose exceptions reject the promise; and after a 101 the request closes without any
event that the bridge listens for.

The invariant is `Chain`: the calls of `fetchOnce` follow one another along the redirects,
each promise but the last locked in on the next one, and the last one is *live*: it has
settled exactly as the server has answered.
-/

namespace TurbopackWasi.Loader.Fetch

open Lib

variable {c : Client}

/-! ### What a fetch must do -/

/-- The `Location` that the response of a call is redirected to. -/
def Call.redirect (x : Call) : Option String :=
  match x.exchange with
  | .ok e => e.reply.bind (·.redirect x.redirectsLeft)
  | .error _ => none

/-- What a request comes to that is not redirected. -/
def Exchange.settlement (e : Exchange) : Option (Except Failure Response) :=
  match e.closed, e.reply with
  | some (some failure), _ => some (.error failure)
  | some none, some r => some (.ok ⟨r.status, e.sent.flatten⟩)
  | _, _ => none

def Call.settlement (x : Call) : Option (Except Failure Response) :=
  match x.exchange with
  | .ok e => e.settlement
  | .error failure => some (.error failure)

/-- No request is under way. -/
def Call.Ended (x : Call) : Prop := ∀ e, x.exchange = .ok e → e.closed.isSome

/-- `y` is the call for the redirect that `x` has received. -/
def Follows (c : Client) (x y : Call) : Prop :=
  ∃ location, x.redirect = some location ∧ c.resolve location x.url = some y.url ∧
    x.redirectsLeft = y.redirectsLeft + 1

/-- The state of a fetch is as it must be. -/
structure Orderly (c : Client) (s : State) : Prop where
  /-- No exception has escaped to the event loop. -/
  contained : s.escaped = false
  requests : s.requests ≤ 6
  redirected : s.calls.IsChain (Follows c)
  /-- The promise is settled exactly as the last call demands, which is not redirected. -/
  last : ∃ x, s.calls.getLast? = some x ∧ x.redirect = none ∧ s.outcome = x.settlement
  /-- When the last request has ended, the promise has settled. -/
  settles : ∀ x, s.calls.getLast? = some x → x.Ended → s.outcome.isSome

/-- The step does not answer with a redirect to be followed whose `Location` is no URL. -/
def Resolvable (c : Client) (s : State) (a : Nat × Event) : Prop :=
  ∀ r, a.2 = .response r → ∀ x, s.calls[a.1]? = some x → ∀ location,
    r.redirect x.redirectsLeft = some location → (c.resolve location x.url).isSome

/-- Nor does the step close a request that has had no response. -/
def Answered (c : Client) (s : State) (a : Nat × Event) : Prop :=
  Resolvable c s a ∧ a.2 ≠ .upgrade

/-! ### Calls -/

/-- What the callback has collected of a response that is not redirected. -/
def Exchange.collected (e : Exchange) : Option (List Chunk) :=
  if e.reply.isSome then some e.sent else none

/-- The promise and the `chunks` of a call are what its server has made of them. -/
structure Call.Live (x : Call) : Prop where
  promise : x.promise = .ofOutcome x.settlement
  redirect : x.redirect = none
  chunks : ∀ e, x.exchange = .ok e → x.chunks = e.collected
  replied : ∀ e, x.exchange = .ok e → e.closed = some none → e.reply.isSome
  fresh : ∀ e, x.exchange = .ok e → e.reply = none → e.sent = []

theorem fetchOnce_live (url : String) (userAgent : Option String) (redirectsLeft : Nat) :
    (fetchOnce c url userAgent redirectsLeft).Live := by
  unfold fetchOnce
  cases hp : c.parse url with
  | none => exact ⟨rfl, rfl, by simp, by simp, by simp⟩
  | some u =>
      by_cases ho : c.accepts (u.options userAgent) = true
      · simp only [ho, if_true]
        refine ⟨rfl, rfl, ?_, ?_, ?_⟩
        · intro e he
          obtain rfl := Except.ok.inj he
          rfl
        · intro e he hclosed
          obtain rfl := Except.ok.inj he
          cases hclosed
        · intro e he _
          obtain rfl := Except.ok.inj he
          rfl
      · simp only [ho]
        exact ⟨rfl, rfl, by simp, by simp, by simp⟩

@[simp] theorem fetchOnce_url (url : String) (userAgent : Option String) (redirectsLeft : Nat) :
    (fetchOnce c url userAgent redirectsLeft).url = url := by
  unfold fetchOnce
  cases c.parse url with
  | none => rfl
  | some u => dsimp only; split <;> rfl

@[simp] theorem fetchOnce_redirectsLeft (url : String) (userAgent : Option String)
    (redirectsLeft : Nat) :
    (fetchOnce c url userAgent redirectsLeft).redirectsLeft = redirectsLeft := by
  unfold fetchOnce
  cases c.parse url with
  | none => rfl
  | some u => dsimp only; split <;> rfl

/-- The first end or error decides. -/
theorem Exchange.settlement_close {e : Exchange}
    (he : e.closed = some none → e.reply.isSome) (how : Option Failure) :
    (e.close how).settlement =
      e.settlement.or ({ e with closed := some how } : Exchange).settlement := by
  obtain ⟨reply, sent, closed⟩ := e
  cases closed with
  | none => rfl
  | some h =>
      cases h with
      | some failure => rfl
      | none =>
          cases reply with
          | some r => rfl
          | none => cases he rfl

/-! ### Chains -/

/-- The calls that `fetchOnce(url, _, redirectsLeft)` has led to. -/
inductive Chain (c : Client) : String → Nat → List Call → Prop
  | last {x : Call} : x.Live → Chain c x.url x.redirectsLeft [x]
  | hop {x : Call} {location url : String} {left : Nat} {xs : List Call} :
      x.promise = .locked → x.redirect = some location → c.resolve location x.url = some url →
      x.redirectsLeft = left + 1 → Chain c url left xs → Chain c x.url x.redirectsLeft (x :: xs)

theorem Chain.length_le {url : String} {left : Nat} {xs : List Call} (h : Chain c url left xs) :
    xs.length ≤ left + 1 := by
  induction h with
  | last hlive => simp
  | hop hlocked hredirect hresolve hleft hrest ih =>
      rw [List.length_cons, hleft]
      omega

theorem Chain.head {url : String} {left : Nat} {xs : List Call} (h : Chain c url left xs) :
    ∃ x, xs.head? = some x ∧ x.url = url ∧ x.redirectsLeft = left := by
  cases h with
  | last hlive => exact ⟨_, rfl, rfl, rfl⟩
  | hop hlocked hredirect hresolve hleft hrest => exact ⟨_, rfl, rfl, rfl⟩

theorem Chain.isChain {url : String} {left : Nat} {xs : List Call} (h : Chain c url left xs) :
    xs.IsChain (Follows c) := by
  induction h with
  | last hlive => exact .singleton _
  | hop hlocked hredirect hresolve hleft hrest ih =>
      obtain ⟨y, hy, hurl, hleft'⟩ := hrest.head
      refine List.isChain_cons.mpr ⟨?_, ih⟩
      intro z hz
      obtain rfl : y = z := by simpa [hy] using hz
      exact ⟨_, hredirect, hurl ▸ hresolve, hleft' ▸ hleft⟩

/-- The chain settles as its last call does. -/
theorem Chain.getLast {url : String} {left : Nat} {xs : List Call} (h : Chain c url left xs) :
    ∃ x, xs.getLast? = some x ∧ x.Live ∧
      Promise.outcome (xs.map Call.promise) = x.settlement := by
  induction h with
  | @last x hlive =>
      refine ⟨x, rfl, hlive, ?_⟩
      rw [List.map_singleton, hlive.promise, Promise.outcome_ofOutcome]
  | @hop x _ _ _ xs hlocked hredirect hresolve hleft hrest ih =>
      obtain ⟨y, hy, hlive, hout⟩ := ih
      refine ⟨y, ?_, hlive, ?_⟩
      · rw [List.getLast?_cons, hy]
        rfl
      · rw [List.map_cons, hlocked]
        exact hout

/-- A call that is not redirected is the last one, and live. -/
theorem Chain.eq_append {url : String} {left : Nat} {xs : List Call} (h : Chain c url left xs)
    {i : Nat} {x : Call} (hx : xs[i]? = some x) (hnot : x.redirect = none) :
    ∃ before, xs = before ++ [x] ∧ i = before.length ∧ x.Live := by
  induction h generalizing i with
  | @last y hlive =>
      obtain ⟨rfl, rfl⟩ : i = 0 ∧ y = x := by simpa [List.getElem?_singleton] using hx
      exact ⟨[], rfl, rfl, hlive⟩
  | @hop y _ _ _ ys hlocked hredirect hresolve hleft hrest ih =>
      cases i with
      | zero =>
          obtain rfl : y = x := by simpa using hx
          rw [hnot] at hredirect
          cases hredirect
      | succ i =>
          obtain ⟨before, rfl, rfl, hlive⟩ := ih hx
          exact ⟨y :: before, rfl, rfl, hlive⟩

/-- The event leaves the place of a call in its chain as it was. -/
structure Call.Kept (x x' : Call) : Prop where
  url : x'.url = x.url
  redirectsLeft : x'.redirectsLeft = x.redirectsLeft
  redirect : x'.redirect = x.redirect
  locked : x.promise = .locked → x'.promise = .locked
  live : x.Live → x'.Live

theorem Chain.set {url : String} {left : Nat} {xs : List Call} (h : Chain c url left xs)
    {i : Nat} {x x' : Call} (hx : xs[i]? = some x) (hk : x.Kept x') :
    Chain c url left (xs.set i x') := by
  induction h generalizing i with
  | @last y hlive =>
      obtain ⟨rfl, rfl⟩ : i = 0 ∧ y = x := by simpa [List.getElem?_singleton] using hx
      rw [List.set_cons_zero, ← hk.url, ← hk.redirectsLeft]
      exact .last (hk.live hlive)
  | @hop y _ _ _ ys hlocked hredirect hresolve hleft hrest ih =>
      cases i with
      | zero =>
          obtain rfl : y = x := by simpa using hx
          rw [List.set_cons_zero]
          rw [← hk.redirectsLeft] at hleft
          rw [← hk.url] at hresolve
          rw [← hk.redirect] at hredirect
          rw [← hk.url, ← hk.redirectsLeft]
          exact .hop (hk.locked hlocked) hredirect hresolve hleft hrest
      | succ i => exact .hop hlocked hredirect hresolve hleft (ih hx)

/-- The last call is redirected, and one more follows. -/
theorem Chain.extend {before : List Call} {x x' y : Call} {location : String} {url : String}
    {left : Nat} (h : Chain c url left (before ++ [x])) (hurl : x'.url = x.url)
    (hsame : x'.redirectsLeft = x.redirectsLeft) (hlocked : x'.promise = .locked)
    (hredirect : x'.redirect = some location)
    (hresolve : c.resolve location x'.url = some y.url)
    (hleft : x'.redirectsLeft = y.redirectsLeft + 1) (hy : y.Live) :
    Chain c url left (before ++ [x'] ++ [y]) := by
  induction before generalizing url left with
  | nil =>
      have hlast : Chain c x'.url x'.redirectsLeft ([x'] ++ [y]) :=
        .hop hlocked hredirect hresolve hleft (.last hy)
      obtain ⟨z, hz, rfl, rfl⟩ := h.head
      obtain rfl : x = z := by simpa using hz
      rw [List.nil_append, ← hurl, ← hsame]
      exact hlast
  | cons b before ih =>
      generalize hxs : before ++ [x] = xs at h
      rw [List.cons_append, hxs] at h
      cases h with
      | last hlive => simp at hxs
      | hop hl hr hres hn hrest =>
          rw [← hxs] at hrest
          exact .hop hl hr hres hn (ih hrest)

/-! ### One event -/

theorem kept_onData {x : Call} {e : Exchange} (hx : x.exchange = .ok e)
    (hreply : e.reply.isSome) (hclosed : e.closed = none) (chunk : Chunk) :
    x.Kept (({ x with exchange := .ok { e with sent := e.sent ++ [chunk] } } : Call).onData chunk)
    where
  url := rfl
  redirectsLeft := rfl
  redirect := by simp [Call.redirect, Call.onData, hx]
  locked h := h
  live h := by
    refine ⟨?_, ?_, ?_, ?_, ?_⟩
    · -- the exchange is open before and after
      have hbefore : x.settlement = none := by
        simp [Call.settlement, hx, Exchange.settlement, hclosed]
      have hpending := h.promise
      rw [hbefore] at hpending
      simp [Call.onData, Call.settlement, Exchange.settlement, hclosed, hpending]
    · have hredirect := h.redirect
      simpa [Call.redirect, Call.onData, hx] using hredirect
    · intro e' he'
      obtain rfl := Except.ok.inj he'
      have hchunks := h.chunks e hx
      simp [Call.onData, hchunks, Exchange.collected, hreply]
    · intro e' he' hend
      obtain rfl := Except.ok.inj he'
      exact hreply
    · intro e' he' hnone
      obtain rfl := Except.ok.inj he'
      rw [hnone] at hreply
      cases hreply

/-- A callback settled the promise, at most. -/
def Call.Settles (x x' : Call) : Prop := ∃ q, x' = { x with promise := x.promise.settle q }

theorem settles_onEnd (x : Call) (r : Reply) : x.Settles (x.onEnd r) := by
  unfold Call.onEnd
  split
  · exact ⟨_, rfl⟩
  · exact ⟨x.promise, by simp⟩

theorem settles_onResponseError (x : Call) : x.Settles x.onResponseError := by
  unfold Call.onResponseError
  split
  · exact ⟨_, rfl⟩
  · exact ⟨x.promise, by simp⟩

theorem settles_onRequestError (x : Call) : x.Settles x.onRequestError := ⟨_, rfl⟩

/-- What closes an exchange keeps a call if it settles the promise accordingly. -/
theorem kept_close {x x' : Call} {e : Exchange} {how : Option Failure}
    {q : Promise Failure Response}
    (hx : x.exchange = .ok e) (hend : how = none → e.reply.isSome)
    (hx' : ({ x with exchange := .ok (e.close how) } : Call).Settles x')
    (hsettle : x.Live → x'.promise = x.promise.settle q)
    (hq : q = .ofOutcome ({ e with closed := some how } : Exchange).settlement) : x.Kept x' := by
  obtain ⟨p, rfl⟩ := hx'
  dsimp only at hsettle
  refine ⟨rfl, rfl, ?_, fun hlocked => by simp [hlocked], ?_⟩
  · simp [Call.redirect, hx, Exchange.close]
  · intro h
    have hreplied := h.replied e hx
    refine ⟨?_, ?_, ?_, ?_, ?_⟩
    · have hpromise := h.promise
      simp only [Call.settlement, hx] at hpromise
      simp only [Call.settlement]
      rw [hsettle h, hq, hpromise, Promise.settle_ofOutcome, Exchange.settlement_close hreplied]
    · have hredirect := h.redirect
      simpa [Call.redirect, hx, Exchange.close] using hredirect
    · intro e' he'
      obtain rfl := Except.ok.inj he'
      exact h.chunks e hx
    · intro e' he' hclosed
      obtain rfl := Except.ok.inj he'
      cases hc : e.closed with
      | none =>
          simp only [Exchange.close, hc, Option.none_or, Option.some.injEq] at hclosed
          exact hend hclosed
      | some h' =>
          simp only [Exchange.close, hc, Option.some_or, Option.some.injEq] at hclosed
          exact hreplied (by rw [hc, hclosed])
    · intro e' he' hnone
      obtain rfl := Except.ok.inj he'
      exact h.fresh e hx hnone

theorem kept_finish {x : Call} {e : Exchange} {r : Reply} (hx : x.exchange = .ok e)
    (hreply : e.reply = some r) :
    x.Kept (({ x with exchange := .ok (e.close none) } : Call).onEnd r) := by
  have hq : Promise.fulfilled ⟨r.status, e.sent.flatten⟩ =
      .ofOutcome ({ e with closed := some none } : Exchange).settlement := by
    simp [Exchange.settlement, hreply, Promise.ofOutcome]
  refine kept_close hx (fun _ => by rw [hreply]; rfl) (settles_onEnd _ r) ?_ hq
  intro h
  have hchunks := h.chunks e hx
  simp only [Exchange.collected, hreply, Option.isSome_some, if_true] at hchunks
  simp [Call.onEnd, hchunks]

theorem kept_responseError {x : Call} {e : Exchange} (hx : x.exchange = .ok e)
    (hreply : e.reply.isSome) :
    x.Kept (({ x with exchange := .ok (e.close (some .response)) } : Call).onResponseError) := by
  have hend : some Failure.response = none → e.reply.isSome := by simp
  refine kept_close (q := .rejected .response) hx hend (settles_onResponseError _) ?_ rfl
  intro h
  have hchunks := h.chunks e hx
  simp only [Exchange.collected, hreply, if_true] at hchunks
  simp [Call.onResponseError, hchunks]

theorem kept_requestError {x : Call} {e : Exchange} (hx : x.exchange = .ok e) :
    x.Kept (({ x with exchange := .ok (e.close (some .request)) } : Call).onRequestError) := by
  have hend : some Failure.request = none → e.reply.isSome := by simp
  exact kept_close (q := .rejected .request) hx hend (settles_onRequestError _) (fun _ => rfl) rfl

/-- The first chunk of a response that is not redirected is still to come. -/
theorem kept_collect {x : Call} {e : Exchange} {r : Reply} (hx : x.exchange = .ok e)
    (hreply : e.reply = none) (hclosed : e.closed = none)
    (hnot : r.redirect x.redirectsLeft = none) :
    x.Kept { x with exchange := .ok { e with reply := some r }, chunks := some [] } where
  url := rfl
  redirectsLeft := rfl
  redirect := by simp [Call.redirect, hx, hreply, hnot]
  locked h := h
  live h := by
    refine ⟨?_, ?_, ?_, ?_, ?_⟩
    · have hpromise := h.promise
      simpa [Call.settlement, hx, Exchange.settlement, hclosed] using hpromise
    · simp [Call.redirect, hnot]
    · intro e' he'
      obtain rfl := Except.ok.inj he'
      simp [Exchange.collected, h.fresh e hx hreply]
    · intro e' he' _
      obtain rfl := Except.ok.inj he'
      rfl
    · intro e' he' hnone
      obtain rfl := Except.ok.inj he'
      cases hnone

/-! ### One step -/

/-- The invariant of a fetch from which no exception has escaped. -/
def Inv (c : Client) (s : State) : Prop := s.escaped = false ∧ ∃ url, Chain c url 5 s.calls

theorem next_eq_some {s s' : State} {a : Nat × Event} (h : next c s a = some s') :
    ∃ x e, s.calls[a.1]? = some x ∧ x.exchange = .ok e ∧ step c s a.1 x e a.2 = some s' := by
  unfold next at h
  cases hx : s.calls[a.1]? with
  | none => simp [hx] at h
  | some x =>
      cases he : x.exchange with
      | error f => simp [hx, he] at h
      | ok e => exact ⟨x, e, rfl, he, by simpa [hx, he] using h⟩

theorem inv_handler (conversionError : Bool) (url : String) (userAgent : Option String) :
    Inv c (handler c conversionError url userAgent) := by
  cases conversionError with
  | true =>
      have hlive : Call.Live ⟨url, 5, .rejected .conversion, none, .error .conversion⟩ :=
        ⟨rfl, rfl, by simp, by simp, by simp⟩
      exact ⟨rfl, url, .last hlive⟩
  | false =>
      have h : Chain c _ _ [fetchOnce c url userAgent 5] := .last (fetchOnce_live url userAgent 5)
      rw [fetchOnce_redirectsLeft] at h
      exact ⟨rfl, _, h⟩

theorem inv_set {s : State} (h : Inv c s) {i : Nat} {x x' : Call} (hx : s.calls[i]? = some x)
    (hk : x.Kept x') : Inv c { s with calls := s.calls.set i x' } := by
  obtain ⟨hescaped, url, hchain⟩ := h
  exact ⟨hescaped, url, hchain.set hx hk⟩

theorem inv_onResponse {s : State} (h : Inv c s) {i : Nat} {x : Call} {e : Exchange} {r : Reply}
    (hx : s.calls[i]? = some x) (he : x.exchange = .ok e) (hreply : e.reply = none)
    (hclosed : e.closed = none)
    (hgood : ∀ location, r.redirect x.redirectsLeft = some location →
      (c.resolve location x.url).isSome) :
    Inv c (onResponse c s i { x with exchange := .ok { e with reply := some r } } r) := by
  unfold onResponse
  dsimp only
  cases hr : r.redirect x.redirectsLeft with
  | none => exact inv_set h hx (kept_collect he hreply hclosed hr)
  | some location =>
      obtain ⟨url, hurl⟩ := Option.isSome_iff_exists.mp (hgood location hr)
      simp only [hurl]
      obtain ⟨hescaped, first, hchain⟩ := h
      have hnot : x.redirect = none := by simp [Call.redirect, he, hreply]
      obtain ⟨before, hcalls, rfl, hlive⟩ := hchain.eq_append hx hnot
      have hpending : x.promise = .pending := by
        rw [hlive.promise]
        simp [Call.settlement, he, Exchange.settlement, hclosed, Promise.ofOutcome]
      have hleft : x.redirectsLeft = x.redirectsLeft - 1 + 1 := by
        have hpos : 0 < x.redirectsLeft := by
          by_contra hzero
          simp [Reply.redirect, hzero] at hr
        omega
      rw [hcalls] at hchain
      refine ⟨hescaped, first, ?_⟩
      dsimp only
      rw [hcalls, List.set_append_right _ _ le_rfl, Nat.sub_self, List.set_cons_zero]
      have hresolve : c.resolve location x.url =
          some (fetchOnce c url s.userAgent (x.redirectsLeft - 1)).url := by
        rw [fetchOnce_url]
        exact hurl
      refine hchain.extend rfl rfl ?_ ?_ hresolve ?_ (fetchOnce_live _ _ _)
      · simp [hpending]
      · simp [Call.redirect, hr]
      · rw [fetchOnce_redirectsLeft]
        exact hleft

theorem inv_next {s s' : State} {a : Nat × Event} (h : Inv c s) (hgood : Answered c s a)
    (hn : next c s a = some s') : Inv c s' := by
  obtain ⟨i, ev⟩ := a
  obtain ⟨hresolvable, hanswer⟩ := hgood
  obtain ⟨x, e, hx, he, hstep⟩ := next_eq_some hn
  cases ev with
  | response r =>
      simp only [step, Option.ite_none_right_eq_some, Option.some.injEq] at hstep
      obtain ⟨⟨hreply, hclosed⟩, rfl⟩ := hstep
      exact inv_onResponse h hx he hreply hclosed (hresolvable r rfl x hx)
  | data chunk =>
      simp only [step, Option.ite_none_right_eq_some, Option.some.injEq] at hstep
      obtain ⟨⟨hreply, hclosed⟩, rfl⟩ := hstep
      exact inv_set h hx (kept_onData he hreply hclosed chunk)
  | finish =>
      simp only [step] at hstep
      split at hstep
      case h_1 r hreply hclosed =>
        obtain rfl := Option.some.inj hstep
        exact inv_set h hx (kept_finish he hreply)
      case h_2 => cases hstep
  | responseError =>
      simp only [step, Option.ite_none_right_eq_some, Option.some.injEq] at hstep
      obtain ⟨hreply, rfl⟩ := hstep
      exact inv_set h hx (kept_responseError he hreply)
  | requestError =>
      simp only [step, Option.ite_none_left_eq_some, Option.some.injEq] at hstep
      obtain ⟨-, rfl⟩ := hstep
      exact inv_set h hx (kept_requestError he)
  | upgrade => exact absurd rfl hanswer

theorem orderly_of_inv {s : State} (h : Inv c s) : Orderly c s := by
  obtain ⟨hescaped, url, hchain⟩ := h
  obtain ⟨x, hlast, hlive, hout⟩ := hchain.getLast
  refine ⟨hescaped, ?_, hchain.isChain, ⟨x, hlast, hlive.redirect, hout⟩, ?_⟩
  · calc s.requests ≤ s.calls.length := List.countP_le_length
      _ ≤ 6 := hchain.length_le
  · intro y hy hended
    obtain rfl : x = y := Option.some.inj (hlast.symm.trans hy)
    rw [State.outcome, hout]
    cases he : x.exchange with
    | error failure => simp [Call.settlement, he]
    | ok e =>
        have hclosed := hended e he
        obtain ⟨how, hhow⟩ := Option.isSome_iff_exists.mp hclosed
        simp only [Call.settlement, he, Exchange.settlement, hhow]
        cases how with
        | some failure => rfl
        | none =>
            obtain ⟨r, hr⟩ := Option.isSome_iff_exists.mp (hlive.replied e he hhow)
            rw [hr]
            rfl

/-- A redirect to what is no URL throws in the callback. -/
theorem escaped_of_not_resolvable {s s' : State} {a : Nat × Event} (hn : next c s a = some s')
    (hbad : ¬Resolvable c s a) : s'.escaped = true := by
  unfold Resolvable at hbad
  push Not at hbad
  obtain ⟨r, ha, x, hx, location, hr, hnone⟩ := hbad
  obtain ⟨y, e, hy, he, hstep⟩ := next_eq_some hn
  obtain rfl : x = y := Option.some.inj (hx.symm.trans hy)
  rw [ha] at hstep
  simp only [step, Option.ite_none_right_eq_some, Option.some.injEq] at hstep
  obtain ⟨-, rfl⟩ := hstep
  have hthrows : c.resolve location x.url = none := by simpa using hnone
  simp [onResponse, hr, hthrows]

/-- A request that only closes is that of the last call, which it leaves pending. -/
theorem pending_of_upgrade {s s' : State} {i : Nat} (h : Inv c s)
    (hn : next c s (i, .upgrade) = some s') :
    ∃ x, s'.calls.getLast? = some x ∧ x.Ended ∧ s'.outcome = none := by
  obtain ⟨-, url, hchain⟩ := h
  obtain ⟨x, e, hx, he, hstep⟩ := next_eq_some hn
  simp only [step, Option.ite_none_right_eq_some, Option.some.injEq] at hstep
  obtain ⟨⟨hreply, hclosed⟩, rfl⟩ := hstep
  have hnot : x.redirect = none := by simp [Call.redirect, he, hreply]
  obtain ⟨before, hcalls, rfl, hlive⟩ := hchain.eq_append hx hnot
  have hpending : x.settlement = none := by
    simp [Call.settlement, he, Exchange.settlement, hclosed]
  have hset : s.calls.set before.length { x with exchange := .ok (e.close none) } =
      before ++ [{ x with exchange := .ok (e.close none) }] := by
    rw [hcalls, List.set_append_right _ _ le_rfl, Nat.sub_self, List.set_cons_zero]
  refine ⟨{ x with exchange := .ok (e.close none) }, ?_, ?_, ?_⟩
  · rw [hset, List.getLast?_concat]
  · intro e' he'
    obtain rfl := Except.ok.inj he'
    simp [Exchange.close, hclosed]
  · -- the promises are those there were
    obtain ⟨y, hy, -, hout⟩ := hchain.getLast
    obtain rfl : x = y := by simpa [hcalls] using hy
    rw [hcalls] at hout
    rw [State.outcome, hset, ← hpending, ← hout, List.map_append, List.map_append]
    rfl

theorem not_orderly_of_not_answered {s s' : State} {a : Nat × Event} (h : Inv c s)
    (hn : next c s a = some s') (hbad : ¬Answered c s a) : ¬Orderly c s' := by
  intro horderly
  by_cases hupgrade : a.2 = .upgrade
  · obtain ⟨i, ev⟩ := a
    obtain rfl : ev = .upgrade := hupgrade
    obtain ⟨x, hlast, hended, hnone⟩ := pending_of_upgrade h hn
    have hsome := horderly.settles x hlast hended
    rw [hnone] at hsome
    cases hsome
  · have hescaped := escaped_of_not_resolvable hn fun hr => hbad ⟨hr, hupgrade⟩
    rw [horderly.contained] at hescaped
    cases hescaped

/-! ### Settling once -/

/-- Each event settles at most one promise, of those there are. -/
theorem promises_next {s s' : State} {a : Nat × Event} (hn : next c s a = some s') :
    ∃ p q ps, (s.calls.map Call.promise)[a.1]? = some p ∧
      s'.calls.map Call.promise = (s.calls.map Call.promise).set a.1 (p.settle q) ++ ps := by
  obtain ⟨i, ev⟩ := a
  obtain ⟨x, e, hx, he, hstep⟩ := next_eq_some hn
  have hp : (s.calls.map Call.promise)[i]? = some x.promise := by simp [hx]
  have hset {x' : Call} {q : Promise Failure Response} (hq : x'.promise = x.promise.settle q) :
      (s.calls.set i x').map Call.promise =
        (s.calls.map Call.promise).set i (x.promise.settle q) ++ [] := by
    rw [List.map_set, hq, List.append_nil]
  cases ev with
  | response r =>
      simp only [step, Option.ite_none_right_eq_some, Option.some.injEq] at hstep
      obtain ⟨-, rfl⟩ := hstep
      unfold onResponse
      dsimp only
      cases r.redirect x.redirectsLeft with
      | none => exact ⟨x.promise, x.promise, [], hp, hset (by simp)⟩
      | some location =>
          dsimp only
          cases c.resolve location x.url with
          | none => exact ⟨x.promise, x.promise, [], hp, hset (by simp)⟩
          | some url =>
              refine ⟨x.promise, .locked,
                [(fetchOnce c url s.userAgent (x.redirectsLeft - 1)).promise], hp, ?_⟩
              rw [List.map_append, List.map_set]
              rfl
  | data chunk =>
      simp only [step, Option.ite_none_right_eq_some, Option.some.injEq] at hstep
      obtain ⟨-, rfl⟩ := hstep
      exact ⟨x.promise, x.promise, [], hp, hset (by simp [Call.onData])⟩
  | finish =>
      simp only [step] at hstep
      split at hstep
      case h_1 r hreply hclosed =>
        obtain rfl := Option.some.inj hstep
        obtain ⟨q, hq⟩ := settles_onEnd { x with exchange := .ok (e.close none) } r
        exact ⟨x.promise, q, [], hp, hset (by rw [hq])⟩
      case h_2 => cases hstep
  | responseError =>
      simp only [step, Option.ite_none_right_eq_some, Option.some.injEq] at hstep
      obtain ⟨-, rfl⟩ := hstep
      obtain ⟨q, hq⟩ :=
        settles_onResponseError { x with exchange := .ok (e.close (some .response)) }
      exact ⟨x.promise, q, [], hp, hset (by rw [hq])⟩
  | requestError =>
      simp only [step, Option.ite_none_left_eq_some, Option.some.injEq] at hstep
      obtain ⟨-, rfl⟩ := hstep
      obtain ⟨q, hq⟩ :=
        settles_onRequestError { x with exchange := .ok (e.close (some .request)) }
      exact ⟨x.promise, q, [], hp, hset (by rw [hq])⟩
  | upgrade =>
      simp only [step, Option.ite_none_right_eq_some, Option.some.injEq] at hstep
      obtain ⟨-, rfl⟩ := hstep
      exact ⟨x.promise, x.promise, [], hp, hset (by simp)⟩

theorem outcome_next {s s' : State} {a : Nat × Event} (hn : next c s a = some s')
    {o : Except Failure Response} (h : s.outcome = some o) : s'.outcome = some o := by
  obtain ⟨p, q, ps, hp, hs'⟩ := promises_next hn
  rw [State.outcome, hs']
  exact Promise.outcome_append (Promise.outcome_set h hp q) ps

theorem outcome_replay {s t : State} {as : List (Nat × Event)}
    (hrun : (machine c).replay s as = some t) {o : Except Failure Response}
    (h : s.outcome = some o) : t.outcome = some o := by
  induction as generalizing s with
  | nil =>
      obtain rfl : s = t := by simpa using hrun
      exact h
  | cons a as ih =>
      obtain ⟨m, hm, hrest⟩ := (Machine.replay_cons _).mp hrun
      exact ih hrest (outcome_next hm h)

/-- Once settled, the promise stays so to the end of the run. -/
def SettlesOnce (c : Client) (s : State) (as : List (Nat × Event)) : Prop :=
  ∀ before after m t o, as = before ++ after → (machine c).replay s before = some m →
    (machine c).replay m after = some t → m.outcome = some o → t.outcome = some o

/-- **A fetch settles inside its promise** along a run, and no exception escapes, iff no
response of the run is a redirect to be followed whose `Location` is no URL, and no request
closes without a response. -/
theorem settles_iff (c : Client) (conversionError : Bool) (url : String)
    (userAgent : Option String) (as : List (Nat × Event)) (t : State)
    (hrun : (machine c).replay (handler c conversionError url userAgent) as = some t) :
    ((machine c).Always (Orderly c) (handler c conversionError url userAgent) as ∧
        SettlesOnce c (handler c conversionError url userAgent) as) ↔
      (machine c).EachStep (Answered c) (handler c conversionError url userAgent) as := by
  have hexact := Machine.always_iff_eachStep (M := machine c) (J := Inv c)
    (fun _ => orderly_of_inv) inv_next not_orderly_of_not_answered
    (inv_handler conversionError url userAgent) hrun
  rw [← hexact]
  exact and_iff_left fun _ _ _ _ _ _ _ hafter h => outcome_replay hafter h

/-! ### A fetch -/

/-- A client that knows three URLs: `ftp:` is none of its protocols, and `http://` has no
host. -/
def clientOf : Client where
  parse url :=
    if url = "https://a/x" then some ⟨"https:", "a", "", "/x", ""⟩
    else if url = "https://a/y" then some ⟨"https:", "a", "", "/y", ""⟩
    else if url = "ftp://a/" then some ⟨"ftp:", "a", "", "/", ""⟩
    else none
  resolve location base :=
    if location = "y" ∧ base = "https://a/x" then some "https://a/y"
    else if location = "ftp://a/" then some "ftp://a/"
    else none
  accepts o := if o.http then o.protocol = "http:" else o.protocol = "https:"

/-- Redirected once, and answered in two chunks. -/
def redirected : List (Nat × Event) :=
  [(0, .response ⟨some 302, some "y"⟩), (1, .response ⟨some 200, none⟩), (1, .data [1]),
    (0, .finish), (1, .data [2]), (1, .finish)]

theorem settles_redirected :
    ∃ t, (machine clientOf).replay (handler clientOf false "https://a/x" none) redirected = some t ∧
      t.outcome = some (.ok ⟨200, [1, 2]⟩) ∧
      (((machine clientOf).Always (Orderly clientOf) (handler clientOf false "https://a/x" none)
          redirected ∧
        SettlesOnce clientOf (handler clientOf false "https://a/x" none) redirected) ↔
      (machine clientOf).EachStep (Answered clientOf)
        (handler clientOf false "https://a/x" none) redirected) :=
  ⟨_, rfl, rfl, settles_iff clientOf false "https://a/x" none redirected _ rfl⟩

/-- A redirect to `http://` throws, and the promise stays pending when all has ended. -/
theorem hostless_not_orderly :
    ∃ t, (machine clientOf).replay (handler clientOf false "https://a/x" none)
        [(0, .response ⟨some 302, some "http://"⟩), (0, .finish)] = some t ∧
      t.escaped = true ∧ (∀ x ∈ t.calls, x.Ended) ∧ t.outcome = none ∧ ¬Orderly clientOf t := by
  refine ⟨_, rfl, rfl, ?_, rfl, ?_⟩
  · intro x hx e he
    obtain rfl := List.mem_singleton.mp hx
    obtain rfl := Except.ok.inj he
    rfl
  · intro h
    cases h.contained

end TurbopackWasi.Loader.Fetch
