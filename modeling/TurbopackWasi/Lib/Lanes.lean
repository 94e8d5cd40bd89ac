import Mathlib.Data.List.Basic

/-!
# TurbopackWasi.Lib.Lanes

**Several FIFO lanes with one consumer.** Items are issued in one order, each into the
lane `lane a`; the consumer takes the head of any lane it likes. Nothing is promised
between two lanes.

`Lanes.waiting` keeps the items of all lanes in the order of issue, so the queue of a lane
is its own part of it (`Lanes.queue`), and taking the head of a lane is taking its first
item (`dispatch_queue`).

Items that concern the same `key` are executed in the order of issue iff no dispatch
overtakes an item of its own key in another lane (`inOrder_dispatch`,
`not_sorted_of_overtakes`).
-/

namespace TurbopackWasi.Lib

structure Lanes (α : Type) where
  /-- All items so far. -/
  issued : List α
  waiting : List α
  /-- The items taken, in order. -/
  executed : List α

namespace Lanes

variable {α ℓ κ : Type} [DecidableEq ℓ] [DecidableEq κ] (lane : α → ℓ) (key : α → κ)

def empty : Lanes α := ⟨[], [], []⟩

def issue (σ : Lanes α) (a : α) : Lanes α :=
  { σ with issued := σ.issued ++ [a], waiting := σ.waiting ++ [a] }

/-- The queue of a lane. -/
def queue (σ : Lanes α) (l : ℓ) : List α := σ.waiting.filter (lane · = l)

/-- Takes the head of a lane. -/
def dispatch (σ : Lanes α) (l : ℓ) : Option (α × Lanes α) :=
  (σ.waiting.find? (lane · = l)).map fun a =>
    (a, { σ with
      waiting := σ.waiting.eraseP (lane · = l)
      executed := σ.executed ++ [a] })

/-- The head of the lane is not the first of its key that waits. -/
def Overtakes (σ : Lanes α) (l : ℓ) : Prop :=
  ∃ a, σ.waiting.find? (lane · = l) = some a ∧ σ.waiting.find? (key · = key a) ≠ some a

/-- Every key's items are executed in the order of issue. -/
def Sorted (σ : Lanes α) : Prop :=
  ∀ k, σ.executed.filter (key · = k) <+: σ.issued.filter (key · = k)

/-- Of every key, what is executed and what waits is what was issued. -/
def InOrder (σ : Lanes α) : Prop :=
  ∀ k, σ.executed.filter (key · = k) ++ σ.waiting.filter (key · = k) =
    σ.issued.filter (key · = k)

/-- What was issued is what was taken and what waits. -/
def Whole (σ : Lanes α) : Prop := σ.issued.Perm (σ.executed ++ σ.waiting)

variable {lane key} {σ σ' : Lanes α} {l : ℓ} {a : α}

theorem InOrder.sorted (h : InOrder key σ) : Sorted key σ :=
  fun k => ⟨_, h k⟩

theorem inOrder_empty : InOrder key (empty : Lanes α) := fun _ => rfl

theorem inOrder_issue (h : InOrder key σ) (a : α) : InOrder key (σ.issue a) := by
  intro k
  simp only [issue, List.filter_append]
  rw [← h k, List.append_assoc]

/-- The first match splits the list. -/
theorem eraseP_of_find {p : α → Bool} :
    ∀ {as : List α}, as.find? p = some a →
      ∃ as₁ as₂, as = as₁ ++ a :: as₂ ∧ (∀ b ∈ as₁, ¬p b) ∧ p a ∧ as.eraseP p = as₁ ++ as₂ := by
  intro as
  induction as with
  | nil =>
      intro h
      simp at h
  | cons b as ih =>
      intro h
      by_cases hb : p b
      · obtain rfl : b = a := by simpa [hb] using h
        exact ⟨[], as, rfl, by simp, hb, by simp [hb]⟩
      · obtain ⟨as₁, as₂, rfl, hno, ha, herase⟩ := ih (by simpa [hb] using h)
        refine ⟨b :: as₁, as₂, rfl, ?_, ha, by simp [hb, herase]⟩
        intro c hc
        rcases List.mem_cons.mp hc with rfl | hc
        · exact hb
        · exact hno c hc

theorem dispatch_cases (h : dispatch lane σ l = some (a, σ')) :
    ∃ as₁ as₂, σ.waiting = as₁ ++ a :: as₂ ∧ (∀ b ∈ as₁, lane b ≠ l) ∧ lane a = l ∧
      σ' = { σ with waiting := as₁ ++ as₂, executed := σ.executed ++ [a] } := by
  obtain ⟨b, hb, hpair⟩ := Option.map_eq_some_iff.mp h
  obtain ⟨rfl, rfl⟩ := Prod.mk.inj hpair
  obtain ⟨as₁, as₂, hsplit, hno, hl, herase⟩ := eraseP_of_find hb
  refine ⟨as₁, as₂, hsplit, fun c hc => ?_, by simpa using hl, by rw [herase]⟩
  simpa using hno c hc

/-- A dispatch takes the head of its lane and leaves the other lanes alone. -/
theorem dispatch_queue (h : dispatch lane σ l = some (a, σ')) :
    queue lane σ l = a :: queue lane σ' l ∧ ∀ m, m ≠ l → queue lane σ' m = queue lane σ m := by
  obtain ⟨as₁, as₂, hsplit, hno, hl, rfl⟩ := dispatch_cases h
  constructor
  · have hnone : as₁.filter (lane · = l) = [] :=
      List.filter_eq_nil_iff.mpr fun b hb => by simpa using hno b hb
    simp [queue, hsplit, hl, hnone]
  · intro m hm
    have hne : lane a ≠ m := fun h => hm (h.symm.trans hl)
    simp [queue, hsplit, hne]

/-- The item leaves those that wait, and is the last of those executed. -/
theorem dispatch_took (h : dispatch lane σ l = some (a, σ')) :
    lane a = l ∧ σ'.issued = σ.issued ∧ σ'.executed = σ.executed ++ [a] ∧
      σ.waiting.Perm (a :: σ'.waiting) := by
  obtain ⟨as₁, as₂, hsplit, -, hl, rfl⟩ := dispatch_cases h
  refine ⟨hl, rfl, rfl, ?_⟩
  rw [hsplit]
  exact List.perm_middle

theorem whole_empty : Whole (empty : Lanes α) := List.Perm.refl _

theorem whole_issue (h : Whole σ) (a : α) : Whole (σ.issue a) := by
  show (σ.issued ++ [a]).Perm (σ.executed ++ (σ.waiting ++ [a]))
  rw [← List.append_assoc]
  exact h.append_right [a]

theorem whole_dispatch (h : Whole σ) (hd : dispatch lane σ l = some (a, σ')) : Whole σ' := by
  obtain ⟨-, hissued, hexecuted, hwaiting⟩ := dispatch_took hd
  unfold Whole
  rw [hissued, hexecuted, List.append_assoc]
  exact h.trans (hwaiting.append_left σ.executed)

theorem Whole.issued_of_executed (h : Whole σ) (ha : a ∈ σ.executed) : a ∈ σ.issued :=
  h.mem_iff.mpr (List.mem_append_left _ ha)

/-- With nothing waiting, everything was taken. -/
theorem Whole.executed_of_issued (h : Whole σ) (hw : σ.waiting = []) (ha : a ∈ σ.issued) :
    a ∈ σ.executed := by
  have hmem := h.mem_iff.mp ha
  rwa [hw, List.append_nil] at hmem

/-- The first of all that wait overtakes nothing. -/
theorem not_overtakes_first {as : List α} (h : σ.waiting = a :: as) (hl : lane a = l) :
    ¬Overtakes lane key σ l := by
  rintro ⟨b, hb, hfirst⟩
  obtain rfl : a = b := by simpa [h, hl] using hb
  simp [h] at hfirst

/-- **A dispatch that overtakes nothing keeps the order.** -/
theorem inOrder_dispatch (hI : InOrder key σ) (hno : ¬Overtakes lane key σ l)
    (h : dispatch lane σ l = some (a, σ')) : InOrder key σ' := by
  intro k
  have hk := hI k
  have hfind : σ.waiting.find? (lane · = l) = some a := by
    obtain ⟨b, hb, hpair⟩ := Option.map_eq_some_iff.mp h
    rw [hb, ← (Prod.mk.inj hpair).1]
  obtain ⟨as₁, as₂, hsplit, hlane, hl, rfl⟩ := dispatch_cases h
  rw [hsplit] at hk
  by_cases hka : key a = k
  · -- nothing of this key stands before it
    have hnone : as₁.filter (key · = k) = [] := by
      refine List.filter_eq_nil_iff.mpr fun b hb hbk => ?_
      refine hno ⟨a, hfind, ?_⟩
      rw [hka, hsplit, List.find?_append]
      intro hfirst
      cases hf : as₁.find? (key · = k) with
      | none =>
          rw [List.find?_eq_none] at hf
          exact hf b hb hbk
      | some c =>
          obtain rfl : c = a := by simpa [hf] using hfirst
          exact hlane c (List.mem_of_find?_eq_some hf) hl
    rw [← hk]
    simp [hka, hnone]
  · rw [← hk]
    simp [hka]

/-- Within one lane nothing is overtaken. -/
theorem inOrder_dispatch_lane (hI : InOrder lane σ) (h : dispatch lane σ l = some (a, σ')) :
    InOrder lane σ' := by
  refine inOrder_dispatch hI ?_ h
  intro hover
  obtain ⟨b, hb, hfirst⟩ := hover
  have hl : lane b = l := by simpa using List.find?_some hb
  rw [hl] at hfirst
  exact hfirst hb

/-- One that overtakes an item breaks it. -/
theorem not_sorted_of_overtakes (hI : InOrder key σ) (hover : Overtakes lane key σ l)
    (h : dispatch lane σ l = some (a, σ')) : ¬Sorted key σ' := by
  obtain ⟨b, hb, hfirst⟩ := hover
  obtain rfl : b = a := by
    obtain ⟨c, hc, hpair⟩ := Option.map_eq_some_iff.mp h
    exact Option.some.inj (hb.symm.trans (hc.trans (congrArg some (Prod.mk.inj hpair).1)))
  obtain ⟨as₁, as₂, hsplit, -, -, rfl⟩ := dispatch_cases h
  intro hsorted
  have hk := hI (key b)
  obtain ⟨rest, hrest⟩ := hsorted (key b)
  cases hf : σ.waiting.find? (key · = key b) with
  | none =>
      rw [List.find?_eq_none] at hf
      exact hf b (by simp [hsplit]) (by simp)
  | some c =>
      obtain ⟨bs₁, bs₂, hbs, hno, hc, -⟩ := eraseP_of_find hf
      have hnone : bs₁.filter (key · = key b) = [] := List.filter_eq_nil_iff.mpr hno
      -- the next item of the key is `c`, not `b`
      rw [← hk, hbs] at hrest
      simp only [List.filter_append, List.append_assoc, List.append_cancel_left_eq, hnone,
        List.nil_append] at hrest
      have hkey : key c = key b := by simpa using hc
      have hbc : b = c := by simpa [hkey] using congrArg List.head? hrest
      exact hfirst (hf.trans (congrArg some hbc.symm))

/-! ### What the order of issue decides -/

/-- Every item of the kind `P` comes after one that `R` relates to it. -/
def Caused (P : α → Prop) (R : α → α → Prop) (as : List α) : Prop :=
  ∀ as' b, as' ++ [b] <+: as → P b → ∃ a ∈ as', R a b

section Order

variable {P : α → Prop} {R : α → α → Prop} {as : List α}

theorem caused_nil : Caused P R [] := by
  intro as' b h
  simp at h

theorem caused_concat (h : Caused P R as) (ha : P a → ∃ b ∈ as, R b a) :
    Caused P R (as ++ [a]) := by
  intro as' b hb hP
  rcases List.prefix_concat_iff.mp hb with heq | hpre
  · obtain ⟨rfl, hlast⟩ := List.append_inj' heq rfl
    obtain rfl : b = a := by simpa using hlast
    exact ha hP
  · exact h as' b hpre hP

/-- What is issued after its cause is executed after it, if both have the same key. -/
theorem Sorted.caused (hS : Sorted key σ) (hkey : ∀ a b, R a b → key a = key b)
    (h : Caused P R σ.issued) : Caused P R σ.executed := by
  intro as' b hb hP
  have hexec : (as' ++ [b]).filter (key · = key b) <+: σ.executed.filter (key · = key b) :=
    hb.filter _
  rw [List.filter_append, List.filter_cons_of_pos (by simp), List.filter_nil] at hexec
  obtain ⟨rest, hrest⟩ := hexec.trans (hS (key b))
  -- the same item among those issued
  obtain ⟨as₁, as₂, hissued, hfilter, -⟩ := List.filter_eq_append_iff.mp hrest.symm
  obtain ⟨bs, b', hbs, hno⟩ : ∃ bs b', as₁ = bs ++ b :: b' ∧ bs.filter (key · = key b) =
      as'.filter (key · = key b) := by
    obtain ⟨bs, cs, hbs, hleft, hright⟩ := List.filter_eq_append_iff.mp hfilter
    obtain ⟨ds, b', hcs, hnone, -, -⟩ := List.filter_eq_cons_iff.mp hright
    refine ⟨bs ++ ds, b', by rw [hbs, hcs, List.append_assoc], ?_⟩
    rw [List.filter_append, hleft, List.filter_eq_nil_iff.mpr hnone, List.append_nil]
  have hpre : bs ++ [b] <+: σ.issued := ⟨b' ++ as₂, by simp [hissued, hbs]⟩
  obtain ⟨a, ha, hR⟩ := h bs b hpre hP
  have hmem : a ∈ bs.filter (key · = key b) :=
    List.mem_filter.mpr ⟨ha, by simpa using hkey a b hR⟩
  rw [hno] at hmem
  exact ⟨a, List.mem_of_mem_filter hmem, hR⟩

/-- Between what is executed and what waits, the items of a key are related as those
issued are. -/
theorem InOrder.pairwise (hI : InOrder key σ) (h : σ.issued.Pairwise R) (k : κ) :
    (σ.executed.filter (key · = k) ++ σ.waiting.filter (key · = k)).Pairwise R := by
  rw [hI k]
  exact h.sublist List.filter_sublist

theorem InOrder.executed_subset (hI : InOrder key σ) (ha : a ∈ σ.executed) : a ∈ σ.issued := by
  have hmem : a ∈ σ.executed.filter (key · = key a) := List.mem_filter.mpr ⟨ha, by simp⟩
  have hall := List.mem_append_left (σ.waiting.filter (key · = key a)) hmem
  rw [hI] at hall
  exact List.mem_of_mem_filter hall

theorem InOrder.waiting_subset (hI : InOrder key σ) (ha : a ∈ σ.waiting) : a ∈ σ.issued := by
  have hmem : a ∈ σ.waiting.filter (key · = key a) := List.mem_filter.mpr ⟨ha, by simp⟩
  have hall := List.mem_append_right (σ.executed.filter (key · = key a)) hmem
  rw [hI] at hall
  exact List.mem_of_mem_filter hall

end Order

end Lanes

end TurbopackWasi.Lib
