import Mathlib.Tactic
import Mathlib.Logic.Relation
import Mathlib.Order.Interval.Finset.Nat

namespace RdtChallenge.SelectiveRepeat

/-- One party has sent the items below `next` and knows some of them to be `acked`. The other one
has stored the items of `held` and reports the least missing one, and which are stored among
those of the `w - 1` places after it. -/
structure State where
  next : ℕ
  held : Set ℕ
  base : ℕ
  acked : Set ℕ
  reports : Set (ℕ × Set ℕ)

def initial : State := ⟨0, ∅, 0, ∅, ∅⟩

def nameable (w : ℕ) (held : Set ℕ) (b : ℕ) : Set ℕ := {i | i ∈ held ∧ b < i ∧ i < b + w}

/-- A report once issued may be learnt at any later time, any number of times and in any order. -/
inductive Step (w : ℕ) : State → State → Prop
  | send (s : State) : Step w s { s with next := s.next + 1 }
  | store (s : State) (i : ℕ) (hi : i < s.next) : Step w s { s with held := insert i s.held }
  | report (s : State) (b : ℕ) (hb : IsLeast s.heldᶜ b) :
      Step w s { s with reports := insert (b, nameable w s.held b) s.reports }
  | learn (s : State) (r : ℕ × Set ℕ) (hr : r ∈ s.reports) :
      Step w s { s with base := max s.base r.1, acked := s.acked ∪ Set.Iio r.1 ∪ r.2 }

/-- What holds in every reachable state. The clause `apart` is the reason that the
base is never selectively acknowledged: reports are compared across all times. -/
structure Inv (w : ℕ) (s : State) : Prop where
  held_lt : ∀ i ∈ s.held, i < s.next
  below : ∀ r ∈ s.reports, ∀ i < r.1, i ∈ s.held
  named : ∀ r ∈ s.reports, ∀ i ∈ r.2, i ∈ s.held ∧ r.1 < i ∧ i < r.1 + w
  apart : ∀ r ∈ s.reports, ∀ r' ∈ s.reports, r'.1 ∉ r.2
  base_reported : s.base = 0 ∨ ∃ r ∈ s.reports, r.1 = s.base
  acked_below : ∀ i < s.base, i ∈ s.acked
  acked_reported : ∀ i ∈ s.acked, i < s.base ∨ ∃ r ∈ s.reports, r.1 ≤ s.base ∧ i ∈ r.2

variable {w : ℕ} {s t : State}

theorem inv_initial : Inv w initial := by
  constructor <;> simp [initial]

theorem Inv.reported_le (h : Inv w s) {r : ℕ × Set ℕ} (hr : r ∈ s.reports) {b : ℕ}
    (hb : b ∉ s.held) : r.1 ≤ b := by
  by_contra hlt
  exact hb (h.below r hr b (by omega))

theorem Inv.report (h : Inv w s) {b : ℕ} (hb : IsLeast s.heldᶜ b) :
    Inv w { s with reports := insert (b, nameable w s.held b) s.reports } where
  held_lt := h.held_lt
  below r hr i hi := by
    rcases Set.mem_insert_iff.mp hr with rfl | hr
    · by_contra hmiss
      have : b ≤ i := hb.2 hmiss
      simp only at hi
      omega
    · exact h.below r hr i hi
  named r hr i hi := by
    rcases Set.mem_insert_iff.mp hr with rfl | hr
    · exact hi
    · exact h.named r hr i hi
  apart r hr r' hr' hmem := by
    rcases Set.mem_insert_iff.mp hr with rfl | hr <;>
      rcases Set.mem_insert_iff.mp hr' with rfl | hr'
    · exact lt_irrefl _ hmem.2.1
    · -- an earlier base is at most the new one, and the new report names only later items
      have := h.reported_le hr' hb.1
      have := hmem.2.1
      omega
    · -- an earlier report names only stored items, and the new base is missing
      exact hb.1 (h.named r hr _ hmem).1
    · exact h.apart r hr r' hr' hmem
  base_reported := h.base_reported.imp_right fun ⟨r, hr, he⟩ => ⟨r, Or.inr hr, he⟩
  acked_below := h.acked_below
  acked_reported i hi := (h.acked_reported i hi).imp_right
    fun ⟨r, hr, hle, hmem⟩ => ⟨r, Or.inr hr, hle, hmem⟩

theorem Inv.learn (h : Inv w s) {r : ℕ × Set ℕ} (hr : r ∈ s.reports) :
    Inv w { s with base := max s.base r.1, acked := s.acked ∪ Set.Iio r.1 ∪ r.2 } where
  held_lt := h.held_lt
  below := h.below
  named := h.named
  apart := h.apart
  base_reported := by
    rcases le_total s.base r.1 with hle | hle
    · exact Or.inr ⟨r, hr, (max_eq_right hle).symm⟩
    · simpa [hle] using h.base_reported
  acked_below i hi := by
    rcases lt_max_iff.mp hi with hi | hi
    · exact Or.inl (Or.inl (h.acked_below i hi))
    · exact Or.inl (Or.inr hi)
  acked_reported i hi := by
    rcases hi with (hi | hi) | hi
    · rcases h.acked_reported i hi with hlt | ⟨r', hr', hle, hmem⟩
      · exact Or.inl (lt_max_of_lt_left hlt)
      · exact Or.inr ⟨r', hr', le_max_of_le_left hle, hmem⟩
    · exact Or.inl (lt_max_of_lt_right hi)
    · exact Or.inr ⟨r, hr, le_max_right _ _, hi⟩

theorem Inv.step (h : Inv w s) (hst : Step w s t) : Inv w t := by
  cases hst with
  | send =>
    exact { h with held_lt := fun i hi => Nat.lt_succ_of_lt (h.held_lt i hi) }
  | store i hi =>
    exact { h with
      held_lt := by rintro j (rfl | hj); exacts [hi, h.held_lt j hj]
      below := fun r hr j hj => Or.inr (h.below r hr j hj)
      named := fun r hr j hj => ⟨Or.inr (h.named r hr j hj).1, (h.named r hr j hj).2⟩ }
  | report b hb => exact h.report hb
  | learn r hr => exact h.learn hr

theorem inv_reachable (h : Relation.ReflTransGen (Step w) initial s) : Inv w s := by
  induction h with
  | refl => exact inv_initial
  | tail _ hst ih => exact ih.step hst

theorem Inv.acked_held (h : Inv w s) {i : ℕ} (hi : i ∈ s.acked) : i ∈ s.held := by
  rcases h.acked_reported i hi with hlt | ⟨r, hr, _, hmem⟩
  · rcases h.base_reported with h0 | ⟨r, hr, he⟩
    · omega
    · exact h.below r hr i (he ▸ hlt)
  · exact (h.named r hr i hmem).1

theorem Inv.base_le (h : Inv w s) {b : ℕ} (hb : b ∉ s.held) : s.base ≤ b := by
  rcases h.base_reported with h0 | ⟨r, hr, he⟩
  · omega
  · exact he ▸ h.reported_le hr hb

theorem Inv.least_le_next (h : Inv w s) {b : ℕ} (hb : ∀ i < b, i ∈ s.held) : b ≤ s.next := by
  by_contra hlt
  exact lt_irrefl _ (h.held_lt _ (hb s.next (by omega)))

/-- The base is the oldest item that is not acknowledged. -/
theorem Inv.base_not_acked (h : Inv w s) : s.base ∉ s.acked := by
  intro hmem
  rcases h.acked_reported _ hmem with hlt | ⟨r, hr, _, hin⟩
  · exact lt_irrefl _ hlt
  · rcases h.base_reported with h0 | ⟨r', hr', he⟩
    · have := (h.named r hr _ hin).2.1
      omega
    · -- the base was learnt from `r'` and named by `r`, whichever came first
      exact h.apart r hr r' hr' (he ▸ hin)

theorem Inv.report_le_next (h : Inv w s) {r : ℕ × Set ℕ} (hr : r ∈ s.reports) :
    r.1 ≤ s.next ∧ ∀ i ∈ r.2, i < s.next :=
  ⟨h.least_le_next (h.below r hr), fun i hi => h.held_lt i (h.named r hr i hi).1⟩

section Window

variable {base next w W : ℕ} {acked : ℕ → Prop} [DecidablePred acked]

/-- A window that counts items without acknowledgement, over items acknowledged only
within `w` places of the base, spans at most `w + W` places. -/
theorem window_span (hacked : ∀ i, acked i → i < base + w)
    (hcard : ((Finset.Ico base next).filter fun i => ¬ acked i).card ≤ W) :
    next ≤ base + w + W := by
  -- past the reach of acknowledgements every item counts
  have hsub : Finset.Ico (base + w) next ⊆ (Finset.Ico base next).filter fun i => ¬ acked i := by
    intro i hi
    simp only [Finset.mem_Ico, Finset.mem_filter] at hi ⊢
    exact ⟨by omega, fun ha => by have := hacked i ha; omega⟩
  have := (Finset.card_le_card hsub).trans hcard
  rw [Nat.card_Ico] at this
  omega

/-- One place less when the base itself is not acknowledged. -/
theorem window_span_of_base (hw : 0 < w) (hacked : ∀ i, acked i → i < base + w)
    (hbase : ¬ acked base)
    (hcard : ((Finset.Ico base next).filter fun i => ¬ acked i).card ≤ W) :
    next < base + w + W ∨ next ≤ base := by
  by_contra! hspan
  have hsub : insert base (Finset.Ico (base + w) next) ⊆
      (Finset.Ico base next).filter fun i => ¬ acked i := by
    intro i hi
    simp only [Finset.mem_insert, Finset.mem_Ico, Finset.mem_filter] at hi ⊢
    rcases hi with rfl | hi
    · exact ⟨by omega, hbase⟩
    · exact ⟨by omega, fun ha => by have := hacked i ha; omega⟩
  have := (Finset.card_le_card hsub).trans hcard
  rw [Finset.card_insert_of_notMem (by simp; omega), Nat.card_Ico] at this
  omega

end Window

end RdtChallenge.SelectiveRepeat
