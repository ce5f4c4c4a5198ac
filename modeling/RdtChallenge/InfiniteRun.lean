import Mathlib.Order.Filter.AtTopBot.Basic
import RdtChallenge.Transition

namespace RdtChallenge.InfiniteRun
open Filter

variable {σ α : Type*} {step : σ → α → Option σ}

/-- The states `ss` and the actions `as` between them. -/
def IsRun (step : σ → α → Option σ) (ss : ℕ → σ) (as : ℕ → α) : Prop :=
  ∀ n, step (ss n) (as n) = some (ss (n + 1))

variable {ss : ℕ → σ} {as : ℕ → α}

theorem IsRun.reachable (h : IsRun step ss as) (n : ℕ) :
    Transition.Reachable step (ss 0) (ss n) := by
  induction n with
  | zero => exact .refl step (ss 0)
  | succ n ih => exact ih.tail (h n)

theorem rel_of_steps {R : σ → σ → Prop} (hrefl : ∀ s, R s s)
    (htrans : ∀ s t u, R s t → R t u → R s u) (hstep : ∀ n, R (ss n) (ss (n + 1))) {m n : ℕ}
    (hmn : m ≤ n) : R (ss m) (ss n) := by
  induction n, hmn using Nat.le_induction with
  | base => exact hrefl _
  | succ n _ ih => exact htrans _ _ _ ih (hstep n)

theorem exists_crossing {p : ℕ → Prop} {m n : ℕ} (hmn : m ≤ n) (hm : p m) (hn : ¬ p n) :
    ∃ k, m ≤ k ∧ k < n ∧ p k ∧ ¬ p (k + 1) := by
  induction n, hmn using Nat.le_induction with
  | base => exact absurd hm hn
  | succ n hle ih =>
    by_cases hp : p n
    · exact ⟨n, hle, Nat.lt_succ_self n, hp, hn⟩
    · obtain ⟨k, hk, hlt, hpk⟩ := ih hp
      exact ⟨k, hk, Nat.lt_succ_of_lt hlt, hpk⟩

/-- A measure that is bounded, and at every moment grows later unless a goal is met. -/
theorem exists_of_progress {p : ℕ → Prop} (μ : ℕ → ℕ) (bound : ℕ) (hle : ∀ n, μ n ≤ bound)
    (hgrow : ∀ n, ∃ m, p m ∨ μ n < μ m) : ∃ m, p m := by
  have hmeasure : ∀ k n, bound - μ n = k → ∃ m, p m := by
    intro k
    induction k using Nat.strongRecOn with
    | ind k ih =>
      intro n hk
      obtain ⟨m, hp | hlt⟩ := hgrow n
      · exact ⟨m, hp⟩
      · have := hle m
        exact ih (bound - μ m) (by omega) m rfl
  exact hmeasure _ 0 rfl

/-- Where every step descends in a well-founded order, no run goes on for ever. -/
theorem not_isRun_of_descent {β : Type*} {r : β → β → Prop} (hr : WellFounded r) (μ : σ → β)
    {I : σ → Prop} (hI : ∀ s a t, I s → step s a = some t → I t)
    (hdescent : ∀ s a t, I s → step s a = some t → r (μ t) (μ s)) (h0 : I (ss 0)) :
    ¬ IsRun step ss as := by
  intro h
  have hall : ∀ n, I (ss n) := by
    intro n
    induction n with
    | zero => exact h0
    | succ n ih => exact hI _ _ _ ih (h n)
  have : IsWellFounded β r := ⟨hr⟩
  obtain ⟨n, hn⟩ := WellFounded.not_rel_apply_succ (r := r) fun n => μ (ss n)
  exact hn (hdescent _ _ _ (hall n) (h n))

theorem exists_first {p : ℕ → Prop} {n : ℕ} (h : ∃ m ≥ n, p m) :
    ∃ m ≥ n, p m ∧ ∀ k ≥ n, k < m → ¬ p k := by
  classical
  refine ⟨Nat.find h, (Nat.find_spec h).1, (Nat.find_spec h).2, fun k hk hlt hp => ?_⟩
  exact Nat.find_min h hlt ⟨hk, hp⟩

theorem frequently_of_forall {p : ℕ → Prop} {n : ℕ} (h : ∀ m ≥ n, ∃ k ≥ m, p k) :
    ∃ᶠ k in atTop, p k := by
  rw [frequently_atTop]
  intro m
  obtain ⟨k, hk, hp⟩ := h (max m n) (le_max_right m n)
  exact ⟨k, le_trans (le_max_left m n) hk, hp⟩

def Unbounded (f : ℕ → ℕ) : Prop := ∀ bound, ∃ n, bound ≤ f n

section Counts
variable {f g : ℕ → ℕ}

theorem Unbounded.of_le (h : Unbounded f) (hle : ∀ n, ∃ m, f n ≤ g m) : Unbounded g := by
  intro bound
  obtain ⟨n, hn⟩ := h bound
  obtain ⟨m, hm⟩ := hle n
  exact ⟨m, hn.trans hm⟩

/-- What grows again and again passes every bound. -/
theorem unbounded_of_frequently (hmono : Monotone f) (h : ∃ᶠ n in atTop, f n < f (n + 1)) :
    Unbounded f := by
  intro bound
  induction bound with
  | zero => exact ⟨0, Nat.zero_le _⟩
  | succ bound ih =>
    obtain ⟨n, hn⟩ := ih
    obtain ⟨m, hm, hlt⟩ := (frequently_atTop.mp h) n
    have := hmono hm
    exact ⟨m + 1, by omega⟩

theorem unbounded_count {β : Type*} [BEq β] [LawfulBEq β] {logs : ℕ → List β} {x : β}
    (hgrows : ∀ {m n}, m ≤ n → logs m <+: logs n)
    (h : ∃ᶠ n in atTop, ∃ out, logs (n + 1) = logs n ++ out ∧ x ∈ out) :
    Unbounded fun n => (logs n).count x := by
  refine unbounded_of_frequently (fun m n hmn => (hgrows hmn).count_le x) (h.mono ?_)
  rintro n ⟨out, hout, hx⟩
  have := List.count_pos_iff.mpr hx
  rw [hout, List.count_append]
  omega

theorem Unbounded.exists_growth (h : Unbounded f) (hmono : Monotone f) (n : ℕ) :
    ∃ m ≥ n, f m < f (m + 1) := by
  obtain ⟨k, hk⟩ := h (f n + 1)
  have hnk : n ≤ k := by
    by_contra hlt
    have := hmono (not_le.mp hlt).le
    omega
  obtain ⟨m, hm, -, hle, hgt⟩ := exists_crossing (p := fun m => f m ≤ f n) hnk le_rfl (by omega)
  exact ⟨m, hm, by omega⟩

end Counts

theorem exists_sequence {P : ℕ → σ → Prop} {R : ℕ → σ → σ → Prop} {s : σ} (h0 : P 0 s)
    (hnext : ∀ n s, P n s → ∃ t, P (n + 1) t ∧ R n s t) :
    ∃ ss : ℕ → σ, ss 0 = s ∧ ∀ n, P n (ss n) ∧ R n (ss n) (ss (n + 1)) := by
  choose next hnext using hnext
  let chain : (n : ℕ) → { s // P n s } := fun n =>
    Nat.rec ⟨s, h0⟩ (fun n s => ⟨next n s.1 s.2, (hnext n s.1 s.2).1⟩) n
  exact ⟨fun n => (chain n).1, rfl,
    fun n => ⟨(chain n).2, (hnext n (chain n).1 (chain n).2).2⟩⟩

/-- `fs 0`, `gs 0`, `fs 1`, `gs 1` and so on. -/
def interleave {β : Type*} (fs gs : ℕ → β) (k : ℕ) : β :=
  if k % 2 = 0 then fs (k / 2) else gs (k / 2)

section Interleave
variable {β : Type*} {fs gs : ℕ → β}

@[simp] theorem interleave_even (n : ℕ) : interleave fs gs (2 * n) = fs n := by
  rw [interleave, if_pos (by omega), Nat.mul_div_cancel_left n (by decide)]

@[simp] theorem interleave_odd (n : ℕ) : interleave fs gs (2 * n + 1) = gs n := by
  rw [interleave, if_neg (by omega), show (2 * n + 1) / 2 = n by omega]

theorem interleave_cases {motive : ℕ → Prop} (heven : ∀ n, motive (2 * n))
    (hodd : ∀ n, motive (2 * n + 1)) (k : ℕ) : motive k := by
  obtain ⟨n, rfl | rfl⟩ := Nat.even_or_odd' k
  · exact heven n
  · exact hodd n

theorem isRun_interleave {mids : ℕ → σ} {bs : ℕ → α}
    (h : ∀ n, step (ss n) (as n) = some (mids n))
    (h' : ∀ n, step (mids n) (bs n) = some (ss (n + 1))) :
    IsRun step (interleave ss mids) (interleave as bs) := by
  refine interleave_cases (fun n => ?_) fun n => ?_
  · simpa using h n
  · rw [show 2 * n + 1 + 1 = 2 * (n + 1) by ring]
    simpa using h' n

end Interleave

end RdtChallenge.InfiniteRun
