import Mathlib.Algebra.Field.ZMod
import Mathlib.Algebra.Polynomial.Div
import Mathlib.Algebra.Polynomial.RingDivision
import Mathlib.Data.ZMod.Basic
import Mathlib.RingTheory.AdjoinRoot
import Mathlib.Tactic

namespace RdtChallenge.CyclicCode
open Polynomial

variable {w k : ℕ}

/-- One shift. The bit that falls out is the coefficient of `X ^ w`. -/
def shift (g r : BitVec w) : BitVec w := (r >>> 1) ^^^ (if r.getLsbD 0 then g else 0)

def shifts (g : BitVec w) : ℕ → BitVec w → BitVec w
  | 0, r => r
  | n + 1, r => shifts g n (shift g r)

def feed (g r : BitVec w) (x : BitVec k) : BitVec w := shifts g k (r ^^^ x.setWidth w)

/-- The lowest bit of a register is the coefficient of the highest power. -/
noncomputable def toPoly (r : BitVec w) : (ZMod 2)[X] :=
  ∑ j ∈ Finset.range w, if r.getMsbD j then X ^ j else 0

/-- `X ^ w` and the powers that `g` stands for. -/
noncomputable def generator (g : BitVec w) : (ZMod 2)[X] := X ^ w + toPoly g

/-- The message, its first bit being the coefficient of the highest power. -/
noncomputable def message (xs : List (BitVec k)) : (ZMod 2)[X] :=
  xs.foldl (fun p x => X ^ k * p + toPoly x) 0

theorem coeff_toPoly (r : BitVec w) (j : ℕ) :
    (toPoly r).coeff j = if r.getMsbD j then 1 else 0 := by
  have hterm : ∀ i, (if r.getMsbD i then X ^ i else 0 : (ZMod 2)[X]).coeff j =
      if i = j then (if r.getMsbD j then 1 else 0) else 0 := by
    intro i
    by_cases hij : i = j
    · subst hij
      by_cases hbit : r.getMsbD i <;> simp [hbit]
    · by_cases hbit : r.getMsbD i <;> simp [hbit, hij, coeff_X_pow, Ne.symm hij]
  rw [toPoly, finsetSum_coeff]
  simp only [hterm, Finset.sum_ite_eq', Finset.mem_range]
  by_cases hj : j < w
  · simp [hj]
  · have : r.getMsbD j = false := BitVec.getMsbD_of_ge r j (by omega)
    simp [this]

theorem toPoly_injective : Function.Injective (toPoly (w := w)) := by
  intro r s h
  apply BitVec.eq_of_getMsbD_eq
  intro j hj
  have hcoeff := congrArg (fun p => p.coeff j) h
  simp only [coeff_toPoly] at hcoeff
  cases hr : r.getMsbD j <;> cases hs : s.getMsbD j <;> simp [hr, hs] at hcoeff ⊢

theorem degree_toPoly_lt (r : BitVec w) : (toPoly r).degree < w := by
  rw [degree_lt_iff_coeff_zero]
  intro j hj
  rw [coeff_toPoly, BitVec.getMsbD_of_ge r j (by exact_mod_cast hj)]
  rfl

theorem toPoly_xor (r s : BitVec w) : toPoly (r ^^^ s) = toPoly r + toPoly s := by
  ext j
  rw [coeff_add, coeff_toPoly, coeff_toPoly, coeff_toPoly, BitVec.getMsbD_xor]
  cases r.getMsbD j <;> cases s.getMsbD j <;> decide

theorem toPoly_setWidth (hk : k ≤ w) (x : BitVec k) :
    toPoly (x.setWidth w) = X ^ (w - k) * toPoly x := by
  ext j
  rw [coeff_toPoly, coeff_X_pow_mul', coeff_toPoly, BitVec.getMsbD_setWidth]
  by_cases hj : w - k ≤ j
  · have hidx : j + k - w = j - (w - k) := by omega
    simp [hj, hidx]
  · simp [hj]

theorem generator_monic (g : BitVec w) : (generator g).Monic :=
  monic_X_pow_add (degree_toPoly_lt g)

theorem degree_generator (g : BitVec w) : (generator g).degree = w := by
  rw [generator, degree_add_eq_left_of_degree_lt]
  · exact degree_X_pow w
  · rw [degree_X_pow]
    exact degree_toPoly_lt g

theorem toPoly_shift (g r : BitVec w) :
    toPoly (shift g r) = X * toPoly r + if r.getLsbD 0 then generator g else 0 := by
  have hshift : toPoly (r >>> 1) = X * toPoly r + if r.getLsbD 0 then X ^ w else 0 := by
    ext j
    rw [coeff_add, coeff_toPoly, BitVec.getMsbD_ushiftRight]
    cases j with
    | zero =>
      rw [coeff_X_mul_zero]
      by_cases hbit : r.getLsbD 0
      · have hw : 0 < w := by
          by_contra h0
          obtain rfl : w = 0 := by omega
          simp at hbit
        simp [hbit, coeff_X_pow, hw.ne]
      · simp [hbit]
    | succ j =>
      rw [coeff_X_mul, coeff_toPoly]
      rcases Nat.lt_trichotomy (j + 1) w with hlt | heq | hgt
      · have hne : ¬ j + 1 = w := by omega
        by_cases hbit : r.getLsbD 0 <;> simp [hlt, hbit, coeff_X_pow, hne]
      · -- the coefficient of `X ^ w` is the lowest bit, and cancels
        have hlow : r.getMsbD j = r.getLsbD 0 := by
          have hidx : w - 1 - j = 0 := by omega
          rw [BitVec.getMsbD_eq_getLsbD, hidx]
          simp
          omega
        rw [hlow]
        cases r.getLsbD 0 <;> simp [heq, coeff_X_pow, CharTwo.add_self_eq_zero]
      · have hne : ¬ j + 1 = w := by omega
        have hnone : r.getMsbD j = false := BitVec.getMsbD_of_ge r j (by omega)
        have hnot : ¬ j + 1 < w := by omega
        by_cases hbit : r.getLsbD 0 <;> simp [hnot, hnone, hbit, coeff_X_pow, hne]
  rw [shift, toPoly_xor, hshift, add_assoc]
  congr 1
  split_ifs
  · rfl
  · simp [toPoly]

variable {g : BitVec w}

noncomputable def residue (g r : BitVec w) : AdjoinRoot (generator g) :=
  AdjoinRoot.mk (generator g) (toPoly r)

theorem residue_injective : Function.Injective (residue g) := by
  intro r s h
  rw [residue, residue, AdjoinRoot.mk_eq_mk] at h
  apply toPoly_injective
  rw [← sub_eq_zero]
  by_contra hne
  -- a multiple of the generator of lower degree
  have hle := degree_le_of_dvd h hne
  rw [degree_generator] at hle
  have hlt := (degree_sub_le _ _).trans_lt (max_lt (degree_toPoly_lt r) (degree_toPoly_lt s))
  exact absurd hle (not_le.mpr hlt)

theorem residue_xor (r s : BitVec w) : residue g (r ^^^ s) = residue g r + residue g s := by
  rw [residue, toPoly_xor, map_add]
  rfl

theorem residue_shift (r : BitVec w) :
    residue g (shift g r) = AdjoinRoot.root (generator g) * residue g r := by
  rw [residue, toPoly_shift, map_add, map_mul, AdjoinRoot.mk_X]
  split_ifs <;> simp [residue]

theorem residue_shifts (n : ℕ) (r : BitVec w) :
    residue g (shifts g n r) = AdjoinRoot.root (generator g) ^ n * residue g r := by
  induction n generalizing r with
  | zero => simp [shifts]
  | succ n ih => rw [shifts, ih, residue_shift, pow_succ, mul_assoc]

theorem residue_setWidth (hk : k ≤ w) (x : BitVec k) : residue g (x.setWidth w) =
    AdjoinRoot.root (generator g) ^ (w - k) * AdjoinRoot.mk (generator g) (toPoly x) := by
  rw [residue, toPoly_setWidth hk, map_mul, map_pow, AdjoinRoot.mk_X]

theorem residue_feed (hk : k ≤ w) (r : BitVec w) (x : BitVec k) :
    residue g (feed g r x) = AdjoinRoot.root (generator g) ^ k * residue g r +
      AdjoinRoot.root (generator g) ^ w * AdjoinRoot.mk (generator g) (toPoly x) := by
  have hpow : AdjoinRoot.root (generator g) ^ k * AdjoinRoot.root (generator g) ^ (w - k) =
      AdjoinRoot.root (generator g) ^ w := by rw [← pow_add, Nat.add_sub_cancel' hk]
  rw [feed, residue_shifts, residue_xor, residue_setWidth hk, mul_add, ← mul_assoc, hpow]

theorem message_concat (xs : List (BitVec k)) (x : BitVec k) :
    message (xs ++ [x]) = X ^ k * message xs + toPoly x := by
  rw [message, List.foldl_append]
  rfl

theorem residue_foldl_feed (hk : k ≤ w) (r : BitVec w) (xs : List (BitVec k)) :
    residue g (xs.foldl (feed g) r) =
      AdjoinRoot.root (generator g) ^ (k * xs.length) * residue g r +
        AdjoinRoot.root (generator g) ^ w * AdjoinRoot.mk (generator g) (message xs) := by
  induction xs using List.reverseRecOn with
  | nil => simp [message]
  | append_singleton xs x ih =>
    rw [List.foldl_append, List.foldl_cons, List.foldl_nil, residue_feed hk, ih, message_concat,
      map_add, map_mul, map_pow, AdjoinRoot.mk_X, List.length_append, List.length_singleton]
    ring

/-- The register holds the remainder of the division by the generator. -/
theorem toPoly_foldl_feed (hk : k ≤ w) (r : BitVec w) (xs : List (BitVec k)) :
    toPoly (xs.foldl (feed g) r) =
      (X ^ (k * xs.length) * toPoly r + X ^ w * message xs) %ₘ generator g := by
  have hmk : AdjoinRoot.mk (generator g) (toPoly (xs.foldl (feed g) r)) =
      AdjoinRoot.mk (generator g) (X ^ (k * xs.length) * toPoly r + X ^ w * message xs) := by
    have hres := residue_foldl_feed (g := g) hk r xs
    simp only [residue] at hres
    rw [hres]
    simp [AdjoinRoot.mk_X]
  have hself : toPoly (xs.foldl (feed g) r) %ₘ generator g = toPoly (xs.foldl (feed g) r) := by
    rw [modByMonic_eq_self_iff (generator_monic g), degree_generator]
    exact degree_toPoly_lt _
  rw [AdjoinRoot.mk_eq_mk, ← modByMonic_eq_zero_iff_dvd (generator_monic g), sub_modByMonic,
    sub_eq_zero] at hmk
  rw [← hmk, hself]

theorem coeff_message (hpos : 0 < k) (xs : List (BitVec k)) (n : ℕ) :
    (message xs).coeff n =
      if (xs.reverse[n / k]?.any fun x => x.getMsbD (n % k)) then 1 else 0 := by
  induction xs using List.reverseRecOn generalizing n with
  | nil => simp [message]
  | append_singleton xs x ih =>
    rw [message_concat, coeff_add, coeff_X_pow_mul', coeff_toPoly, List.reverse_append,
      List.reverse_singleton, List.singleton_append]
    by_cases hn : k ≤ n
    · -- a bit of an earlier word
      obtain ⟨m, rfl⟩ := Nat.exists_eq_add_of_le hn
      have hdiv : (k + m) / k = m / k + 1 := by
        rw [Nat.add_div_left m hpos]
      have hmod : (k + m) % k = m % k := Nat.add_mod_left k m
      rw [if_pos hn, Nat.add_sub_cancel_left, ih, hdiv, hmod, List.getElem?_cons_succ,
        BitVec.getMsbD_of_ge x _ hn]
      simp
    · have hlt : n < k := by omega
      rw [if_neg hn, Nat.div_eq_of_lt hlt, Nat.mod_eq_of_lt hlt]
      simp

theorem isCoprime_generator_X (hg : g.msb = true) : IsCoprime (X : (ZMod 2)[X]) (generator g) := by
  have hw : 0 < w := by
    by_contra h0
    obtain rfl : w = 0 := by omega
    simp [BitVec.msb] at hg
  have hbit : g.getMsbD 0 = true := hg
  rw [irreducible_X.coprime_iff_not_dvd, X_dvd_iff, generator, coeff_add, coeff_X_pow,
    coeff_toPoly, if_neg hw.ne, hbit]
  simp

/-- `X` is invertible modulo a generator with a constant term. -/
theorem dvd_of_root_pow_mul (hg : g.msb = true) {n : ℕ} {p : (ZMod 2)[X]}
    (h : AdjoinRoot.root (generator g) ^ n * AdjoinRoot.mk (generator g) p = 0) :
    generator g ∣ p := by
  have hdvd : generator g ∣ X ^ n * p := by
    rw [← AdjoinRoot.mk_eq_zero, map_mul, map_pow, AdjoinRoot.mk_X]
    exact h
  exact (isCoprime_generator_X hg).symm.pow_right.dvd_of_dvd_mul_left hdvd

/-- A multiple of the generator whose terms lie within `w` powers is zero. -/
theorem eq_zero_of_burst (hg : g.msb = true) {p : (ZMod 2)[X]} (hdvd : generator g ∣ p) {j : ℕ}
    (hburst : ∀ n, p.coeff n ≠ 0 → j ≤ n ∧ n < j + w) : p = 0 := by
  have hlow : X ^ j ∣ p := by
    rw [X_pow_dvd_iff]
    intro n hn
    by_contra hne
    have := (hburst n hne).1
    omega
  obtain ⟨e, rfl⟩ := hlow
  have hdvd' : generator g ∣ e :=
    (isCoprime_generator_X hg).symm.pow_right.dvd_of_dvd_mul_left hdvd
  have hdeg : e.degree < w := by
    rw [degree_lt_iff_coeff_zero]
    intro n hn
    by_contra hne
    have hcoeff : (X ^ j * e).coeff (n + j) ≠ 0 := by rwa [coeff_X_pow_mul]
    have hlt := (hburst (n + j) hcoeff).2
    have hle : w ≤ n := by exact_mod_cast hn
    omega
  have hzero : e = 0 := by
    by_contra hne
    have hle := degree_le_of_dvd hdvd' hne
    rw [degree_generator] at hle
    exact absurd hle (not_le.mpr hdeg)
  rw [hzero, mul_zero]

/-- Two messages of one length leave the same remainder exactly when the generator divides
their difference. -/
theorem foldl_feed_eq_iff (hg : g.msb = true) (hk : k ≤ w) (r : BitVec w)
    {xs ys : List (BitVec k)} (hlen : xs.length = ys.length) :
    xs.foldl (feed g) r = ys.foldl (feed g) r ↔ generator g ∣ message xs - message ys := by
  rw [← residue_injective.eq_iff, residue_foldl_feed hk, residue_foldl_feed hk, hlen,
    add_right_inj, ← sub_eq_zero, ← mul_sub, ← map_sub]
  refine ⟨dvd_of_root_pow_mul hg, fun hdvd => ?_⟩
  rw [AdjoinRoot.mk_eq_zero.mpr hdvd, mul_zero]

theorem message_injective (hpos : 0 < k) {xs ys : List (BitVec k)} (hlen : xs.length = ys.length)
    (h : message xs = message ys) : xs = ys := by
  rw [← List.reverse_inj]
  apply List.ext_getElem (by simpa using hlen)
  intro i hi hi'
  apply BitVec.eq_of_getMsbD_eq
  intro t ht
  have hcoeff := congrArg (fun p => p.coeff (i * k + t)) h
  have hdiv : (i * k + t) / k = i := by
    rw [Nat.mul_comm, Nat.mul_add_div hpos, Nat.div_eq_of_lt ht, Nat.add_zero]
  have hmod : (i * k + t) % k = t := by rw [Nat.mul_comm, Nat.mul_add_mod, Nat.mod_eq_of_lt ht]
  simp only [coeff_message hpos, hdiv, hmod, List.getElem?_eq_getElem hi,
    List.getElem?_eq_getElem hi', Option.any_some] at hcoeff
  generalize xs.reverse[i].getMsbD t = a at hcoeff ⊢
  generalize ys.reverse[i].getMsbD t = b at hcoeff ⊢
  cases a <;> cases b <;> simp at hcoeff ⊢

/-- An error whose bits lie within `w` places does not go unnoticed. -/
theorem foldl_feed_ne_of_burst (hg : g.msb = true) (hpos : 0 < k) (hk : k ≤ w) (r : BitVec w)
    {xs ys : List (BitVec k)} (hlen : xs.length = ys.length) (hne : xs ≠ ys) {j : ℕ}
    (hburst : ∀ n, (message xs).coeff n ≠ (message ys).coeff n → j ≤ n ∧ n < j + w) :
    xs.foldl (feed g) r ≠ ys.foldl (feed g) r := by
  rw [Ne, foldl_feed_eq_iff hg hk r hlen]
  intro hdvd
  apply hne
  apply message_injective hpos hlen
  rw [← sub_eq_zero]
  apply eq_zero_of_burst hg hdvd (j := j)
  intro n hn
  apply hburst
  rwa [coeff_sub, sub_ne_zero] at hn

theorem shifts_xor (g : BitVec w) (n : ℕ) (r s : BitVec w) :
    shifts g n (r ^^^ s) = shifts g n r ^^^ shifts g n s := by
  apply residue_injective (g := g)
  simp only [residue_shifts, residue_xor, mul_add]

theorem shifts_of_clear (g : BitVec w) {n : ℕ} {r : BitVec w}
    (h : ∀ i < n, r.getLsbD i = false) : shifts g n r = r >>> n := by
  induction n generalizing r with
  | zero => simp [shifts]
  | succ n ih =>
    have hlow : shift g r = r >>> 1 := by simp [shift, h 0 (Nat.succ_pos n)]
    rw [shifts, hlow, ih, ← BitVec.shiftRight_add, Nat.add_comm]
    intro i hi
    rw [BitVec.getLsbD_ushiftRight]
    exact h (1 + i) (by omega)

theorem feed_eq (g r : BitVec w) (x : BitVec k) :
    feed g r x = (r >>> k) ^^^ shifts g k ((r.setWidth k ^^^ x).setWidth w) := by
  have hsplit : r ^^^ x.setWidth w =
      (r >>> k <<< k) ^^^ (r.setWidth k ^^^ x).setWidth w := by
    apply BitVec.eq_of_getLsbD_eq
    intro i hi
    simp only [BitVec.getLsbD_xor, BitVec.getLsbD_setWidth, BitVec.getLsbD_shiftLeft,
      BitVec.getLsbD_ushiftRight, hi, decide_true, Bool.true_and]
    by_cases hik : i < k
    · simp [hik]
    · have hidx : k + (i - k) = i := by omega
      simp [hik, hidx, BitVec.getLsbD_of_ge x i (by omega)]
  have hclear : ∀ i < k, (r >>> k <<< k).getLsbD i = false := by
    intro i hi
    simp [BitVec.getLsbD_shiftLeft, hi]
  have hback : r >>> k <<< k >>> k = r >>> k := by
    apply BitVec.eq_of_getLsbD_eq
    intro i hi
    simp only [BitVec.getLsbD_ushiftRight, BitVec.getLsbD_shiftLeft]
    by_cases hik : k + i < w
    · simp [hik]
    · simp [hik, BitVec.getLsbD_of_ge r (k + i) (by omega)]
  rw [feed, hsplit, shifts_xor, shifts_of_clear g hclear, hback]

end RdtChallenge.CyclicCode
