import Mathlib.Tactic

namespace RdtChallenge.Loops

variable {α β : Type*}

/-- `v[i] = x`, undefined outside the vector. -/
def assign (v : List α) (i : ℕ) (x : α) : Option (List α) :=
  if i < v.length then some (v.set i x) else none

theorem assign_eq_some {v : List α} {i : ℕ} (x : α) (h : i < v.length) :
    assign v i x = some (v.set i x) := if_pos h

/-- `while (cond) body`. The fuel is the model's: a run that exhausts it is undefined. -/
def whileLoop (cond : β → Option Bool) (body : β → Option β) : ℕ → β → Option β
  | 0, _ => none
  | fuel + 1, b => (cond b).bind fun c =>
    if c then (body b).bind (whileLoop cond body fuel) else some b

/-- An invariant that every iteration keeps, and a measure that every iteration lowers. -/
theorem whileLoop_spec {cond : β → Option Bool} {body : β → Option β}
    (I : β → Prop) (μ : β → ℕ)
    (hstep : ∀ b, I b → cond b = some false ∨
      cond b = some true ∧ ∃ b', body b = some b' ∧ I b' ∧ μ b' < μ b) :
    ∀ fuel b, I b → μ b < fuel →
      ∃ b', whileLoop cond body fuel b = some b' ∧ I b' ∧ cond b' = some false := by
  intro fuel
  induction fuel with
  | zero => intro b _ hμ; omega
  | succ fuel ih =>
    intro b hI hμ
    rcases hstep b hI with hc | ⟨hc, b', hb, hI', hlt⟩
    · exact ⟨b, by simp [whileLoop, hc], hI, hc⟩
    · obtain ⟨b'', hrun, hI'', hc''⟩ := ih b' hI' (by omega)
      exact ⟨b'', by simp [whileLoop, hc, hb, hrun], hI'', hc''⟩

/-- `for (i = a; i < a + n; i++) body`. -/
def forLoop (body : ℕ → β → Option β) : ℕ → ℕ → β → Option β
  | _, 0, b => some b
  | i, n + 1, b => (body i b).bind (forLoop body (i + 1) n)

theorem forLoop_spec {body : ℕ → β → Option β} (I : ℕ → β → Prop) :
    ∀ a n b, I a b →
      (∀ i b, a ≤ i → i < a + n → I i b → ∃ b', body i b = some b' ∧ I (i + 1) b') →
      ∃ b', forLoop body a n b = some b' ∧ I (a + n) b' := by
  intro a n
  induction n generalizing a with
  | zero => intro b hI _; exact ⟨b, rfl, by simpa using hI⟩
  | succ n ih =>
    intro b hI hstep
    obtain ⟨b', hb, hI'⟩ := hstep a b le_rfl (by omega) hI
    obtain ⟨b'', hrun, hI''⟩ := ih (a + 1) b' hI'
      (fun i c hi hi' => hstep i c (by omega) (by omega))
    have hidx : a + 1 + n = a + (n + 1) := by omega
    exact ⟨b'', by simp [forLoop, hb, hrun], hidx ▸ hI''⟩

theorem mapM_eq_some {f : α → Option β} {g : α → β} {l : List α}
    (h : ∀ a ∈ l, f a = some (g a)) : l.mapM f = some (l.map g) := by
  induction l with
  | nil => rfl
  | cons a l ih =>
    rw [List.mapM_cons, h a (by simp), ih fun b hb => h b (List.mem_cons_of_mem _ hb)]
    rfl

theorem exists_of_mem_mapM {f : α → Option β} {l : List α} {v : List β} (h : l.mapM f = some v)
    {b : β} (hb : b ∈ v) : ∃ a ∈ l, f a = some b := by
  induction l generalizing v with
  | nil =>
    obtain rfl := Option.some.inj h
    exact absurd hb List.not_mem_nil
  | cons a l ih =>
    rw [List.mapM_cons] at h
    obtain ⟨c, hc, h⟩ := Option.bind_eq_some_iff.mp h
    obtain ⟨w, hw, h⟩ := Option.bind_eq_some_iff.mp h
    obtain rfl := Option.some.inj h
    rcases List.mem_cons.mp hb with rfl | hb
    · exact ⟨a, List.mem_cons_self, hc⟩
    · obtain ⟨a', ha', hfa⟩ := ih hw hb
      exact ⟨a', List.mem_cons_of_mem _ ha', hfa⟩

end RdtChallenge.Loops
