import Mathlib.Tactic

namespace RdtChallenge.Transition

variable {σ α γ : Type*}

/-- The state after the actions `as`. An action that is not possible in a state leads to
`none`. -/
def run (step : σ → α → Option σ) (s : σ) (as : List α) : Option σ := as.foldlM step s

@[simp] theorem run_nil (step : σ → α → Option σ) (s : σ) : run step s [] = some s := rfl

@[simp] theorem run_cons (step : σ → α → Option σ) (s : σ) (a : α) (as : List α) :
    run step s (a :: as) = (step s a).bind fun t => run step t as := rfl

theorem run_append {step : σ → α → Option σ} {s t u : σ} {as bs : List α}
    (h : run step s as = some t) (h' : run step t bs = some u) :
    run step s (as ++ bs) = some u := by
  simp [run, List.foldlM_append] at *
  simp [h, h']

theorem run_invariant_of_mem {step : σ → α → Option σ} (I : σ → Prop) {s t : σ} {as : List α}
    (hstep : ∀ s, ∀ a ∈ as, ∀ t, I s → step s a = some t → I t) (hs : I s)
    (h : run step s as = some t) : I t := by
  induction as generalizing s with
  | nil => simpa [← Option.some.inj h] using hs
  | cons a as ih =>
    obtain ⟨u, hu, hrest⟩ := Option.bind_eq_some_iff.mp h
    exact ih (fun s b hb => hstep s b (List.mem_cons_of_mem a hb))
      (hstep s a List.mem_cons_self u hs hu) hrest

/-- What every step keeps holds after every run. -/
theorem run_invariant {step : σ → α → Option σ} (I : σ → Prop)
    (hstep : ∀ s a t, I s → step s a = some t → I t) {s t : σ} {as : List α}
    (hs : I s) (h : run step s as = some t) : I t :=
  run_invariant_of_mem I (fun s a _ => hstep s a) hs h

def Reachable (step : σ → α → Option σ) (s t : σ) : Prop := ∃ as, run step s as = some t

theorem Reachable.refl (step : σ → α → Option σ) (s : σ) : Reachable step s s := ⟨[], rfl⟩

theorem Reachable.tail {step : σ → α → Option σ} {s t u : σ} {a : α}
    (h : Reachable step s t) (ha : step t a = some u) : Reachable step s u := by
  obtain ⟨as, has⟩ := h
  exact ⟨as ++ [a], run_append has (by simp [ha])⟩

theorem Reachable.trans {step : σ → α → Option σ} {s t u : σ} (h : Reachable step s t)
    (h' : Reachable step t u) : Reachable step s u := by
  obtain ⟨as, has⟩ := h
  obtain ⟨bs, hbs⟩ := h'
  exact ⟨as ++ bs, run_append has hbs⟩

theorem Reachable.invariant {step : σ → α → Option σ} (I : σ → Prop)
    (hstep : ∀ s a t, I s → step s a = some t → I t) {s t : σ}
    (h : Reachable step s t) (hs : I s) : I t := by
  obtain ⟨as, has⟩ := h
  exact run_invariant I hstep hs has

/-- `t` can be reached from `s` by actions that satisfy `P`. -/
def Leads (P : α → Prop) (step : σ → α → Option σ) (s t : σ) : Prop :=
  ∃ as, (∀ a ∈ as, P a) ∧ run step s as = some t

variable {P : α → Prop} {step : σ → α → Option σ} {s t u : σ}

theorem Leads.refl (s : σ) : Leads P step s s := ⟨[], by simp, rfl⟩

theorem Leads.trans (h : Leads P step s t) (h' : Leads P step t u) : Leads P step s u := by
  obtain ⟨as, has, hs⟩ := h
  obtain ⟨bs, hbs, ht⟩ := h'
  exact ⟨as ++ bs, fun a ha => (List.mem_append.mp ha).elim (has a) (hbs a), run_append hs ht⟩

theorem Leads.tail (h : Leads P step s t) {a : α} (ht : step t a = some u) (ha : P a) :
    Leads P step s u := h.trans ⟨[a], by simpa using ha, by simp [ht]⟩

theorem Leads.reachable (h : Leads P step s t) : Reachable step s t := by
  obtain ⟨as, -, has⟩ := h
  exact ⟨as, has⟩

/-- From every state of `I` a goal can be reached, if each can be led to a goal or to a
state of `I` of smaller measure. -/
theorem exists_leads_of_measure {I G : σ → Prop} (μ : σ → ℕ)
    (hstep : ∀ s, I s → ∃ t, Leads P step s t ∧ (G t ∨ I t ∧ μ t < μ s)) (hs : I s) :
    ∃ t, Leads P step s t ∧ G t := by
  generalize hn : μ s = n
  induction n using Nat.strongRecOn generalizing s with
  | ind n ih =>
    obtain ⟨t, hst, hG | ⟨hI, hlt⟩⟩ := hstep s hs
    · exact ⟨t, hst, hG⟩
    · obtain ⟨u, htu, hG⟩ := ih (μ t) (hn ▸ hlt) hI rfl
      exact ⟨u, hst.trans htu, hG⟩

def states (step : σ → α → Option σ) : σ → List α → List σ
  | s, [] => [s]
  | s, a :: as => s :: ((step s a).elim [] fun t => states step t as)

/-- The steps a run takes: each state with the action taken in it. -/
def steps (step : σ → α → Option σ) : σ → List α → List (σ × α)
  | _, [] => []
  | s, a :: as => (s, a) :: ((step s a).elim [] fun t => steps step t as)

theorem states_invariant {step : σ → α → Option σ} (I : σ → Prop)
    (hstep : ∀ s a t, I s → step s a = some t → I t) {s : σ} (hs : I s) (as : List α) :
    ∀ u ∈ states step s as, I u := by
  induction as generalizing s with
  | nil => simpa [states] using hs
  | cons a as ih =>
    rw [states, List.forall_mem_cons]
    refine ⟨hs, ?_⟩
    cases ht : step s a with
    | none => simp
    | some t => exact ih (hstep s a t hs ht)

theorem steps_append {step : σ → α → Option σ} {s t : σ} {as : List α}
    (h : run step s as = some t) (bs : List α) :
    steps step s (as ++ bs) = steps step s as ++ steps step t bs := by
  induction as generalizing s with
  | nil =>
    obtain rfl := Option.some.inj h
    rfl
  | cons a as ih =>
    obtain ⟨u, hu, hrest⟩ := Option.bind_eq_some_iff.mp h
    simp [steps, hu, ih hrest]

theorem mem_of_mem_steps {step : σ → α → Option σ} {s : σ} {as : List α} {x : σ × α}
    (hx : x ∈ steps step s as) : x.2 ∈ as := by
  induction as generalizing s with
  | nil => cases hx
  | cons a as ih =>
    rcases List.mem_cons.mp hx with rfl | hx
    · exact List.mem_cons_self
    · cases ht : step s a with
      | none => simp [ht] at hx
      | some t => exact List.mem_cons_of_mem a (ih (by simpa [ht] using hx))

theorem steps_invariant {step : σ → α → Option σ} (I : σ → Prop) (good : σ → α → Prop)
    (hstep : ∀ s a t, I s → good s a → step s a = some t → I t) {s : σ} {as : List α} (hs : I s)
    (hgood : ∀ x ∈ steps step s as, good x.1 x.2) : ∀ x ∈ steps step s as, I x.1 := by
  induction as generalizing s with
  | nil => simp [steps]
  | cons a as ih =>
    rw [steps, List.forall_mem_cons] at hgood ⊢
    refine ⟨hs, ?_⟩
    cases ht : step s a with
    | none => simp
    | some t =>
      simp only [ht, Option.elim_some] at hgood ⊢
      exact ih (hstep s a t hs hgood.1 ht) hgood.2

theorem run_invariant_of_steps {step : σ → α → Option σ} (I : σ → Prop) (good : σ → α → Prop)
    (hstep : ∀ s a t, I s → good s a → step s a = some t → I t) {s t : σ} {as : List α}
    (hs : I s) (hgood : ∀ x ∈ steps step s as, good x.1 x.2) (h : run step s as = some t) :
    I t := by
  induction as generalizing s with
  | nil => simpa [← Option.some.inj h] using hs
  | cons a as ih =>
    obtain ⟨u, hu, hrest⟩ := Option.bind_eq_some_iff.mp h
    simp only [steps, hu, Option.elim_some, List.forall_mem_cons] at hgood
    exact ih (hstep s a u hs hgood.1 hu) hgood.2 hrest

/-- If along `I` a step keeps `Q` exactly when it is `good`, then a run that starts in `Q`
stays in `Q` exactly when all its steps are `good`. Only `good` steps need to keep `I`. -/
theorem states_iff_good_steps {step : σ → α → Option σ} (I Q : σ → Prop) (good : σ → α → Prop)
    (hI : ∀ s a t, I s → Q s → good s a → step s a = some t → I t)
    (hQ : ∀ s a t, I s → Q s → step s a = some t → (Q t ↔ good s a)) {s t : σ} {as : List α}
    (hs : I s) (hQs : Q s) (h : run step s as = some t) :
    (∀ u ∈ states step s as, Q u) ↔ ∀ x ∈ steps step s as, good x.1 x.2 := by
  induction as generalizing s with
  | nil => simpa [states, steps] using hQs
  | cons a as ih =>
    obtain ⟨u, hu, hrest⟩ := Option.bind_eq_some_iff.mp h
    have hstep := hQ s a u hs hQs hu
    simp only [states, steps, hu, Option.elim_some, List.forall_mem_cons, hQs, true_and]
    constructor
    · intro hall
      have hQu : Q u := hall u (by cases as <;> simp [states])
      have hgood := hstep.mp hQu
      exact ⟨hgood, (ih (hI s a u hs hQs hgood hu) hQu hrest).mp hall⟩
    · rintro ⟨hgood, hall⟩
      exact (ih (hI s a u hs hQs hgood hu) (hstep.mpr hgood) hrest).mpr hall

theorem states_iff_steps {step : σ → α → Option σ} (I Q : σ → Prop) (good : σ → α → Prop)
    (hI : ∀ s a t, I s → step s a = some t → I t)
    (hQ : ∀ s a t, I s → Q s → step s a = some t → (Q t ↔ good s a)) {s t : σ} {as : List α}
    (hs : I s) (hQs : Q s) (h : run step s as = some t) :
    (∀ u ∈ states step s as, Q u) ↔ ∀ x ∈ steps step s as, good x.1 x.2 :=
  states_iff_good_steps I Q good (fun s a t hs _ _ => hI s a t hs) hQ hs hQs h

/-- Lockstep simulation: if along `I` every action of one machine has an action of the
other that leads to the same state, every run has a run through the same states. -/
theorem states_lockstep {step : σ → α → Option σ} {step' : σ → γ → Option σ} (I : σ → Prop)
    (hI : ∀ s a t, I s → step s a = some t → I t)
    (hstep : ∀ s a t, I s → step s a = some t → ∃ b, step' s b = some t)
    {s t : σ} {as : List α} (hs : I s) (h : run step s as = some t) :
    ∃ bs, run step' s bs = some t ∧ states step' s bs = states step s as := by
  induction as generalizing s with
  | nil => exact ⟨[], h, rfl⟩
  | cons a as ih =>
    obtain ⟨u, hu, hrest⟩ := Option.bind_eq_some_iff.mp h
    obtain ⟨b, hb⟩ := hstep s a u hs hu
    obtain ⟨bs, hbs, hstates⟩ := ih (hI s a u hs hu) hrest
    exact ⟨b :: bs, by simp [hb, hbs], by simp [states, hb, hu, hstates]⟩

end RdtChallenge.Transition
