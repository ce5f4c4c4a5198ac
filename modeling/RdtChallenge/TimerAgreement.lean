import RdtChallenge.Timer

namespace RdtChallenge.Timer
open Function (update)

/-- One entry for each timer in `active` but the one whose handler is in progress. That
one is still there. -/
structure Agrees (s : State) : Prop where
  nodup : s.queue.Nodup
  mem_iff : ∀ id, id ∈ s.queue ↔ (s.active id).isSome ∧ s.phase ≠ .handling id
  kept : ∀ id, s.phase = .handling id → (s.active id).isSome
  defined : s.phase ≠ .dangling ∧ s.phase ≠ .undefined

structure Owned (s : State) : Prop where
  id_eq : ∀ id i, s.active id = some i → i.id = id
  handling : ∀ id i, s.active id = some i → i.running = true → s.phase = .handling id

/-- A create takes a free id. A destroy of a timer that is not `running` comes neither
while its handler is in progress nor while another timer waits for the same moment. -/
def Careful (s : State) : Action → Prop
  | .create .. => s.active s.nextId = none
  | .destroy id => ∀ i, s.active id = some i → i.running = false →
    s.phase ≠ .handling id ∧ ∀ j ∈ s.queue, j ≠ id → deadlineIn s.active j ≠ some i.next
  | .worker _ => True

def State.calls (s : State) (id : TimerId) : ℕ := s.called.countP fun call => call.id = id

variable {s t : State} {id : TimerId}

theorem initial_agrees : Agrees initial where
  nodup := List.nodup_nil
  mem_iff id := by simp [initial]
  kept id h := by cases h
  defined := by simp [initial]

theorem initial_owned : Owned initial where
  id_eq id i h := by cases h
  handling id i h := by cases h

theorem Agrees.deadline_isSome (h : Agrees s) :
    ∀ j ∈ s.queue, (deadlineIn s.active j).isSome := by
  intro j hj
  rw [deadlineIn, Option.isSome_map]
  exact ((h.mem_iff j).mp hj).1

theorem createImpl_spec (h : Agrees s) (item : Instance) :
    ∃ q, createImpl item s = some ({ s with
        nextId := s.nextId + 1
        active := update s.active s.nextId
          (some ((s.active s.nextId).getD { item with id := s.nextId }))
        queue := q }, s.nextId) ∧ q.Perm (s.nextId :: s.queue) := by
  have hdeadline : ∀ j ∈ s.queue, (deadlineIn (update s.active s.nextId
      (some ((s.active s.nextId).getD { item with id := s.nextId }))) j).isSome := by
    intro j hj
    by_cases heq : j = s.nextId
    · simp [deadlineIn, heq]
    · have := h.deadline_isSome j hj
      simpa [deadlineIn, Function.update_of_ne heq] using this
  obtain ⟨q, hq, hperm⟩ := insertEntry_spec hdeadline s.nextId
    ((s.active s.nextId).getD { item with id := s.nextId }).next
  exact ⟨q, by simp [createImpl, hq], hperm⟩

theorem Agrees.created (h : Agrees s) (hfree : s.active s.nextId = none) (i : Instance)
    {n : TimerId} {q : List TimerId} (hq : q.Perm (s.nextId :: s.queue)) :
    Agrees { s with nextId := n, active := update s.active s.nextId (some i), queue := q } where
  nodup := by
    rw [hq.nodup_iff, List.nodup_cons]
    refine ⟨fun hmem => ?_, h.nodup⟩
    have := ((h.mem_iff s.nextId).mp hmem).1
    simp [hfree] at this
  mem_iff id := by
    dsimp only
    rw [hq.mem_iff, List.mem_cons, h.mem_iff]
    by_cases heq : id = s.nextId
    · have hphase : s.phase ≠ .handling s.nextId := fun hp => by
        have := h.kept _ hp
        simp [hfree] at this
      simp [heq, hphase]
    · simp [heq]
  kept id hp := by
    have := h.kept id hp
    by_cases heq : id = s.nextId
    · simp [heq]
    · simpa [Function.update_of_ne heq] using this
  defined := h.defined

theorem not_agrees_of_taken (h : Agrees s) (hactive : t.active = s.active)
    (hphase : t.phase = s.phase) (hq : t.queue.Perm (s.nextId :: s.queue)) : ¬ Agrees t := by
  intro ht
  have hmem : s.nextId ∈ t.queue := hq.mem_iff.mpr List.mem_cons_self
  have hwaits := (ht.mem_iff _).mp hmem
  rw [hactive, hphase, ← h.mem_iff] at hwaits
  have hnodup := ht.nodup
  rw [hq.nodup_iff, List.nodup_cons] at hnodup
  exact hnodup.1 hwaits

theorem Owned.update (h : Owned s) {i : Instance} (hid : i.id = id) {n : TimerId}
    {q : List TimerId} {calls : List Call} {phase : Phase}
    (hrunning : i.running = true → phase = .handling id)
    (hphase : ∀ j, j ≠ id → s.phase = .handling j → phase = .handling j) :
    Owned ⟨n, update s.active id (some i), q, phase, calls⟩ where
  id_eq j i' hj := by
    dsimp only at hj
    by_cases heq : j = id
    · subst heq
      rw [Function.update_self, Option.some.injEq] at hj
      rw [← hj, hid]
    · rw [Function.update_of_ne heq] at hj
      exact h.id_eq j i' hj
  handling j i' hj hrun := by
    dsimp only at hj ⊢
    by_cases heq : j = id
    · subst heq
      rw [Function.update_self, Option.some.injEq] at hj
      exact hrunning (hj ▸ hrun)
    · rw [Function.update_of_ne heq] at hj
      exact hphase j heq (h.handling j i' hj hrun)

theorem Owned.erase (h : Owned s) {n : TimerId} {q : List TimerId} {calls : List Call}
    {phase : Phase} (hphase : ∀ j, j ≠ id → s.phase = .handling j → phase = .handling j) :
    Owned ⟨n, Function.update s.active id none, q, phase, calls⟩ where
  id_eq j i hj := by
    dsimp only at hj
    by_cases heq : j = id
    · simp [heq] at hj
    · rw [Function.update_of_ne heq] at hj
      exact h.id_eq j i hj
  handling j i hj hrun := by
    dsimp only at hj ⊢
    by_cases heq : j = id
    · simp [heq] at hj
    · rw [Function.update_of_ne heq] at hj
      exact hphase j heq (h.handling j i hj hrun)

variable {i : Instance}

theorem Agrees.touch (h : Agrees s) (hi : s.active id = some i) (i' : Instance) :
    Agrees { s with active := update s.active id (some i') } := by
  have hsome : ∀ j, (update s.active id (some i') j).isSome = (s.active j).isSome := by
    intro j
    by_cases heq : j = id
    · simp [heq, hi]
    · rw [Function.update_of_ne heq]
  exact ⟨h.nodup, fun j => by rw [h.mem_iff, hsome], fun j hj => by rw [hsome]; exact h.kept j hj,
    h.defined⟩

theorem destroy_waiting (h : Agrees s) (hi : s.active id = some i) (hnot : i.running = false) :
    destroy id s = some ({ s with
      active := update s.active id none
      queue := s.queue.filter fun j => deadlineIn s.active j ≠ some i.next
      phase := if s.phase = .handling id then .dangling else s.phase }, true) := by
  simp [destroy, hi, hnot, eraseKey_spec h.deadline_isSome]

theorem Agrees.removed (h : Agrees s) (hi : s.active id = some i)
    (hphase : s.phase ≠ .handling id)
    (hothers : ∀ j ∈ s.queue, j ≠ id → deadlineIn s.active j ≠ some i.next) :
    Agrees { s with
      active := update s.active id none
      queue := s.queue.filter fun j => deadlineIn s.active j ≠ some i.next } where
  nodup := h.nodup.filter _
  mem_iff j := by
    dsimp only
    rw [List.mem_filter, h.mem_iff]
    by_cases heq : j = id
    · simp [heq, deadlineIn, hi]
    · rw [Function.update_of_ne heq]
      refine ⟨And.left, fun hj => ⟨hj, ?_⟩⟩
      simpa using hothers j ((h.mem_iff j).mpr hj) heq
  kept j hj := by
    have hne : j ≠ id := fun heq => hphase (heq ▸ hj)
    dsimp only
    rw [Function.update_of_ne hne]
    exact h.kept j hj
  defined := h.defined

/-- The entry of another timer with the same deadline goes too, or the worker is left
with an instance that is gone. -/
theorem destroy_careful_of_agrees (h : Agrees s)
    (ht : Agrees { s with
      active := update s.active id none
      queue := s.queue.filter fun j => deadlineIn s.active j ≠ some i.next
      phase := if s.phase = .handling id then .dangling else s.phase }) :
    s.phase ≠ .handling id ∧ ∀ j ∈ s.queue, j ≠ id → deadlineIn s.active j ≠ some i.next := by
  have hphase : s.phase ≠ .handling id := by
    intro hp
    have := ht.defined.1
    simp [hp] at this
  refine ⟨hphase, fun j hj hne hsame => ?_⟩
  have hwaits := (h.mem_iff j).mp hj
  have hgone := (ht.mem_iff j).mpr
  simp only [Function.update_of_ne hne, if_neg hphase] at hgone
  have hmem := (List.mem_filter.mp (hgone hwaits)).2
  simp [hsame] at hmem

theorem Agrees.released (h : Agrees s) (hp : s.phase = .handling id) :
    Agrees { s with active := update s.active id none, phase := .waiting } where
  nodup := h.nodup
  mem_iff j := by
    dsimp only
    rw [h.mem_iff, hp]
    by_cases heq : j = id
    · simp [heq]
    · simp [heq, Ne.symm heq]
  kept j hj := by cases hj
  defined := by simp

theorem Agrees.requeued (h : Agrees s) (hp : s.phase = .handling id) (i : Instance)
    {q : List TimerId} (hq : q.Perm (id :: s.queue)) :
    Agrees { s with active := update s.active id (some i), queue := q, phase := .waiting } where
  nodup := by
    rw [hq.nodup_iff, List.nodup_cons]
    exact ⟨fun hmem => ((h.mem_iff id).mp hmem).2 hp, h.nodup⟩
  mem_iff j := by
    dsimp only
    rw [hq.mem_iff, List.mem_cons, h.mem_iff, hp]
    by_cases heq : j = id
    · simp [heq]
    · simp [heq, Ne.symm heq]
  kept j hj := by cases hj
  defined := by simp

theorem Agrees.started (h : Agrees s) (hp : s.phase = .waiting) {rest : List TimerId}
    (hq : s.queue = id :: rest) (i : Instance) (calls : List Call) :
    Agrees ⟨s.nextId, update s.active id (some i), rest, .handling id, calls⟩ where
  nodup := by
    have := h.nodup
    rw [hq] at this
    exact this.of_cons
  mem_iff j := by
    have hnodup := h.nodup
    have hmem := h.mem_iff j
    rw [hq, List.nodup_cons] at hnodup
    rw [hq, List.mem_cons, hp] at hmem
    dsimp only
    by_cases heq : j = id
    · simp [heq, hnodup.1]
    · simpa [heq, Ne.symm heq] using hmem
  kept j hj := by
    obtain rfl : id = j := Phase.handling.inj hj
    simp
  defined := by simp

theorem period_of_update {active : TimerId → Option Instance} (hi : active id = some i)
    {i' : Instance} (hperiod : i'.period = i.period) (j : TimerId) (k : Instance)
    (hj : update active id (some i') j = some k) :
    ∃ i, active j = some i ∧ k.period = i.period := by
  by_cases heq : j = id
  · subst heq
    rw [Function.update_self, Option.some.injEq] at hj
    exact ⟨i, hi, hj ▸ hperiod⟩
  · rw [Function.update_of_ne heq] at hj
    exact ⟨k, hj, rfl⟩

theorem period_of_erase {active : TimerId → Option Instance} (j : TimerId) (k : Instance)
    (hj : update active id none j = some k) : ∃ i, active j = some i ∧ k.period = i.period := by
  by_cases heq : j = id
  · simp [heq] at hj
  · rw [Function.update_of_ne heq] at hj
    exact ⟨k, hj, rfl⟩

structure Finished (s u : State) : Prop where
  agrees : Agrees u
  owned : Owned u
  phase : u.phase = .waiting
  called : u.called = s.called
  queue : ∀ j ∈ s.queue, j ∈ u.queue
  period : ∀ j i', u.active j = some i' → ∃ i, s.active j = some i ∧ i'.period = i.period
  one_shot : ∀ j i, s.phase = .handling j → s.active j = some i → i.period ≤ 0 → u.active j = none

theorem finished_released (h : Agrees s) (hown : Owned s) (hp : s.phase = .handling id) :
    Finished s { s with active := update s.active id none, phase := .waiting } where
  agrees := h.released hp
  owned := hown.erase fun j hne hj => absurd (Phase.handling.inj (hp.symm.trans hj)).symm hne
  phase := rfl
  called := rfl
  queue j hj := hj
  period := period_of_erase
  one_shot j i hj _ _ := by
    obtain rfl : id = j := Phase.handling.inj (hp.symm.trans hj)
    simp

theorem finished_requeued (h : Agrees s) (hown : Owned s) (hp : s.phase = .handling id)
    (hi : s.active id = some i) (hperiod : 0 < i.period) {q : List TimerId}
    (hq : q.Perm (id :: s.queue)) (next : ℤ) :
    Finished s { s with
      active := update s.active id (some { i with running := false, next := next })
      queue := q
      phase := .waiting } where
  agrees := h.requeued hp _ hq
  owned := hown.update (i := { i with running := false, next := next }) (hown.id_eq id i hi)
    (fun hrun => absurd hrun Bool.false_ne_true) fun j hne hj =>
      absurd (Phase.handling.inj (hp.symm.trans hj)).symm hne
  phase := rfl
  called := rfl
  queue j hj := hq.mem_iff.mpr (List.mem_cons_of_mem id hj)
  period := period_of_update hi rfl
  one_shot j i' hj hi' hle := by
    obtain rfl : id = j := Phase.handling.inj (hp.symm.trans hj)
    obtain rfl : i = i' := Option.some.inj (hi.symm.trans hi')
    omega

theorem finish_spec (h : Agrees s) (hown : Owned s) : ∃ u, finish s = some u ∧ Finished s u := by
  cases hp : s.phase with
  | waiting =>
    refine ⟨s, by simp [finish, hp], h, hown, hp, rfl, fun j hj => hj, fun j i' hj => ⟨i', hj, rfl⟩,
      fun j i hj => ?_⟩
    rw [hp] at hj
    cases hj
  | handling id =>
    obtain ⟨i, hi⟩ := Option.isSome_iff_exists.mp (h.kept id hp)
    have hid := hown.id_eq id i hi
    by_cases hrun : i.running = true
    swap
    · -- destroyed during the handler
      exact ⟨_, by simp [finish, hp, hi, hrun, hid], finished_released h hown hp⟩
    by_cases hperiod : 0 < i.period
    · let next := timestamp (i.next + nsPerMs * i.period)
      have hdeadline : ∀ j ∈ s.queue, (deadlineIn (update s.active id
          (some { i with running := false, next := next })) j).isSome := fun j hj => by
        have htouched := h.touch hi { i with running := false, next := next }
        simpa [deadlineIn] using ((htouched.mem_iff j).mp hj).1
      obtain ⟨q, hq, hperm⟩ := insertEntry_spec hdeadline id next
      exact ⟨_, by simp [finish, hp, hi, hrun, hperiod, next, hq],
        finished_requeued h hown hp hi hperiod hperm next⟩
    · exact ⟨_, by simp [finish, hp, hi, hrun, hperiod, hid], finished_released h hown hp⟩
  | dangling => exact absurd hp h.defined.1
  | undefined => exact absurd hp h.defined.2

structure Started (u t : State) (id : TimerId) (i : Instance) : Prop where
  first : ∃ rest, u.queue = id :: rest ∧ t.queue = rest
  instance_eq : u.active id = some i
  active : t.active = update u.active id (some { i with running := true })
  phase : t.phase = .handling id
  called : ∃ call, call.id = id ∧ t.called = u.called ++ [call]

theorem loopHead_spec (h : Agrees s) (hown : Owned s) (hp : s.phase = .waiting) (now : ℤ) :
    ∃ t, loopHead now s = some t ∧ Agrees t ∧ Owned t ∧ (t = s ∨ ∃ id i, Started s t id i) := by
  cases hq : s.queue with
  | nil => exact ⟨s, by simp [loopHead, hq], h, hown, Or.inl rfl⟩
  | cons id rest =>
    have hmem : id ∈ s.queue := hq ▸ List.mem_cons_self
    obtain ⟨i, hi⟩ := Option.isSome_iff_exists.mp ((h.mem_iff id).mp hmem).1
    by_cases hdue : now ≥ i.next
    · have hrun : loopHead now s = some ⟨s.nextId, update s.active id
          (some { i with running := true }), rest, .handling id,
          s.called ++ [⟨i.id, i.handler, i.tag⟩]⟩ := by
        simp [loopHead, hq, hi, hdue]
      have hid := hown.id_eq id i hi
      refine ⟨_, hrun, h.started hp hq _ _,
        hown.update (i := { i with running := true }) hid (fun _ => rfl) fun j _ hj => ?_,
        Or.inr ⟨id, i, ⟨rest, hq, rfl⟩, hi, rfl, rfl, ⟨_, hid, rfl⟩⟩⟩
      rw [hp] at hj
      cases hj
    · exact ⟨s, by simp [loopHead, hq, hi, hdue], h, hown, Or.inl rfl⟩

theorem threadStart_spec (h : Agrees s) (hown : Owned s) (now : ℤ) :
    ∃ u t, threadStart now s = some t ∧ Finished s u ∧ Agrees t ∧ Owned t ∧
      (t = u ∨ ∃ id i, Started u t id i) := by
  obtain ⟨u, hu, hfin⟩ := finish_spec h hown
  obtain ⟨t, ht, hagrees, howned, hstart⟩ := loopHead_spec hfin.agrees hfin.owned hfin.phase now
  exact ⟨u, t, by simp [threadStart, hu, ht], hfin, hagrees, howned, hstart⟩

theorem step_eq (h : Agrees s) {a : Action} (hregion : region s a = some t) :
    step s a = some t := by
  rw [step, if_neg h.defined.2, hregion, Option.getD_some]

theorem create_step (h : Agrees s) {now msFromNow msPeriod : ℤ} {handler : ℕ} {tag : BitVec 32}
    (hstep : step s (.create now msFromNow msPeriod handler tag) = some t) :
    ∃ q, q.Perm (s.nextId :: s.queue) ∧ t = { s with
      nextId := s.nextId + 1
      active := update s.active s.nextId (some ((s.active s.nextId).getD
        (newInstance s.nextId now msFromNow msPeriod handler tag)))
      queue := q } := by
  obtain ⟨q, hq, hperm⟩ := createImpl_spec h (newInstance 0 now msFromNow msPeriod handler tag)
  have hrun := step_eq (a := .create now msFromNow msPeriod handler tag) h
    (by rw [region, create, hq, Option.map_some])
  exact ⟨q, hperm, Option.some.inj (hstep.symm.trans hrun)⟩

theorem destroy_step (h : Agrees s) (hstep : step s (.destroy id) = some t) :
    s.active id = none ∧ t = s ∨
      (∃ i, s.active id = some i ∧ i.running = true ∧
        t = { s with active := update s.active id (some { i with running := false }) }) ∨
      ∃ i, s.active id = some i ∧ i.running = false ∧ t = { s with
        active := update s.active id none
        queue := s.queue.filter fun j => deadlineIn s.active j ≠ some i.next
        phase := if s.phase = .handling id then .dangling else s.phase } := by
  cases hi : s.active id with
  | none =>
    have hrun := step_eq (a := .destroy id) (t := s) h (by simp [region, destroy, hi])
    exact Or.inl ⟨rfl, Option.some.inj (hstep.symm.trans hrun)⟩
  | some i =>
    right
    by_cases hrunning : i.running = true
    · have hrun := step_eq (a := .destroy id)
        (t := { s with active := update s.active id (some { i with running := false }) }) h
        (by simp [region, destroy, hi, hrunning])
      exact Or.inl ⟨i, rfl, hrunning, Option.some.inj (hstep.symm.trans hrun)⟩
    · have hnot : i.running = false := by simpa using hrunning
      have hrun := step_eq (a := .destroy id) h
        (by rw [region, destroy_waiting h hi hnot, Option.map_some])
      exact Or.inr ⟨i, rfl, hnot, Option.some.inj (hstep.symm.trans hrun)⟩

theorem worker_step (h : Agrees s) (hown : Owned s) {now : ℤ}
    (hstep : step s (.worker now) = some t) : ∃ u, Finished s u ∧ Agrees t ∧ Owned t ∧
      (t = u ∨ ∃ id i, Started u t id i) := by
  obtain ⟨u, t', hthread, hfin, hagrees, howned, hstart⟩ := threadStart_spec h hown now
  obtain rfl : t = t' :=
    Option.some.inj (hstep.symm.trans (step_eq (a := .worker now) h hthread))
  exact ⟨u, hfin, hagrees, howned, hstart⟩

/-- The exact condition for one step. -/
theorem agrees_iff_careful {a : Action} (hown : Owned s) (h : Agrees s)
    (hstep : step s a = some t) : Agrees t ↔ Careful s a := by
  cases a with
  | create now msFromNow msPeriod handler tag =>
    obtain ⟨q, hperm, rfl⟩ := create_step h hstep
    cases hi : s.active s.nextId with
    | none => exact ⟨fun _ => hi, fun _ => h.created hi _ hperm⟩
    | some i =>
      have hsame : update s.active s.nextId (some i) = s.active := by
        rw [← hi, Function.update_eq_self]
      have hnot := not_agrees_of_taken (t := { s with
        nextId := s.nextId + 1
        active := update s.active s.nextId (some i)
        queue := q }) h hsame rfl hperm
      refine ⟨fun ht => absurd ht hnot, fun hfree => ?_⟩
      rw [Careful, hi] at hfree
      cases hfree
  | destroy id =>
    rcases destroy_step h hstep with ⟨hnone, rfl⟩ | ⟨i, hi, hrunning, rfl⟩ | ⟨i, hi, hnot, rfl⟩
    · refine ⟨fun _ i hi => ?_, fun _ => h⟩
      rw [hnone] at hi
      cases hi
    · refine ⟨fun _ i' hi' hnot => ?_, fun _ => h.touch hi _⟩
      obtain rfl : i = i' := Option.some.inj (hi.symm.trans hi')
      simp [hrunning] at hnot
    · refine ⟨fun ht i' hi' _ => ?_, fun hcareful => ?_⟩
      · obtain rfl : i = i' := Option.some.inj (hi.symm.trans hi')
        exact destroy_careful_of_agrees h ht
      · obtain ⟨hphase, hothers⟩ := hcareful i hi hnot
        rw [if_neg hphase]
        exact h.removed hi hphase hothers
  | worker now =>
    obtain ⟨u, -, ht, -⟩ := worker_step h hown hstep
    exact ⟨fun _ => trivial, fun _ => ht⟩

theorem Owned.step {a : Action} (hown : Owned s) (h : Agrees s) (hcareful : Careful s a)
    (hstep : step s a = some t) : Owned t := by
  cases a with
  | create now msFromNow msPeriod handler tag =>
    obtain ⟨q, hperm, rfl⟩ := create_step h hstep
    have hfree : s.active s.nextId = none := hcareful
    rw [hfree, Option.getD_none]
    exact hown.update (i := newInstance s.nextId now msFromNow msPeriod handler tag) rfl
      (fun hrun => absurd hrun Bool.false_ne_true) fun j _ hj => hj
  | destroy id =>
    rcases destroy_step h hstep with ⟨hnone, rfl⟩ | ⟨i, hi, hrunning, rfl⟩ | ⟨i, hi, hnot, rfl⟩
    · exact hown
    · exact hown.update (i := { i with running := false }) (hown.id_eq id i hi)
        (fun hrun => absurd hrun Bool.false_ne_true) fun j _ hj => hj
    · rw [if_neg (hcareful i hi hnot).1]
      exact hown.erase fun j _ hj => hj
  | worker now =>
    obtain ⟨u, -, -, howned, -⟩ := worker_step h hown hstep
    exact howned

/-- A destroy leaves the other timers alone. -/
theorem destroy_local (h : Agrees s) (hcareful : Careful s (.destroy id))
    (hstep : step s (.destroy id) = some t) {j : TimerId} (hne : j ≠ id) :
    t.active j = s.active j ∧ (j ∈ t.queue ↔ j ∈ s.queue) := by
  rcases destroy_step h hstep with ⟨hnone, rfl⟩ | ⟨i, hi, hrunning, rfl⟩ | ⟨i, hi, hnot, rfl⟩
  · exact ⟨rfl, Iff.rfl⟩
  · exact ⟨Function.update_of_ne hne _ _, Iff.rfl⟩
  · refine ⟨Function.update_of_ne hne _ _, ?_⟩
    rw [List.mem_filter]
    refine ⟨And.left, fun hj => ⟨hj, ?_⟩⟩
    simpa using (hcareful i hi hnot).2 j hj hne

theorem destroy_calls (h : Agrees s) (hstep : step s (.destroy id) = some t) :
    t.called = s.called := by
  rcases destroy_step h hstep with ⟨-, rfl⟩ | ⟨i, -, -, rfl⟩ | ⟨i, -, -, rfl⟩ <;> rfl

theorem calls_of_started {u : State} {j : TimerId} (h : Started u t j i) :
    t.calls id = u.calls id + if j = id then 1 else 0 := by
  obtain ⟨call, rfl, hcalled⟩ := h.called
  rw [State.calls, hcalled, List.countP_append, List.countP_singleton]
  by_cases heq : call.id = id <;> simp [State.calls, heq]

def WaitsOrCalled (id : TimerId) (n : ℕ) (s : State) : Prop :=
  n < s.calls id ∨ n ≤ s.calls id ∧ id ∈ s.queue

theorem WaitsOrCalled.step {n : ℕ} {a : Action} (hw : WaitsOrCalled id n s) (h : Agrees s)
    (hown : Owned s) (hcareful : Careful s a) (hother : a ≠ .destroy id)
    (hstep : step s a = some t) : WaitsOrCalled id n t := by
  cases a with
  | create now msFromNow msPeriod handler tag =>
    obtain ⟨q, hperm, rfl⟩ := create_step h hstep
    refine hw.imp (fun hlt => hlt) fun hwaits => ⟨hwaits.1, ?_⟩
    exact hperm.mem_iff.mpr (List.mem_cons_of_mem _ hwaits.2)
  | destroy j =>
    have hne : id ≠ j := fun heq => hother (heq ▸ rfl)
    have hcalls : t.calls id = s.calls id := by rw [State.calls, destroy_calls h hstep, State.calls]
    rw [WaitsOrCalled, hcalls, (destroy_local h hcareful hstep hne).2]
    exact hw
  | worker now =>
    obtain ⟨u, hfin, -, -, hstart⟩ := worker_step h hown hstep
    have hcalls : u.calls id = s.calls id := by rw [State.calls, hfin.called, State.calls]
    have hu : WaitsOrCalled id n u := by
      rw [WaitsOrCalled, hcalls]
      exact hw.imp (fun hlt => hlt) fun hwaits => ⟨hwaits.1, hfin.queue id hwaits.2⟩
    rcases hstart with rfl | ⟨j, i, hstarted⟩
    · exact hu
    · -- the first of the queue is called, and the others wait on
      rw [WaitsOrCalled, calls_of_started hstarted]
      obtain ⟨rest, hqueue, hrest⟩ := hstarted.first
      rcases hu with hlt | ⟨hle, hmem⟩
      · exact Or.inl (Nat.lt_add_right _ hlt)
      · rw [hqueue, List.mem_cons] at hmem
        by_cases heq : j = id
        · rw [if_pos heq]
          exact Or.inl (by omega)
        · rw [hrest]
          exact Or.inr ⟨Nat.le_add_right_of_le hle, hmem.resolve_left (Ne.symm heq)⟩

/-- A one-shot timer that has been called at most once since it was called `n` times. -/
structure OneShot (id : TimerId) (n : ℕ) (s : State) : Prop where
  calls_le : s.calls id ≤ n + 1
  gone : s.calls id ≤ n ∨ s.phase = .handling id ∨ s.active id = none
  period : ∀ i, s.active id = some i → i.period ≤ 0

theorem OneShot.keep {n : ℕ} (ho : OneShot id n s) (hcalled : t.called = s.called)
    (hphase : t.phase = s.phase)
    (hperiod : ∀ i', t.active id = some i' → ∃ i, s.active id = some i ∧ i'.period = i.period) :
    OneShot id n t where
  calls_le := by
    rw [State.calls, hcalled]
    exact ho.calls_le
  gone := by
    rw [State.calls, hcalled, hphase]
    refine ho.gone.imp_right (Or.imp_right fun hnone => ?_)
    by_contra hsome
    obtain ⟨i', hi'⟩ := Option.ne_none_iff_exists'.mp hsome
    obtain ⟨i, hi, -⟩ := hperiod i' hi'
    rw [hnone] at hi
    cases hi
  period i' hi' := by
    obtain ⟨i, hi, heq⟩ := hperiod i' hi'
    exact heq ▸ ho.period i hi

theorem OneShot.step {n : ℕ} {a : Action} (ho : OneShot id n s) (h : Agrees s)
    (hown : Owned s) (hcareful : Careful s a)
    (hnew : ∀ now msFromNow msPeriod handler tag,
      a = .create now msFromNow msPeriod handler tag → s.nextId ≠ id)
    (hstep : step s a = some t) : OneShot id n t := by
  cases a with
  | create now msFromNow msPeriod handler tag =>
    obtain ⟨q, hperm, rfl⟩ := create_step h hstep
    have hne : id ≠ s.nextId := (hnew now msFromNow msPeriod handler tag rfl).symm
    refine ho.keep rfl rfl fun i' hi' => ⟨i', ?_, rfl⟩
    dsimp only at hi'
    rwa [Function.update_of_ne hne] at hi'
  | destroy j =>
    rcases destroy_step h hstep with ⟨hnone, rfl⟩ | ⟨i, hi, hrunning, rfl⟩ | ⟨i, hi, hnot, rfl⟩
    · exact ho
    · refine ho.keep rfl rfl fun i' hi' => period_of_update hi ?_ id i' hi'
      rfl
    · exact ho.keep rfl (if_neg (hcareful i hi hnot).1) (period_of_erase id)
  | worker now =>
    obtain ⟨u, hfin, -, -, hstart⟩ := worker_step h hown hstep
    have hcalls : u.calls id = s.calls id := by rw [State.calls, hfin.called, State.calls]
    have hperiod : ∀ i, u.active id = some i → i.period ≤ 0 := by
      intro i' hi'
      obtain ⟨i, hi, heq⟩ := hfin.period id i' hi'
      exact heq ▸ ho.period i hi
    have hgone : u.calls id ≤ n ∨ u.active id = none := by
      rw [hcalls]
      rcases ho.gone with hle | hp | hnone
      · exact Or.inl hle
      · obtain ⟨i, hi⟩ := Option.isSome_iff_exists.mp (h.kept id hp)
        exact Or.inr (hfin.one_shot id i hp hi (ho.period i hi))
      · right
        by_contra hsome
        obtain ⟨i', hi'⟩ := Option.ne_none_iff_exists'.mp hsome
        obtain ⟨i, hi, -⟩ := hfin.period id i' hi'
        rw [hnone] at hi
        cases hi
    rcases hstart with rfl | ⟨j, i, hstarted⟩
    · exact ⟨hcalls ▸ ho.calls_le, hgone.imp_right Or.inr, hperiod⟩
    · have hcount : t.calls id = u.calls id + if j = id then 1 else 0 := calls_of_started hstarted
      by_cases heq : j = id
      · -- the timer is still there, so this is the first call
        subst heq
        have hle : u.calls j ≤ n := by
          refine hgone.resolve_right fun hnone => ?_
          rw [hstarted.instance_eq] at hnone
          cases hnone
        refine ⟨by rw [hcount, if_pos rfl]; omega, Or.inr (Or.inl hstarted.phase), fun i' hi' => ?_⟩
        rw [hstarted.active, Function.update_self, Option.some.injEq] at hi'
        rw [← hi']
        exact hperiod i hstarted.instance_eq
      · rw [if_neg heq, Nat.add_zero] at hcount
        refine ⟨by rw [hcount, hcalls]; exact ho.calls_le, ?_, fun i' hi' => ?_⟩
        · rw [hcount, hstarted.active, Function.update_of_ne (Ne.symm heq)]
          exact hgone.imp_right Or.inr
        · rw [hstarted.active, Function.update_of_ne (Ne.symm heq)] at hi'
          exact hperiod i' hi'

/-- What a run of the timer should be like. -/
structure RunSound (as : List Action) : Prop where
  agrees : ∀ s ∈ Transition.states step initial as, Agrees s
  /-- `destroy(id)` affects no timer other than `id`. -/
  destroy_local : ∀ x ∈ Transition.steps step initial as, ∀ id t, x.2 = .destroy id →
    step x.1 x.2 = some t → ∀ j ≠ id, t.active j = x.1.active j ∧ (j ∈ t.queue ↔ j ∈ x.1.queue)
  /-- A timer that is never destroyed is called, or still waits. -/
  not_dropped : ∀ before now msFromNow msPeriod handler tag after u v,
    before ++ .create now msFromNow msPeriod handler tag :: after <+: as →
    Transition.run step initial before = some u →
    Transition.run step u (.create now msFromNow msPeriod handler tag :: after) = some v →
    .destroy u.nextId ∉ after →
      u.calls u.nextId < v.calls u.nextId ∨ (v.active u.nextId).isSome ∧ u.nextId ∈ v.queue
  /-- A one-shot timer is called at most once, until its id is given to another one. -/
  at_most_once : ∀ before now msFromNow msPeriod handler tag after u t v,
    before ++ .create now msFromNow msPeriod handler tag :: after <+: as →
    Transition.run step initial before = some u →
    step u (.create now msFromNow msPeriod handler tag) = some t →
    Transition.run step t after = some v → msPeriod ≤ 0 →
    (∀ x ∈ Transition.steps step t after, ∀ now msFromNow msPeriod handler tag,
      x.2 = .create now msFromNow msPeriod handler tag → x.1.nextId ≠ u.nextId) →
      v.calls u.nextId ≤ u.calls u.nextId + 1

structure Sound (s : State) : Prop where
  agrees : Agrees s
  owned : Owned s

theorem Sound.step {a : Action} (h : Sound s) (hcareful : Careful s a)
    (hstep : step s a = some t) : Sound t :=
  ⟨(agrees_iff_careful h.owned h.agrees hstep).mpr hcareful, h.owned.step h.agrees hcareful hstep⟩

theorem initial_sound : Sound initial := ⟨initial_agrees, initial_owned⟩

/-- The two structures agree along a run if and only if all its steps are careful. -/
theorem agrees_along_iff {as : List Action} {v : State}
    (hrun : Transition.run step initial as = some v) :
    (∀ s ∈ Transition.states step initial as, Agrees s) ↔
      ∀ x ∈ Transition.steps step initial as, Careful x.1 x.2 :=
  Transition.states_iff_good_steps Owned Agrees Careful
    (fun _ _ _ hown h hcareful hstep => hown.step h hcareful hstep)
    (fun _ _ _ hown h hstep => agrees_iff_careful hown h hstep)
    initial_owned initial_agrees hrun

theorem careful_part {as before part : List Action} {u v : State}
    (hall : ∀ x ∈ Transition.steps step initial as, Careful x.1 x.2)
    (hpre : before ++ part <+: as) (hbefore : Transition.run step initial before = some u)
    (hpart : Transition.run step u part = some v) :
    Sound u ∧ ∀ x ∈ Transition.steps step u part, Careful x.1 x.2 := by
  obtain ⟨rest, rfl⟩ := hpre
  rw [Transition.steps_append (Transition.run_append hbefore hpart),
    Transition.steps_append hbefore] at hall
  simp only [List.forall_mem_append] at hall
  refine ⟨?_, hall.1.2⟩
  exact Transition.run_invariant_of_steps Sound Careful (fun _ _ _ h hc hs => h.step hc hs)
    initial_sound hall.1.1 hbefore

theorem not_dropped {u v : State} {now msFromNow msPeriod : ℤ} {handler : ℕ} {tag : BitVec 32}
    {after : List Action} (hu : Sound u)
    (hall : ∀ x ∈ Transition.steps step u (.create now msFromNow msPeriod handler tag :: after),
      Careful x.1 x.2)
    (hrun : Transition.run step u (.create now msFromNow msPeriod handler tag :: after) = some v)
    (hnever : .destroy u.nextId ∉ after) :
    u.calls u.nextId < v.calls u.nextId ∨ (v.active u.nextId).isSome ∧ u.nextId ∈ v.queue := by
  obtain ⟨t, ht, hafter⟩ := Option.bind_eq_some_iff.mp hrun
  simp only [Transition.steps, ht, Option.elim_some, List.forall_mem_cons] at hall
  obtain ⟨q, hperm, heq⟩ := create_step hu.agrees ht
  have hwaits : WaitsOrCalled u.nextId (u.calls u.nextId) t := by
    rw [heq]
    exact Or.inr ⟨le_rfl, hperm.mem_iff.mpr List.mem_cons_self⟩
  have hend := Transition.run_invariant_of_steps
    (fun s => Sound s ∧ WaitsOrCalled u.nextId (u.calls u.nextId) s)
    (fun s a => Careful s a ∧ a ≠ .destroy u.nextId)
    (fun s a t h hgood hstep => ⟨h.1.step hgood.1 hstep,
      h.2.step h.1.agrees h.1.owned hgood.1 hgood.2 hstep⟩)
    ⟨hu.step hall.1 ht, hwaits⟩
    (fun x hx => ⟨hall.2 x hx, fun hd => hnever (hd ▸ Transition.mem_of_mem_steps hx)⟩) hafter
  exact hend.2.imp (fun hlt => hlt) fun hw => ⟨((hend.1.agrees.mem_iff _).mp hw.2).1, hw.2⟩

theorem duration_nonpos {ms : ℤ} (h : ms ≤ 0) : duration ms ≤ 0 := by
  rw [duration, if_pos (by omega)]
  exact h

theorem at_most_once {u t v : State} {now msFromNow msPeriod : ℤ} {handler : ℕ} {tag : BitVec 32}
    {after : List Action} (hu : Sound u)
    (hcareful : Careful u (.create now msFromNow msPeriod handler tag))
    (ht : step u (.create now msFromNow msPeriod handler tag) = some t)
    (hall : ∀ x ∈ Transition.steps step t after, Careful x.1 x.2)
    (hafter : Transition.run step t after = some v) (hperiod : msPeriod ≤ 0)
    (hnew : ∀ x ∈ Transition.steps step t after, ∀ now msFromNow msPeriod handler tag,
      x.2 = .create now msFromNow msPeriod handler tag → x.1.nextId ≠ u.nextId) :
    v.calls u.nextId ≤ u.calls u.nextId + 1 := by
  obtain ⟨q, hperm, heq⟩ := create_step hu.agrees ht
  have hfree : u.active u.nextId = none := hcareful
  have hstart : OneShot u.nextId (u.calls u.nextId) t := by
    rw [heq, hfree, Option.getD_none]
    refine ⟨Nat.le_succ _, Or.inl le_rfl, fun i hi => ?_⟩
    dsimp only at hi
    rw [Function.update_self, Option.some.injEq] at hi
    rw [← hi]
    exact duration_nonpos hperiod
  have hend := Transition.run_invariant_of_steps
    (fun s => Sound s ∧ OneShot u.nextId (u.calls u.nextId) s)
    (fun s a => Careful s a ∧ ∀ now msFromNow msPeriod handler tag,
      a = .create now msFromNow msPeriod handler tag → s.nextId ≠ u.nextId)
    (fun s a t h hgood hstep => ⟨h.1.step hgood.1 hstep,
      h.2.step h.1.agrees h.1.owned hgood.1 hgood.2 hstep⟩)
    ⟨hu.step hcareful ht, hstart⟩ (fun x hx => ⟨hall x hx, hnew x hx⟩) hafter
  exact hend.2.calls_le

/-- The timer's runs are sound exactly when all their steps are careful. -/
theorem runSound_iff (as : List Action) (v : State)
    (hrun : Transition.run step initial as = some v) :
    RunSound as ↔ ∀ x ∈ Transition.steps step initial as, Careful x.1 x.2 := by
  refine ⟨fun h => (agrees_along_iff hrun).mp h.agrees, fun hall => ?_⟩
  have hsound := Transition.steps_invariant Sound Careful (fun _ _ _ h hc hs => h.step hc hs)
    initial_sound hall
  refine ⟨(agrees_along_iff hrun).mpr hall, ?_, ?_, ?_⟩
  · rintro ⟨s, _⟩ hx id t rfl hstep j hne
    exact destroy_local (hsound _ hx).agrees (hall _ hx) hstep hne
  · intro before now msFromNow msPeriod handler tag after u v hpre hbefore hafter hnever
    obtain ⟨hu, hcareful⟩ := careful_part hall hpre hbefore hafter
    exact not_dropped hu hcareful hafter hnever
  · intro before now msFromNow msPeriod handler tag after u t v hpre hbefore ht hafter hperiod hnew
    obtain ⟨hu, hcareful⟩ := careful_part (v := v) hall hpre hbefore (by simp [ht, hafter])
    simp only [Transition.steps, ht, Option.elim_some, List.forall_mem_cons] at hcareful
    exact at_most_once hu hcareful.1 ht hcareful.2 hafter hperiod hnew

instance (s : State) : (a : Action) → Decidable (Careful s a)
  | .create .. => inferInstanceAs (Decidable (s.active s.nextId = none))
  | .destroy id => decidable_of_iff (∀ i ∈ s.active id, i.running = false →
      s.phase ≠ .handling id ∧ ∀ j ∈ s.queue, j ≠ id → deadlineIn s.active j ≠ some i.next) Iff.rfl
  | .worker _ => isTrue trivial

/-- A one-shot and a periodic timer, which is destroyed in its handler. -/
def twoTimers : List Action := [
  .create 0 5 0 1 1, .create 0 6 3 1 2, .worker 5000000, .worker 6000000, .destroy 2,
  .worker 9000000]

theorem runSound_two : RunSound twoTimers := by
  obtain ⟨v, hrun⟩ := Option.isSome_iff_exists.mp
    (show (Transition.run step initial twoTimers).isSome by decide +kernel)
  exact (runSound_iff twoTimers v hrun).mpr (by decide +kernel)

/-- Two timers with one deadline, the first of which is destroyed, and one timer that is
destroyed twice in its handler. -/
theorem not_runSound :
    ¬ RunSound [.create 0 5 0 1 1, .create 0 5 0 1 2, .destroy 1] ∧
      ¬ RunSound [.create 0 5 0 1 1, .worker 5000000, .destroy 1, .destroy 1] := by
  constructor
  · intro h
    obtain ⟨s, hs, hactive, hqueue, hphase⟩ :
        ∃ s ∈ Transition.states step initial
            [.create 0 5 0 1 1, .create 0 5 0 1 2, .destroy 1],
          (s.active 2).isSome ∧ 2 ∉ s.queue ∧ s.phase = .waiting := by
      decide +kernel
    exact hqueue (((h.agrees s hs).mem_iff 2).mpr ⟨hactive, by simp [hphase]⟩)
  · intro h
    obtain ⟨s, hs, hphase⟩ :
        ∃ s ∈ Transition.states step initial
            [.create 0 5 0 1 1, .worker 5000000, .destroy 1, .destroy 1],
          s.phase = .dangling := by
      decide +kernel
    exact (h.agrees s hs).defined.1 hphase

end RdtChallenge.Timer
