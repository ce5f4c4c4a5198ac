import RdtChallenge.TimerAgreement

namespace RdtChallenge.Timer
open Function (update)

def Before (deadline : TimerId → Option ℤ) (j k : TimerId) : Prop :=
  ∀ a ∈ deadline j, ∀ b ∈ deadline k, a ≤ b

section Queue
variable {deadline deadline' : TimerId → Option ℤ} {q q' : List TimerId} {id : TimerId} {next : ℤ}

theorem perm_of_insertEntry (hq : ∀ j ∈ q, (deadline j).isSome)
    (h : insertEntry deadline id next q = some q') : q'.Perm (id :: q) := by
  obtain ⟨q'', hq'', hperm⟩ := insertEntry_spec hq id next
  obtain rfl := Option.some.inj (h.symm.trans hq'')
  exact hperm

theorem insertEntry_sorted (hdefined : ∀ j ∈ q, (deadline j).isSome)
    (hid : deadline id = some next) (hq : q.Pairwise (Before deadline))
    (h : insertEntry deadline id next q = some q') : q'.Pairwise (Before deadline) := by
  induction q generalizing q' with
  | nil =>
    obtain rfl := Option.some.inj h
    simp
  | cons j js ih =>
    obtain ⟨hj, hjs⟩ := List.forall_mem_cons.mp hdefined
    obtain ⟨hfirst, hrest⟩ := List.pairwise_cons.mp hq
    obtain ⟨t, ht⟩ := Option.isSome_iff_exists.mp hj
    by_cases hlt : next < t
    · simp only [insertEntry, ht, Option.bind_eq_bind, Option.bind_some, if_pos hlt,
        Option.some.injEq] at h
      subst h
      refine List.pairwise_cons.mpr ⟨fun k hk a ha b hb => ?_, hq⟩
      obtain rfl := Option.some.inj (hid.symm.trans ha)
      rcases List.mem_cons.mp hk with rfl | hk
      · obtain rfl := Option.some.inj (ht.symm.trans hb)
        exact hlt.le
      · exact hlt.le.trans (hfirst k hk t ht b hb)
    · simp only [insertEntry, ht, Option.bind_eq_bind, Option.bind_some, if_neg hlt,
        Option.bind_eq_some_iff, Option.some.injEq] at h
      obtain ⟨js', hinsert, rfl⟩ := h
      refine List.pairwise_cons.mpr ⟨fun k hk => ?_, ih hjs hrest hinsert⟩
      rcases List.mem_cons.mp ((perm_of_insertEntry hjs hinsert).mem_iff.mp hk) with rfl | hk
      · intro a ha b hb
        obtain rfl := Option.some.inj (ht.symm.trans ha)
        obtain rfl := Option.some.inj (hid.symm.trans hb)
        exact not_lt.mp hlt
      · exact hfirst k hk

theorem pairwise_before_congr (hq : q.Pairwise (Before deadline))
    (h : ∀ j ∈ q, deadline' j = deadline j) : q.Pairwise (Before deadline') := by
  refine hq.imp_of_mem fun {j k} hj hk hbefore => ?_
  rw [Before, h j hj, h k hk]
  exact hbefore

end Queue

variable {s t u v w : State} {id : TimerId} {i : Instance} {now : ℤ} {a : Action}

theorem deadlineIn_update_of_ne {active : TimerId → Option Instance} {j : TimerId} (h : j ≠ id)
    (o : Option Instance) : deadlineIn (update active id o) j = deadlineIn active j := by
  rw [deadlineIn, Function.update_of_ne h, deadlineIn]

inductive Finishes (s : State) : State → Prop
  | nothing (hphase : s.phase = .waiting) : Finishes s s
  | drop (id : TimerId) (i : Instance) (hphase : s.phase = .handling id)
      (hi : s.active id = some i) (hlast : i.running = false ∨ i.period ≤ 0) :
      Finishes s { s with active := update s.active id none, phase := .waiting }
  | again (id : TimerId) (i : Instance) (q : List TimerId) (hphase : s.phase = .handling id)
      (hi : s.active id = some i) (hperiod : 0 < i.period)
      (hq : insertEntry (deadlineIn (update s.active id
        (some { i with running := false, next := timestamp (i.next + nsPerMs * i.period) }))) id
        (timestamp (i.next + nsPerMs * i.period)) s.queue = some q) :
      Finishes s { s with
        active := update s.active id
          (some { i with running := false, next := timestamp (i.next + nsPerMs * i.period) })
        queue := q
        phase := .waiting }

inductive Heads (now : ℤ) (s : State) : State → Prop
  | wait (hnone : ∀ j ∈ s.queue.head?, ∃ i, s.active j = some i ∧ now < i.next) : Heads now s s
  | call (id : TimerId) (rest : List TimerId) (i : Instance) (hqueue : s.queue = id :: rest)
      (hi : s.active id = some i) (hdue : i.next ≤ now) :
      Heads now s ⟨s.nextId, update s.active id (some { i with running := true }), rest,
        .handling id, s.called ++ [⟨i.id, i.handler, i.tag⟩]⟩

theorem finishes_of_finish (hown : Owned s) (h : finish s = some u) : Finishes s u := by
  unfold finish at h
  split at h
  · obtain rfl := Option.some.inj h
    exact .nothing ‹_›
  · rename_i id hphase
    simp only [Option.bind_eq_bind, Option.bind_eq_some_iff] at h
    obtain ⟨i, hi, h⟩ := h
    have hid := hown.id_eq id i hi
    split_ifs at h with hrunning hperiod
    · obtain ⟨q, hq, h⟩ := Option.bind_eq_some_iff.mp h
      obtain rfl := Option.some.inj h
      exact .again id i q hphase hi hperiod hq
    · obtain rfl := Option.some.inj h
      rw [hid]
      exact .drop id i hphase hi (Or.inr (not_lt.mp hperiod))
    · obtain rfl := Option.some.inj h
      rw [hid]
      exact .drop id i hphase hi (Or.inl (Bool.not_eq_true _ ▸ hrunning))
  · cases h

theorem heads_of_loopHead (h : loopHead now u = some t) : Heads now u t := by
  unfold loopHead at h
  split at h
  · rename_i hqueue
    obtain rfl := Option.some.inj h
    exact .wait (by simp [hqueue])
  · rename_i first rest hqueue
    obtain ⟨i, hi, h⟩ := Option.bind_eq_some_iff.mp h
    split_ifs at h with hdue <;> obtain rfl := Option.some.inj h
    · exact .call first rest i hqueue hi hdue
    · exact .wait (by simp [hqueue, hi, not_le.mp hdue])

theorem worker_cases (h : Sound s) (hstep : step s (.worker now) = some t) :
    ∃ u, Sound u ∧ Finishes s u ∧ u.called = s.called ∧ u.phase = .waiting ∧ Heads now u t := by
  obtain ⟨u, hu, hfin⟩ := finish_spec h.agrees h.owned
  obtain ⟨t', ht', -⟩ := loopHead_spec hfin.agrees hfin.owned hfin.phase now
  have hthread : threadStart now s = some t' := by simp [threadStart, hu, ht']
  obtain rfl : t = t' :=
    Option.some.inj (hstep.symm.trans (step_eq (a := .worker now) h.agrees hthread))
  exact ⟨u, ⟨hfin.agrees, hfin.owned⟩, finishes_of_finish h.owned hu, hfin.called, hfin.phase,
    heads_of_loopHead ht'⟩

def Sorted (s : State) : Prop := s.queue.Pairwise (Before (deadlineIn s.active))

theorem Sorted.insert (h : Sorted s) (hagrees : Agrees s) (hmem : id ∉ s.queue)
    {q : List TimerId}
    (hq : insertEntry (deadlineIn (update s.active id (some i))) id i.next s.queue = some q) :
    q.Pairwise (Before (deadlineIn (update s.active id (some i)))) := by
  have hsame : ∀ j ∈ s.queue,
      deadlineIn (update s.active id (some i)) j = deadlineIn s.active j := by
    rintro j hj
    refine deadlineIn_update_of_ne ?_ _
    rintro rfl
    exact hmem hj
  refine insertEntry_sorted (fun j hj => ?_) (by simp [deadlineIn])
    (pairwise_before_congr h hsame) hq
  rw [hsame j hj]
  exact hagrees.deadline_isSome j hj

theorem create_cases (h : Agrees s) (hfree : s.active s.nextId = none) {msFromNow msPeriod : ℤ}
    {handler : ℕ} {tag : BitVec 32}
    (hstep : step s (.create now msFromNow msPeriod handler tag) = some t) :
    ∃ q, insertEntry (deadlineIn (update s.active s.nextId
        (some (newInstance s.nextId now msFromNow msPeriod handler tag)))) s.nextId
        (newInstance s.nextId now msFromNow msPeriod handler tag).next s.queue = some q ∧
      t = { s with
        nextId := s.nextId + 1
        active := update s.active s.nextId
          (some (newInstance s.nextId now msFromNow msPeriod handler tag))
        queue := q } := by
  obtain ⟨q, hq, -⟩ := createImpl_spec h (newInstance 0 now msFromNow msPeriod handler tag)
  have hrun := step_eq (a := .create now msFromNow msPeriod handler tag) h
    (by rw [region, create, hq, Option.map_some])
  simp only [createImpl, hfree, Option.getD_none, Option.bind_eq_bind,
    Option.bind_eq_some_iff] at hq
  obtain ⟨q', hinsert, heq⟩ := hq
  simp only [Option.some.injEq, Prod.mk.injEq, State.mk.injEq] at heq
  obtain rfl : q' = q := heq.1.2.2.1
  refine ⟨q', hinsert, ?_⟩
  rw [hfree] at hrun
  exact Option.some.inj (hstep.symm.trans hrun)

theorem Sorted.finish (h : Sorted s) (hagrees : Agrees s) (hu : Finishes s u) : Sorted u := by
  cases hu with
  | nothing => exact h
  | drop id i hphase hi =>
    refine pairwise_before_congr h fun j hj => deadlineIn_update_of_ne ?_ none
    rintro rfl
    exact ((hagrees.mem_iff j).mp hj).2 hphase
  | again id i q hphase hi hperiod hq =>
    exact h.insert
      (i := { i with running := false, next := timestamp (i.next + nsPerMs * i.period) }) hagrees
      (fun hmem => ((hagrees.mem_iff id).mp hmem).2 hphase) hq

theorem Sorted.head (h : Sorted u) (hagrees : Agrees u) (ht : Heads now u t) : Sorted t := by
  cases ht with
  | wait => exact h
  | call id rest i hqueue hi =>
    have hnodup := hagrees.nodup
    unfold Sorted at h
    rw [hqueue] at h hnodup
    refine pairwise_before_congr h.of_cons fun j hj => deadlineIn_update_of_ne ?_ _
    rintro rfl
    exact (List.nodup_cons.mp hnodup).1 hj

theorem Sorted.step (h : Sorted s) (hsound : Sound s) (hcareful : Careful s a)
    (hstep : step s a = some t) : Sorted t := by
  cases a with
  | create now msFromNow msPeriod handler tag =>
    have hfree : s.active s.nextId = none := hcareful
    obtain ⟨q, hq, rfl⟩ := create_cases hsound.agrees hfree hstep
    refine h.insert (i := newInstance s.nextId now msFromNow msPeriod handler tag)
      hsound.agrees (fun hmem => ?_) hq
    have := ((hsound.agrees.mem_iff _).mp hmem).1
    simp [hfree] at this
  | destroy id =>
    rcases destroy_step hsound.agrees hstep with
      ⟨-, rfl⟩ | ⟨i, hi, hrunning, rfl⟩ | ⟨i, hi, hnot, rfl⟩
    · exact h
    · have hphase := hsound.owned.handling id i hi hrunning
      refine pairwise_before_congr h fun j hj => deadlineIn_update_of_ne ?_ _
      rintro rfl
      exact ((hsound.agrees.mem_iff j).mp hj).2 hphase
    · -- what is left has another deadline than `id`
      refine pairwise_before_congr (h.sublist List.filter_sublist) fun j hj =>
        deadlineIn_update_of_ne ?_ _
      rintro rfl
      have hne := (List.mem_filter.mp hj).2
      simp [deadlineIn, hi] at hne
  | worker now =>
    obtain ⟨u, hu, hfin, -, -, hhead⟩ := worker_cases hsound hstep
    exact (h.finish hsound.agrees hfin).head hu.agrees hhead

theorem sorted_run {as : List Action}
    (hcareful : ∀ x ∈ Transition.steps step initial as, Careful x.1 x.2)
    (hrun : Transition.run step initial as = some s) : Sound s ∧ Sorted s :=
  Transition.run_invariant_of_steps (fun s => Sound s ∧ Sorted s) Careful
    (fun _ _ _ h hgood hstep => ⟨h.1.step hgood hstep, h.2.step h.1 hgood hstep⟩)
    ⟨initial_sound, List.Pairwise.nil⟩ hcareful hrun

theorem none_due (h : Sorted u)
    (hnone : ∀ j ∈ u.queue.head?, ∃ i, u.active j = some i ∧ now < i.next) :
    ∀ j ∈ u.queue, ∀ i ∈ u.active j, now < i.next := by
  intro j hj i hi
  unfold Sorted at h
  cases hqueue : u.queue with
  | nil => simp [hqueue] at hj
  | cons first rest =>
    obtain ⟨i', hi', hlt⟩ := hnone first (by simp [hqueue])
    rw [hqueue] at h hj
    rcases List.mem_cons.mp hj with rfl | hj
    · obtain rfl := Option.some.inj (hi'.symm.trans hi)
      exact hlt
    · refine hlt.trans_le ((List.pairwise_cons.mp h).1 j hj _ ?_ _ ?_)
      · simp [deadlineIn, hi']
      · simp [deadlineIn, Option.mem_def.mp hi]

/-- The worker calls a timer that is due and due first, or there is none. -/
theorem calls_earliest {as : List Action}
    (hrun : Transition.run step initial as = some s)
    (hcareful : ∀ x ∈ Transition.steps step initial as, Careful x.1 x.2)
    (hstep : step s (.worker now) = some t) :
    (t.called = s.called ∧ t.phase = .waiting ∧
        ∀ j ∈ t.queue, ∀ i ∈ t.active j, now < i.next) ∨
      ∃ id i, t.called = s.called ++ [⟨id, i.handler, i.tag⟩] ∧ t.phase = .handling id ∧
        t.active id = some i ∧ i.next ≤ now ∧
        ∀ j ∈ t.queue, ∀ i' ∈ t.active j, i.next ≤ i'.next := by
  obtain ⟨hsound, hsorted⟩ := sorted_run hcareful hrun
  obtain ⟨u, hu, hfin, hcalled, hphase, hhead⟩ := worker_cases hsound hstep
  have hsorted : Sorted u := hsorted.finish hsound.agrees hfin
  cases hhead with
  | wait hnone => exact Or.inl ⟨hcalled, hphase, none_due hsorted hnone⟩
  | call id rest i hqueue hi hdue =>
    refine Or.inr ⟨id, { i with running := true }, ?_, rfl, Function.update_self .., hdue, ?_⟩
    · rw [hcalled, hu.owned.id_eq id i hi]
    · intro j hj i' hi'
      have hnodup := hu.agrees.nodup
      unfold Sorted at hsorted
      rw [hqueue] at hnodup hsorted
      have hne : j ≠ id := by
        rintro rfl
        exact (List.nodup_cons.mp hnodup).1 hj
      dsimp only at hi'
      rw [Function.update_of_ne hne] at hi'
      refine (List.pairwise_cons.mp hsorted).1 j hj _ ?_ _ ?_
      · simp [deadlineIn, hi]
      · simp [deadlineIn, Option.mem_def.mp hi']

/-- The timer that is created first is due last. -/
def raceRun : List Action := [.create 0 9 0 1 1, .create 0 5 0 1 2, .worker 4000000]

theorem calls_earliest_race : ∃ s t, Transition.run step initial raceRun = some s ∧
    step s (.worker 10000000) = some t ∧ t.called = [⟨2, 1, 2⟩] ∧
      ∀ j ∈ t.queue, ∀ i' ∈ t.active j, 5000000 ≤ i'.next := by
  obtain ⟨s, hrun, t, hstep, hcareful, hnone, hcalled, hnext⟩ :
      ∃ s ∈ Transition.run step initial raceRun, ∃ t ∈ step s (.worker 10000000),
        (∀ x ∈ Transition.steps step initial raceRun, Careful x.1 x.2) ∧ s.called = [] ∧
          t.called = [⟨2, 1, 2⟩] ∧ (t.active 2).map Instance.next = some 5000000 := by
    decide +kernel
  refine ⟨s, t, hrun, hstep, hcalled, ?_⟩
  rcases calls_earliest hrun hcareful hstep with ⟨hsame, -⟩ | ⟨id, i, hcall, -, hi, -, hfirst⟩
  · simp [hsame, hnone] at hcalled
  · rw [hcalled, hnone, List.nil_append, List.singleton_inj, Call.mk.injEq] at hcall
    obtain ⟨rfl, -, -⟩ := hcall
    rw [hi, Option.map_some, Option.some.injEq] at hnext
    exact hnext ▸ hfirst

def callsBy (first period T : ℤ) : ℕ :=
  if T < first then 0 else if 0 < period then ((T - first) / period).toNat + 1 else 1

theorem callsBy_of_bounds {first period T : ℤ} {k : ℕ} (hperiod : 0 < period)
    (hle : first + k * period ≤ T) (hlt : T < first + (k + 1) * period) :
    callsBy first period T = k + 1 := by
  have hdiv : (T - first) / period = k := by
    refine le_antisymm (Int.lt_add_one_iff.mp ?_) ?_
    · exact Int.ediv_lt_of_lt_mul hperiod (by linarith)
    · exact (Int.le_ediv_iff_mul_le hperiod).mpr (by linarith)
  have hk : 0 ≤ (k : ℤ) * period := mul_nonneg (Int.natCast_nonneg k) hperiod.le
  rw [callsBy, if_neg (by linarith), if_pos hperiod, hdiv, Int.toNat_natCast]

theorem timestamp_eq {ns : ℤ} (hle : -0x8000000000000000 ≤ ns) (hlt : ns < 0x8000000000000000) :
    timestamp ns = ns := Int.bmod_eq_of_le (by omega) (by omega)

theorem timestamp_duration (now ms : ℤ) :
    timestamp (now + nsPerMs * duration ms) = timestamp (now + nsPerMs * ms) := by
  unfold duration
  split_ifs
  · rfl
  · have hwrap : now + nsPerMs * (ms - 0x10000000000000000) =
        now + nsPerMs * ms + (0x10000000000000000 : ℕ) * -nsPerMs := by
      push_cast
      ring
    rw [timestamp, hwrap, Int.add_mul_bmod_self_left, timestamp]

/-- The deadlines from `first` on, up to one `period` after `T`, are timestamps. -/
structure Fits (first period T : ℤ) : Prop where
  starts : -0x8000000000000000 ≤ first ∧ first < 0x8000000000000000
  repeats : period < 0x8000000000000000
  ends : T + period < 0x8000000000000000

/-- Where a timer is after `k` calls, none of them later than `T`. -/
inductive Stands (id : TimerId) (first period T : ℤ) (s : State) : ℕ → Prop
  | waits (k : ℕ) (i : Instance) (hmem : id ∈ s.queue) (hi : s.active id = some i)
      (hperiod : nsPerMs * i.period = period) (hnext : i.next = first + k * period)
      (hlast : k = 0 ∨ 0 < period ∧ i.next ≤ T + period) : Stands id first period T s k
  | handled (k : ℕ) (i : Instance) (hphase : s.phase = .handling id)
      (hi : s.active id = some i) (hrunning : i.running = true)
      (hperiod : nsPerMs * i.period = period) (hnext : i.next = first + k * period)
      (hdue : i.next ≤ T) (honce : k = 0 ∨ 0 < period) :
      Stands id first period T s (k + 1)
  | gone (hnone : s.active id = none) (hperiod : period ≤ 0) (hdue : first ≤ T) :
      Stands id first period T s 1

variable {first period T : ℤ} {k : ℕ}

theorem Stands.keep (h : Stands id first period T s k) (hactive : t.active id = s.active id)
    (hqueue : id ∈ s.queue → id ∈ t.queue)
    (hphase : s.phase = .handling id → t.phase = .handling id) :
    Stands id first period T t k := by
  cases h with
  | waits _ i hmem hi => exact .waits _ i (hqueue hmem) (hactive.trans hi) ‹_› ‹_› ‹_›
  | handled k i hp hi => exact .handled k i (hphase hp) (hactive.trans hi) ‹_› ‹_› ‹_› ‹_› ‹_›
  | gone hnone => exact .gone (hactive.trans hnone) ‹_› ‹_›

theorem Fits.timestamp_next (hfits : Fits first period T) (hpos : 0 < period) {next : ℤ}
    (hnext : next = first + k * period) (hdue : next ≤ T) :
    timestamp (next + period) = first + (k + 1 : ℕ) * period := by
  have hk : 0 ≤ (k : ℤ) * period := mul_nonneg (Int.natCast_nonneg k) hpos.le
  have hstarts := hfits.starts.1
  have hends := hfits.ends
  rw [timestamp_eq (by omega) (by omega), hnext]
  push_cast
  ring

/-- A timer in its handler was due, and more than once only if it is periodic. -/
theorem Stands.of_handling (h : Stands id first period T s k) (hsound : Sound s) {i : Instance}
    (hphase : s.phase = .handling id) (hi : s.active id = some i) :
    ∃ n, k = n + 1 ∧ i.running = true ∧ nsPerMs * i.period = period ∧
      i.next = first + n * period ∧ i.next ≤ T ∧ (n = 0 ∨ 0 < period) := by
  cases h with
  | waits _ i' hmem => exact absurd hphase ((hsound.agrees.mem_iff id).mp hmem).2
  | handled n i' hp hi' hrunning hperiod hnext hdue honce =>
    obtain rfl := Option.some.inj (hi.symm.trans hi')
    exact ⟨n, rfl, hrunning, hperiod, hnext, hdue, honce⟩
  | gone hnone => simp [hi] at hnone

theorem Stands.finish (h : Stands id first period T s k) (hfits : Fits first period T)
    (hsound : Sound s) (hu : Finishes s u) : Stands id first period T u k := by
  have hother : ∀ {j}, s.phase = .handling j → j ≠ id → s.phase ≠ .handling id :=
    fun hphase hne hp => hne (Phase.handling.inj (hphase.symm.trans hp))
  cases hu with
  | nothing => exact h
  | drop j i hphase hi hlast =>
    by_cases heq : j = id
    · -- only a timer that is not periodic is dropped
      subst heq
      obtain ⟨n, rfl, hrunning, hperiod, hnext, hdue, honce⟩ := h.of_handling hsound hphase hi
      have hle : period ≤ 0 := by
        have := hlast.resolve_left (by simp [hrunning])
        rw [← hperiod, nsPerMs]
        omega
      obtain rfl : n = 0 := honce.resolve_right (by omega)
      exact .gone (Function.update_self ..) hle (by simpa [hnext] using hdue)
    · exact h.keep (Function.update_of_ne (Ne.symm heq) _ _) (fun hmem => hmem)
        fun hp => absurd hp (hother hphase heq)
  | again j i q hphase hi hpositive hq =>
    have hperm : q.Perm (j :: s.queue) := by
      refine perm_of_insertEntry (fun j' hj' => ?_) hq
      have hne : j' ≠ j := by
        rintro rfl
        exact ((hsound.agrees.mem_iff j').mp hj').2 hphase
      rw [deadlineIn_update_of_ne hne]
      exact hsound.agrees.deadline_isSome j' hj'
    by_cases heq : j = id
    · subst heq
      obtain ⟨n, rfl, -, hperiod, hnext, hdue, -⟩ := h.of_handling hsound hphase hi
      have hpos : 0 < period := by
        rw [← hperiod, nsPerMs]
        omega
      have hsum := hfits.timestamp_next hpos hnext hdue
      refine .waits (n + 1) _ (hperm.mem_iff.mpr List.mem_cons_self) (Function.update_self ..)
        hperiod ?_ (Or.inr ⟨hpos, ?_⟩)
      · rw [← hsum, ← hperiod]
      · dsimp only
        rw [hperiod, hsum]
        push_cast
        linarith
    · exact h.keep (Function.update_of_ne (Ne.symm heq) _ _)
        (fun hmem => hperm.mem_iff.mpr (List.mem_cons_of_mem _ hmem))
        fun hp => absurd hp (hother hphase heq)

/-- The calls are counted, and no call is later than the clock. -/
theorem Stands.head (h : Stands id first period T u k) (hu : Sound u) (hphase : u.phase = .waiting)
    (hclock : now ≤ T) (ht : Heads now u t) :
    ∃ k', t.calls id + k = u.calls id + k' ∧ Stands id first period T t k' := by
  cases ht with
  | wait => exact ⟨k, rfl, h⟩
  | call j rest i hqueue hi hdue =>
    have hid := hu.owned.id_eq j i hi
    have hcalls : State.calls ⟨u.nextId, update u.active j (some { i with running := true }), rest,
        .handling j, u.called ++ [⟨i.id, i.handler, i.tag⟩]⟩ id =
          u.calls id + if j = id then 1 else 0 := by
      simp only [State.calls, List.countP_append, List.countP_singleton, hid, decide_eq_true_eq]
    rw [hcalls]
    by_cases heq : j = id
    · subst heq
      cases h with
      | waits _ i' hmem hi' hperiod hnext hlast =>
        obtain rfl := Option.some.inj (hi.symm.trans hi')
        refine ⟨k + 1, by rw [if_pos rfl]; omega, ?_⟩
        exact .handled k _ rfl (Function.update_self ..) rfl hperiod hnext (hdue.trans hclock)
          (hlast.imp_right And.left)
      | handled k i' hp => exact absurd (hphase.symm.trans hp) (by simp)
      | gone hnone => simp [hi] at hnone
    · refine ⟨k, by rw [if_neg heq, add_zero], ?_⟩
      refine h.keep (Function.update_of_ne (Ne.symm heq) _ _) (fun hmem => ?_) fun hp => ?_
      · rw [hqueue, List.mem_cons] at hmem
        exact hmem.resolve_left (Ne.symm heq)
      · exact absurd (hphase.symm.trans hp) (by simp)

theorem Stands.step (h : Stands id first period T s k) (hfits : Fits first period T)
    (hsound : Sound s) (hcareful : Careful s a) (hother : a ≠ .destroy id)
    (hnew : period ≤ 0 → ∀ now msFromNow msPeriod handler tag,
      a = .create now msFromNow msPeriod handler tag → s.nextId ≠ id)
    (hclock : ∀ now, a = .worker now → now ≤ T) (hstep : step s a = some t) :
    ∃ k', t.calls id + k = s.calls id + k' ∧ Stands id first period T t k' := by
  cases a with
  | create now msFromNow msPeriod handler tag =>
    obtain ⟨q, hperm, rfl⟩ := create_step hsound.agrees hstep
    have hfree : s.active s.nextId = none := hcareful
    have hne : id ≠ s.nextId := by
      rintro rfl
      cases h with
      | waits _ i hmem hi => simp [hfree] at hi
      | handled k i hp hi => simp [hfree] at hi
      | gone hnone hperiod => exact hnew hperiod _ _ _ _ _ rfl rfl
    exact ⟨k, rfl, h.keep (Function.update_of_ne hne _ _)
      (fun hmem => hperm.mem_iff.mpr (List.mem_cons_of_mem _ hmem)) fun hp => hp⟩
  | destroy j =>
    have hne : id ≠ j := by
      rintro rfl
      exact hother rfl
    have hlocal := destroy_local hsound.agrees hcareful hstep hne
    refine ⟨k, by rw [State.calls, destroy_calls hsound.agrees hstep, State.calls],
      h.keep hlocal.1 hlocal.2.mpr fun hp => ?_⟩
    rcases destroy_step hsound.agrees hstep with ⟨-, rfl⟩ | ⟨i, -, -, rfl⟩ | ⟨i, hi, hnot, rfl⟩
    · exact hp
    · exact hp
    · exact (if_neg (hcareful i hi hnot).1).trans hp
  | worker now =>
    obtain ⟨u, hu, hfin, hcalled, hphase, hhead⟩ := worker_cases hsound hstep
    have hcalls : u.calls id = s.calls id := by rw [State.calls, hcalled, State.calls]
    rw [← hcalls]
    exact (h.finish hfits hsound hfin).head hu hphase (hclock now rfl) hhead

/-- A worker that waits has called the timer as often as the clock says. -/
theorem Stands.calls_eq (h : Stands id first period T s k) (hphase : s.phase = .waiting)
    (hnone : ∀ j ∈ s.queue, ∀ i ∈ s.active j, T < i.next) :
    k = callsBy first period T ∧
      (s.active id).isSome = decide (T < first ∨ 0 < period) := by
  cases h with
  | waits _ i hmem hi hperiod hnext hlast =>
    have hlt : T < first + k * period := hnext ▸ hnone id hmem i hi
    rcases hlast with rfl | ⟨hpositive, hle⟩
    · have hfuture : T < first := by simpa using hlt
      exact ⟨by simp [callsBy, hfuture], by simp [hi, hfuture]⟩
    · refine ⟨?_, by simp [hi, hpositive]⟩
      cases k with
      | zero => simp_all [callsBy]
      | succ k =>
        push_cast at hnext hlt
        refine (callsBy_of_bounds hpositive ?_ hlt).symm
        rw [hnext] at hle
        linarith
  | handled k i hp => exact absurd (hphase.symm.trans hp) (by simp)
  | gone hle hperiod hdue =>
    have hnot : ¬ T < first := not_lt.mpr hdue
    exact ⟨by simp [callsBy, hnot, not_lt.mpr hperiod], by simp [*, not_lt.mpr hperiod]⟩

theorem stands_of_create (h : Agrees s) (hfree : s.active s.nextId = none)
    {msFromNow msPeriod : ℤ} {handler : ℕ} {tag : BitVec 32}
    (hfits : Fits (now + nsPerMs * msFromNow) (nsPerMs * msPeriod) T)
    (hstep : step s (.create now msFromNow msPeriod handler tag) = some t) :
    Stands s.nextId (now + nsPerMs * msFromNow) (nsPerMs * msPeriod) T t 0 := by
  obtain ⟨q, hperm, rfl⟩ := create_step h hstep
  rw [hfree, Option.getD_none]
  have hduration : duration msPeriod = msPeriod := by
    have hperiod := hfits.repeats
    rw [nsPerMs] at hperiod
    exact if_pos (by omega)
  refine .waits 0 (newInstance s.nextId now msFromNow msPeriod handler tag)
    (hperm.mem_iff.mpr List.mem_cons_self) (Function.update_self ..) ?_ ?_ (Or.inl rfl)
  · rw [newInstance, hduration]
  · rw [newInstance, timestamp_duration, timestamp_eq hfits.starts.1 hfits.starts.2]
    simp

structure Counted (id : TimerId) (n : ℕ) (first period T : ℤ) (s : State) : Prop where
  sound : Sound s
  sorted : Sorted s
  stands : ∃ k, s.calls id = n + k ∧ Stands id first period T s k

structure Fair (id : TimerId) (period T : ℤ) (s : State) (a : Action) : Prop where
  careful : Careful s a
  never : a ≠ .destroy id
  new : period ≤ 0 → ∀ now msFromNow msPeriod handler tag,
    a = .create now msFromNow msPeriod handler tag → s.nextId ≠ id
  clock : ∀ now, a = .worker now → now ≤ T

theorem Counted.step {n : ℕ} (h : Counted id n first period T s) (hfits : Fits first period T)
    (ha : Fair id period T s a) (hstep : step s a = some t) : Counted id n first period T t where
  sound := h.sound.step ha.careful hstep
  sorted := h.sorted.step h.sound ha.careful hstep
  stands := by
    obtain ⟨k, hk, hstands⟩ := h.stands
    obtain ⟨k', hk', hstands'⟩ :=
      hstands.step hfits h.sound ha.careful ha.never ha.new ha.clock hstep
    exact ⟨k', by omega, hstands'⟩

/-- When the worker has read a clock that is past all its earlier readings and waits, a timer
that nobody destroys has been called exactly as often as its period says, without drift, and
is still there exactly if it will be called again, as long as its deadlines do not overflow. -/
theorem call_count {before after : List Action} {msFromNow msPeriod : ℤ} {handler : ℕ}
    {tag : BitVec 32} (hu : Transition.run step initial before = some u)
    (ht : step u (.create now msFromNow msPeriod handler tag) = some t)
    (hw : Transition.run step t after = some w) (hv : step w (.worker T) = some v)
    (hcareful : ∀ x ∈ Transition.steps step initial
      (before ++ .create now msFromNow msPeriod handler tag :: after), Careful x.1 x.2)
    (hnever : .destroy u.nextId ∉ after)
    (hnew : msPeriod ≤ 0 → ∀ x ∈ Transition.steps step t after,
      ∀ now msFromNow msPeriod handler tag,
        x.2 = .create now msFromNow msPeriod handler tag → x.1.nextId ≠ u.nextId)
    (hclock : ∀ now, .worker now ∈ after → now ≤ T)
    (hfits : Fits (now + nsPerMs * msFromNow) (nsPerMs * msPeriod) T)
    (hphase : v.phase = .waiting) :
    v.calls u.nextId =
        u.calls u.nextId + callsBy (now + nsPerMs * msFromNow) (nsPerMs * msPeriod) T ∧
      (v.active u.nextId).isSome = decide (T < now + nsPerMs * msFromNow ∨ 0 < msPeriod) := by
  rw [Transition.steps_append hu, Transition.steps, ht, Option.elim_some] at hcareful
  simp only [List.forall_mem_append, List.forall_mem_cons] at hcareful
  obtain ⟨hbefore, hcreate, hafter⟩ := hcareful
  obtain ⟨hsound, hsorted⟩ := sorted_run hbefore hu
  have hpositive : 0 < nsPerMs * msPeriod ↔ 0 < msPeriod := mul_pos_iff_of_pos_left (by decide)
  have hcalls : t.calls u.nextId = u.calls u.nextId := by
    obtain ⟨q, -, rfl⟩ := create_step hsound.agrees ht
    rfl
  have hstart : Counted u.nextId (u.calls u.nextId) (now + nsPerMs * msFromNow)
      (nsPerMs * msPeriod) T t :=
    ⟨hsound.step hcreate ht, hsorted.step hsound hcreate ht,
      0, hcalls, stands_of_create hsound.agrees hcreate hfits ht⟩
  have hend : Counted u.nextId (u.calls u.nextId) (now + nsPerMs * msFromNow)
      (nsPerMs * msPeriod) T w := by
    refine Transition.run_invariant_of_steps _ (Fair u.nextId (nsPerMs * msPeriod) T)
      (fun _ _ _ h ha hstep => h.step hfits ha hstep) hstart (fun x hx => ?_) hw
    have hmem := Transition.mem_of_mem_steps hx
    refine ⟨hafter x hx, fun hd => hnever (hd ▸ hmem), fun hle => hnew ?_ x hx,
      fun now' hnow => hclock now' (hnow ▸ hmem)⟩
    exact not_lt.mp fun hlt => not_lt.mpr hle (hpositive.mpr hlt)
  -- the last reading
  obtain ⟨k, hk, hstands⟩ := hend.stands
  obtain ⟨w', -, hfin, hcalled, -, hhead⟩ := worker_cases hend.sound hv
  cases hhead with
  | wait hnone =>
    have hsame : v.calls u.nextId = w.calls u.nextId := by
      rw [State.calls, hcalled, State.calls]
    obtain ⟨rfl, hthere⟩ := (hstands.finish hfits hend.sound hfin).calls_eq hphase
      (none_due (hend.sorted.finish hend.sound.agrees hfin) hnone)
    simp only [hpositive] at hthere
    exact ⟨hsame.trans hk, hthere⟩
  | call => cases hphase

/-- A periodic timer beside another one, with a worker that comes late. -/
def lateRun : List Action :=
  [.worker 5000000, .worker 6000000, .worker 10000000, .worker 14000000]

theorem call_count_late : ∃ v,
    Transition.run step initial
      (.create 0 5 0 1 1 :: .create 0 6 3 1 2 :: (lateRun ++ [.worker 14000000])) = some v ∧
      v.calls 2 = 3 ∧ (v.active 2).isSome = true := by
  obtain ⟨u, hu, t, ht, w, hw, v, hv, hcareful, hphase, hid, hzero⟩ :
      ∃ u ∈ Transition.run step initial [.create 0 5 0 1 1],
        ∃ t ∈ step u (.create 0 6 3 1 2), ∃ w ∈ Transition.run step t lateRun,
          ∃ v ∈ step w (.worker 14000000),
            (∀ x ∈ Transition.steps step initial
              ([.create 0 5 0 1 1] ++ .create 0 6 3 1 2 :: lateRun), Careful x.1 x.2) ∧
            v.phase = .waiting ∧ u.nextId = 2 ∧ u.calls 2 = 0 := by
    decide +kernel
  obtain ⟨hcount, hthere⟩ := call_count hu ht hw hv hcareful (by simp [lateRun]) (by simp)
    (by simp [lateRun]) ⟨by decide, by decide, by decide⟩ hphase
  rw [hid, hzero] at hcount
  rw [hid] at hthere
  have hthree : 0 + callsBy (0 + nsPerMs * 6) (nsPerMs * 3) 14000000 = 3 := by decide
  refine ⟨v, ?_, hcount.trans hthree, by simpa using hthere⟩
  have hfirst : step initial (.create 0 5 0 1 1) = some u := by simpa using hu
  have hlate : Transition.run step t (lateRun ++ [.worker 14000000]) = some v :=
    Transition.run_append hw (by simpa using hv)
  simp only [Transition.run_cons, hfirst, Option.mem_def.mp ht, Option.bind_some, hlate]

end RdtChallenge.Timer
