import RdtChallenge.SenderTransmit
import RdtChallenge.SelectiveRepeat

namespace RdtChallenge

/-- The clauses that do not depend on the clock. `acked_span` is what bounds the
window: nothing past sixteen places from the base is ever acknowledged. -/
structure SenderInv (s : SenderState) : Prop where
  sized : s.Sized
  acked_below : ∀ i < s.sendBase, s.Acked i
  acked_lt : ∀ i, s.Acked i → i < s.nextSeq
  acked_span : ∀ i, s.Acked i → i < s.sendBase + sackBits
  unacked_le : s.unacked.card ≤ window

/-- A sent time is positive exactly when the packet has been sent. -/
def Timed (s : SenderState) : Prop :=
  ∀ i t, s.sentTime[i]? = some t → (0 < t ↔ i < s.nextSeq)

structure Grows (s s' : SenderState) : Prop where
  totalPkts : s'.totalPkts = s.totalPkts
  packetBuffer : s'.packetBuffer = s.packetBuffer
  sendBase : s.sendBase ≤ s'.sendBase
  nextSeq : s.nextSeq ≤ s'.nextSeq
  acked : ∀ i, s.Acked i → s'.Acked i

theorem Grows.refl (s : SenderState) : Grows s s := ⟨rfl, rfl, le_rfl, le_rfl, fun _ => id⟩

theorem Grows.trans {s s' s'' : SenderState} (h : Grows s s') (h' : Grows s' s'') :
    Grows s s'' where
  totalPkts := h'.totalPkts.trans h.totalPkts
  packetBuffer := h'.packetBuffer.trans h.packetBuffer
  sendBase := h.sendBase.trans h'.sendBase
  nextSeq := h.nextSeq.trans h'.nextSeq
  acked i hi := h'.acked i (h.acked i hi)

theorem senderStart_not_acked (packets : List Packet) (i : ℕ) :
    ¬ (senderStart packets).Acked i := by
  simp [SenderState.Acked, senderStart, List.getElem?_replicate]

theorem senderStart_inv (packets : List Packet) : SenderInv (senderStart packets) where
  sized := senderStart_sized packets
  acked_below i hi := absurd hi (Nat.not_lt_zero i)
  acked_lt i hi := absurd hi (senderStart_not_acked packets i)
  acked_span i hi := absurd hi (senderStart_not_acked packets i)
  unacked_le := by simp [SenderState.unacked, senderStart]

theorem senderStart_timed (packets : List Packet) : Timed (senderStart packets) := by
  intro i t ht
  simp only [senderStart, List.getElem?_replicate] at ht ⊢
  split_ifs at ht with hi
  simp [← Option.some.inj ht]

variable {s : SenderState}

theorem SenderInv.accept (h : SenderInv s) {ab sm : ℕ} {v : List Bool} (hab : ab ≤ s.nextSeq)
    (hlen : v.length = s.totalPkts)
    (hv : ∀ i, v[i]? = some true ↔ s.Acked i ∨ s.sendBase ≤ i ∧ i < ab ∨
      ∃ j < sackBits, sm.testBit j ∧ i = ab + j ∧ i < s.nextSeq) :
    SenderInv { s with acked := v, sendBase := max s.sendBase ab } where
  sized := ⟨h.sized.packetBuffer, hlen, h.sized.sentTime, max_le h.sized.base_le hab,
    h.sized.next_le⟩
  acked_below i hi := by
    refine (hv i).mpr ?_
    by_cases hb : i < s.sendBase
    · exact Or.inl (h.acked_below i hb)
    · rcases lt_max_iff.mp hi with hi | hi
      · exact absurd hi hb
      · exact Or.inr (Or.inl ⟨by omega, hi⟩)
  acked_lt i hi := by
    rcases (hv i).mp hi with hi | hi | ⟨j, _, _, _, hi⟩
    · exact h.acked_lt i hi
    · exact lt_of_lt_of_le hi.2 hab
    · exact hi
  acked_span i hi := by
    -- the mask names sixteen places from its own base, and the new base is no smaller
    dsimp only
    rcases (hv i).mp hi with hi | hi | ⟨j, hj, _, rfl, _⟩
    · have := h.acked_span i hi
      omega
    · omega
    · omega
  unacked_le := by
    refine (Finset.card_le_card fun i hi => ?_).trans h.unacked_le
    simp only [SenderState.unacked, Finset.mem_filter, Finset.mem_Ico] at hi ⊢
    exact ⟨by omega, fun ha => hi.2 ((hv i).mpr (Or.inl ha))⟩

/-- Any packet leaves the sender with its invariant, and only ever adds acknowledgements. -/
theorem processAck_inv (h : SenderInv s) (pkt : Packet) :
    ∃ s', processAck s pkt = some s' ∧ SenderInv s' ∧ Grows s s' ∧
      s'.nextSeq = s.nextSeq ∧ s'.sentTime = s.sentTime := by
  by_cases hpkt : ∃ ab sm, decode typeAck pkt = some (ab, sm) ∧ ab ≤ s.nextSeq
  · obtain ⟨ab, sm, hd, hab⟩ := hpkt
    obtain ⟨v, hrun, hlen, hv⟩ := processAck_accept h.sized hd hab
    exact ⟨_, hrun, h.accept hab hlen hv,
      ⟨rfl, rfl, le_max_left _ _, le_rfl, fun i hi => (hv i).mpr (Or.inl hi)⟩, rfl, rfl⟩
  · push Not at hpkt
    exact ⟨s, processAck_reject fun ab sm hd => Or.inl (hpkt ab sm hd), h, Grows.refl s, rfl, rfl⟩

theorem SenderInv.processAck (h : SenderInv s) {pkt : Packet} {t : SenderState}
    (hrun : processAck s pkt = some t) :
    SenderInv t ∧ Grows s t ∧ t.nextSeq = s.nextSeq ∧ t.sentTime = s.sentTime := by
  obtain ⟨u, hu, hinv⟩ := processAck_inv h pkt
  obtain rfl := Option.some.inj (hrun.symm.trans hu)
  exact hinv

theorem drain_inv (h : SenderInv s) (pkts : List Packet) :
    ∃ s', pkts.foldlM processAck s = some s' ∧ SenderInv s' ∧ Grows s s' ∧
      s'.nextSeq = s.nextSeq ∧ s'.sentTime = s.sentTime := by
  induction pkts generalizing s with
  | nil => exact ⟨s, rfl, h, Grows.refl s, rfl, rfl⟩
  | cons pkt pkts ih =>
    obtain ⟨u, hu, hinv, hgrows, hnext, htime⟩ := processAck_inv h pkt
    obtain ⟨t, ht, hinv', hgrows', hnext', htime'⟩ := ih hinv
    exact ⟨t, by rw [List.foldlM_cons, hu, Option.bind_eq_bind, Option.bind_some, ht], hinv',
      hgrows.trans hgrows', hnext'.trans hnext, htime'.trans htime⟩

theorem SenderInv.card_unackedBelow (h : SenderInv s) (k : ℕ) :
    (s.unackedBelow (s.nextSeq + k)).card = s.unacked.card + k := by
  induction k with
  | zero => rfl
  | succ k ih =>
    have hnot : ¬ s.Acked (s.nextSeq + k) := fun ha => by have := h.acked_lt _ ha; omega
    have hbase : s.sendBase ≤ s.nextSeq + k := Nat.le_add_right_of_le h.sized.base_le
    rw [← Nat.add_assoc, SenderState.card_unackedBelow_succ hbase, ih, if_neg hnot, Nat.add_assoc]

theorem SenderInv.card_unacked_afterSend (h : SenderInv s) (ts : List ℤ) :
    (s.afterSend ts).unacked.card = s.unacked.card + s.refill := h.card_unackedBelow s.refill

theorem SenderInv.transmitted_lt (h : SenderInv s) {now : ℤ} {i : ℕ}
    (hi : i ∈ s.transmitted now) : i < s.totalPkts := by
  have := h.sized.next_le
  have : s.refill ≤ s.totalPkts - s.nextSeq := min_le_left _ _
  rcases SenderState.mem_transmitted.mp hi with hi | hi <;> omega

theorem SenderInv.afterSend (h : SenderInv s) {ts : List ℤ} (hlen : ts.length = s.totalPkts) :
    SenderInv (s.afterSend ts) where
  sized := by
    have := h.sized.base_le
    have := h.sized.next_le
    refine ⟨h.sized.packetBuffer, h.sized.acked, hlen, ?_, ?_⟩ <;>
      simp only [SenderState.afterSend, SenderState.refill] <;> omega
  acked_below := h.acked_below
  acked_lt i hi := Nat.lt_add_right _ (h.acked_lt i hi)
  acked_span := h.acked_span
  unacked_le := by
    have := h.unacked_le
    rw [h.card_unacked_afterSend, SenderState.refill]
    omega

/-- The loop that opens the window stops at its limit or at the end of the file. -/
theorem SenderInv.full_afterSend (h : SenderInv s) (ts : List ℤ) :
    (s.afterSend ts).nextSeq = s.totalPkts ∨ (s.afterSend ts).unacked.card = window := by
  -- `refill` is the smaller of what is left of the file and of the window
  have := h.unacked_le
  have := h.sized.next_le
  rw [h.card_unacked_afterSend]
  simp only [SenderState.afterSend, SenderState.refill]
  omega

theorem Timed.congr {s u : SenderState} (h : Timed s) (hnext : u.nextSeq = s.nextSeq)
    (htime : u.sentTime = s.sentTime) : Timed u := by
  intro i t hit
  rw [htime] at hit
  rw [hnext]
  exact h i t hit

theorem Timed.afterSend (h : Timed s) {now : ℤ} (hnow : 0 < now) {ts : List ℤ}
    (hts : s.Stamped now (· ∈ s.transmitted now) ts) : Timed (s.afterSend ts) := by
  intro i t ht
  dsimp only [SenderState.afterSend] at ht ⊢
  rw [hts.2] at ht
  split_ifs at ht with hi
  · obtain rfl := Option.some.inj ht
    rcases SenderState.mem_transmitted.mp hi with hi | hi <;> simp only [hnow, true_iff] <;> omega
  · have hnot : ¬ (s.nextSeq ≤ i ∧ i < s.nextSeq + s.refill) :=
      fun hnew => hi (SenderState.mem_transmitted.mpr (Or.inr hnew))
    rw [h i t ht]
    omega

theorem grows_afterSend (s : SenderState) (ts : List ℤ) : Grows s (s.afterSend ts) :=
  ⟨rfl, rfl, le_rfl, Nat.le_add_right _ _, fun _ => id⟩

/-- The window spans at most thirty-two places. -/
theorem SenderInv.next_le_base_add (h : SenderInv s) : s.nextSeq ≤ s.sendBase + 32 :=
  SelectiveRepeat.window_span (w := sackBits) (W := window) h.acked_span h.unacked_le

theorem senderIteration_inv (h : SenderInv s) (ht : Timed s) {now : ℤ} (hnow : 0 < now)
    (pkts : List Packet) :
    ∃ it, senderIteration s now pkts = some it ∧ SenderInv it.state ∧ Timed it.state ∧
      Grows s it.state ∧ (it.left = false →
        it.state.nextSeq = it.state.totalPkts ∨ it.state.unacked.card = window) := by
  obtain ⟨u, hu, hinv, hgrows, hnext, htime⟩ := drain_inv h pkts
  have htu := ht.congr hnext htime
  by_cases hdone : u.sendBase ≥ u.totalPkts
  · exact ⟨⟨u, [], true⟩, by simp [senderIteration, hu, hdone], hinv, htu, hgrows, by simp⟩
  · obtain ⟨ts, hsend, hts⟩ := sendPhase_spec hinv.sized now
    exact ⟨⟨u.afterSend ts, (u.transmitted now).map u.packet, false⟩,
      by simp [senderIteration, hu, hdone, hsend], hinv.afterSend hts.1, htu.afterSend hnow hts,
      hgrows.trans (grows_afterSend u ts), fun _ => hinv.full_afterSend ts⟩

/-- The loop of the sender over the clock readings and arrivals of its iterations,
as long as the loop lasts. -/
def senderLoop : SenderState → List (ℤ × List Packet) → Option (List Iteration)
  | _, [] => some []
  | s, (now, pkts) :: inputs =>
    if s.sendBase < s.totalPkts then do
      let it ← senderIteration s now pkts
      if it.left then some [it]
      else
        let its ← senderLoop it.state inputs
        some (it :: its)
    else some []

structure Boundary (s : SenderState) : Prop where
  base_le : s.sendBase ≤ s.nextSeq
  next_le : s.nextSeq ≤ s.totalPkts
  acked_below : ∀ i < s.sendBase, s.Acked i
  not_acked : ∀ i, s.nextSeq ≤ i → ¬ s.Acked i
  stamped : ∀ i < s.totalPkts, ∃ t, s.sentTime[i]? = some t ∧ (0 < t ↔ i < s.nextSeq)
  unacked_le : s.unacked.card ≤ 16
  span : s.nextSeq ≤ s.sendBase + 32

theorem SenderInv.boundary (h : SenderInv s) (ht : Timed s) : Boundary s where
  base_le := h.sized.base_le
  next_le := h.sized.next_le
  acked_below := h.acked_below
  not_acked i hi ha := absurd (h.acked_lt i ha) (by omega)
  stamped i hi := by
    obtain ⟨t, hread⟩ : ∃ t, s.sentTime[i]? = some t :=
      ⟨_, List.getElem?_eq_getElem (h.sized.sentTime ▸ hi)⟩
    exact ⟨t, hread, ht i t hread⟩
  unacked_le := h.unacked_le
  span := h.next_le_base_add

theorem senderLoop_inv (inputs : List (ℤ × List Packet)) (hclock : ∀ input ∈ inputs, 0 < input.1)
    (h : SenderInv s) (ht : Timed s) :
    ∃ its, senderLoop s inputs = some its ∧
      (∀ it ∈ its, SenderInv it.state ∧ Timed it.state ∧ Grows s it.state ∧ (it.left = false →
        it.state.nextSeq = it.state.totalPkts ∨ it.state.unacked.card = window)) ∧
      (its.map Iteration.state).Pairwise Grows := by
  -- along the inputs: `Grows` composes, so it holds between any two boundaries
  induction inputs generalizing s with
  | nil => exact ⟨[], rfl, by simp, List.Pairwise.nil⟩
  | cons input inputs ih =>
    obtain ⟨now, pkts⟩ := input
    by_cases hloop : s.sendBase < s.totalPkts
    · obtain ⟨it, hit, hinv, htimed, hgrows, hfull⟩ :=
        senderIteration_inv h ht (hclock (now, pkts) (by simp)) pkts
      by_cases hleft : it.left
      · exact ⟨[it], by simp [senderLoop, hloop, hit, hleft],
          by simpa using ⟨hinv, htimed, hgrows, hfull⟩, List.pairwise_singleton _ _⟩
      · obtain ⟨its, hits, hall, hpair⟩ :=
          ih (fun input hin => hclock input (List.mem_cons_of_mem _ hin)) hinv htimed
        refine ⟨it :: its, by simp [senderLoop, hloop, hit, hleft, hits], ?_, ?_⟩
        · rintro it' (_ | ⟨_, hmem⟩)
          · exact ⟨hinv, htimed, hgrows, hfull⟩
          · obtain ⟨h1, h2, h3, h4⟩ := hall it' hmem
            exact ⟨h1, h2, hgrows.trans h3, h4⟩
        · rw [List.map_cons, List.pairwise_cons]
          refine ⟨fun t htmem => ?_, hpair⟩
          obtain ⟨it', hmem, rfl⟩ := List.mem_map.mp htmem
          exact (hall it' hmem).2.2.1
    · exact ⟨[], by simp [senderLoop, hloop], by simp, List.Pairwise.nil⟩

/-- Against any peer, with positive clock readings: all accesses are in range, the
boundary conditions hold, and nothing shrinks from one boundary to a later one. -/
theorem sender_invariants (packets : List Packet) (inputs : List (ℤ × List Packet))
    (hclock : ∀ input ∈ inputs, 0 < input.1) :
    ∃ its, senderLoop (senderStart packets) inputs = some its ∧
      (∀ s ∈ senderStart packets :: its.map Iteration.state, Boundary s) ∧
      (∀ it ∈ its, it.left = false →
        it.state.nextSeq = it.state.totalPkts ∨ it.state.unacked.card = 16) ∧
      (senderStart packets :: its.map Iteration.state).Pairwise Grows := by
  obtain ⟨its, hrun, hall, hpair⟩ := senderLoop_inv inputs hclock (senderStart_inv packets)
    (senderStart_timed packets)
  refine ⟨its, hrun, ?_, fun it hit => (hall it hit).2.2.2, ?_⟩
  · rintro s (_ | ⟨_, hmem⟩)
    · exact (senderStart_inv packets).boundary (senderStart_timed packets)
    · obtain ⟨it, hit, rfl⟩ := List.mem_map.mp hmem
      exact (hall it hit).1.boundary (hall it hit).2.1
  · rw [List.pairwise_cons]
    refine ⟨fun t htmem => ?_, hpair⟩
    obtain ⟨it, hit, rfl⟩ := List.mem_map.mp htmem
    exact (hall it hit).2.2.1

theorem sender_invariants_two :
    ∃ its, senderLoop (senderStart [[0], [1]])
        [(1, []), (5, [buildAckPacket 0 2]), (9, [buildAckPacket 2 0])] = some its ∧
      ∀ s ∈ senderStart [[0], [1]] :: its.map Iteration.state, Boundary s := by
  obtain ⟨its, hrun, hboundary, -⟩ := sender_invariants [[0], [1]]
    [(1, []), (5, [buildAckPacket 0 2]), (9, [buildAckPacket 2 0])] (by decide)
  exact ⟨its, hrun, hboundary⟩

end RdtChallenge
