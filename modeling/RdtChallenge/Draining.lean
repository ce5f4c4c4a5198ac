import Mathlib.Order.Bounds.Basic
import RdtChallenge.ReceiverLoop

namespace RdtChallenge

/-- The packet passes the tests of the draining loop, which reads these two values. -/
structure Acceptable (s : SenderState) (pkt : Packet) (ab sm : ℕ) : Prop where
  accepted : acceptsAck pkt = some true
  fields : ackFields pkt = some (ab, sm)
  ab_le_next : ab ≤ s.nextSeq
  ab_le_total : ab ≤ s.totalPkts

def Sacks (s : SenderState) (ab sm i : ℕ) : Prop :=
  ∃ j < sackBits, sm.testBit j ∧ i = ab + j ∧ i < s.nextSeq

/-- The bases the sender may take from these packets, its own included. -/
def bases (s : SenderState) (pkts : List Packet) : Set ℕ :=
  insert s.sendBase {ab | ∃ pkt ∈ pkts, ∃ sm, Acceptable s pkt ab sm}

def sackedBy (s : SenderState) (pkts : List Packet) : Set ℕ :=
  {i | ∃ pkt ∈ pkts, ∃ ab sm, Acceptable s pkt ab sm ∧ Sacks s ab sm i}

/-- The sender after the packets, as a function of the set of them. -/
structure Drained (s : SenderState) (pkts : List Packet) (t : SenderState) : Prop where
  frame : t = { s with acked := t.acked, sendBase := t.sendBase }
  length : t.acked.length = s.totalPkts
  base : IsGreatest (bases s pkts) t.sendBase
  acked : {i | t.Acked i} = {i | s.Acked i} ∪ Set.Iio t.sendBase ∪ sackedBy s pkts

variable {s t : SenderState} {pkt : Packet} {pkts pkts' : List Packet}

theorem acceptable_iff {ab sm : ℕ} : Acceptable s pkt ab sm ↔
    decode typeAck pkt = some (ab, sm) ∧ ab ≤ s.nextSeq ∧ ab ≤ s.totalPkts := by
  constructor
  · rintro ⟨hacc, hfields, hnext, htotal⟩
    rw [acceptsAck_eq, Option.some.injEq] at hacc
    obtain ⟨⟨ab', sm'⟩, hd⟩ := Option.isSome_iff_exists.mp hacc
    obtain ⟨t, a, b, c, d, e, rest, rfl, rfl, rfl⟩ := exists_of_decode hd
    obtain ⟨rfl, rfl⟩ : word a b = ab ∧ word c d = sm := by simpa [ackFields] using hfields
    exact ⟨hd, hnext, htotal⟩
  · rintro ⟨hd, hnext, htotal⟩
    refine ⟨by rw [acceptsAck_eq, hd]; rfl, ?_, hnext, htotal⟩
    obtain ⟨t, a, b, c, d, e, rest, rfl, rfl, rfl⟩ := exists_of_decode hd
    rfl

theorem Acceptable.congr {ab sm : ℕ} (hnext : t.nextSeq = s.nextSeq)
    (htotal : t.totalPkts = s.totalPkts) : Acceptable t pkt ab sm ↔ Acceptable s pkt ab sm := by
  rw [acceptable_iff, acceptable_iff, hnext, htotal]

theorem bases_append : bases s (pkts ++ pkts') = bases s pkts ∪ bases s pkts' := by
  ext ab
  simp only [bases, List.mem_append, or_and_right, exists_or, Set.mem_insert_iff, Set.mem_union,
    Set.mem_ofPred_eq]
  exact or_or_distrib_left

theorem sackedBy_append : sackedBy s (pkts ++ pkts') = sackedBy s pkts ∪ sackedBy s pkts' := by
  ext i
  simp only [sackedBy, List.mem_append, or_and_right, exists_or, Set.mem_union, Set.mem_ofPred_eq]

theorem bases_congr (h : ∀ pkt, pkt ∈ pkts ↔ pkt ∈ pkts') : bases s pkts = bases s pkts' := by
  simp only [bases, h]

theorem sackedBy_congr (h : ∀ pkt, pkt ∈ pkts ↔ pkt ∈ pkts') :
    sackedBy s pkts = sackedBy s pkts' := by
  simp only [sackedBy, h]

theorem bases_le_next (h : s.Sized) {b : ℕ} (hb : b ∈ bases s pkts) : b ≤ s.nextSeq := by
  rcases hb with rfl | ⟨pkt, -, sm, hacc⟩
  · exact h.base_le
  · exact hacc.ab_le_next

theorem drained_of_rejected (h : s.Sized) (hbelow : ∀ i < s.sendBase, s.Acked i)
    (hno : ∀ pkt ∈ pkts, ∀ ab sm, ¬ Acceptable s pkt ab sm) : Drained s pkts s := by
  have hbases : bases s pkts = {s.sendBase} := by
    ext ab
    simp only [bases, Set.mem_insert_iff, Set.mem_ofPred_eq, Set.mem_singleton_iff]
    exact or_iff_left fun ⟨pkt, hpkt, sm, hacc⟩ => hno pkt hpkt ab sm hacc
  have hsacked : sackedBy s pkts = ∅ := by
    apply Set.eq_empty_of_forall_notMem
    rintro i ⟨pkt, hpkt, ab, sm, hacc, -⟩
    exact hno pkt hpkt ab sm hacc
  refine ⟨rfl, h.acked, hbases ▸ isGreatest_singleton, ?_⟩
  have hsub : Set.Iio s.sendBase ⊆ {i | s.Acked i} := hbelow
  rw [hsacked, Set.union_empty, Set.union_eq_left.mpr hsub]

theorem drain_one (h : s.Sized) (hbelow : ∀ i < s.sendBase, s.Acked i) (pkt : Packet) :
    ∃ u, processAck s pkt = some u ∧ Drained s [pkt] u := by
  by_cases hpkt : ∃ ab sm, Acceptable s pkt ab sm
  · obtain ⟨ab, sm, hacc⟩ := hpkt
    obtain ⟨hd, hnext, htotal⟩ := acceptable_iff.mp hacc
    obtain ⟨v, hrun, hlen, hv⟩ := processAck_accept h hd hnext
    -- a packet has at most one reading
    have hunique : ∀ ab' sm', Acceptable s pkt ab' sm' ↔ ab' = ab ∧ sm' = sm := by
      intro ab' sm'
      refine ⟨fun hacc' => ?_, fun heq => heq.1 ▸ heq.2 ▸ hacc⟩
      exact Prod.mk.inj (Option.some.inj ((acceptable_iff.mp hacc').1.symm.trans hd))
    refine ⟨_, hrun, rfl, hlen, ?_, ?_⟩
    · have hbases : bases s [pkt] = {s.sendBase, ab} := by
        ext ab'
        simp [bases, hunique]
      rw [hbases]
      exact isGreatest_pair
    · ext i
      simp only [SenderState.Acked, sackedBy, List.mem_singleton, Set.mem_union, Set.mem_ofPred_eq,
        Set.mem_Iio, exists_eq_left, hunique, hv]
      constructor
      · rintro (hi | hi | hi)
        · exact Or.inl (Or.inl hi)
        · exact Or.inl (Or.inr (lt_max_of_lt_right hi.2))
        · exact Or.inr ⟨ab, sm, ⟨rfl, rfl⟩, hi⟩
      · rintro ((hi | hi) | ⟨_, _, ⟨rfl, rfl⟩, hi⟩)
        · exact Or.inl hi
        · by_cases hbase : i < s.sendBase
          · exact Or.inl (hbelow i hbase)
          · exact Or.inr (Or.inl ⟨by omega, by omega⟩)
        · exact Or.inr (Or.inr hi)
  · push Not at hpkt
    refine ⟨s, processAck_reject fun ab sm hd => ?_,
      drained_of_rejected h hbelow (by simpa using hpkt)⟩
    have := hpkt ab sm
    rw [acceptable_iff] at this
    simp only [hd, true_and] at this
    omega

namespace Drained

theorem nextSeq_eq (h : Drained s pkts t) : t.nextSeq = s.nextSeq := by rw [h.frame]

theorem totalPkts_eq (h : Drained s pkts t) : t.totalPkts = s.totalPkts := by rw [h.frame]

theorem base_le (h : Drained s pkts t) : s.sendBase ≤ t.sendBase :=
  h.base.2 (Set.mem_insert _ _)

theorem sized (h : Drained s pkts t) (hs : s.Sized) : t.Sized := by
  have hnext : t.sendBase ≤ s.nextSeq := bases_le_next hs h.base.1
  rw [h.frame]
  exact ⟨hs.packetBuffer, h.length, hs.sentTime, hnext, hs.next_le⟩

theorem below (h : Drained s pkts t) {i : ℕ} (hi : i < t.sendBase) : t.Acked i := by
  show i ∈ {i | t.Acked i}
  rw [h.acked]
  exact Or.inl (Or.inr hi)

theorem keeps (h : Drained s pkts t) {i : ℕ} (hi : s.Acked i) : t.Acked i := by
  show i ∈ {i | t.Acked i}
  rw [h.acked]
  exact Or.inl (Or.inl hi)

theorem sackedBy_eq (h : Drained s pkts t) : sackedBy t pkts' = sackedBy s pkts' := by
  ext i
  simp only [sackedBy, Sacks, Set.mem_ofPred_eq, Acceptable.congr h.nextSeq_eq h.totalPkts_eq,
    h.nextSeq_eq]

theorem bases_eq (h : Drained s pkts t) :
    insert s.sendBase (bases t pkts') = insert t.sendBase (bases s pkts') := by
  ext b
  simp only [bases, Set.mem_insert_iff, Set.mem_ofPred_eq,
    Acceptable.congr h.nextSeq_eq h.totalPkts_eq]
  tauto

theorem append {u : SenderState} (h : Drained s pkts u) (h' : Drained u pkts' t) :
    Drained s (pkts ++ pkts') t := by
  refine ⟨?_, ?_, ⟨?_, ?_⟩, ?_⟩
  · rw [h'.frame, h.frame]
  · rw [h'.length, h.totalPkts_eq]
  · -- the greatest base is the old one, or comes from one of the lists
    have hmem : t.sendBase ∈ insert u.sendBase (bases s pkts') :=
      h.bases_eq ▸ Set.mem_insert_of_mem _ h'.base.1
    rw [bases_append]
    rcases hmem with heq | hmem
    · exact Or.inl (heq ▸ h.base.1)
    · exact Or.inr hmem
  · intro b hb
    rw [bases_append] at hb
    rcases hb with hb | hb
    · exact (h.base.2 hb).trans h'.base_le
    · have hb' : b ∈ insert s.sendBase (bases u pkts') :=
        h.bases_eq ▸ Set.mem_insert_of_mem _ hb
      rcases hb' with rfl | hb'
      · exact h.base_le.trans h'.base_le
      · exact h'.base.2 hb'
  · have hsub : Set.Iio u.sendBase ⊆ Set.Iio t.sendBase := Set.Iio_subset_Iio h'.base_le
    rw [h'.acked, h.acked, h.sackedBy_eq, sackedBy_append]
    ext i
    have := @hsub i
    simp only [Set.mem_union]
    tauto

/-- The result is determined by the set of packets. -/
theorem unique {t' : SenderState} (h : Drained s pkts t) (h' : Drained s pkts' t')
    (hsame : ∀ pkt, pkt ∈ pkts ↔ pkt ∈ pkts') : t = t' := by
  have hbase : t.sendBase = t'.sendBase :=
    h.base.unique (bases_congr (s := s) hsame ▸ h'.base)
  have hacked : t.acked = t'.acked := by
    have hset : {i | t.Acked i} = {i | t'.Acked i} := by
      rw [h.acked, h'.acked, hbase, sackedBy_congr hsame]
    apply List.ext_getElem (h.length.trans h'.length.symm)
    intro i hi hi'
    have hiff : t.Acked i ↔ t'.Acked i := by
      show i ∈ {i | t.Acked i} ↔ i ∈ {i | t'.Acked i}
      rw [hset]
    simpa [SenderState.Acked, hi, hi'] using hiff
  rw [h.frame, h'.frame, hbase, hacked]

end Drained

theorem drain_drained (h : s.Sized) (hbelow : ∀ i < s.sendBase, s.Acked i) (pkts : List Packet) :
    ∃ t, pkts.foldlM processAck s = some t ∧ Drained s pkts t := by
  -- the hypotheses carry over from one packet to the next
  induction pkts generalizing s with
  | nil => exact ⟨s, rfl, drained_of_rejected h hbelow (by simp)⟩
  | cons pkt pkts ih =>
    obtain ⟨u, hu, hone⟩ := drain_one h hbelow pkt
    obtain ⟨t, ht, hrest⟩ := ih (hone.sized h) fun i => hone.below
    refine ⟨t, ?_, hone.append hrest⟩
    rw [List.foldlM_cons, hu, Option.bind_eq_bind, Option.bind_some, ht]

/-- Order and repetition of the packets do not matter, and nothing the sender knows is
taken back. -/
theorem drain_order_immaterial (h : s.Sized) (hbelow : ∀ i < s.sendBase, s.Acked i)
    (pkts : List Packet) :
    ∃ t, pkts.foldlM processAck s = some t ∧ Drained s pkts t ∧
      s.sendBase ≤ t.sendBase ∧ (∀ i, s.Acked i → t.Acked i) ∧
      ∀ pkts' : List Packet, (∀ pkt, pkt ∈ pkts ↔ pkt ∈ pkts') →
        pkts'.foldlM processAck s = some t := by
  obtain ⟨t, ht, hdrained⟩ := drain_drained h hbelow pkts
  refine ⟨t, ht, hdrained, hdrained.base_le, fun i => hdrained.keeps, fun pkts' hsame => ?_⟩
  obtain ⟨t', ht', hdrained'⟩ := drain_drained h hbelow pkts'
  rw [ht', hdrained.unique hdrained' hsame]

theorem drain_order_immaterial_four :
    ∃ s t : SenderState, s.sendBase = 1 ∧ s.nextSeq = 4 ∧
      [buildAckPacket 0 2, buildAckPacket 2 2].foldlM processAck s = some t ∧
      [buildAckPacket 2 2, buildAckPacket 0 2, buildAckPacket 2 2].foldlM processAck s =
        some t := by
  let s : SenderState := ⟨[[], [], [], []], [true, false, false, false], [1, 1, 1, 1], 1, 4, 4⟩
  have hsized : s.Sized := by constructor <;> decide
  have hbelow : ∀ i < s.sendBase, s.Acked i := by decide
  obtain ⟨t, ht, -, -, -, hall⟩ :=
    drain_order_immaterial hsized hbelow [buildAckPacket 0 2, buildAckPacket 2 2]
  refine ⟨s, t, rfl, rfl, ht, hall _ fun pkt => ?_⟩
  simp only [List.mem_cons, List.not_mem_nil, or_false]
  tauto

end RdtChallenge
