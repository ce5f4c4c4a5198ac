import RdtChallenge.Receiver

namespace RdtChallenge

structure ReceiverInv (r : ReceiverState) : Prop where
  sized : r.Sized
  least : r.Least
  lastAck : r.lastAck = [] ∧ (∀ i, ¬ r.Held i) ∨
    ∃ mask, r.lastAck = buildAckPacket r.recvExpected mask ∧ r.Masked mask

theorem receiverStart_inv (now : ℤ) : ReceiverInv (receiverStart now) :=
  ⟨receiverStart_sized now, receiverStart_least now,
    Or.inl ⟨rfl, fun i => by simp [ReceiverState.Held, receiverStart]⟩⟩

variable {r : ReceiverState}

theorem receiveData_of_undecodable {packet : Packet} (hd : decode typeData packet = none)
    (now : ℤ) :
    receiveData r packet now = some ⟨r, [], false⟩ := by
  simp [receiveData, acceptsData_eq, hd]

theorem receiveData_of_mismatch {packet : Packet} {seq total : ℕ}
    (hd : decode typeData packet = some (seq, total)) (h0 : r.expectedTotal ≠ 0)
    (hne : total ≠ r.expectedTotal) (now : ℤ) :
    receiveData r packet now = some ⟨r, [], false⟩ := by
  obtain ⟨-, hseq, htotal⟩ := parse_of_decode hd
  simp [receiveData, acceptsData_eq, hd, hseq, htotal, announce_of_pos h0, hne]

structure Stored (r r' : ReceiverState) (seq total : ℕ) (data : List Value) : Prop where
  expectedTotal : r'.expectedTotal = total
  recvExpected : r.recvExpected ≤ r'.recvExpected
  held : ∀ i, r'.Held i ↔ r.Held i ∨ i = seq ∧ i < total
  buffer : ∀ i, r'.Held i →
    r'.recvBuffer[i]? = if r.Held i then r.recvBuffer[i]? else some data
  blank : ∀ i < total, ¬ r'.Held i →
    r'.recvBuffer[i]? = if r.expectedTotal = 0 then some [] else r.recvBuffer[i]?

theorem receiveData_accept (h : ReceiverInv r) {packet : Packet} {seq total : ℕ}
    (hd : decode typeData packet = some (seq, total))
    (ht : r.expectedTotal = 0 ∨ total = r.expectedTotal) (now : ℤ) :
    ∃ r' mask, receiveData r packet now = some ⟨{ r' with
          lastAck := buildAckPacket r'.recvExpected mask, lastRecvTime := now },
        [buildAckPacket r'.recvExpected mask], r'.recvExpected ≥ r'.expectedTotal⟩ ∧
      r'.Sized ∧ r'.Least ∧ r'.Masked mask ∧
      Stored r r' seq total (packet.drop dataHeader) := by
  obtain ⟨-, hseq, htotal⟩ := parse_of_decode hd
  have hann := announce_expectedTotal h.sized ht
  have hsized := announce_sized h.sized total
  have hleast := announce_least h.sized h.least total
  obtain ⟨b, v, hstore, hblen, hvlen, hv, hb⟩ := store_spec hsized seq packet
  -- the receiver after the payload is stored, before `recvExpected` moves
  set r₁ : ReceiverState := { announce total r with recvBuffer := b, received := v }
  have hheld₁ : ∀ i, r₁.Held i ↔ r.Held i ∨ i = seq ∧ i < total := fun i => by
    rw [ReceiverState.Held, hv i, announce_held h.sized, hann]
  have hsized₁ : r₁.Sized := ⟨hblen, hvlen⟩
  have hbase : r₁.recvExpected = r.recvExpected := announce_recvExpected total
  obtain ⟨k, hadv, hk, hleast₂⟩ := advance_spec hsized₁ hleast.le
    (fun i hi => (hheld₁ i).mpr (Or.inl ((announce_held h.sized total i).mp (hleast.below i hi))))
  have hsized₂ : ReceiverState.Sized { r₁ with recvExpected := k } := ⟨hblen, hvlen⟩
  obtain ⟨mask, hmask, hmasked⟩ := sackMask_spec hsized₂
  refine ⟨{ r₁ with recvExpected := k }, mask, ?_, hsized₂, hleast₂, hmasked, hann,
    hbase ▸ hk, hheld₁, fun i hi => ?_, fun i hi hmiss => ?_⟩
  · simp only [receiveData, acceptsData_eq, hd, hseq, htotal, hann, hstore, hadv, hmask,
      Option.isSome_some, Option.bind_eq_bind, Option.bind_some, if_true, ne_eq, not_true_eq_false,
      if_false]
  · have hlt : i < r₁.expectedTotal := ReceiverState.Held.lt hsized₁ hi
    dsimp only
    rw [hb i]
    by_cases hheld : r.Held i
    · have hnz : r.expectedTotal ≠ 0 := by have := hheld.lt h.sized; omega
      rw [if_neg (fun hc => hc.2.2 ((announce_held h.sized total i).mpr hheld)), if_pos hheld,
        announce_of_pos hnz]
    · have hnew : i = seq := (((hheld₁ i).mp hi).resolve_left hheld).1
      rw [if_pos ⟨hnew, hlt, fun hc => hheld ((announce_held h.sized total i).mp hc)⟩,
        if_neg hheld]
  · -- an entry that stays missing is not the one written
    have hother : i ≠ seq := fun he => hmiss ((hheld₁ i).mpr (Or.inr ⟨he, hi⟩))
    dsimp only
    rw [hb i, if_neg fun hc => hother hc.1]
    by_cases h0 : r.expectedTotal = 0
    · rw [announce_of_zero h.sized h0, if_pos h0, List.getElem?_replicate, if_pos hi]
    · rw [announce_of_pos h0, if_neg h0]

theorem receiveData_accept_inv {r' : ReceiverState} {mask : BitVec 16} (hs : r'.Sized)
    (hl : r'.Least) (hm : r'.Masked mask) (now : ℤ) :
    ReceiverInv { r' with
      lastAck := buildAckPacket r'.recvExpected mask, lastRecvTime := now } :=
  ⟨⟨hs.recvBuffer, hs.received⟩, ⟨hl.le, hl.below, hl.missing⟩, Or.inr ⟨mask, rfl, hm⟩⟩

/-- All that an iteration can do with a packet: drop it without an answer, or take it. -/
theorem receiveData_cases (h : ReceiverInv r) (packet : Packet) (now : ℤ) :
    (receiveData r packet now = some ⟨r, [], false⟩ ∧
      ∀ seq total, decode typeData packet = some (seq, total) →
        r.expectedTotal ≠ 0 ∧ total ≠ r.expectedTotal) ∨
    ∃ seq total r' mask, decode typeData packet = some (seq, total) ∧
      (r.expectedTotal = 0 ∨ total = r.expectedTotal) ∧
      receiveData r packet now = some ⟨{ r' with
          lastAck := buildAckPacket r'.recvExpected mask, lastRecvTime := now },
        [buildAckPacket r'.recvExpected mask], r'.recvExpected ≥ r'.expectedTotal⟩ ∧
      ReceiverInv { r' with
        lastAck := buildAckPacket r'.recvExpected mask, lastRecvTime := now } ∧
      r'.Masked mask ∧ Stored r r' seq total (packet.drop dataHeader) := by
  cases hd : decode typeData packet with
  | none => exact Or.inl ⟨receiveData_of_undecodable hd now, by simp⟩
  | some fields =>
    obtain ⟨seq, total⟩ := fields
    by_cases ht : r.expectedTotal = 0 ∨ total = r.expectedTotal
    · obtain ⟨r', mask, hrun, hsized, hleast, hmasked, hstored⟩ := receiveData_accept h hd ht now
      exact Or.inr ⟨seq, total, r', mask, rfl, ht, hrun,
        receiveData_accept_inv hsized hleast hmasked now, hmasked, hstored⟩
    · push Not at ht
      refine Or.inl ⟨receiveData_of_mismatch hd ht.1 ht.2 now, fun seq' total' heq => ?_⟩
      obtain ⟨-, rfl⟩ := Prod.mk.inj (Option.some.inj heq)
      exact ht

theorem ReceiverInv.keepAlive (h : ReceiverInv r) (now : ℤ) :
    ReceiverInv (keepAlive r now).state := by
  unfold RdtChallenge.keepAlive
  split_ifs
  · exact ⟨⟨h.sized.recvBuffer, h.sized.received⟩, ⟨h.least.le, h.least.below, h.least.missing⟩,
      h.lastAck⟩
  · exact h

theorem reassemble_eq (parts : ℕ → List Value)
    (hb : ∀ i < r.expectedTotal, r.recvBuffer[i]? = some (parts i)) :
    reassemble r = some ((List.range r.expectedTotal).map parts).flatten := by
  rw [reassemble, Loops.mapM_eq_some fun i hi => hb i (List.mem_range.mp hi)]
  rfl

end RdtChallenge
