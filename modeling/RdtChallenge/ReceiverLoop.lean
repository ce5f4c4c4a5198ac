import RdtChallenge.ReceiverInvariant

namespace RdtChallenge

/-- What a call of `receivePacket` gives, with the clock reading of that iteration. -/
inductive Poll
  | packet (packet : Packet) (now : ℤ)
  | idle (now : ℤ)
deriving DecidableEq

def pollOnce (r : ReceiverState) : Poll → Option Reception
  | .packet packet now => receiveData r packet now
  | .idle now => some (keepAlive r now)

/-- The iterations of the loop, the last one of which may break out of it. -/
def receiverLoop : ReceiverState → List Poll → Option (List Reception)
  | _, [] => some []
  | r, poll :: polls => do
    let b ← pollOnce r poll
    if b.done then some [b]
    else
      let bs ← receiverLoop b.state polls
      some (b :: bs)

/-- Lines 121 and 122: what the sender reads as `ab` and `sm`. -/
def ackFields (pkt : Packet) : Option (ℕ × ℕ) := do
  some (word (← pkt[1]?) (← pkt[2]?), word (← pkt[3]?) (← pkt[4]?))

/-- The acknowledgement passes the sender's tests and says what is held. -/
structure Truthful (r : ReceiverState) (ack : Packet) (base mask : ℕ) : Prop where
  length : ack.length = ackHeader
  accepted : acceptsAck ack = some true
  fields : ackFields ack = some (base, mask)
  base_le : base ≤ r.expectedTotal
  below : ∀ i < base, r.Held i
  missing : base < r.expectedTotal → ¬ r.Held base
  mask_iff : ∀ i < 16, mask.testBit i ↔ base + i < r.expectedTotal ∧ r.Held (base + i)
  no_bit_zero : mask.testBit 0 = false

structure Keeps (r r' : ReceiverState) : Prop where
  expectedTotal : r.expectedTotal ≠ 0 → r'.expectedTotal = r.expectedTotal
  recvExpected : r.recvExpected ≤ r'.recvExpected
  held : ∀ i, r.Held i → r'.Held i
  recvBuffer : ∀ i, r.Held i → r'.recvBuffer[i]? = r.recvBuffer[i]?

theorem Keeps.refl (r : ReceiverState) : Keeps r r :=
  ⟨fun _ => rfl, le_rfl, fun _ => id, fun _ _ => rfl⟩

theorem Keeps.trans {r r' r'' : ReceiverState} (h : Keeps r r') (h' : Keeps r' r'') :
    Keeps r r'' where
  expectedTotal h0 := by
    have he := h.expectedTotal h0
    rw [h'.expectedTotal (he ▸ h0), he]
  recvExpected := h.recvExpected.trans h'.recvExpected
  held i hi := h'.held i (h.held i hi)
  recvBuffer i hi := (h'.recvBuffer i (h.held i hi)).trans (h.recvBuffer i hi)

variable {r : ReceiverState}

structure ReceiverFit (r : ReceiverState) : Prop where
  inv : ReceiverInv r
  total_lt : r.expectedTotal < 2 ^ 16

theorem receiverStart_fit (now : ℤ) : ReceiverFit (receiverStart now) :=
  ⟨receiverStart_inv now, by simp [receiverStart]⟩

theorem ackFields_buildAckPacket {base : ℕ} (h : base < 2 ^ 16) (mask : BitVec 16) :
    ackFields (buildAckPacket base mask) = some (base, mask.toNat) := by
  simp only [ackFields, buildAckPacket, header, List.getElem?_cons_succ, List.getElem?_cons_zero,
    Option.bind_eq_bind, Option.bind_some, word_bytes]
  rw [Nat.mod_eq_of_lt h, Nat.mod_eq_of_lt mask.isLt]

theorem ReceiverFit.truthful (h : ReceiverFit r) {mask : BitVec 16} (hm : r.Masked mask) :
    Truthful r (buildAckPacket r.recvExpected mask) r.recvExpected mask.toNat where
  length := rfl
  accepted := by
    have := h.inv.least.le
    have := h.total_lt
    rw [acceptsAck_eq, decode_buildAckPacket (by omega)]
    rfl
  fields := by
    have := h.inv.least.le
    have := h.total_lt
    exact ackFields_buildAckPacket (by omega) mask
  base_le := h.inv.least.le
  below := h.inv.least.below
  missing _ := h.inv.least.missing
  mask_iff i hi := by
    rw [BitVec.testBit_toNat, hm i hi]
    exact ⟨fun hheld => ⟨hheld.lt h.inv.sized, hheld⟩, And.right⟩
  no_bit_zero := by
    rw [BitVec.testBit_toNat, ← Bool.not_eq_true, hm 0 (by decide)]
    exact h.inv.least.missing

structure Polled (r : ReceiverState) (b : Reception) : Prop where
  fit : ReceiverFit b.state
  keeps : Keeps r b.state
  truthful : ∀ ack ∈ b.sent, ∃ mask, Truthful b.state ack b.state.recvExpected mask

theorem ReceiverFit.ignored (h : ReceiverFit r) (done : Bool) : Polled r ⟨r, [], done⟩ :=
  ⟨h, Keeps.refl r, by simp⟩

theorem Stored.keeps {r' : ReceiverState} {seq total : ℕ} {data : List Value}
    (h : Stored r r' seq total data) (ht : r.expectedTotal = 0 ∨ total = r.expectedTotal) :
    Keeps r r' where
  expectedTotal h0 := h.expectedTotal.trans (ht.resolve_left h0)
  recvExpected := h.recvExpected
  held i hi := (h.held i).mpr (Or.inl hi)
  recvBuffer i hi := by rw [h.buffer i ((h.held i).mpr (Or.inl hi)), if_pos hi]

theorem ReceiverFit.receiveData (h : ReceiverFit r) (packet : Packet) (now : ℤ) :
    ∃ b, receiveData r packet now = some b ∧ Polled r b := by
  rcases receiveData_cases h.inv packet now with
    ⟨hrun, -⟩ | ⟨seq, total, r', mask, hd, ht, hrun, hinv, hmasked, hstored⟩
  · exact ⟨_, hrun, h.ignored false⟩
  · -- the total comes from two header bytes
    have hsmall : total < 2 ^ 16 := by
      obtain ⟨_, _, _, c, d, _, _, -, -, rfl⟩ := exists_of_decode hd
      exact word_lt c d
    have hfit : ReceiverFit { r' with
        lastAck := buildAckPacket r'.recvExpected mask, lastRecvTime := now } :=
      ⟨hinv, hstored.expectedTotal.symm ▸ hsmall⟩
    have hkeeps := hstored.keeps ht
    refine ⟨_, hrun, hfit, ⟨hkeeps.expectedTotal, hkeeps.recvExpected, hkeeps.held,
      hkeeps.recvBuffer⟩, fun ack hack => ?_⟩
    obtain rfl := List.mem_singleton.mp hack
    exact ⟨mask.toNat, hfit.truthful hmasked⟩

/-- What the keepalive repeats is still true: nothing has been stored since it was built. -/
theorem ReceiverFit.keepAlive (h : ReceiverFit r) (now : ℤ) :
    Polled r (RdtChallenge.keepAlive r now) := by
  have hinv := h.inv.keepAlive now
  unfold RdtChallenge.keepAlive at hinv ⊢
  split_ifs at hinv ⊢ with hc
  · have hfit : ReceiverFit { r with lastRecvTime := now } := ⟨hinv, h.total_lt⟩
    refine ⟨hfit, ⟨fun _ => rfl, le_rfl, fun _ => id, fun _ _ => rfl⟩, fun ack hack => ?_⟩
    obtain rfl := List.mem_singleton.mp hack
    obtain ⟨mask, hlast, hmasked⟩ := h.inv.lastAck.resolve_left fun hempty => hc.1 hempty.1
    have htruthful : Truthful { r with lastRecvTime := now }
        (buildAckPacket r.recvExpected mask) r.recvExpected mask.toNat := hfit.truthful hmasked
    rw [← hlast] at htruthful
    exact ⟨mask.toNat, htruthful⟩
  · exact h.ignored false

theorem pollOnce_spec (h : ReceiverFit r) (poll : Poll) :
    ∃ b, pollOnce r poll = some b ∧ Polled r b := by
  cases poll with
  | packet packet now => exact h.receiveData packet now
  | idle now => exact ⟨_, rfl, h.keepAlive now⟩

theorem receiverLoop_spec (h : ReceiverFit r) (polls : List Poll) :
    ∃ bs, receiverLoop r polls = some bs ∧ (∀ b ∈ bs, Polled r b) ∧
      bs.Pairwise fun b b' => Keeps b.state b'.state := by
  -- along the polls: `Keeps` composes, so it holds from each iteration to every later one
  induction polls generalizing r with
  | nil => exact ⟨[], rfl, by simp, List.Pairwise.nil⟩
  | cons poll polls ih =>
    obtain ⟨b, hb, hpolled⟩ := pollOnce_spec h poll
    by_cases hdone : b.done
    · exact ⟨[b], by simp [receiverLoop, hb, hdone], by simpa using hpolled,
        List.pairwise_singleton _ _⟩
    · obtain ⟨bs, hbs, hall, hpair⟩ := ih hpolled.fit
      refine ⟨b :: bs, by simp [receiverLoop, hb, hdone, hbs], ?_, ?_⟩
      · intro b' hmem
        rcases List.mem_cons.mp hmem with rfl | hmem
        · exact hpolled
        · have hlater := hall b' hmem
          exact ⟨hlater.fit, hpolled.keeps.trans hlater.keeps, hlater.truthful⟩
      · rw [List.pairwise_cons]
        exact ⟨fun b' hmem => (hall b' hmem).keeps, hpair⟩

/-- Against any peer all accesses are in range, every acknowledgement says what is held
when it is sent, bases do not decrease, and what is stored or announced stays. -/
theorem acknowledgements_exact (now : ℤ) (polls : List Poll) :
    ∃ bs, receiverLoop (receiverStart now) polls = some bs ∧
      (∀ b ∈ bs, ∀ ack ∈ b.sent, ∃ base mask, Truthful b.state ack base mask) ∧
      (bs.Pairwise fun b b' => ∀ ack ∈ b.sent, ∀ ack' ∈ b'.sent, ∀ base base' mask mask',
        ackFields ack = some (base, mask) → ackFields ack' = some (base', mask') →
          base ≤ base') ∧
      (receiverStart now :: bs.map Reception.state).Pairwise Keeps := by
  obtain ⟨bs, hbs, hall, hpair⟩ := receiverLoop_spec (receiverStart_fit now) polls
  refine ⟨bs, hbs, ?_, ?_, ?_⟩
  · intro b hb ack hack
    obtain ⟨mask, htruthful⟩ := (hall b hb).truthful ack hack
    exact ⟨_, mask, htruthful⟩
  · apply hpair.imp_of_mem
    intro b b' hb hb' hkeeps ack hack ack' hack' base base' mask mask' hf hf'
    obtain ⟨_, htruthful⟩ := (hall b hb).truthful ack hack
    obtain ⟨_, htruthful'⟩ := (hall b' hb').truthful ack' hack'
    obtain ⟨rfl, -⟩ := Prod.mk.inj (Option.some.inj (htruthful.fields.symm.trans hf))
    obtain ⟨rfl, -⟩ := Prod.mk.inj (Option.some.inj (htruthful'.fields.symm.trans hf'))
    exact hkeeps.recvExpected
  · rw [List.pairwise_cons]
    refine ⟨fun r hr => ?_, List.pairwise_map.mpr hpair⟩
    obtain ⟨b, hb, rfl⟩ := List.mem_map.mp hr
    exact (hall b hb).keeps

end RdtChallenge
