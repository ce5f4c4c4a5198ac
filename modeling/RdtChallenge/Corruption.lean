import RdtChallenge.System

namespace RdtChallenge
open JointState

/-- The XOR of the differences in header bytes 1 to 5. -/
def headerChange (p q : Packet) : Value :=
  low8 ((p.getD 1 0 ^^^ q.getD 1 0) ^^^ (p.getD 2 0 ^^^ q.getD 2 0) ^^^
    (p.getD 3 0 ^^^ q.getD 3 0) ^^^ (p.getD 4 0 ^^^ q.getD 4 0) ^^^ (p.getD 5 0 ^^^ q.getD 5 0))

/-- `q` is a detectable alteration of the packet `p` that was sent. -/
def Altered (p q : Packet) : Prop :=
  low8 (q.getD 0 0) ≠ low8 (p.getD 0 0) ∨ headerChange p q ≠ 0

instance (p q : Packet) : Decidable (Altered p q) := inferInstanceAs (Decidable (_ ∨ _))

inductive NoisyAction
  | honest (a : Action)
  | alteredAck (i : ℕ) (q : Packet)
  | alteredData (i : ℕ) (q : Packet) (now : ℤ)

/-- The steps over the altering network. A packet is altered when it is handed over: an earlier
alteration, kept in flight, shows no sooner. -/
def noisyStep (clock : Clock) (s : JointState) : NoisyAction → Option JointState
  | .honest a => step clock s a
  | .alteredAck i q => (s.ackNet[i]?).bind fun p =>
    if Altered p q then deliverAck s i q else none
  | .alteredData i q now => (s.dataNet[i]?).bind fun p =>
    if Altered p q then deliverData clock s i q now else none

theorem low8_xor (u v : Value) : low8 (u ^^^ v) = low8 u ^^^ low8 v := by
  unfold low8
  ext i
  simp only [BitVec.getElem_and, BitVec.getElem_xor]
  cases u[i] <;> cases v[i] <;> simp

theorem xor_eq_of_one {f : ℕ → Value} {k : ℕ} (hk : 0 < k) (hk' : k < 6)
    (hf : ∀ j < 6, j ≠ k → f j = 0#32) : f 1 ^^^ f 2 ^^^ f 3 ^^^ f 4 ^^^ f 5 = f k := by
  interval_cases k <;> simp [hf 1, hf 2, hf 3, hf 4, hf 5]

theorem altered_of_one {p q : Packet} {k : ℕ} (hk : k < 6)
    (hne : low8 (q.getD k 0) ≠ low8 (p.getD k 0))
    (hsame : ∀ j < 6, j ≠ k → low8 (q.getD j 0) = low8 (p.getD j 0)) : Altered p q := by
  by_cases h0 : k = 0
  · exact Or.inl (h0 ▸ hne)
  · right
    have hcancel : ∀ j < 6, j ≠ k → low8 (p.getD j 0) ^^^ low8 (q.getD j 0) = 0#32 := by
      intro j hj hjk
      rw [hsame j hj hjk, BitVec.xor_self]
    have hone := xor_eq_of_one (f := fun j => low8 (p.getD j 0) ^^^ low8 (q.getD j 0))
      (Nat.pos_of_ne_zero h0) hk hcancel
    simp only [headerChange, low8_xor, hone]
    exact fun hzero => hne (BitVec.xor_eq_zero_iff.mp hzero).symm

def HasHeader (type : Value) (p : Packet) : Prop := ∃ x y payload, p = header type x y ++ payload

theorem HasHeader.carry {type : Value} (htype : type.toNat < 256) {p : Packet}
    (h : HasHeader type p) : HasHeader type (carry p) := by
  obtain ⟨x, y, payload, rfl⟩ := h
  refine ⟨x, y, RdtChallenge.carry payload, ?_⟩
  rw [RdtChallenge.carry, List.map_append]
  exact congrArg (· ++ _) (carry_eq_self (header_bytes htype x y))

/-- The checksum of a genuine packet balances, so an unbalanced change shows. -/
theorem decode_altered {type : Value} (htype : type.toNat < 256) {p q : Packet}
    (hp : HasHeader type p) (h : Altered p q) : decode type q = none := by
  by_contra hsome
  obtain ⟨r, hr⟩ := Option.ne_none_iff_exists'.mp hsome
  obtain ⟨t, a, b, c, d, e, rest, rfl, -, -⟩ := exists_of_decode hr
  simp only [decode, Option.ite_none_right_eq_some] at hr
  obtain ⟨⟨ht, he⟩, -⟩ := hr
  obtain ⟨x, y, payload, rfl⟩ := hp
  rcases h with h | h
  · -- the type byte is outside the XOR and is compared by itself
    simp only [header, List.cons_append, List.getD_cons_zero] at h
    exact h (ht.trans (low8_eq_self htype).symm)
  · -- both packets balance, and so does the difference of the two
    apply h
    simp only [headerChange, header, List.cons_append, List.getD_cons_zero, List.getD_cons_succ]
    set a' := highByte x
    set b' := lowByte x
    set c' := highByte y
    set d' := lowByte y
    have hsplit : (a' ^^^ a) ^^^ (b' ^^^ b) ^^^ (c' ^^^ c) ^^^ (d' ^^^ d) ^^^
        (headerXor a' b' c' d' ^^^ e) =
        ((a' ^^^ b' ^^^ c' ^^^ d') ^^^ headerXor a' b' c' d') ^^^
          ((a ^^^ b ^^^ c ^^^ d) ^^^ e) := by
      ac_rfl
    rw [hsplit, low8_xor, low8_xor, low8_xor _ e, he, low8_eq_self (headerXor_lt a' b' c' d')]
    simp only [headerXor, BitVec.xor_self]
    rfl

/-- Everything in flight was built by one of the two loops. -/
structure Framed (s : JointState) : Prop where
  sender : SenderInv s.sender
  packets : ∀ p ∈ s.sender.packetBuffer, HasHeader typeData p
  receiver : ReceiverInv s.receiver
  dataNet : ∀ p ∈ s.dataNet, HasHeader typeData p
  ackNet : ∀ p ∈ s.ackNet, HasHeader typeAck p

theorem hasHeader_buildAckPacket (ab : ℕ) (mask : BitVec 16) :
    HasHeader typeAck (buildAckPacket ab mask) := ⟨ab, mask.toNat, [], (List.append_nil _).symm⟩

theorem ReceiverInv.receiveData {r : ReceiverState} (h : ReceiverInv r) (packet : Packet)
    (now : ℤ) :
    ∃ b, receiveData r packet now = some b ∧ ReceiverInv b.state ∧
      ∀ p ∈ b.sent, ∃ ab mask, p = buildAckPacket ab mask := by
  rcases receiveData_cases h packet now with
    ⟨hrun, -⟩ | ⟨seq, total, r', mask, -, -, hrun, hinv, -, -⟩
  · exact ⟨_, hrun, h, by simp⟩
  · exact ⟨_, hrun, hinv, fun p hp => ⟨_, mask, List.mem_singleton.mp hp⟩⟩

theorem ReceiverInv.receiverIteration {r : ReceiverState} (h : ReceiverInv r) (packet : Packet)
    (now : ℤ) : ∃ b result, receiverIteration r packet now = some (b, result) ∧
      ReceiverInv b.state ∧ ∀ p ∈ b.sent, ∃ ab mask, p = buildAckPacket ab mask := by
  obtain ⟨b, hrun, hinv, hsent⟩ := h.receiveData packet now
  have hread : ∀ i < b.state.expectedTotal,
      b.state.recvBuffer[i]? = some (b.state.recvBuffer[i]?.getD []) := by
    intro i hi
    rw [List.getElem?_eq_getElem (hinv.sized.recvBuffer ▸ hi), Option.getD_some]
  by_cases hdone : b.done
  · exact ⟨b, _, by simp [RdtChallenge.receiverIteration, hrun, hdone, reassemble_eq _ hread]; rfl,
      hinv, hsent⟩
  · exact ⟨b, none, by simp [RdtChallenge.receiverIteration, hrun, hdone], hinv, hsent⟩

theorem ReceiverInv.of_receiverIteration {r : ReceiverState} (h : ReceiverInv r) {packet : Packet}
    {now : ℤ} {b : Reception} {result : Option (List Value)}
    (hrun : RdtChallenge.receiverIteration r packet now = some (b, result)) :
    ReceiverInv b.state ∧ ∀ p ∈ b.sent, ∃ ab mask, p = buildAckPacket ab mask := by
  obtain ⟨b', result', hrun', hinv⟩ := h.receiverIteration packet now
  rw [hrun'] at hrun
  cases hrun
  exact hinv

theorem ReceiverInv.keepAlive_sent {r : ReceiverState} (h : ReceiverInv r) {now : ℤ} {p : Packet}
    (hp : p ∈ (RdtChallenge.keepAlive r now).sent) : ∃ ab mask, p = buildAckPacket ab mask := by
  unfold RdtChallenge.keepAlive at hp
  split_ifs at hp with hc
  · obtain rfl := List.mem_singleton.mp hp
    obtain ⟨mask, hlast, -⟩ := h.lastAck.resolve_left fun hempty => hc.1 hempty.1
    exact ⟨_, mask, hlast⟩
  · exact absurd hp List.not_mem_nil

variable {clock : Clock} {s t : JointState}

theorem Framed.effect (h : Framed s) {a : Action} (he : Effect clock s a t) : Framed t := by
  cases he with
  | enter now => exact { h with }
  | leave ha hphase hwhy => exact { h with }
  | stop => exact { h with }
  | network ha dataNet ackNet hdata hack =>
    exact { h with
      dataNet := fun p hp => h.dataNet p (hdata p hp)
      ackNet := fun p hp => h.ackNet p (hack p hp) }
  | ack i now packet sender hphase hget hrun =>
    obtain ⟨hinv, hgrows, -⟩ := h.sender.processAck hrun
    exact { h with
      sender := hinv
      packets := hgrows.packetBuffer ▸ h.packets
      ackNet := fun p hp => h.ackNet p (List.mem_of_mem_eraseIdx hp) }
  | send now b hphase hlt hrun =>
    obtain ⟨ts, rfl, hlen, -⟩ := sendPhase_eq h.sender.sized hrun
    refine { h with sender := h.sender.afterSend hlen, dataNet := fun p hp => ?_ }
    rcases List.mem_append.mp hp with hp | hp
    · exact h.dataNet p hp
    · obtain ⟨q, hq, rfl⟩ := List.mem_map.mp hp
      obtain ⟨i, hi, rfl⟩ := List.mem_map.mp hq
      have hget := SenderState.getElem?_packetBuffer h.sender.sized (h.sender.transmitted_lt hi)
      exact (h.packets _ (List.mem_of_getElem? hget)).carry (by decide)
  | reject i now packet b result hresult hget hrun hsent =>
    exact { h with
      receiver := (h.receiver.of_receiverIteration hrun).1
      dataNet := fun p hp => h.dataNet p (List.mem_of_mem_eraseIdx hp) }
  | receive i now packet b result hresult hget hclock hrun hsent =>
    obtain ⟨hinv, hback⟩ := h.receiver.of_receiverIteration hrun
    refine { h with
      receiver := hinv
      dataNet := fun p hp => h.dataNet p (List.mem_of_mem_eraseIdx hp)
      ackNet := fun p hp => ?_ }
    rcases List.mem_append.mp hp with hp | hp
    · exact h.ackNet p hp
    · obtain ⟨q, hq, rfl⟩ := List.mem_map.mp hp
      obtain ⟨ab, mask, rfl⟩ := hback q hq
      exact (hasHeader_buildAckPacket ab mask).carry (by decide)
  | idle now hresult hclock =>
    refine { h with receiver := h.receiver.keepAlive now, ackNet := fun p hp => ?_ }
    rcases List.mem_append.mp hp with hp | hp
    · exact h.ackNet p hp
    · obtain ⟨q, hq, rfl⟩ := List.mem_map.mp hp
      obtain ⟨ab, mask, rfl⟩ := h.receiver.keepAlive_sent hq
      exact (hasHeader_buildAckPacket ab mask).carry (by decide)
  | fault hwhy =>
    exact { h with }

theorem hasHeader_packetBuffer {contents : List Value} {packets : List Packet}
    (h : packetBuffer contents = some packets) : ∀ p ∈ packets, HasHeader typeData p := by
  intro p hp
  obtain ⟨i, -, hi⟩ := Loops.exists_of_mem_mapM h hp
  obtain ⟨payload, -, he⟩ := Option.bind_eq_some_iff.mp hi
  exact ⟨i, _, payload, (Option.some.inj he).symm⟩

theorem framed_initial {packets : List Packet} (h : ∀ p ∈ packets, HasHeader typeData p) (now : ℤ) :
    Framed (initial packets now) where
  sender := senderStart_inv packets
  packets := h
  receiver := receiverStart_inv now
  dataNet _ hp := absurd hp List.not_mem_nil
  ackNet _ hp := absurd hp List.not_mem_nil

theorem Framed.alteredAck (h : Framed s) {i : ℕ} {q : Packet}
    (hs : noisyStep clock s (.alteredAck i q) = some t) :
    t = { s with ackNet := s.ackNet.eraseIdx i } := by
  obtain ⟨p, hp, hs⟩ := Option.bind_eq_some_iff.mp hs
  obtain ⟨halt, hs⟩ := Option.ite_none_right_eq_some.mp hs
  have hd := decode_altered (by decide) (h.ackNet p (List.mem_of_getElem? hp)) halt
  have hrun : processAck s.sender q = some s.sender :=
    processAck_reject fun ab sm hsome => by simp [hd] at hsome
  simp only [deliverAck, hrun] at hs
  split at hs
  · exact (Option.some.inj hs).symm
  · exact absurd hs (by simp)

theorem Framed.alteredData (h : Framed s) {i : ℕ} {q : Packet} {now : ℤ}
    (hs : noisyStep clock s (.alteredData i q now) = some t) :
    t = { s with dataNet := s.dataNet.eraseIdx i } := by
  obtain ⟨p, hp, hs⟩ := Option.bind_eq_some_iff.mp hs
  obtain ⟨halt, hs⟩ := Option.ite_none_right_eq_some.mp hs
  have hd := decode_altered (by decide) (h.dataNet p (List.mem_of_getElem? hp)) halt
  have hrun : receiverIteration s.receiver q now = some (⟨s.receiver, [], false⟩, none) := by
    simp [receiverIteration, receiveData_of_undecodable hd]
  simp only [deliverData, hrun] at hs
  split at hs
  · exact (Option.some.inj hs).symm
  · exact absurd hs (by simp)

/-- A step over the altering network is one over the network that only loses. -/
theorem Framed.honest (h : Framed s) {a : NoisyAction} (hs : noisyStep clock s a = some t) :
    ∃ b, step clock s b = some t := by
  cases a with
  | honest a => exact ⟨a, hs⟩
  | alteredAck i q => exact ⟨.loseAck i, congrArg some (h.alteredAck hs).symm⟩
  | alteredData i q now => exact ⟨.loseData i, congrArg some (h.alteredData hs).symm⟩

theorem Framed.noisyStep (h : Framed s) {a : NoisyAction} (hs : noisyStep clock s a = some t) :
    Framed t := by
  obtain ⟨b, hb⟩ := h.honest hs
  exact h.effect (step_effect hb)

/-- Every run over the altering network has a run over the network that only loses,
duplicates, delays and reorders, through the same states; and an altered packet that
arrives at the end of the run changes nothing at either end. -/
theorem corruption_is_loss {file : List Byte} {packets : List Packet} {now : ℤ}
    (hp : packetBuffer (getFileContents file) = some packets) {as : List NoisyAction}
    (hs : Transition.run (noisyStep clock) (initial packets now) as = some s) :
    (∃ bs, Transition.run (step clock) (initial packets now) bs = some s ∧
      Transition.states (step clock) (initial packets now) bs =
        Transition.states (noisyStep clock) (initial packets now) as) ∧
    (∀ i q t, noisyStep clock s (.alteredAck i q) = some t →
      t = { s with ackNet := s.ackNet.eraseIdx i }) ∧
    (∀ i q n t, noisyStep clock s (.alteredData i q n) = some t →
      t = { s with dataNet := s.dataNet.eraseIdx i }) ∧
    ∀ (p q : Packet) k, k < 6 → low8 (q.getD k 0) ≠ low8 (p.getD k 0) →
      (∀ j < 6, j ≠ k → low8 (q.getD j 0) = low8 (p.getD j 0)) → Altered p q := by
  have hstart := framed_initial (hasHeader_packetBuffer hp) now
  have hkeep : ∀ u a v, Framed u → RdtChallenge.noisyStep clock u a = some v → Framed v :=
    fun u a v hu hv => hu.noisyStep hv
  have hend : Framed s := Transition.run_invariant Framed hkeep hstart hs
  exact ⟨Transition.states_lockstep Framed hkeep (fun u a v hu hv => hu.honest hv) hstart hs,
    fun i q t ht => hend.alteredAck ht, fun i q n t ht => hend.alteredData ht,
    fun p q k hk hne hsame => altered_of_one hk hne hsame⟩

theorem corruption_is_loss_one_byte :
    ∃ s bs, Transition.run (noisyStep anyClock) (initial [dataPacket [0x89] 0] 0)
        [.honest (.senderTop 1), .honest .senderSend, .honest (.duplicateData 0),
          .alteredData 0 [0, 0, 0, 0, 2, 1] 2, .honest (.receiverReceive 0 3)] = some s ∧
      Transition.run (step anyClock) (initial [dataPacket [0x89] 0] 0) bs = some s ∧
      s.result = some [0x89] := by
  have hres : (Transition.run (noisyStep anyClock) (initial [dataPacket [0x89] 0] 0)
      [.honest (.senderTop 1), .honest .senderSend, .honest (.duplicateData 0),
        .alteredData 0 [0, 0, 0, 0, 2, 1] 2, .honest (.receiverReceive 0 3)]).bind
          JointState.result = some [0x89] := by decide +kernel
  obtain ⟨s, hs, hout⟩ := Option.bind_eq_some_iff.mp hres
  have hp : packetBuffer (getFileContents [0x89]) = some [dataPacket [0x89] 0] := by
    decide +kernel
  obtain ⟨⟨bs, hbs, -⟩, -⟩ := corruption_is_loss hp hs
  exact ⟨s, bs, hs, hbs, hout⟩

end RdtChallenge
