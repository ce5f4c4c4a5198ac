import RdtChallenge.System

namespace RdtChallenge
open JointState

def sacked (ab sm : ℕ) : Set ℕ := {i | ∃ j < sackBits, sm.testBit j ∧ i = ab + j}

def reportsOf (acks : List Packet) : Set (ℕ × Set ℕ) :=
  {r | ∃ p ∈ acks, ∃ ab sm, decode typeAck p = some (ab, sm) ∧ r = (ab, sacked ab sm)}

theorem reportsOf_append_new (acks : List Packet) {p : Packet} {ab sm : ℕ}
    (hd : decode typeAck p = some (ab, sm)) :
    reportsOf (acks ++ [p]) = insert (ab, sacked ab sm) (reportsOf acks) := by
  ext r
  simp only [reportsOf, List.mem_append, List.mem_singleton, Set.mem_insert_iff, Set.mem_ofPred_eq]
  constructor
  · rintro ⟨q, hq | rfl, x, y, hd', rfl⟩
    · exact Or.inr ⟨q, hq, x, y, hd', rfl⟩
    · rw [hd] at hd'
      cases hd'
      exact Or.inl rfl
  · rintro (rfl | ⟨q, hq, hr⟩)
    · exact ⟨p, Or.inr rfl, ab, sm, hd, rfl⟩
    · exact ⟨q, Or.inl hq, hr⟩

theorem reportsOf_append_old {acks : List Packet} {p : Packet} (hp : p ∈ acks) :
    reportsOf (acks ++ [p]) = reportsOf acks := by
  ext r
  refine ⟨?_, fun ⟨q, hq, hr⟩ => ⟨q, List.mem_append_left _ hq, hr⟩⟩
  rintro ⟨q, hq, hr⟩
  rcases List.mem_append.mp hq with hq | hq
  · exact ⟨q, hq, hr⟩
  · exact ⟨q, List.mem_singleton.mp hq ▸ hp, hr⟩

/-- The selective-repeat state that a joint state stands for. -/
def JointState.abs (s : JointState) : SelectiveRepeat.State where
  next := s.sender.nextSeq
  held := {i | s.receiver.Held i}
  base := s.sender.sendBase
  acked := {i | s.sender.Acked i}
  reports := reportsOf s.sentAcks

structure Coherent (file : List Byte) (s : JointState) : Prop where
  defined : s.undefined = false
  sender : SenderInv s.sender
  packets : s.sender.packetBuffer =
    (List.range (packetCount file.length)).map (dataPacket file)
  receiver : ReceiverInv s.receiver
  announced : s.receiver.expectedTotal = 0 ∨
    s.receiver.expectedTotal = packetCount file.length
  payloads : ∀ i, s.receiver.Held i → s.receiver.recvBuffer[i]? = some (payload file i)
  dataNet : ∀ p ∈ s.dataNet, ∃ i < s.sender.nextSeq, p = dataPacket file i
  ackNet : ∀ p ∈ s.ackNet, p ∈ s.sentAcks
  sentAcks : ∀ p ∈ s.sentAcks, ∃ ab mask, ab ≤ packetCount file.length ∧ p = buildAckPacket ab mask
  lastAck : s.receiver.lastAck = [] ∨ s.receiver.lastAck ∈ s.sentAcks
  running : s.result = none → s.receiver.expectedTotal = 0 ∨
    s.receiver.recvExpected < packetCount file.length
  returned : ∀ out, s.result = some out →
    s.receiver.recvExpected = packetCount file.length ∧ out = file.map byteValue
  left : s.phase = .left → s.stop = true ∨ s.sender.totalPkts ≤ s.sender.sendBase

variable {file : List Byte} {s t : JointState} {clock : Clock}

theorem Coherent.totalPkts (h : Coherent file s) :
    s.sender.totalPkts = packetCount file.length := by
  rw [← h.sender.sized.packetBuffer, h.packets]
  simp

theorem Coherent.packet (h : Coherent file s) {i : ℕ} (hi : i < packetCount file.length) :
    s.sender.packet i = dataPacket file i := by
  simp [SenderState.packet, h.packets, hi]

theorem Coherent.mem_dataNet (h : Coherent file s) {packet : Packet} (hmem : packet ∈ s.dataNet) :
    ∃ i < s.sender.nextSeq, i < packetCount file.length ∧ packet = dataPacket file i := by
  obtain ⟨i, hi, rfl⟩ := h.dataNet packet hmem
  have := h.sender.sized.next_le
  rw [h.totalPkts] at this
  exact ⟨i, hi, by omega, rfl⟩

theorem coherent_initial (file : List Byte) (now : ℤ) : Coherent file
    (initial ((List.range (packetCount file.length)).map (dataPacket file)) now) where
  defined := rfl
  sender := senderStart_inv _
  packets := rfl
  receiver := receiverStart_inv now
  announced := Or.inl rfl
  payloads i hi := absurd hi (by simp [ReceiverState.Held, initial, receiverStart])
  dataNet p hp := absurd hp List.not_mem_nil
  ackNet p hp := absurd hp List.not_mem_nil
  sentAcks p hp := absurd hp List.not_mem_nil
  lastAck := Or.inl rfl
  running _ := Or.inl rfl
  returned out hout := absurd hout (by simp [initial])
  left hleft := absurd hleft (by simp [initial])

theorem abs_initial (packets : List Packet) (now : ℤ) :
    (initial packets now).abs = SelectiveRepeat.initial := by
  simp [JointState.abs, SelectiveRepeat.initial, initial, receiverStart, ReceiverState.Held,
    senderStart_not_acked, reportsOf]
  exact ⟨rfl, rfl⟩

theorem Coherent.receiverIteration (h : Coherent file s) (hfile : packetCount file.length ≤ 65535)
    {i : ℕ} (hi : i < packetCount file.length) (now : ℤ) :
    ∃ r' mask, receiverIteration s.receiver (dataPacket file i) now = some (⟨{ r' with
          lastAck := buildAckPacket r'.recvExpected mask, lastRecvTime := now },
        [buildAckPacket r'.recvExpected mask], r'.recvExpected ≥ r'.expectedTotal⟩,
        if r'.recvExpected = packetCount file.length then some (file.map byteValue) else none) ∧
      r'.Sized ∧ r'.Least ∧ r'.Masked mask ∧
      Stored s.receiver r' i (packetCount file.length) (payload file i) ∧
      ∀ j, r'.Held j → r'.recvBuffer[j]? = some (payload file j) := by
  obtain ⟨r', mask, hrun, hsized, hleast, hmasked, hstored⟩ := receiveData_accept h.receiver
    (decode_dataPacket hi hfile) (h.announced.imp id Eq.symm) now
  rw [drop_dataPacket] at hstored
  -- held before, or stored by this packet
  have hpay : ∀ j, r'.Held j → r'.recvBuffer[j]? = some (payload file j) := by
    intro j hj
    rw [hstored.buffer j hj]
    split_ifs with hold
    · exact h.payloads j hold
    · rw [(((hstored.held j).mp hj).resolve_left hold).1]
  refine ⟨r', mask, ?_, hsized, hleast, hmasked, hstored, hpay⟩
  have hle := hleast.le
  rw [hstored.expectedTotal] at hle
  by_cases hdone : r'.recvExpected = packetCount file.length
  · have hout : reassemble { r' with
        lastAck := buildAckPacket r'.recvExpected mask, lastRecvTime := now } =
        some (file.map byteValue) := by
      rw [reassemble_eq (payload file), ← flatten_payloads_eq_file]
      · dsimp only
        rw [hstored.expectedTotal]
      · intro j hj
        exact hpay j (hleast.below j (by rw [hdone, ← hstored.expectedTotal]; exact hj))
    simp only [RdtChallenge.receiverIteration, hrun, Option.bind_eq_bind, Option.bind_some, hout]
    simp [hstored.expectedTotal, hdone]
  · have hlt : ¬ packetCount file.length ≤ r'.recvExpected := by omega
    simp [RdtChallenge.receiverIteration, hrun, hstored.expectedTotal, hdone, hlt]

theorem Coherent.decode_ack (h : Coherent file s) (hfile : packetCount file.length ≤ 65535)
    {p : Packet} (hp : p ∈ s.sentAcks) : ∃ ab mask, p = buildAckPacket ab mask ∧
      decode typeAck p = some (ab, mask.toNat) ∧ (ab, sacked ab mask.toNat) ∈ s.abs.reports := by
  obtain ⟨ab, mask, hab, rfl⟩ := h.sentAcks p hp
  have hd : decode typeAck (buildAckPacket ab mask) = some (ab, mask.toNat) :=
    decode_buildAckPacket (by omega) mask
  exact ⟨ab, mask, rfl, hd, _, hp, ab, mask.toNat, hd, rfl⟩

theorem carry_of_sentAcks (h : Coherent file s) {p : Packet} (hp : p ∈ s.sentAcks) :
    carry p = p := by
  obtain ⟨ab, mask, -, rfl⟩ := h.sentAcks p hp
  exact carry_buildAckPacket ab mask

open SelectiveRepeat (Step Inv nameable)

theorem sacked_eq_nameable {r : ReceiverState} {mask : BitVec 16} (hm : r.Masked mask)
    (hmiss : ¬ r.Held r.recvExpected) :
    sacked r.recvExpected mask.toNat = nameable 16 {i | r.Held i} r.recvExpected := by
  ext i
  constructor
  · rintro ⟨j, hj, hbit, rfl⟩
    have hheld : r.Held (r.recvExpected + j) := (hm j hj).mp hbit
    -- bit 0 is the missing packet itself
    have hj0 : j ≠ 0 := by
      rintro rfl
      exact hmiss hheld
    unfold sackBits at hj
    exact ⟨hheld, by omega, by omega⟩
  · rintro ⟨hheld, hlt, hlt'⟩
    obtain ⟨j, rfl⟩ := Nat.exists_eq_add_of_lt hlt
    have hj : j + 1 < sackBits := by unfold sackBits; omega
    exact ⟨j + 1, hj, (hm (j + 1) hj).mpr hheld, by omega⟩

theorem sends_refine (a : SelectiveRepeat.State) (k : ℕ) :
    Relation.ReflTransGen (Step 16) a { a with next := a.next + k } := by
  induction k with
  | zero => exact .refl
  | succ k ih => exact ih.tail (.send { a with next := a.next + k })

/-- An acknowledgement in flight is accepted, and what it does is learning its report. -/
theorem Coherent.ack (h : Coherent file s) (hfile : packetCount file.length ≤ 65535)
    (hinv : Inv 16 s.abs) {packet : Packet} (hmem : packet ∈ s.ackNet) {sender : SenderState}
    (hrun : processAck s.sender packet = some sender) :
    ∃ r ∈ s.abs.reports, SenderInv sender ∧ Grows s.sender sender ∧
      sender.nextSeq = s.sender.nextSeq ∧ sender.sendBase = max s.sender.sendBase r.1 ∧
      ∀ i, sender.Acked i ↔ s.sender.Acked i ∨ i < r.1 ∨ i ∈ r.2 := by
  obtain ⟨ab, mask, -, hd, hr⟩ := h.decode_ack hfile (h.ackNet packet hmem)
  obtain ⟨hab, hsack⟩ := hinv.report_le_next hr
  obtain ⟨v, hv, hlen, hacked⟩ := processAck_accept h.sender.sized hd hab
  obtain ⟨hinv', hgrows, hnext, -⟩ := h.sender.processAck hrun
  obtain rfl := Option.some.inj (hrun.symm.trans hv)
  refine ⟨_, hr, hinv', hgrows, hnext, rfl, fun i => (hacked i).trans ?_⟩
  refine or_congr_right' fun hnot => ?_
  -- below the base everything is acknowledged already, so the two sets agree there
  have hbase : s.sender.sendBase ≤ i := by
    by_contra hlt
    exact hnot (h.sender.acked_below i (by omega))
  constructor
  · rintro (⟨-, hlt⟩ | ⟨j, hj, hbit, rfl, -⟩)
    · exact Or.inl hlt
    · exact Or.inr ⟨j, hj, hbit, rfl⟩
  · rintro (hlt | hmem')
    · exact Or.inl ⟨hbase, hlt⟩
    · obtain ⟨j, hj, hbit, rfl⟩ := hmem'
      exact Or.inr ⟨j, hj, hbit, rfl, hsack _ ⟨j, hj, hbit, rfl⟩⟩

theorem Coherent.effect_ack (h : Coherent file s) (hfile : packetCount file.length ≤ 65535)
    (hinv : Inv 16 s.abs) {packet : Packet} {i : ℕ} {sender : SenderState}
    (hphase : s.phase ≠ .left) (hget : s.ackNet[i]? = some packet)
    (hrun : processAck s.sender packet = some sender) :
    Coherent file { s with sender, ackNet := s.ackNet.eraseIdx i } ∧ Relation.ReflTransGen
      (Step 16) s.abs { s with sender, ackNet := s.ackNet.eraseIdx i }.abs := by
  have hmem := List.mem_of_getElem? hget
  obtain ⟨r, hr, hsender, hgrows, hnext, hbase, hacked⟩ := h.ack hfile hinv hmem hrun
  refine ⟨{ h with
    sender := hsender
    packets := hgrows.packetBuffer.trans h.packets
    dataNet := fun p hp => hnext.symm ▸ h.dataNet p hp
    ackNet := fun p hp => h.ackNet p (List.mem_of_mem_eraseIdx hp)
    left := fun hleft => absurd hleft hphase }, .single ?_⟩
  have habs : { s with sender, ackNet := s.ackNet.eraseIdx i }.abs = { s.abs with
      base := max s.abs.base r.1, acked := s.abs.acked ∪ Set.Iio r.1 ∪ r.2 } := by
    have hset : {i | sender.Acked i} = {i | s.sender.Acked i} ∪ Set.Iio r.1 ∪ r.2 := by
      ext i
      simp [hacked i, or_assoc]
    simp only [JointState.abs, hnext, hbase, hset]
  exact habs ▸ .learn s.abs r hr

theorem Coherent.effect_send (h : Coherent file s) {now : ℤ} {b : Sending}
    (hrun : sendPhase now s.sender = some b) : Coherent file (s.afterSending b) ∧
      Relation.ReflTransGen (Step 16) s.abs (s.afterSending b).abs := by
  obtain ⟨ts, rfl, hlen, -⟩ := sendPhase_eq h.sender.sized hrun
  have hnext : s.sender.nextSeq + s.sender.refill ≤ packetCount file.length := by
    have := h.sender.sized.next_le
    rw [h.totalPkts] at this
    rw [SenderState.refill, h.totalPkts]
    omega
  refine ⟨{ h with
    sender := h.sender.afterSend hlen
    dataNet := ?_
    left := fun hleft => absurd hleft (by simp [afterSending]) }, sends_refine _ _⟩
  intro p hp
  rcases List.mem_append.mp hp with hp | hp
  · obtain ⟨i, hi, rfl⟩ := h.dataNet p hp
    exact ⟨i, Nat.lt_add_right _ hi, rfl⟩
  · rw [List.map_map] at hp
    obtain ⟨i, hi, rfl⟩ := List.mem_map.mp hp
    have hlt : i < s.sender.nextSeq + s.sender.refill := by
      rcases SenderState.mem_transmitted.mp hi with hi | hi <;> omega
    exact ⟨i, hlt, by rw [Function.comp_apply, h.packet (by omega), carry_dataPacket]⟩

theorem Coherent.effect_receive (h : Coherent file s) (hfile : packetCount file.length ≤ 65535)
    {packet : Packet} {k : ℕ} {now : ℤ} {b : Reception} {result : Option (List Value)}
    (hget : s.dataNet[k]? = some packet)
    (hrun : RdtChallenge.receiverIteration s.receiver packet now = some (b, result)) :
    Coherent file { s.afterReceiving b now with dataNet := s.dataNet.eraseIdx k, result } ∧
      Relation.ReflTransGen (Step 16) s.abs
        { s.afterReceiving b now with dataNet := s.dataNet.eraseIdx k, result }.abs := by
  obtain ⟨i, hi, hin, rfl⟩ := h.mem_dataNet (List.mem_of_getElem? hget)
  obtain ⟨r', mask, hrun', hsized, hleast, hmasked, hstored, hpay⟩ :=
    h.receiverIteration hfile hin now
  rw [hrun', Option.some.injEq, Prod.mk.injEq] at hrun
  obtain ⟨rfl, rfl⟩ := hrun
  have hle := hleast.le
  rw [hstored.expectedTotal] at hle
  have hd := decode_buildAckPacket (show r'.recvExpected < 2 ^ 16 by omega) mask
  constructor
  · exact { h with
      receiver := receiveData_accept_inv hsized hleast hmasked now
      announced := Or.inr hstored.expectedTotal
      payloads := hpay
      dataNet := fun p hp => h.dataNet p (List.mem_of_mem_eraseIdx hp)
      ackNet := fun p hp => by
        rcases List.mem_append.mp hp with hp | hp
        · exact List.mem_append_left _ (h.ackNet p hp)
        · rw [List.map_singleton, List.mem_singleton, carry_buildAckPacket] at hp
          exact List.mem_append_right _ (List.mem_singleton.mpr hp)
      sentAcks := fun p hp => by
        rcases List.mem_append.mp hp with hp | hp
        · exact h.sentAcks p hp
        · exact ⟨_, mask, hle, List.mem_singleton.mp hp⟩
      lastAck := Or.inr (List.mem_append_right _ (List.mem_singleton.mpr rfl))
      running := fun hnone => Or.inr (by
        rw [ite_eq_right_iff] at hnone
        exact lt_of_le_of_ne hle fun he => absurd (hnone he) (by simp))
      returned := fun out hout => by
        obtain ⟨hdone, hout⟩ := Option.ite_none_right_eq_some.mp hout
        exact ⟨hdone, (Option.some.inj hout).symm⟩ }
  · -- storing the packet, then reporting what is held afterwards
    have hheld : {j | r'.Held j} = insert i {j | s.receiver.Held j} := by
      ext j
      simp only [Set.mem_ofPred_eq, Set.mem_insert_iff, hstored.held j]
      rw [or_comm]
      exact or_congr_left ⟨And.left, fun hj => ⟨hj, hj ▸ hin⟩⟩
    have hleast' : IsLeast (insert i {j | s.receiver.Held j})ᶜ r'.recvExpected := by
      rw [← hheld]
      refine ⟨hleast.missing, fun j hj => ?_⟩
      by_contra hlt
      exact hj (hleast.below j (by omega))
    refine (Relation.ReflTransGen.single (.store s.abs i hi)).tail ?_
    have habs := Step.report (w := 16) { s.abs with held := insert i s.abs.held } _ hleast'
    refine cast (congrArg (Step 16 _) ?_) habs
    have hset := sacked_eq_nameable hmasked hleast.missing
    rw [hheld] at hset
    simp only [JointState.abs, afterReceiving, reportsOf_append_new s.sentAcks hd, hset]
    simp only [ReceiverState.Held] at hheld ⊢
    rw [hheld]

theorem Coherent.effect_idle (h : Coherent file s) (now : ℤ) :
    Coherent file (s.afterReceiving (keepAlive s.receiver now) now) ∧
      (s.afterReceiving (keepAlive s.receiver now) now).abs = s.abs := by
  have hkeep := h.receiver.keepAlive now
  unfold keepAlive at hkeep ⊢
  split_ifs at hkeep ⊢ with hc
  · -- what the keepalive sends is an old report
    have hlast : s.receiver.lastAck ∈ s.sentAcks := h.lastAck.resolve_left hc.1
    refine ⟨{ h with
      receiver := hkeep
      ackNet := fun p hp => ?_
      sentAcks := fun p hp => ?_
      lastAck := Or.inr (List.mem_append_left _ hlast) }, ?_⟩
    · rcases List.mem_append.mp hp with hp | hp
      · exact List.mem_append_left _ (h.ackNet p hp)
      · rw [List.map_singleton, List.mem_singleton, carry_of_sentAcks h hlast] at hp
        exact List.mem_append_left _ (hp ▸ hlast)
    · rcases List.mem_append.mp hp with hp | hp
      · exact h.sentAcks p hp
      · exact h.sentAcks p (List.mem_singleton.mp hp ▸ hlast)
    · simp only [JointState.abs, afterReceiving, reportsOf_append_old hlast]
      rfl
  · simp only [afterReceiving, List.map_nil, List.append_nil]
    exact ⟨{ h with }, rfl⟩

/-- No access goes outside a vector, and a packet in flight is never rejected. -/
theorem Coherent.genuine (h : Coherent file s) (hfile : packetCount file.length ≤ 65535)
    {packet : Packet} (hmem : packet ∈ s.dataNet) (now : ℤ) : ∃ b result,
      RdtChallenge.receiverIteration s.receiver packet now = some (b, result) ∧ b.sent ≠ [] := by
  obtain ⟨i, -, hin, rfl⟩ := h.mem_dataNet hmem
  obtain ⟨r', mask, hrun, -⟩ := h.receiverIteration hfile hin now
  exact ⟨_, _, hrun, by simp⟩

theorem Coherent.not_fault (h : Coherent file s) (hfile : packetCount file.length ≤ 65535) :
    ¬ ((∃ packet ∈ s.ackNet, processAck s.sender packet = none) ∨
      (∃ now, sendPhase now s.sender = none) ∨
      ∃ packet ∈ s.dataNet, ∃ now,
        RdtChallenge.receiverIteration s.receiver packet now = none) := by
  rintro (⟨packet, -, hnone⟩ | ⟨now, hnone⟩ | ⟨packet, hmem, now, hnone⟩)
  · obtain ⟨u, hu, -⟩ := processAck_inv h.sender packet
    rw [hu] at hnone
    cases hnone
  · obtain ⟨ts, hsend, -⟩ := sendPhase_spec h.sender.sized now
    rw [hsend] at hnone
    cases hnone
  · obtain ⟨b, result, hrun, -⟩ := h.genuine hfile hmem now
    rw [hrun] at hnone
    cases hnone

theorem Coherent.not_reject (h : Coherent file s) (hfile : packetCount file.length ≤ 65535)
    {packet : Packet} {k : ℕ} {now : ℤ} {b : Reception} {result : Option (List Value)}
    (hget : s.dataNet[k]? = some packet)
    (hrun : RdtChallenge.receiverIteration s.receiver packet now = some (b, result)) :
    b.sent ≠ [] := by
  obtain ⟨b', result', hrun', hne⟩ := h.genuine hfile (List.mem_of_getElem? hget) now
  rw [hrun'] at hrun
  cases hrun
  exact hne

theorem Coherent.effect (h : Coherent file s) (hfile : packetCount file.length ≤ 65535)
    (hinv : Inv 16 s.abs) {a : Action} (he : Effect clock s a t) :
    Coherent file t ∧ Relation.ReflTransGen (Step 16) s.abs t.abs := by
  cases he with
  | enter now => exact ⟨{ h with left := fun hleft => absurd hleft (by simp) }, .refl⟩
  | leave ha hphase hwhy => exact ⟨{ h with left := fun _ => hwhy }, .refl⟩
  | stop => exact ⟨{ h with left := fun _ => Or.inl rfl }, .refl⟩
  | network ha dataNet ackNet hdata hack =>
    exact ⟨{ h with
      dataNet := fun p hp => h.dataNet p (hdata p hp)
      ackNet := fun p hp => h.ackNet p (hack p hp) }, .refl⟩
  | ack i now packet sender hphase hget hrun =>
    exact h.effect_ack hfile hinv (by simp [hphase]) hget hrun
  | send now b hphase hlt hrun => exact h.effect_send hrun
  | reject i now packet b result hresult hget hrun hsent =>
    exact absurd hsent (h.not_reject hfile hget hrun)
  | receive i now packet b result hresult hget hclock hrun hsent =>
    exact h.effect_receive hfile hget hrun
  | idle now hresult hclock =>
    obtain ⟨hcoh, habs⟩ := h.effect_idle now
    exact ⟨hcoh, habs.symm ▸ .refl⟩
  | fault hwhy => exact absurd hwhy (h.not_fault hfile)

/-- What holds initially and is kept by every effect on a reachable state. -/
theorem JointReachable.invariant {I : JointState → Prop}
    (hinit : ∀ packets now, packetBuffer (getFileContents file) = some packets →
      I (initial packets now))
    (heffect : ∀ u a v, JointReachable clock file u → I u → Effect clock u a v → I v)
    (h : JointReachable clock file s) : I s := by
  obtain ⟨packets, now, hp, hclock, hr⟩ := h
  refine (hr.invariant (fun t => JointReachable clock file t ∧ I t) ?_
    ⟨⟨packets, now, hp, hclock, .refl _ _⟩, hinit packets now hp⟩).2
  rintro u a v ⟨hu, hI⟩ hstep
  exact ⟨hu.tail hstep, heffect u a v hu hI (step_effect hstep)⟩

/-- Every reachable joint state is coherent, and stands for a reachable state of
selective repeat. -/
theorem JointReachable.coherent (hfile : packetCount file.length ≤ 65535)
    (h : JointReachable clock file s) : Coherent file s ∧
      Relation.ReflTransGen (Step 16) SelectiveRepeat.initial s.abs := by
  -- the two go together: an acknowledgement is accepted because selective repeat says so
  refine h.invariant (I := fun t => Coherent file t ∧
    Relation.ReflTransGen (Step 16) SelectiveRepeat.initial t.abs) ?_ ?_
  · intro packets now hp
    obtain rfl := Option.some.inj ((packetBuffer_eq hfile).symm.trans hp)
    exact ⟨coherent_initial file now, abs_initial _ now ▸ .refl⟩
  · rintro u a v - ⟨hcoh, hreach⟩ he
    obtain ⟨hcoh', hsim⟩ := hcoh.effect hfile (SelectiveRepeat.inv_reachable hreach) he
    exact ⟨hcoh', hreach.trans hsim⟩

theorem JointReachable.inv (hfile : packetCount file.length ≤ 65535)
    (h : JointReachable clock file s) : Inv 16 s.abs :=
  SelectiveRepeat.inv_reachable (h.coherent hfile).2

end RdtChallenge
