import RdtChallenge.JointInvariant

namespace RdtChallenge
open JointState

variable {file : List Byte} {s : JointState} {clock : Clock}

theorem reachable_one_byte {as : List Action} {now : ℤ} (hclock : clock 0 now = true)
    (hs : Transition.run (step clock) (initial [dataPacket [0x89] 0] now) as = some s) :
    JointReachable clock [0x89] s := ⟨_, now, by decide +kernel, hclock, as, hs⟩

/-- What `receiver()` returns is the file, byte for byte. -/
theorem transfer_correct (hfile : packetCount file.length ≤ 65535)
    (h : JointReachable clock file s) {out : List Value} (hout : s.result = some out) :
    out.length = file.length ∧ (∀ i : ℕ, out[i]? = (file[i]?).map byteValue) ∧
      setFileContents out = file := by
  obtain ⟨-, rfl⟩ := (h.coherent hfile).1.returned out hout
  exact ⟨List.length_map _, fun i => List.getElem?_map, setFileContents_map_byteValue file⟩

def countingFile : List Byte := (List.range 2085).map (BitVec.ofNat 8)

def countingStart : JointState := initial ((List.range 18).map (dataPacket countingFile)) 1

/-- The first packet of eighteen is held back while the next fifteen are acknowledged, so
that the sender goes on with the last two. -/
def holdBackFirst : List Action :=
  [.senderTop 1, .senderSend] ++ List.replicate 15 (.receiverReceive 1 2) ++
    [.senderTop 3, .senderReceive 14, .senderSend, .receiverReceive 1 4]

theorem packetBuffer_countingFile : packetBuffer (getFileContents countingFile) =
    some ((List.range 18).map (dataPacket countingFile)) := by
  have hcount : packetCount countingFile.length = 18 := by decide +kernel
  exact hcount ▸ packetBuffer_eq (hcount ▸ by decide)

theorem reachable_counting {as : List Action}
    (hs : Transition.run (step steadyClock) countingStart as = some s) :
    JointReachable steadyClock countingFile s := ⟨_, 1, packetBuffer_countingFile, rfl, as, hs⟩

/-- The packet that was held back gets lost and is sent again. -/
theorem transfer_correct_eighteen :
    ∃ s out, Transition.run (step steadyClock) countingStart
        (holdBackFirst ++ [.receiverReceive 1 5, .loseData 0, .senderTop 800, .senderSend,
          .receiverReceive 0 801]) = some s ∧
      s.result = some out ∧ setFileContents out = countingFile := by
  obtain ⟨s, hs, hres⟩ : ∃ s ∈ Transition.run (step steadyClock) countingStart
      (holdBackFirst ++ [.receiverReceive 1 5, .loseData 0, .senderTop 800, .senderSend,
        .receiverReceive 0 801]), s.result.isSome = true := by decide +kernel
  obtain ⟨out, hout⟩ := Option.isSome_iff_exists.mp hres
  exact ⟨s, out, hs, hout,
    (transfer_correct (by decide +kernel) (reachable_counting hs) hout).2.2⟩

theorem Coherent.base_le_recvExpected (h : Coherent file s) (hinv : SelectiveRepeat.Inv 16 s.abs) :
    s.sender.sendBase ≤ s.receiver.recvExpected := hinv.base_le h.receiver.least.missing

theorem Coherent.recvExpected_le_next (h : Coherent file s)
    (hinv : SelectiveRepeat.Inv 16 s.abs) : s.receiver.recvExpected ≤ s.sender.nextSeq :=
  hinv.least_le_next h.receiver.least.below

theorem Coherent.result_of_done (h : Coherent file s) (hinv : SelectiveRepeat.Inv 16 s.abs)
    (hdone : s.sender.totalPkts ≤ s.sender.sendBase) :
    s.result = some (file.map byteValue) := by
  have hbase := h.base_le_recvExpected hinv
  have hle := h.receiver.least.le
  rw [h.totalPkts] at hdone
  have hpos := packetCount_pos file.length
  cases hres : s.result with
  | some out => rw [(h.returned out hres).2]
  | none => rcases h.running hres with h0 | hlt <;> omega

/-- An acknowledgement in flight passes the guards of the sender, and all it says is recorded. -/
theorem Coherent.ack_accepted (h : Coherent file s) (hfile : packetCount file.length ≤ 65535)
    (hinv : SelectiveRepeat.Inv 16 s.abs) {p : Packet} (hp : p ∈ s.ackNet) :
    ∃ ab sm sender, decode typeAck p = some (ab, sm) ∧
      ab ≤ s.sender.nextSeq ∧ ab ≤ s.sender.totalPkts ∧
      (∀ i < 16, sm.testBit i → ab + i < s.sender.nextSeq ∧ ab + i < s.sender.totalPkts) ∧
      processAck s.sender p = some sender ∧ ab ≤ sender.sendBase ∧
      (∀ i < ab, sender.Acked i) ∧ ∀ i < 16, sm.testBit i → sender.Acked (ab + i) := by
  obtain ⟨ab, mask, -, hd, hr⟩ := h.decode_ack hfile (h.ackNet p hp)
  obtain ⟨hab, hsack⟩ := hinv.report_le_next hr
  have hnext := h.sender.sized.next_le
  have hlt : ∀ i < 16, mask.toNat.testBit i → ab + i < s.sender.nextSeq :=
    fun i hi hbit => hsack _ ⟨i, hi, hbit, rfl⟩
  obtain ⟨v, hrun, -, hv⟩ := processAck_accept h.sender.sized hd hab
  refine ⟨ab, mask.toNat, _, hd, hab, hab.trans hnext,
    fun i hi hbit => ⟨hlt i hi hbit, (hlt i hi hbit).trans_le hnext⟩, hrun, le_max_right _ _,
    fun i hi => (hv i).mpr ?_,
    fun i hi hbit => (hv _).mpr (Or.inr (Or.inr ⟨i, hi, hbit, rfl, hlt i hi hbit⟩))⟩
  by_cases hb : s.sender.sendBase ≤ i
  · exact Or.inr (Or.inl ⟨hb, hi⟩)
  · exact Or.inl (h.sender.acked_below i (by omega))

/-- No false acknowledgement, no honest one thrown away, and no early exit. -/
theorem acknowledgements_truthful (hfile : packetCount file.length ≤ 65535)
    (h : JointReachable clock file s) :
    (∀ i, s.sender.Acked i → s.receiver.Held i) ∧
    (s.sender.sendBase ≤ s.receiver.recvExpected ∧
      s.receiver.recvExpected ≤ s.sender.nextSeq) ∧
    (∀ p ∈ s.ackNet, ∃ ab sm sender, decode typeAck p = some (ab, sm) ∧
      ab ≤ s.sender.nextSeq ∧ ab ≤ s.sender.totalPkts ∧
      (∀ i < 16, sm.testBit i → ab + i < s.sender.nextSeq ∧ ab + i < s.sender.totalPkts) ∧
      processAck s.sender p = some sender ∧ ab ≤ sender.sendBase ∧
      (∀ i < ab, sender.Acked i) ∧ ∀ i < 16, sm.testBit i → sender.Acked (ab + i)) ∧
    (∀ a t, step clock s a = some t → s.stop = false → s.phase ≠ .left → t.phase = .left →
      s.result = some (file.map byteValue)) := by
  have hcoh := (h.coherent hfile).1
  have hinv := h.inv hfile
  refine ⟨fun i hi => hinv.acked_held hi,
    ⟨hcoh.base_le_recvExpected hinv, hcoh.recvExpected_le_next hinv⟩,
    fun p hp => hcoh.ack_accepted hfile hinv hp, fun a t hstep hstop hphase hleft => ?_⟩
  cases step_effect hstep with
  | leave ha hphase' hwhy =>
    -- without `setStop` the base has reached the total
    exact hcoh.result_of_done hinv (hwhy.resolve_left (by simp [hstop]))
  | enter now => simp at hleft
  | send now b => simp [afterSending] at hleft
  | _ => exact absurd hleft hphase

/-- The base is the oldest packet without acknowledgement, the scan of the timers covers it,
and the window spans at most thirty-one places. -/
theorem window_base_oldest (hfile : packetCount file.length ≤ 65535)
    (h : JointReachable clock file s) :
    (s.sender.sendBase < s.sender.totalPkts → ¬ s.sender.Acked s.sender.sendBase) ∧
    IsLeast {i | ¬ s.sender.Acked i} s.sender.sendBase ∧
    (∀ now t b, s.sender.sendBase < s.sender.nextSeq →
      s.sender.sentTime[s.sender.sendBase]? = some t → 0 < t → timeoutMs < now - t →
      sendPhase now s.sender = some b → dataPacket file s.sender.sendBase ∈ b.sent) ∧
    s.sender.nextSeq ≤ s.sender.sendBase + 31 ∧
    ∀ i, s.receiver.Held i → i ≤ s.receiver.recvExpected + 30 := by
  have hcoh := (h.coherent hfile).1
  have hinv := h.inv hfile
  have hbase : ¬ s.sender.Acked s.sender.sendBase := hinv.base_not_acked
  have hspan : s.sender.nextSeq ≤ s.sender.sendBase + 31 := by
    -- sixteen packets count, and the base is one of them
    have := SelectiveRepeat.window_span_of_base (w := sackBits) (W := window) (by decide)
      hcoh.sender.acked_span hbase hcoh.sender.unacked_le
    simp only [sackBits, window] at this
    omega
  refine ⟨fun _ => hbase, ⟨hbase, fun i hi => ?_⟩, ?_, hspan, fun i hi => ?_⟩
  · by_contra hlt
    exact hi (hcoh.sender.acked_below i (by omega))
  · intro now t b hlt hread hpos hlate hrun
    have hmem := SenderState.transmitted_of_late hcoh.sender.sized le_rfl hlt hbase hread hpos hlate
    have hT := hlt.trans_le hcoh.sender.sized.next_le
    obtain ⟨ts, rfl, -⟩ := sendPhase_eq hcoh.sender.sized hrun
    rw [← hcoh.packet (hcoh.totalPkts ▸ hT)]
    exact List.mem_map_of_mem hmem
  · -- held packets have been sent, and the base is at most `recvExpected`
    have hlt : i < s.sender.nextSeq := hinv.held_lt i hi
    have := hcoh.base_le_recvExpected hinv
    omega

/-- Packet 0 is missing and packet 15 is known to be there, with fifteen acknowledgements
in flight. -/
theorem acknowledgements_truthful_eighteen :
    ∃ s, Transition.run (step steadyClock) countingStart
        (holdBackFirst ++ [.senderTop 5]) = some s ∧
      s.receiver.Held 15 ∧ ¬ s.sender.Acked 0 ∧ s.ackNet.length = 15 ∧
      (∀ p ∈ s.ackNet, (processAck s.sender p).isSome) ∧
      s.sender.sendBase ≤ s.receiver.recvExpected ∧
      s.receiver.recvExpected ≤ s.sender.nextSeq := by
  obtain ⟨s, hs, hacked, hmissing, hlen⟩ :
      ∃ s ∈ Transition.run (step steadyClock) countingStart (holdBackFirst ++ [.senderTop 5]),
        s.sender.Acked 15 ∧ ¬ s.sender.Acked 0 ∧ s.ackNet.length = 15 := by
    decide +kernel
  obtain ⟨hheld, hbases, hacks, -⟩ :=
    acknowledgements_truthful (by decide +kernel) (reachable_counting hs)
  refine ⟨s, hs, hheld 15 hacked, hmissing, hlen, fun p hp => ?_, hbases⟩
  obtain ⟨ab, sm, sender, -, -, -, -, hrun, -⟩ := hacks p hp
  simp [hrun]

/-- The window spans eighteen places, and the base is sent again when its timer is late. -/
theorem window_base_oldest_eighteen :
    ∃ s, Transition.run (step steadyClock) countingStart
        (holdBackFirst ++ [.senderTop 800]) = some s ∧
      s.sender.sendBase = 0 ∧ IsLeast {i | ¬ s.sender.Acked i} 0 ∧
      ∃ b ∈ sendPhase 800 s.sender, dataPacket countingFile 0 ∈ b.sent := by
  obtain ⟨s, hs, hbase, hnext, hsent, hsome⟩ :
      ∃ s ∈ Transition.run (step steadyClock) countingStart (holdBackFirst ++ [.senderTop 800]),
        s.sender.sendBase = 0 ∧ s.sender.nextSeq = 18 ∧ s.sender.sentTime[0]? = some 1 ∧
          (sendPhase 800 s.sender).isSome := by
    decide +kernel
  obtain ⟨b, hb⟩ := Option.isSome_iff_exists.mp hsome
  obtain ⟨-, hleast, hlate, -⟩ :=
    window_base_oldest (by decide +kernel) (reachable_counting hs)
  rw [hbase] at hleast hlate
  exact ⟨s, hs, hbase, hleast, b, hb,
    hlate 800 1 b (by omega) hsent (by decide) (by decide) hb⟩

end RdtChallenge
