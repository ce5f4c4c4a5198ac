import RdtChallenge.Safety

namespace RdtChallenge
open JointState
open Transition (Leads)

/-- The network takes no action of its own, and nobody stops the sender. -/
def Action.Cooperative : Action → Prop
  | .senderTop _ | .senderReceive _ | .senderSend => True
  | .receiverReceive _ _ | .receiverIdle _ => True
  | _ => False

def JointState.loseAll (s : JointState) : List Action :=
  List.replicate s.dataNet.length (.loseData 0) ++ List.replicate s.ackNet.length (.loseAck 0)

variable {file : List Byte} {s t : JointState} {clock : Clock}

theorem run_loseData (s : JointState) (net : List Packet) :
    Transition.run (step clock) { s with dataNet := net }
      (List.replicate net.length (.loseData 0)) = some { s with dataNet := [] } := by
  induction net with
  | nil => rfl
  | cons p net ih =>
    have hstep : step clock { s with dataNet := p :: net } (.loseData 0) =
        some { s with dataNet := net } := rfl
    rw [List.length_cons, List.replicate_succ, Transition.run_cons, hstep, Option.bind_some, ih]

theorem run_loseAck (s : JointState) (net : List Packet) :
    Transition.run (step clock) { s with ackNet := net }
      (List.replicate net.length (.loseAck 0)) = some { s with ackNet := [] } := by
  induction net with
  | nil => rfl
  | cons p net ih =>
    have hstep : step clock { s with ackNet := p :: net } (.loseAck 0) =
        some { s with ackNet := net } := rfl
    rw [List.length_cons, List.replicate_succ, Transition.run_cons, hstep, Option.bind_some, ih]

theorem run_loseAll (clock : Clock) (s : JointState) :
    Transition.run (step clock) s s.loseAll = some { s with dataNet := [], ackNet := [] } :=
  Transition.run_append (run_loseData s s.dataNet) (run_loseAck { s with dataNet := [] } s.ackNet)

theorem steadyClock_iff {prev now : ℤ} : steadyClock prev now = true ↔ 0 < now ∧ prev ≤ now :=
  decide_eq_true_iff

theorem exists_late (prev d : ℤ) (ts : List ℤ) :
    ∃ now, steadyClock prev now = true ∧ ∀ t ∈ ts, d < now - t := by
  induction ts with
  | nil => exact ⟨max prev 1, steadyClock_iff.mpr ⟨by omega, by omega⟩, by simp⟩
  | cons t ts ih =>
    obtain ⟨now, hclock, hlate⟩ := ih
    obtain ⟨hpos, hle⟩ := steadyClock_iff.mp hclock
    refine ⟨max now (t + d + 1), steadyClock_iff.mpr ⟨by omega, by omega⟩, ?_⟩
    rintro u (_ | ⟨_, hu⟩)
    · omega
    · have := hlate u hu
      omega

structure Paced (s : JointState) : Prop where
  timed : Timed s.sender
  clock : ∀ now, s.phase = .draining now → 0 < now

theorem Paced.effect (h : Paced s) (hcoh : Coherent file s) {a : Action}
    (he : Effect steadyClock s a t) : Paced t := by
  cases he with
  | enter now hphase hstop hlt hclock =>
    refine ⟨h.timed, fun n hn => ?_⟩
    cases hn
    exact (steadyClock_iff.mp hclock).1
  | leave => exact ⟨h.timed, fun n hn => by cases hn⟩
  | ack i now packet sender hphase hget hrun =>
    obtain ⟨-, -, hnext, htime⟩ := hcoh.sender.processAck hrun
    exact ⟨h.timed.congr hnext htime, h.clock⟩
  | send now b hphase hlt hrun =>
    obtain ⟨ts, rfl, hts⟩ := sendPhase_eq hcoh.sender.sized hrun
    exact ⟨h.timed.afterSend (h.clock now hphase) hts, fun n hn => by cases hn⟩
  | _ => exact ⟨h.timed, h.clock⟩

theorem JointReachable.paced (hfile : packetCount file.length ≤ 65535)
    (h : JointReachable steadyClock file s) : Paced s :=
  h.invariant (fun packets now _ => ⟨senderStart_timed packets, fun n hn => by cases hn⟩)
    fun _ _ _ hu hI he => hI.effect (hu.coherent hfile).1 he

structure Running (s : JointState) : Prop where
  result : s.result = none
  stop : s.stop = false

structure Returned (file : List Byte) (s : JointState) : Prop where
  result : s.result = some (file.map byteValue)
  ack : ∃ p ∈ s.ackNet, ∃ sm, decode typeAck p = some (packetCount file.length, sm)

theorem JointReachable.leads {P : Action → Prop} (h : JointReachable clock file s)
    (hst : Leads P (step clock) s t) : JointReachable clock file t := by
  obtain ⟨as, has⟩ := hst.reachable
  exact h.run has

theorem Coherent.recvExpected_lt (h : Coherent file s) (hres : s.result = none) :
    s.receiver.recvExpected < s.sender.totalPkts := by
  have := h.receiver.least.le
  have := packetCount_pos file.length
  rw [h.totalPkts]
  rcases h.running hres with h0 | hlt <;> omega

theorem Coherent.base_lt (h : Coherent file s) (hinv : SelectiveRepeat.Inv 16 s.abs)
    (hres : s.result = none) : s.sender.sendBase < s.sender.totalPkts :=
  (h.base_le_recvExpected hinv).trans_lt (h.recvExpected_lt hres)

theorem Coherent.not_left (h : Coherent file s) (hinv : SelectiveRepeat.Inv 16 s.abs)
    (hr : Running s) : s.phase ≠ .left := by
  intro hleft
  have := h.base_lt hinv hr.result
  rcases h.left hleft with hstop | hle
  · exact absurd hstop (by simp [hr.stop])
  · omega

theorem Coherent.missing_due (h : Coherent file s) (hinv : SelectiveRepeat.Inv 16 s.abs)
    (hp : Paced s) {now : ℤ} (hlt : s.receiver.recvExpected < s.sender.nextSeq)
    (hlate : ∀ t ∈ s.sender.sentTime, timeoutMs < now - t) :
    s.receiver.recvExpected ∈ s.sender.transmitted now := by
  have hT := hlt.trans_le h.sender.sized.next_le
  obtain ⟨t, hread⟩ : ∃ t, s.sender.sentTime[s.receiver.recvExpected]? = some t :=
    ⟨_, List.getElem?_eq_getElem (h.sender.sized.sentTime ▸ hT)⟩
  have hmissing : ¬ s.sender.Acked s.receiver.recvExpected :=
    fun ha => h.receiver.least.missing (hinv.acked_held ha)
  exact SenderState.transmitted_of_late h.sender.sized (h.base_le_recvExpected hinv) hlt hmissing
    hread ((hp.timed _ _ hread).mpr hlt) (hlate t (List.mem_of_getElem? hread))

theorem next_transmitted {s : SenderState} (hbase : s.sendBase = s.nextSeq)
    (hlt : s.nextSeq < s.totalPkts) (now : ℤ) : s.nextSeq ∈ s.transmitted now := by
  have hnone : s.unacked = ∅ := by simp [SenderState.unacked, hbase]
  have hrefill : 0 < s.refill := by
    simp only [SenderState.refill, hnone, Finset.card_empty, window]
    omega
  exact SenderState.mem_transmitted.mpr (Or.inr ⟨le_rfl, by omega⟩)

theorem JointReachable.exists_top (hfile : packetCount file.length ≤ 65535)
    (h : JointReachable steadyClock file s) (hr : Running s) :
    ∃ t, Leads Action.Cooperative (step steadyClock) s t ∧ t.phase = .top ∧ Running t ∧
      t.receiver = s.receiver := by
  have hcoh := (h.coherent hfile).1
  cases hphase : s.phase with
  | top => exact ⟨s, .refl s, hphase, hr, rfl⟩
  | left => exact absurd hphase (hcoh.not_left (h.inv hfile) hr)
  | draining now =>
    obtain ⟨ts, hsend, -⟩ := sendPhase_spec hcoh.sender.sized now
    have hlt := not_le.mpr (hcoh.base_lt (h.inv hfile) hr.result)
    have hstep : step steadyClock s .senderSend = some (s.afterSending
        ⟨s.sender.afterSend ts, s.sender.unacked.card + s.sender.refill,
          (s.sender.transmitted now).map s.sender.packet⟩) := by
      simp [step, hphase, hlt, hsend]
    exact ⟨_, (Leads.refl s).tail hstep trivial, rfl, ⟨hr.result, hr.stop⟩, rfl⟩

theorem step_senderTop (hphase : s.phase = .top) (hstop : s.stop = false)
    (hlt : s.sender.sendBase < s.sender.totalPkts) {now : ℤ}
    (hclock : clock s.senderClock now = true) :
    step clock s (.senderTop now) = some { s with phase := .draining now, senderClock := now } := by
  simp [step, hphase, hstop, hlt, hclock]

theorem JointReachable.exists_reopened (hfile : packetCount file.length ≤ 65535)
    (h : JointReachable steadyClock file s) (hr : Running s) (hphase : s.phase = .top)
    (hnext : s.receiver.recvExpected = s.sender.nextSeq) (hpos : 0 < s.receiver.recvExpected) :
    ∃ t now, Leads Action.Cooperative (step steadyClock) s t ∧ t.phase = .draining now ∧
      Running t ∧ t.receiver.recvExpected = s.receiver.recvExpected ∧
      t.sender.sendBase = t.sender.nextSeq ∧ t.sender.nextSeq = s.sender.nextSeq := by
  have hcoh := (h.coherent hfile).1
  obtain ⟨now, hclock, hlate⟩ :=
    exists_late s.receiverClock ackKeepaliveMs [s.receiver.lastRecvTime]
  obtain ⟨now', hclock', -⟩ := exists_late s.senderClock 0 []
  obtain ⟨mask, hlast, -⟩ := hcoh.receiver.lastAck.resolve_left
    fun hnone => hnone.2 0 (hcoh.receiver.least.below 0 hpos)
  -- the receiver finds nothing for long enough
  have hkeep : keepAlive s.receiver now =
      ⟨{ s.receiver with lastRecvTime := now }, [s.receiver.lastAck], false⟩ := by
    have hne : s.receiver.lastAck ≠ [] := by simp [hlast, buildAckPacket, header]
    exact if_pos ⟨hne, hlate _ (List.mem_singleton.mpr rfl)⟩
  set s₁ := s.afterReceiving (keepAlive s.receiver now) now with hs₁
  have hstep₁ : step steadyClock s (.receiverIdle now) = some s₁ := by
    simp [step, hr.result, hclock, hs₁]
  have hnet : s₁.ackNet[s.ackNet.length]? = some (buildAckPacket s.receiver.recvExpected mask) := by
    simp [hs₁, afterReceiving, hkeep, hlast, carry_buildAckPacket]
  -- the sender takes what that sent
  have hstep₂ : step steadyClock s₁ (.senderTop now') =
      some { s₁ with phase := .draining now', senderClock := now' } :=
    step_senderTop (s := s₁) hphase hr.stop (hcoh.base_lt (h.inv hfile) hr.result) hclock'
  have hsmall : s.receiver.recvExpected < 2 ^ 16 := by
    have := hcoh.recvExpected_lt hr.result
    rw [hcoh.totalPkts] at this
    omega
  have hd : decode typeAck (buildAckPacket s.receiver.recvExpected mask) =
      some (s.receiver.recvExpected, mask.toNat) := decode_buildAckPacket hsmall mask
  obtain ⟨v, hv, -⟩ := processAck_accept hcoh.sender.sized hd hnext.le
  have hstep₃ : step steadyClock { s₁ with phase := .draining now', senderClock := now' }
      (.senderReceive s.ackNet.length) = some { s₁ with
        phase := .draining now'
        senderClock := now'
        sender := { s.sender with
          acked := v, sendBase := max s.sender.sendBase s.receiver.recvExpected }
        ackNet := s₁.ackNet.eraseIdx s.ackNet.length } := by
    simp only [step, hnet, Option.bind_some, deliverAck]
    rw [show s₁.sender = s.sender from rfl, hv]
  refine ⟨_, now', (((Leads.refl s).tail hstep₁ trivial).tail hstep₂ trivial).tail hstep₃ trivial,
    rfl, ⟨hr.result, hr.stop⟩, ?_, ?_, rfl⟩
  · simp [hs₁, afterReceiving, hkeep]
  · have := hcoh.sender.sized.base_le
    dsimp only
    omega

theorem JointReachable.exists_poised (hfile : packetCount file.length ≤ 65535)
    (h : JointReachable steadyClock file s) (hr : Running s) (hphase : s.phase = .top) :
    ∃ t now, Leads Action.Cooperative (step steadyClock) s t ∧ t.phase = .draining now ∧
      Running t ∧ t.receiver.recvExpected = s.receiver.recvExpected ∧
      t.receiver.recvExpected ∈ t.sender.transmitted now := by
  have hcoh := (h.coherent hfile).1
  have hinv := h.inv hfile
  have hle := hcoh.recvExpected_le_next hinv
  have hbase := hcoh.base_le_recvExpected hinv
  have hltT := hcoh.recvExpected_lt hr.result
  obtain ⟨now, hclock, hlate⟩ := exists_late s.senderClock timeoutMs s.sender.sentTime
  have htop := step_senderTop hphase hr.stop (hcoh.base_lt hinv hr.result) hclock
  by_cases hlt : s.receiver.recvExpected < s.sender.nextSeq
  · -- it has been sent and is not acknowledged: its timeout has passed
    exact ⟨_, now, (Leads.refl s).tail htop trivial, rfl, ⟨hr.result, hr.stop⟩, rfl,
      hcoh.missing_due hinv (h.paced hfile) hlt hlate⟩
  · have hnext : s.receiver.recvExpected = s.sender.nextSeq := by omega
    by_cases hpos : 0 < s.receiver.recvExpected
    · -- all that was sent is held, which the sender learns from the keepalive
      obtain ⟨t, now', hlead, hphase', hr', hexp, hempty, hsame⟩ :=
        h.exists_reopened hfile hr hphase hnext hpos
      refine ⟨t, now', hlead, hphase', hr', hexp, ?_⟩
      have := ((h.leads hlead).coherent hfile).1.recvExpected_lt hr'.result
      rw [hexp, hnext, ← hsame] at this ⊢
      exact next_transmitted hempty this now'
    · -- nothing has been sent yet
      refine ⟨_, now, (Leads.refl s).tail htop trivial, rfl, ⟨hr.result, hr.stop⟩, rfl, ?_⟩
      rw [hnext] at hltT ⊢
      exact next_transmitted (by omega) hltT now

theorem JointReachable.exists_advanced (hfile : packetCount file.length ≤ 65535)
    (h : JointReachable steadyClock file s) (hr : Running s) {now : ℤ}
    (hphase : s.phase = .draining now)
    (hmem : s.receiver.recvExpected ∈ s.sender.transmitted now) :
    ∃ t, Leads Action.Cooperative (step steadyClock) s t ∧ t.stop = false ∧
      (Returned file t ∨ Running t ∧ s.receiver.recvExpected < t.receiver.recvExpected) := by
  have hcoh := (h.coherent hfile).1
  have hltT := hcoh.recvExpected_lt hr.result
  obtain ⟨ts, hsend, -⟩ := sendPhase_spec hcoh.sender.sized now
  have hlt := not_le.mpr (hcoh.base_lt (h.inv hfile) hr.result)
  set b : Sending := ⟨s.sender.afterSend ts, s.sender.unacked.card + s.sender.refill,
    (s.sender.transmitted now).map s.sender.packet⟩ with hb
  have hstep : step steadyClock s .senderSend = some (s.afterSending b) := by
    simp [step, hphase, hlt, hsend, hb]
  have hcoh' := ((h.tail hstep).coherent hfile).1
  have hexp : s.receiver.recvExpected < packetCount file.length := hcoh.totalPkts ▸ hltT
  have hin : dataPacket file s.receiver.recvExpected ∈ (s.afterSending b).dataNet := by
    refine List.mem_append_right _ (List.mem_map.mpr ⟨_, List.mem_map_of_mem hmem, ?_⟩)
    rw [hcoh.packet hexp, carry_dataPacket]
  obtain ⟨i, hi⟩ := List.mem_iff_getElem?.mp hin
  obtain ⟨now', hclock, -⟩ := exists_late s.receiverClock 0 []
  obtain ⟨r', mask, hrun, hsized, hleast, -, hstored, -⟩ :=
    hcoh'.receiverIteration hfile hexp now'
  -- `recvExpected` is held now, so it is no longer the least that is missing
  have hgrown : s.receiver.recvExpected < r'.recvExpected := by
    refine lt_of_le_of_ne hstored.recvExpected fun heq => hleast.missing ?_
    rw [← heq]
    exact (hstored.held _).mpr (Or.inr ⟨rfl, hexp⟩)
  have hdeliver : step steadyClock (s.afterSending b) (.receiverReceive i now') =
      some { (s.afterSending b).afterReceiving ⟨{ r' with
          lastAck := buildAckPacket r'.recvExpected mask, lastRecvTime := now' },
          [buildAckPacket r'.recvExpected mask], r'.recvExpected ≥ r'.expectedTotal⟩ now' with
        dataNet := (s.afterSending b).dataNet.eraseIdx i
        result := if r'.recvExpected = packetCount file.length then some (file.map byteValue)
          else none } := by
    have hres : (s.afterSending b).result = none := hr.result
    have hck : steadyClock (s.afterSending b).receiverClock now' = true := hclock
    simp [step, hi, deliverData, hres, hrun, hck]
  refine ⟨_, ((Leads.refl s).tail hstep trivial).tail hdeliver trivial, hr.stop, ?_⟩
  by_cases hdone : r'.recvExpected = packetCount file.length
  · refine Or.inl ⟨by simp [hdone], buildAckPacket r'.recvExpected mask, ?_, mask.toNat, ?_⟩
    · simp [afterReceiving, carry_buildAckPacket]
    · rw [decode_buildAckPacket (by omega), hdone]
  · exact Or.inr ⟨⟨by simp [hdone], hr.stop⟩, hgrown⟩

theorem JointReachable.exists_returned (hfile : packetCount file.length ≤ 65535)
    (h : JointReachable steadyClock file s) (hr : Running s) :
    ∃ t, Leads Action.Cooperative (step steadyClock) s t ∧ t.stop = false ∧ Returned file t := by
  -- the measure is what the receiver still misses in order
  refine Transition.exists_leads_of_measure
    (I := fun u => JointReachable steadyClock file u ∧ Running u)
    (fun u => packetCount file.length - u.receiver.recvExpected) ?_ ⟨h, hr⟩
  rintro u ⟨hu, hru⟩
  obtain ⟨v, huv, htop, hrv, hrecv⟩ := hu.exists_top hfile hru
  have hv : JointReachable steadyClock file v := hu.leads huv
  obtain ⟨w, now, hvw, hdrain, hrw, hexp, hmem⟩ := hv.exists_poised hfile hrv htop
  have hw : JointReachable steadyClock file w := hv.leads hvw
  obtain ⟨x, hwx, hstop, hx⟩ := hw.exists_advanced hfile hrw hdrain hmem
  refine ⟨x, (huv.trans hvw).trans hwx, hx.imp (fun hret => ⟨hstop, hret⟩) fun ⟨hrx, hlt⟩ =>
    ⟨⟨hw.leads hwx, hrx⟩, ?_⟩⟩
  have hmax := (hw.coherent hfile).1.recvExpected_lt hrw.result
  rw [(hw.coherent hfile).1.totalPkts] at hmax
  rw [← hrecv, ← hexp]
  omega

/-- While the receiver has not returned the sender is in its loop, and even if all that
is in flight is lost some iterations of both loops and deliveries of what they send lead
to the return of the file. -/
theorem receiver_never_stranded (hfile : packetCount file.length ≤ 65535)
    (h : JointReachable steadyClock file s) (hres : s.result = none) (hstop : s.stop = false) :
    s.phase ≠ .left ∧ ∃ as t, (∀ a ∈ as, Action.Cooperative a) ∧
      Transition.run (step steadyClock) s (s.loseAll ++ as) = some t ∧
      t.result = some (file.map byteValue) := by
  have hlost := run_loseAll steadyClock s
  obtain ⟨t, ⟨as, has, hrun⟩, -, hret⟩ :=
    (h.run hlost).exists_returned hfile ⟨hres, hstop⟩
  exact ⟨(h.coherent hfile).1.not_left (h.inv hfile) ⟨hres, hstop⟩, as, t, has,
    Transition.run_append hlost hrun, hret.result⟩

theorem receiver_never_stranded_one_byte :
    ∃ s as t, Transition.run (step steadyClock) (initial [dataPacket [0x89] 0] 1)
        [.senderTop 1, .senderSend, .loseData 0] = some s ∧
      Transition.run (step steadyClock) s (s.loseAll ++ as) = some t ∧
      t.result = some [0x89] := by
  have hrun : (Transition.run (step steadyClock) (initial [dataPacket [0x89] 0] 1)
      [.senderTop 1, .senderSend, .loseData 0]).map (fun s => (s.result, s.stop)) =
        some (none, false) := by decide +kernel
  obtain ⟨s, hs, hrest⟩ := Option.map_eq_some_iff.mp hrun
  obtain ⟨hres, hstop⟩ := Prod.mk.inj hrest
  obtain ⟨-, as, t, -, ht, hret⟩ :=
    receiver_never_stranded (by decide +kernel) (reachable_one_byte rfl hs) hres hstop
  exact ⟨s, as, t, hs, ht, hret⟩

end RdtChallenge
