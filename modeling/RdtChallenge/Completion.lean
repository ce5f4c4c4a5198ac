import RdtChallenge.Progress

namespace RdtChallenge
open JointState
open Transition (Leads)

variable {file : List Byte} {s t : JointState} {clock : Clock}

/-- The receiver has returned, and nothing in flight is its last acknowledgement. -/
structure Stranded (s : JointState) : Prop where
  result : s.result ≠ none
  stop : s.stop = false
  phase : s.phase ≠ .left
  base_lt : s.sender.sendBase < s.sender.totalPkts
  acks : ∀ p ∈ s.ackNet, ∀ ab sm, decode typeAck p = some (ab, sm) → ab < s.sender.totalPkts

/-- A stranded sender stays stranded whatever anybody does short of `setStop`. -/
theorem Stranded.effect (h : Stranded s) (hsender : SenderInv s.sender) {a : Action}
    (ha : a ≠ .setStop) (he : Effect clock s a t) : Stranded t := by
  cases he with
  | enter now => exact { h with phase := by simp }
  | leave ha' hphase hwhy =>
    have := h.base_lt
    rcases hwhy with hwhy | hwhy
    · exact absurd hwhy (by simp [h.stop])
    · omega
  | stop => exact absurd rfl ha
  | network ha' dataNet ackNet hdata hack =>
    exact { h with acks := fun p hp => h.acks p (hack p hp) }
  | ack i now packet sender hphase hget hrun =>
    obtain ⟨-, hgrows, -⟩ := hsender.processAck hrun
    refine { h with
      base_lt := ?_
      acks := fun p hp ab sm hd =>
        hgrows.totalPkts.symm ▸ h.acks p (List.mem_of_mem_eraseIdx hp) ab sm hd }
    -- the base moves to the acknowledged one at most, which is below the total
    by_cases haccept : ∃ ab sm, decode typeAck packet = some (ab, sm) ∧ ab ≤ s.sender.nextSeq
    · obtain ⟨ab, sm, hd, hab⟩ := haccept
      obtain ⟨v, hv, -⟩ := processAck_accept hsender.sized hd hab
      obtain rfl := Option.some.inj (hrun.symm.trans hv)
      exact max_lt h.base_lt (h.acks packet (List.mem_of_getElem? hget) ab sm hd)
    · push Not at haccept
      rw [processAck_reject fun ab sm hd => Or.inl (haccept ab sm hd)] at hrun
      obtain rfl := Option.some.inj hrun
      exact h.base_lt
  | send now b hphase hlt hrun =>
    obtain ⟨ts, rfl, -⟩ := sendPhase_eq hsender.sized hrun
    exact { h with phase := by simp [afterSending] }
  | reject i now packet b result hresult => exact absurd hresult h.result
  | receive i now packet b result hresult => exact absurd hresult h.result
  | idle now hresult => exact absurd hresult h.result
  | fault => exact { h with }

theorem Stranded.run (hfile : packetCount file.length ≤ 65535) (hs : JointReachable clock file s)
    (h : Stranded s) {as : List Action} (has : .setStop ∉ as)
    (hrun : Transition.run (step clock) s as = some t) : Stranded t := by
  refine (Transition.run_invariant_of_mem (fun u => JointReachable clock file u ∧ Stranded u) ?_
    ⟨hs, h⟩ hrun).2
  rintro u a ha v ⟨hu, hstr⟩ hstep
  exact ⟨hu.tail hstep, hstr.effect (hu.coherent hfile).1.sender (fun he => has (he ▸ ha))
    (step_effect hstep)⟩

structure Finished (s : JointState) : Prop where
  phase : s.phase = .left
  base : s.sender.sendBase = s.sender.totalPkts

theorem Coherent.sendBase_le (h : Coherent file s) : s.sender.sendBase ≤ s.sender.totalPkts :=
  h.sender.sized.base_le.trans h.sender.sized.next_le

theorem exists_finished_of_base (clock : Clock) (hphase : s.phase ≠ .left)
    (hbase : s.sender.sendBase = s.sender.totalPkts) :
    ∃ t, Leads Action.Cooperative (step clock) s t ∧ Finished t := by
  cases hp : s.phase with
  | left => exact absurd hp hphase
  | top =>
    have hstep : step clock s (.senderTop 0) = some { s with phase := .left } := by
      simp [step, hp, hbase]
    exact ⟨_, (Leads.refl s).tail hstep trivial, rfl, hbase⟩
  | draining now =>
    have hstep : step clock s .senderSend = some { s with phase := .left } := by
      simp [step, hp, hbase]
    exact ⟨_, (Leads.refl s).tail hstep trivial, rfl, hbase⟩

theorem JointReachable.exists_finished_of_ack (hfile : packetCount file.length ≤ 65535)
    (h : JointReachable clock file s) {now : ℤ} (hphase : s.phase = .draining now) {p : Packet}
    (hp : p ∈ s.ackNet) {sm : ℕ} (hd : decode typeAck p = some (s.sender.totalPkts, sm)) :
    ∃ t, Leads Action.Cooperative (step clock) s t ∧ Finished t := by
  have hcoh := (h.coherent hfile).1
  obtain ⟨i, hi⟩ := List.mem_iff_getElem?.mp hp
  obtain ⟨ab, sm', sender, hd', -, -, -, hrun, hab, -⟩ := hcoh.ack_accepted hfile (h.inv hfile) hp
  obtain ⟨rfl, -⟩ := Prod.mk.inj (Option.some.inj (hd'.symm.trans hd))
  obtain ⟨-, hgrows, -⟩ := hcoh.sender.processAck hrun
  have hstep : step clock s (.senderReceive i) =
      some { s with sender, ackNet := s.ackNet.eraseIdx i } := by
    simp [step, hi, deliverAck, hphase, hrun]
  have hle := ((h.tail hstep).coherent hfile).1.sendBase_le
  have hbase : sender.sendBase = sender.totalPkts := le_antisymm hle (hgrows.totalPkts ▸ hab)
  obtain ⟨t, ht, hfin⟩ := exists_finished_of_base clock
    (s := { s with sender, ackNet := s.ackNet.eraseIdx i }) (by simp [hphase]) hbase
  exact ⟨t, ((Leads.refl s).tail hstep trivial).trans ht, hfin⟩

theorem JointReachable.exists_finished_of_flight (hfile : packetCount file.length ≤ 65535)
    (h : JointReachable steadyClock file s) (hphase : s.phase ≠ .left) (hstop : s.stop = false)
    {p : Packet} (hp : p ∈ s.ackNet) {sm : ℕ}
    (hd : decode typeAck p = some (s.sender.totalPkts, sm)) :
    ∃ t, Leads Action.Cooperative (step steadyClock) s t ∧ Finished t := by
  rcases (h.coherent hfile).1.sendBase_le.eq_or_lt with hbase | hlt
  · exact exists_finished_of_base steadyClock hphase hbase
  · cases hph : s.phase with
    | left => exact absurd hph hphase
    | draining now => exact h.exists_finished_of_ack hfile hph hp hd
    | top =>
      obtain ⟨now, hclock, -⟩ := exists_late s.senderClock 0 []
      have hstep := step_senderTop hph hstop hlt hclock
      obtain ⟨t, ht, hfin⟩ := (h.tail hstep).exists_finished_of_ack hfile rfl hp hd
      exact ⟨t, ((Leads.refl s).tail hstep trivial).trans ht, hfin⟩

theorem JointReachable.exists_finished_of_running (hfile : packetCount file.length ≤ 65535)
    (h : JointReachable steadyClock file s) (hr : Running s) :
    ∃ t, Leads Action.Cooperative (step steadyClock) s t ∧ Finished t := by
  obtain ⟨u, hu, hstop, -, p, hp, sm, hd⟩ := h.exists_returned hfile hr
  have hcoh := ((h.leads hu).coherent hfile).1
  by_cases hleft : u.phase = .left
  · refine ⟨u, hu, hleft, le_antisymm hcoh.sendBase_le ?_⟩
    exact (hcoh.left hleft).resolve_left (by simp [hstop])
  · obtain ⟨t, ht, hfin⟩ := (h.leads hu).exists_finished_of_flight hfile hleft hstop hp
      (hcoh.totalPkts ▸ hd)
    exact ⟨t, hu.trans ht, hfin⟩

theorem JointReachable.exists_left_of_setStop (hfile : packetCount file.length ≤ 65535)
    (h : JointReachable clock file s) (hphase : s.phase ≠ .left) :
    ∃ as t, Transition.run (step clock) s (.setStop :: as) = some t ∧ t.phase = .left := by
  have hcoh := (h.coherent hfile).1
  cases hp : s.phase with
  | left => exact absurd hp hphase
  | top => exact ⟨[.senderTop 0], _, by simp [step, hp]; rfl, rfl⟩
  | draining now =>
    by_cases hdone : s.sender.totalPkts ≤ s.sender.sendBase
    · exact ⟨[.senderSend], _, by simp [step, hp, hdone]; rfl, rfl⟩
    · obtain ⟨ts, hsend, -⟩ := sendPhase_spec hcoh.sender.sized now
      exact ⟨[.senderSend, .senderTop 0], _, by
        simp [step, hp, hdone, hsend, afterSending]; rfl, rfl⟩

theorem left_step (hleft : s.phase = .left) {a : Action} (h : step clock s a = some t) :
    t.phase = .left := by
  cases step_effect h with
  | enter now hphase => simp [hleft] at hphase
  | leave => rfl
  | ack i now packet sender hphase => simp [hleft] at hphase
  | send now b hphase => simp [hleft] at hphase
  | _ => exact hleft

theorem stop_step (hstop : s.stop = true) {a : Action} (h : step clock s a = some t) :
    t.stop = true := by
  cases step_effect h with
  | stop => rfl
  | _ => exact hstop

/-- Once `stop` is set, the next loop test is the last. -/
theorem left_of_test (hstop : s.stop = true) {as : List Action}
    (hrun : Transition.run (step clock) s as = some t) {now : ℤ} (htest : .senderTop now ∈ as) :
    t.phase = .left := by
  induction as generalizing s with
  | nil => simp at htest
  | cons a as ih =>
    obtain ⟨u, hu, hrest⟩ := Option.bind_eq_some_iff.mp hrun
    rcases List.mem_cons.mp htest with rfl | hmem
    · obtain ⟨-, rfl⟩ : s.phase = .top ∧ { s with phase := .left } = u := by
        simpa [step, hstop] using hu
      exact Transition.run_invariant (fun v => v.phase = .left)
        (fun _ _ _ hv h => left_step hv h) rfl hrest
    · exact ih (stop_step hstop hu) hrest hmem

/-- Without `setStop` the sender can leave its loop with everything acknowledged exactly
while the receiver is running, or its last acknowledgement is in flight or has arrived.
After `setStop` it leaves at its next loop test, which it can always get to. -/
theorem sender_completes_iff (hfile : packetCount file.length ≤ 65535)
    (h : JointReachable steadyClock file s) (hphase : s.phase ≠ .left) (hstop : s.stop = false) :
    ((∃ as t, .setStop ∉ as ∧ Transition.run (step steadyClock) s as = some t ∧
        t.phase = .left ∧ t.sender.sendBase = t.sender.totalPkts) ↔
      s.result = none ∨ s.sender.sendBase = s.sender.totalPkts ∨
        ∃ p ∈ s.ackNet, ∃ sm, decode typeAck p = some (s.sender.totalPkts, sm)) ∧
    (∀ as t now, Transition.run (step steadyClock) s (.setStop :: as) = some t →
      .senderTop now ∈ as → t.phase = .left) ∧
    ∃ as t, Transition.run (step steadyClock) s (.setStop :: as) = some t ∧ t.phase = .left := by
  have hcoh := (h.coherent hfile).1
  refine ⟨⟨?_, fun hcase => ?_⟩, fun as t now hrun htest => ?_,
    h.exists_left_of_setStop hfile hphase⟩
  · rintro ⟨as, t, has, hrun, hleft, -⟩
    by_contra! hnot
    obtain ⟨hres, hbase, hack⟩ := hnot
    have hstr : Stranded s :=
      { result := hres
        stop := hstop
        phase := hphase
        base_lt := lt_of_le_of_ne hcoh.sendBase_le hbase
        acks := fun p hp ab sm hd => by
          obtain ⟨ab', sm', sender, hd', -, hle, -⟩ := hcoh.ack_accepted hfile (h.inv hfile) hp
          obtain ⟨rfl, rfl⟩ := Prod.mk.inj (Option.some.inj (hd'.symm.trans hd))
          exact lt_of_le_of_ne hle fun he => hack p hp sm' (he ▸ hd) }
    exact (hstr.run hfile h has hrun).phase hleft
  · have hlead : ∃ t, Leads Action.Cooperative (step steadyClock) s t ∧ Finished t := by
      rcases hcase with hres | hbase | ⟨p, hp, sm, hd⟩
      · exact h.exists_finished_of_running hfile ⟨hres, hstop⟩
      · exact exists_finished_of_base steadyClock hphase hbase
      · exact h.exists_finished_of_flight hfile hphase hstop hp hd
    obtain ⟨t, ⟨as, has, hrun⟩, hfin⟩ := hlead
    exact ⟨as, t, fun hmem => has _ hmem, hrun, hfin.phase, hfin.base⟩
  · exact left_of_test (s := { s with stop := true }) rfl hrun htest

theorem sender_completes_iff_one_byte :
    ∃ s as t, Transition.run (step steadyClock) (initial [dataPacket [0x89] 0] 1)
        [.senderTop 1, .senderSend, .receiverReceive 0 2] = some s ∧
      .setStop ∉ as ∧ Transition.run (step steadyClock) s as = some t ∧ t.phase = .left := by
  obtain ⟨s, hs, hphase, hstop, htotal, hnet⟩ : ∃ s ∈ Transition.run (step steadyClock)
      (initial [dataPacket [0x89] 0] 1) [.senderTop 1, .senderSend, .receiverReceive 0 2],
      s.phase = .top ∧ s.stop = false ∧ s.sender.totalPkts = 1 ∧
        s.ackNet = [buildAckPacket 1 0] := by decide +kernel
  have hflight : ∃ p ∈ s.ackNet, ∃ sm, decode typeAck p = some (s.sender.totalPkts, sm) :=
    ⟨buildAckPacket 1 0, by simp [hnet], 0, by rw [htotal]; decide⟩
  obtain ⟨as, t, has, ht, hleft, -⟩ := (sender_completes_iff (by decide +kernel)
    (reachable_one_byte rfl hs) (by simp [hphase]) hstop).1.mpr (Or.inr (Or.inr hflight))
  exact ⟨s, as, t, hs, has, ht, hleft⟩

/-- The file of one byte, with its acknowledgement lost after the receiver's return. -/
theorem sender_stranded_one_byte :
    ∃ s, Transition.run (step steadyClock) (initial [dataPacket [0x89] 0] 1)
        [.senderTop 1, .senderSend, .receiverReceive 0 2, .loseAck 0] = some s ∧
      JointReachable steadyClock [0x89] s ∧ s.phase ≠ .left ∧ s.stop = false ∧
      ∀ as t, .setStop ∉ as → Transition.run (step steadyClock) s as = some t →
        t.phase ≠ .left := by
  obtain ⟨s, hs, hres, hstop, hphase, hbase, htotal, hnet⟩ : ∃ s ∈ Transition.run
      (step steadyClock) (initial [dataPacket [0x89] 0] 1)
      [.senderTop 1, .senderSend, .receiverReceive 0 2, .loseAck 0],
      s.result = some [0x89] ∧ s.stop = false ∧ s.phase = .top ∧ s.sender.sendBase = 0 ∧
        s.sender.totalPkts = 1 ∧ s.ackNet = [] := by decide +kernel
  have hreach : JointReachable steadyClock [0x89] s := reachable_one_byte rfl hs
  have hstr : Stranded s :=
    { result := by simp [hres]
      stop := hstop
      phase := by simp [hphase]
      base_lt := by omega
      acks := by simp [hnet] }
  exact ⟨s, hs, hreach, hstr.phase, hstop,
    fun as t has ht => (hstr.run (by decide +kernel) hreach has ht).phase⟩

end RdtChallenge
