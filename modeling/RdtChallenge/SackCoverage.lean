import RdtChallenge.Progress

namespace RdtChallenge
open JointState

variable {file : List Byte} {s t : JointState} {clock : Clock}

/-- The acknowledgement built last says exactly what is held. -/
def ReportsHeld (r : ReceiverState) : Prop :=
  ∀ ab sm, decode typeAck r.lastAck = some (ab, sm) →
    ∀ i < r.expectedTotal, r.Held i ↔ i < ab ∨ ∃ j < 16, sm.testBit j ∧ i = ab + j

def WithinMask (r : ReceiverState) : Prop := ∀ i, r.Held i → i < r.recvExpected + 16

/-- `seq` and `total` of the data packet that an action hands to the receiver. -/
def arriving (s : JointState) : Action → Option (ℕ × ℕ)
  | .receiverReceive k _ => (s.dataNet[k]?).bind (decode typeData)
  | _ => none

def ArrivesWithinMask (s : JointState) (a : Action) : Prop :=
  ∀ x ∈ arriving s a, x.1 < s.receiver.recvExpected + 16

instance (s : JointState) (a : Action) : Decidable (ArrivesWithinMask s a) :=
  inferInstanceAs (Decidable (∀ x ∈ arriving s a, _))

/-- Below the end of the mask every acknowledgement is exact. -/
theorem ReceiverInv.reports {r : ReceiverState} (h : ReceiverInv r)
    (hsmall : r.recvExpected < 2 ^ 16) {ab sm : ℕ} (hd : decode typeAck r.lastAck = some (ab, sm)) :
    ab = r.recvExpected ∧ ∀ i, (i < ab ∨ ∃ j < 16, sm.testBit j ∧ i = ab + j) ↔
      r.Held i ∧ i < ab + 16 := by
  rcases h.lastAck with ⟨hempty, -⟩ | ⟨mask, hlast, hmasked⟩
  · rw [hempty] at hd
    cases hd
  · rw [hlast, decode_buildAckPacket hsmall] at hd
    obtain ⟨rfl, rfl⟩ := Prod.mk.inj (Option.some.inj hd)
    refine ⟨rfl, fun i => ⟨?_, fun ⟨hheld, hlt⟩ => ?_⟩⟩
    · rintro (hlt | ⟨j, hj, hbit, rfl⟩)
      · exact ⟨h.least.below i hlt, by omega⟩
      · exact ⟨(hmasked j hj).mp hbit, by omega⟩
    · by_cases hi : i < r.recvExpected
      · exact Or.inl hi
      · obtain ⟨j, rfl⟩ := Nat.exists_eq_add_of_le (not_lt.mp hi)
        have hj : j < 16 := by omega
        exact Or.inr ⟨j, hj, (hmasked j hj).mpr hheld, rfl⟩

theorem ReceiverInv.reportsHeld_iff {r : ReceiverState} (h : ReceiverInv r)
    (hsmall : r.recvExpected < 2 ^ 16) : ReportsHeld r ↔ WithinMask r := by
  constructor
  · intro hrep i hheld
    rcases h.lastAck with ⟨-, hnone⟩ | ⟨mask, hlast, -⟩
    · exact absurd hheld (hnone i)
    · have hd : decode typeAck r.lastAck = some (r.recvExpected, mask.toNat) := by
        rw [hlast, decode_buildAckPacket hsmall]
      exact (((h.reports hsmall hd).2 i).mp ((hrep _ _ hd i (hheld.lt h.sized)).mp hheld)).2
  · intro hwithin ab sm hd i hi
    obtain ⟨rfl, hiff⟩ := h.reports hsmall hd
    rw [hiff i]
    exact ⟨fun hheld => ⟨hheld, hwithin i hheld⟩, And.left⟩

theorem Coherent.recvExpected_lt_two_pow (h : Coherent file s)
    (hfile : packetCount file.length ≤ 65535) : s.receiver.recvExpected < 2 ^ 16 := by
  have := h.receiver.least.le
  rcases h.announced with h0 | hT <;> omega

theorem arrivesWithinMask_of_none {a : Action} (h : arriving s a = none) :
    ArrivesWithinMask s a := by simp [ArrivesWithinMask, h]

theorem Action.ByNetwork.arriving {a : Action} (ha : a.ByNetwork) (s : JointState) :
    arriving s a = none := by
  cases a with
  | receiverReceive => exact ha.elim
  | _ => rfl

/-- A packet that arrives within the reach of the mask leaves all that is held within it,
and one that arrives past it does not: it moves `recvExpected` not at all. -/
theorem Coherent.withinMask_receive (h : Coherent file s) (hfile : packetCount file.length ≤ 65535)
    (hw : WithinMask s.receiver) {k : ℕ} {now : ℤ} {packet : Packet} {b : Reception}
    {result : Option (List Value)} (hget : s.dataNet[k]? = some packet)
    (hrun : RdtChallenge.receiverIteration s.receiver packet now = some (b, result)) :
    WithinMask b.state ↔ ArrivesWithinMask s (.receiverReceive k now) := by
  obtain ⟨i, -, hin, rfl⟩ := h.mem_dataNet (List.mem_of_getElem? hget)
  obtain ⟨r', mask, hrun', -, hleast, -, hstored, -⟩ := h.receiverIteration hfile hin now
  rw [hrun', Option.some.injEq, Prod.mk.injEq] at hrun
  obtain ⟨rfl, -⟩ := hrun
  have hgrows := hstored.recvExpected
  have harrives : ArrivesWithinMask s (.receiverReceive k now) ↔
      i < s.receiver.recvExpected + 16 := by
    simp [ArrivesWithinMask, arriving, hget, decode_dataPacket hin hfile]
  rw [harrives]
  constructor
  · intro hw'
    by_contra hfar
    -- to reach `i` the new `recvExpected` has to pass the old one, which is still missing
    have hlt : i < r'.recvExpected + 16 := hw' i ((hstored.held i).mpr (Or.inr ⟨rfl, hin⟩))
    have hold : r'.Held s.receiver.recvExpected := hleast.below _ (by omega)
    rcases (hstored.held _).mp hold with hheld | ⟨rfl, -⟩
    · exact h.receiver.least.missing hheld
    · omega
  · intro hi j hj
    have : j < s.receiver.recvExpected + 16 := by
      rcases (hstored.held j).mp hj with hheld | ⟨rfl, -⟩
      · exact hw j hheld
      · exact hi
    dsimp only
    omega

theorem Coherent.withinMask_step (h : Coherent file s) (hfile : packetCount file.length ≤ 65535)
    (hw : WithinMask s.receiver) {a : Action} (hstep : step clock s a = some t) :
    WithinMask t.receiver ↔ ArrivesWithinMask s a := by
  cases step_effect hstep with
  | enter now => exact ⟨fun _ => arrivesWithinMask_of_none rfl, fun _ => hw⟩
  | leave ha =>
    rcases ha with rfl | ⟨now, rfl⟩ <;> exact ⟨fun _ => arrivesWithinMask_of_none rfl, fun _ => hw⟩
  | stop => exact ⟨fun _ => arrivesWithinMask_of_none rfl, fun _ => hw⟩
  | network ha => exact ⟨fun _ => arrivesWithinMask_of_none (ha.arriving s), fun _ => hw⟩
  | ack i => exact ⟨fun _ => arrivesWithinMask_of_none rfl, fun _ => hw⟩
  | send now => exact ⟨fun _ => arrivesWithinMask_of_none rfl, fun _ => hw⟩
  | reject k now packet b result hresult hget hrun hsent =>
    exact absurd hsent (h.not_reject hfile hget hrun)
  | receive k now packet b result hresult hget hclock hrun hsent =>
    exact h.withinMask_receive hfile hw hget hrun
  | idle now =>
    refine ⟨fun _ => arrivesWithinMask_of_none rfl, fun _ => ?_⟩
    simp only [afterReceiving, keepAlive]
    split_ifs
    · exact hw
    · exact hw
  | fault hwhy => exact absurd hwhy (h.not_fault hfile)

theorem SenderInv.not_transmitted {s : SenderState} (h : SenderInv s) {i : ℕ} (hi : s.Acked i)
    (now : ℤ) : i ∉ s.transmitted now := by
  have hlt := h.acked_lt i hi
  intro hmem
  rcases SenderState.mem_transmitted.mp hmem with ⟨-, -, hdue⟩ | ⟨hle, -⟩
  · simp only [SenderState.due, Bool.and_eq_true, beq_iff_eq] at hdue
    rw [SenderState.Acked, hdue.1] at hi
    cases hi
  · omega

theorem dataPacket_inj {i j : ℕ} (hfile : packetCount file.length ≤ 65535)
    (hi : i < packetCount file.length) (hj : j < packetCount file.length)
    (h : dataPacket file i = dataPacket file j) : i = j := by
  have hd := decode_dataPacket hi hfile
  rw [h, decode_dataPacket hj hfile] at hd
  exact (Prod.mk.inj (Option.some.inj hd)).1.symm

theorem Coherent.not_sent (h : Coherent file s) (hfile : packetCount file.length ≤ 65535) {i : ℕ}
    (hi : s.sender.Acked i) {now : ℤ} {b : Sending} (hrun : sendPhase now s.sender = some b) :
    dataPacket file i ∉ b.sent := by
  obtain ⟨ts, rfl, -⟩ := sendPhase_eq h.sender.sized hrun
  intro hmem
  obtain ⟨j, hj, heq⟩ := List.mem_map.mp hmem
  have hjT : j < packetCount file.length := by
    rw [← h.totalPkts]
    exact h.sender.transmitted_lt hj
  rw [h.packet hjT] at heq
  have hiT : i < packetCount file.length := h.totalPkts ▸ hi.lt h.sender.sized
  obtain rfl := dataPacket_inj hfile hjT hiT heq
  exact h.sender.not_transmitted hi now hj

theorem Coherent.acked_step (h : Coherent file s) {i : ℕ} (hi : s.sender.Acked i) {a : Action}
    (hstep : step clock s a = some t) : t.sender.Acked i := by
  cases step_effect hstep with
  | ack k now packet sender hphase hget hrun =>
    obtain ⟨-, hgrows, -⟩ := h.sender.processAck hrun
    exact hgrows.acked i hi
  | send now b hphase hlt hrun =>
    obtain ⟨ts, rfl, -⟩ := sendPhase_eq h.sender.sized hrun
    exact hi
  | _ => exact hi

/-- Once the acknowledgement built last has been taken by the sender, all that was held when
it was built stays acknowledged and is never sent again. -/
def Settled (clock : Clock) (file : List Byte) (s : JointState) : Prop :=
  ∀ as u k v, Transition.run (step clock) s as = some u →
    u.ackNet[k]? = some s.receiver.lastAck → step clock u (.senderReceive k) = some v →
    ∀ i, s.receiver.Held i → ∀ bs w, Transition.run (step clock) v bs = some w →
      w.sender.Acked i ∧ ∀ now b, sendPhase now w.sender = some b → dataPacket file i ∉ b.sent

theorem JointReachable.settled (hfile : packetCount file.length ≤ 65535)
    (h : JointReachable clock file s) (hw : WithinMask s.receiver) : Settled clock file s := by
  intro as u k v hu hget hstep i hi bs w hw'
  have hcoh := (h.coherent hfile).1
  have hru := h.run hu
  have hcohu := (hru.coherent hfile).1
  obtain ⟨ab, sm, sender, hd, -, -, -, hrun, -, hbelow, hbits⟩ :=
    hcohu.ack_accepted hfile (hru.inv hfile) (List.mem_of_getElem? hget)
  obtain ⟨rfl, hiff⟩ := hcoh.receiver.reports (hcoh.recvExpected_lt_two_pow hfile) hd
  have hacked : v.sender.Acked i := by
    cases step_effect hstep with
    | ack _ now packet sender' hphase hget' hrun' =>
      obtain rfl := Option.some.inj (hget.symm.trans hget')
      obtain rfl := Option.some.inj (hrun.symm.trans hrun')
      rcases (hiff i).mpr ⟨hi, hw i hi⟩ with hlt | ⟨j, hj, hbit, rfl⟩
      · exact hbelow i hlt
      · exact hbits j hj hbit
    | leave ha => simp at ha
    | network ha => exact ha.elim
    | fault hwhy => exact absurd hwhy (hcohu.not_fault hfile)
  have hlater : JointReachable clock file w ∧ w.sender.Acked i := by
    refine Transition.run_invariant (fun x => JointReachable clock file x ∧ x.sender.Acked i) ?_
      ⟨hru.tail hstep, hacked⟩ hw'
    rintro x a y ⟨hx, hax⟩ hxy
    exact ⟨hx.tail hxy, (hx.coherent hfile).1.acked_step hax hxy⟩
  exact ⟨hlater.2, fun now b => (hlater.1.coherent hfile).1.not_sent hfile hlater.2⟩

/-- In a run every acknowledgement reports exactly what is held, and once taken keeps all
of that from being sent again, if and only if no data packet ever arrives sixteen or
more places ahead of `recvExpected`. -/
theorem sack_covers_iff (hfile : packetCount file.length ≤ 65535) {packets : List Packet} {now : ℤ}
    (hp : packetBuffer (getFileContents file) = some packets) (hclock : clock 0 now = true)
    {as : List Action} (hrun : Transition.run (step clock) (initial packets now) as = some s) :
    (∀ u ∈ Transition.states (step clock) (initial packets now) as,
      ReportsHeld u.receiver ∧ Settled clock file u) ↔
    ∀ x ∈ Transition.steps (step clock) (initial packets now) as, ArrivesWithinMask x.1 x.2 := by
  have hiff : ∀ u, JointReachable clock file u →
      (ReportsHeld u.receiver ∧ Settled clock file u ↔ WithinMask u.receiver) := by
    intro u hu
    have hcoh := (hu.coherent hfile).1
    rw [hcoh.receiver.reportsHeld_iff (hcoh.recvExpected_lt_two_pow hfile)]
    exact ⟨And.left, fun hw => ⟨hw, hu.settled hfile hw⟩⟩
  have hstart : JointReachable clock file (initial packets now) :=
    ⟨packets, now, hp, hclock, .refl _ _⟩
  refine Transition.states_iff_steps (JointReachable clock file)
    (fun u => ReportsHeld u.receiver ∧ Settled clock file u) ArrivesWithinMask
    (fun u a v hu => hu.tail) ?_ hstart ?_ hrun
  · intro u a v hu hQ hstep
    rw [hiff v (hu.tail hstep)]
    exact (hu.coherent hfile).1.withinMask_step hfile ((hiff u hu).mp hQ) hstep
  · exact (hiff _ hstart).mpr fun i hi => absurd hi (by
      simp [ReceiverState.Held, initial, receiverStart])

theorem sack_covers_eighteen :
    ∃ s, Transition.run (step steadyClock) countingStart holdBackFirst.dropLast = some s ∧
      s.receiver.Held 15 ∧ ¬ s.receiver.Held 0 ∧
      ∀ u ∈ Transition.states (step steadyClock) countingStart holdBackFirst.dropLast,
        ReportsHeld u.receiver ∧ Settled steadyClock countingFile u := by
  obtain ⟨s, hs, hheld, hmissing⟩ :
      ∃ s ∈ Transition.run (step steadyClock) countingStart holdBackFirst.dropLast,
        s.receiver.Held 15 ∧ ¬ s.receiver.Held 0 := by
    decide +kernel
  exact ⟨s, hs, hheld, hmissing, (sack_covers_iff (by decide +kernel) packetBuffer_countingFile
    rfl hs).mpr (by decide +kernel)⟩

/-- The receiver answers the seventeenth packet with an acknowledgement that does not
report it, and the sender, having taken that, sends the packet once more. -/
theorem sack_misses_seventeenth :
    ∃ s, JointReachable steadyClock countingFile s ∧ s.receiver.Held 16 ∧ ¬ ReportsHeld s.receiver ∧
      s.ackNet[14]? = some s.receiver.lastAck ∧
      ∃ t, Transition.run (step steadyClock) s
          [.senderTop 5, .senderReceive 14, .senderSend, .senderTop 800] = some t ∧
        ¬ t.sender.Acked 16 ∧ ∃ b, sendPhase 800 t.sender = some b ∧
          dataPacket countingFile 16 ∈ b.sent := by
  obtain ⟨s, hs, hheld, htotal, hlast, hnet, t, ht, hacked, b, hb, hmem⟩ :
      ∃ s ∈ Transition.run (step steadyClock) countingStart holdBackFirst,
      s.receiver.Held 16 ∧ s.receiver.expectedTotal = 18 ∧
        decode typeAck s.receiver.lastAck = some (0, 0xFFFE) ∧
        s.ackNet[14]? = some s.receiver.lastAck ∧
        ∃ t ∈ Transition.run (step steadyClock) s
          [.senderTop 5, .senderReceive 14, .senderSend, .senderTop 800],
        ¬ t.sender.Acked 16 ∧
          ∃ b ∈ sendPhase 800 t.sender, dataPacket countingFile 16 ∈ b.sent := by
    decide +kernel
  refine ⟨s, reachable_counting hs, hheld, fun hrep => ?_, hnet, t, ht, hacked, b, hb, hmem⟩
  rcases (hrep 0 0xFFFE hlast 16 (by omega)).mp hheld with hlt | ⟨j, hj, -, he⟩ <;> omega

end RdtChallenge
