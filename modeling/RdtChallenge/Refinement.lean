import RdtChallenge.Safety
import RdtChallenge.Stack

namespace RdtChallenge
open JointState

variable {clock : Clock} {j : JointState}

theorem mem_eraseIdx_append {α : Type} {l : List α} {i : ℕ} {x : α} (hi : l[i]? = some x) :
    ∀ y ∈ l, y ∈ (l ++ [x]).eraseIdx i := by
  intro y hy
  have hlt : i < l.length := (List.getElem?_eq_some_iff.mp hi).1
  rw [List.eraseIdx_append_of_lt_length hlt, List.mem_append, List.mem_singleton]
  obtain ⟨k, hk⟩ := List.mem_iff_getElem?.mp hy
  by_cases hki : k = i
  · subst hki
    exact Or.inr (Option.some.inj (hk.symm.trans hi))
  · exact Or.inl (List.mem_eraseIdx_iff_getElem?.mpr ⟨k, hki, hk⟩)

theorem getElem?_append_copy {α : Type} {l : List α} {i : ℕ} {x : α} (hi : l[i]? = some x) :
    (l ++ [x])[i]? = some x := by
  rw [List.getElem?_append_left (List.getElem?_eq_some_iff.mp hi).1, hi]

variable (clock) in
theorem exists_ack {now : ℤ} {packet : Packet} {sender : SenderState}
    (hphase : j.phase = .draining now) (hmem : packet ∈ j.ackNet)
    (hrun : processAck j.sender packet = some sender) :
    ∃ i ackNet, (∀ p ∈ j.ackNet, p ∈ ackNet) ∧ j.ackNet[i]? = some packet ∧
      Transition.run (step clock) j [.duplicateAck i, .senderReceive i] =
        some { j with sender, ackNet } := by
  obtain ⟨i, hi⟩ := List.mem_iff_getElem?.mp hmem
  refine ⟨i, _, mem_eraseIdx_append hi, hi, ?_⟩
  have hcopy := getElem?_append_copy hi
  simp [step, hi, hcopy, deliverAck, hphase, hrun]

variable (clock) in
theorem exists_data {now : ℤ} {packet : Packet} {b : Reception} {result : Option (List Value)}
    (hresult : j.result = none) (hmem : packet ∈ j.dataNet)
    (hrun : receiverIteration j.receiver packet now = some (b, result)) :
    ∃ i dataNet, (∀ p ∈ j.dataNet, p ∈ dataNet) ∧ j.dataNet[i]? = some packet ∧
      (b.sent = [] →
        Transition.run (step clock) j [.duplicateData i, .receiverReceive i now] =
          some { j with receiver := b.state, dataNet }) ∧
      (b.sent ≠ [] → clock j.receiverClock now = true →
        Transition.run (step clock) j [.duplicateData i, .receiverReceive i now] =
          some { j.afterReceiving b now with dataNet, result }) := by
  obtain ⟨i, hi⟩ := List.mem_iff_getElem?.mp hmem
  have hcopy := getElem?_append_copy hi
  refine ⟨i, _, mem_eraseIdx_append hi, hi, fun hsent => ?_, fun hsent hclock => ?_⟩
  · simp [step, hi, hcopy, deliverData, hresult, hrun, hsent]
  · simp [step, hi, hcopy, deliverData, hresult, hrun, hsent, hclock, afterReceiving]

namespace Process

/-- The thread of the sender, or what it will be. -/
def thread (p : Process) (file : List Byte) (packets : List Packet) : SenderThread :=
  p.sender.getD ⟨file, senderStart packets, .top, false, [], 0⟩

def call (p : Process) (now : ℤ) : ReceiverCall :=
  p.receiver.getD ⟨now, receiverStart now, false, [], none, now⟩

def Takes (p q : Process) (packet : Packet) : Prop :=
  ∃ rest, p.client.inputPacketBuffer = packet :: rest ∧ q.client.inputPacketBuffer = rest

theorem not_takes {p q : Process} {packet : Packet}
    (h : p.client.inputPacketBuffer.length ≤ q.client.inputPacketBuffer.length) :
    ¬ p.Takes q packet := by
  rintro ⟨rest, hp, hq⟩
  simp [hp, hq] at h

end Process

/-- What the sender's process is for the protocol. -/
structure SourceSim (file : List Byte) (packets : List Packet) (p : Process) (j : JointState) :
    Prop where
  state : j.sender = (p.thread file packets).state
  phase : j.phase = (p.thread file packets).phase
  clock : j.senderClock = (p.thread file packets).clock
  stop : j.stop = p.stop
  handed : ∀ packet ∈ p.handed, carry packet ∈ j.dataNet
  pending : ∀ packet ∈ (p.thread file packets).pending, carry packet ∈ j.dataNet
  sent : j.sentData = p.handed ++ (p.thread file packets).pending
  idle : (p.thread file packets).phase ≠ .top → (p.thread file packets).pending = []
  undefined : p.ended = some .undefined → p.sender.isSome = true → j.undefined = true

structure SinkSim (now : ℤ) (p : Process) (j : JointState) : Prop where
  state : j.receiver = (p.call now).state
  result : j.result = (p.call now).result
  clock : j.receiverClock = (p.call now).clock
  handed : ∀ packet ∈ p.handed, carry packet ∈ j.ackNet
  pending : ∀ packet ∈ (p.call now).pending, carry packet ∈ j.ackNet
  sent : j.sentAcks = p.handed ++ (p.call now).pending
  receiving : (p.call now).receiving = true →
    (p.call now).result = none ∧ (p.call now).pending = []
  undefined : p.ended = some .undefined → p.receiver.isSome = true → j.undefined = true

structure KeepsSink (j j' : JointState) : Prop where
  receiver : j'.receiver = j.receiver
  result : j'.result = j.result
  clock : j'.receiverClock = j.receiverClock
  ackNet : ∀ p ∈ j.ackNet, p ∈ j'.ackNet
  sentAcks : j'.sentAcks = j.sentAcks
  undefined : j.undefined = true → j'.undefined = true

structure KeepsSource (j j' : JointState) : Prop where
  sender : j'.sender = j.sender
  phase : j'.phase = j.phase
  clock : j'.senderClock = j.senderClock
  stop : j'.stop = j.stop
  dataNet : ∀ p ∈ j.dataNet, p ∈ j'.dataNet
  sentData : j'.sentData = j.sentData
  undefined : j.undefined = true → j'.undefined = true

variable {S T : Settings} {p q : Process} {a : ProcessAction} {file : List Byte}
  {packets : List Packet} {start : ℤ} {j' : JointState}

theorem KeepsSink.refl (j : JointState) : KeepsSink j j :=
  ⟨rfl, rfl, rfl, fun _ => id, rfl, id⟩

theorem KeepsSource.refl (j : JointState) : KeepsSource j j :=
  ⟨rfl, rfl, rfl, rfl, fun _ => id, rfl, id⟩

theorem SinkSim.keep (h : SinkSim start p j) (hk : KeepsSink j j') : SinkSim start p j' where
  state := hk.receiver.trans h.state
  result := hk.result.trans h.result
  clock := hk.clock.trans h.clock
  handed packet hp := hk.ackNet _ (h.handed packet hp)
  pending packet hp := hk.ackNet _ (h.pending packet hp)
  sent := hk.sentAcks.trans h.sent
  receiving := h.receiving
  undefined hp hr := hk.undefined (h.undefined hp hr)

theorem SourceSim.keep (h : SourceSim file packets p j) (hk : KeepsSource j j') :
    SourceSim file packets p j' where
  state := hk.sender.trans h.state
  phase := hk.phase.trans h.phase
  clock := hk.clock.trans h.clock
  stop := hk.stop.trans h.stop
  handed packet hp := hk.dataNet _ (h.handed packet hp)
  pending packet hp := hk.dataNet _ (h.pending packet hp)
  sent := hk.sentData.trans h.sent
  idle := h.idle
  undefined hp hs := hk.undefined (h.undefined hp hs)

theorem SourceSim.same (h : SourceSim file packets p j) (hsender : q.sender = p.sender)
    (hstop : q.stop = p.stop) (hhanded : q.handed = p.handed)
    (hended : q.ended = some .undefined → q.sender.isSome = true → j.undefined = true) :
    SourceSim file packets q j := by
  have hthread : q.thread file packets = p.thread file packets := by
    rw [Process.thread, hsender, Process.thread]
  constructor
  case undefined => exact hended
  case stop => exact hstop ▸ h.stop
  case handed => exact hhanded ▸ h.handed
  all_goals simp only [hthread, hhanded]
  exacts [h.state, h.phase, h.clock, h.pending, h.sent, h.idle]

theorem SinkSim.same (h : SinkSim start p j) (hreceiver : q.receiver = p.receiver)
    (hhanded : q.handed = p.handed)
    (hended : q.ended = some .undefined → q.receiver.isSome = true → j.undefined = true) :
    SinkSim start q j := by
  have hcall : q.call start = p.call start := by
    rw [Process.call, hreceiver, Process.call]
  constructor
  case undefined => exact hended
  case handed => exact hhanded ▸ h.handed
  all_goals simp only [hcall, hhanded]
  exacts [h.state, h.result, h.clock, h.pending, h.sent, h.receiving]

structure SourceSim.Thread (p : Process) (j : JointState) (t : SenderThread) : Prop where
  state : j.sender = t.state
  phase : j.phase = t.phase
  clock : j.senderClock = t.clock
  pending : ∀ packet ∈ t.pending, carry packet ∈ j.dataNet
  sent : j.sentData = p.handed ++ t.pending
  idle : t.phase ≠ .top → t.pending = []

theorem SourceSim.thread (h : SourceSim file packets p j) {t : SenderThread}
    (ht : p.sender = some t) : SourceSim.Thread p j t := by
  have hthread : p.thread file packets = t := by simp [Process.thread, ht]
  exact ⟨hthread ▸ h.state, hthread ▸ h.phase, hthread ▸ h.clock, hthread ▸ h.pending,
    hthread ▸ h.sent, hthread ▸ h.idle⟩

structure SinkSim.Call (p : Process) (j : JointState) (r : ReceiverCall) : Prop where
  state : j.receiver = r.state
  result : j.result = r.result
  clock : j.receiverClock = r.clock
  pending : ∀ packet ∈ r.pending, carry packet ∈ j.ackNet
  sent : j.sentAcks = p.handed ++ r.pending
  receiving : r.receiving = true → r.result = none ∧ r.pending = []

theorem SinkSim.call (h : SinkSim start p j) {r : ReceiverCall} (hr : p.receiver = some r) :
    SinkSim.Call p j r := by
  have hcall : p.call start = r := by simp [Process.call, hr]
  exact ⟨hcall ▸ h.state, hcall ▸ h.result, hcall ▸ h.clock, hcall ▸ h.pending, hcall ▸ h.sent,
    hcall ▸ h.receiving⟩

/-- None, one or two steps of the protocol account for a step of the sender's process. What
that takes off the queue they take from the network. -/
def SourceFollows (clock : Clock) (file : List Byte) (packets : List Packet) (p q : Process)
    (j : JointState) : Prop :=
  ∃ as j', as.length ≤ 2 ∧ Transition.run (step clock) j as = some j' ∧
    SourceSim file packets q j' ∧ KeepsSink j j' ∧
    ∀ packet, p.Takes q packet →
      ∃ i, as = [.duplicateAck i, .senderReceive i] ∧ j.ackNet[i]? = some packet

def SinkFollows (clock : Clock) (start : ℤ) (p q : Process) (j : JointState) : Prop :=
  ∃ as j', as.length ≤ 2 ∧ Transition.run (step clock) j as = some j' ∧
    SinkSim start q j' ∧ KeepsSource j j' ∧
    ∀ packet, p.Takes q packet → ∃ i now,
      as = [.duplicateData i, .receiverReceive i now] ∧ j.dataNet[i]? = some packet

theorem SourceFollows.stay (hsim : SourceSim file packets q j)
    (hqueue : p.client.inputPacketBuffer.length ≤ q.client.inputPacketBuffer.length) :
    SourceFollows clock file packets p q j :=
  ⟨[], j, by simp, rfl, hsim, .refl j, fun _ htakes => absurd htakes (Process.not_takes hqueue)⟩

theorem SourceFollows.single (b : Action) (j' : JointState) (hstep : step clock j b = some j')
    (hsim : SourceSim file packets q j') (hkeep : KeepsSink j j')
    (hqueue : p.client.inputPacketBuffer.length ≤ q.client.inputPacketBuffer.length) :
    SourceFollows clock file packets p q j :=
  ⟨[b], j', by simp, by simp [hstep], hsim, hkeep,
    fun _ htakes => absurd htakes (Process.not_takes hqueue)⟩

theorem SinkFollows.stay (hsim : SinkSim start q j)
    (hqueue : p.client.inputPacketBuffer.length ≤ q.client.inputPacketBuffer.length) :
    SinkFollows clock start p q j :=
  ⟨[], j, by simp, rfl, hsim, .refl j, fun _ htakes => absurd htakes (Process.not_takes hqueue)⟩

theorem SinkFollows.single (b : Action) (j' : JointState) (hstep : step clock j b = some j')
    (hsim : SinkSim start q j') (hkeep : KeepsSource j j')
    (hqueue : p.client.inputPacketBuffer.length ≤ q.client.inputPacketBuffer.length) :
    SinkFollows clock start p q j :=
  ⟨[b], j', by simp, by simp [hstep], hsim, hkeep,
    fun _ htakes => absurd htakes (Process.not_takes hqueue)⟩

theorem handleMessage_length {input : Input} {m : Message} {chunk : List Byte}
    {c c' c'' : ClientState} (hget : getControlMessage chunk c = .ok c')
    (hhandle : handleMessage input m c' = (c'', none)) :
    c.inputPacketBuffer.length ≤ c''.inputPacketBuffer.length := by
  have hframe := handleMessage_frame input m c'
  rw [hhandle] at hframe
  obtain ⟨_, _, rfl⟩ := getControlMessage_frame hget
  rcases hframe.inputPacketBuffer with hsame | ⟨-, happend⟩
  · exact (congrArg List.length hsame).ge
  · exact (List.prefix_append _ _).length_le.trans (congrArg List.length happend).ge

theorem SourceSim.fault (h : SourceSim file packets p j) {t : SenderThread} {now : ℤ}
    (ht : p.sender = some t) (hphase : t.phase = .draining now)
    (hqueue : ∀ packet ∈ p.client.inputPacketBuffer, packet ∈ j.ackNet)
    (hwhy : (∃ packet ∈ p.client.inputPacketBuffer, processAck t.state packet = none) ∨
      t.state.sendBase < t.state.totalPkts ∧ sendPhase now t.state = none) :
    ∃ b, step clock j b = some j.fault := by
  have hthread := h.thread ht
  rcases hwhy with ⟨packet, hmem, hrun⟩ | ⟨hlt, hrun⟩
  · obtain ⟨i, hi⟩ := List.mem_iff_getElem?.mp (hqueue packet hmem)
    refine ⟨.senderReceive i, ?_⟩
    simp [RdtChallenge.step, hi, deliverAck, hthread.phase, hphase, hthread.state, hrun]
  · refine ⟨.senderSend, ?_⟩
    simp [RdtChallenge.step, hthread.phase, hphase, hthread.state, not_le.mpr hlt, hrun]

theorem Process.not_undefined (hended : p.ended = none) {b c : Bool} :
    p.ended = some .undefined → b = true → c = true := by simp [hended]

theorem SourceSim.exit (h : SourceSim file packets p j) (hsound : p.Sound)
    (hreceiver : p.receiver = none)
    (hqueue : ∀ packet ∈ p.client.inputPacketBuffer, packet ∈ j.ackNet) {why : Ending}
    (hwhy : p.EndsBy why) : SourceFollows clock file packets p (p.exit why) j := by
  have hsame : why ≠ .undefined → SourceSim file packets (p.exit why) j := fun hne =>
    h.same rfl rfl rfl fun hp _ => absurd (Option.some.inj hp) hne
  cases why with
  | undefined =>
    rcases hwhy with ⟨hmain, -⟩ | ⟨t, ht, now, hphase, hwhy⟩ | ⟨r, hr, -⟩
    · obtain ⟨⟨-, hsends, -⟩, -⟩ := hsound.at hmain
      have hsends' : p.sender.isSome = false := hsends
      exact .stay (h.same rfl rfl rfl fun _ hs => absurd (hsends'.symm.trans hs) (by simp)) le_rfl
    · obtain ⟨b, hb⟩ : ∃ b, RdtChallenge.step clock j b = some j.fault :=
        h.fault ht hphase hqueue hwhy
      exact .single _ _ hb ⟨h.state, h.phase, h.clock, h.stop, h.handed, h.pending, h.sent,
        h.idle, fun _ _ => rfl⟩ ⟨rfl, rfl, rfl, fun _ => id, rfl, fun _ => rfl⟩ le_rfl
    · simp [hreceiver] at hr
  | _ => exact .stay (hsame (by simp)) le_rfl

theorem SourceSim.leave (h : SourceSim file packets p j) (now : ℤ) (hended : p.ended = none)
    {t : SenderThread} (ht : p.sender = some t) (hphase : t.phase = .top)
    (hpending : t.pending = []) (hwhy : p.stop = true ∨ t.state.totalPkts ≤ t.state.sendBase) :
    SourceFollows clock file packets p { p with sender := some { t with phase := .left } } j := by
  have hthread := h.thread ht
  refine .single (.senderTop now) { j with phase := .left } ?_ ?_
    ⟨rfl, rfl, rfl, fun _ => id, rfl, id⟩ le_rfl
  · simp only [RdtChallenge.step, hthread.phase, hphase, ne_eq, not_true_eq_false, if_false,
      h.stop, hthread.state]
    rw [if_neg]
    rintro ⟨hstop, hlt⟩
    rcases hwhy with hstop' | hle
    · exact hstop hstop'
    · omega
  · exact ⟨hthread.state, rfl, hthread.clock, h.stop, h.handed, hthread.pending, hthread.sent,
      fun _ => hpending, p.not_undefined hended⟩

theorem SourceSim.acknowledge (h : SourceSim file packets p j) (hended : p.ended = none)
    (hqueue : ∀ packet ∈ p.client.inputPacketBuffer, packet ∈ j.ackNet) {t : SenderThread}
    {now : ℤ} {packet : Packet} {rest : List Packet} {state : SenderState}
    (ht : p.sender = some t) (hphase : t.phase = .draining now)
    (hfirst : p.client.inputPacketBuffer = packet :: rest)
    (hrun : processAck t.state packet = some state) :
    SourceFollows clock file packets p
      { p with
        client := { p.client with inputPacketBuffer := rest }
        sender := some { t with state, receiving := false } } j := by
  have hthread := h.thread ht
  obtain ⟨i, ackNet, hack, hi, hrun'⟩ := exists_ack clock (hthread.phase.trans hphase)
    (hqueue packet (by simp [hfirst])) (hthread.state ▸ hrun)
  refine ⟨_, _, le_rfl, hrun', ⟨rfl, hthread.phase, hthread.clock, h.stop, h.handed,
    hthread.pending, hthread.sent, hthread.idle, p.not_undefined hended⟩,
    ⟨rfl, rfl, rfl, hack, rfl, id⟩, ?_⟩
  rintro packet' ⟨rest', hp, -⟩
  obtain ⟨rfl, -⟩ := List.cons.inj (hfirst.symm.trans hp)
  exact ⟨i, rfl, hi⟩

theorem SourceSim.send (h : SourceSim file packets p j) (hended : p.ended = none)
    {t : SenderThread} {now : ℤ} {b : Sending} (ht : p.sender = some t)
    (hphase : t.phase = .draining now) (hlt : t.state.sendBase < t.state.totalPkts)
    (hrun : sendPhase now t.state = some b) :
    SourceFollows clock file packets p
      { p with sender := some { t with
        state := b.state, phase := .top, receiving := false, pending := b.sent } } j := by
  have hthread := h.thread ht
  have hpending := hthread.idle (by simp [hphase])
  refine .single .senderSend (j.afterSending b) ?_ ?_
    ⟨rfl, rfl, rfl, fun _ => id, rfl, id⟩ le_rfl
  · simp [RdtChallenge.step, hthread.phase, hphase, hthread.state, not_le.mpr hlt, hrun]
  · refine ⟨rfl, rfl, hthread.clock, h.stop, fun packet hp => ?_, fun packet hp => ?_, ?_,
      fun hne => absurd rfl hne, p.not_undefined hended⟩
    · exact List.mem_append_left _ (h.handed packet hp)
    · exact List.mem_append_right _ (List.mem_map_of_mem hp)
    · simp [afterSending, hthread.sent, hpending, Process.thread]

theorem SourceSim.push (h : SourceSim file packets p j) (hended : p.ended = none)
    {t : SenderThread} {packet : Packet} {rest : List Packet} (ht : p.sender = some t)
    (hpending : t.pending = packet :: rest) :
    SourceFollows clock file packets p
      { p.push packet with sender := some { t with pending := rest } } j := by
  have hthread := h.thread ht
  have hpending' := hthread.pending
  have hsent := hthread.sent
  rw [hpending, List.forall_mem_cons] at hpending'
  refine .stay ⟨hthread.state, hthread.phase, hthread.clock, h.stop, fun p' hp' => ?_,
    hpending'.2, ?_, fun hne => ?_, p.not_undefined hended⟩ le_rfl
  · rcases List.mem_append.mp hp' with hp' | hp'
    · exact h.handed p' hp'
    · exact List.mem_singleton.mp hp' ▸ hpending'.1
  · simp [hsent, hpending, Process.thread, Process.push]
  · exact absurd (hpending.symm.trans (hthread.idle hne)) (List.cons_ne_nil _ _)

/-- Before the thread there is the state that it starts with. -/
theorem SourceSim.spawn (h : SourceSim file packets p j) (hsound : p.Sound)
    (hended : p.ended = none) (hmain : p.main = .launching) :
    SourceFollows clock file packets p
      { p with
        main := .joiningLoop
        sender := some ⟨file, senderStart packets, .top, false, [], 0⟩ } j := by
  obtain ⟨⟨-, hsends, -⟩, -⟩ := hsound.at hmain
  have hnone : p.sender = none := by simpa [Process.control] using hsends
  have hthread : p.thread file packets = ⟨file, senderStart packets, .top, false, [], 0⟩ := by
    simp [Process.thread, hnone]
  have hstate := h.state
  have hphase := h.phase
  have hclock := h.clock
  have hsent := h.sent
  rw [hthread] at hstate hphase hclock hsent
  exact .stay ⟨hstate, hphase, hclock, h.stop, h.handed, by simp [Process.thread], hsent,
    fun _ => rfl, p.not_undefined hended⟩ le_rfl

/-- A step of the sender's process is none, one or two of the protocol. -/
theorem SourceSim.step (h : SourceSim file packets p j) (hsound : p.Sound)
    (hpackets : packetBuffer (getFileContents file) = some packets)
    (hfile : ∀ t ∈ q.sender, t.file = file) (hreceiver : q.receiver = none)
    (hqueue : ∀ packet ∈ p.client.inputPacketBuffer, packet ∈ j.ackNet)
    (hclocks : ∀ u v, S.clock u v = true → clock u v = true)
    (hstep : Process.step S p a = some q) : SourceFollows clock file packets p q j := by
  obtain ⟨hended, he⟩ := Process.step_effect hstep
  cases he with
  | exit why hwhy => exact h.exit hsound hreceiver hqueue hwhy
  | enter t now ht hphase hpending hstop hlt hclock =>
    have hthread := h.thread ht
    refine .single (.senderTop now) { j with phase := .draining now, senderClock := now } ?_ ?_
      ⟨rfl, rfl, rfl, fun _ => id, rfl, id⟩ le_rfl
    · simp [RdtChallenge.step, hthread.phase, hphase, h.stop, hstop, hthread.state, hlt,
        hthread.clock, hclocks _ _ hclock]
    · exact ⟨hthread.state, rfl, rfl, h.stop, h.handed, hthread.pending, hthread.sent,
        fun _ => hpending, p.not_undefined hended⟩
  | leave t now ht hphase hpending hwhy => exact h.leave now hended ht hphase hpending hwhy
  | senderTest t now ht hphase =>
    have hthread := h.thread ht
    exact .stay ⟨hthread.state, hthread.phase, hthread.clock, h.stop, h.handed, hthread.pending,
      hthread.sent, hthread.idle, p.not_undefined hended⟩ le_rfl
  | acknowledge t now packet rest state ht hphase hfirst hrun =>
    exact h.acknowledge hended hqueue ht hphase hfirst hrun
  | done t now ht hphase hdone =>
    have hthread := h.thread ht
    have hpending := hthread.idle (by simp [hphase])
    refine .single .senderSend { j with phase := .left } ?_ ?_
      ⟨rfl, rfl, rfl, fun _ => id, rfl, id⟩ le_rfl
    · simp [RdtChallenge.step, hthread.phase, hphase, hthread.state, hdone]
    · exact ⟨hthread.state, rfl, hthread.clock, h.stop, h.handed, hthread.pending, hthread.sent,
        fun _ => hpending, p.not_undefined hended⟩
  | send t now b ht hphase hlt hrun => exact h.send hended ht hphase hlt hrun
  | senderPush t packet rest ht hpending => exact h.push hended ht hpending
  | spawn key written now file' packets' hmain hstart hfile' hpackets' =>
    obtain rfl : file' = file := hfile _ rfl
    obtain rfl : packets' = packets := Option.some.inj (hpackets'.symm.trans hpackets)
    exact h.spawn hsound hended hmain
  | setStop key written now hmain =>
    exact .single .setStop { j with stop := true } rfl
      ⟨h.state, h.phase, h.clock, rfl, h.handed, h.pending, h.sent, h.idle,
        p.not_undefined hended⟩
      ⟨rfl, rfl, rfl, fun _ => id, rfl, id⟩ le_rfl
  | call | receiverTest | keep | reject | receive | receiverPush => simp at hreceiver
  | listen chunk c hmain hget | greeted chunk c hmain hget | registered chunk c hmain hget
  | quiet chunk written c hloop hget =>
    obtain ⟨_, _, rfl⟩ := getControlMessage_frame hget
    exact .stay (h.same rfl rfl rfl (p.not_undefined hended)) le_rfl
  | act chunk written c c' message input hloop hget hc hne hhandle =>
    exact .stay (h.same rfl rfl rfl (p.not_undefined hended)) (handleMessage_length hget hhandle)
  | _ => exact .stay (h.same rfl rfl rfl (p.not_undefined hended)) le_rfl

theorem SinkSim.fault (h : SinkSim start p j) {r : ReceiverCall} {packet : Packet} {now : ℤ}
    (hr : p.receiver = some r) (hreceiving : r.receiving = true) (hmem : packet ∈ j.dataNet)
    (hrun : receiverIteration r.state packet now = none) :
    ∃ b, step clock j b = some j.fault := by
  have hcall := h.call hr
  obtain ⟨i, hi⟩ := List.mem_iff_getElem?.mp hmem
  refine ⟨.receiverReceive i now, ?_⟩
  simp [RdtChallenge.step, hi, deliverData, hcall.result, (hcall.receiving hreceiving).1,
    hcall.state, hrun]

theorem SinkSim.exit (h : SinkSim start p j) (hsound : p.Sound) (hsender : p.sender = none)
    (hqueue : ∀ packet ∈ p.client.inputPacketBuffer, packet ∈ j.dataNet) {why : Ending}
    (hwhy : p.EndsBy why) : SinkFollows clock start p (p.exit why) j := by
  have hsame : why ≠ .undefined → SinkSim start (p.exit why) j := fun hne =>
    h.same rfl rfl fun hp _ => absurd (Option.some.inj hp) hne
  cases why with
  | undefined =>
    rcases hwhy with ⟨hmain, -⟩ | ⟨t, ht, -⟩ | ⟨r, hr, hreceiving, packet, hmem, now, hrun⟩
    · obtain ⟨⟨-, -, hreceives, -⟩, -⟩ := hsound.at hmain
      have hreceives' : p.receiver.isSome = false := hreceives
      exact .stay (h.same rfl rfl fun _ hr => absurd (hreceives'.symm.trans hr) (by simp)) le_rfl
    · simp [hsender] at ht
    · obtain ⟨b, hb⟩ : ∃ b, RdtChallenge.step clock j b = some j.fault :=
        h.fault hr hreceiving (hqueue packet hmem) hrun
      exact .single _ _ hb ⟨h.state, h.result, h.clock, h.handed, h.pending, h.sent, h.receiving,
        fun _ _ => rfl⟩ ⟨rfl, rfl, rfl, rfl, fun _ => id, rfl, fun _ => rfl⟩ le_rfl
  | _ => exact .stay (hsame (by simp)) le_rfl

theorem SinkSim.idle (h : SinkSim start p j) (hended : p.ended = none) {r : ReceiverCall}
    {now : ℤ} (hr : p.receiver = some r) (hnone : r.result = none) (hpending : r.pending = [])
    (hclock : clock r.clock now = true) :
    SinkFollows clock start p
      { p with receiver := some { r with
        state := (keepAlive r.state now).state
        receiving := false
        pending := (keepAlive r.state now).sent
        clock := now } } j := by
  have hcall := h.call hr
  refine .single (.receiverIdle now) (j.afterReceiving (keepAlive j.receiver now) now)
    ?_ ?_ ⟨rfl, rfl, rfl, rfl, fun _ => id, rfl, id⟩ le_rfl
  · simp [RdtChallenge.step, hcall.result, hnone, hcall.clock, hclock]
  · refine ⟨by simp [afterReceiving, hcall.state, Process.call], hcall.result, rfl,
      fun packet hp => ?_, fun packet hp => ?_, ?_, by simp [Process.call],
      p.not_undefined hended⟩
    · exact List.mem_append_left _ (h.handed packet hp)
    · exact List.mem_append_right _ (List.mem_map_of_mem (hcall.state ▸ hp))
    · simp [afterReceiving, hcall.sent, hcall.state, hpending, Process.call]

theorem SinkSim.reject (h : SinkSim start p j) (hended : p.ended = none)
    (hqueue : ∀ packet ∈ p.client.inputPacketBuffer, packet ∈ j.dataNet) {r : ReceiverCall}
    {now : ℤ} {packet : Packet} {rest : List Packet} {b : Reception}
    {result : Option (List Value)} (hr : p.receiver = some r) (hreceiving : r.receiving = true)
    (hfirst : p.client.inputPacketBuffer = packet :: rest)
    (hrun : receiverIteration r.state packet now = some (b, result)) (hsent : b.sent = []) :
    SinkFollows clock start p
      { p with
        client := { p.client with inputPacketBuffer := rest }
        receiver := some { r with state := b.state, receiving := false } } j := by
  have hcall := h.call hr
  have hnone := (hcall.receiving hreceiving).1
  obtain ⟨i, dataNet, hdata, hi, hrun', -⟩ := exists_data clock (hcall.result.trans hnone)
    (hqueue packet (by simp [hfirst])) (hcall.state ▸ hrun)
  refine ⟨_, _, le_rfl, hrun' hsent, ⟨rfl, hcall.result, hcall.clock, h.handed, hcall.pending,
    hcall.sent, by simp [Process.call], p.not_undefined hended⟩,
    ⟨rfl, rfl, rfl, rfl, hdata, rfl, id⟩, ?_⟩
  rintro packet' ⟨rest', hp, -⟩
  obtain ⟨rfl, -⟩ := List.cons.inj (hfirst.symm.trans hp)
  exact ⟨i, now, rfl, hi⟩

theorem SinkSim.receive (h : SinkSim start p j) (hended : p.ended = none)
    (hqueue : ∀ packet ∈ p.client.inputPacketBuffer, packet ∈ j.dataNet) {r : ReceiverCall}
    {now : ℤ} {packet : Packet} {rest : List Packet} {b : Reception}
    {result : Option (List Value)} (hr : p.receiver = some r) (hreceiving : r.receiving = true)
    (hfirst : p.client.inputPacketBuffer = packet :: rest) (hclock : clock r.clock now = true)
    (hrun : receiverIteration r.state packet now = some (b, result)) (hsent : b.sent ≠ []) :
    SinkFollows clock start p
      { p with
        client := { p.client with inputPacketBuffer := rest }
        receiver := some { r with
          state := b.state, receiving := false, pending := b.sent, result, clock := now } } j := by
  have hcall := h.call hr
  obtain ⟨hnone, hpending⟩ := hcall.receiving hreceiving
  obtain ⟨i, dataNet, hdata, hi, -, hrun'⟩ := exists_data clock (hcall.result.trans hnone)
    (hqueue packet (by simp [hfirst])) (hcall.state ▸ hrun)
  refine ⟨_, _, le_rfl, hrun' hsent (hcall.clock ▸ hclock), ⟨rfl, rfl, rfl, fun packet hp => ?_,
    fun packet hp => ?_, ?_, by simp [Process.call], p.not_undefined hended⟩,
    ⟨rfl, rfl, rfl, rfl, hdata, rfl, id⟩, ?_⟩
  · exact List.mem_append_left _ (h.handed packet hp)
  · exact List.mem_append_right _ (List.mem_map_of_mem hp)
  · simp [afterReceiving, hcall.sent, hpending, Process.call]
  · rintro packet' ⟨rest', hp, -⟩
    obtain ⟨rfl, -⟩ := List.cons.inj (hfirst.symm.trans hp)
    exact ⟨i, now, rfl, hi⟩

theorem SinkSim.push (h : SinkSim start p j) (hended : p.ended = none) {r : ReceiverCall}
    {packet : Packet} {rest : List Packet} (hr : p.receiver = some r)
    (hpending : r.pending = packet :: rest) :
    SinkFollows clock start p
      { p.push packet with receiver := some { r with pending := rest } } j := by
  have hcall := h.call hr
  have hpending' := hcall.pending
  have hsent := hcall.sent
  rw [hpending, List.forall_mem_cons] at hpending'
  refine .stay ⟨hcall.state, hcall.result, hcall.clock, fun p' hp' => ?_, hpending'.2, ?_,
    fun hreceiving => ?_, p.not_undefined hended⟩ le_rfl
  · rcases List.mem_append.mp hp' with hp' | hp'
    · exact h.handed p' hp'
    · exact List.mem_singleton.mp hp' ▸ hpending'.1
  · simp [hsent, hpending, Process.call, Process.push]
  · have hnil := (hcall.receiving hreceiving).2
    exact absurd (hpending.symm.trans hnil) (List.cons_ne_nil _ _)

/-- Before the call there is the state that it starts with. -/
theorem SinkSim.launch (h : SinkSim start p j) (hsound : p.Sound) (hended : p.ended = none)
    (hmain : p.main = .launching) :
    SinkFollows clock start p
      { p with
        main := .receiving
        receiver := some ⟨start, receiverStart start, false, [], none, start⟩ } j := by
  obtain ⟨⟨-, -, hreceives, -⟩, -⟩ := hsound.at hmain
  have hnone : p.receiver = none := by simpa [Process.control] using hreceives
  have hcall : p.call start = ⟨start, receiverStart start, false, [], none, start⟩ := by
    simp [Process.call, hnone]
  have hstate := h.state
  have hresult := h.result
  have hclock := h.clock
  have hsent := h.sent
  rw [hcall] at hstate hresult hclock hsent
  exact .stay ⟨hstate, hresult, hclock, h.handed, by simp [Process.call], hsent,
    by simp [Process.call], p.not_undefined hended⟩ le_rfl

/-- A step of the receiver's process is none, one or two of the protocol. -/
theorem SinkSim.step (h : SinkSim start p j) (hsound : p.Sound)
    (hstart : ∀ r ∈ q.receiver, r.start = start) (hsender : q.sender = none)
    (hqueue : ∀ packet ∈ p.client.inputPacketBuffer, packet ∈ j.dataNet)
    (hclocks : ∀ u v, T.clock u v = true → clock u v = true)
    (hstep : Process.step T p a = some q) : SinkFollows clock start p q j := by
  obtain ⟨hended, he⟩ := Process.step_effect hstep
  cases he with
  | exit why hwhy => exact h.exit hsound hsender hqueue hwhy
  | receiverTest r now hr hresult hpending =>
    have hcall := h.call hr
    exact .stay ⟨hcall.state, hcall.result, hcall.clock, h.handed, hcall.pending, hcall.sent,
      fun _ => ⟨hresult, hpending⟩, p.not_undefined hended⟩ le_rfl
  | keep r now hr hresult hclock hidle =>
    have hcall := h.call hr
    have hnone : r.result = none := hresult.elim (fun hr => (hcall.receiving hr).1) id
    have hpending : r.pending = [] := hidle.elim (fun hr => (hcall.receiving hr).2) id
    exact h.idle hended hr hnone hpending (hclocks _ _ hclock)
  | reject r now packet rest b result hr hreceiving hfirst hrun hsent =>
    exact h.reject hended hqueue hr hreceiving hfirst hrun hsent
  | receive r now packet rest b result hr hreceiving hfirst hclock hrun hsent =>
    exact h.receive hended hqueue hr hreceiving hfirst (hclocks _ _ hclock) hrun hsent
  | receiverPush r packet rest hr hpending => exact h.push hended hr hpending
  | call key written now hmain hcommand hclock =>
    obtain rfl : now = start := hstart _ rfl
    exact h.launch hsound hended hmain
  | spawn | enter | leave | senderTest | acknowledge | done | send | senderPush =>
    simp at hsender
  | listen chunk c hmain hget | greeted chunk c hmain hget | registered chunk c hmain hget
  | quiet chunk written c hloop hget =>
    obtain ⟨_, _, rfl⟩ := getControlMessage_frame hget
    exact .stay (h.same rfl rfl (p.not_undefined hended)) le_rfl
  | act chunk written c c' message input hloop hget hc hne hhandle =>
    exact .stay (h.same rfl rfl (p.not_undefined hended)) (handleMessage_length hget hhandle)
  | _ => exact .stay (h.same rfl rfl (p.not_undefined hended)) le_rfl

namespace Stack

variable {s t : Stack} {b : StackAction} {bs : List StackAction}

theorem process_invariant (I J : Process → Prop) (hI : I .initial) (hJ : J .initial)
    (hS : ∀ p a q, I p → Process.step S p a = some q → I q)
    (hT : ∀ p a q, J p → Process.step T p a = some q → J q)
    (hrun : Transition.run (Stack.step S T) initial bs = some s) : I s.source ∧ J s.sink := by
  refine Transition.run_invariant (fun s : Stack => I s.source ∧ J s.sink) ?_ ⟨hI, hJ⟩ hrun
  rintro s b t ⟨hsource, hsink⟩ hstep
  cases step_effect hstep with
  | source a p hp harrived => exact ⟨hS _ a p hsource hp, hsink⟩
  | sink a p hp harrived => exact ⟨hsource, hT _ a p hsink hp⟩
  | serveSource m hm => exact ⟨hsource, hsink⟩
  | serveSink m hm => exact ⟨hsource, hsink⟩

end Stack

theorem sender_step (hstep : Process.step S p a = some q) {t : SenderThread}
    (ht : p.sender = some t) (hsound : p.Sound) : ∃ t', q.sender = some t' ∧ t'.file = t.file := by
  obtain ⟨-, he⟩ := Process.step_effect hstep
  cases he with
  | spawn key written now file packets hmain =>
    obtain ⟨⟨-, hsends, -⟩, -⟩ := hsound.at hmain
    simp [Process.control, ht] at hsends
  | enter t' now ht' | leave t' now ht' | senderTest t' now ht' | done t' now ht' =>
    obtain rfl := Option.some.inj (ht.symm.trans ht')
    exact ⟨_, rfl, rfl⟩
  | acknowledge t' now packet rest state ht' | send t' now b ht' | senderPush t' packet rest ht' =>
    obtain rfl := Option.some.inj (ht.symm.trans ht')
    exact ⟨_, rfl, rfl⟩
  | _ => exact ⟨t, ht, rfl⟩

theorem receiver_step (hstep : Process.step S p a = some q) {r : ReceiverCall}
    (hr : p.receiver = some r) (hsound : p.Sound) :
    ∃ r', q.receiver = some r' ∧ r'.start = r.start := by
  obtain ⟨-, he⟩ := Process.step_effect hstep
  cases he with
  | call key written now hmain =>
    obtain ⟨⟨-, -, hreceives, -⟩, -⟩ := hsound.at hmain
    simp [Process.control, hr] at hreceives
  | receiverTest r' now hr' | keep r' now hr' | receiverPush r' packet rest hr' =>
    obtain rfl := Option.some.inj (hr.symm.trans hr')
    exact ⟨_, rfl, rfl⟩
  | reject r' now packet rest b result hr' | receive r' now packet rest b result hr' =>
    obtain rfl := Option.some.inj (hr.symm.trans hr')
    exact ⟨_, rfl, rfl⟩
  | _ => exact ⟨r, hr, rfl⟩

namespace Stack

variable {s t : Stack} {b : StackAction} {bs : List StackAction}

structure Sims (file : List Byte) (packets : List Packet) (now : ℤ) (s : Stack) (j : JointState) :
    Prop where
  source : SourceSim file packets s.source j
  sink : SinkSim now s.sink j

structure Follows (s t : Stack) (j : JointState) (as : List Action) : Prop where
  short : as.length ≤ 2
  takesAck : ∀ packet, s.source.Takes t.source packet →
    ∃ i, as = [.duplicateAck i, .senderReceive i] ∧ j.ackNet[i]? = some packet
  takesData : ∀ packet, s.sink.Takes t.sink packet → ∃ i now,
    as = [.duplicateData i, .receiverReceive i now] ∧ j.dataNet[i]? = some packet

theorem Sims.step {file : List Byte} {packets : List Packet} {now : ℤ} {j : JointState}
    (h : s.Sims file packets now j) (hS : ∀ u v, S.clock u v = true → clock u v = true)
    (hT : ∀ u v, T.clock u v = true → clock u v = true) (hinv : s.Inv) (hsource : s.source.Sound)
    (hsink : s.sink.Sound) (hpackets : packetBuffer (getFileContents file) = some packets)
    (hreceiver : t.source.receiver = none) (hsender : t.sink.sender = none)
    (hfile : ∀ th ∈ t.source.sender, th.file = file) (hstart : ∀ r ∈ t.sink.receiver, r.start = now)
    (hstep : Stack.step S T s b = some t) : ∃ as j',
      Transition.run (RdtChallenge.step clock) j as = some j' ∧ t.Sims file packets now j' ∧
        Follows s t j as := by
  obtain ⟨hgenuine, hgenuine'⟩ := hinv.genuine
  cases step_effect hstep with
  | source a p hp harrived =>
    have hqueue : ∀ packet ∈ s.source.client.inputPacketBuffer, packet ∈ j.ackNet := by
      intro packet hpacket
      obtain ⟨packet', hmem, rfl⟩ := hgenuine packet hpacket
      exact h.sink.handed packet' hmem
    obtain ⟨as, j', hshort, hrun, hsim, hkeep, htakes⟩ :=
      h.source.step hsource hpackets hfile hreceiver hqueue hS hp
    exact ⟨as, j', hrun, ⟨hsim, h.sink.keep hkeep⟩, hshort, htakes,
      fun _ ht => absurd ht (Process.not_takes le_rfl)⟩
  | sink a p hp harrived =>
    have hqueue : ∀ packet ∈ s.sink.client.inputPacketBuffer, packet ∈ j.dataNet := by
      intro packet hpacket
      obtain ⟨packet', hmem, rfl⟩ := hgenuine' packet hpacket
      exact h.source.handed packet' hmem
    obtain ⟨as, j', hshort, hrun, hsim, hkeep, htakes⟩ :=
      h.sink.step hsink hstart hsender hqueue hT hp
    exact ⟨as, j', hrun, ⟨h.source.keep hkeep, hsim⟩, hshort,
      fun _ ht => absurd ht (Process.not_takes le_rfl), htakes⟩
  | serveSource m hm | serveSink m hm =>
    exact ⟨[], j, rfl, ⟨h.source, h.sink⟩, by simp,
      fun _ ht => absurd ht (Process.not_takes le_rfl),
      fun _ ht => absurd ht (Process.not_takes le_rfl)⟩

theorem roles_before (hsource : s.source.Sound) (hsink : s.sink.Sound)
    (hstep : Stack.step S T s b = some t) :
    (t.source.receiver = none → s.source.receiver = none) ∧
      (t.sink.sender = none → s.sink.sender = none) ∧
      (∀ th ∈ s.source.sender, ∃ th' ∈ t.source.sender, th'.file = th.file) ∧
      ∀ r ∈ s.sink.receiver, ∃ r' ∈ t.sink.receiver, r'.start = r.start := by
  have hsame : ∀ {α : Type} {o : Option α} {f : α → ℤ}, ∀ x ∈ o, ∃ y ∈ o, f y = f x :=
    fun x hx => ⟨x, hx, rfl⟩
  cases step_effect hstep with
  | source a p hp harrived =>
    refine ⟨fun hnone => ?_, id, fun th hth => sender_step hp hth hsource, hsame⟩
    by_contra hsome
    obtain ⟨r, hr⟩ := Option.ne_none_iff_exists'.mp hsome
    obtain ⟨r', hr', -⟩ := receiver_step hp hr hsource
    exact absurd (hr'.symm.trans hnone) (by simp)
  | sink a p hp harrived =>
    refine ⟨id, fun hnone => ?_, fun th hth => ⟨th, hth, rfl⟩,
      fun r hr => receiver_step hp hr hsink⟩
    by_contra hsome
    obtain ⟨th, hth⟩ := Option.ne_none_iff_exists'.mp hsome
    obtain ⟨th', hth', -⟩ := sender_step hp hth hsink
    exact absurd (hth'.symm.trans hnone) (by simp)
  | serveSource m hm | serveSink m hm =>
    exact ⟨id, id, fun th hth => ⟨th, hth, rfl⟩, hsame⟩

/-- For every file that may be the sender's, and every reading that the receiver may start
with, the protocol gets to a state that accounts for the stack. -/
def Simulated (clock : Clock) (s : Stack) : Prop :=
  s.source.receiver = none → s.sink.sender = none → ∀ file packets now,
    packetBuffer (getFileContents file) = some packets → clock 0 now = true →
    (∀ t ∈ s.source.sender, t.file = file) → (∀ r ∈ s.sink.receiver, r.start = now) →
    ∃ j, Transition.Reachable (RdtChallenge.step clock) (JointState.initial packets now) j ∧
      s.Sims file packets now j

theorem simulated_initial : initial.Simulated clock := by
  intro _ _ file packets now _ _ _ _
  refine ⟨JointState.initial packets now, .refl _ _, ?_, ?_⟩
  · exact ⟨rfl, rfl, rfl, rfl, by simp [initial, Process.initial],
      by simp [Process.thread, initial, Process.initial], rfl, fun _ => rfl,
      by simp [initial, Process.initial]⟩
  · exact ⟨rfl, rfl, rfl, by simp [initial, Process.initial],
      by simp [Process.call, initial, Process.initial], rfl, fun _ => ⟨rfl, rfl⟩,
      by simp [initial, Process.initial]⟩

theorem Simulated.step (hS : ∀ u v, S.clock u v = true → clock u v = true)
    (hT : ∀ u v, T.clock u v = true → clock u v = true) (h : s.Simulated clock) (hinv : s.Inv)
    (hsource : s.source.Sound) (hsink : s.sink.Sound) (hstep : Stack.step S T s b = some t) :
    t.Simulated clock := by
  intro hreceiver hsender file packets now hpackets hnow hfile hstart
  obtain ⟨hreceiver', hsender', hthread, hcall⟩ := roles_before hsource hsink hstep
  have hfile' : ∀ th ∈ s.source.sender, th.file = file := by
    intro th hth
    obtain ⟨th', hth', hsame⟩ := hthread th hth
    exact hsame ▸ hfile th' hth'
  have hstart' : ∀ r ∈ s.sink.receiver, r.start = now := by
    intro r hr
    obtain ⟨r', hr', hsame⟩ := hcall r hr
    exact hsame ▸ hstart r' hr'
  obtain ⟨j, hj, hsims⟩ := h (hreceiver' hreceiver) (hsender' hsender) file packets now hpackets
    hnow hfile' hstart'
  obtain ⟨as, j', hrun, hsims', -⟩ := hsims.step hS hT hinv hsource hsink hpackets hreceiver
    hsender hfile hstart hstep
  exact ⟨j', hj.trans ⟨as, hrun⟩, hsims'⟩

end Stack

end RdtChallenge
