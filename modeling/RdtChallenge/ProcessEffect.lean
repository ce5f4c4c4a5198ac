import RdtChallenge.Process

namespace RdtChallenge.Process

inductive Moves (p : Process) : MainPhase → Prop
  | settle (hmain : p.main = .waiting) (h : p.settled = true) : Moves p .deciding
  | poll (hmain : p.main = .waiting) (h : p.settled = false) : Moves p .polling
  | idle (hmain : p.main = .polling) : Moves p .waiting
  | press (hmain : p.main = .polling) (h : p.startCommand = false) : Moves p .pressed
  | mark (hmain : p.main = .pressed) : Moves p .marking
  | resume (hmain : p.main = .pausing) : Moves p .waiting
  | pause (hmain : p.main = .pausing) (h : p.settled = false) : Moves p .pausing
  | refuse (hmain : p.main = .deciding) (h : p.client.simulationFinished = true) : Moves p .closing
  | launch (hmain : p.main = .deciding) (h : p.client.simulationFinished = false) :
      Moves p .launching
  | leave (hmain : p.main = .joiningThread) : Moves p .closing
  | finish (r : ReceiverCall) (hmain : p.main = .receiving) (hr : p.receiver = some r)
      (hresult : r.result.isSome = true) : Moves p .reporting
  | part (hmain : p.main = .joining) (h : p.client.isSender = true) : Moves p .farewell

def EndsBy (p : Process) : Ending → Prop
  | .halted _ => p.main ∈ [.hello, .registering, .reply, .requesting, .uploading, .farewell] ∨
      p.loop = .reading ∨ p.loop = .sending
  | .notRegistered => p.main = .hello ∨ p.main = .reply
  | .fileMissing => p.main = .launching
  | .undefined =>
      (p.main = .launching ∧ ∃ file, packetBuffer (getFileContents file) = none) ∨
      (∃ t ∈ p.sender, ∃ now, t.phase = .draining now ∧
        ((∃ packet ∈ p.client.inputPacketBuffer, processAck t.state packet = none) ∨
          t.state.sendBase < t.state.totalPkts ∧ sendPhase now t.state = none)) ∨
      ∃ r ∈ p.receiver, r.receiving = true ∧ ∃ packet ∈ p.client.inputPacketBuffer, ∃ now,
        receiverIteration r.state packet now = none
  | .joinFailed => p.joinable = false ∧
      (p.main = .joiningLoop ∨ p.main = .joining ∧ p.client.isSender = false)
  | .terminated => p.main = .returning ∧ p.joinable = true
  | .clean => p.main = .returning ∧ p.joinable = false

/-- What a step of a process can be, and what is known when it is taken. -/
inductive Effect (S : Settings) (p : Process) : ProcessAction → Process → Prop
  | exit {a : ProcessAction} (why : Ending) (hwhy : p.EndsBy why) : Effect S p a (p.exit why)
  | listen (chunk : List Byte) (c : ClientState) (hmain : p.main = .hello ∨ p.main = .reply)
      (hget : getControlMessage chunk p.client = .ok c) (hc : c.currentControlMessage = []) :
      Effect S p (.connect chunk) { p with client := c, arrived := p.arrived ++ chunk }
  | greeted (chunk : List Byte) (c : ClientState) (hmain : p.main = .hello)
      (hget : getControlMessage chunk p.client = .ok c)
      (hc : c.currentControlMessage = registerWord) :
      Effect S p (.connect chunk) { p with
        client := clearControlMessage c
        arrived := p.arrived ++ chunk
        acted := p.acted ++ [c.currentControlMessage]
        main := .registering }
  | registered (chunk : List Byte) (c : ClientState) (hmain : p.main = .reply)
      (hget : getControlMessage chunk p.client = .ok c) (hc : c.currentControlMessage = okWord) :
      Effect S p (.connect chunk) { p with
        client := clearControlMessage c
        arrived := p.arrived ++ chunk
        acted := p.acted ++ [c.currentControlMessage]
        loop := .testing
        joinable := true
        main := .waiting }
  | register (key : Bool) (now : ℤ) (hmain : p.main = .registering) :
      Effect S p (.main key true now)
        { p with main := .reply, written := p.written ++ [.register S.groupToken] }
  | move (key written : Bool) (now : ℤ) (main : MainPhase) (h : p.Moves main) :
      Effect S p (.main key written now) { p with main }
  | late (key written : Bool) (now : ℤ) (hmain : p.main = .pressed) :
      Effect S p (.main key written now) { p with main := .pausing, startCommand := true }
  | mark (key written : Bool) (now : ℤ) (hmain : p.main = .marking) :
      Effect S p (.main key written now)
        { p with main := .requesting, client := { p.client with isSender := true } }
  | request (key : Bool) (now : ℤ) (hmain : p.main = .requesting) :
      Effect S p (.main key true now) { p with
        main := .pausing, startCommand := true, written := p.written ++ [.start S.file] }
  | spawn (key written : Bool) (now : ℤ) (file : List Byte) (packets : List Packet)
      (hmain : p.main = .launching) (hstart : p.startCommand = true)
      (hfile : S.inputs p.client.fileID = some file)
      (hpackets : packetBuffer (getFileContents file) = some packets) :
      Effect S p (.main key written now) { p with
        main := .joiningLoop
        sender := some ⟨file, senderStart packets, .top, false, [], 0⟩ }
  | call (key written : Bool) (now : ℤ) (hmain : p.main = .launching)
      (hstart : p.startCommand = false) (hclock : S.clock 0 now = true) :
      Effect S p (.main key written now) { p with
        main := .receiving
        receiver := some ⟨now, receiverStart now, false, [], none, now⟩ }
  | join (key written : Bool) (now : ℤ) (main : MainPhase) (hjoinable : p.joinable = true)
      (hloop : p.loop = .ended)
      (hmain : p.main = .joiningLoop ∧ main = .stopping ∨
        p.main = .joining ∧ p.client.isSender = false ∧ main = .farewell) :
      Effect S p (.main key written now) { p with joinable := false, main }
  | setStop (key written : Bool) (now : ℤ) (hmain : p.main = .stopping) :
      Effect S p (.main key written now) { p with main := .joiningThread, stop := true }
  | report (key written : Bool) (now : ℤ) (r : ReceiverCall) (result : List Value)
      (hmain : p.main = .reporting) (hr : p.receiver = some r) (hresult : r.result = some result) :
      Effect S p (.main key written now)
        { p with main := .uploading, output := some (setFileContents result) }
  | upload (key : Bool) (now : ℤ) (file : List Byte) (hmain : p.main = .uploading)
      (hout : p.output = some file) :
      Effect S p (.main key true now) { p with
        main := .closing, written := p.written ++ [.checksumOut p.client.challenge file] }
  | close (key written : Bool) (now : ℤ) (hmain : p.main = .closing) :
      Effect S p (.main key written now)
        { p with main := .finishing, client := { p.client with simulationStarted := false } }
  | finish (key written : Bool) (now : ℤ) (hmain : p.main = .finishing) :
      Effect S p (.main key written now)
        { p with main := .joining, client := { p.client with simulationFinished := true } }
  | farewell (key : Bool) (now : ℤ) (hmain : p.main = .farewell) :
      Effect S p (.main key true now)
        { p with main := .returning, written := p.written ++ [.closed] }
  | test (hloop : p.loop = .testing) :
      Effect S p .loopTest { p with loop := if looping p.client then .reading else .ended }
  | quiet (chunk : List Byte) (written : Bool) (c : ClientState) (hloop : p.loop = .reading)
      (hget : getControlMessage chunk p.client = .ok c) (hc : c.currentControlMessage = []) :
      Effect S p (.loopRead chunk written)
        { p with client := c, loop := .sending, arrived := p.arrived ++ chunk }
  | act (chunk : List Byte) (written : Bool) (c c' : ClientState) (message : Message)
      (input : Input) (hloop : p.loop = .reading)
      (hget : getControlMessage chunk p.client = .ok c)
      (hc : c.currentControlMessage = message) (hne : message ≠ [])
      (hhandle : handleMessage input message c = (c', none)) :
      Effect S p (.loopRead chunk written) { p with
        client := c'
        loop := .sending
        arrived := p.arrived ++ chunk
        acted := p.acted ++ [message]
        written := p.written ++ (checksumIn S message c).toList }
  | transmit (packet : Packet) (rest : List Packet) (hloop : p.loop = .sending)
      (hstarted : p.client.simulationStarted = true)
      (hqueue : p.client.outputPacketBuffer = packet :: rest) :
      Effect S p (.loopSend true) { p with
        client := { p.client with
          outputPacketBuffer := rest
          transmitted := p.client.transmitted ++ [transmitWord ++ base64Encode packet] }
        loop := .testing
        written := p.written ++ [.transmit packet] }
  | skip (written : Bool) (hloop : p.loop = .sending)
      (hnone : p.client.simulationStarted = true → p.client.outputPacketBuffer = []) :
      Effect S p (.loopSend written) { p with loop := .testing }
  | enter (t : SenderThread) (now : ℤ) (ht : p.sender = some t) (hphase : t.phase = .top)
      (hpending : t.pending = []) (hstop : p.stop = false)
      (hlt : t.state.sendBase < t.state.totalPkts) (hclock : S.clock t.clock now = true) :
      Effect S p (.senderTop now)
        { p with sender := some { t with phase := .draining now, clock := now } }
  | leave (t : SenderThread) (now : ℤ) (ht : p.sender = some t) (hphase : t.phase = .top)
      (hpending : t.pending = []) (hwhy : p.stop = true ∨ t.state.totalPkts ≤ t.state.sendBase) :
      Effect S p (.senderTop now) { p with sender := some { t with phase := .left } }
  | senderTest (t : SenderThread) (now : ℤ) (ht : p.sender = some t)
      (hphase : t.phase = .draining now) (hreceiving : t.receiving = false) :
      Effect S p .senderTest { p with sender := some { t with receiving := true } }
  | acknowledge (t : SenderThread) (now : ℤ) (packet : Packet) (rest : List Packet)
      (state : SenderState) (ht : p.sender = some t) (hphase : t.phase = .draining now)
      (hqueue : p.client.inputPacketBuffer = packet :: rest)
      (hrun : processAck t.state packet = some state) :
      Effect S p .senderTake { p with
        client := { p.client with inputPacketBuffer := rest }
        sender := some { t with state, receiving := false } }
  | done {a : ProcessAction} (t : SenderThread) (now : ℤ) (ht : p.sender = some t)
      (hphase : t.phase = .draining now) (hdone : t.state.sendBase ≥ t.state.totalPkts)
      (hempty : p.client.inputPacketBuffer = []) :
      Effect S p a { p with sender := some { t with phase := .left, receiving := false } }
  | send {a : ProcessAction} (t : SenderThread) (now : ℤ) (b : Sending) (ht : p.sender = some t)
      (hphase : t.phase = .draining now) (hlt : t.state.sendBase < t.state.totalPkts)
      (hrun : sendPhase now t.state = some b) (hempty : p.client.inputPacketBuffer = []) :
      Effect S p a { p with sender := some { t with
        state := b.state, phase := .top, receiving := false, pending := b.sent } }
  | senderPush (t : SenderThread) (packet : Packet) (rest : List Packet)
      (ht : p.sender = some t) (hpending : t.pending = packet :: rest) :
      Effect S p .senderPush { p.push packet with sender := some { t with pending := rest } }
  | receiverTest (r : ReceiverCall) (now : ℤ) (hr : p.receiver = some r)
      (hresult : r.result = none) (hpending : r.pending = []) :
      Effect S p (.receiverTest now) { p with receiver := some { r with receiving := true } }
  | keep {a : ProcessAction} (r : ReceiverCall) (now : ℤ) (hr : p.receiver = some r)
      (hresult : r.receiving = true ∨ r.result = none) (hclock : S.clock r.clock now = true)
      (hpending : r.receiving = true ∨ r.pending = []) (hempty : p.client.inputPacketBuffer = []) :
      Effect S p a { p with receiver := some { r with
        state := (keepAlive r.state now).state
        receiving := false
        pending := (keepAlive r.state now).sent
        clock := now } }
  | reject (r : ReceiverCall) (now : ℤ) (packet : Packet) (rest : List Packet) (b : Reception)
      (result : Option (List Value)) (hr : p.receiver = some r) (hreceiving : r.receiving = true)
      (hqueue : p.client.inputPacketBuffer = packet :: rest)
      (hrun : receiverIteration r.state packet now = some (b, result)) (hsent : b.sent = []) :
      Effect S p (.receiverTake now) { p with
        client := { p.client with inputPacketBuffer := rest }
        receiver := some { r with state := b.state, receiving := false } }
  | receive (r : ReceiverCall) (now : ℤ) (packet : Packet) (rest : List Packet) (b : Reception)
      (result : Option (List Value)) (hr : p.receiver = some r) (hreceiving : r.receiving = true)
      (hqueue : p.client.inputPacketBuffer = packet :: rest)
      (hclock : S.clock r.clock now = true)
      (hrun : receiverIteration r.state packet now = some (b, result)) (hsent : b.sent ≠ []) :
      Effect S p (.receiverTake now) { p with
        client := { p.client with inputPacketBuffer := rest }
        receiver := some { r with
          state := b.state, receiving := false, pending := b.sent, result, clock := now } }
  | receiverPush (r : ReceiverCall) (packet : Packet) (rest : List Packet)
      (hr : p.receiver = some r) (hpending : r.pending = packet :: rest) :
      Effect S p .receiverPush { p.push packet with receiver := some { r with pending := rest } }

variable {S : Settings} {p q : Process}

theorem awaitMessage_effect {chunk : List Byte} {expected : Message} {next : Process → Process}
    (hmain : p.main = .hello ∨ p.main = .reply)
    (hnext : ∀ c, getControlMessage chunk p.client = .ok c → c.currentControlMessage = expected →
      Effect S p (.connect chunk) (next { p with
        client := clearControlMessage c
        arrived := p.arrived ++ chunk
        acted := p.acted ++ [c.currentControlMessage] })) :
    Effect S p (.connect chunk) (p.awaitMessage chunk expected next) := by
  unfold awaitMessage
  cases hget : getControlMessage chunk p.client with
  | error halt => exact .exit _ (Or.inl (by rcases hmain with h | h <;> simp [h]))
  | ok c =>
    dsimp only
    split_ifs with hnone hexpected
    · exact .listen chunk c hmain hget hnone
    · exact hnext c hget hexpected
    · exact .exit _ hmain

theorem join_effect {main : MainPhase} {key written : Bool} {now : ℤ}
    (hmain : p.main = .joiningLoop ∧ main = .stopping ∨
      p.main = .joining ∧ p.client.isSender = false ∧ main = .farewell)
    (h : p.join main = some q) : Effect S p (.main key written now) q := by
  unfold join at h
  split_ifs at h with hjoinable hloop <;> obtain rfl := Option.some.inj h
  · exact .join key written now main hjoinable hloop hmain
  · refine .exit _ ⟨Bool.not_eq_true _ ▸ hjoinable, ?_⟩
    exact hmain.imp (fun h => h.1) fun h => ⟨h.1, h.2.1⟩

theorem launch_effect {key written : Bool} {now : ℤ} (hmain : p.main = .launching)
    (h : p.launch S now = some q) : Effect S p (.main key written now) q := by
  unfold launch at h
  split_ifs at h with hstart hclock
  · cases hfile : S.inputs p.client.fileID with
    | none =>
      simp only [hfile, Option.some.injEq] at h
      exact h ▸ .exit _ hmain
    | some file =>
      cases hpackets : packetBuffer (getFileContents file) with
      | none =>
        simp only [hfile, hpackets, Option.some.injEq] at h
        exact h ▸ .exit _ (Or.inl ⟨hmain, file, hpackets⟩)
      | some packets =>
        simp only [hfile, hpackets, Option.some.injEq] at h
        exact h ▸ .spawn key written now file packets hmain hstart hfile hpackets
  · exact Option.some.inj h ▸ .call key written now hmain (Bool.not_eq_true _ ▸ hstart) hclock

theorem mainStep_effect {key written : Bool} {now : ℤ}
    (h : p.mainStep S key written now = some q) : Effect S p (.main key written now) q := by
  unfold mainStep at h
  split at h
  · cases h
  · cases h
  · split_ifs at h with hwritten <;> obtain rfl := Option.some.inj h
    · subst hwritten
      exact .register key now ‹_›
    · exact .exit _ (Or.inl (by simp [*]))
  · obtain rfl := Option.some.inj h
    split_ifs with hsettled
    · exact .move key written now _ (.settle ‹_› hsettled)
    · exact .move key written now _ (.poll ‹_› (Bool.not_eq_true _ ▸ hsettled))
  · obtain rfl := Option.some.inj h
    split_ifs with hkey
    · exact .move key written now _ (.press ‹_› (by simpa using (Bool.and_eq_true_iff.mp hkey).1))
    · exact .move key written now _ (.idle ‹_›)
  · split_ifs at h <;> obtain rfl := Option.some.inj h
    · exact .late key written now ‹_›
    · exact .move key written now _ (.mark ‹_›)
  · exact Option.some.inj h ▸ .mark key written now ‹_›
  · split_ifs at h with hwritten <;> obtain rfl := Option.some.inj h
    · subst hwritten
      exact .request key now ‹_›
    · exact .exit _ (Or.inl (by simp [*]))
  · obtain rfl := Option.some.inj h
    split_ifs with hsettled
    · exact .move key written now _ (.resume ‹_›)
    · exact .move key written now _ (.pause ‹_› (Bool.not_eq_true _ ▸ hsettled))
  · obtain rfl := Option.some.inj h
    split_ifs with hfinished
    · exact .move key written now _ (.refuse ‹_› hfinished)
    · exact .move key written now _ (.launch ‹_› (Bool.not_eq_true _ ▸ hfinished))
  · exact launch_effect ‹_› h
  · exact join_effect (Or.inl ⟨‹_›, rfl⟩) h
  · exact Option.some.inj h ▸ .setStop key written now ‹_›
  · obtain ⟨t, ht, h⟩ := Option.bind_eq_some_iff.mp h
    split_ifs at h
    exact Option.some.inj h ▸ .move key written now _ (.leave ‹_›)
  · obtain ⟨r, hr, h⟩ := Option.bind_eq_some_iff.mp h
    split_ifs at h with hdone
    exact Option.some.inj h ▸ .move key written now _ (.finish r ‹_› hr hdone.1)
  · obtain ⟨r, hr, h⟩ := Option.bind_eq_some_iff.mp h
    obtain ⟨result, hresult, rfl⟩ := Option.map_eq_some_iff.mp h
    exact .report key written now r result ‹_› hr hresult
  · obtain ⟨file, hout, rfl⟩ := Option.map_eq_some_iff.mp h
    unfold upload
    split_ifs with hwritten
    · subst hwritten
      exact .upload key now file ‹_› hout
    · exact .exit _ (Or.inl (by simp [*]))
  · exact Option.some.inj h ▸ .close key written now ‹_›
  · exact Option.some.inj h ▸ .finish key written now ‹_›
  · split_ifs at h with hsender
    · exact Option.some.inj h ▸ .move key written now _ (.part ‹_› hsender)
    · exact join_effect (Or.inr ⟨‹_›, Bool.not_eq_true _ ▸ hsender, rfl⟩) h
  · split_ifs at h with hwritten <;> obtain rfl := Option.some.inj h
    · subst hwritten
      exact .farewell key now ‹_›
    · exact .exit _ (Or.inl (by simp [*]))
  · obtain rfl := Option.some.inj h
    split_ifs with hjoinable
    · exact .exit _ ⟨‹_›, hjoinable⟩
    · exact .exit _ ⟨‹_›, Bool.not_eq_true _ ▸ hjoinable⟩

theorem loopRead_effect {chunk : List Byte} {written : Bool}
    (h : p.loopRead S chunk written = some q) : Effect S p (.loopRead chunk written) q := by
  unfold loopRead at h
  split_ifs at h with hloop
  cases hget : getControlMessage chunk p.client with
  | error halt =>
    simp only [hget, Option.some.injEq] at h
    exact h ▸ .exit _ (Or.inr (Or.inl hloop.1))
  | ok c =>
    simp only [hget] at h
    split_ifs at h with hc
    · exact Option.some.inj h ▸ .quiet chunk written c hloop.1 hget hc
    · split at h <;> obtain rfl := Option.some.inj h
      · exact .exit _ (Or.inr (Or.inl hloop.1))
      · rename_i c' hhandle
        exact .act chunk written c c' _ _ hloop.1 hget rfl hc hhandle

theorem loopSend_effect {written : Bool} (h : p.loopSend written = some q) :
    Effect S p (.loopSend written) q := by
  unfold loopSend at h
  by_cases hloop : p.loop = .sending
  swap
  · simp [hloop] at h
  rw [if_pos hloop] at h
  split at h
  · rename_i packet rest hstarted hqueue
    split_ifs at h with hwritten <;> obtain rfl := Option.some.inj h
    · have hsend : (sendOne ⟨[], true, written⟩ p.client).1 = { p.client with
          outputPacketBuffer := rest
          transmitted := p.client.transmitted ++ [transmitWord ++ base64Encode packet] } := by
        simp [sendOne, hstarted, hqueue]
      rw [hsend, hwritten]
      exact .transmit packet rest hloop hstarted hqueue
    · exact .exit _ (Or.inr (Or.inr hloop))
  · rename_i hnone
    refine Option.some.inj h ▸ .skip written hloop fun hstarted => ?_
    cases hqueue : p.client.outputPacketBuffer with
    | nil => rfl
    | cons packet rest => exact absurd hqueue (hnone packet rest hstarted)

theorem senderRest_effect {a : ProcessAction} {t : SenderThread} {now : ℤ}
    (ht : p.sender = some t) (hphase : t.phase = .draining now)
    (hempty : p.client.inputPacketBuffer = []) : Effect S p a (p.senderRest t now) := by
  unfold senderRest
  split_ifs with hdone
  · exact .done t now ht hphase hdone hempty
  · cases hrun : sendPhase now t.state with
    | some b => exact .send t now b ht hphase (not_le.mp hdone) hrun hempty
    | none => exact .exit _ (Or.inr (Or.inl ⟨t, ht, now, hphase, Or.inr ⟨not_le.mp hdone, hrun⟩⟩))

theorem senderTake_effect {t : SenderThread} (ht : p.sender = some t)
    (h : p.senderTake t = some q) : Effect S p .senderTake q := by
  unfold senderTake at h
  split at h
  · rename_i now hphase
    split_ifs at h with hreceiving
    cases hqueue : p.client.inputPacketBuffer with
    | nil =>
      simp only [hqueue, Option.some.injEq] at h
      exact h ▸ senderRest_effect ht hphase hqueue
    | cons packet rest =>
      cases hrun : processAck t.state packet with
      | none =>
        simp only [hqueue, hrun, Option.some.injEq] at h
        have hmem : packet ∈ p.client.inputPacketBuffer := by simp [hqueue]
        exact h ▸ .exit _
          (Or.inr (Or.inl ⟨t, ht, now, hphase, Or.inl ⟨packet, hmem, hrun⟩⟩))
      | some state =>
        simp only [hqueue, hrun, Option.some.injEq] at h
        exact h ▸ .acknowledge t now packet rest state ht hphase hqueue hrun
  · cases h

theorem receiverRest_effect {a : ProcessAction} {r : ReceiverCall} {now : ℤ}
    (hr : p.receiver = some r) (hresult : r.receiving = true ∨ r.result = none)
    (hpending : r.receiving = true ∨ r.pending = []) (hempty : p.client.inputPacketBuffer = [])
    (h : p.receiverRest S r now = some q) : Effect S p a q := by
  unfold receiverRest at h
  split_ifs at h with hclock
  exact Option.some.inj h ▸ .keep r now hr hresult hclock hpending hempty

theorem receiverTake_effect {r : ReceiverCall} {now : ℤ} (hr : p.receiver = some r)
    (h : p.receiverTake S r now = some q) : Effect S p (.receiverTake now) q := by
  unfold receiverTake at h
  by_cases hreceiving : r.receiving = true
  swap
  · simp [hreceiving] at h
  rw [if_pos hreceiving] at h
  cases hqueue : p.client.inputPacketBuffer with
  | nil =>
    simp only [hqueue] at h
    exact receiverRest_effect hr (Or.inl hreceiving) (Or.inl hreceiving) hqueue h
  | cons packet rest =>
    cases hrun : receiverIteration r.state packet now with
    | none =>
      simp only [hqueue, hrun, Option.some.injEq] at h
      have hmem : packet ∈ p.client.inputPacketBuffer := by simp [hqueue]
      exact h ▸ .exit _ (Or.inr (Or.inr ⟨r, hr, hreceiving, packet, hmem, now, hrun⟩))
    | some out =>
      obtain ⟨b, result⟩ := out
      simp only [hqueue, hrun] at h
      split_ifs at h with hsent hclock <;> obtain rfl := Option.some.inj h
      · exact .reject r now packet rest b result hr hreceiving hqueue hrun hsent
      · exact .receive r now packet rest b result hr hreceiving hqueue hclock hrun hsent

theorem step_effect {a : ProcessAction} (h : step S p a = some q) :
    p.ended = none ∧ Effect S p a q := by
  unfold step at h
  split_ifs at h with hended
  refine ⟨by simpa using hended, ?_⟩
  cases a with
  | connect chunk =>
    simp only [connect] at h
    by_cases hlength : chunk.length ≤ bufSize
    · rw [if_pos hlength] at h
      split at h
      · obtain rfl := Option.some.inj h
        exact awaitMessage_effect (Or.inl ‹_›) fun c hget hc => .greeted chunk c ‹_› hget hc
      · obtain rfl := Option.some.inj h
        exact awaitMessage_effect (Or.inr ‹_›) fun c hget hc => .registered chunk c ‹_› hget hc
      · cases h
    · simp [hlength] at h
  | main key written now => exact mainStep_effect h
  | loopTest =>
    by_cases hloop : p.loop = .testing
    · simp only [loopTest, if_pos hloop, Option.some.injEq] at h
      exact h ▸ .test hloop
    · simp [loopTest, hloop] at h
  | loopRead chunk written => exact loopRead_effect h
  | loopSend written => exact loopSend_effect h
  | senderTop now =>
    obtain ⟨t, ht, h⟩ := Option.bind_eq_some_iff.mp h
    simp only [senderTop] at h
    split_ifs at h with htop hloop hclock <;> obtain rfl := Option.some.inj h
    · exact .enter t now ht htop.1 htop.2 (by simpa using hloop.1) hloop.2 hclock
    · refine .leave t now ht htop.1 htop.2 ?_
      by_cases hstop : p.stop = true
      · exact Or.inl hstop
      · exact Or.inr (not_lt.mp fun hlt => hloop ⟨hstop, hlt⟩)
  | senderTest =>
    obtain ⟨t, ht, h⟩ := Option.bind_eq_some_iff.mp h
    simp only [senderTest] at h
    split at h
    · split_ifs at h with hreceiving <;> obtain rfl := Option.some.inj h
      · exact .senderTest t _ ht ‹_› (Bool.not_eq_true _ ▸ hreceiving)
      · exact senderRest_effect ht ‹_› (List.length_eq_zero_iff.mp (by omega))
    · cases h
  | senderTake =>
    obtain ⟨t, ht, h⟩ := Option.bind_eq_some_iff.mp h
    exact senderTake_effect ht h
  | senderPush =>
    obtain ⟨t, ht, h⟩ := Option.bind_eq_some_iff.mp h
    simp only [senderPush] at h
    split at h
    · exact Option.some.inj h ▸ .senderPush t _ _ ht ‹_›
    · cases h
  | receiverTest now =>
    obtain ⟨r, hr, h⟩ := Option.bind_eq_some_iff.mp h
    simp only [receiverTest] at h
    by_cases hbusy : r.receiving = true ∨ r.result.isSome = true ∨ r.pending ≠ []
    · simp [hbusy] at h
    rw [if_neg hbusy] at h
    have hresult : r.result = none := by simp_all
    have hpending : r.pending = [] := by simp_all
    split_ifs at h with hqueue
    · exact Option.some.inj h ▸ .receiverTest r now hr hresult hpending
    · exact receiverRest_effect hr (Or.inr hresult) (Or.inr hpending)
        (List.length_eq_zero_iff.mp (by omega)) h
  | receiverTake now =>
    obtain ⟨r, hr, h⟩ := Option.bind_eq_some_iff.mp h
    exact receiverTake_effect hr h
  | receiverPush =>
    obtain ⟨r, hr, h⟩ := Option.bind_eq_some_iff.mp h
    simp only [receiverPush] at h
    split at h
    · exact Option.some.inj h ▸ .receiverPush r _ _ hr ‹_›
    · cases h

end RdtChallenge.Process
