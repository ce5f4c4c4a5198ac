import RdtChallenge.Refinement
import RdtChallenge.Roles

namespace RdtChallenge

theorem decode_data_of_acceptsAck {packet : Packet} (h : acceptsAck packet = some true) :
    decode typeData (carry packet) = none := by
  rw [acceptsAck_eq, Option.some.injEq] at h
  obtain ⟨⟨base, mask⟩, hd⟩ := Option.isSome_iff_exists.mp h
  obtain ⟨t, a, b, c, d, e, rest, rfl, -⟩ := exists_of_decode hd
  simp only [decode, Option.ite_none_right_eq_some] at hd
  have htype : low8 (low8 t) = typeAck := by
    rw [low8_eq_self (low8_lt t)]
    exact hd.1.1
  simp [carry, decode, htype, typeAck, typeData]

theorem result_step {T : Settings} {p q : Process} {a : ProcessAction}
    (hstep : Process.step T p a = some q)
    (hqueue : ∀ packet ∈ p.client.inputPacketBuffer, decode typeData packet = none)
    (h : ∀ r ∈ p.receiver, r.result = none) : ∀ r ∈ q.receiver, r.result = none := by
  obtain ⟨-, he⟩ := Process.step_effect hstep
  cases he with
  | call key written now hmain =>
    intro r hr
    obtain rfl := Option.some.inj hr
    rfl
  | receiverTest r now hr | keep r now hr | receiverPush r packet rest hr
  | reject r now packet rest b result hr =>
    intro r' hr'
    obtain rfl := Option.some.inj hr'
    exact h r hr
  | receive r now packet rest b result hr hreceiving hmem hclock hrun hsent =>
    -- a packet that is no data is not answered
    have hignored := receiveData_of_undecodable (r := r.state) (hqueue packet (by simp [hmem])) now
    obtain rfl := Option.some.inj (hignored.symm.trans (receiveData_of_iteration hrun))
    exact absurd rfl hsent
  | _ => exact h

theorem JointReachable.left {clock : Clock} {file : List Byte} {j : JointState}
    (h : JointReachable clock file j) (hleft : j.phase = .left) :
    j.stop = true ∨ j.sender.totalPkts ≤ j.sender.sendBase := by
  refine h.invariant (I := fun j => j.phase = .left →
    j.stop = true ∨ j.sender.totalPkts ≤ j.sender.sendBase) ?_ ?_ hleft
  · simp [JointState.initial]
  · intro u a v _ hu he
    cases he with
    | leave ha hphase hwhy => exact fun _ => hwhy
    | stop => exact fun _ => Or.inl rfl
    | enter now => simp
    | send now b => simp [JointState.afterSending]
    | ack i now packet sender hphase => simp [hphase]
    | _ => exact hu

namespace Stack
open Process (oneByteSettings connection startLine sendingRun)

variable {S T : Settings} {s : Stack} {bs : List StackAction} {clock : Clock} {t : SenderThread}
  {r : ReceiverCall}

theorem any_clock (S : Settings) : ∀ u v, S.clock u v = true → anyClock u v = true :=
  fun _ _ _ => rfl

theorem kept_run (hrun : Transition.run (step S T) initial bs = some s) :
    s.source.Kept S ∧ s.sink.Kept T :=
  process_invariant (Process.Kept S) (Process.Kept T) Process.kept_initial Process.kept_initial
    (fun _ _ _ h hp => h.step hp) (fun _ _ _ h hp => h.step hp) hrun

theorem simulated_run (hS : ∀ u v, S.clock u v = true → clock u v = true)
    (hT : ∀ u v, T.clock u v = true → clock u v = true)
    (hrun : Transition.run (step S T) initial bs = some s) : s.Simulated clock := by
  refine (Transition.run_invariant (fun s : Stack =>
    s.Simulated clock ∧ s.Inv ∧ s.source.Sound ∧ s.sink.Sound) ?_
    ⟨simulated_initial, inv_initial, Process.sound_initial, Process.sound_initial⟩ hrun).1
  rintro s b t ⟨hsim, hinv, hsource, hsink⟩ hstep
  refine ⟨hsim.step hS hT hinv hsource hsink hstep, hinv.step hstep, ?_⟩
  cases step_effect hstep with
  | source a p hp harrived => exact ⟨hsource.step hp, hsink⟩
  | sink a p hp harrived => exact ⟨hsource, hsink.step hp⟩
  | serveSource m hm => exact ⟨hsource, hsink⟩
  | serveSink m hm => exact ⟨hsource, hsink⟩

theorem exists_joint (hS : ∀ u v, S.clock u v = true → clock u v = true)
    (hT : ∀ u v, T.clock u v = true → clock u v = true)
    (hrun : Transition.run (step S T) initial bs = some s) (ht : s.source.sender = some t)
    (hr : s.sink.receiver = some r) :
    ∃ packets j, packetBuffer (getFileContents t.file) = some packets ∧
      JointReachable clock t.file j ∧ s.Sims t.file packets r.start j := by
  obtain ⟨hsource, hsink⟩ := kept_run hrun
  obtain ⟨packets, hpackets⟩ := (hsource.roles.sender t ht).packets
  have hclock := hT _ _ (hsink.roles.receiver r hr).start
  have hreceiver := hsource.roles.one.resolve_left (by simp [ht])
  have hsender := hsink.roles.one.resolve_right (by simp [hr])
  obtain ⟨j, hj, hsim⟩ := simulated_run hS hT hrun hreceiver hsender t.file packets r.start
    hpackets hclock (fun t' ht' => by rw [Option.some.inj (ht.symm.trans ht')])
    (fun r' hr' => by rw [Option.some.inj (hr.symm.trans hr')])
  exact ⟨packets, j, hpackets, ⟨packets, r.start, hpackets, hclock, hj⟩, hsim⟩

/-- Whatever the server sends and however the threads take turns, sender and receiver are in
a state that the protocol gets to over the lossy network, with the queues of the clients in
flight. -/
theorem refines_protocol (hS : ∀ u v, S.clock u v = true → clock u v = true)
    (hT : ∀ u v, T.clock u v = true → clock u v = true)
    (hrun : Transition.run (step S T) initial bs = some s) (ht : s.source.sender = some t)
    (hr : s.sink.receiver = some r) : ∃ j, JointReachable clock t.file j ∧
      j.sender = t.state ∧ j.phase = t.phase ∧ j.stop = s.source.stop ∧
      j.receiver = r.state ∧ j.result = r.result ∧
      (∀ packet ∈ s.source.client.outputPacketBuffer, carry packet ∈ j.dataNet) ∧
      (∀ packet ∈ s.sink.client.inputPacketBuffer, packet ∈ j.dataNet) ∧
      (∀ packet ∈ s.sink.client.outputPacketBuffer, carry packet ∈ j.ackNet) ∧
      ∀ packet ∈ s.source.client.inputPacketBuffer, packet ∈ j.ackNet := by
  obtain ⟨packets, j, -, hj, hsource, hsink⟩ := exists_joint hS hT hrun ht hr
  have hinv := inv_run hrun
  obtain ⟨hgenuine, hgenuine'⟩ := hinv.genuine
  have hthread := hsource.thread ht
  have hcall := hsink.call hr
  refine ⟨j, hj, hthread.state, hthread.phase, hsource.stop, hcall.state, hcall.result,
    fun packet hpacket => hsource.handed packet (hinv.sourceQueued.handed hpacket),
    fun packet hpacket => ?_,
    fun packet hpacket => hsink.handed packet (hinv.sinkQueued.handed hpacket),
    fun packet hpacket => ?_⟩
  · obtain ⟨packet', hmem, rfl⟩ := hgenuine' packet hpacket
    exact hsource.handed packet' hmem
  · obtain ⟨packet', hmem, rfl⟩ := hgenuine packet hpacket
    exact hsink.handed packet' hmem

def startMessage : Message := startWord ++ chars [' ', '1', ' ', 'Y', 'Q', '=', '=']

def packetMessage : Message := packetWord ++ space :: base64Encode (dataPacket [0x89] 0)

/-- A file of one byte, from the registrations to the checksum of the output. -/
def transferRun : List StackAction := List.flatten [
  [.serveSource registerWord, .serveSource okWord, .serveSource startMessage],
  [.serveSink registerWord, .serveSink okWord, .serveSink startMessage],
  sendingRun.map .source,
  connection.map .sink,
  [.sink .loopTest, .sink (.loopRead startLine true), .sink (.loopSend true)],
  List.replicate 3 (.sink (.main false true 1)),
  [.serveSink packetMessage],
  [.sink .loopTest, .sink (.loopRead (lineOf packetMessage ++ [newline]) true)],
  [.sink (.receiverTest 2), .sink (.receiverTake 3), .sink .receiverPush],
  List.replicate 3 (.sink (.main false true 4))]

theorem refines_protocol_transfer :
    ∃ s ∈ Transition.run (step oneByteSettings oneByteSettings) initial transferRun,
      ∃ r ∈ s.sink.receiver, r.result = some [0x89] ∧
        ∃ j, JointReachable anyClock [0x89] j ∧ j.result = r.result := by
  obtain ⟨s, hrun, t, ht, htfile, r, hr, hresult⟩ :
      ∃ s ∈ Transition.run (step oneByteSettings oneByteSettings) initial transferRun,
        ∃ t ∈ s.source.sender, t.file = [0x89] ∧
          ∃ r ∈ s.sink.receiver, r.result = some [0x89] := by
    decide +kernel
  obtain ⟨j, hj, -, -, -, -, hjoint, -⟩ :=
    refines_protocol (any_clock oneByteSettings) (any_clock oneByteSettings) hrun ht hr
  exact ⟨s, hrun, r, hr, hresult, j, htfile ▸ hj, hjoint⟩

/-- Without a sender there is nothing to return. -/
theorem result_none (hrun : Transition.run (step S T) initial bs = some s)
    (hsender : s.source.sender = none) : ∀ r ∈ s.sink.receiver, r.result = none := by
  have hall := Transition.run_invariant (fun s : Stack => s.Inv ∧ s.source.Kept S ∧
    (s.source.sender = none → ∀ r ∈ s.sink.receiver, r.result = none)) ?_
    ⟨inv_initial, Process.kept_initial, by simp [initial, Process.initial]⟩ hrun
  · exact hall.2.2 hsender
  · rintro s b t ⟨hinv, hkept, hnone⟩ hstep
    refine ⟨hinv.step hstep, ?_⟩
    cases step_effect hstep with
    | source a p hp harrived =>
      refine ⟨hkept.step hp, fun hsender' => hnone ?_⟩
      by_contra hsome
      obtain ⟨t, ht⟩ := Option.ne_none_iff_exists'.mp hsome
      obtain ⟨t', ht', -⟩ := sender_step hp ht hkept.sound
      exact absurd (hsender'.symm.trans ht') (by simp)
    | sink a p hp harrived =>
      refine ⟨hkept, fun hsender' => result_step hp (fun packet hpacket => ?_) (hnone hsender')⟩
      obtain ⟨packet', hmem, rfl⟩ := hinv.genuine.2 packet hpacket
      exact decode_data_of_acceptsAck (hkept.roles.answers hsender' packet' hmem)
    | serveSource m hm => exact ⟨hkept, hnone⟩
    | serveSink m hm => exact ⟨hkept, hnone⟩

theorem exists_file (hrun : Transition.run (step S T) initial bs = some s) {out : List Byte}
    (hout : s.sink.output = some out) : ∃ t, s.source.sender = some t ∧
      (packetCount t.file.length ≤ 65535 → out = t.file) := by
  obtain ⟨-, hsink⟩ := kept_run hrun
  obtain ⟨r, hr, result, hresult, rfl⟩ := hsink.reports.output out hout
  obtain ⟨t, ht⟩ : ∃ t, s.source.sender = some t := by
    by_contra hnone
    push Not at hnone
    have hsender := Option.eq_none_iff_forall_ne_some.mpr hnone
    exact absurd ((result_none hrun hsender r hr).symm.trans hresult) (by simp)
  refine ⟨t, ht, fun hfile => ?_⟩
  obtain ⟨packets, j, -, hj, -, hsim⟩ := exists_joint (any_clock S) (any_clock T) hrun ht hr
  have hreturned := (hj.coherent hfile).1.returned
  obtain ⟨-, rfl⟩ := hreturned result ((hsim.call hr).result.trans hresult)
  exact setFileContents_map_byteValue t.file

/-- The file that a process writes is the one that the other process reads. -/
theorem output_eq_file (hrun : Transition.run (step S T) initial bs = some s) {out : List Byte}
    (hout : s.sink.output = some out) : ∃ t, s.source.sender = some t ∧
      (∃ id, S.inputs id = some t.file) ∧ (packetCount t.file.length ≤ 65535 → out = t.file) := by
  obtain ⟨hsource, -⟩ := kept_run hrun
  obtain ⟨t, ht, hsame⟩ := exists_file hrun hout
  exact ⟨t, ht, (hsource.roles.sender t ht).file, hsame⟩

theorem output_eq_file_transfer :
    ∃ s ∈ Transition.run (step oneByteSettings oneByteSettings) initial transferRun,
      s.sink.output = some [0x89] ∧ ∃ t, s.source.sender = some t ∧ t.file = [0x89] := by
  obtain ⟨s, hrun, hout, hshort⟩ :
      ∃ s ∈ Transition.run (step oneByteSettings oneByteSettings) initial transferRun,
        s.sink.output = some [0x89] ∧ ∀ t ∈ s.source.sender, packetCount t.file.length ≤ 65535 := by
    decide +kernel
  obtain ⟨t, ht, -, hsame⟩ := output_eq_file hrun hout
  exact ⟨s, hrun, hout, t, ht, (hsame (hshort t ht)).symm⟩

/-- What the sender takes for acknowledged has been stored by the receiver; a sender that has
left its loop without being told to faces a receiver that has returned the file; and no
access of the two goes outside a vector. -/
theorem beliefs_true (hrun : Transition.run (step S T) initial bs = some s)
    (ht : s.source.sender = some t) (hr : s.sink.receiver = some r)
    (hfile : packetCount t.file.length ≤ 65535) :
    (∀ i, t.state.Acked i → r.state.Held i) ∧
      t.state.sendBase ≤ r.state.recvExpected ∧ r.state.recvExpected ≤ t.state.nextSeq ∧
      (t.phase = .left → s.source.stop = false → r.result = some (t.file.map byteValue)) ∧
      s.source.ended ≠ some .undefined ∧ s.sink.ended ≠ some .undefined := by
  obtain ⟨packets, j, -, hj, hsource, hsink⟩ :=
    exists_joint (any_clock S) (any_clock T) hrun ht hr
  have hthread := hsource.thread ht
  have hcall := hsink.call hr
  have hcoh := (hj.coherent hfile).1
  have hinv := hj.inv hfile
  have hdefined : j.undefined = false := hcoh.defined
  have hacked : ∀ i, j.sender.Acked i → j.receiver.Held i := fun i hi => hinv.acked_held hi
  have hbase := hcoh.base_le_recvExpected hinv
  have hnext := hcoh.recvExpected_le_next hinv
  rw [hthread.state, hcall.state] at hacked hbase hnext
  refine ⟨hacked, hbase, hnext, fun hleft hstop => ?_, fun hended => ?_, fun hended => ?_⟩
  · have hwhy := hj.left (hthread.phase.trans hleft)
    rw [hsource.stop, hstop] at hwhy
    exact hcall.result.symm.trans (hcoh.result_of_done hinv (hwhy.resolve_left (by simp)))
  · exact absurd (hdefined.symm.trans (hsource.undefined hended (by simp [ht]))) (by simp)
  · exact absurd (hdefined.symm.trans (hsink.undefined hended (by simp [hr]))) (by simp)

theorem beliefs_true_transfer :
    ∃ s ∈ Transition.run (step oneByteSettings oneByteSettings) initial transferRun,
      ∃ t ∈ s.source.sender, ∃ r ∈ s.sink.receiver,
        t.state.sendBase ≤ r.state.recvExpected ∧ r.state.recvExpected ≤ t.state.nextSeq := by
  obtain ⟨s, hrun, t, ht, hshort, r, hr, -⟩ :
      ∃ s ∈ Transition.run (step oneByteSettings oneByteSettings) initial transferRun,
        ∃ t ∈ s.source.sender, packetCount t.file.length ≤ 65535 ∧
          ∃ r ∈ s.sink.receiver, True := by
    decide +kernel
  obtain ⟨-, hbase, hnext, -⟩ := beliefs_true hrun ht hr hshort
  exact ⟨s, hrun, t, ht, r, hr, hbase, hnext⟩

/-- When the server starts one simulation only, with one file and one challenge, the number
in the checksum of the receiver's output is the one in the sender's checksum. -/
theorem checksums_agree (hrun : Transition.run (step S T) initial bs = some s)
    {id challenge : List Byte}
    (hstart : ∀ m ∈ s.toSource ++ s.toSink, isStart m = true → Names m id challenge)
    {challenge' challenge'' contents out : List Byte}
    (hin : .checksumIn challenge' contents ∈ s.source.written)
    (hout : .checksumOut challenge'' out ∈ s.sink.written)
    (hfile : packetCount contents.length ≤ 65535) :
    out = contents ∧ ∃ number,
      (Request.checksumIn challenge' contents).message =
        some (checksumWord ++ inWord ++ space :: number) ∧
      (Request.checksumOut challenge'' out).message =
        some (checksumWord ++ outWord ++ space :: number) := by
  obtain ⟨hsource, hsink⟩ := kept_run hrun
  have hinv := inv_run hrun
  have hnames : ∀ m ∈ s.source.acted ++ s.sink.acted, ∀ id' challenge', Names m id' challenge' →
      id' = id ∧ challenge' = challenge := by
    rintro m hm id' challenge' ⟨hm', rfl, rfl⟩
    have hmem : m ∈ s.toSource ++ s.toSink := by
      rcases List.mem_append.mp hm with hm | hm
      · exact List.mem_append_left _ (hinv.source.acted.subset hm)
      · exact List.mem_append_right _ (hinv.sink.acted.subset hm)
    exact (hstart m hmem hm').2
  obtain ⟨m, hm, id', hm', hcontents⟩ := hsource.opened.ins _ _ hin
  obtain ⟨rfl, rfl⟩ := hnames m (List.mem_append_left _ hm) _ _ hm'
  obtain ⟨m, hm, id'', hm'⟩ := hsink.opened.outs _ _ hout
  obtain ⟨-, rfl⟩ := hnames m (List.mem_append_right _ hm) _ _ hm'
  obtain ⟨t, ht, hsame⟩ := exists_file hrun (hsink.reports.written _ _ hout)
  obtain ⟨m, hm, id'', challenge, hm', hinputs⟩ := hsource.opened.sender t ht
  obtain ⟨rfl, rfl⟩ := hnames m (List.mem_append_left _ hm) _ _ hm'
  obtain rfl : t.file = contents := Option.some.inj (hinputs.symm.trans hcontents)
  refine ⟨hsame hfile, _, checksumMessage_eq _ _ _, ?_⟩
  rw [hsame hfile]
  exact checksumMessage_eq _ _ _

theorem checksums_agree_transfer : ∃ number,
    (Request.checksumIn [0x61] [0x89]).message =
      some (checksumWord ++ inWord ++ space :: number) ∧
    (Request.checksumOut [0x61] [0x89]).message =
      some (checksumWord ++ outWord ++ space :: number) := by
  obtain ⟨s, hrun, hstart, hin, hout⟩ :
      ∃ s ∈ Transition.run (step oneByteSettings oneByteSettings) initial transferRun,
        (∀ m ∈ s.toSource ++ s.toSink, isStart m = true → Names m (chars ['1']) [0x61]) ∧
          .checksumIn [0x61] [0x89] ∈ s.source.written ∧
          .checksumOut [0x61] [0x89] ∈ s.sink.written := by
    decide +kernel
  exact (checksums_agree hrun hstart hin hout (by decide +kernel)).2

end Stack
end RdtChallenge
