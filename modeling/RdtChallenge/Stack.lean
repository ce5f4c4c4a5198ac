import RdtChallenge.Wire

namespace RdtChallenge
open LineFraming (frame Leaves)

structure Stack where
  source : Process
  sink : Process
  /-- What the server has sent to either client so far. -/
  toSource : List Message
  toSink : List Message
deriving DecidableEq

inductive StackAction
  | source (a : ProcessAction)
  | sink (a : ProcessAction)
  | serveSource (m : Message)
  | serveSink (m : Message)

/-- What the server may send to a client whose peer is `p`: any line, at any time and any number
of times, but a `PACKET` carries the text of a `TRANSMIT` of the peer. -/
def Relayable (p : Process) (m : Message) : Prop :=
  m ≠ [] ∧ newline ∉ m ∧ (isPacket m = true →
    ∃ packet ∈ p.written.filterMap Request.packet?, m = packetWord ++ space :: base64Encode packet)

instance (p : Process) (m : Message) : Decidable (Relayable p m) :=
  inferInstanceAs (Decidable (_ ∧ _ ∧ _))

namespace Stack

def initial : Stack := ⟨.initial, .initial, [], []⟩

def step (S T : Settings) (s : Stack) : StackAction → Option Stack
  | .source a => (Process.step S s.source a).bind fun p =>
      if p.arrived <+: stream s.toSource then some { s with source := p } else none
  | .sink a => (Process.step T s.sink a).bind fun p =>
      if p.arrived <+: stream s.toSink then some { s with sink := p } else none
  | .serveSource m =>
    if Relayable s.sink m then some { s with toSource := s.toSource ++ [m] } else none
  | .serveSink m =>
    if Relayable s.source m then some { s with toSink := s.toSink ++ [m] } else none

end Stack

def Relayed (packets : List Packet) (ms : List Message) : Prop :=
  ∀ m ∈ ms, m ≠ [] ∧ newline ∉ m ∧
    (isPacket m = true → ∃ packet ∈ packets, payloadOf m = carry packet)

structure Reads (ms : List Message) (p : Process) : Prop where
  leaves : Leaves newline p.arrived (p.acted.map lineOf) p.client.socketBufferStr
  acted : p.acted <+: ms
  idle : p.client.currentControlMessage = []
  queue : ∀ packet ∈ p.client.inputPacketBuffer, ∃ m ∈ ms, isPacket m = true ∧
    payloadOf m = packet

variable {S T : Settings} {p q : Process} {a : ProcessAction} {ms ms' : List Message}
  {packets packets' : List Packet}

theorem Relayed.mono (h : Relayed packets ms) (hsub : packets <+: packets') :
    Relayed packets' ms := by
  intro m hm
  obtain ⟨hne, hone, hpacket⟩ := h m hm
  refine ⟨hne, hone, fun hp => ?_⟩
  obtain ⟨packet, hmem, heq⟩ := hpacket hp
  exact ⟨packet, hsub.subset hmem, heq⟩

theorem Relayable.payloadOf {m : Message} (h : Relayable p m) (hqueued : p.Queued)
    (hp : isPacket m = true) : ∃ packet ∈ p.handed, payloadOf m = carry packet := by
  obtain ⟨packet, hmem, rfl⟩ := h.2.2 hp
  refine ⟨packet, hqueued ▸ List.mem_append_left _ hmem, ?_⟩
  have hspace : space ∉ base64Encode packet := not_mem_base64Encode (by decide) (by decide) packet
  rw [RdtChallenge.payloadOf, split_word (by decide) hspace, packetContents_base64Encode]

theorem Relayed.concat (h : Relayed p.handed ms) (hqueued : p.Queued) {m : Message}
    (hm : Relayable p m) : Relayed p.handed (ms ++ [m]) := by
  intro m' hm'
  rcases List.mem_append.mp hm' with hm' | hm'
  · exact h m' hm'
  · obtain rfl := List.mem_singleton.mp hm'
    exact ⟨hm.1, hm.2.1, hm.payloadOf hqueued⟩

theorem Reads.mono (h : Reads ms p) (hsub : ms <+: ms') : Reads ms' p where
  leaves := h.leaves
  acted := h.acted.trans hsub
  idle := h.idle
  queue packet hpacket := by
    obtain ⟨m, hm, hrest⟩ := h.queue packet hpacket
    exact ⟨m, hsub.subset hm, hrest⟩

/-- A read finds no complete line, or hands out the next message. -/
theorem Reads.next (h : Reads ms p) (hms : Relayed packets ms) {chunk : List Byte}
    (harrived : p.arrived ++ chunk <+: stream ms) :
    getControlMessage chunk p.client = .ok { p.client with
        socketBufferStr := p.client.socketBufferStr ++ chunk } ∨
      ∃ m rest, m ≠ [] ∧ p.acted ++ [m] <+: ms ∧
        Leaves newline (p.arrived ++ chunk) ((p.acted ++ [m]).map lineOf) rest ∧
        getControlMessage chunk p.client =
          .ok { p.client with currentControlMessage := m, socketBufferStr := rest } := by
  have hlines : ∀ line ∈ ms.map lineOf, newline ∉ line := by
    intro line hline
    obtain ⟨m, hm, rfl⟩ := List.mem_map.mp hline
    exact newline_not_mem_lineOf (hms m hm).2.1
  have harrive := h.leaves.arrive chunk
  rcases harrive.next hlines harrived (h.acted.map lineOf) with hnone | ⟨line, rest, hbuffer, hline⟩
  · exact Or.inl (getControlMessage_none h.idle hnone)
  · obtain ⟨m, rfl, hacted⟩ : ∃ m, line = lineOf m ∧ p.acted ++ [m] <+: ms := by
      obtain ⟨later, hlater⟩ := h.acted
      rw [← hlater, List.map_append, List.prefix_append_right_inj] at hline
      cases later with
      | nil => simp at hline
      | cons m later =>
        rw [List.map_cons, List.cons_prefix_cons] at hline
        exact ⟨m, hline.1, later, by simp [← hlater]⟩
    obtain ⟨hne, hone, -⟩ := hms m (hacted.subset (by simp))
    refine Or.inr ⟨m, rest, hne, hacted, ?_, getControlMessage_line h.idle hne hone hbuffer⟩
    rw [hbuffer] at harrive
    rw [List.map_append]
    exact harrive.take

theorem Reads.got (h : Reads ms p) (hms : Relayed packets ms) {chunk : List Byte}
    (harrived : p.arrived ++ chunk <+: stream ms) {c : ClientState}
    (hget : getControlMessage chunk p.client = .ok c) :
    c.inputPacketBuffer = p.client.inputPacketBuffer ∧
      (c.currentControlMessage = [] →
        Leaves newline (p.arrived ++ chunk) (p.acted.map lineOf) c.socketBufferStr) ∧
      (c.currentControlMessage ≠ [] → p.acted ++ [c.currentControlMessage] <+: ms ∧
        Leaves newline (p.arrived ++ chunk) ((p.acted ++ [c.currentControlMessage]).map lineOf)
          c.socketBufferStr) := by
  rcases h.next hms harrived with hnone | ⟨m, rest, hne, hacted, hleaves, hsome⟩
  · obtain rfl := Except.ok.inj (hget.symm.trans hnone)
    exact ⟨rfl, fun _ => h.leaves.arrive chunk, fun hc => absurd h.idle hc⟩
  · obtain rfl := Except.ok.inj (hget.symm.trans hsome)
    exact ⟨rfl, fun hc => absurd hc hne, fun _ => ⟨hacted, hleaves⟩⟩

theorem Reads.answered (h : Reads ms p) (hms : Relayed packets ms) {chunk : List Byte}
    (harrived : p.arrived ++ chunk <+: stream ms) {c : ClientState}
    (hget : getControlMessage chunk p.client = .ok c) (hne : c.currentControlMessage ≠ []) :
    Reads ms { p with
      client := clearControlMessage c
      arrived := p.arrived ++ chunk
      acted := p.acted ++ [c.currentControlMessage] } := by
  obtain ⟨hqueue, -, hsome⟩ := h.got hms harrived hget
  refine ⟨(hsome hne).2, (hsome hne).1, rfl, ?_⟩
  show ∀ packet ∈ c.inputPacketBuffer, _
  rw [hqueue]
  exact h.queue

theorem Reads.take (h : Reads ms p) {packet : Packet} {rest : List Packet}
    (hqueue : p.client.inputPacketBuffer = packet :: rest) :
    Reads ms { p with client := { p.client with inputPacketBuffer := rest } } := by
  refine ⟨h.leaves, h.acted, h.idle, fun packet' hpacket' => h.queue packet' ?_⟩
  rw [hqueue]
  exact List.mem_cons_of_mem _ hpacket'

theorem Reads.step (h : Reads ms p) (hms : Relayed packets ms) (hstep : Process.step S p a = some q)
    (harrived : q.arrived <+: stream ms) : Reads ms q := by
  obtain ⟨-, he⟩ := Process.step_effect hstep
  cases he with
  | listen chunk c hmain hget hc | quiet chunk written c hloop hget hc =>
    obtain ⟨hqueue, hnone, -⟩ := h.got hms harrived hget
    exact ⟨hnone hc, h.acted, hc, hqueue ▸ h.queue⟩
  | greeted chunk c hmain hget hc =>
    have hread := h.answered hms harrived hget (hc ▸ by decide)
    exact ⟨hread.leaves, hread.acted, hread.idle, hread.queue⟩
  | registered chunk c hmain hget hc =>
    have hread := h.answered hms harrived hget (hc ▸ by decide)
    exact ⟨hread.leaves, hread.acted, hread.idle, hread.queue⟩
  | act chunk written c c' message input hloop hget hc hne hhandle =>
    have hframe := handleMessage_frame input message c
    have hidle := handleMessage_idle input message c
    rw [hhandle] at hframe hidle
    subst hc
    obtain ⟨hqueue, -, hsome⟩ := h.got hms harrived hget
    obtain ⟨hacted, hleaves⟩ := hsome hne
    refine ⟨hframe.socketBufferStr ▸ hleaves, hacted, hidle rfl, fun packet hpacket => ?_⟩
    rcases hframe.inputPacketBuffer with hsame | ⟨hp, happend⟩
    · exact h.queue packet (hqueue ▸ hsame ▸ hpacket)
    · have hmem : packet ∈ c.inputPacketBuffer ++ [payloadOf c.currentControlMessage] :=
        happend ▸ hpacket
      rcases List.mem_append.mp hmem with hmem | hmem
      · exact h.queue packet (hqueue ▸ hmem)
      · exact ⟨_, hacted.subset (by simp), hp, (List.mem_singleton.mp hmem).symm⟩
  | acknowledge t now packet rest state ht hphase hqueue hrun =>
    have hread := h.take hqueue
    exact ⟨hread.leaves, hread.acted, hread.idle, hread.queue⟩
  | reject r now packet rest b result hr hreceiving hqueue hrun hsent =>
    have hread := h.take hqueue
    exact ⟨hread.leaves, hread.acted, hread.idle, hread.queue⟩
  | receive r now packet rest b result hr hreceiving hqueue hclock hrun hsent =>
    have hread := h.take hqueue
    exact ⟨hread.leaves, hread.acted, hread.idle, hread.queue⟩
  | _ => exact ⟨h.leaves, h.acted, h.idle, h.queue⟩

theorem handed_grows (hstep : Process.step S p a = some q) : p.handed <+: q.handed := by
  obtain ⟨-, he⟩ := Process.step_effect hstep
  cases he with
  | senderPush t packet rest | receiverPush r packet rest => exact List.prefix_append _ _
  | _ => exact List.prefix_rfl

namespace Stack

variable {s t : Stack} {b : StackAction}

inductive Effect (S T : Settings) (s : Stack) : Stack → Prop
  | source (a : ProcessAction) (p : Process) (hstep : Process.step S s.source a = some p)
      (harrived : p.arrived <+: stream s.toSource) : Effect S T s { s with source := p }
  | sink (a : ProcessAction) (p : Process) (hstep : Process.step T s.sink a = some p)
      (harrived : p.arrived <+: stream s.toSink) : Effect S T s { s with sink := p }
  | serveSource (m : Message) (hm : Relayable s.sink m) :
      Effect S T s { s with toSource := s.toSource ++ [m] }
  | serveSink (m : Message) (hm : Relayable s.source m) :
      Effect S T s { s with toSink := s.toSink ++ [m] }

theorem step_effect (h : step S T s b = some t) : Effect S T s t := by
  cases b with
  | source a =>
    obtain ⟨p, hp, h⟩ := Option.bind_eq_some_iff.mp h
    split_ifs at h with harrived
    exact Option.some.inj h ▸ .source a p hp harrived
  | sink a =>
    obtain ⟨p, hp, h⟩ := Option.bind_eq_some_iff.mp h
    split_ifs at h with harrived
    exact Option.some.inj h ▸ .sink a p hp harrived
  | serveSource m =>
    simp only [step] at h
    split_ifs at h with hm
    exact Option.some.inj h ▸ .serveSource m hm
  | serveSink m =>
    simp only [step] at h
    split_ifs at h with hm
    exact Option.some.inj h ▸ .serveSink m hm

structure Inv (s : Stack) : Prop where
  source : Reads s.toSource s.source
  sink : Reads s.toSink s.sink
  toSource : Relayed s.sink.handed s.toSource
  toSink : Relayed s.source.handed s.toSink
  sourceQueued : s.source.Queued
  sinkQueued : s.sink.Queued

theorem inv_initial : initial.Inv := by
  have hreads : Reads [] Process.initial := ⟨rfl, List.nil_prefix, rfl, by simp [Process.initial]⟩
  have hrelayed : ∀ packets, Relayed packets [] := fun packets m hm => by cases hm
  exact ⟨hreads, hreads, hrelayed _, hrelayed _, rfl, rfl⟩

theorem Inv.step (h : s.Inv) (hstep : Stack.step S T s b = some t) : t.Inv := by
  cases step_effect hstep with
  | source a p hp harrived =>
    exact ⟨h.source.step h.toSource hp harrived, h.sink, h.toSource,
      h.toSink.mono (handed_grows hp), h.sourceQueued.step hp, h.sinkQueued⟩
  | sink a p hp harrived =>
    exact ⟨h.source, h.sink.step h.toSink hp harrived, h.toSource.mono (handed_grows hp),
      h.toSink, h.sourceQueued, h.sinkQueued.step hp⟩
  | serveSource m hm =>
    exact ⟨h.source.mono (List.prefix_append _ _), h.sink, h.toSource.concat h.sinkQueued hm,
      h.toSink, h.sourceQueued, h.sinkQueued⟩
  | serveSink m hm =>
    exact ⟨h.source, h.sink.mono (List.prefix_append _ _), h.toSource,
      h.toSink.concat h.sourceQueued hm, h.sourceQueued, h.sinkQueued⟩

theorem inv_run {bs : List StackAction} (hrun : Transition.run (step S T) initial bs = some s) :
    s.Inv :=
  Transition.run_invariant Inv (fun _ _ _ h hstep => h.step hstep) inv_initial hrun

/-- No packet is made up on the way. -/
theorem Inv.genuine (h : s.Inv) :
    (∀ packet ∈ s.source.client.inputPacketBuffer, ∃ p ∈ s.sink.handed, packet = carry p) ∧
      ∀ packet ∈ s.sink.client.inputPacketBuffer, ∃ p ∈ s.source.handed, packet = carry p := by
  constructor
  · intro packet hpacket
    obtain ⟨m, hm, hp, rfl⟩ := h.source.queue packet hpacket
    exact (h.toSource m hm).2.2 hp
  · intro packet hpacket
    obtain ⟨m, hm, hp, rfl⟩ := h.sink.queue packet hpacket
    exact (h.toSink m hm).2.2 hp

end Stack

end RdtChallenge
