import Mathlib.Data.List.TakeWhile
import RdtChallenge.Client
import RdtChallenge.Transition

namespace RdtChallenge
open LineFraming (frame Leaves)

structure Channel where
  client : ClientState
  halted : Option Halt
  /-- A call of `receivePacket` has passed its first test. -/
  receiving : Bool
  /-- The bytes read so far, those before the loop included. -/
  arrived : List Byte
  acted : List Message
  returned : List Packet
deriving DecidableEq

/-- What the threads do. Regions under a lock are single actions, and so is an iteration of the
event loop: of what `receivePacket` works on it touches the queue only, and that once. -/
inductive ChannelAction
  | iterate (input : Input)
  | receiveTest
  | receiveTake
  | sendPacket (packet : Packet)
  | requestStart (written : Bool)

namespace Channel

/-- After registration, with `buffer` already read past its reply. -/
def initial (buffer : List Byte) : Channel where
  client := ⟨buffer, [], false, false, false, false, [], [], [], [], []⟩
  halted := none
  receiving := false
  arrived := buffer
  acted := []
  returned := []

def step (s : Channel) (a : ChannelAction) : Option Channel :=
  if s.halted ≠ none then none
  else
    match a with
    | .iterate input =>
      if looping s.client ∧ input.chunk.length ≤ bufSize then
        let t := iteration input s.client
        some { s with
          client := t.state
          halted := t.halt
          arrived := s.arrived ++ input.chunk
          acted := s.acted ++ t.message.toList }
      else none
    | .receiveTest =>
      if s.receiving then none
      else some { s with receiving := s.client.inputPacketBuffer.length > 0 }
    | .receiveTake =>
      if s.receiving then
        match s.client.inputPacketBuffer with
        | packet :: rest => some { s with
            client := { s.client with inputPacketBuffer := rest }
            receiving := false
            returned := s.returned ++ [packet] }
        | [] => some { s with receiving := false }
      else none
    | .sendPacket packet => some { s with
        client := { s.client with outputPacketBuffer := s.client.outputPacketBuffer ++ [packet] } }
    | .requestStart written =>
      if s.client.simulationStarted then some s
      else some { s with
        client := { s.client with isSender := true }
        halted := if written then none else some .writeFailed }

end Channel

/-- The packets between the first `START` and the first message that ends the simulation. -/
def delivered (ms : List Message) : List Packet :=
  ((ms.takeWhile fun m => !isEnd m).dropWhile fun m => !isStart m).filterMap fun m =>
    if isPacket m then some (payloadOf m) else none

def stream (ms : List Message) : List Byte := frame newline (ms.map lineOf)

structure Sendable (m : Message) : Prop where
  nonempty : m ≠ []
  one_line : newline ∉ m
  arguments : isStart m = true → 3 ≤ (split m space).length

instance (m : Message) : Decidable (Sendable m) :=
  decidable_of_iff (m ≠ [] ∧ newline ∉ m ∧ (isStart m = true → 3 ≤ (split m space).length))
    ⟨fun h => ⟨h.1, h.2.1, h.2.2⟩, fun h => ⟨h.1, h.2, h.3⟩⟩

theorem prefix_takeWhile {α : Type} (p : α → Bool) {l l' : List α} (h : l <+: l') :
    l.takeWhile p <+: l'.takeWhile p := by
  obtain ⟨t, rfl⟩ := h
  rw [List.takeWhile_append]
  split_ifs
  · exact (List.takeWhile_prefix p).trans (List.prefix_append _ _)
  · exact List.prefix_rfl

theorem prefix_dropWhile {α : Type} (p : α → Bool) {l l' : List α} (h : l <+: l') :
    l.dropWhile p <+: l'.dropWhile p := by
  obtain ⟨t, rfl⟩ := h
  rw [List.dropWhile_append]
  split_ifs with hempty
  · rw [List.isEmpty_iff.mp hempty]
    exact List.nil_prefix
  · exact List.prefix_append _ _

theorem delivered_prefix {ms ms' : List Message} (h : ms <+: ms') :
    delivered ms <+: delivered ms' := by
  unfold delivered
  apply List.IsPrefix.filterMap
  apply prefix_dropWhile
  exact prefix_takeWhile _ h

theorem delivered_concat {ms : List Message} (hend : ms.any isEnd = false) (m : Message) :
    delivered (ms ++ [m]) =
      delivered ms ++ if ms.any isStart && isPacket m then [payloadOf m] else [] := by
  have hall : ∀ m' ∈ ms, (!isEnd m') = true := by
    intro m' hm'
    rw [List.any_eq_false] at hend
    simpa using hend m' hm'
  have htake : ms.takeWhile (fun m => !isEnd m) = ms :=
    List.takeWhile_eq_self_iff.mpr hall
  unfold delivered
  rw [List.takeWhile_append_of_pos hall, htake]
  by_cases hm : isEnd m = true
  · -- the last message counts for nothing itself
    have hpacket : isPacket m = false := by
      by_contra hp
      rw [Bool.not_eq_false] at hp
      rw [not_isEnd_of_isPacket hp] at hm
      cases hm
    simp [hm, hpacket]
  · -- it is a packet of the simulation if that has started before
    rw [List.dropWhile_append]
    by_cases hstart : ms.any isStart = true
    · have hne : (ms.dropWhile fun m => !isStart m).isEmpty = false := by
        rw [List.isEmpty_eq_false_iff, Ne, List.dropWhile_eq_nil_iff]
        intro hnone
        obtain ⟨m', hm', hs⟩ := List.any_eq_true.mp hstart
        simpa [hs] using hnone m' hm'
      by_cases hp : isPacket m = true <;> simp [hm, hne, hstart, hp]
    · have hempty : (ms.dropWhile fun m => !isStart m) = [] := by
        rw [List.dropWhile_eq_nil_iff]
        intro m' hm'
        rw [Bool.not_eq_true, List.any_eq_false] at hstart
        simpa using hstart m' hm'
      by_cases hs : isStart m = true
      · simp [hm, hempty, hstart, hs, not_isPacket_of_isStart hs]
      · simp [hm, hempty, hstart, hs]

/-- What holds while all that has arrived belongs to the messages `ms`. -/
structure ChannelInv (ms : List Message) (s : Channel) : Prop where
  leaves : Leaves newline s.arrived (s.acted.map lineOf) s.client.socketBufferStr
  acted : s.acted <+: ms
  idle : s.halted = none → s.client.currentControlMessage = []
  started : s.client.simulationStarted = (!s.acted.any isEnd && s.acted.any isStart)
  finished : s.client.simulationFinished = s.acted.any isEnd
  queue : s.returned ++ s.client.inputPacketBuffer = delivered s.acted

theorem channelInv_initial (ms : List Message) (buffer : List Byte) :
    ChannelInv ms (Channel.initial buffer) where
  leaves := rfl
  acted := List.nil_prefix
  idle _ := rfl
  started := rfl
  finished := rfl
  queue := rfl

variable {ms : List Message} {s t : Channel}

theorem ChannelInv.iterate (h : ChannelInv ms s) (hms : ∀ m ∈ ms, Sendable m) {input : Input}
    (hhalted : s.halted = none) (hloop : looping s.client = true)
    (harrived : s.arrived ++ input.chunk <+: stream ms) :
    ChannelInv ms { s with
      client := (iteration input s.client).state
      halted := (iteration input s.client).halt
      arrived := s.arrived ++ input.chunk
      acted := s.acted ++ (iteration input s.client).message.toList } := by
  have hidle := h.idle hhalted
  have hfinished : s.client.simulationFinished = false := by
    simp only [looping, Bool.and_eq_true, Bool.not_eq_true'] at hloop
    exact hloop.2
  have hend : s.acted.any isEnd = false := h.finished ▸ hfinished
  have hlines : ∀ line ∈ ms.map lineOf, newline ∉ line := by
    intro line hline
    obtain ⟨m, hm, rfl⟩ := List.mem_map.mp hline
    exact newline_not_mem_lineOf (hms m hm).one_line
  have harrive := h.leaves.arrive input.chunk
  rcases harrive.next hlines harrived (h.acted.map lineOf) with hnone | ⟨line, rest, hbuffer, hline⟩
  · -- no complete line: nothing is taken from the buffer
    obtain ⟨output, transmitted, halt, hrun⟩ := iteration_none input hidle hnone
    rw [hrun]
    simp only [Option.toList_none, List.append_nil]
    exact ⟨harrive, h.acted, fun _ => hidle, h.started, h.finished, h.queue⟩
  · -- the line that comes next is that of the first message not acted on
    obtain ⟨m, rfl, hacted⟩ : ∃ m, line = lineOf m ∧ s.acted ++ [m] <+: ms := by
      obtain ⟨later, hlater⟩ := h.acted
      rw [← hlater, List.map_append, List.prefix_append_right_inj] at hline
      cases later with
      | nil => simp at hline
      | cons m later =>
        rw [List.map_cons, List.cons_prefix_cons] at hline
        exact ⟨m, hline.1, later, by simp [← hlater]⟩
    have hm := hms m (hacted.subset (by simp))
    obtain ⟨t, hrun, hmessage, hhandled, hclear⟩ := iteration_line input hidle hm.nonempty
      hm.one_line hm.arguments hbuffer
    rw [hrun, hmessage]
    have hany : ∀ p : Message → Bool, (s.acted ++ [m]).any p = (s.acted.any p || p m) := by
      simp
    refine ⟨?_, hacted, hclear, ?_, ?_, ?_⟩
    · rw [Option.toList_some, List.map_append, hhandled.socketBufferStr]
      rw [hbuffer] at harrive
      exact harrive.take
    · rw [hhandled.simulationStarted, Option.toList_some, hany, hany, h.started, hend]
      cases isEnd m <;> cases isStart m <;> simp
    · rw [hhandled.simulationFinished, Option.toList_some, hany, hfinished, hend, Bool.or_comm]
    · rw [hhandled.inputPacketBuffer, Option.toList_some, delivered_concat hend, ← h.queue]
      simp only [h.started, hend, Bool.not_false, Bool.true_and, List.append_assoc]

theorem ChannelInv.receiveTake (h : ChannelInv ms s) {packet : Packet} {rest : List Packet}
    (hqueue : s.client.inputPacketBuffer = packet :: rest) :
    ChannelInv ms { s with
      client := { s.client with inputPacketBuffer := rest }
      receiving := false
      returned := s.returned ++ [packet] } where
  leaves := h.leaves
  acted := h.acted
  idle := h.idle
  started := h.started
  finished := h.finished
  queue := by
    have hbefore := h.queue
    rw [hqueue] at hbefore
    simpa using hbefore

theorem ChannelInv.step (hms : ∀ m ∈ ms, Sendable m) {a : ChannelAction}
    (h : s.arrived <+: stream ms → ChannelInv ms s) (hstep : Channel.step s a = some t)
    (harrived : t.arrived <+: stream ms) : ChannelInv ms t := by
  unfold Channel.step at hstep
  by_cases hhalted : s.halted = none
  swap
  · simp [hhalted] at hstep
  rw [if_neg (not_not.mpr hhalted)] at hstep
  cases a with
  | iterate input =>
    by_cases hloop : looping s.client = true ∧ input.chunk.length ≤ bufSize
    swap
    · simp [hloop] at hstep
    simp only [if_pos hloop, Option.some.injEq] at hstep
    subst hstep
    exact (h ((List.prefix_append _ _).trans harrived)).iterate hms hhalted hloop.1 harrived
  | receiveTest =>
    by_cases hreceiving : s.receiving = true
    · simp [hreceiving] at hstep
    simp only [if_neg hreceiving, Option.some.injEq] at hstep
    subst hstep
    exact { h harrived with }
  | receiveTake =>
    by_cases hreceiving : s.receiving = true
    swap
    · simp [hreceiving] at hstep
    simp only [if_pos hreceiving] at hstep
    cases hqueue : s.client.inputPacketBuffer with
    | nil =>
      simp only [hqueue, Option.some.injEq] at hstep
      subst hstep
      exact { h harrived with }
    | cons packet rest =>
      simp only [hqueue, Option.some.injEq] at hstep
      subst hstep
      exact (h harrived).receiveTake hqueue
  | sendPacket packet =>
    simp only [Option.some.injEq] at hstep
    subst hstep
    exact { h harrived with }
  | requestStart written =>
    by_cases hrunning : s.client.simulationStarted = true
    · simp only [if_pos hrunning, Option.some.injEq] at hstep
      subst hstep
      exact h harrived
    · simp only [if_neg hrunning, Option.some.injEq] at hstep
      subst hstep
      exact { h harrived with idle := fun _ => (h harrived).idle hhalted }

theorem channelInv_run (hms : ∀ m ∈ ms, Sendable m) {buffer : List Byte}
    {as : List ChannelAction}
    (hrun : Transition.run Channel.step (Channel.initial buffer) as = some s)
    (harrived : s.arrived <+: stream ms) : ChannelInv ms s := by
  -- the condition is on the end of the run: it holds before, as `arrived` only grows
  have hkept := Transition.run_invariant (fun s => s.arrived <+: stream ms → ChannelInv ms s)
    (fun _ _ _ h hstep => ChannelInv.step hms h hstep) (fun _ => channelInv_initial ms buffer) hrun
  exact hkept harrived

/-- However the stream is cut and whatever the interleaving: the messages acted on are the
first that the server sent, and the packets returned the first that they carry. -/
theorem channel_faithful (ms : List Message) (hms : ∀ m ∈ ms, Sendable m) (buffer : List Byte)
    (as : List ChannelAction) (s : Channel)
    (hrun : Transition.run Channel.step (Channel.initial buffer) as = some s)
    (harrived : s.arrived <+: stream ms) :
    s.acted <+: ms ∧ s.returned <+: delivered ms := by
  have hinv := channelInv_run hms hrun harrived
  refine ⟨hinv.acted, ?_⟩
  calc s.returned <+: s.returned ++ s.client.inputPacketBuffer := List.prefix_append _ _
    _ = delivered s.acted := hinv.queue
    _ <+: delivered ms := delivered_prefix hinv.acted

/-- `START 1 YQ==`, `PACKET /wA=` and `FINISH`. -/
def threeMessages : List Message := [
  chars ['S', 'T', 'A', 'R', 'T', ' ', '1', ' ', 'Y', 'Q', '=', '='],
  chars ['P', 'A', 'C', 'K', 'E', 'T', ' ', '/', 'w', 'A', '='],
  chars ['F', 'I', 'N', 'I', 'S', 'H']]

/-- The stream in two reads, cut inside the first line, and an empty one. -/
def threeMessagesRun : List ChannelAction := [
  .iterate ⟨(stream threeMessages).take 20, true, true⟩,
  .iterate ⟨(stream threeMessages).drop 20, true, true⟩,
  .receiveTest,
  .iterate ⟨[], true, true⟩,
  .receiveTest,
  .receiveTake]

theorem channel_faithful_three :
    ∃ s ∈ Transition.run Channel.step (Channel.initial []) threeMessagesRun,
      s.returned = [[255, 0]] ∧ s.acted <+: threeMessages ∧
        s.returned <+: delivered threeMessages := by
  obtain ⟨s, hrun, hreturned, harrived⟩ :
      ∃ s ∈ Transition.run Channel.step (Channel.initial []) threeMessagesRun,
        s.returned = [[255, 0]] ∧ s.arrived = stream threeMessages := by
    decide +kernel
  have hsendable : ∀ m ∈ threeMessages, Sendable m := by decide +kernel
  refine ⟨s, hrun, hreturned, ?_⟩
  exact channel_faithful threeMessages hsendable [] threeMessagesRun s hrun
    (harrived ▸ List.prefix_rfl)

end RdtChallenge
