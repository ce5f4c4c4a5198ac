import RdtChallenge.EventLoop
import RdtChallenge.ProcessEffect

namespace RdtChallenge

theorem getControlMessage_frame {chunk : List Byte} {c c' : ClientState}
    (h : getControlMessage chunk c = .ok c') : ∃ buffer message,
      c' = { c with socketBufferStr := buffer, currentControlMessage := message } := by
  unfold getControlMessage at h
  dsimp only at h
  split_ifs at h with hidle
  · split at h
    · split_ifs at h
      · exact ⟨_, _, (Except.ok.inj h).symm⟩
      · exact ⟨_, _, (Except.ok.inj h).symm⟩
    · exact ⟨_, _, (Except.ok.inj h).symm⟩
  · exact ⟨_, _, (Except.ok.inj h).symm⟩

structure HandleFrame (m : Message) (c c' : ClientState) : Prop where
  socketBufferStr : c'.socketBufferStr = c.socketBufferStr
  isSender : c'.isSender = c.isSender
  outputPacketBuffer : c'.outputPacketBuffer = c.outputPacketBuffer
  transmitted : c'.transmitted = c.transmitted
  finished : c'.simulationFinished = true →
    c.simulationFinished = true ∨ c'.simulationStarted = false
  unfinished : c.simulationFinished = true → c'.simulationFinished = true
  inputPacketBuffer : c'.inputPacketBuffer = c.inputPacketBuffer ∨
    isPacket m = true ∧ c'.inputPacketBuffer = c.inputPacketBuffer ++ [payloadOf m]
  fileID : c'.fileID = c.fileID ∨ isStart m = true ∧ c'.fileID = (split m space).getD 1 []

theorem handleMessage_frame (input : Input) (m : Message) (c : ClientState) :
    HandleFrame m c (handleMessage input m c).1 := by
  have hfirst : ∀ word, (∀ b ∈ word, (b != space) = true) →
      startsWith word ((split m space).getD 0 []) = startsWith word m :=
    fun word hword => startsWith_first hword m
  unfold handleMessage
  simp only [hfirst failWord (by decide), hfirst startWord (by decide),
    hfirst packetWord (by decide)]
  by_cases hfail : (split m space).length > 0 ∧ startsWith failWord m = true
  · rw [if_pos hfail]
    exact ⟨rfl, rfl, rfl, rfl, fun _ => Or.inr rfl, fun _ => rfl, Or.inl rfl, Or.inl rfl⟩
  rw [if_neg hfail]
  by_cases hstart : (split m space).length > 1 ∧ startsWith startWord m = true
  · rw [if_pos hstart]
    cases hargument : (split m space)[2]? with
    | none =>
      exact ⟨rfl, rfl, rfl, rfl, Or.inl, id, Or.inl rfl, Or.inr ⟨hstart.2, rfl⟩⟩
    | some argument =>
      dsimp only
      split_ifs
      · exact ⟨rfl, rfl, rfl, rfl, Or.inl, id, Or.inl rfl, Or.inr ⟨hstart.2, rfl⟩⟩
      · exact ⟨rfl, rfl, rfl, rfl, Or.inl, id, Or.inl rfl, Or.inr ⟨hstart.2, rfl⟩⟩
  rw [if_neg hstart]
  by_cases hpacket : (split m space).length > 0 ∧ startsWith packetWord m = true
  · rw [if_pos hpacket]
    split_ifs
    · exact ⟨rfl, rfl, rfl, rfl, Or.inl, id, Or.inr ⟨hpacket.2, rfl⟩, Or.inl rfl⟩
    · exact ⟨rfl, rfl, rfl, rfl, Or.inl, id, Or.inl rfl, Or.inl rfl⟩
  rw [if_neg hpacket]
  split_ifs
  · exact ⟨rfl, rfl, rfl, rfl, fun _ => Or.inr rfl, fun _ => rfl, Or.inl rfl, Or.inl rfl⟩
  · exact ⟨rfl, rfl, rfl, rfl, Or.inl, id, Or.inl rfl, Or.inl rfl⟩

namespace Process

/-- The part of a process on which the control of `main` depends. -/
structure Control where
  loop : LoopPhase
  startCommand : Bool
  joinable : Bool
  sends : Bool
  receives : Bool
  isSender : Bool
  started : Bool
  finished : Bool

def control (p : Process) : Control where
  loop := p.loop
  startCommand := p.startCommand
  joinable := p.joinable
  sends := p.sender.isSome
  receives := p.receiver.isSome
  isSender := p.client.isSender
  started := p.client.simulationStarted
  finished := p.client.simulationFinished

namespace Control

/-- The event loop will not write any more. -/
def Quiet (c : Control) : Prop :=
  c.loop = .ended ∨
    c.finished = true ∧ (c.loop = .testing ∨ c.loop = .sending ∧ c.started = false)

structure Connecting (c : Control) : Prop where
  unborn : c.loop = .unborn
  finished : c.finished = false
  sends : c.sends = false
  receives : c.receives = false
  startCommand : c.startCommand = false
  isSender : c.isSender = false

def Undecided (c : Control) : Prop :=
  c.joinable = true ∧ c.sends = false ∧ c.receives = false ∧ (c.finished = true → c.Quiet)

structure Closing (c : Control) : Prop where
  joinable : c.joinable = !c.sends
  sends : c.sends = true → c.startCommand = true
  receives : c.receives = true → c.startCommand = false
  asked : c.isSender = true → c.startCommand = true ∧ c.Quiet

/-- What holds at a point of `main`. -/
def Sound (c : Control) : MainPhase → Prop
  | .hello | .registering | .reply => c.Connecting
  | .waiting | .polling | .pausing | .deciding | .launching =>
    c.Undecided ∧ (c.isSender = true → c.startCommand = true)
  | .pressed | .marking => c.Undecided ∧ c.startCommand = false ∧ c.isSender = false
  | .requesting => c.Undecided ∧ c.startCommand = false
  | .joiningLoop =>
    c.joinable = true ∧ c.sends = true ∧ c.receives = false ∧ c.startCommand = true
  | .stopping | .joiningThread => c.joinable = false ∧ c.loop = .ended ∧ c.sends = true ∧
    c.receives = false ∧ c.startCommand = true
  | .receiving | .reporting | .uploading => c.joinable = true ∧ c.sends = false ∧
    c.receives = true ∧ c.startCommand = false ∧ c.isSender = false
  | .closing | .finishing | .joining => c.Closing
  | .farewell | .returning => c.Quiet ∧ c.joinable = (c.isSender && !c.sends) ∧
    (c.sends = true → c.isSender = true)

theorem Quiet.close {c : Control} (h : c.Quiet) : Quiet { c with started := false } :=
  h.imp_right fun h => ⟨h.1, h.2.imp_right fun h => ⟨h.1, rfl⟩⟩

theorem Quiet.finish {c : Control} (h : c.Quiet) : Quiet { c with finished := true } :=
  h.imp_right fun h => ⟨rfl, h.2⟩

theorem not_quiet {c : Control} (h : c.loop = .reading) : ¬ c.Quiet := by
  rintro (hended | ⟨-, htesting | ⟨hsending, -⟩⟩) <;> simp_all

/-- What the event loop does to the control state, where it stands. -/
structure Interferes (c : Control) (loop : LoopPhase) (started finished : Bool) : Prop where
  unborn : c.loop ≠ .unborn
  ended : c.loop ≠ .ended
  quiet : c.Quiet → Quiet { c with loop, started, finished }
  finished : (c.finished = true → c.Quiet) → finished = true →
    Quiet { c with loop, started, finished }

/-- The event loop leaves alone what holds at the points of `main`. -/
theorem Sound.interfere {c : Control} {main : MainPhase} (h : c.Sound main) {loop : LoopPhase}
    {started finished : Bool} (hi : c.Interferes loop started finished) :
    Sound { c with loop, started, finished } main := by
  have hundecided : c.Undecided → Undecided { c with loop, started, finished } :=
    fun h => ⟨h.1, h.2.1, h.2.2.1, hi.finished h.2.2.2⟩
  cases main with
  | hello | registering | reply => exact absurd h.unborn hi.unborn
  | waiting | polling | pausing | deciding | launching => exact ⟨hundecided h.1, h.2⟩
  | pressed | marking => exact ⟨hundecided h.1, h.2⟩
  | requesting => exact ⟨hundecided h.1, h.2⟩
  | joiningLoop => exact h
  | stopping | joiningThread => exact absurd h.2.1 hi.ended
  | receiving | reporting | uploading => exact h
  | closing | finishing | joining =>
    exact ⟨h.joinable, h.sends, h.receives, fun hs => (h.asked hs).imp_right hi.quiet⟩
  | farewell | returning => exact ⟨hi.quiet h.1, h.2⟩

end Control

variable {S : Settings} {p q : Process} {a : ProcessAction}

def Sound (p : Process) : Prop := p.control.Sound p.main

theorem Sound.at (h : p.Sound) {main : MainPhase} (hmain : p.main = main) :
    p.control.Sound main := hmain ▸ h

theorem sound_initial : initial.Sound := ⟨rfl, rfl, rfl, rfl, rfl, rfl⟩

theorem Sound.move (h : p.Sound) {main : MainPhase} (hmove : p.Moves main) :
    p.control.Sound main := by
  cases hmove with
  | settle hmain | poll hmain | idle hmain | mark hmain | resume hmain | pause hmain
  | launch hmain | finish _ hmain =>
    replace h := h.at hmain
    exact h
  | press hmain hstart =>
    obtain ⟨hundecided, hasked⟩ := h.at hmain
    refine ⟨hundecided, hstart, ?_⟩
    by_contra hs
    rw [Bool.not_eq_false] at hs
    have : p.startCommand = true := hasked hs
    simp [hstart] at this
  | refuse hmain hfinished =>
    -- a simulation that was refused has been ended by the event loop
    obtain ⟨⟨hjoinable, hsends, hreceives, hquiet⟩, hasked⟩ := h.at hmain
    refine ⟨?_, ?_, ?_, fun hs => ⟨hasked hs, hquiet hfinished⟩⟩
    · rw [hjoinable, hsends]
      rfl
    · simp [hsends]
    · simp [hreceives]
  | leave hmain =>
    obtain ⟨hjoinable, hended, hsends, hreceives, hstart⟩ := h.at hmain
    refine ⟨?_, fun _ => hstart, ?_, fun _ => ⟨hstart, Or.inl hended⟩⟩
    · rw [hjoinable, hsends]
      rfl
    · simp [hreceives]
  | part hmain hs =>
    have hclosing : p.control.Closing := h.at hmain
    have hs' : p.control.isSender = true := hs
    refine ⟨(hclosing.asked hs).2, ?_, fun _ => hs⟩
    rw [hclosing.joinable, hs']
    rfl

theorem Sound.of_eq (h : p.Sound) (hcontrol : q.control = p.control) (hmain : q.main = p.main) :
    q.Sound := by
  unfold Sound at *
  rwa [hcontrol, hmain]

theorem Sound.test (h : p.Sound) (hloop : p.loop = .testing) :
    Sound { p with loop := if looping p.client then .reading else .ended } := by
  -- a loop that finds the simulation finished ends
  have hends : p.client.simulationFinished = true → looping p.client = false := by
    intro hfinished
    simp [looping, hfinished]
  refine Control.Sound.interfere h ⟨?_, ?_, ?_, ?_⟩
  · simp [control, hloop]
  · simp [control, hloop]
  · rintro (hended | ⟨hfinished, -⟩)
    · simp [control, hloop] at hended
    · exact Or.inl (if_neg (by simp [hends hfinished]))
  · exact fun _ hfinished => Or.inl (if_neg (by simp [hends hfinished]))

theorem Sound.read (h : p.Sound) (hloop : p.loop = .reading) {c : ClientState}
    {arrived : List Byte} {acted : List Message} {written : List Request}
    (hsender : c.isSender = p.client.isSender)
    (hfinished : c.simulationFinished = true →
      p.client.simulationFinished = true ∨ c.simulationStarted = false) :
    Sound { p with client := c, loop := .sending, arrived, acted, written } := by
  have hnot : ¬ p.control.Quiet := Control.not_quiet hloop
  have hinterferes : p.control.Interferes .sending c.simulationStarted c.simulationFinished := by
    refine ⟨?_, ?_, fun hquiet => absurd hquiet hnot, fun hquiet hc => ?_⟩
    · simp [control, hloop]
    · simp [control, hloop]
    · refine Or.inr ⟨hc, Or.inr ⟨rfl, (hfinished hc).resolve_left fun hbefore => ?_⟩⟩
      exact hnot (hquiet hbefore)
  refine of_eq (p := { p with loop := .sending, client := { p.client with
    simulationStarted := c.simulationStarted
    simulationFinished := c.simulationFinished } })
    (Control.Sound.interfere h hinterferes) ?_ rfl
  simp [control, hsender]

theorem Sound.sent (h : p.Sound) (hloop : p.loop = .sending) :
    Sound { p with loop := .testing } := by
  have hquiet : p.control.Quiet → Control.Quiet { p.control with loop := .testing } := by
    rintro (hended | ⟨hfinished, -⟩)
    · simp [control, hloop] at hended
    · exact Or.inr ⟨hfinished, Or.inl rfl⟩
  refine Control.Sound.interfere h ⟨?_, ?_, hquiet, fun hbefore hfinished => ?_⟩
  · simp [control, hloop]
  · simp [control, hloop]
  · exact hquiet (hbefore hfinished)

theorem Sound.registered (h : p.Sound) (hmain : p.main = .reply) {buffer : List Byte}
    {message : Message} {arrived : List Byte} {acted : List Message} :
    Sound { p with
      client := clearControlMessage { p.client with
        socketBufferStr := buffer, currentControlMessage := message }
      arrived, acted, loop := .testing, joinable := true, main := .waiting } := by
  have hconnecting : p.control.Connecting := h.at hmain
  have hfinished : p.client.simulationFinished = false := hconnecting.finished
  have hsender : p.client.isSender = false := hconnecting.isSender
  refine ⟨⟨rfl, hconnecting.sends, hconnecting.receives, ?_⟩, ?_⟩
  · simp [control, clearControlMessage, hfinished]
  · simp [control, clearControlMessage, hsender]

theorem Sound.call (h : p.Sound) (hmain : p.main = .launching) (hstart : p.startCommand = false)
    (r : ReceiverCall) : Sound { p with main := .receiving, receiver := some r } := by
  obtain ⟨⟨hjoinable, hsends, -, -⟩, hasked⟩ := h.at hmain
  refine ⟨hjoinable, hsends, rfl, hstart, ?_⟩
  by_contra hs
  rw [Bool.not_eq_false] at hs
  have : p.startCommand = true := hasked hs
  simp [hstart] at this

theorem Sound.join (h : p.Sound) {main : MainPhase} (hjoinable : p.joinable = true)
    (hloop : p.loop = .ended)
    (hmain : p.main = .joiningLoop ∧ main = .stopping ∨
      p.main = .joining ∧ p.client.isSender = false ∧ main = .farewell) :
    Sound { p with joinable := false, main } := by
  rcases hmain with ⟨hmain, rfl⟩ | ⟨hmain, hs, rfl⟩
  · obtain ⟨-, hsends, hreceives, hstart⟩ := h.at hmain
    exact ⟨rfl, hloop, hsends, hreceives, hstart⟩
  · have hclosing : p.control.Closing := h.at hmain
    have hs' : p.control.isSender = false := hs
    have hsends : p.control.sends = false := by
      simpa using hclosing.joinable.symm.trans hjoinable
    refine ⟨Or.inl hloop, ?_, fun hsends' => ?_⟩
    · simp [control, hs]
    · exact absurd (hsends.symm.trans hsends') (by simp)

theorem Sound.upload (h : p.Sound) (hmain : p.main = .uploading) (written : List Request) :
    Sound { p with main := .closing, written } := by
  obtain ⟨hjoinable, hsends, hreceives, hstart, hs⟩ := h.at hmain
  show p.control.Closing
  refine ⟨?_, ?_, fun _ => hstart, ?_⟩
  · rw [hjoinable, hsends]
    rfl
  · simp [hsends]
  · simp [hs]

theorem Sound.step (h : p.Sound) (hstep : step S p a = some q) : q.Sound := by
  obtain ⟨-, he⟩ := step_effect hstep
  cases he with
  | exit why hwhy => exact h
  | register key now hmain | setStop key written now hmain | farewell key now hmain =>
    replace h := h.at hmain
    exact h
  | move key written now main hmove => exact h.move hmove
  | late key written now hmain | request key now hmain =>
    replace h := h.at hmain
    exact ⟨h.1, fun _ => rfl⟩
  | mark key written now hmain =>
    replace h := h.at hmain
    exact ⟨h.1, h.2.1⟩
  | spawn key written now file packets hmain hstart hfile hpackets =>
    obtain ⟨⟨hjoinable, -, hreceives, -⟩, -⟩ := h.at hmain
    exact ⟨hjoinable, rfl, hreceives, hstart⟩
  | call key written now hmain hstart hclock => exact h.call hmain hstart _
  | join key written now main hjoinable hloop hmain => exact h.join hjoinable hloop hmain
  | report key written now r result hmain hr hresult =>
    replace h := h.at hmain
    exact h
  | upload key now file hmain hout => exact h.upload hmain _
  | close key written now hmain =>
    have hclosing : p.control.Closing := h.at hmain
    exact ⟨hclosing.joinable, hclosing.sends, hclosing.receives,
      fun hs => (hclosing.asked hs).imp_right Control.Quiet.close⟩
  | finish key written now hmain =>
    have hclosing : p.control.Closing := h.at hmain
    exact ⟨hclosing.joinable, hclosing.sends, hclosing.receives,
      fun hs => (hclosing.asked hs).imp_right Control.Quiet.finish⟩
  | listen chunk c hmain hget hc =>
    obtain ⟨_, _, rfl⟩ := getControlMessage_frame hget
    exact h
  | greeted chunk c hmain hget hc =>
    obtain ⟨_, _, rfl⟩ := getControlMessage_frame hget
    replace h := h.at hmain
    exact h
  | registered chunk c hmain hget hc =>
    obtain ⟨_, _, rfl⟩ := getControlMessage_frame hget
    exact h.registered hmain
  | test hloop => exact h.test hloop
  | quiet chunk written c hloop hget hc =>
    obtain ⟨_, _, rfl⟩ := getControlMessage_frame hget
    exact h.read hloop rfl Or.inl
  | act chunk written c c' message input hloop hget hc hne hhandle =>
    have hframe := handleMessage_frame input message c
    rw [hhandle] at hframe
    obtain ⟨_, _, rfl⟩ := getControlMessage_frame hget
    exact h.read hloop hframe.isSender hframe.finished
  | transmit packet rest hloop hstarted hqueue => exact h.sent hloop
  | skip written hloop => exact h.sent hloop
  | enter t | leave t | senderTest t | acknowledge t | done t | send t | senderPush t =>
    exact h.of_eq (by simp [control, push, *]) rfl
  | receiverTest r | keep r | reject r | receive r | receiverPush r =>
    exact h.of_eq (by simp [control, push, *]) rfl

theorem sound_run {as : List ProcessAction} (hrun : Transition.run (step S) initial as = some p) :
    p.Sound :=
  Transition.run_invariant Process.Sound (fun _ _ _ h hstep => h.step hstep) sound_initial hrun

def EndedAs (p : Process) : Ending → Prop
  | .clean => p.client.isSender = p.sender.isSome
  | .terminated => p.client.isSender = true ∧ p.sender = none
  | .joinFailed => p.client.isSender = false ∧ p.sender.isSome = true
  | _ => True

theorem Sound.endedAs (h : p.Sound) {why : Ending} (hwhy : p.EndsBy why) : p.EndedAs why := by
  cases why with
  | clean =>
    obtain ⟨hmain, hjoinable⟩ := hwhy
    obtain ⟨-, hlast, hsends⟩ := h.at hmain
    have hjoined : (p.client.isSender && !p.sender.isSome) = false := hlast.symm.trans hjoinable
    show p.client.isSender = p.sender.isSome
    rw [Bool.eq_iff_iff]
    exact ⟨fun hs => by simpa [hs] using hjoined, hsends⟩
  | terminated =>
    obtain ⟨hmain, hjoinable⟩ := hwhy
    obtain ⟨-, hlast, -⟩ := h.at hmain
    have hleft : (p.client.isSender && !p.sender.isSome) = true := hlast.symm.trans hjoinable
    rw [Bool.and_eq_true] at hleft
    exact ⟨hleft.1, by simpa using hleft.2⟩
  | joinFailed =>
    obtain ⟨hjoinable, hmain | ⟨hmain, hs⟩⟩ := hwhy
    · obtain ⟨hbefore, -⟩ := h.at hmain
      exact absurd (hjoinable.symm.trans hbefore) (by simp)
    · have hclosing : p.control.Closing := h.at hmain
      have hjoined : (!p.sender.isSome) = false := hclosing.joinable.symm.trans hjoinable
      exact ⟨hs, by simpa using hjoined⟩
  | _ => trivial

theorem endedAs_run {as : List ProcessAction} (hrun : Transition.run (step S) initial as = some p)
    {why : Ending} (hended : p.ended = some why) : p.EndedAs why := by
  have hall := Transition.run_invariant
    (fun p => p.Sound ∧ ∀ why, p.ended = some why → p.EndedAs why) ?_
    ⟨sound_initial, fun why h => by cases h⟩ hrun
  · exact hall.2 why hended
  · rintro p a q ⟨hp, -⟩ hstep
    refine ⟨hp.step hstep, fun why hq => ?_⟩
    obtain ⟨hnone, he⟩ := step_effect hstep
    cases he with
    | exit why' hwhy =>
      obtain rfl : why' = why := Option.some.inj hq
      exact hp.endedAs hwhy
    | _ => exact absurd (hnone.symm.trans hq) (by simp)

/-- A process that gets to the end of `main` or to a `join` that fails ends cleanly exactly
when it was sender if it had asked to be. A client that asked and was refused destroys a
thread that it has not joined, and one that asked too late joins its thread twice. -/
theorem ends_cleanly_iff {as : List ProcessAction}
    (hrun : Transition.run (step S) initial as = some p) {why : Ending}
    (hended : p.ended = some why) (hmain : why ∈ [.clean, .terminated, .joinFailed]) :
    (why = .clean ↔ p.client.isSender = p.sender.isSome) ∧
      (why = .terminated ↔ p.client.isSender = true ∧ p.sender = none) ∧
      (why = .joinFailed ↔ p.client.isSender = false ∧ p.sender.isSome = true) := by
  have has := endedAs_run hrun hended
  simp only [List.mem_cons, List.not_mem_nil, or_false] at hmain
  rcases hmain with rfl | rfl | rfl <;> simp only [EndedAs] at has <;>
    cases hs : p.client.isSender <;> cases ht : p.sender <;> simp_all

/-- A test file of one byte, sent with the file number 1. -/
def oneByteSettings : Settings where
  groupToken := chars ['k']
  file := chars ['1']
  inputs id := if id = chars ['1'] then some [0x89] else none
  clock := anyClock

def connection : List ProcessAction := [
  .connect (lineOf registerWord ++ [newline]),
  .main false true 0,
  .connect (lineOf okWord ++ [newline])]

/-- `START 1` is answered by `FAIL`. -/
def refusedRun : List ProcessAction := List.flatten [
  connection,
  [.main false true 0],
  List.replicate 4 (.main true true 0),
  [.loopTest, .loopRead (lineOf failWord ++ [newline]) true],
  List.replicate 8 (.main false true 0)]

theorem ends_cleanly_iff_refused :
    ∃ p ∈ Transition.run (step oneByteSettings) initial refusedRun,
      p.ended = some .terminated ∧ p.client.isSender = true ∧ p.sender = none := by
  obtain ⟨p, hrun, hended⟩ : ∃ p ∈ Transition.run (step oneByteSettings) initial refusedRun,
      p.ended = some .terminated := by
    decide +kernel
  have hmain : Ending.terminated ∈ [Ending.clean, .terminated, .joinFailed] := by decide
  exact ⟨p, hrun, hended, (ends_cleanly_iff hrun hended hmain).2.1.mp rfl⟩

end Process
end RdtChallenge
