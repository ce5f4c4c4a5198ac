import RdtChallenge.Base64
import RdtChallenge.LineFraming

namespace RdtChallenge

/-- A server message, without the protocol string and the newline. -/
abbrev Message := List Byte

def newline : Byte := 10
def space : Byte := 32
def bufSize : ℕ := 65536

def protocolString : List Byte := chars
  ['R', 'D', 'T', 'C', 'H', 'A', 'L', 'L', 'E', 'N', 'G', 'E', '/', '5', '.', '0']

def failWord : List Byte := chars ['F', 'A', 'I', 'L']
def startWord : List Byte := chars ['S', 'T', 'A', 'R', 'T']
def packetWord : List Byte := chars ['P', 'A', 'C', 'K', 'E', 'T']
def closedWord : List Byte := chars ['C', 'L', 'O', 'S', 'E', 'D']
def finishWord : List Byte := chars ['F', 'I', 'N', 'I', 'S', 'H']
def transmitWord : List Byte := chars ['T', 'R', 'A', 'N', 'S', 'M', 'I', 'T', ' ']

structure ClientState where
  socketBufferStr : List Byte
  currentControlMessage : Message
  simulationStarted : Bool
  simulationFinished : Bool
  /-- The local variable of `run()`. -/
  stopThread : Bool
  isSender : Bool
  fileID : List Byte
  challenge : List Byte
  inputPacketBuffer : List Packet
  outputPacketBuffer : List Packet
  transmitted : List Message
deriving DecidableEq

/-- What ends the process. -/
inductive Halt
  | protocolMismatch
  | outOfRange
  | checksumFailed
  | writeFailed
deriving DecidableEq

/-- `std::getline` up to the end: no empty item after a last delimiter. -/
def splitFrom (delim : Byte) (item : List Byte) : List Byte → List (List Byte)
  | [] => if item = [] then [] else [item]
  | c :: cs => if c = delim then item :: splitFrom delim [] cs else splitFrom delim (item ++ [c]) cs

def split (s : List Byte) (delim : Byte) : List (List Byte) := splitFrom delim [] s

/-- `s.find(word) == 0`. -/
def startsWith (word s : List Byte) : Bool := word.isPrefixOf s

def getControlMessage (chunk : List Byte) (c : ClientState) : Except Halt ClientState :=
  let c := { c with socketBufferStr := c.socketBufferStr ++ chunk }
  if c.currentControlMessage = [] then
    match c.socketBufferStr.findIdx? (· == newline) with
    | some pos =>
      -- a newline in front is never taken off
      if pos > 0 then
        let line := c.socketBufferStr.take pos
        if line.length > protocolString.length + 1 ∧
            line.take protocolString.length = protocolString then
          .ok { c with
            currentControlMessage := line.drop (protocolString.length + 1)
            socketBufferStr := c.socketBufferStr.drop (pos + 1) }
        else .error .protocolMismatch
      else .ok c
    | none => .ok c
  else .ok c

def clearControlMessage (c : ClientState) : ClientState := { c with currentControlMessage := [] }

def packetContents (splitMessage : List (List Byte)) : Packet :=
  if splitMessage.length > 1 then (base64Decode (splitMessage.getD 1 [])).map byteValue else []

/-- What an iteration meets: the bytes read, and whether the checksum can be computed
and the writes succeed. -/
structure Input where
  chunk : List Byte
  checksumSent : Bool
  written : Bool

def handleMessage (input : Input) (message : Message) (c : ClientState) :
    ClientState × Option Halt :=
  let splitMessage := split message space
  let first := splitMessage.getD 0 []
  if splitMessage.length > 0 ∧ startsWith failWord first then
    ({ clearControlMessage c with
      stopThread := true, simulationStarted := false, simulationFinished := true }, none)
  else if splitMessage.length > 1 ∧ startsWith startWord first then
    match splitMessage[2]? with
    -- `splitMessage.at(2)` throws
    | none => ({ c with fileID := splitMessage.getD 1 [] }, some .outOfRange)
    | some argument =>
      let c := { c with
        fileID := splitMessage.getD 1 []
        challenge := base64Decode argument
        simulationStarted := true }
      if c.isSender ∧ ¬ input.checksumSent then (c, some .checksumFailed)
      else (clearControlMessage c, none)
  else if splitMessage.length > 0 ∧ startsWith packetWord first then
    if c.simulationStarted then
      (clearControlMessage { c with
        inputPacketBuffer := c.inputPacketBuffer ++ [packetContents splitMessage] }, none)
    else (clearControlMessage c, none)
  else if startsWith closedWord message ∨ startsWith finishWord message then
    (clearControlMessage { c with simulationStarted := false, simulationFinished := true }, none)
  else (clearControlMessage c, none)

/-- One packet at a time, so that incoming messages are checked even with overload. -/
def sendOne (input : Input) (c : ClientState) : ClientState × Option Halt :=
  if c.simulationStarted then
    match c.outputPacketBuffer with
    | packet :: rest =>
      ({ c with
        outputPacketBuffer := rest
        transmitted := c.transmitted ++ [transmitWord ++ base64Encode packet] },
        if input.written then none else some .writeFailed)
    | [] => (c, none)
  else (c, none)

/-- The end of an iteration: the message acted on, and the reason if the process ended. -/
structure Turn where
  state : ClientState
  message : Option Message
  halt : Option Halt

def iteration (input : Input) (c : ClientState) : Turn :=
  match getControlMessage input.chunk c with
  | .error halt =>
    ⟨{ c with socketBufferStr := c.socketBufferStr ++ input.chunk }, none, some halt⟩
  | .ok c =>
    if c.currentControlMessage ≠ [] then
      let message := c.currentControlMessage
      match handleMessage input message c with
      | (c, some halt) => ⟨c, some message, some halt⟩
      | (c, none) => ⟨(sendOne input c).1, some message, (sendOne input c).2⟩
    else ⟨(sendOne input c).1, none, (sendOne input c).2⟩

/-- `while (!stopThread && !simulationFinished)`. -/
def looping (c : ClientState) : Bool := !c.stopThread && !c.simulationFinished

theorem splitFrom_getD_zero (delim : Byte) (item s : List Byte) :
    (splitFrom delim item s).getD 0 [] = item ++ s.takeWhile (· != delim) := by
  induction s generalizing item with
  | nil =>
    unfold splitFrom
    split_ifs with h <;> simp [h]
  | cons c cs ih =>
    unfold splitFrom
    split_ifs with h
    · simp [h]
    · rw [ih]
      simp [h]

theorem split_getD_zero (s : List Byte) (delim : Byte) :
    (split s delim).getD 0 [] = s.takeWhile (· != delim) := splitFrom_getD_zero delim [] s

theorem split_length_pos {s : List Byte} (hs : s ≠ []) (delim : Byte) :
    0 < (split s delim).length := by
  have hpos : ∀ s item, s ≠ [] ∨ item ≠ [] → 0 < (splitFrom delim item s).length := by
    intro s
    induction s with
    | nil =>
      intro item h
      simp [splitFrom, h.resolve_left (by simp)]
    | cons c cs ih =>
      intro item _
      unfold splitFrom
      split_ifs
      · simp
      · exact ih _ (Or.inr (by simp))
  exact hpos s [] (Or.inl hs)

theorem startsWith_iff {word s : List Byte} : startsWith word s = true ↔ word <+: s :=
  List.isPrefixOf_iff_prefix

theorem startsWith_first {word : List Byte} (hword : ∀ c ∈ word, (c != space) = true)
    (s : List Byte) : startsWith word ((split s space).getD 0 []) = startsWith word s := by
  rw [Bool.eq_iff_iff, startsWith_iff, startsWith_iff, split_getD_zero]
  constructor
  · exact fun h => h.trans (List.takeWhile_prefix _)
  · rintro ⟨t, rfl⟩
    rw [List.takeWhile_append_of_pos hword]
    exact List.prefix_append _ _

def isEnd (m : Message) : Bool :=
  startsWith failWord m || startsWith closedWord m || startsWith finishWord m

def isStart (m : Message) : Bool := startsWith startWord m

def isPacket (m : Message) : Bool := startsWith packetWord m

def payloadOf (m : Message) : Packet := packetContents (split m space)

theorem startsWith_exclusive {word word' m : List Byte} (h : startsWith word m = true)
    (hword : startsWith word word' = false) (hword' : startsWith word' word = false) :
    startsWith word' m = false := by
  by_contra hboth
  rw [Bool.not_eq_false, startsWith_iff] at hboth
  rw [startsWith_iff] at h
  rcases List.prefix_or_prefix_of_prefix h hboth with hle | hle
  · rw [← startsWith_iff, hword] at hle
    cases hle
  · rw [← startsWith_iff, hword'] at hle
    cases hle

theorem not_isPacket_of_isStart {m : Message} (h : isStart m = true) : isPacket m = false :=
  startsWith_exclusive h (by decide) (by decide)

theorem not_isEnd_of_isStart {m : Message} (h : isStart m = true) : isEnd m = false := by
  unfold isEnd
  rw [startsWith_exclusive h (by decide) (by decide),
    startsWith_exclusive h (by decide) (by decide),
    startsWith_exclusive h (by decide) (by decide)]
  rfl

theorem not_isEnd_of_isPacket {m : Message} (h : isPacket m = true) : isEnd m = false := by
  unfold isEnd
  rw [startsWith_exclusive h (by decide) (by decide),
    startsWith_exclusive h (by decide) (by decide),
    startsWith_exclusive h (by decide) (by decide)]
  rfl

/-- What the tests of `getControlMessage` ask of a line. -/
def ProtocolLine (line : List Byte) : Prop :=
  line.length > protocolString.length + 1 ∧ line.take protocolString.length = protocolString

instance (line : List Byte) : Decidable (ProtocolLine line) := inferInstanceAs (Decidable (_ ∧ _))

def messageOf (line : List Byte) : Message := line.drop (protocolString.length + 1)

def lineOf (m : Message) : List Byte := protocolString ++ space :: m

theorem newline_not_mem_lineOf {m : Message} (hm : newline ∉ m) : newline ∉ lineOf m := by
  have hprotocol : newline ∉ protocolString := by decide
  have hspace : newline ≠ space := by decide
  simp [lineOf, hprotocol, hspace, hm]

theorem lineOf_ne_nil (m : Message) : lineOf m ≠ [] := by simp [lineOf]

theorem protocolLine_lineOf {m : Message} (hm : m ≠ []) : ProtocolLine (lineOf m) := by
  have hpos : 0 < m.length := List.length_pos_iff.mpr hm
  refine ⟨?_, List.take_left⟩
  simp only [lineOf, List.length_append, List.length_cons]
  omega

@[simp] theorem messageOf_lineOf (m : Message) : messageOf (lineOf m) = m := by
  unfold messageOf lineOf
  rw [List.drop_append]
  simp

theorem ProtocolLine.messageOf_ne_nil {line : List Byte} (h : ProtocolLine line) :
    messageOf line ≠ [] := by
  have := h.1
  rw [messageOf, Ne, List.drop_eq_nil_iff]
  omega

variable {c : ClientState} {chunk line rest : List Byte}

theorem getControlMessage_none (hidle : c.currentControlMessage = [])
    (hnone : newline ∉ c.socketBufferStr ++ chunk) : getControlMessage chunk c =
      .ok { c with socketBufferStr := c.socketBufferStr ++ chunk } := by
  unfold getControlMessage
  simp only [hidle, if_true, LineFraming.findIdx?_none hnone]

theorem getControlMessage_front (hidle : c.currentControlMessage = []) (hne : line ≠ [])
    (hline : newline ∉ line) (hbuffer : c.socketBufferStr ++ chunk = line ++ newline :: rest) :
    getControlMessage chunk c = if ProtocolLine line then
      .ok { c with currentControlMessage := messageOf line, socketBufferStr := rest }
    else .error .protocolMismatch := by
  have hpos : line.length > 0 := List.length_pos_iff.mpr hne
  have htake : (line ++ newline :: rest).take line.length = line := List.take_left
  have hdrop : (line ++ newline :: rest).drop (line.length + 1) = rest := by
    rw [List.drop_append]
    simp
  unfold getControlMessage
  simp only [hidle, if_true, hbuffer, LineFraming.findIdx?_line hline, if_pos hpos, htake, hdrop]
  rfl

theorem getControlMessage_line (hidle : c.currentControlMessage = []) {m : Message}
    (hm : m ≠ []) (hone : newline ∉ m)
    (hbuffer : c.socketBufferStr ++ chunk = lineOf m ++ newline :: rest) :
    getControlMessage chunk c =
      .ok { c with currentControlMessage := m, socketBufferStr := rest } := by
  rw [getControlMessage_front hidle (lineOf_ne_nil m) (newline_not_mem_lineOf hone) hbuffer,
    if_pos (protocolLine_lineOf hm), messageOf_lineOf]

structure Handled (m : Message) (c c' : ClientState) : Prop where
  socketBufferStr : c'.socketBufferStr = c.socketBufferStr
  simulationStarted : c'.simulationStarted = (!isEnd m && (isStart m || c.simulationStarted))
  simulationFinished : c'.simulationFinished = (isEnd m || c.simulationFinished)
  inputPacketBuffer : c'.inputPacketBuffer =
    c.inputPacketBuffer ++ if c.simulationStarted && isPacket m then [payloadOf m] else []

theorem handleMessage_spec (input : Input) {m : Message} (hm : m ≠ [])
    (harguments : isStart m = true → 3 ≤ (split m space).length) (c : ClientState) :
    Handled m c (handleMessage input m c).1 ∧ ((handleMessage input m c).2 = none →
      (handleMessage input m c).1.currentControlMessage = []) := by
  have hsplit := split_length_pos hm space
  have hfirst : ∀ word, (∀ b ∈ word, (b != space) = true) →
      startsWith word ((split m space).getD 0 []) = startsWith word m :=
    fun word hword => startsWith_first hword m
  unfold handleMessage
  simp only [hfirst failWord (by decide), hfirst startWord (by decide),
    hfirst packetWord (by decide), hsplit, true_and]
  -- the branches in the order of the source, each excluding the words of the others
  by_cases hfail : startsWith failWord m = true
  · have hend : isEnd m = true := by simp [isEnd, hfail]
    have hpacket : isPacket m = false := startsWith_exclusive hfail (by decide) (by decide)
    rw [if_pos hfail]
    exact ⟨⟨rfl, by simp [hend], by simp [hend], by simp [clearControlMessage, hpacket]⟩,
      fun _ => rfl⟩
  rw [if_neg hfail]
  by_cases hstart : startsWith startWord m = true
  · have hlen : 3 ≤ (split m space).length := harguments hstart
    obtain ⟨argument, hargument⟩ : ∃ argument, (split m space)[2]? = some argument :=
      ⟨_, List.getElem?_eq_getElem (by omega)⟩
    have hend := not_isEnd_of_isStart hstart
    have hpacket := not_isPacket_of_isStart hstart
    have hs : isStart m = true := hstart
    rw [if_pos ⟨by omega, hstart⟩]
    simp only [hargument]
    split_ifs
    · exact ⟨⟨rfl, by simp [hend, hs], by simp [hend], by simp [hpacket]⟩,
        fun hnone => by simp at hnone⟩
    · exact ⟨⟨rfl, by simp [clearControlMessage, hend, hs], by simp [clearControlMessage, hend],
        by simp [clearControlMessage, hpacket]⟩, fun _ => rfl⟩
  rw [if_neg fun h => hstart h.2]
  have hs : isStart m = false := Bool.not_eq_true _ ▸ hstart
  by_cases hpacket : startsWith packetWord m = true
  · have hp : isPacket m = true := hpacket
    have hend := not_isEnd_of_isPacket hp
    rw [if_pos hpacket]
    by_cases hrunning : c.simulationStarted = true
    · rw [if_pos hrunning]
      exact ⟨⟨rfl, by simp [clearControlMessage, hend, hrunning],
        by simp [clearControlMessage, hend],
        by simp [clearControlMessage, hrunning, hp, payloadOf]⟩, fun _ => rfl⟩
    · rw [if_neg hrunning]
      exact ⟨⟨rfl, by simp [clearControlMessage, hend, hs], by simp [clearControlMessage, hend],
        by simp [clearControlMessage, hrunning]⟩, fun _ => rfl⟩
  rw [if_neg hpacket]
  have hp : isPacket m = false := Bool.not_eq_true _ ▸ hpacket
  by_cases hover : startsWith closedWord m = true ∨ startsWith finishWord m = true
  · have hend : isEnd m = true := by
      rcases hover with h | h <;> simp [isEnd, h]
    rw [if_pos hover]
    exact ⟨⟨rfl, by simp [clearControlMessage, hend], by simp [clearControlMessage, hend],
      by simp [clearControlMessage, hp]⟩, fun _ => rfl⟩
  · have hend : isEnd m = false := by
      push Not at hover
      simp [isEnd, hfail, hover]
    rw [if_neg hover]
    exact ⟨⟨rfl, by simp [clearControlMessage, hend, hs], by simp [clearControlMessage, hend],
      by simp [clearControlMessage, hp]⟩, fun _ => rfl⟩

theorem sendOne_frame (input : Input) (c : ClientState) :
    ∃ output transmitted, (sendOne input c).1 =
      { c with outputPacketBuffer := output, transmitted := transmitted } := by
  unfold sendOne
  by_cases hrunning : c.simulationStarted = true
  · rw [if_pos hrunning]
    cases c.outputPacketBuffer with
    | nil => exact ⟨c.outputPacketBuffer, c.transmitted, rfl⟩
    | cons packet rest => exact ⟨rest, _, rfl⟩
  · rw [if_neg hrunning]
    exact ⟨c.outputPacketBuffer, c.transmitted, rfl⟩

theorem sendOne_halt (input : Input) (c : ClientState) :
    (sendOne input c).2 ≠ some .outOfRange ∧
      (input.written = true → (sendOne input c).2 = none) := by
  unfold sendOne
  by_cases hrunning : c.simulationStarted = true
  · rw [if_pos hrunning]
    cases c.outputPacketBuffer with
    | nil => simp
    | cons packet rest =>
      by_cases hwritten : input.written = true <;> simp [hwritten]
  · simp [hrunning]

theorem iteration_quiet (input : Input) (hidle : c.currentControlMessage = []) {buffer : List Byte}
    (hget : getControlMessage input.chunk c = .ok { c with socketBufferStr := buffer }) :
    iteration input c = ⟨(sendOne input { c with socketBufferStr := buffer }).1, none,
      (sendOne input { c with socketBufferStr := buffer }).2⟩ := by
  unfold iteration
  rw [hget]
  show (if c.currentControlMessage ≠ [] then _ else _) = _
  rw [if_neg (not_not.mpr hidle)]

theorem iteration_none (input : Input) (hidle : c.currentControlMessage = [])
    (hnone : newline ∉ c.socketBufferStr ++ input.chunk) :
    ∃ output transmitted halt, iteration input c = ⟨{ c with
      socketBufferStr := c.socketBufferStr ++ input.chunk
      outputPacketBuffer := output
      transmitted := transmitted }, none, halt⟩ := by
  obtain ⟨output, transmitted, hsend⟩ := sendOne_frame input
    { c with socketBufferStr := c.socketBufferStr ++ input.chunk }
  refine ⟨output, transmitted,
    (sendOne input { c with socketBufferStr := c.socketBufferStr ++ input.chunk }).2, ?_⟩
  rw [iteration_quiet input hidle (getControlMessage_none hidle hnone), hsend]

theorem iteration_handled (input : Input) {m : Message} (hm : m ≠ []) {c' : ClientState}
    (hget : getControlMessage input.chunk c = .ok c') (hc' : c'.currentControlMessage = m) :
    ∃ output transmitted halt, iteration input c = ⟨{ (handleMessage input m c').1 with
        outputPacketBuffer := output
        transmitted := transmitted }, some m, halt⟩ ∧
      (halt = none → (handleMessage input m c').2 = none) ∧
      (halt = some .outOfRange ↔ (handleMessage input m c').2 = some .outOfRange) := by
  unfold iteration
  simp only [hget, hc', ne_eq, hm, not_false_eq_true, if_true]
  generalize handleMessage input m c' = result
  obtain ⟨c'', halt⟩ := result
  cases halt with
  | some halt => exact ⟨c''.outputPacketBuffer, c''.transmitted, some halt, rfl, id, Iff.rfl⟩
  | none =>
    obtain ⟨output, transmitted, hsend⟩ := sendOne_frame input c''
    refine ⟨output, transmitted, (sendOne input c'').2, by simp only [hsend], fun _ => rfl, ?_⟩
    simp [(sendOne_halt input c'').1]

/-- An iteration that finds a line acts on its message. -/
theorem iteration_line (input : Input) (hidle : c.currentControlMessage = []) {m rest : List Byte}
    (hm : m ≠ []) (hone : newline ∉ m) (harguments : isStart m = true → 3 ≤ (split m space).length)
    (hbuffer : c.socketBufferStr ++ input.chunk = lineOf m ++ newline :: rest) :
    ∃ t, iteration input c = t ∧ t.message = some m ∧
      Handled m { c with socketBufferStr := rest } t.state ∧
      (t.halt = none → t.state.currentControlMessage = []) := by
  obtain ⟨hhandled, hclear⟩ := handleMessage_spec input hm harguments
    { c with currentControlMessage := m, socketBufferStr := rest }
  obtain ⟨output, transmitted, halt, hiteration, hnone, -⟩ :=
    iteration_handled input hm (getControlMessage_line hidle hm hone hbuffer) rfl
  refine ⟨_, hiteration, rfl, ?_, fun h => hclear (hnone h)⟩
  exact ⟨hhandled.socketBufferStr, hhandled.simulationStarted, hhandled.simulationFinished,
    hhandled.inputPacketBuffer⟩

end RdtChallenge
