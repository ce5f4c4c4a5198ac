import RdtChallenge.Checksum
import RdtChallenge.System

namespace RdtChallenge

def registerWord : List Byte := chars ['R', 'E', 'G', 'I', 'S', 'T', 'E', 'R']
def okWord : List Byte := chars ['O', 'K']
def inWord : List Byte := chars ['I', 'N']
def outWord : List Byte := chars ['O', 'U', 'T']

inductive Request
  | register (groupKey : List Byte)
  | start (id : List Byte)
  | checksumIn (challenge fileContents : List Byte)
  | transmit (packet : Packet)
  | checksumOut (challenge fileContents : List Byte)
  | closed
deriving DecidableEq

def Request.message : Request → Option Message
  | .register groupKey => some (registerWord ++ space :: groupKey)
  | .start id => some (startWord ++ space :: id)
  | .checksumIn challenge fileContents => checksumMessage inWord challenge fileContents
  | .transmit packet => some (transmitWord ++ base64Encode packet)
  | .checksumOut challenge fileContents => checksumMessage outWord challenge fileContents
  | .closed => some closedWord

/-- The file number: the hard-coded one unless the only argument is one of six. -/
def fileNumber (file : List Byte) (argv : List (List Byte)) : List Byte :=
  match argv with
  | [_, tempFile] =>
    if tempFile ∈ ['1', '2', '3', '4', '5', '6'].map fun c => chars [c] then tempFile else file
  | _ => file

structure Settings where
  groupToken : List Byte
  file : List Byte
  /-- The contents of `rdtcInput<id>.png`, if there is such a file. -/
  inputs : List Byte → Option (List Byte)
  clock : Clock

def Settings.withArguments (S : Settings) (argv : List (List Byte)) : Settings :=
  { S with file := fileNumber S.file argv }

inductive LoopPhase
  | unborn
  | testing
  | reading
  /-- The message has been acted on. -/
  | sending
  | ended
deriving DecidableEq

inductive MainPhase
  /-- In `clientConnect`: before the hello message, before the registration and before the
  reply to it. -/
  | hello
  | registering
  | reply
  /-- Before the test of the waiting loop, and in its body. -/
  | waiting
  | polling
  /-- In `requestStart`: before its test, before `isSender` is set and before `START`. -/
  | pressed
  | marking
  | requesting
  /-- In the loop after it. -/
  | pausing
  | deciding
  | launching
  /-- As sender. -/
  | joiningLoop
  | stopping
  | joiningThread
  /-- As receiver. -/
  | receiving
  | reporting
  | uploading
  /-- In `stop`: before each flag, before the join and before `CLOSED`. -/
  | closing
  | finishing
  | joining
  | farewell
  | returning
deriving DecidableEq

inductive Ending
  | halted (why : Halt)
  | notRegistered
  | fileMissing
  /-- An access outside a vector. -/
  | undefined
  /-- The exception of a `join` on a thread that has been joined. -/
  | joinFailed
  /-- The destructor of a thread that has not been joined. -/
  | terminated
  | clean
deriving DecidableEq

/-- `MyProtocol::sender()` under way. -/
structure SenderThread where
  /-- What `getFileContents` read. -/
  file : List Byte
  state : SenderState
  phase : Phase
  /-- A call of `receivePacket` has passed its first test. -/
  receiving : Bool
  /-- What the iteration still hands to `sendPacket`. -/
  pending : List Packet
  clock : ℤ
deriving DecidableEq

/-- `MyProtocol::receiver()` under way. -/
structure ReceiverCall where
  /-- The clock reading it started with. -/
  start : ℤ
  state : ReceiverState
  receiving : Bool
  pending : List Packet
  result : Option (List Value)
  clock : ℤ
deriving DecidableEq

/-- `main` from the connection on: the main thread, the event loop of the client, and the
protocol, which has a thread of its own as sender and runs in the main thread as receiver. -/
structure Process where
  client : ClientState
  loop : LoopPhase
  main : MainPhase
  startCommand : Bool
  /-- The thread of the event loop runs or has ended, and has not been joined. -/
  joinable : Bool
  stop : Bool
  sender : Option SenderThread
  receiver : Option ReceiverCall
  /-- The contents of the output file. -/
  output : Option (List Byte)
  arrived : List Byte
  acted : List Message
  /-- What the protocol has handed to `sendPacket`. -/
  handed : List Packet
  written : List Request
  ended : Option Ending
deriving DecidableEq

/-- What a thread does between two accesses to what the threads share. The bytes read, the keys,
the readings of the clock and whether a write succeeds are input. -/
inductive ProcessAction
  /-- A turn of `getControlMessageBlocking`. -/
  | connect (chunk : List Byte)
  | main (key written : Bool) (now : ℤ)
  | loopTest
  | loopRead (chunk : List Byte) (written : Bool)
  | loopSend (written : Bool)
  | senderTop (now : ℤ)
  | senderTest
  | senderTake
  | senderPush
  | receiverTest (now : ℤ)
  | receiverTake (now : ℤ)
  | receiverPush

namespace Process

def initial : Process where
  client := ⟨[], [], false, false, false, false, [], [], [], [], []⟩
  loop := .unborn
  main := .hello
  startCommand := false
  joinable := false
  stop := false
  sender := none
  receiver := none
  output := none
  arrived := []
  acted := []
  handed := []
  written := []
  ended := none

def exit (p : Process) (why : Ending) : Process := { p with ended := some why }

/-- The message that a turn of `getControlMessageBlocking` finds has to be `expected`. -/
def awaitMessage (p : Process) (chunk : List Byte) (expected : Message)
    (next : Process → Process) : Process :=
  match getControlMessage chunk p.client with
  | .error halt => p.exit (.halted halt)
  | .ok c =>
    if c.currentControlMessage = [] then { p with client := c, arrived := p.arrived ++ chunk }
    else if c.currentControlMessage = expected then
      next { p with
        client := clearControlMessage c
        arrived := p.arrived ++ chunk
        acted := p.acted ++ [c.currentControlMessage] }
    else p.exit .notRegistered

def startLoop (p : Process) : Process :=
  { p with loop := .testing, joinable := true, main := .waiting }

def connect (p : Process) (chunk : List Byte) : Option Process :=
  if chunk.length ≤ bufSize then
    match p.main with
    | .hello => some (p.awaitMessage chunk registerWord fun p => { p with main := .registering })
    | .reply => some (p.awaitMessage chunk okWord startLoop)
    | _ => none
  else none

/-- `eventLoopThread.join()`, which waits for the end of the thread. -/
def join (p : Process) (next : MainPhase) : Option Process :=
  if p.joinable then
    if p.loop = .ended then some { p with joinable := false, main := next } else none
  else some (p.exit .joinFailed)

def launch (S : Settings) (p : Process) (now : ℤ) : Option Process :=
  if p.startCommand then
    match S.inputs p.client.fileID with
    | none => some (p.exit .fileMissing)
    | some file =>
      match packetBuffer (getFileContents file) with
      | none => some (p.exit .undefined)
      | some packets => some { p with
          main := .joiningLoop
          sender := some ⟨file, senderStart packets, .top, false, [], 0⟩ }
  else if S.clock 0 now then
    some { p with
      main := .receiving
      receiver := some ⟨now, receiverStart now, false, [], none, now⟩ }
  else none

def upload (p : Process) (file : List Byte) (written : Bool) : Process :=
  if written then
    { p with main := .closing, written := p.written ++ [.checksumOut p.client.challenge file] }
  else p.exit (.halted .checksumFailed)

/-- The waiting loop reads `simulationStarted` and then `simulationFinished`, which is never
reset: a change in between is one before or after both. -/
def settled (p : Process) : Bool := p.client.simulationStarted || p.client.simulationFinished

def mainStep (S : Settings) (p : Process) (key written : Bool) (now : ℤ) : Option Process :=
  match p.main with
  | .hello | .reply => none
  | .registering =>
    if written then
      some { p with main := .reply, written := p.written ++ [.register S.groupToken] }
    else some (p.exit (.halted .writeFailed))
  | .waiting => some { p with main := if p.settled then .deciding else .polling }
  | .polling => some { p with main := if !p.startCommand && key then .pressed else .waiting }
  | .pressed =>
    if p.client.simulationStarted then some { p with main := .pausing, startCommand := true }
    else some { p with main := .marking }
  | .marking => some { p with main := .requesting, client := { p.client with isSender := true } }
  | .requesting =>
    if written then
      some { p with
        main := .pausing, startCommand := true, written := p.written ++ [.start S.file] }
    else some (p.exit (.halted .writeFailed))
  | .pausing => some { p with main := if p.settled then .waiting else .pausing }
  | .deciding =>
    some { p with main := if p.client.simulationFinished then .closing else .launching }
  | .launching => p.launch S now
  | .joiningLoop => p.join .stopping
  | .stopping => some { p with main := .joiningThread, stop := true }
  | .joiningThread =>
    p.sender.bind fun t => if t.phase = .left then some { p with main := .closing } else none
  | .receiving =>
    p.receiver.bind fun r =>
      if r.result.isSome ∧ r.pending = [] then some { p with main := .reporting } else none
  | .reporting =>
    p.receiver.bind fun r => r.result.map fun result =>
      { p with main := .uploading, output := some (setFileContents result) }
  | .uploading => p.output.map fun file => p.upload file written
  | .closing =>
    some { p with main := .finishing, client := { p.client with simulationStarted := false } }
  | .finishing =>
    some { p with main := .joining, client := { p.client with simulationFinished := true } }
  | .joining => if p.client.isSender then some { p with main := .farewell } else p.join .farewell
  | .farewell =>
    if written then some { p with main := .returning, written := p.written ++ [.closed] }
    else some (p.exit (.halted .writeFailed))
  | .returning => some (p.exit (if p.joinable then .terminated else .clean))

def loopTest (p : Process) : Option Process :=
  if p.loop = .testing then
    some { p with loop := if looping p.client then .reading else .ended }
  else none

/-- What `sendChecksum("IN", …)` sends when `message` starts the simulation. -/
def checksumIn (S : Settings) (message : Message) (c : ClientState) : Option Request :=
  let splitMessage := split message space
  if c.isSender ∧ splitMessage.length > 1 ∧ startsWith startWord (splitMessage.getD 0 []) then do
    let argument ← splitMessage[2]?
    let fileContents ← S.inputs (splitMessage.getD 1 [])
    some (.checksumIn (base64Decode argument) fileContents)
  else none

def loopRead (S : Settings) (p : Process) (chunk : List Byte) (written : Bool) : Option Process :=
  if p.loop = .reading ∧ chunk.length ≤ bufSize then
    match getControlMessage chunk p.client with
    | .error halt => some (p.exit (.halted halt))
    | .ok c =>
      if c.currentControlMessage = [] then
        some { p with client := c, loop := .sending, arrived := p.arrived ++ chunk }
      else
        let message := c.currentControlMessage
        let checksum := checksumIn S message c
        match handleMessage ⟨chunk, written && checksum.isSome, written⟩ message c with
        | (_, some halt) => some (p.exit (.halted halt))
        | (c, none) => some { p with
            client := c
            loop := .sending
            arrived := p.arrived ++ chunk
            acted := p.acted ++ [message]
            written := p.written ++ checksum.toList }
  else none

def loopSend (p : Process) (written : Bool) : Option Process :=
  if p.loop = .sending then
    match p.client.simulationStarted, p.client.outputPacketBuffer with
    | true, packet :: _ =>
      if written then
        some { p with
          client := (sendOne ⟨[], true, written⟩ p.client).1
          loop := .testing
          written := p.written ++ [.transmit packet] }
      else some (p.exit (.halted .writeFailed))
    | _, _ => some { p with loop := .testing }
  else none

def senderTop (S : Settings) (p : Process) (t : SenderThread) (now : ℤ) : Option Process :=
  if t.phase = .top ∧ t.pending = [] then
    if ¬ p.stop ∧ t.state.sendBase < t.state.totalPkts then
      if S.clock t.clock now then
        some { p with sender := some { t with phase := .draining now, clock := now } }
      else none
    else some { p with sender := some { t with phase := .left } }
  else none

/-- The rest of an iteration, when `receivePacket` has returned false. -/
def senderRest (p : Process) (t : SenderThread) (now : ℤ) : Process :=
  if t.state.sendBase ≥ t.state.totalPkts then
    { p with sender := some { t with phase := .left, receiving := false } }
  else
    match sendPhase now t.state with
    | some b => { p with sender := some { t with
        state := b.state, phase := .top, receiving := false, pending := b.sent } }
    | none => p.exit .undefined

def senderTest (p : Process) (t : SenderThread) : Option Process :=
  match t.phase with
  | .draining now =>
    if t.receiving then none
    else if p.client.inputPacketBuffer.length > 0 then
      some { p with sender := some { t with receiving := true } }
    else some (p.senderRest t now)
  | _ => none

def senderTake (p : Process) (t : SenderThread) : Option Process :=
  match t.phase with
  | .draining now =>
    if t.receiving then
      match p.client.inputPacketBuffer with
      | packet :: rest =>
        match processAck t.state packet with
        | some state => some { p with
            client := { p.client with inputPacketBuffer := rest }
            sender := some { t with state, receiving := false } }
        | none => some (p.exit .undefined)
      | [] => some (p.senderRest t now)
    else none
  | _ => none

def push (p : Process) (packet : Packet) : Process :=
  { p with
    client := { p.client with outputPacketBuffer := p.client.outputPacketBuffer ++ [packet] }
    handed := p.handed ++ [packet] }

def senderPush (p : Process) (t : SenderThread) : Option Process :=
  match t.pending with
  | packet :: rest => some { p.push packet with sender := some { t with pending := rest } }
  | [] => none

def receiverRest (S : Settings) (p : Process) (r : ReceiverCall) (now : ℤ) : Option Process :=
  if S.clock r.clock now then
    let b := keepAlive r.state now
    some { p with receiver := some { r with
      state := b.state, receiving := false, pending := b.sent, clock := now } }
  else none

def receiverTest (S : Settings) (p : Process) (r : ReceiverCall) (now : ℤ) : Option Process :=
  if r.receiving ∨ r.result.isSome ∨ r.pending ≠ [] then none
  else if p.client.inputPacketBuffer.length > 0 then
    some { p with receiver := some { r with receiving := true } }
  else receiverRest S p r now

/-- A rejected packet does not read the clock. -/
def receiverTake (S : Settings) (p : Process) (r : ReceiverCall) (now : ℤ) : Option Process :=
  if r.receiving then
    match p.client.inputPacketBuffer with
    | packet :: rest =>
      let p' := { p with client := { p.client with inputPacketBuffer := rest } }
      match receiverIteration r.state packet now with
      | some (b, result) =>
        if b.sent = [] then
          some { p' with receiver := some { r with state := b.state, receiving := false } }
        else if S.clock r.clock now then
          some { p' with receiver := some { r with
            state := b.state, receiving := false, pending := b.sent, result, clock := now } }
        else none
      | none => some (p.exit .undefined)
    | [] => receiverRest S p r now
  else none

def receiverPush (p : Process) (r : ReceiverCall) : Option Process :=
  match r.pending with
  | packet :: rest => some { p.push packet with receiver := some { r with pending := rest } }
  | [] => none

def step (S : Settings) (p : Process) (a : ProcessAction) : Option Process :=
  if p.ended.isSome then none
  else
    match a with
    | .connect chunk => p.connect chunk
    | .main key written now => p.mainStep S key written now
    | .loopTest => p.loopTest
    | .loopRead chunk written => p.loopRead S chunk written
    | .loopSend written => p.loopSend written
    | .senderTop now => p.sender.bind fun t => p.senderTop S t now
    | .senderTest => p.sender.bind p.senderTest
    | .senderTake => p.sender.bind p.senderTake
    | .senderPush => p.sender.bind p.senderPush
    | .receiverTest now => p.receiver.bind fun r => p.receiverTest S r now
    | .receiverTake now => p.receiver.bind fun r => p.receiverTake S r now
    | .receiverPush => p.receiver.bind p.receiverPush

end Process

end RdtChallenge
