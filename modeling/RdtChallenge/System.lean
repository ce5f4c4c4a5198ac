import RdtChallenge.FileContents
import RdtChallenge.ReceiverInvariant
import RdtChallenge.SenderInvariant
import RdtChallenge.Transition

namespace RdtChallenge

/-- The sender's thread is before the loop test, in the draining loop with its clock
reading, or out of the loop. -/
inductive Phase
  | top
  | draining (now : ℤ)
  | left
deriving DecidableEq

structure JointState where
  sender : SenderState
  phase : Phase
  stop : Bool
  receiver : ReceiverState
  /-- What `receiver()` returned. -/
  result : Option (List Value)
  dataNet : List Packet
  ackNet : List Packet
  /-- Everything handed to `sendPacket` so far, by either side. -/
  sentData : List Packet
  sentAcks : List Packet
  /-- The last reading of either clock. -/
  senderClock : ℤ
  receiverClock : ℤ
  /-- An access outside a vector has happened. -/
  undefined : Bool
deriving DecidableEq

/-- A packet in flight may be lost, duplicated, and handed over at any later time and in any
order; it is not altered. The draining loop of the sender sends nothing and the rest of its
iteration receives nothing, so the sends of one iteration are one action: a packet that the
receiver sees later is a packet still in flight. -/
inductive Action
  /-- The loop test and, if it passes, the clock reading. -/
  | senderTop (now : ℤ)
  /-- `receivePacket` hands over the acknowledgement at place `i` in flight. -/
  | senderReceive (i : ℕ)
  /-- `receivePacket` finds nothing: the rest of the iteration. -/
  | senderSend
  | receiverReceive (i : ℕ) (now : ℤ)
  | receiverIdle (now : ℤ)
  | loseData (i : ℕ)
  | duplicateData (i : ℕ)
  | loseAck (i : ℕ)
  | duplicateAck (i : ℕ)
  | setStop
deriving DecidableEq

def receiverIteration (r : ReceiverState) (packet : Packet) (now : ℤ) :
    Option (Reception × Option (List Value)) := do
  let b ← receiveData r packet now
  if b.done then
    let out ← reassemble b.state
    some (b, some out)
  else some (b, none)

namespace JointState

def initial (packets : List Packet) (now : ℤ) : JointState where
  sender := senderStart packets
  phase := .top
  stop := false
  receiver := receiverStart now
  result := none
  dataNet := []
  ackNet := []
  sentData := []
  sentAcks := []
  senderClock := 0
  receiverClock := now
  undefined := false

def fault (s : JointState) : JointState := { s with undefined := true }

def afterSending (s : JointState) (b : Sending) : JointState :=
  { s with
    sender := b.state
    phase := .top
    dataNet := s.dataNet ++ b.sent.map carry
    sentData := s.sentData ++ b.sent }

def afterReceiving (s : JointState) (b : Reception) (now : ℤ) : JointState :=
  { s with
    receiver := b.state
    ackNet := s.ackNet ++ b.sent.map carry
    sentAcks := s.sentAcks ++ b.sent
    receiverClock := now }

end JointState

/-- A clock discipline says which reading may follow which. -/
abbrev Clock := ℤ → ℤ → Bool

def anyClock : Clock := fun _ _ => true

def steadyClock : Clock := fun prev now => 0 < now ∧ prev ≤ now

open JointState

/-- `receivePacket` in the draining loop hands over `packet`, at place `i` in flight. -/
def deliverAck (s : JointState) (i : ℕ) (packet : Packet) : Option JointState :=
  match s.phase with
  | .draining _ =>
    match processAck s.sender packet with
    | some sender => some { s with sender, ackNet := s.ackNet.eraseIdx i }
    | none => some s.fault
  | _ => none

/-- `receivePacket` hands the receiver `packet`. A rejected packet does not read the clock. -/
def deliverData (clock : Clock) (s : JointState) (i : ℕ) (packet : Packet) (now : ℤ) :
    Option JointState :=
  match s.result with
  | none =>
    match receiverIteration s.receiver packet now with
    | some (b, result) =>
      if b.sent = [] then some { s with receiver := b.state, dataNet := s.dataNet.eraseIdx i }
      else if clock s.receiverClock now then
        some { s.afterReceiving b now with dataNet := s.dataNet.eraseIdx i, result }
      else none
    | none => some s.fault
  | some _ => none

def step (clock : Clock) (s : JointState) : Action → Option JointState
  | .senderTop now =>
    if s.phase ≠ .top then none
    else if ¬ s.stop ∧ s.sender.sendBase < s.sender.totalPkts then
      if clock s.senderClock now then
        some { s with phase := .draining now, senderClock := now }
      else none
    else some { s with phase := .left }
  | .senderReceive i => (s.ackNet[i]?).bind (deliverAck s i)
  | .senderSend =>
    match s.phase with
    | .draining now =>
      if s.sender.sendBase ≥ s.sender.totalPkts then some { s with phase := .left }
      else
        match sendPhase now s.sender with
        | some b => some (s.afterSending b)
        | none => some s.fault
    | _ => none
  | .receiverReceive i now => (s.dataNet[i]?).bind fun packet => deliverData clock s i packet now
  | .receiverIdle now =>
    if s.result = none ∧ clock s.receiverClock now then
      some (s.afterReceiving (keepAlive s.receiver now) now)
    else none
  | .loseData i => some { s with dataNet := s.dataNet.eraseIdx i }
  | .duplicateData i => (s.dataNet[i]?).map fun p => { s with dataNet := s.dataNet ++ [p] }
  | .loseAck i => some { s with ackNet := s.ackNet.eraseIdx i }
  | .duplicateAck i => (s.ackNet[i]?).map fun p => { s with ackNet := s.ackNet ++ [p] }
  | .setStop => some { s with stop := true }

def JointReachable (clock : Clock) (file : List Byte) (s : JointState) : Prop :=
  ∃ packets now, packetBuffer (getFileContents file) = some packets ∧ clock 0 now ∧
    Transition.Reachable (step clock) (initial packets now) s

theorem JointReachable.tail {clock : Clock} {file : List Byte} {s t : JointState} {a : Action}
    (h : JointReachable clock file s) (ha : step clock s a = some t) :
    JointReachable clock file t := by
  obtain ⟨packets, now, hp, hclock, hr⟩ := h
  exact ⟨packets, now, hp, hclock, hr.tail ha⟩

theorem JointReachable.run {clock : Clock} {file : List Byte} {s t : JointState}
    {as : List Action} (h : JointReachable clock file s)
    (hs : Transition.run (step clock) s as = some t) : JointReachable clock file t :=
  Transition.run_invariant (JointReachable clock file) (fun _ _ _ hu => hu.tail) h hs

def Action.ByNetwork : Action → Prop
  | .loseData _ | .duplicateData _ | .loseAck _ | .duplicateAck _ => True
  | _ => False

inductive Effect (clock : Clock) (s : JointState) : Action → JointState → Prop
  | enter (now : ℤ) (hphase : s.phase = .top) (hstop : s.stop = false)
      (hlt : s.sender.sendBase < s.sender.totalPkts) (hclock : clock s.senderClock now) :
      Effect clock s (.senderTop now) { s with phase := .draining now, senderClock := now }
  | leave {a : Action} (ha : a = .senderSend ∨ ∃ now, a = .senderTop now)
      (hphase : s.phase ≠ .left)
      (hwhy : s.stop = true ∨ s.sender.totalPkts ≤ s.sender.sendBase) :
      Effect clock s a { s with phase := .left }
  | stop : Effect clock s .setStop { s with stop := true }
  | network {a : Action} (ha : a.ByNetwork) (dataNet ackNet : List Packet)
      (hdata : ∀ p ∈ dataNet, p ∈ s.dataNet) (hack : ∀ p ∈ ackNet, p ∈ s.ackNet) :
      Effect clock s a { s with dataNet, ackNet }
  | ack (i : ℕ) (now : ℤ) (packet : Packet) (sender : SenderState)
      (hphase : s.phase = .draining now) (hget : s.ackNet[i]? = some packet)
      (hrun : processAck s.sender packet = some sender) :
      Effect clock s (.senderReceive i) { s with sender, ackNet := s.ackNet.eraseIdx i }
  | send (now : ℤ) (b : Sending) (hphase : s.phase = .draining now)
      (hlt : s.sender.sendBase < s.sender.totalPkts) (hrun : sendPhase now s.sender = some b) :
      Effect clock s .senderSend (s.afterSending b)
  | reject (i : ℕ) (now : ℤ) (packet : Packet) (b : Reception) (result : Option (List Value))
      (hresult : s.result = none) (hget : s.dataNet[i]? = some packet)
      (hrun : receiverIteration s.receiver packet now = some (b, result)) (hsent : b.sent = []) :
      Effect clock s (.receiverReceive i now)
        { s with receiver := b.state, dataNet := s.dataNet.eraseIdx i }
  | receive (i : ℕ) (now : ℤ) (packet : Packet) (b : Reception) (result : Option (List Value))
      (hresult : s.result = none) (hget : s.dataNet[i]? = some packet)
      (hclock : clock s.receiverClock now)
      (hrun : receiverIteration s.receiver packet now = some (b, result)) (hsent : b.sent ≠ []) :
      Effect clock s (.receiverReceive i now)
        { s.afterReceiving b now with dataNet := s.dataNet.eraseIdx i, result }
  | idle (now : ℤ) (hresult : s.result = none) (hclock : clock s.receiverClock now) :
      Effect clock s (.receiverIdle now) (s.afterReceiving (keepAlive s.receiver now) now)
  | fault {a : Action} (hwhy : (∃ packet ∈ s.ackNet, processAck s.sender packet = none) ∨
      (∃ now, sendPhase now s.sender = none) ∨
      ∃ packet ∈ s.dataNet, ∃ now, receiverIteration s.receiver packet now = none) :
      Effect clock s a s.fault

theorem mem_of_mem_append_getElem {l : List Packet} {i : ℕ} {p q : Packet} (h : l[i]? = some p)
    (hq : q ∈ l ++ [p]) : q ∈ l := by
  rcases List.mem_append.mp hq with hq | hq
  · exact hq
  · exact List.mem_singleton.mp hq ▸ List.mem_of_getElem? h

theorem step_effect {clock : Clock} {s t : JointState} {a : Action}
    (h : step clock s a = some t) : Effect clock s a t := by
  -- one effect for each branch of `step`; a function that returns `none` is a fault
  cases a with
  | senderTop now =>
    simp only [step] at h
    split_ifs at h with hphase hloop hclock <;> obtain rfl := Option.some.inj h
    · exact .enter now (not_not.mp hphase) (by simpa using hloop.1) hloop.2 hclock
    · refine .leave (Or.inr ⟨now, rfl⟩) (by simp [not_not.mp hphase]) ?_
      by_cases hstop : s.stop
      · exact Or.inl hstop
      · exact Or.inr (not_lt.mp fun hlt => hloop ⟨hstop, hlt⟩)
  | senderReceive i =>
    obtain ⟨packet, hget, h⟩ := Option.bind_eq_some_iff.mp h
    simp only [deliverAck] at h
    split at h
    · rename_i now hphase
      cases hrun : processAck s.sender packet with
      | none =>
        simp only [hrun, Option.some.injEq] at h
        exact h ▸ .fault (Or.inl ⟨packet, List.mem_of_getElem? hget, hrun⟩)
      | some sender =>
        simp only [hrun, Option.some.injEq] at h
        exact h ▸ .ack i now packet sender hphase hget hrun
    · exact absurd h (by simp)
  | senderSend =>
    simp only [step] at h
    split at h
    · rename_i now hphase
      split_ifs at h with hdone
      · exact Option.some.inj h ▸ .leave (Or.inl rfl) (by simp [hphase]) (Or.inr hdone)
      · cases hrun : sendPhase now s.sender with
        | none =>
          simp only [hrun, Option.some.injEq] at h
          exact h ▸ .fault (Or.inr (Or.inl ⟨now, hrun⟩))
        | some b =>
          simp only [hrun, Option.some.injEq] at h
          exact h ▸ .send now b hphase (not_le.mp hdone) hrun
    · exact absurd h (by simp)
  | receiverReceive i now =>
    obtain ⟨packet, hget, h⟩ := Option.bind_eq_some_iff.mp h
    simp only [deliverData] at h
    split at h
    · rename_i hresult
      cases hrun : receiverIteration s.receiver packet now with
      | none =>
        simp only [hrun, Option.some.injEq] at h
        exact h ▸ .fault (Or.inr (Or.inr ⟨packet, List.mem_of_getElem? hget, now, hrun⟩))
      | some out =>
        obtain ⟨b, result⟩ := out
        simp only [hrun] at h
        split_ifs at h with hsent hclock <;> obtain rfl := Option.some.inj h
        · exact .reject i now packet b result hresult hget hrun hsent
        · exact .receive i now packet b result hresult hget hclock hrun hsent
    · exact absurd h (by simp)
  | receiverIdle now =>
    simp only [step] at h
    split_ifs at h with hc
    exact Option.some.inj h ▸ .idle now hc.1 hc.2
  | loseData i =>
    exact Option.some.inj h ▸
      .network (a := .loseData i) trivial _ s.ackNet
        (fun p hp => List.mem_of_mem_eraseIdx hp) fun _ => id
  | duplicateData i =>
    obtain ⟨p, hp, rfl⟩ := Option.map_eq_some_iff.mp h
    exact .network (a := .duplicateData i) trivial _ s.ackNet
      (fun q hq => mem_of_mem_append_getElem hp hq) fun _ => id
  | loseAck i =>
    exact Option.some.inj h ▸
      .network (a := .loseAck i) trivial s.dataNet _
        (fun _ => id) fun p hp => List.mem_of_mem_eraseIdx hp
  | duplicateAck i =>
    obtain ⟨p, hp, rfl⟩ := Option.map_eq_some_iff.mp h
    exact .network (a := .duplicateAck i) trivial s.dataNet _ (fun _ => id)
      fun q hq => mem_of_mem_append_getElem hp hq
  | setStop => exact Option.some.inj h ▸ .stop

end RdtChallenge
