import RdtChallenge.Lifecycle

namespace RdtChallenge

namespace Request

def isStart : Request → Bool
  | .start _ => true
  | _ => false

def isChecksumIn : Request → Bool
  | .checksumIn _ _ => true
  | _ => false

def isChecksumOut : Request → Bool
  | .checksumOut _ _ => true
  | _ => false

def inside : Request → Bool
  | .register _ | .closed => false
  | _ => true

def packet? : Request → Option Packet
  | .transmit packet => some packet
  | _ => none

end Request

/-- The messages between the registration and `CLOSED`: at most one `START`, with the file
number of the process, at most one checksum of the output, and never the checksum of the
output from a process that asked to be sender. -/
structure SessionBody (S : Settings) (body : List Request) : Prop where
  inside : ∀ r ∈ body, r.inside = true
  starts : body.countP Request.isStart ≤ 1
  file : ∀ id, .start id ∈ body → id = S.file
  outs : body.countP Request.isChecksumOut ≤ 1
  role : body.any Request.isChecksumOut = true →
    ∀ r ∈ body, r.isStart = false ∧ r.isChecksumIn = false

namespace Process

variable {S : Settings} {p q : Process} {a : ProcessAction}

/-- How `startCommand`, `isSender` and the output file account for the messages. -/
structure Accounts (S : Settings) (startCommand isSender reported : Bool)
    (body : List Request) : Prop where
  inside : ∀ r ∈ body, r.inside = true
  starts : body.countP Request.isStart ≤ startCommand.toNat
  file : ∀ id, .start id ∈ body → id = S.file
  ins : body.any Request.isChecksumIn = true → isSender = true
  outs : body.countP Request.isChecksumOut ≤ reported.toNat

theorem Accounts.append {startCommand startCommand' isSender isSender' reported reported' : Bool}
    {body rs : List Request} (h : Accounts S startCommand isSender reported body)
    (hinside : ∀ r ∈ rs, r.inside = true)
    (hstarts : startCommand.toNat + rs.countP Request.isStart ≤ startCommand'.toNat)
    (hfile : ∀ id, .start id ∈ rs → id = S.file)
    (hins : isSender = true ∨ rs.any Request.isChecksumIn = true → isSender' = true)
    (houts : body.countP Request.isChecksumOut + rs.countP Request.isChecksumOut ≤
      reported'.toNat) :
    Accounts S startCommand' isSender' reported' (body ++ rs) where
  inside r hr := (List.mem_append.mp hr).elim (h.inside r) (hinside r)
  starts := by
    have := h.starts
    rw [List.countP_append]
    omega
  file id hid := (List.mem_append.mp hid).elim (h.file id) (hfile id)
  ins hany := by
    rw [List.any_append, Bool.or_eq_true] at hany
    exact hins (hany.imp_left h.ins)
  outs := by
    rw [List.countP_append]
    exact houts

def opening (S : Settings) : MainPhase → List Request
  | .hello | .registering => []
  | _ => [.register S.groupToken]

def ending : MainPhase → List Request
  | .returning => [.closed]
  | _ => []

structure Logged (S : Settings) (p : Process) (body : List Request) : Prop where
  written : p.written = opening S p.main ++ body ++ ending p.main
  early : p.main = .hello ∨ p.main = .registering → body = []
  silent : p.main = .uploading → body.countP Request.isChecksumOut = 0
  accounts : Accounts S p.startCommand p.client.isSender p.output.isSome body

def Reported (p : Process) : Prop :=
  p.output.isSome = true →
    p.main ∈ [.uploading, .closing, .finishing, .joining, .farewell, .returning] ∧
      p.startCommand = false ∧ p.client.isSender = false

theorem Moves.opening_eq {main : MainPhase} (h : p.Moves main) :
    opening S main = opening S p.main ∧ ending main = ending p.main ∧
      ¬ (main = .hello ∨ main = .registering) ∧ main ≠ .uploading := by
  cases h <;> simp_all [opening, ending]

theorem Reported.step (h : p.Reported) (hsound : p.Sound) (hstep : step S p a = some q) :
    q.Reported := by
  obtain ⟨-, he⟩ := step_effect hstep
  unfold Reported at *
  cases he with
  | report key written now r result hmain hr hresult =>
    obtain ⟨-, -, -, hstart, hsender⟩ := hsound.at hmain
    exact fun _ => ⟨by simp, hstart, hsender⟩
  | upload key now file hmain hout => exact fun hout => ⟨by simp, (h hout).2⟩
  | move key written now main hmove =>
    intro hout
    obtain ⟨hmain, hrest⟩ := h hout
    refine ⟨?_, hrest⟩
    cases hmove <;> simp_all
  | join key written now main hjoinable hloop hmain =>
    intro hout
    obtain ⟨hmain', hrest⟩ := h hout
    refine ⟨?_, hrest⟩
    rcases hmain with ⟨hmain, rfl⟩ | ⟨-, -, rfl⟩
    · simp [hmain] at hmain'
    · simp
  | listen chunk c hmain hget hc =>
    intro hout
    have hmain' := (h hout).1
    rcases hmain with hmain | hmain <;> simp [hmain] at hmain'
  | greeted _ _ hmain | registered _ _ hmain =>
    exact fun hout => absurd (h hout).1 (by simp [hmain])
  | quiet chunk written c hloop hget hc =>
    obtain ⟨_, _, rfl⟩ := getControlMessage_frame hget
    exact h
  | act chunk written c c' message input hloop hget hc hne hhandle =>
    have hframe := handleMessage_frame input message c
    rw [hhandle] at hframe
    obtain ⟨_, _, rfl⟩ := getControlMessage_frame hget
    exact fun hout => ⟨(h hout).1, (h hout).2.1, hframe.isSender.trans (h hout).2.2⟩
  | close _ _ _ hmain | finish _ _ _ hmain | farewell _ _ hmain =>
    exact fun hout => ⟨by simp, (h hout).2⟩
  | register _ _ hmain | late _ _ _ hmain | mark _ _ _ hmain | request _ _ hmain
  | spawn _ _ _ _ _ hmain | call _ _ _ hmain | setStop _ _ _ hmain =>
    exact fun hout => absurd (h hout).1 (by simp [hmain])
  | _ => exact h

/-- A message of the event loop: the main thread is between the registration and `CLOSED`. -/
theorem Logged.loop {body : List Request} (h : p.Logged S body) (hsound : p.Sound)
    (hloop : p.loop ≠ .unborn) (hnot : ¬ p.control.Quiet) :
    p.written = opening S p.main ++ body ∧ ending p.main = [] ∧
      ¬ (p.main = .hello ∨ p.main = .registering) := by
  have hwritten := h.written
  have hending : ending p.main = [] := by
    cases hmain : p.main with
    | returning => exact absurd (hsound.at hmain).1 hnot
    | _ => rfl
  refine ⟨by simpa [hending] using hwritten, hending, ?_⟩
  have hconnecting : ∀ main, p.control.Sound main → main = .hello ∨ main = .registering →
      p.loop = .unborn := by
    rintro main hmain (rfl | rfl)
    · exact hmain.unborn
    · exact hmain.unborn
  exact fun hearly => hloop (hconnecting p.main hsound hearly)

theorem checksumIn_eq {message : Message} {c : ClientState} {r : Request}
    (h : checksumIn S message c = some r) :
    c.isSender = true ∧ ∃ challenge fileContents, r = .checksumIn challenge fileContents := by
  unfold checksumIn at h
  dsimp only at h
  split_ifs at h with hc
  refine ⟨hc.1, ?_⟩
  simp only [Option.bind_eq_bind, Option.bind_eq_some_iff, Option.some.injEq] at h
  obtain ⟨argument, -, fileContents, -, rfl⟩ := h
  exact ⟨_, _, rfl⟩

/-- What the event loop says leaves `START` and the checksum of the output as they are. -/
theorem Logged.says {body rs : List Request} (h : p.Logged S body) (hsound : p.Sound)
    (hloop : p.loop ≠ .unborn) (hnot : ¬ p.control.Quiet)
    (hinside : ∀ r ∈ rs, r.inside = true)
    (hothers : ∀ r ∈ rs, r.isStart = false ∧ r.isChecksumOut = false)
    (hins : rs.any Request.isChecksumIn = true → p.client.isSender = true)
    (hmain : q.main = p.main) (hwritten : q.written = p.written ++ rs)
    (hstart : q.startCommand = p.startCommand) (hsender : q.client.isSender = p.client.isSender)
    (hout : q.output = p.output) : q.Logged S (body ++ rs) := by
  obtain ⟨hbefore, hending, hlate⟩ := h.loop hsound hloop hnot
  have hstarts : rs.countP Request.isStart = 0 :=
    List.countP_eq_zero.mpr fun r hr => by simp [(hothers r hr).1]
  have houts : rs.countP Request.isChecksumOut = 0 :=
    List.countP_eq_zero.mpr fun r hr => by simp [(hothers r hr).2]
  have hfile : ∀ id, .start id ∈ rs → id = S.file := fun id hid =>
    absurd (hothers _ hid).1 (by simp [Request.isStart])
  refine ⟨?_, ?_, ?_, ?_⟩
  · rw [hwritten, hmain, hbefore, hending, List.append_nil, List.append_assoc]
  · rw [hmain]
    exact fun hearly => absurd hearly hlate
  · rw [hmain, List.countP_append, houts, Nat.add_zero]
    exact h.silent
  · rw [hstart, hsender, hout]
    refine h.accounts.append hinside ?_ hfile (fun hor => hor.elim id hins) ?_
    · rw [hstarts, Nat.add_zero]
    · rw [houts, Nat.add_zero]
      exact h.accounts.outs

theorem Logged.act {body : List Request} (h : p.Logged S body) (hsound : p.Sound)
    {chunk : List Byte} {c c' : ClientState} {message : Message} {input : Input}
    (hloop : p.loop = .reading) (hget : getControlMessage chunk p.client = .ok c)
    (hhandle : handleMessage input message c = (c', none)) :
    Logged S { p with
      client := c'
      loop := .sending
      arrived := p.arrived ++ chunk
      acted := p.acted ++ [message]
      written := p.written ++ (checksumIn S message c).toList }
      (body ++ (checksumIn S message c).toList) := by
  have hframe := handleMessage_frame input message c
  rw [hhandle] at hframe
  obtain ⟨_, _, hc⟩ := getControlMessage_frame hget
  have hsame : c.isSender = p.client.isSender := by rw [hc]
  have hsent : ∀ r ∈ (checksumIn S message c).toList, c.isSender = true ∧
      ∃ challenge fileContents, r = .checksumIn challenge fileContents :=
    fun r hr => checksumIn_eq (Option.mem_toList.mp hr)
  refine h.says hsound (by simp [hloop]) (Control.not_quiet hloop) (fun r hr => ?_) (fun r hr => ?_)
    (fun hany => ?_) rfl rfl rfl (hframe.isSender.trans hsame) rfl
  · obtain ⟨-, challenge, fileContents, rfl⟩ := hsent r hr
    rfl
  · obtain ⟨-, challenge, fileContents, rfl⟩ := hsent r hr
    exact ⟨rfl, rfl⟩
  · obtain ⟨r, hr, -⟩ := List.any_eq_true.mp hany
    exact hsame ▸ (hsent r hr).1

theorem Logged.transmit {body : List Request} (h : p.Logged S body) (hsound : p.Sound)
    {client : ClientState} {packet : Packet} (hloop : p.loop = .sending)
    (hstarted : p.client.simulationStarted = true)
    (hsender : client.isSender = p.client.isSender) :
    Logged S { p with client, loop := .testing, written := p.written ++ [.transmit packet] }
      (body ++ [.transmit packet]) := by
  have hnot : ¬ p.control.Quiet := by
    rintro (hended | ⟨-, htesting | ⟨-, hstopped⟩⟩)
    · simp [control, hloop] at hended
    · simp [control, hloop] at htesting
    · simp [control, hstarted] at hstopped
  exact h.says hsound (by simp [hloop]) hnot (by simp [Request.inside])
    (by simp [Request.isStart, Request.isChecksumOut]) (by simp [Request.isChecksumIn])
    rfl rfl rfl hsender rfl

theorem Logged.unreported {body : List Request} (h : p.Logged S body) (hreported : p.Reported)
    (hmain : p.main = .reporting) : body.countP Request.isChecksumOut = 0 := by
  have hout : p.output.isSome = false := by
    by_contra hsome
    rw [Bool.not_eq_false] at hsome
    exact absurd (hreported hsome).1 (by simp [hmain])
  exact Nat.le_zero.mp (by simpa [hout] using h.accounts.outs)

theorem Logged.step {body : List Request} (h : p.Logged S body) (hsound : p.Sound)
    (hreported : p.Reported) (hstep : step S p a = some q) : ∃ body, q.Logged S body := by
  obtain ⟨-, he⟩ := step_effect hstep
  obtain ⟨hwritten, hearly, hsilent, haccounts⟩ := h
  cases he with
  | listen chunk c hmain hget hc =>
    obtain ⟨_, _, rfl⟩ := getControlMessage_frame hget
    exact ⟨body, hwritten, hearly, hsilent, haccounts⟩
  | greeted chunk c hmain hget hc =>
    obtain ⟨_, _, rfl⟩ := getControlMessage_frame hget
    rw [hmain] at hwritten
    exact ⟨body, hwritten, fun _ => hearly (Or.inl hmain), by simp, haccounts⟩
  | registered chunk c hmain hget hc =>
    obtain ⟨_, _, rfl⟩ := getControlMessage_frame hget
    rw [hmain] at hwritten
    exact ⟨body, hwritten, by simp, by simp, haccounts⟩
  | register key now hmain =>
    obtain rfl := hearly (Or.inr hmain)
    rw [hmain] at hwritten
    exact ⟨[], by simp [hwritten, opening, ending], by simp, by simp, haccounts⟩
  | move key written now main hmove =>
    obtain ⟨hopening, hending, hlate, hsilent⟩ := hmove.opening_eq (S := S)
    exact ⟨body, by rw [hwritten, hopening, hending], fun hearly => absurd hearly hlate,
      fun hmain => absurd hmain hsilent, haccounts⟩
  | late key written now hmain =>
    rw [hmain] at hwritten
    have hstarts := haccounts.starts.trans (Bool.toNat_le _)
    exact ⟨body, hwritten, by simp, by simp, { haccounts with starts := hstarts }⟩
  | mark key written now hmain =>
    rw [hmain] at hwritten
    exact ⟨body, hwritten, by simp, by simp, { haccounts with ins := fun _ => rfl }⟩
  | request key now hmain =>
    rw [hmain] at hwritten
    have hstart : p.startCommand = false := (hsound.at hmain).2
    refine ⟨body ++ [.start S.file], by simp [hwritten, opening, ending], by simp, by simp, ?_⟩
    exact haccounts.append (by simp [Request.inside]) (by simp [hstart, Request.isStart])
      (by simp) (by simp [Request.isChecksumIn])
      (by simpa [Request.isChecksumOut] using haccounts.outs)
  | report key written now r result hmain hr hresult =>
    have hnone := Logged.unreported ⟨hwritten, hearly, hsilent, haccounts⟩ hreported hmain
    rw [hmain] at hwritten
    exact ⟨body, hwritten, by simp, fun _ => hnone,
      { haccounts with outs := hnone.le.trans (Nat.zero_le _) }⟩
  | upload key now file hmain hout =>
    have hnone := hsilent hmain
    rw [hmain] at hwritten
    refine ⟨body ++ [.checksumOut p.client.challenge file],
      by simp [hwritten, opening, ending], by simp, by simp, ?_⟩
    exact haccounts.append (by simp [Request.inside]) (by simp [Request.isStart])
      (by simp) (by simp [Request.isChecksumIn]) (by simp [hnone, hout, Request.isChecksumOut])
  | spawn _ _ _ _ _ hmain | call _ _ _ hmain | setStop _ _ _ hmain | close _ _ _ hmain
  | finish _ _ _ hmain =>
    rw [hmain] at hwritten
    exact ⟨body, hwritten, by simp, by simp, haccounts⟩
  | join key written now main hjoinable hloop hmain =>
    rcases hmain with ⟨hmain, rfl⟩ | ⟨hmain, hs, rfl⟩
    · rw [hmain] at hwritten
      exact ⟨body, hwritten, by simp, by simp, haccounts⟩
    · rw [hmain] at hwritten
      exact ⟨body, hwritten, by simp, by simp, haccounts⟩
  | farewell key now hmain =>
    rw [hmain] at hwritten
    exact ⟨body, by simp [hwritten, opening, ending], by simp, by simp, haccounts⟩
  | quiet chunk written c hloop hget hc =>
    obtain ⟨_, _, rfl⟩ := getControlMessage_frame hget
    exact ⟨body, hwritten, hearly, hsilent, haccounts⟩
  | act chunk written c c' message input hloop hget hc hne hhandle =>
    exact ⟨_, Logged.act ⟨hwritten, hearly, hsilent, haccounts⟩ hsound hloop hget hhandle⟩
  | transmit packet rest hloop hstarted hqueue =>
    exact ⟨_, Logged.transmit ⟨hwritten, hearly, hsilent, haccounts⟩ hsound hloop hstarted rfl⟩
  | _ => exact ⟨body, hwritten, hearly, hsilent, haccounts⟩

theorem logged_run {as : List ProcessAction}
    (hrun : Transition.run (step S) initial as = some p) :
    p.Sound ∧ p.Reported ∧ ∃ body, p.Logged S body := by
  refine Transition.run_invariant
    (fun p : Process => p.Sound ∧ p.Reported ∧ ∃ body, p.Logged S body) ?_
    ⟨sound_initial, by simp [Reported, initial], [], ?_⟩ hrun
  · rintro p a q ⟨hsound, hreported, body, hlogged⟩ hstep
    exact ⟨hsound.step hstep, hreported.step hsound hstep,
      hlogged.step hsound hreported hstep⟩
  · exact ⟨rfl, fun _ => rfl, by simp, by simp, by simp, by simp, by simp, by simp⟩

theorem Logged.sessionBody {body : List Request} (h : p.Logged S body) (hreported : p.Reported) :
    SessionBody S body where
  inside := h.accounts.inside
  starts := h.accounts.starts.trans (Bool.toNat_le _)
  file := h.accounts.file
  outs := h.accounts.outs.trans (Bool.toNat_le _)
  role hout := by
    have hsome : p.output.isSome = true := by
      by_contra hnone
      rw [Bool.not_eq_true] at hnone
      have hzero := h.accounts.outs
      rw [hnone, Bool.toNat_false, Nat.le_zero, List.countP_eq_zero] at hzero
      obtain ⟨r, hr, hr'⟩ := List.any_eq_true.mp hout
      exact hzero r hr hr'
    obtain ⟨-, hstart, hsender⟩ := hreported hsome
    have hstarts := h.accounts.starts
    rw [hstart, Bool.toNat_false, Nat.le_zero, List.countP_eq_zero] at hstarts
    intro r hr
    refine ⟨Bool.not_eq_true _ ▸ hstarts r hr, ?_⟩
    by_contra hin
    rw [Bool.not_eq_false] at hin
    have := h.accounts.ins (List.any_eq_true.mpr ⟨r, hr, hin⟩)
    simp [hsender] at this

theorem Logged.session {body : List Request} (h : p.Logged S body) : p.written = [] ∨
    p.written = .register S.groupToken :: body ∨
      p.written = .register S.groupToken :: body ++ [.closed] := by
  have hwritten := h.written
  cases hmain : p.main with
  | hello | registering =>
    obtain rfl := h.early (by simp [hmain])
    exact Or.inl (by simp [hwritten, hmain, opening, ending])
  | returning => exact Or.inr (Or.inr (by simp [hwritten, hmain, opening, ending]))
  | _ => exact Or.inr (Or.inl (by simp [hwritten, hmain, opening, ending]))

/-- Whatever bytes arrive and however the threads take turns, what a process has written is
a session, up to now or to its end. -/
theorem session_wellformed {as : List ProcessAction}
    (hrun : Transition.run (step S) initial as = some p) :
    p.written = [] ∨ ∃ body, SessionBody S body ∧
      (p.written = .register S.groupToken :: body ∨
        p.written = .register S.groupToken :: body ++ [.closed]) := by
  obtain ⟨-, hreported, body, hlogged⟩ := logged_run hrun
  exact hlogged.session.imp_right fun hwritten =>
    ⟨body, hlogged.sessionBody hreported, hwritten⟩

def startLine : List Byte :=
  lineOf (startWord ++ chars [' ', '1', ' ', 'Y', 'Q', '=', '=']) ++ [newline]

/-- The simulation that was asked for, and the one packet of the file. -/
def sendingRun : List ProcessAction := List.flatten [
  connection,
  [.main false true 0],
  List.replicate 4 (.main true true 0),
  [.loopTest, .loopRead startLine true, .loopSend true],
  List.replicate 4 (.main false true 0),
  [.senderTop 1, .senderTest, .senderPush, .loopTest, .loopRead [] true, .loopSend true]]

theorem session_wellformed_sending :
    ∃ p ∈ Transition.run (step oneByteSettings) initial sendingRun,
      p.written = [.register (chars ['k']), .start (chars ['1']), .checksumIn [0x61] [0x89],
        .transmit (dataPacket [0x89] 0)] ∧
      (p.written = [] ∨ ∃ body, SessionBody oneByteSettings body ∧
        (p.written = .register oneByteSettings.groupToken :: body ∨
          p.written = .register oneByteSettings.groupToken :: body ++ [.closed])) := by
  obtain ⟨p, hrun, hwritten⟩ :
      ∃ p ∈ Transition.run (step oneByteSettings) initial sendingRun,
        p.written = [.register (chars ['k']), .start (chars ['1']), .checksumIn [0x61] [0x89],
          .transmit (dataPacket [0x89] 0)] := by
    decide +kernel
  exact ⟨p, hrun, hwritten, session_wellformed hrun⟩

/-- The simulation is over for the event loop, and not for `receiver()`. -/
structure LeftBehind (p : Process) : Prop where
  main : p.main = .receiving
  ended : p.ended = none
  loop : p.loop = .ended
  queue : p.client.inputPacketBuffer = []
  sender : p.sender = none
  call : ∃ r, p.receiver = some r ∧ r.result = none

theorem LeftBehind.step (h : p.LeftBehind) (hstep : step S p a = some q) :
    q.LeftBehind ∧ q.written = p.written := by
  obtain ⟨r, hr, hresult⟩ := h.call
  have hmain := h.main
  have hloop := h.loop
  have hsender := h.sender
  have hqueue := h.queue
  obtain ⟨-, he⟩ := step_effect hstep
  cases he with
  | exit why hwhy =>
    cases why <;> simp_all [EndsBy]
  | listen _ _ hmain' => rcases hmain' with hmain' | hmain' <;> simp_all
  | move _ _ _ main hmove => cases hmove <;> simp_all
  | receiverTest r' now hr' hresult' =>
    exact ⟨⟨hmain, h.ended, hloop, hqueue, hsender, _, rfl, hresult'⟩, rfl⟩
  | keep r' now hr' hresult' hclock =>
    obtain rfl := Option.some.inj (hr.symm.trans hr')
    exact ⟨⟨hmain, h.ended, hloop, hqueue, hsender, _, rfl, hresult⟩, rfl⟩
  | receiverPush r' packet rest hr' hpending =>
    obtain rfl := Option.some.inj (hr.symm.trans hr')
    exact ⟨⟨hmain, h.ended, hloop, hqueue, hsender, _, rfl, hresult⟩, rfl⟩
  | join _ _ _ main hjoinable hloop' hmain' =>
    rcases hmain' with ⟨hmain', -⟩ | ⟨hmain', -, -⟩ <;> simp_all
  | _ => simp_all

/-- When the simulation ends before the file is complete, and what has arrived is used up,
`receiver()` does not return: the process never writes again, and never ends. -/
theorem receiver_left_behind {as bs : List ProcessAction}
    (hrun : Transition.run (step S) initial as = some p) (hmain : p.main = .receiving)
    (hended : p.ended = none) (hloop : p.loop = .ended)
    (hqueue : p.client.inputPacketBuffer = []) {r : ReceiverCall} (hr : p.receiver = some r)
    (hresult : r.result = none) (hrest : Transition.run (step S) p bs = some q) :
    q.main = .receiving ∧ q.ended = none ∧ q.written = p.written ∧ .closed ∉ q.written := by
  have hsound := (sound_run hrun).at hmain
  have hsender : p.sender = none := by simpa [control] using hsound.2.1
  have hleft : p.LeftBehind := ⟨hmain, hended, hloop, hqueue, hsender, r, hr, hresult⟩
  have hkept := Transition.run_invariant
    (fun q : Process => q.LeftBehind ∧ q.written = p.written)
    (fun q a q' hq hstep => ⟨(hq.1.step hstep).1, (hq.1.step hstep).2.trans hq.2⟩)
    ⟨hleft, rfl⟩ hrest
  refine ⟨hkept.1.main, hkept.1.ended, hkept.2, ?_⟩
  rw [hkept.2]
  obtain ⟨-, hreported, body, hlogged⟩ := logged_run hrun
  have hwritten := hlogged.written
  rw [hmain] at hwritten
  intro hclosed
  rw [hwritten] at hclosed
  have hmem : .closed ∈ body := by simpa [opening, ending] using hclosed
  exact absurd (hlogged.accounts.inside _ hmem) (by simp [Request.inside])

/-- `FINISH` before the first packet. -/
def leftBehindRun : List ProcessAction := List.flatten [
  connection,
  [.loopTest, .loopRead startLine true, .loopSend true],
  [.main false true 0, .main false true 0, .main false true 1],
  [.loopTest, .loopRead (lineOf finishWord ++ [newline]) true, .loopSend true, .loopTest]]

theorem receiver_left_behind_finish :
    ∃ p ∈ Transition.run (step oneByteSettings) initial leftBehindRun,
      ∃ q ∈ Transition.run (step oneByteSettings) p [.receiverTest 2, .receiverTest 3],
        q.main = .receiving ∧ q.ended = none ∧ .closed ∉ q.written := by
  obtain ⟨p, hrun, hmain, hended, hloop, hqueue, ⟨r, hr, hresult⟩, hrest⟩ :
      ∃ p ∈ Transition.run (step oneByteSettings) initial leftBehindRun,
        p.main = .receiving ∧ p.ended = none ∧ p.loop = .ended ∧
          p.client.inputPacketBuffer = [] ∧ (∃ r ∈ p.receiver, r.result = none) ∧
          (Transition.run (step oneByteSettings) p [.receiverTest 2, .receiverTest 3]).isSome := by
    decide +kernel
  obtain ⟨q, hq⟩ := Option.isSome_iff_exists.mp hrest
  obtain ⟨hmain', hended', -, hclosed⟩ :=
    receiver_left_behind hrun hmain hended hloop hqueue hr hresult hq
  exact ⟨p, hrun, q, hq, hmain', hended', hclosed⟩

end Process
end RdtChallenge
