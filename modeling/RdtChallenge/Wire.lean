import RdtChallenge.Session
import RdtChallenge.WireEncoding

namespace RdtChallenge
open LineFraming (frame)

theorem split_frame {d : Byte} {lines : List (List Byte)} (h : ∀ line ∈ lines, d ∉ line) :
    split (frame d lines) d = lines := by
  unfold split
  induction lines with
  | nil => rfl
  | cons line lines ih =>
    rw [List.forall_mem_cons] at h
    rw [LineFraming.frame_cons, splitFrom_delim h.1, ih h.2, List.nil_append]

theorem newline_not_mem_decimal (n : ℕ) : newline ∉ decimal n := by
  rw [decimal, chars, List.mem_map]
  rintro ⟨c, hc, hnewline⟩
  have hdigit := Nat.isDigit_of_mem_toDigits (by decide) (by decide) hc
  simp only [Char.isDigit, Bool.and_eq_true, decide_eq_true_eq] at hdigit
  have hge : 48 ≤ c.toNat := hdigit.1
  have hle : c.toNat ≤ 57 := hdigit.2
  have hten := congrArg BitVec.toNat hnewline
  rw [BitVec.toNat_ofNat, Nat.mod_eq_of_lt (by omega)] at hten
  have : newline.toNat = 10 := rfl
  omega

structure Settings.OneLine (S : Settings) : Prop where
  groupToken : newline ∉ S.groupToken
  file : newline ∉ S.file

theorem newline_not_mem_fileNumber {file : List Byte} (h : newline ∉ file)
    (argv : List (List Byte)) : newline ∉ fileNumber file argv := by
  unfold fileNumber
  split
  · split_ifs with hnumber
    · revert hnumber
      simp only [List.map_cons, List.map_nil, List.mem_cons, List.not_mem_nil, or_false]
      rintro (rfl | rfl | rfl | rfl | rfl | rfl) <;> decide
    · exact h
  · exact h

theorem Settings.OneLine.withArguments {S : Settings} (hS : S.OneLine)
    (argv : List (List Byte)) : (S.withArguments argv).OneLine :=
  ⟨hS.groupToken, newline_not_mem_fileNumber hS.file argv⟩

/-- The packet that a line carries to the server, as far as it can be read off. -/
def transmittedPacket? (line : List Byte) : Option Packet :=
  if startsWith transmitWord (messageOf line) then
    some ((base64Decode ((messageOf line).drop transmitWord.length)).map byteValue)
  else none

theorem checksumMessage_spec (type challenge fileContents : List Byte) (htype : newline ∉ type) :
    ∃ m, checksumMessage type challenge fileContents = some m ∧ newline ∉ m ∧
      startsWith transmitWord m = false := by
  refine ⟨_, checksumMessage_eq type challenge fileContents, ?_, ?_⟩
  · have hword : newline ∉ checksumWord := by decide
    have hspace : newline ≠ space := by decide
    simp [hword, htype, hspace, newline_not_mem_decimal]
  · have hword : startsWith checksumWord (checksumWord ++ type ++ space :: decimal (~~~(
        fileContents.foldl (CyclicCode.feed polynomial.reverse)
          (afterChallenge challenge))).toNat) = true := by
      rw [startsWith_iff, List.append_assoc]
      exact List.prefix_append _ _
    exact startsWith_exclusive hword (by decide) (by decide)

theorem Request.message_spec {S : Settings} (hS : S.OneLine) {r : Request}
    (hregister : ∀ key, r = .register key → key = S.groupToken)
    (hstart : ∀ id, r = .start id → id = S.file) :
    ∃ m, r.message = some m ∧ newline ∉ m ∧
      transmittedPacket? (lineOf m) = r.packet?.map carry := by
  have hspace : newline ≠ space := by decide
  unfold transmittedPacket?
  cases r with
  | register key =>
    obtain rfl := hregister key rfl
    have hword : newline ∉ registerWord := by decide
    refine ⟨_, rfl, by simp [hword, hspace, hS.groupToken], ?_⟩
    rw [messageOf_lineOf, startsWith_exclusive (startsWith_iff.mpr (List.prefix_append _ _))
      (by decide : startsWith registerWord transmitWord = false) (by decide)]
    rfl
  | start id =>
    obtain rfl := hstart id rfl
    have hword : newline ∉ startWord := by decide
    refine ⟨_, rfl, by simp [hword, hspace, hS.file], ?_⟩
    rw [messageOf_lineOf, startsWith_exclusive (startsWith_iff.mpr (List.prefix_append _ _))
      (by decide : startsWith startWord transmitWord = false) (by decide)]
    rfl
  | checksumIn challenge fileContents =>
    obtain ⟨m, hm, hline, hother⟩ :=
      checksumMessage_spec inWord challenge fileContents (by decide)
    exact ⟨m, hm, hline, by simp [hother, packet?]⟩
  | transmit packet =>
    have hword : newline ∉ transmitWord := by decide
    have hnone : newline ∉ base64Encode packet :=
      not_mem_base64Encode (by decide) (by decide) packet
    refine ⟨_, rfl, by simp [hword, hnone], ?_⟩
    have hstarts : startsWith transmitWord (transmitWord ++ base64Encode packet) = true :=
      startsWith_iff.mpr (List.prefix_append _ _)
    rw [messageOf_lineOf, if_pos hstarts, List.drop_left, base64Decode_base64Encode]
    rfl
  | checksumOut challenge fileContents =>
    obtain ⟨m, hm, hline, hother⟩ :=
      checksumMessage_spec outWord challenge fileContents (by decide)
    exact ⟨m, hm, hline, by simp [hother, packet?]⟩
  | closed => exact ⟨closedWord, rfl, by decide, by decide +kernel⟩

namespace Process

variable {S : Settings} {p q : Process} {a : ProcessAction}

def wire (p : Process) : List Byte := stream (p.written.filterMap Request.message)

/-- What has been handed to `sendPacket` is written or waits. -/
def Queued (p : Process) : Prop :=
  p.written.filterMap Request.packet? ++ p.client.outputPacketBuffer = p.handed

theorem Queued.step (h : p.Queued) (hstep : step S p a = some q) : q.Queued := by
  obtain ⟨-, he⟩ := step_effect hstep
  unfold Queued at *
  cases he with
  | listen chunk c hmain hget hc | greeted chunk c hmain hget hc
  | registered chunk c hmain hget hc | quiet chunk written c hloop hget hc =>
    obtain ⟨_, _, rfl⟩ := getControlMessage_frame hget
    exact h
  | register key now hmain | request key now hmain | upload key now file hmain hout
  | farewell key now hmain =>
    simpa [List.filterMap_cons, Request.packet?] using h
  | act chunk written c c' message input hloop hget hc hne hhandle =>
    have hframe := handleMessage_frame input message c
    rw [hhandle] at hframe
    obtain ⟨_, _, hc'⟩ := getControlMessage_frame hget
    have hqueue : c'.outputPacketBuffer = p.client.outputPacketBuffer := by
      rw [hframe.outputPacketBuffer, hc']
    cases hchecksum : checksumIn S message c with
    | none => simpa [hqueue] using h
    | some r =>
      obtain ⟨-, challenge, fileContents, rfl⟩ := checksumIn_eq hchecksum
      simpa [hqueue, List.filterMap_cons, Request.packet?] using h
  | transmit packet rest hloop hstarted hqueue =>
    rw [hqueue] at h
    simpa [Request.packet?] using h
  | senderPush t packet rest ht hpending | receiverPush r packet rest hr hpending =>
    simp only [push, ← List.append_assoc, h]
  | _ => exact h

theorem Queued.handed (h : p.Queued) {packet : Packet}
    (hmem : packet ∈ p.client.outputPacketBuffer) : packet ∈ p.handed :=
  h.subst (List.mem_append_right _ hmem)

theorem queued_run {as : List ProcessAction} (hrun : Transition.run (step S) initial as = some p) :
    p.Queued :=
  Transition.run_invariant Process.Queued (fun _ _ _ h hstep => h.step hstep)
    (show initial.Queued from rfl) hrun

theorem message_spec_run (hS : S.OneLine) {as : List ProcessAction}
    (hrun : Transition.run (step S) initial as = some p) : ∀ r ∈ p.written, ∃ m,
      r.message = some m ∧ newline ∉ m ∧ transmittedPacket? (lineOf m) = r.packet?.map carry := by
  have hkinds : ∀ r ∈ p.written, (∀ key, r = .register key → key = S.groupToken) ∧
      ∀ id, r = .start id → id = S.file := by
    intro r hr
    obtain ⟨-, -, body, hlogged⟩ := logged_run hrun
    have hmem : r = .register S.groupToken ∨ r ∈ body ∨ r = .closed := by
      rcases hlogged.session with hwritten | hwritten | hwritten <;> simp [hwritten] at hr <;> tauto
    rcases hmem with rfl | hmem | rfl
    · simp
    · refine ⟨?_, ?_⟩
      · rintro key rfl
        exact absurd (hlogged.accounts.inside _ hmem) (by simp [Request.inside])
      · rintro id rfl
        exact hlogged.accounts.file id hmem
    · simp
  exact fun r hr => Request.message_spec hS (hkinds r hr).1 (hkinds r hr).2

/-- Split at the newlines, the bytes on the socket are the lines of the messages; the packets
in these lines, and those in the queue, are what the protocol has handed to `sendPacket`. -/
theorem wire_readable (hS : S.OneLine) {as : List ProcessAction}
    (hrun : Transition.run (step S) initial as = some p) :
    split p.wire newline = (p.written.filterMap Request.message).map lineOf ∧
      (p.written.filterMap Request.message).length = p.written.length ∧
      (split p.wire newline).filterMap transmittedPacket? ++
        p.client.outputPacketBuffer.map carry = p.handed.map carry := by
  have hspec := message_spec_run hS hrun
  have hqueued : p.written.filterMap Request.packet? ++ p.client.outputPacketBuffer = p.handed :=
    queued_run hrun
  have hsplit : split p.wire newline = (p.written.filterMap Request.message).map lineOf := by
    refine split_frame fun line hline => ?_
    obtain ⟨m, hm, rfl⟩ := List.mem_map.mp hline
    obtain ⟨r, hr, hmessage⟩ := List.mem_filterMap.mp hm
    obtain ⟨m', hm', hone, -⟩ := hspec r hr
    obtain rfl := Option.some.inj (hmessage.symm.trans hm')
    exact newline_not_mem_lineOf hone
  -- along the messages
  have hall : ∀ rs : List Request, (∀ r ∈ rs, r ∈ p.written) →
      (rs.filterMap Request.message).length = rs.length ∧
        ((rs.filterMap Request.message).map lineOf).filterMap transmittedPacket? =
          (rs.filterMap Request.packet?).map carry := by
    intro rs
    induction rs with
    | nil => exact fun _ => ⟨rfl, rfl⟩
    | cons r rs ih =>
      intro hrs
      rw [List.forall_mem_cons] at hrs
      obtain ⟨m, hm, -, hpacket⟩ := hspec r hrs.1
      obtain ⟨hlength, hpackets⟩ := ih hrs.2
      refine ⟨by simp [hm, hlength], ?_⟩
      rw [List.filterMap_cons_some hm, List.map_cons, List.filterMap_cons, hpacket, hpackets]
      cases h : r.packet? <;> simp [h]
  obtain ⟨hlength, hpackets⟩ := hall p.written fun _ => id
  refine ⟨hsplit, hlength, ?_⟩
  rw [hsplit, hpackets, ← List.map_append, hqueued]

theorem wire_readable_sending :
    ∃ p ∈ Transition.run (step (oneByteSettings.withArguments [[], chars ['2']])) initial
        sendingRun,
      (split p.wire newline).filterMap transmittedPacket? ++
        p.client.outputPacketBuffer.map carry = [carry (dataPacket [0x89] 0)] := by
  obtain ⟨p, hrun, hhanded⟩ :
      ∃ p ∈ Transition.run (step (oneByteSettings.withArguments [[], chars ['2']])) initial
        sendingRun, p.handed = [dataPacket [0x89] 0] := by
    decide +kernel
  have hS : oneByteSettings.OneLine := ⟨by decide, by decide⟩
  refine ⟨p, hrun, ?_⟩
  rw [(wire_readable (hS.withArguments _) hrun).2.2, hhanded]
  rfl

end Process
end RdtChallenge
