import RdtChallenge.FileContents
import RdtChallenge.Reassembly

namespace RdtChallenge

/-- Every packet that arrives is one of `packets`. -/
def From (packets : List Packet) (polls : List Poll) : Prop :=
  ∀ packet now, .packet packet now ∈ polls → packet ∈ packets

def Arrives (packets : List Packet) (polls : List Poll) (i : ℕ) : Prop :=
  ∃ packet now, packets[i]? = some packet ∧ .packet packet now ∈ polls

def receiverAfter (now : ℤ) (polls : List Poll) : Option ReceiverState := do
  let bs ← receiverLoop (receiverStart now) polls
  some ((bs.getLast?.map Reception.state).getD (receiverStart now))

/-- The two agree on all members but the time of the last acknowledgement. -/
structure SameMembers (r r' : ReceiverState) : Prop where
  expectedTotal : r.expectedTotal = r'.expectedTotal
  received : r.received = r'.received
  recvBuffer : r.recvBuffer = r'.recvBuffer
  recvExpected : r.recvExpected = r'.recvExpected
  lastAck : r.lastAck = r'.lastAck

section Unique
variable {r r' : ReceiverState}

theorem received_unique (h : r.Sized) (h' : r'.Sized) (hexp : r.expectedTotal = r'.expectedTotal)
    (hheld : ∀ i, r.Held i ↔ r'.Held i) : r.received = r'.received := by
  apply List.ext_getElem?
  intro i
  by_cases hi : i < r.expectedTotal
  · rw [ReceiverState.getElem?_received h hi, ReceiverState.getElem?_received h' (hexp ▸ hi)]
    exact congrArg some (decide_eq_decide.mpr (hheld i))
  · rw [List.getElem?_eq_none (by have := h.received; omega),
      List.getElem?_eq_none (by have := h'.received; omega)]

theorem recvExpected_unique (h : r.Least) (h' : r'.Least) (hheld : ∀ i, r.Held i ↔ r'.Held i) :
    r.recvExpected = r'.recvExpected := by
  rcases Nat.lt_trichotomy r.recvExpected r'.recvExpected with hlt | heq | hgt
  · exact absurd ((hheld _).mpr (h'.below _ hlt)) h.missing
  · exact heq
  · exact absurd ((hheld _).mp (h.below _ hgt)) h'.missing

theorem mask_unique {mask mask' : BitVec 16} (h : r.Masked mask) (h' : r'.Masked mask')
    (hexp : r.recvExpected = r'.recvExpected) (hheld : ∀ i, r.Held i ↔ r'.Held i) :
    mask = mask' := by
  apply BitVec.eq_of_getLsbD_eq
  intro j hj
  rw [Bool.eq_iff_iff, h j hj, h' j hj, hexp, hheld]

theorem lastAck_unique (h : ReceiverInv r) (h' : ReceiverInv r')
    (hexp : r.recvExpected = r'.recvExpected) (hheld : ∀ i, r.Held i ↔ r'.Held i)
    (hempty : r.lastAck = [] ↔ r'.lastAck = []) : r.lastAck = r'.lastAck := by
  rcases h.lastAck with ⟨hnil, -⟩ | ⟨mask, hack, hmask⟩
  · rw [hnil, hempty.mp hnil]
  · have hne : r'.lastAck ≠ [] := by
      intro hnil
      rw [hempty.mpr hnil] at hack
      cases hack
    obtain ⟨mask', hack', hmask'⟩ := h'.lastAck.resolve_left fun hnil => hne hnil.1
    rw [hack, hack', hexp, mask_unique hmask hmask' hexp hheld]

end Unique

variable {file : List Byte} {polls polls' : List Poll}

theorem receiverAfter_spec (now : ℤ) (h : ¬ Covered polls) :
    ∃ r, receiverAfter now polls = some r ∧ ReceiverInv r ∧ Delivered polls r := by
  obtain ⟨bs, hbs, hall, hlen⟩ := receiverLoop_reached (receiverStart_receiving now) polls
  simp only [List.nil_append] at hall hlen
  have heq := length_of_not_covered hlen fun hc => h (hc.mono (List.take_prefix _ _))
  rcases bs.eq_nil_or_concat with rfl | ⟨bs', b, rfl⟩
  · obtain rfl : polls = [] := List.eq_nil_of_length_eq_zero heq.symm
    exact ⟨receiverStart now, by simp [receiverAfter, hbs], receiverStart_inv now,
      delivered_start now⟩
  · rw [List.concat_eq_append] at *
    have hreached := hall bs'.length b (by simp)
    rw [List.take_of_length_le (by simp at heq; omega)] at hreached
    exact ⟨b.state, by simp [receiverAfter, hbs], hreached.fit.inv, hreached.delivered⟩

/-- The vectors of a receiver that has got these packets are a function of the set of
packets that have been accepted. -/
theorem Delivered.sameMembers {r r' : ReceiverState} (h : ReceiverInv r) (h' : ReceiverInv r')
    (hd : Delivered polls r) (hd' : Delivered polls' r')
    (htotal : firstTotal polls = firstTotal polls')
    (hpayload : ∀ i, firstPayload r.expectedTotal i polls = firstPayload r.expectedTotal i polls') :
    SameMembers r r' := by
  have hexp : r.expectedTotal = r'.expectedTotal := by rw [hd.total, hd'.total, htotal]
  have hheld : ∀ i, r.Held i ↔ r'.Held i := by
    intro i
    rw [hd.held, hd'.held, hpayload, hexp]
  have hbase := recvExpected_unique h.least h'.least hheld
  refine ⟨hexp, received_unique h.sized h'.sized hexp hheld, ?_, hbase,
    lastAck_unique h h' hbase hheld ?_⟩
  · apply List.ext_getElem?
    intro i
    by_cases hi : i < r.expectedTotal
    · rw [hd.buffer i hi, hd'.buffer i (hexp ▸ hi), hpayload, hexp]
    · rw [List.getElem?_eq_none (by have := h.sized.recvBuffer; omega),
        List.getElem?_eq_none (by have := h'.sized.recvBuffer; omega)]
  · rw [← hd.answered, ← hd'.answered, htotal]

section OneFile
variable {packets : List Packet} (hT : packetCount file.length ≤ 65535)
  (hpackets : packetBuffer (getFileContents file) = some packets)
include hT hpackets

theorem packets_eq : packets = (List.range (packetCount file.length)).map (dataPacket file) :=
  Option.some.inj (hpackets.symm.trans (packetBuffer_eq hT))

theorem arrives_iff {i : ℕ} : Arrives packets polls i ↔
    i < packetCount file.length ∧ ∃ now, .packet (dataPacket file i) now ∈ polls := by
  have heq := packets_eq hT hpackets
  constructor
  · rintro ⟨packet, now, hget, hmem⟩
    rw [heq, List.getElem?_map, Option.map_eq_some_iff] at hget
    obtain ⟨j, hj, rfl⟩ := hget
    obtain ⟨hi, rfl⟩ : i < packetCount file.length ∧ i = j := by
      simpa [List.getElem?_eq_some_iff] using hj
    exact ⟨hi, now, hmem⟩
  · rintro ⟨hi, now, hmem⟩
    exact ⟨_, now, by simp [heq, hi], hmem⟩

theorem mem_accepted (hfrom : From packets polls) (x : ℕ × ℕ × List Value) :
    x ∈ accepted polls ↔ Arrives packets polls x.1 ∧
      x = (x.1, packetCount file.length, payload file x.1) := by
  have heq := packets_eq hT hpackets
  rw [arrives_iff hT hpackets, accepted, List.mem_filterMap]
  constructor
  · rintro ⟨_ | _, hmem, hdata⟩
    · rename_i packet now
      -- the packet is one of the file's, so it decodes to its own index
      obtain ⟨i, hi, rfl⟩ : ∃ i < packetCount file.length, dataPacket file i = packet := by
        simpa [heq] using hfrom _ now hmem
      obtain rfl : (i, packetCount file.length, payload file i) = x := by
        simpa [Poll.data, decode_dataPacket hi hT] using hdata
      exact ⟨⟨hi, now, hmem⟩, rfl⟩
    · cases hdata
  · rintro ⟨⟨hi, now, hmem⟩, hx⟩
    refine ⟨_, hmem, ?_⟩
    rw [hx]
    simp [Poll.data, decode_dataPacket hi hT]

theorem firstTotal_eq (hfrom : From packets polls) :
    firstTotal polls = none ∧ (∀ i, ¬ Arrives packets polls i) ∨
      firstTotal polls = some (packetCount file.length) ∧ ∃ i, Arrives packets polls i := by
  have hmem := mem_accepted hT hpackets hfrom
  unfold firstTotal
  cases h : accepted polls with
  | nil =>
    refine Or.inl ⟨rfl, fun i hi => ?_⟩
    have := (hmem (i, packetCount file.length, payload file i)).mpr ⟨hi, rfl⟩
    simp [h] at this
  | cons x xs =>
    obtain ⟨hx, heq⟩ := (hmem x).mp (by simp [h])
    refine Or.inr ⟨?_, x.1, hx⟩
    rw [List.head?_cons, Option.map_some, heq]

theorem firstPayload_eq_some_iff (hfrom : From packets polls) (i : ℕ) (data : List Value) :
    firstPayload (packetCount file.length) i polls = some data ↔
      Arrives packets polls i ∧ data = payload file i := by
  have hmem := mem_accepted hT hpackets hfrom
  unfold firstPayload
  constructor
  · intro h
    obtain ⟨⟨seq, total, _⟩, hfind, rfl⟩ := Option.map_eq_some_iff.mp h
    have hprop := List.find?_some hfind
    obtain ⟨hx, heq⟩ := (hmem _).mp (List.mem_of_find?_eq_some hfind)
    simp only [Bool.and_eq_true, beq_iff_eq, Prod.mk.injEq] at hprop heq
    obtain rfl := hprop.1
    exact ⟨hx, heq.2.2⟩
  · rintro ⟨hi, rfl⟩
    have hin := (hmem (i, packetCount file.length, payload file i)).mpr ⟨hi, rfl⟩
    cases hfind : (accepted polls).find? fun x => x.1 == i && x.2.1 == packetCount file.length with
    | none => simpa using List.find?_eq_none.mp hfind _ hin
    | some x =>
      have hprop := List.find?_some hfind
      obtain ⟨-, heq⟩ := (hmem x).mp (List.mem_of_find?_eq_some hfind)
      simp only [Bool.and_eq_true, beq_iff_eq] at hprop
      rw [heq, hprop.1, Option.map_some]

theorem firstPayload_isSome_iff (hfrom : From packets polls) (i : ℕ) :
    (firstPayload (packetCount file.length) i polls).isSome ↔ Arrives packets polls i := by
  rw [Option.isSome_iff_exists]
  simp [firstPayload_eq_some_iff hT hpackets hfrom]

theorem covered_iff (hfrom : From packets polls) :
    Covered polls ↔ ∀ i < packets.length, Arrives packets polls i := by
  have hlen : packets.length = packetCount file.length := by
    rw [packets_eq hT hpackets, List.length_map, List.length_range]
  have hpos := packetCount_pos file.length
  rw [hlen]
  rcases firstTotal_eq hT hpackets hfrom with ⟨hnone, hno⟩ | ⟨hsome, -⟩
  · refine ⟨fun hcov => ?_, fun hall => absurd (hall 0 hpos) (hno 0)⟩
    obtain ⟨total, htotal, -⟩ := hcov
    rw [hnone] at htotal
    cases htotal
  · simp [Covered, hsome, firstPayload_isSome_iff hT hpackets hfrom]

theorem Delivered.same (hfrom : From packets polls) (hfrom' : From packets polls')
    (hset : ∀ i, Arrives packets polls i ↔ Arrives packets polls' i) {r r' : ReceiverState}
    (h : ReceiverInv r) (h' : ReceiverInv r') (hd : Delivered polls r)
    (hd' : Delivered polls' r') : SameMembers r r' := by
  rcases firstTotal_eq hT hpackets hfrom with ⟨hnone, hno⟩ | ⟨hsome, i, hi⟩
  · rcases firstTotal_eq hT hpackets hfrom' with ⟨hnone', -⟩ | ⟨-, i, hi⟩
    · refine hd.sameMembers h h' hd' (hnone.trans hnone'.symm) fun i => ?_
      rw [firstPayload_of_firstTotal hnone, firstPayload_of_firstTotal hnone']
    · exact absurd ((hset i).mpr hi) (hno i)
  · rcases firstTotal_eq hT hpackets hfrom' with ⟨-, hno'⟩ | ⟨hsome', -⟩
    · exact absurd ((hset i).mp hi) (hno' i)
    · refine hd.sameMembers h h' hd' (hsome.trans hsome'.symm) fun i => ?_
      rw [hd.total, hsome, Option.getD_some]
      apply Option.ext
      intro data
      rw [firstPayload_eq_some_iff hT hpackets hfrom, firstPayload_eq_some_iff hT hpackets hfrom',
        hset]

end OneFile

theorem From.take {packets : List Packet} (h : From packets polls) (n : ℕ) :
    From packets (polls.take n) := fun packet now hmem => h packet now (List.mem_of_mem_take hmem)

/-- Two sequences with the same packets of a file leave the receiver alike while one is
missing, and it leaves its loop in the iteration that takes the last missing one. -/
theorem arrival_order_immaterial {packets : List Packet} (hT : packetCount file.length ≤ 65535)
    (hpackets : packetBuffer (getFileContents file) = some packets)
    (hfrom : From packets polls) (now : ℤ) :
    (∀ polls' now', From packets polls' →
      (∀ i, Arrives packets polls i ↔ Arrives packets polls' i) →
      (∃ i < packets.length, ¬ Arrives packets polls i) →
      ∃ r r', receiverAfter now polls = some r ∧ receiverAfter now' polls' = some r' ∧
        SameMembers r r') ∧
    ∃ bs, receiverLoop (receiverStart now) polls = some bs ∧
      (∀ k, k < bs.length ↔ k < polls.length ∧
        ∀ j < k, ¬ ∀ i < packets.length, Arrives packets (polls.take (j + 1)) i) ∧
      ∀ k b, bs[k]? = some b →
        (b.done = true ↔ ∀ i < packets.length, Arrives packets (polls.take (k + 1)) i) := by
  constructor
  · rintro polls' now' hfrom' hset ⟨i, hi, hmissing⟩
    have hcov : ¬ Covered polls := fun hc =>
      hmissing ((covered_iff hT hpackets hfrom).mp hc i hi)
    have hcov' : ¬ Covered polls' := fun hc =>
      hmissing ((hset i).mpr ((covered_iff hT hpackets hfrom').mp hc i hi))
    obtain ⟨r, hr, hinv, hd⟩ := receiverAfter_spec now hcov
    obtain ⟨r', hr', hinv', hd'⟩ := receiverAfter_spec now' hcov'
    exact ⟨r, r', hr, hr', Delivered.same hT hpackets hfrom hfrom' hset hinv hinv' hd hd'⟩
  · obtain ⟨bs, hbs, hall, hlen⟩ := receiverLoop_reached (receiverStart_receiving now) polls
    simp only [List.nil_append] at hall hlen
    refine ⟨bs, hbs, fun k => ?_, fun k b hk => ?_⟩
    · simp only [hlen, covered_iff hT hpackets (hfrom.take _)]
    · rw [(hall k b hk).done_iff, covered_iff hT hpackets (hfrom.take _)]

theorem arrival_order_immaterial_two :
    ∃ file packets, packetBuffer (getFileContents file) = some packets ∧ packets.length = 2 ∧
      ∃ r r', receiverAfter 0 [.packet (dataPacket file 1) 3, .packet (dataPacket file 1) 8] =
          some r ∧
        receiverAfter 5 [.idle 6, .packet (dataPacket file 1) 7] = some r' ∧ SameMembers r r' := by
  obtain ⟨file, hcount, hne⟩ : ∃ file : List Byte, packetCount file.length = 2 ∧
      dataPacket file 0 ≠ dataPacket file 1 := ⟨List.replicate 123 7, by decide +kernel⟩
  have hT : packetCount file.length ≤ 65535 := by omega
  have hpackets := packetBuffer_eq hT
  rw [hcount] at hpackets
  refine ⟨file, _, hpackets, rfl, ?_⟩
  apply (arrival_order_immaterial hT hpackets _ 0).1 [.idle 6, .packet _ 7] 5
  · simp [From, List.range_succ]
  · intro i
    simp only [Arrives, List.mem_cons, List.not_mem_nil, or_false]
    grind
  · refine ⟨0, by simp, ?_⟩
    simp [Arrives, hne]
  · simp only [From, List.mem_cons, List.not_mem_nil, or_false]
    rintro packet now (h | h)
    all_goals
      obtain ⟨rfl, -⟩ := Poll.packet.inj h
      simp [List.range_succ]

end RdtChallenge
