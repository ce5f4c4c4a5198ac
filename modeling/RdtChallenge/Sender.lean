import RdtChallenge.Packet
import Mathlib.Order.Interval.Finset.Nat

namespace RdtChallenge
open Loops

def window : ℕ := 16
def sackBits : ℕ := 16
def timeoutMs : ℤ := 700

structure SenderState where
  packetBuffer : List Packet
  acked : List Bool
  sentTime : List ℤ
  sendBase : ℕ
  nextSeq : ℕ
  totalPkts : ℕ
deriving DecidableEq

/-- The members after lines 98 to 109. -/
def senderStart (packets : List Packet) : SenderState where
  packetBuffer := packets
  acked := List.replicate packets.length false
  sentTime := List.replicate packets.length 0
  sendBase := 0
  nextSeq := 0
  totalPkts := packets.length

/-- `while (sendBase < ab)`. -/
def advanceBase (ab : ℕ) : SenderState → Option SenderState :=
  whileLoop (fun s => some (s.sendBase < ab))
    (fun s => do
      let acked ← assign s.acked s.sendBase true
      some { s with acked, sendBase := s.sendBase + 1 })
    (ab + 1)

def markBit (ab sm i : ℕ) (s : SenderState) : Option SenderState :=
  if sm.testBit i ∧ ab + i < s.nextSeq ∧ ab + i < s.totalPkts then do
    let acked ← assign s.acked (ab + i) true
    some { s with acked }
  else some s

def markSack (ab sm : ℕ) : SenderState → Option SenderState := forLoop (markBit ab sm) 0 sackBits

/-- What the draining loop does with one packet. -/
def processAck (s : SenderState) (pkt : Packet) : Option SenderState := do
  if ← acceptsAck pkt then
    let ab := word (← pkt[1]?) (← pkt[2]?)
    let sm := word (← pkt[3]?) (← pkt[4]?)
    -- nothing that was never sent is acknowledged
    if ab > s.nextSeq ∨ ab > s.totalPkts then some s
    else markSack ab sm (← advanceBase ab s)
  else some s

/-- The locals of the sending half of an iteration, and the packets sent so far. -/
structure Sending where
  state : SenderState
  inFlight : ℕ
  sent : List Packet

def scanIndex (now : ℤ) (i : ℕ) (b : Sending) : Option Sending := do
  if ← b.state.acked[i]? then some b
  else
    let t ← b.state.sentTime[i]?
    if 0 < t ∧ timeoutMs < now - t then
      let pkt ← b.state.packetBuffer[i]?
      let sentTime ← assign b.state.sentTime i now
      some ⟨{ b.state with sentTime }, b.inFlight + 1, b.sent ++ [pkt]⟩
    else some { b with inFlight := b.inFlight + 1 }

def scan (now : ℤ) (s : SenderState) : Option Sending :=
  forLoop (scanIndex now) s.sendBase (min s.nextSeq s.totalPkts - s.sendBase) ⟨s, 0, []⟩

def sendNext (now : ℤ) (b : Sending) : Option Sending := do
  let pkt ← b.state.packetBuffer[b.state.nextSeq]?
  let sentTime ← assign b.state.sentTime b.state.nextSeq now
  some ⟨{ b.state with sentTime, nextSeq := b.state.nextSeq + 1 }, b.inFlight + 1, b.sent ++ [pkt]⟩

def fill (now : ℤ) (b : Sending) : Option Sending :=
  whileLoop (fun b => some (b.state.nextSeq < b.state.totalPkts ∧ b.inFlight < window))
    (sendNext now) (b.state.totalPkts + 1) b

/-- Lines 144 to 160. -/
def sendPhase (now : ℤ) (s : SenderState) : Option Sending := do fill now (← scan now s)

/-- How an iteration ends: `left` when it breaks out of the loop. -/
structure Iteration where
  state : SenderState
  sent : List Packet
  left : Bool

/-- One iteration at clock reading `now` in which `pkts` arrive. It is `none` if an access is
outside a vector. -/
def senderIteration (s : SenderState) (now : ℤ) (pkts : List Packet) : Option Iteration := do
  let s ← pkts.foldlM processAck s
  if s.sendBase ≥ s.totalPkts then some ⟨s, [], true⟩
  else
    let b ← sendPhase now s
    some ⟨b.state, b.sent, false⟩

namespace SenderState

/-- The vectors have one entry for each packet, and the window lies inside them. -/
structure Sized (s : SenderState) : Prop where
  packetBuffer : s.packetBuffer.length = s.totalPkts
  acked : s.acked.length = s.totalPkts
  sentTime : s.sentTime.length = s.totalPkts
  base_le : s.sendBase ≤ s.nextSeq
  next_le : s.nextSeq ≤ s.totalPkts

def Acked (s : SenderState) (i : ℕ) : Prop := s.acked[i]? = some true

instance (s : SenderState) : DecidablePred s.Acked := fun _ => inferInstanceAs (Decidable (_ = _))

def unacked (s : SenderState) : Finset ℕ :=
  (Finset.Ico s.sendBase s.nextSeq).filter fun i => ¬ s.Acked i

/-- The test of the scan: no acknowledgement, sent, and longer ago than the timeout. -/
def due (s : SenderState) (now : ℤ) (i : ℕ) : Bool :=
  s.acked[i]? == some false && s.sentTime[i]?.any fun t => 0 < t && timeoutMs < now - t

def resent (s : SenderState) (now : ℤ) : List ℕ :=
  (List.range' s.sendBase (s.nextSeq - s.sendBase)).filter (s.due now)

def refill (s : SenderState) : ℕ := min (s.totalPkts - s.nextSeq) (window - s.unacked.card)

def packet (s : SenderState) (i : ℕ) : Packet := s.packetBuffer[i]?.getD []

end SenderState

theorem senderStart_sized (packets : List Packet) : (senderStart packets).Sized := by
  constructor <;> simp [senderStart]

theorem getElem?_set_eq_some_true {v : List Bool} {i j : ℕ} (h : i < v.length) :
    (v.set i true)[j]? = some true ↔ v[j]? = some true ∨ j = i := by
  rw [List.getElem?_set]
  split_ifs with hij
  · simp [hij]
  · simp [Ne.symm hij]

variable {s : SenderState}

/-- The loop over the base under way: everything it has passed is acknowledged. -/
def Advancing (s : SenderState) (ab : ℕ) (t : SenderState) : Prop :=
  ∃ v b, t = { s with acked := v, sendBase := b } ∧ v.length = s.totalPkts ∧
    s.sendBase ≤ b ∧ b ≤ max s.sendBase ab ∧
    ∀ i, v[i]? = some true ↔ s.Acked i ∨ s.sendBase ≤ i ∧ i < b

theorem Advancing.round {ab : ℕ} (hab : ab ≤ s.totalPkts) {t : SenderState}
    (h : Advancing s ab t) (hlt : t.sendBase < ab) :
    ∃ v, assign t.acked t.sendBase true = some v ∧
      Advancing s ab { t with acked := v, sendBase := t.sendBase + 1 } := by
  obtain ⟨v, b, rfl, hlen, hb, hle, hv⟩ := h
  have hin : b < v.length := hlen.symm ▸ hlt.trans_le hab
  refine ⟨v.set b true, assign_eq_some true hin, v.set b true, b + 1, rfl, ?_, ?_, ?_, ?_⟩
  · simpa using hlen
  · omega
  · dsimp only at hlt
    omega
  · intro i
    rw [getElem?_set_eq_some_true hin, hv]
    constructor
    · rintro ((hi | hi) | rfl)
      · exact Or.inl hi
      · exact Or.inr (by omega)
      · exact Or.inr (by omega)
    · rintro (hi | hi)
      · exact Or.inl (Or.inl hi)
      · by_cases hib : i = b
        · exact Or.inr hib
        · exact Or.inl (Or.inr (by omega))

theorem advanceBase_spec (h : s.Sized) {ab : ℕ} (hab : ab ≤ s.totalPkts) :
    ∃ v, advanceBase ab s = some { s with acked := v, sendBase := max s.sendBase ab } ∧
      v.length = s.totalPkts ∧
      ∀ i, v[i]? = some true ↔ s.Acked i ∨ s.sendBase ≤ i ∧ i < ab := by
  have hloop : ∃ t, advanceBase ab s = some t ∧ Advancing s ab t ∧
      some (decide (t.sendBase < ab)) = some false := by
    apply whileLoop_spec (Advancing s ab) (fun t => ab - t.sendBase)
    · intro t ht
      by_cases hlt : t.sendBase < ab
      · obtain ⟨v, hv, hnext⟩ := ht.round hab hlt
        refine Or.inr ⟨by simp [hlt], { t with acked := v, sendBase := t.sendBase + 1 }, ?_,
          hnext, ?_⟩
        · simp [hv]
        · dsimp only
          omega
      · exact Or.inl (by simp [hlt])
    · exact ⟨s.acked, s.sendBase, rfl, h.acked, le_rfl, le_max_left _ _, fun i =>
        ⟨Or.inl, fun hi => hi.resolve_right (by omega)⟩⟩
    · omega
  obtain ⟨t, hrun, ⟨v, b, rfl, hlen, hb, hle, hv⟩, hdone⟩ := hloop
  -- the loop ends at `ab`, or where it started when the base is already past it
  have hdone' : ¬ b < ab := by simpa using hdone
  obtain rfl : b = max s.sendBase ab := by omega
  refine ⟨v, hrun, hlen, fun i => ?_⟩
  rw [hv]
  exact or_congr_right ⟨fun hi => ⟨hi.1, by omega⟩, fun hi => ⟨hi.1, by omega⟩⟩

def Marked (s : SenderState) (ab sm k : ℕ) (t : SenderState) : Prop :=
  ∃ v, t = { s with acked := v } ∧ v.length = s.totalPkts ∧
    ∀ i, v[i]? = some true ↔ s.Acked i ∨ ∃ j < k, sm.testBit j ∧ i = ab + j ∧ i < s.nextSeq

theorem Marked.round (h : s.Sized) {ab sm k : ℕ} {t : SenderState} (ht : Marked s ab sm k t) :
    ∃ t', markBit ab sm k t = some t' ∧ Marked s ab sm (k + 1) t' := by
  obtain ⟨v, rfl, hlen, hv⟩ := ht
  have hnext := h.next_le
  by_cases hc : sm.testBit k ∧ ab + k < s.nextSeq ∧ ab + k < s.totalPkts
  · have hin : ab + k < v.length := hlen.symm ▸ hc.2.2
    refine ⟨{ s with acked := v.set (ab + k) true }, ?_, v.set (ab + k) true, rfl, ?_, ?_⟩
    · simp [markBit, hc, assign_eq_some true hin]
    · simpa using hlen
    · intro i
      rw [getElem?_set_eq_some_true hin, hv]
      constructor
      · rintro ((hi | ⟨j, hj, hi⟩) | rfl)
        · exact Or.inl hi
        · exact Or.inr ⟨j, by omega, hi⟩
        · exact Or.inr ⟨k, by omega, hc.1, rfl, hc.2.1⟩
      · rintro (hi | ⟨j, hj, hbit, rfl, hi⟩)
        · exact Or.inl (Or.inl hi)
        · rcases Nat.lt_succ_iff_lt_or_eq.mp hj with hj | rfl
          · exact Or.inl (Or.inr ⟨j, hj, hbit, rfl, hi⟩)
          · exact Or.inr rfl
  · -- the bit is not set, or it names a packet that has not been sent
    refine ⟨{ s with acked := v }, by simp [markBit, hc], v, rfl, hlen, fun i => ?_⟩
    rw [hv]
    refine or_congr_right ⟨fun ⟨j, hj, hi⟩ => ⟨j, by omega, hi⟩, ?_⟩
    rintro ⟨j, hj, hbit, rfl, hi⟩
    rcases Nat.lt_succ_iff_lt_or_eq.mp hj with hj | rfl
    · exact ⟨j, hj, hbit, rfl, hi⟩
    · exact absurd ⟨hbit, hi, by omega⟩ hc

theorem markSack_spec (h : s.Sized) (ab sm : ℕ) :
    ∃ v, markSack ab sm s = some { s with acked := v } ∧ v.length = s.totalPkts ∧
      ∀ i, v[i]? = some true ↔
        s.Acked i ∨ ∃ j < sackBits, sm.testBit j ∧ i = ab + j ∧ i < s.nextSeq := by
  have hloop : ∃ t, markSack ab sm s = some t ∧ Marked s ab sm (0 + sackBits) t := by
    apply forLoop_spec (Marked s ab sm)
    · exact ⟨s.acked, rfl, h.acked, fun i => ⟨Or.inl, fun hi => hi.resolve_right (by simp)⟩⟩
    · exact fun k t _ _ ht => ht.round h
  obtain ⟨t, hrun, v, rfl, hlen, hv⟩ := hloop
  exact ⟨v, hrun, hlen, by simpa using hv⟩

theorem processAck_reject (hpkt : ∀ ab sm, decode typeAck pkt = some (ab, sm) →
    s.nextSeq < ab ∨ s.totalPkts < ab) : processAck s pkt = some s := by
  rw [processAck, acceptsAck_eq]
  cases hd : decode typeAck pkt with
  | none => rfl
  | some r =>
    obtain ⟨t, a, b, c, d, e, rest, rfl, hab, hsm⟩ := exists_of_decode hd
    have := hpkt r.1 r.2 hd
    rw [← hab] at this
    simp [this]

theorem processAck_eq {pkt : Packet} {ab sm : ℕ} (h : s.Sized)
    (hpkt : decode typeAck pkt = some (ab, sm)) (hab : ab ≤ s.nextSeq) :
    processAck s pkt = (advanceBase ab s).bind (markSack ab sm) := by
  obtain ⟨t, a, b, c, d, e, rest, rfl, rfl, rfl⟩ := exists_of_decode hpkt
  have hguard : ¬ (word a b > s.nextSeq ∨ word a b > s.totalPkts) := by
    have := h.next_le
    omega
  simp [processAck, acceptsAck_eq, hpkt, hguard]

/-- The effect of an acknowledgement that passes the guard. -/
theorem processAck_accept (h : s.Sized) {pkt : Packet} {ab sm : ℕ}
    (hpkt : decode typeAck pkt = some (ab, sm)) (hab : ab ≤ s.nextSeq) :
    ∃ v, processAck s pkt = some { s with acked := v, sendBase := max s.sendBase ab } ∧
      v.length = s.totalPkts ∧
      ∀ i, v[i]? = some true ↔ s.Acked i ∨ s.sendBase ≤ i ∧ i < ab ∨
        ∃ j < sackBits, sm.testBit j ∧ i = ab + j ∧ i < s.nextSeq := by
  obtain ⟨v, hrun, hlen, hv⟩ := advanceBase_spec h (hab.trans h.next_le)
  have hsized : SenderState.Sized { s with acked := v, sendBase := max s.sendBase ab } :=
    ⟨h.packetBuffer, hlen, h.sentTime, max_le h.base_le hab, h.next_le⟩
  obtain ⟨v', hrun', hlen', hv'⟩ := markSack_spec hsized ab sm
  refine ⟨v', ?_, hlen', fun i => ?_⟩
  · rw [processAck_eq h hpkt hab, hrun, Option.bind_some, hrun']
  · rw [hv', SenderState.Acked, hv, or_assoc]

end RdtChallenge
