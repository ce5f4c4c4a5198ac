import RdtChallenge.Sender

namespace RdtChallenge
open Loops

def ackKeepaliveMs : ℤ := 150

structure ReceiverState where
  expectedTotal : ℕ
  recvExpected : ℕ
  recvBuffer : List (List Value)
  received : List Bool
  lastRecvTime : ℤ
  lastAck : Packet
deriving DecidableEq

def receiverStart (now : ℤ) : ReceiverState := ⟨0, 0, [], [], now, []⟩

def resize {α : Type} (v : List α) (n : ℕ) (x : α) : List α :=
  v.take n ++ List.replicate (n - v.length) x

def announce (total : ℕ) (r : ReceiverState) : ReceiverState :=
  if r.expectedTotal = 0 then
    { r with
      expectedTotal := total
      recvBuffer := resize r.recvBuffer total []
      received := resize r.received total false }
  else r

def store (seq : ℕ) (packet : Packet) (r : ReceiverState) : Option ReceiverState :=
  if seq < r.expectedTotal then do
    if ← r.received[seq]? then some r
    else
      let recvBuffer ← assign r.recvBuffer seq (packet.drop dataHeader)
      let received ← assign r.received seq true
      some { r with recvBuffer, received }
  else some r

/-- `while (recvExpected < expectedTotal && received[recvExpected])`. -/
def advance (r : ReceiverState) : Option ReceiverState :=
  whileLoop
    (fun r => if r.recvExpected < r.expectedTotal then r.received[r.recvExpected]? else some false)
    (fun r => some { r with recvExpected := r.recvExpected + 1 })
    (r.expectedTotal + 1) r

def sackBit (r : ReceiverState) (i : ℕ) (mask : BitVec 16) : Option (BitVec 16) :=
  if r.recvExpected + i < r.expectedTotal then do
    if ← r.received[r.recvExpected + i]? then some (mask ||| 1#16 <<< i) else some mask
  else some mask

def sackMask (r : ReceiverState) : Option (BitVec 16) := forLoop (sackBit r) 0 sackBits 0

/-- The end of an iteration: `done` when it breaks out of the loop. -/
structure Reception where
  state : ReceiverState
  sent : List Packet
  done : Bool

/-- The iteration that takes `packet`, with `now` read after the acknowledgement. It is `none`
if an access is outside a vector. -/
def receiveData (r : ReceiverState) (packet : Packet) (now : ℤ) : Option Reception := do
  if ← acceptsData packet then
    let seq ← parseSeq packet
    let total ← parseTotalPkts packet
    let r := announce total r
    -- a packet of another total is dropped without an answer
    if total ≠ r.expectedTotal then some ⟨r, [], false⟩
    else
      let r ← advance (← store seq packet r)
      let ack := buildAckPacket r.recvExpected (← sackMask r)
      some ⟨{ r with lastAck := ack, lastRecvTime := now }, [ack],
        r.recvExpected ≥ r.expectedTotal⟩
  else some ⟨r, [], false⟩

/-- The iteration that finds no packet. -/
def keepAlive (r : ReceiverState) (now : ℤ) : Reception :=
  if r.lastAck ≠ [] ∧ now - r.lastRecvTime > ackKeepaliveMs then
    ⟨{ r with lastRecvTime := now }, [r.lastAck], false⟩
  else ⟨r, [], false⟩

/-- Lines 238 to 246. -/
def reassemble (r : ReceiverState) : Option (List Value) := do
  let parts ← (List.range r.expectedTotal).mapM fun i => r.recvBuffer[i]?
  some parts.flatten

namespace ReceiverState

structure Sized (r : ReceiverState) : Prop where
  recvBuffer : r.recvBuffer.length = r.expectedTotal
  received : r.received.length = r.expectedTotal

def Held (r : ReceiverState) (i : ℕ) : Prop := r.received[i]? = some true

instance (r : ReceiverState) : DecidablePred r.Held := fun _ => inferInstanceAs (Decidable (_ = _))

/-- `recvExpected` is the least index that is missing, or the total. -/
structure Least (r : ReceiverState) : Prop where
  le : r.recvExpected ≤ r.expectedTotal
  below : ∀ i < r.recvExpected, r.Held i
  missing : ¬ r.Held r.recvExpected

def Masked (r : ReceiverState) (mask : BitVec 16) : Prop :=
  ∀ j < sackBits, mask.getLsbD j = true ↔ r.Held (r.recvExpected + j)

end ReceiverState

variable {r : ReceiverState}

theorem ReceiverState.Held.lt {i : ℕ} (h : r.Sized) (hi : r.Held i) : i < r.expectedTotal :=
  h.received ▸ (List.getElem?_eq_some_iff.mp hi).1

theorem ReceiverState.getElem?_received {i : ℕ} (h : r.Sized) (hi : i < r.expectedTotal) :
    r.received[i]? = some (decide (r.Held i)) := by
  obtain ⟨b, hb⟩ : ∃ b, r.received[i]? = some b :=
    ⟨_, List.getElem?_eq_getElem (h.received ▸ hi)⟩
  have hheld : r.Held i ↔ b = true := by simp [ReceiverState.Held, hb]
  simp [hb, hheld]

theorem receiverStart_sized (now : ℤ) : (receiverStart now).Sized := ⟨rfl, rfl⟩

theorem receiverStart_least (now : ℤ) : (receiverStart now).Least :=
  ⟨le_rfl, fun i hi => absurd hi (Nat.not_lt_zero i), by simp [ReceiverState.Held, receiverStart]⟩

theorem announce_of_pos {total : ℕ} (h : r.expectedTotal ≠ 0) : announce total r = r := if_neg h

theorem announce_of_zero {total : ℕ} (hs : r.Sized) (h : r.expectedTotal = 0) :
    announce total r = { r with
      expectedTotal := total
      recvBuffer := List.replicate total []
      received := List.replicate total false } := by
  have hbuf : r.recvBuffer = [] := List.eq_nil_of_length_eq_zero (hs.recvBuffer.trans h)
  have hrec : r.received = [] := List.eq_nil_of_length_eq_zero (hs.received.trans h)
  simp [announce, h, resize, hbuf, hrec]

theorem announce_recvExpected (total : ℕ) : (announce total r).recvExpected = r.recvExpected := by
  unfold announce
  split_ifs <;> rfl

theorem announce_expectedTotal (hs : r.Sized) {total : ℕ}
    (ht : r.expectedTotal = 0 ∨ total = r.expectedTotal) :
    (announce total r).expectedTotal = total := by
  by_cases h0 : r.expectedTotal = 0
  · rw [announce_of_zero hs h0]
  · rw [announce_of_pos h0, ht.resolve_left h0]

theorem announce_sized (h : r.Sized) (total : ℕ) : (announce total r).Sized := by
  by_cases h0 : r.expectedTotal = 0
  · rw [announce_of_zero h h0]
    exact ⟨List.length_replicate, List.length_replicate⟩
  · rwa [announce_of_pos h0]

theorem announce_held (h : r.Sized) (total i : ℕ) : (announce total r).Held i ↔ r.Held i := by
  by_cases h0 : r.expectedTotal = 0
  · have hnot : ¬ r.Held i := fun hi => by have := hi.lt h; omega
    rw [announce_of_zero h h0]
    simp [ReceiverState.Held, List.getElem?_replicate] at hnot ⊢
    exact hnot
  · rw [announce_of_pos h0]

theorem announce_least (h : r.Sized) (hl : r.Least) (total : ℕ) : (announce total r).Least := by
  by_cases h0 : r.expectedTotal = 0
  · have hzero : r.recvExpected = 0 := by have := hl.le; omega
    refine ⟨?_, fun i hi => (announce_held h total i).mpr ?_, ?_⟩
    · rw [announce_of_zero h h0]
      simp [hzero]
    · rw [announce_of_zero h h0] at hi
      exact hl.below i hi
    · rw [announce_held h]
      rw [announce_of_zero h h0]
      exact hl.missing
  · rwa [announce_of_pos h0]

theorem store_spec (h : r.Sized) (seq : ℕ) (packet : Packet) :
    ∃ b v, store seq packet r = some { r with recvBuffer := b, received := v } ∧
      b.length = r.expectedTotal ∧ v.length = r.expectedTotal ∧
      (∀ i, v[i]? = some true ↔ r.Held i ∨ i = seq ∧ i < r.expectedTotal) ∧
      ∀ i, b[i]? = if i = seq ∧ i < r.expectedTotal ∧ ¬ r.Held i
        then some (packet.drop dataHeader) else r.recvBuffer[i]? := by
  by_cases hseq : seq < r.expectedTotal
  · by_cases hheld : r.Held seq
    · refine ⟨r.recvBuffer, r.received, ?_, h.recvBuffer, h.received, fun i => ?_, fun i => ?_⟩
      · simp [store, hseq, ReceiverState.getElem?_received h hseq, hheld]
      · refine ⟨Or.inl, fun hi => hi.elim id ?_⟩
        rintro ⟨rfl, -⟩
        exact hheld
      · rw [if_neg]
        rintro ⟨rfl, -, hnot⟩
        exact hnot hheld
    · have hbuf : seq < r.recvBuffer.length := h.recvBuffer ▸ hseq
      have hrec : seq < r.received.length := h.received ▸ hseq
      refine ⟨r.recvBuffer.set seq (packet.drop dataHeader), r.received.set seq true, ?_,
        by simpa using h.recvBuffer, by simpa using h.received, fun i => ?_, fun i => ?_⟩
      · simp [store, hseq, ReceiverState.getElem?_received h hseq, hheld,
          assign_eq_some _ hbuf, assign_eq_some _ hrec]
      · rw [getElem?_set_eq_some_true hrec]
        exact or_congr_right ⟨fun hi => ⟨hi, hi ▸ hseq⟩, And.left⟩
      · rw [List.getElem?_set]
        by_cases hi : i = seq
        · subst hi
          simp [hseq, hheld, hbuf]
        · simp [hi, Ne.symm hi]
  · refine ⟨r.recvBuffer, r.received, by simp [store, hseq], h.recvBuffer, h.received,
      fun i => ?_, fun i => ?_⟩
    · refine ⟨Or.inl, fun hi => hi.resolve_right ?_⟩
      omega
    · rw [if_neg (by omega)]

/-- The loop over `recvExpected` under way: everything it has passed is held. -/
def Passing (r t : ReceiverState) : Prop :=
  ∃ k, t = { r with recvExpected := k } ∧ r.recvExpected ≤ k ∧ k ≤ r.expectedTotal ∧
    ∀ i < k, r.Held i

theorem Passing.round (h : r.Sized) {t : ReceiverState} (ht : Passing r t)
    (hh : r.Held t.recvExpected) : Passing r { t with recvExpected := t.recvExpected + 1 } := by
  obtain ⟨k, rfl, hk, hkT, hheld⟩ := ht
  refine ⟨k + 1, rfl, by omega, hh.lt h, fun i hi => ?_⟩
  rcases Nat.lt_succ_iff_lt_or_eq.mp hi with hi | rfl
  · exact hheld i hi
  · exact hh

theorem Passing.test (h : r.Sized) {t : ReceiverState} (ht : Passing r t) :
    (if t.recvExpected < t.expectedTotal then t.received[t.recvExpected]? else some false) =
      some (decide (r.Held t.recvExpected)) := by
  obtain ⟨k, rfl, hk, hkT, hheld⟩ := ht
  by_cases hlt : k < r.expectedTotal
  · simp [hlt, ReceiverState.getElem?_received h hlt]
  · have hnot : ¬ r.Held k := fun hh => hlt (hh.lt h)
    simp [hlt, hnot]

theorem advance_spec (h : r.Sized) (hle : r.recvExpected ≤ r.expectedTotal)
    (hbelow : ∀ i < r.recvExpected, r.Held i) :
    ∃ k, advance r = some { r with recvExpected := k } ∧ r.recvExpected ≤ k ∧
      ReceiverState.Least { r with recvExpected := k } := by
  have hloop : ∃ t, advance r = some t ∧ Passing r t ∧ (if t.recvExpected < t.expectedTotal then
      t.received[t.recvExpected]? else some false) = some false := by
    apply whileLoop_spec (Passing r) (fun t => t.expectedTotal - t.recvExpected)
    · intro t ht
      rw [ht.test h]
      by_cases hh : r.Held t.recvExpected
      · refine Or.inr ⟨by simp [hh], _, rfl, ht.round h hh, ?_⟩
        obtain ⟨k, rfl, -, hkT, -⟩ := ht
        have hlt := hh.lt h
        dsimp only at hlt ⊢
        omega
      · exact Or.inl (by simp [hh])
    · exact ⟨r.recvExpected, rfl, le_rfl, hle, hbelow⟩
    · omega
  obtain ⟨t, hrun, ht, hdone⟩ := hloop
  rw [ht.test h] at hdone
  obtain ⟨k, rfl, hk, hkT, hheld⟩ := ht
  exact ⟨k, hrun, hk, hkT, hheld, of_decide_eq_false (Option.some.inj hdone)⟩

def MaskedBelow (r : ReceiverState) (k : ℕ) (mask : BitVec 16) : Prop :=
  ∀ j < sackBits, mask.getLsbD j = true ↔ j < k ∧ r.Held (r.recvExpected + j)

theorem getLsbD_one_shiftLeft {j k : ℕ} (hj : j < sackBits) :
    (1#16 <<< k).getLsbD j = decide (j = k) := by
  unfold sackBits at hj
  rw [BitVec.getLsbD_shiftLeft, BitVec.getLsbD_one]
  by_cases hjk : j = k
  · simp [hjk, hjk ▸ hj]
  · simp [hjk]
    omega

theorem MaskedBelow.round (h : r.Sized) {k : ℕ} {mask : BitVec 16} (hI : MaskedBelow r k mask) :
    ∃ mask', sackBit r k mask = some mask' ∧ MaskedBelow r (k + 1) mask' := by
  by_cases hh : r.Held (r.recvExpected + k)
  · refine ⟨mask ||| 1#16 <<< k, ?_, fun j hj => ?_⟩
    · simp [sackBit, hh.lt h, ReceiverState.getElem?_received h (hh.lt h), hh]
    · rw [BitVec.getLsbD_or, Bool.or_eq_true, hI j hj, getLsbD_one_shiftLeft hj, decide_eq_true_eq]
      constructor
      · rintro (⟨hlt, hheld⟩ | rfl)
        · exact ⟨by omega, hheld⟩
        · exact ⟨by omega, hh⟩
      · rintro ⟨hlt, hheld⟩
        by_cases hjk : j = k
        · exact Or.inr hjk
        · exact Or.inl ⟨by omega, hheld⟩
  · -- past the total, or missing: the mask stays as it is
    refine ⟨mask, ?_, fun j hj => ?_⟩
    · by_cases hlt : r.recvExpected + k < r.expectedTotal
      · simp [sackBit, hlt, ReceiverState.getElem?_received h hlt, hh]
      · simp [sackBit, hlt]
    · rw [hI j hj]
      refine and_congr_left fun hheld => ⟨fun hlt => by omega, fun hlt => ?_⟩
      rcases Nat.lt_succ_iff_lt_or_eq.mp hlt with hlt | rfl
      · exact hlt
      · exact absurd hheld hh

theorem sackMask_spec (h : r.Sized) : ∃ mask, sackMask r = some mask ∧ r.Masked mask := by
  have hloop : ∃ mask, sackMask r = some mask ∧ MaskedBelow r (0 + sackBits) mask := by
    apply forLoop_spec (MaskedBelow r)
    · intro j _
      simp
    · exact fun k mask _ _ hI => hI.round h
  obtain ⟨mask, hrun, hI⟩ := hloop
  refine ⟨mask, hrun, fun j hj => ?_⟩
  rw [hI j hj]
  simp
  omega

end RdtChallenge
