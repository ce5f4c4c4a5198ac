import RdtChallenge.Sender

namespace RdtChallenge
open Loops

variable {s : SenderState}

namespace SenderState

/-- The sent times after a transmission at `now` of the indices that satisfy `p`. -/
def Stamped (s : SenderState) (now : ℤ) (p : ℕ → Prop) [DecidablePred p] (ts : List ℤ) : Prop :=
  ts.length = s.totalPkts ∧ ∀ i, ts[i]? = if p i then some now else s.sentTime[i]?

theorem Acked.lt {i : ℕ} (h : s.Sized) (hi : s.Acked i) : i < s.totalPkts :=
  h.acked ▸ (List.getElem?_eq_some_iff.mp hi).1

theorem getElem?_acked {i : ℕ} (h : s.Sized) (hi : i < s.totalPkts) :
    s.acked[i]? = some (decide (s.Acked i)) := by
  obtain ⟨b, hb⟩ : ∃ b, s.acked[i]? = some b :=
    ⟨_, List.getElem?_eq_getElem (h.acked ▸ hi)⟩
  have hacked : s.Acked i ↔ b = true := by simp [Acked, hb]
  simp [hb, hacked]

theorem getElem?_packetBuffer {i : ℕ} (h : s.Sized) (hi : i < s.totalPkts) :
    s.packetBuffer[i]? = some (s.packet i) := by
  rw [packet, List.getElem?_eq_getElem (h.packetBuffer ▸ hi), Option.getD_some]

def unackedBelow (s : SenderState) (k : ℕ) : Finset ℕ :=
  (Finset.Ico s.sendBase k).filter fun i => ¬ s.Acked i

theorem card_unackedBelow_succ {k : ℕ} (hk : s.sendBase ≤ k) :
    (s.unackedBelow (k + 1)).card = (s.unackedBelow k).card + if s.Acked k then 0 else 1 := by
  rw [unackedBelow, Nat.Ico_succ_right_eq_insert_Ico hk, Finset.filter_insert]
  split_ifs with h
  · rfl
  · rw [Finset.card_insert_of_notMem (by simp), unackedBelow]

def dueBelow (s : SenderState) (now : ℤ) (k : ℕ) : List ℕ :=
  (List.range' s.sendBase (k - s.sendBase)).filter (s.due now)

theorem dueBelow_succ (now : ℤ) {k : ℕ} (hk : s.sendBase ≤ k) :
    s.dueBelow now (k + 1) = s.dueBelow now k ++ if s.due now k then [k] else [] := by
  have hlen : k + 1 - s.sendBase = k - s.sendBase + 1 := by omega
  have hidx : s.sendBase + (k - s.sendBase) = k := by omega
  rw [dueBelow, hlen, List.range'_1_concat, List.filter_append, hidx, ← dueBelow]
  congr 1
  by_cases h : s.due now k <;> simp [h]

theorem due_eq {now t : ℤ} {k : ℕ} (h : s.Sized) (hk : k < s.totalPkts)
    (ht : s.sentTime[k]? = some t) :
    s.due now k = true ↔ ¬ s.Acked k ∧ 0 < t ∧ timeoutMs < now - t := by
  simp [due, ht, getElem?_acked h hk]

end SenderState

theorem getElem?_set_stamp {ts : List ℤ} {k : ℕ} (hk : k < ts.length) (now : ℤ) (i : ℕ) :
    (ts.set k now)[i]? = if i = k then some now else ts[i]? := by
  rw [List.getElem?_set]
  by_cases h : i = k
  · simp [h, hk]
  · simp [h, Ne.symm h]

def Scanned (s : SenderState) (now : ℤ) (k : ℕ) (b : Sending) : Prop :=
  ∃ ts, b = ⟨{ s with sentTime := ts }, (s.unackedBelow k).card, (s.dueBelow now k).map s.packet⟩ ∧
    s.Stamped now (· ∈ s.dueBelow now k) ts

theorem Scanned.skip {now : ℤ} {k n : ℕ} {ts : List ℤ} (hk : s.sendBase ≤ k)
    (hts : s.Stamped now (· ∈ s.dueBelow now k) ts) (hdue : s.due now k = false)
    (hn : n = (s.unackedBelow k).card + if s.Acked k then 0 else 1) :
    Scanned s now (k + 1) ⟨{ s with sentTime := ts }, n, (s.dueBelow now k).map s.packet⟩ := by
  refine ⟨ts, ?_, ?_⟩
  · rw [SenderState.card_unackedBelow_succ hk, SenderState.dueBelow_succ now hk, hn]
    simp [hdue]
  · rw [SenderState.dueBelow_succ now hk]
    simpa [hdue] using hts

theorem Scanned.resend {now : ℤ} {k : ℕ} {ts : List ℤ} (hk : s.sendBase ≤ k) (hkT : k < s.totalPkts)
    (hts : s.Stamped now (· ∈ s.dueBelow now k) ts) (hdue : s.due now k = true)
    (hack : ¬ s.Acked k) :
    Scanned s now (k + 1) ⟨{ s with sentTime := ts.set k now }, (s.unackedBelow k).card + 1,
      (s.dueBelow now k).map s.packet ++ [s.packet k]⟩ := by
  obtain ⟨hlen, hts⟩ := hts
  refine ⟨ts.set k now, ?_, ?_, ?_⟩
  · rw [SenderState.card_unackedBelow_succ hk, SenderState.dueBelow_succ now hk]
    simp [hack, hdue]
  · simpa using hlen
  · intro i
    rw [getElem?_set_stamp (hlen.symm ▸ hkT), hts, SenderState.dueBelow_succ now hk]
    by_cases hik : i = k <;> simp [hdue, hik]

theorem Scanned.round (h : s.Sized) {now : ℤ} {k : ℕ} {b : Sending} (hk : s.sendBase ≤ k)
    (hlt : k < s.nextSeq) (hb : Scanned s now k b) :
    ∃ b', scanIndex now k b = some b' ∧ Scanned s now (k + 1) b' := by
  obtain ⟨ts, rfl, hts⟩ := hb
  have hkT : k < s.totalPkts := hlt.trans_le h.next_le
  have hread := SenderState.getElem?_acked h hkT
  obtain ⟨t, ht⟩ : ∃ t, s.sentTime[k]? = some t := ⟨_, List.getElem?_eq_getElem (h.sentTime ▸ hkT)⟩
  -- the scan has not stamped its own index yet
  have hnot : k ∉ s.dueBelow now k := by
    simp only [SenderState.dueBelow, List.mem_filter, List.mem_range'_1]
    omega
  have htk : ts[k]? = some t := by rw [hts.2, if_neg hnot, ht]
  have hdue : s.due now k = true ↔ ¬ s.Acked k ∧ 0 < t ∧ timeoutMs < now - t :=
    SenderState.due_eq h hkT ht
  by_cases hack : s.Acked k
  · refine ⟨⟨{ s with sentTime := ts }, _, _⟩, ?_, Scanned.skip hk hts ?_ rfl⟩
    · simp [scanIndex, hread, hack]
    · simp [← Bool.not_eq_true, hdue, hack]
  · by_cases hc : 0 < t ∧ timeoutMs < now - t
    · refine ⟨_, ?_, Scanned.resend hk hkT hts (hdue.mpr ⟨hack, hc⟩) hack⟩
      simp [scanIndex, hread, hack, htk, hc, SenderState.getElem?_packetBuffer h hkT,
        assign_eq_some now (hts.1.symm ▸ hkT)]
    · refine ⟨⟨{ s with sentTime := ts }, _, _⟩, ?_, Scanned.skip hk hts ?_ rfl⟩
      · simp [scanIndex, hread, hack, htk, hc]
      · simpa [← Bool.not_eq_true, hdue, hack] using hc

theorem scan_spec (h : s.Sized) (now : ℤ) :
    ∃ ts, scan now s =
        some ⟨{ s with sentTime := ts }, s.unacked.card, (s.resent now).map s.packet⟩ ∧
      s.Stamped now (· ∈ s.resent now) ts := by
  have hbase := h.base_le
  have hloop : ∃ b, scan now s = some b ∧
      Scanned s now (s.sendBase + (s.nextSeq - s.sendBase)) b := by
    unfold scan
    rw [min_eq_left h.next_le]
    apply forLoop_spec (Scanned s now)
    · exact ⟨s.sentTime, by simp [SenderState.unackedBelow, SenderState.dueBelow], h.sentTime,
        by simp [SenderState.dueBelow]⟩
    · intro k b hk hlt hb
      exact hb.round h hk (by omega)
  obtain ⟨b, hrun, hb⟩ := hloop
  rw [Nat.add_sub_cancel' hbase] at hb
  obtain ⟨ts, rfl, hts⟩ := hb
  exact ⟨ts, hrun, hts⟩

def Filled (s : SenderState) (now : ℤ) (n : ℕ) (out : List Packet) (k : ℕ) (b : Sending) : Prop :=
  ∃ ts j, j ≤ k ∧ b = ⟨{ s with sentTime := ts, nextSeq := s.nextSeq + j }, n + j,
      out ++ (List.range' s.nextSeq j).map s.packet⟩ ∧
    s.Stamped now (fun i => s.nextSeq ≤ i ∧ i < s.nextSeq + j) ts

theorem Filled.round (h : s.Sized) {now : ℤ} {n : ℕ} {out : List Packet} {b : Sending}
    (hb : Filled s now n out (min (s.totalPkts - s.nextSeq) (window - n)) b)
    (hc : b.state.nextSeq < b.state.totalPkts ∧ b.inFlight < window) :
    ∃ b', sendNext now b = some b' ∧
      Filled s now n out (min (s.totalPkts - s.nextSeq) (window - n)) b' ∧
      b'.state.totalPkts - b'.state.nextSeq < b.state.totalPkts - b.state.nextSeq := by
  obtain ⟨ts, j, hj, rfl, hlen, hts⟩ := hb
  dsimp only at hc
  have hin : s.nextSeq + j < ts.length := hlen.symm ▸ hc.1
  refine ⟨⟨{ s with
      sentTime := ts.set (s.nextSeq + j) now, nextSeq := s.nextSeq + (j + 1) }, n + (j + 1),
      out ++ (List.range' s.nextSeq (j + 1)).map s.packet⟩, ?_, ?_, ?_⟩
  · simp [sendNext, SenderState.getElem?_packetBuffer h hc.1, List.range'_1_concat,
      assign_eq_some now hin, Nat.add_assoc]
  · refine ⟨ts.set (s.nextSeq + j) now, j + 1, by omega, rfl, by simpa using hlen, fun i => ?_⟩
    rw [getElem?_set_stamp hin, hts]
    split_ifs <;> first | rfl | omega
  · dsimp only
    omega

theorem fill_spec (h : s.Sized) (now : ℤ) (n : ℕ) (out : List Packet) :
    ∃ ts, fill now ⟨s, n, out⟩ =
        some ⟨{ s with
            sentTime := ts, nextSeq := s.nextSeq + min (s.totalPkts - s.nextSeq) (window - n) },
          n + min (s.totalPkts - s.nextSeq) (window - n),
          out ++ (List.range' s.nextSeq
            (min (s.totalPkts - s.nextSeq) (window - n))).map s.packet⟩ ∧
      s.Stamped now (fun i => s.nextSeq ≤ i ∧
        i < s.nextSeq + min (s.totalPkts - s.nextSeq) (window - n)) ts := by
  have hnext := h.next_le
  have hloop : ∃ b, fill now ⟨s, n, out⟩ = some b ∧
      Filled s now n out (min (s.totalPkts - s.nextSeq) (window - n)) b ∧
      some (decide (b.state.nextSeq < b.state.totalPkts ∧ b.inFlight < window)) = some false := by
    apply whileLoop_spec (Filled s now n out (min (s.totalPkts - s.nextSeq) (window - n)))
      (fun b => b.state.totalPkts - b.state.nextSeq)
    · intro b hb
      by_cases hc : b.state.nextSeq < b.state.totalPkts ∧ b.inFlight < window
      · exact Or.inr ⟨by simpa using hc, hb.round h hc⟩
      · exact Or.inl (by simpa using hc)
    · refine ⟨s.sentTime, 0, Nat.zero_le _, by simp, h.sentTime, fun i => ?_⟩
      rw [if_neg (by omega)]
    · dsimp only
      omega
  obtain ⟨b, hrun, ⟨ts, j, hj, rfl, hts⟩, hdone⟩ := hloop
  have hstop : ¬ (s.nextSeq + j < s.totalPkts ∧ n + j < window) := by simpa using hdone
  obtain rfl : j = min (s.totalPkts - s.nextSeq) (window - n) := by omega
  exact ⟨ts, hrun, hts⟩

namespace SenderState

def afterSend (s : SenderState) (ts : List ℤ) : SenderState :=
  { s with sentTime := ts, nextSeq := s.nextSeq + s.refill }

/-- The indices transmitted in an iteration, in order. -/
def transmitted (s : SenderState) (now : ℤ) : List ℕ :=
  s.resent now ++ List.range' s.nextSeq s.refill

theorem mem_resent {now : ℤ} {i : ℕ} :
    i ∈ s.resent now ↔ s.sendBase ≤ i ∧ i < s.nextSeq ∧ s.due now i := by
  simp only [resent, List.mem_filter, List.mem_range'_1]
  constructor
  · rintro ⟨⟨hb, hlt⟩, hd⟩
    exact ⟨hb, by omega, hd⟩
  · rintro ⟨hb, hlt, hd⟩
    exact ⟨⟨hb, by omega⟩, hd⟩

theorem mem_transmitted {now : ℤ} {i : ℕ} : i ∈ s.transmitted now ↔
    s.sendBase ≤ i ∧ i < s.nextSeq ∧ s.due now i ∨ s.nextSeq ≤ i ∧ i < s.nextSeq + s.refill := by
  rw [transmitted, List.mem_append, mem_resent, List.mem_range'_1]

theorem transmitted_of_late (h : s.Sized) {now t : ℤ} {i : ℕ} (hbase : s.sendBase ≤ i)
    (hlt : i < s.nextSeq) (hnot : ¬ s.Acked i) (hread : s.sentTime[i]? = some t) (hpos : 0 < t)
    (hlate : timeoutMs < now - t) : i ∈ s.transmitted now := by
  have hdue := (due_eq h (hlt.trans_le h.next_le) hread).mpr ⟨hnot, hpos, hlate⟩
  exact mem_transmitted.mpr (Or.inl ⟨hbase, hlt, hdue⟩)

end SenderState

/-- The sending half sends the transmitted indices' packets and stamps exactly these. -/
theorem sendPhase_spec (h : s.Sized) (now : ℤ) :
    ∃ ts, sendPhase now s = some ⟨s.afterSend ts, s.unacked.card + s.refill,
        (s.transmitted now).map s.packet⟩ ∧
      s.Stamped now (· ∈ s.transmitted now) ts := by
  obtain ⟨ts, hscan, hlen, hts⟩ := scan_spec h now
  have hsized : SenderState.Sized { s with sentTime := ts } :=
    ⟨h.packetBuffer, h.acked, hlen, h.base_le, h.next_le⟩
  obtain ⟨ts', hfill, hlen', hts'⟩ := fill_spec hsized now s.unacked.card
    ((s.resent now).map s.packet)
  refine ⟨ts', ?_, hlen', fun i => ?_⟩
  · rw [sendPhase, hscan, Option.bind_eq_bind, Option.bind_some, hfill, SenderState.transmitted,
      List.map_append]
    rfl
  · rw [hts', hts]
    simp only [SenderState.transmitted, List.mem_append, List.mem_range'_1, SenderState.refill]
    split_ifs <;> first | rfl | (exfalso; tauto)

theorem sendPhase_eq (h : s.Sized) {now : ℤ} {b : Sending} (hrun : sendPhase now s = some b) :
    ∃ ts, b = ⟨s.afterSend ts, s.unacked.card + s.refill, (s.transmitted now).map s.packet⟩ ∧
      s.Stamped now (· ∈ s.transmitted now) ts := by
  obtain ⟨ts, hsend, hts⟩ := sendPhase_spec h now
  exact ⟨ts, Option.some.inj (hrun.symm.trans hsend), hts⟩

end RdtChallenge
