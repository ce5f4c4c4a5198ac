import RdtChallenge.ReceiverLoop

namespace RdtChallenge

/-- `seq`, `total` and payload of a data packet that passes the two tests. -/
def Poll.data : Poll → Option (ℕ × ℕ × List Value)
  | .packet pkt _ =>
    (decode typeData pkt).map fun fields => (fields.1, fields.2, pkt.drop dataHeader)
  | .idle _ => none

def accepted (polls : List Poll) : List (ℕ × ℕ × List Value) := polls.filterMap Poll.data

def firstTotal (polls : List Poll) : Option ℕ := (accepted polls).head?.map fun x => x.2.1

def firstPayload (total seq : ℕ) (polls : List Poll) : Option (List Value) :=
  ((accepted polls).find? fun x => x.1 == seq && x.2.1 == total).map fun x => x.2.2

/-- What `receiver()` returns, or `none` while it is in its loop. -/
def receiver (now : ℤ) (polls : List Poll) : Option (Option (List Value)) := do
  let bs ← receiverLoop (receiverStart now) polls
  match bs.getLast? with
  | some b => if b.done then (reassemble b.state).map some else some none
  | none => some none

theorem firstTotal_append (polls polls' : List Poll) :
    firstTotal (polls ++ polls') = (firstTotal polls).or (firstTotal polls') := by
  unfold firstTotal accepted
  rw [List.filterMap_append, List.head?_append, Option.map_or]

theorem firstTotal_concat (polls : List Poll) (poll : Poll) :
    firstTotal (polls ++ [poll]) = (firstTotal polls).or (poll.data.map fun x => x.2.1) := by
  rw [firstTotal_append]
  cases h : poll.data <;> simp [firstTotal, accepted, h]

theorem firstTotal_of_take {polls : List Poll} {n total : ℕ}
    (h : firstTotal (polls.take n) = some total) : firstTotal polls = some total := by
  rw [← List.take_append_drop n polls, firstTotal_append, h, Option.some_or]

theorem firstPayload_append (total seq : ℕ) (polls polls' : List Poll) :
    firstPayload total seq (polls ++ polls') =
      (firstPayload total seq polls).or (firstPayload total seq polls') := by
  unfold firstPayload accepted
  rw [List.filterMap_append, List.find?_append, Option.map_or]

theorem firstPayload_concat (total seq : ℕ) (polls : List Poll) (poll : Poll) :
    firstPayload total seq (polls ++ [poll]) = (firstPayload total seq polls).or
      ((poll.data.filter fun x => x.1 == seq && x.2.1 == total).map fun x => x.2.2) := by
  rw [firstPayload_append]
  cases h : poll.data with
  | none => simp [firstPayload, accepted, h]
  | some x =>
    by_cases hx : (x.1 == seq && x.2.1 == total) = true <;>
      simp [firstPayload, accepted, h, hx, Option.filter]

theorem firstPayload_of_firstTotal {polls : List Poll} (h : firstTotal polls = none)
    (total seq : ℕ) : firstPayload total seq polls = none := by
  have hnil : accepted polls = [] := by simpa [firstTotal] using h
  simp [firstPayload, hnil]

structure Delivered (polls : List Poll) (r : ReceiverState) : Prop where
  total : r.expectedTotal = (firstTotal polls).getD 0
  held : ∀ i, r.Held i ↔ i < r.expectedTotal ∧ (firstPayload r.expectedTotal i polls).isSome
  buffer : ∀ i < r.expectedTotal,
    r.recvBuffer[i]? = some ((firstPayload r.expectedTotal i polls).getD [])
  answered : firstTotal polls = none ↔ r.lastAck = []

def Unfinished (polls : List Poll) (r : ReceiverState) : Prop :=
  firstTotal polls ≠ none → r.recvExpected < r.expectedTotal

def Covered (polls : List Poll) : Prop :=
  ∃ total, firstTotal polls = some total ∧ ∀ i < total, (firstPayload total i polls).isSome

variable {polls : List Poll} {r : ReceiverState}

theorem Covered.append (h : Covered polls) (polls' : List Poll) : Covered (polls ++ polls') := by
  obtain ⟨total, htotal, hall⟩ := h
  refine ⟨total, by rw [firstTotal_append, htotal, Option.some_or], fun i hi => ?_⟩
  rw [firstPayload_append, Option.isSome_or, hall i hi, Bool.true_or]

theorem Covered.mono {polls' : List Poll} (h : Covered polls) (hpre : polls <+: polls') :
    Covered polls' := by
  obtain ⟨rest, rfl⟩ := hpre
  exact h.append rest

theorem not_covered_nil : ¬ Covered [] := by
  rintro ⟨total, htotal, -⟩
  simp [firstTotal, accepted] at htotal

theorem delivered_start (now : ℤ) : Delivered [] (receiverStart now) where
  total := rfl
  held i := by simp [receiverStart, ReceiverState.Held]
  buffer i hi := absurd hi (Nat.not_lt_zero i)
  answered := by simp [firstTotal, accepted, receiverStart]

theorem Delivered.unfinished_iff (hd : Delivered polls r) (h : ReceiverInv r) :
    Unfinished polls r ↔ ¬ Covered polls := by
  have hle := h.least.le
  constructor
  · rintro hun ⟨total, htotal, hall⟩
    have hexp : r.expectedTotal = total := by rw [hd.total, htotal, Option.getD_some]
    have hlt := hun (by simp [htotal])
    -- the index that `recvExpected` stands at is missing
    apply h.least.missing
    rw [hd.held, hexp]
    exact ⟨by omega, hall _ (by omega)⟩
  · intro hnot hsome
    obtain ⟨total, htotal⟩ := Option.ne_none_iff_exists'.mp hsome
    have hexp : r.expectedTotal = total := by rw [hd.total, htotal, Option.getD_some]
    by_contra hge
    refine hnot ⟨total, htotal, fun i hi => ?_⟩
    have hheld := (hd.held i).mp (h.least.below i (by omega))
    rw [hexp] at hheld
    exact hheld.2

theorem Delivered.skip (hd : Delivered polls r) {poll : Poll} {r' : ReceiverState}
    (htotal : firstTotal (polls ++ [poll]) = firstTotal polls)
    (hpayload : ∀ i, firstPayload r.expectedTotal i (polls ++ [poll]) =
      firstPayload r.expectedTotal i polls)
    (hr : ∃ t, r' = { r with lastRecvTime := t }) : Delivered (polls ++ [poll]) r' := by
  obtain ⟨t, rfl⟩ := hr
  refine ⟨?_, fun i => ?_, fun i hi => ?_, ?_⟩
  · rw [htotal]
    exact hd.total
  · dsimp only
    rw [hpayload]
    exact hd.held i
  · dsimp only
    rw [hpayload]
    exact hd.buffer i hi
  · rw [htotal]
    exact hd.answered

section Store
variable {poll : Poll} {r' : ReceiverState} {seq total : ℕ} {data : List Value}

theorem firstTotal_store (hdata : poll.data = some (seq, total, data))
    (ht : (firstTotal polls).getD total = total) : firstTotal (polls ++ [poll]) = some total := by
  rw [firstTotal_concat, hdata]
  cases hfirst : firstTotal polls with
  | none => rfl
  | some total' => simpa [hfirst] using ht

theorem firstPayload_store (hdata : poll.data = some (seq, total, data)) (i : ℕ) :
    firstPayload total i (polls ++ [poll]) =
      (firstPayload total i polls).or (if seq = i then some data else none) := by
  rw [firstPayload_concat, hdata]
  by_cases hi : seq = i <;> simp [hi, Option.filter]

theorem Delivered.held_of_total (hd : Delivered polls r)
    (ht : (firstTotal polls).getD total = total) (i : ℕ) :
    r.Held i ↔ i < total ∧ (firstPayload total i polls).isSome := by
  rw [hd.held, hd.total]
  cases hfirst : firstTotal polls with
  | none => simp [firstPayload_of_firstTotal hfirst]
  | some total' =>
    obtain rfl : total' = total := by simpa [hfirst] using ht
    rfl

theorem Delivered.buffer_of_total (hd : Delivered polls r)
    (ht : (firstTotal polls).getD total = total) (hsome : firstTotal polls ≠ none) {i : ℕ}
    (hi : i < total) : r.recvBuffer[i]? = some ((firstPayload total i polls).getD []) := by
  obtain ⟨total', hfirst⟩ := Option.ne_none_iff_exists'.mp hsome
  obtain rfl : total' = total := by simpa [hfirst] using ht
  have hexp : r.expectedTotal = total' := by rw [hd.total, hfirst, Option.getD_some]
  rw [hd.buffer i (hexp ▸ hi), hexp]

theorem Delivered.held_store (hd : Delivered polls r)
    (hdata : poll.data = some (seq, total, data)) (ht : (firstTotal polls).getD total = total)
    (hstored : Stored r r' seq total data) (i : ℕ) :
    r'.Held i ↔ i < total ∧ (firstPayload total i (polls ++ [poll])).isSome := by
  rw [hstored.held, hd.held_of_total ht, firstPayload_store hdata, Option.isSome_or]
  by_cases hi : seq = i
  · subst hi
    simp
    tauto
  · simp [hi, Ne.symm hi]

theorem Delivered.buffer_store (hd : Delivered polls r)
    (hdata : poll.data = some (seq, total, data)) (ht : (firstTotal polls).getD total = total)
    (hstored : Stored r r' seq total data) {i : ℕ} (hi : i < total) :
    r'.recvBuffer[i]? = some ((firstPayload total i (polls ++ [poll])).getD []) := by
  by_cases hnew : r'.Held i
  · rw [hstored.buffer i hnew, firstPayload_store hdata]
    by_cases hwas : r.Held i
    · obtain ⟨v, hv⟩ := Option.isSome_iff_exists.mp ((hd.held_of_total ht i).mp hwas).2
      have hfirst : firstTotal polls ≠ none := fun hnone => by
        rw [firstPayload_of_firstTotal hnone] at hv
        cases hv
      rw [if_pos hwas, hd.buffer_of_total ht hfirst hi, hv]
      rfl
    · have hseq : i = seq := (((hstored.held i).mp hnew).resolve_left hwas).1
      have hnone : firstPayload total i polls = none := by
        rw [← Option.not_isSome_iff_eq_none]
        exact fun hsome => hwas ((hd.held_of_total ht i).mpr ⟨hi, hsome⟩)
      rw [if_neg hwas, hnone, if_pos hseq.symm]
      rfl
  · have hnone : firstPayload total i (polls ++ [poll]) = none := by
      rw [← Option.not_isSome_iff_eq_none]
      exact fun hsome => hnew ((hd.held_store hdata ht hstored i).mpr ⟨hi, hsome⟩)
    rw [hstored.blank i hi hnew, hnone]
    split_ifs with h0
    · rfl
    · have hfirst : firstTotal polls ≠ none := fun hfirst =>
        h0 (by rw [hd.total, hfirst, Option.getD_none])
      rw [firstPayload_store hdata, Option.or_eq_none_iff] at hnone
      rw [hd.buffer_of_total ht hfirst hi, hnone.1]

theorem Delivered.store (hd : Delivered polls r) {r'' : ReceiverState}
    (hdata : poll.data = some (seq, total, data)) (ht : (firstTotal polls).getD total = total)
    (hstored : Stored r r' seq total data)
    (hr : ∃ ack t, r'' = { r' with lastAck := ack, lastRecvTime := t } ∧ ack ≠ []) :
    Delivered (polls ++ [poll]) r'' := by
  obtain ⟨ack, t, rfl, hack⟩ := hr
  have htotal := firstTotal_store hdata ht
  refine ⟨?_, fun i => ?_, fun i hi => ?_, ?_⟩
  · rw [htotal]
    exact hstored.expectedTotal
  · dsimp only
    rw [hstored.expectedTotal]
    exact hd.held_store hdata ht hstored i
  · dsimp only at hi ⊢
    rw [hstored.expectedTotal] at hi ⊢
    exact hd.buffer_store hdata ht hstored hi
  · simp [htotal, hack]

end Store

structure Reached (polls : List Poll) (b : Reception) : Prop where
  fit : ReceiverFit b.state
  delivered : Delivered polls b.state
  done_iff : b.done = true ↔ Covered polls

structure Receiving (polls : List Poll) (r : ReceiverState) : Prop where
  fit : ReceiverFit r
  delivered : Delivered polls r
  unfinished : Unfinished polls r

theorem receiverStart_receiving (now : ℤ) : Receiving [] (receiverStart now) :=
  ⟨receiverStart_fit now, delivered_start now, fun h => absurd rfl h⟩

theorem Reached.receiving {b : Reception} (h : Reached polls b) (hdone : ¬ b.done = true) :
    Receiving polls b.state :=
  ⟨h.fit, h.delivered, (h.delivered.unfinished_iff h.fit.inv).mpr fun hc =>
    hdone (h.done_iff.mpr hc)⟩

theorem Receiving.expectedTotal_eq_zero (h : Receiving polls r) :
    r.expectedTotal = 0 ↔ firstTotal polls = none := by
  refine ⟨fun h0 => ?_, fun hnone => by rw [h.delivered.total, hnone, Option.getD_none]⟩
  by_contra hsome
  have := h.unfinished hsome
  omega

theorem Receiving.skip (h : Receiving polls r) {poll : Poll} {b : Reception}
    (hfit : ReceiverFit b.state) (hdone : b.done = false)
    (htotal : firstTotal (polls ++ [poll]) = firstTotal polls)
    (hpayload : ∀ i, firstPayload r.expectedTotal i (polls ++ [poll]) =
      firstPayload r.expectedTotal i polls)
    (hr : ∃ t, b.state = { r with lastRecvTime := t }) : Reached (polls ++ [poll]) b := by
  have hdel := h.delivered.skip htotal hpayload hr
  refine ⟨hfit, hdel, ?_⟩
  have hun : Unfinished (polls ++ [poll]) b.state := by
    intro hsome
    obtain ⟨t, ht⟩ := hr
    rw [ht]
    exact h.unfinished (htotal ▸ hsome)
  simp [hdone, (hdel.unfinished_iff hfit.inv).mp hun]

theorem Receiving.ignore (h : Receiving polls r) {poll : Poll} (hdata : poll.data = none)
    {b : Reception} (hfit : ReceiverFit b.state) (hdone : b.done = false)
    (hr : ∃ t, b.state = { r with lastRecvTime := t }) : Reached (polls ++ [poll]) b := by
  apply h.skip hfit hdone _ _ hr
  · rw [firstTotal_concat, hdata, Option.map_none, Option.or_none]
  · intro i
    rw [firstPayload_concat, hdata, Option.filter_none, Option.map_none, Option.or_none]

theorem Receiving.dropped (h : Receiving polls r) {packet : Packet} {now : ℤ}
    (hd : ∀ seq total, decode typeData packet = some (seq, total) →
      r.expectedTotal ≠ 0 ∧ total ≠ r.expectedTotal) :
    Reached (polls ++ [.packet packet now]) ⟨r, [], false⟩ := by
  cases hdec : decode typeData packet with
  | none => exact h.ignore (by simp [Poll.data, hdec]) h.fit rfl ⟨r.lastRecvTime, rfl⟩
  | some fields =>
    obtain ⟨seq, total⟩ := fields
    obtain ⟨h0, hne⟩ := hd seq total hdec
    have hsome : firstTotal polls ≠ none := fun hnone => h0 (h.expectedTotal_eq_zero.mpr hnone)
    apply h.skip h.fit rfl _ _ ⟨r.lastRecvTime, rfl⟩
    · obtain ⟨total', htotal⟩ := Option.ne_none_iff_exists'.mp hsome
      rw [firstTotal_concat, htotal, Option.some_or]
    · intro i
      simp [firstPayload_concat, Poll.data, hdec, Option.filter, hne]

theorem Receiving.receiveData (h : Receiving polls r) (packet : Packet) (now : ℤ) :
    ∃ b, receiveData r packet now = some b ∧ Reached (polls ++ [.packet packet now]) b := by
  obtain ⟨b, hb, hpolled⟩ := h.fit.receiveData packet now
  refine ⟨b, hb, ?_⟩
  rcases receiveData_cases h.fit.inv packet now with
    ⟨hrun, hd⟩ | ⟨seq, total, r', mask, hd, ht, hrun, -, -, hstored⟩
  · obtain rfl := Option.some.inj (hb.symm.trans hrun)
    exact h.dropped hd
  · obtain rfl := Option.some.inj (hb.symm.trans hrun)
    have hdata : (Poll.packet packet now).data = some (seq, total, packet.drop dataHeader) := by
      simp [Poll.data, hd]
    have hfirst : (firstTotal polls).getD total = total := by
      rcases ht with h0 | hsame
      · rw [h.expectedTotal_eq_zero.mp h0, Option.getD_none]
      · cases hsome : firstTotal polls with
        | none => rfl
        | some total' => rw [hsame, h.delivered.total, hsome, Option.getD_some, Option.getD_some]
    have hdel := h.delivered.store hdata hfirst hstored
      ⟨buildAckPacket r'.recvExpected mask, now, rfl, List.cons_ne_nil _ _⟩
    refine ⟨hpolled.fit, hdel, ?_⟩
    have hsome : firstTotal (polls ++ [.packet packet now]) ≠ none := by
      simp [firstTotal_concat, hdata]
    -- the completion test is the negation of `Unfinished` now that a total is known
    rw [← not_iff_not, ← hdel.unfinished_iff hpolled.fit.inv]
    simp [Unfinished, hsome]

theorem pollOnce_reached (h : Receiving polls r) (poll : Poll) :
    ∃ b, pollOnce r poll = some b ∧ Reached (polls ++ [poll]) b := by
  cases poll with
  | packet packet now => exact h.receiveData packet now
  | idle now =>
    refine ⟨_, rfl, h.ignore rfl (h.fit.keepAlive now).fit ?_ ?_⟩
    · unfold keepAlive
      split_ifs <;> rfl
    · unfold keepAlive
      split_ifs
      · exact ⟨now, rfl⟩
      · exact ⟨r.lastRecvTime, rfl⟩

/-- The iterations see the polls in order, and the last one is the first to have seen
every index, or the polls are used up. -/
theorem receiverLoop_reached {seen : List Poll} (h : Receiving seen r) (polls : List Poll) :
    ∃ bs, receiverLoop r polls = some bs ∧
      (∀ k b, bs[k]? = some b → Reached (seen ++ polls.take (k + 1)) b) ∧
      ∀ k, k < bs.length ↔ k < polls.length ∧ ∀ j < k, ¬ Covered (seen ++ polls.take (j + 1)) := by
  -- along the polls, with everything seen before them as the accumulator
  induction polls generalizing seen r with
  | nil => exact ⟨[], rfl, by simp, by simp⟩
  | cons poll polls ih =>
    obtain ⟨b, hb, hreached⟩ := pollOnce_reached h poll
    by_cases hdone : b.done = true
    · refine ⟨[b], by simp [receiverLoop, hb, hdone], ?_, fun k => ?_⟩
      · intro k b' hk
        obtain ⟨rfl, rfl⟩ : k = 0 ∧ b = b' := by
          cases k with
          | zero => simpa using hk
          | succ k => simp at hk
        simpa using hreached
      · constructor
        · intro hk
          obtain rfl : k = 0 := by simpa using hk
          simp
        · rintro ⟨-, hnot⟩
          by_contra hge
          have hlater := hnot 0 (by simp at hge; omega)
          exact hlater (by simpa using hreached.done_iff.mp hdone)
    · obtain ⟨bs, hbs, hall, hlen⟩ := ih (hreached.receiving hdone)
      have hnot : ¬ Covered (seen ++ [poll]) := fun hc => hdone (hreached.done_iff.mpr hc)
      refine ⟨b :: bs, by simp [receiverLoop, hb, hdone, hbs], ?_, fun k => ?_⟩
      · intro k b' hk
        cases k with
        | zero =>
          obtain rfl : b = b' := by simpa using hk
          simpa using hreached
        | succ k =>
          have := hall k b' (by simpa using hk)
          simpa using this
      · cases k with
        | zero => simp
        | succ k =>
          rw [List.length_cons, List.length_cons, Nat.add_lt_add_iff_right,
            Nat.add_lt_add_iff_right, hlen]
          refine and_congr_right fun _ => ⟨fun hall j hj => ?_, fun hall j hj => ?_⟩
          · cases j with
            | zero => simpa using hnot
            | succ j => simpa using hall j (by omega)
          · simpa using hall (j + 1) (by omega)

section LoopEnd
variable {len : ℕ}
  (hlen : ∀ k, k < len ↔ k < polls.length ∧ ∀ j < k, ¬ Covered (polls.take (j + 1)))
include hlen

theorem not_covered_of_lt {n : ℕ} (hn : n < len) : ¬ Covered (polls.take n) := by
  cases n with
  | zero => exact not_covered_nil
  | succ m => exact ((hlen (m + 1)).mp hn).2 m (Nat.lt_succ_self m)

theorem length_of_not_covered (h : ¬ Covered (polls.take len)) : len = polls.length := by
  apply Nat.le_antisymm
  · by_contra hgt
    exact lt_irrefl _ ((hlen polls.length).mp (by omega)).1
  · by_contra hlt
    refine lt_irrefl len ((hlen len).mpr ⟨by omega, fun j hj hc => h (hc.mono ?_)⟩)
    exact List.take_prefix_take_left hj

end LoopEnd

/-- What a transfer that ends with `out` after these polls should have seen. -/
structure Complete (polls : List Poll) (out : List Value) (total : ℕ) : Prop where
  announced : firstTotal polls = some total
  total_pos : 1 ≤ total
  filled : ∀ i < total, (firstPayload total i polls).isSome
  last_fills : ∃ i < total, firstPayload total i polls.dropLast = none
  result : out = ((List.range total).map fun i => (firstPayload total i polls).getD []).flatten

/-- `receiver()` returns nothing but complete files. -/
def CompletesWithData (now : ℤ) (polls : List Poll) : Prop :=
  ∃ bs res, receiverLoop (receiverStart now) polls = some bs ∧ receiver now polls = some res ∧
    ∀ out, res = some out → ∃ total, Complete (polls.take bs.length) out total

theorem Reached.reassemble {b : Reception} (h : Reached polls b) {total : ℕ}
    (htotal : firstTotal polls = some total) :
    reassemble b.state =
      some ((List.range total).map fun i => (firstPayload total i polls).getD []).flatten := by
  have hexp : b.state.expectedTotal = total := by rw [h.delivered.total, htotal, Option.getD_some]
  have hbuffer := h.delivered.buffer
  rw [hexp] at hbuffer
  rw [← hexp]
  exact reassemble_eq _ (hexp ▸ hbuffer)

theorem exists_missing (h : ¬ Covered polls) {poll : Poll} {total : ℕ}
    (htotal : firstTotal (polls ++ [poll]) = some total) (hpos : 1 ≤ total) :
    ∃ i < total, firstPayload total i polls = none := by
  cases hfirst : firstTotal polls with
  | none => exact ⟨0, hpos, firstPayload_of_firstTotal hfirst total 0⟩
  | some total' =>
    obtain rfl : total' = total := by
      rw [firstTotal_append, hfirst, Option.some_or] at htotal
      exact Option.some.inj htotal
    by_contra hall
    push Not at hall
    exact h ⟨total', hfirst, fun i hi => Option.isSome_iff_ne_none.mpr (hall i hi)⟩

/-- What the receiver has done with the polls, and what it gives back. -/
theorem receiver_spec (now : ℤ) (polls : List Poll) :
    ∃ bs, receiverLoop (receiverStart now) polls = some bs ∧
      (¬ Covered (polls.take bs.length) ∧ bs.length = polls.length ∧
          receiver now polls = some none ∨
        ∃ total, firstTotal (polls.take bs.length) = some total ∧
          (∀ i < total, (firstPayload total i (polls.take bs.length)).isSome) ∧
          (1 ≤ total → ∃ i < total, firstPayload total i (polls.take bs.length).dropLast = none) ∧
          receiver now polls = some (some ((List.range total).map fun i =>
            (firstPayload total i (polls.take bs.length)).getD []).flatten)) := by
  obtain ⟨bs, hbs, hall, hlen⟩ := receiverLoop_reached (receiverStart_receiving now) polls
  simp only [List.nil_append] at hall hlen
  refine ⟨bs, hbs, ?_⟩
  rcases bs.eq_nil_or_concat with rfl | ⟨bs', b, rfl⟩
  · -- no iteration at all: there was no poll
    exact Or.inl ⟨not_covered_nil, length_of_not_covered hlen not_covered_nil,
      by simp [receiver, hbs]⟩
  · rw [List.concat_eq_append] at *
    set n := bs'.length with hn
    have hlast : (bs' ++ [b])[n]? = some b := by simp [hn]
    have hreached := hall n b hlast
    have hsize : (bs' ++ [b]).length = n + 1 := by simp [hn]
    have hreceiver : receiver now polls =
        if b.done then (reassemble b.state).map some else some none := by
      simp [receiver, hbs]
    rw [hsize] at hlen ⊢
    have hlt : n < polls.length := ((hlen n).mp (by omega)).1
    by_cases hcov : Covered (polls.take (n + 1))
    · obtain ⟨total, htotal, hfilled⟩ := hcov
      refine Or.inr ⟨total, htotal, hfilled, fun hpos => ?_, ?_⟩
      · rw [List.take_add_one, List.getElem?_eq_getElem hlt] at htotal ⊢
        rw [Option.toList_some, List.dropLast_concat]
        exact exists_missing (not_covered_of_lt hlen (Nat.lt_succ_self n)) htotal hpos
      · rw [hreceiver, if_pos (hreached.done_iff.mpr ⟨total, htotal, hfilled⟩),
          hreached.reassemble htotal, Option.map_some]
    · refine Or.inl ⟨hcov, length_of_not_covered hlen hcov, ?_⟩
      rw [hreceiver, if_neg fun hd => hcov (hreached.done_iff.mp hd)]

/-- The receiver returns with all the data exactly when the first accepted packet, if
there is one, does not announce a total of 0. -/
theorem completesWithData_iff (now : ℤ) (polls : List Poll) :
    CompletesWithData now polls ↔ firstTotal polls ≠ some 0 := by
  obtain ⟨bs, hbs, hcase⟩ := receiver_spec now polls
  rcases hcase with ⟨hcov, hlen, hrun⟩ | ⟨total, htotal, hfilled, hlast, hrun⟩
  · refine ⟨fun _ hzero => hcov ?_, fun _ => ⟨bs, none, hbs, hrun, by simp⟩⟩
    rw [hlen, List.take_length]
    exact ⟨0, hzero, fun i hi => absurd hi (Nat.not_lt_zero i)⟩
  · constructor
    · rintro ⟨bs', res, hbs', hrun', hall⟩ hzero
      obtain rfl : bs = bs' := Option.some.inj (hbs.symm.trans hbs')
      rw [hrun, Option.some.injEq] at hrun'
      obtain ⟨total', hcomplete⟩ := hall _ hrun'.symm
      have hpos := hcomplete.total_pos
      obtain rfl : total' = 0 :=
        Option.some.inj ((firstTotal_of_take hcomplete.announced).symm.trans hzero)
      omega
    · intro hne
      have hpos : 1 ≤ total := by
        rw [Nat.one_le_iff_ne_zero]
        rintro rfl
        exact hne (firstTotal_of_take htotal)
      refine ⟨bs, _, hbs, hrun, fun out hout => ⟨total, htotal, hpos, hfilled, hlast hpos, ?_⟩⟩
      exact (Option.some.inj hout).symm

/-- Six zeros announce a total of 0, fill no index and end the transfer. -/
theorem completes_without_data :
    receiver 0 [.packet [0, 0, 0, 0, 0, 0] 0] = some (some []) ∧
      ¬ CompletesWithData 0 [.packet [0, 0, 0, 0, 0, 0] 0] := by
  have hrun : receiver 0 [.packet [0, 0, 0, 0, 0, 0] 0] = some (some []) := by decide +kernel
  refine ⟨hrun, ?_⟩
  rintro ⟨bs, res, -, hres, hall⟩
  rw [hrun, Option.some.injEq] at hres
  obtain ⟨total, hcomplete⟩ := hall [] hres.symm
  have hzero : firstTotal [.packet [0, 0, 0, 0, 0, 0] 0] = some 0 := by decide +kernel
  obtain rfl : 0 = total :=
    Option.some.inj (hzero.symm.trans (firstTotal_of_take hcomplete.announced))
  exact absurd hcomplete.total_pos (by decide)

end RdtChallenge
