import RdtChallenge.Draining
import RdtChallenge.SenderInvariant

namespace RdtChallenge

/-- One iteration of the sender: its reading of the clock, the indices it sends in
order, the members after it and whether it leaves the loop. -/
structure Round where
  now : ℤ
  indices : List ℕ
  state : SenderState
  left : Bool

def Round.iteration (packets : List Packet) (r : Round) : Option Iteration := do
  let sent ← r.indices.mapM fun i => packets[i]?
  some ⟨{ r.state with packetBuffer := packets }, sent, r.left⟩

def lastSent (rounds : List Round) (i : ℕ) : Option ℤ :=
  (rounds.reverse.find? fun r => i ∈ r.indices).map Round.now

structure Disciplined (rounds : List Round) : Prop where
  in_order : ∀ sent i rest, rounds.flatMap Round.indices = sent ++ i :: rest →
    ∀ j < i, j ∈ sent
  once : ∀ r ∈ rounds, r.indices.Nodup
  unacked : ∀ r ∈ rounds, ∀ i ∈ r.indices, ¬ r.state.Acked i
  unacked_later : rounds.Pairwise fun r r' => ∀ i, r.state.Acked i → i ∉ r'.indices
  apart : rounds.Pairwise fun r r' =>
    ∀ i ∈ r.indices, i ∈ r'.indices → timeoutMs < r'.now - r.now
  prompt : ∀ before r after, rounds = before ++ r :: after → r.left = false →
    ∀ i t, lastSent before i = some t → r.state.sendBase ≤ i → ¬ r.state.Acked i →
      timeoutMs < r.now - t → i ∈ r.indices

section Log
variable {rounds : List Round} {r : Round} {i : ℕ}

theorem lastSent_concat : lastSent (rounds ++ [r]) i =
    if i ∈ r.indices then some r.now else lastSent rounds i := by
  rw [lastSent, List.reverse_append, List.reverse_singleton, List.singleton_append,
    List.find?_cons]
  by_cases hi : i ∈ r.indices <;> simp [hi, lastSent]

theorem exists_lastSent (hclock : rounds.Pairwise fun r r' => r.now ≤ r'.now) (hr : r ∈ rounds)
    (hi : i ∈ r.indices) : ∃ t, lastSent rounds i = some t ∧ r.now ≤ t := by
  induction rounds using List.reverseRecOn with
  | nil => cases hr
  | append_singleton rounds r' ih =>
    rw [List.pairwise_append] at hclock
    rw [lastSent_concat]
    split_ifs with hi'
    · refine ⟨r'.now, rfl, ?_⟩
      rcases List.mem_append.mp hr with hr | hr
      · exact hclock.2.2 r hr r' (List.mem_singleton_self r')
      · exact (List.mem_singleton.mp hr) ▸ le_rfl
    · rcases List.mem_append.mp hr with hr | hr
      · exact ih hclock.1 hr
      · exact absurd ((List.mem_singleton.mp hr) ▸ hi) hi'

theorem mem_of_resent_append {old : List ℕ} {n k : ℕ} (hold : ∀ i ∈ old, i < n)
    {sent rest : List ℕ} (h : old ++ List.range' n k = sent ++ i :: rest) {j : ℕ} (hn : n ≤ j)
    (hj : j < i) : j ∈ sent := by
  have hpair : (old ++ List.range' n k).Pairwise fun a b => n ≤ b → a < b := by
    rw [List.pairwise_append]
    refine ⟨?_, ?_, fun a ha b _ hb => (hold a ha).trans_le hb⟩
    · exact List.pairwise_of_forall_mem_list fun a ha b hb hnb =>
        absurd (hold b hb) (by omega)
    · have hincr : (List.range' n k).Pairwise (· < ·) := List.pairwise_lt_range' ..
      apply hincr.imp
      intro a b hlt _
      exact hlt
  have hmem : j ∈ old ++ List.range' n k := by
    have hi : i ∈ old ++ List.range' n k := h ▸ by simp
    rcases List.mem_append.mp hi with hi | hi
    · exact absurd (hold i hi) (by omega)
    · rw [List.mem_range'_1] at hi
      exact List.mem_append_right _ (List.mem_range'_1.mpr (by omega))
  rw [h, List.pairwise_append, List.pairwise_cons] at hpair
  rw [h] at hmem
  rcases List.mem_append.mp hmem with hmem | hmem
  · exact hmem
  · rcases List.mem_cons.mp hmem with rfl | hmem
    · exact absurd hj (lt_irrefl _)
    · have := hpair.2.1.1 j hmem hn
      omega

end Log

section Contents
variable {s t : SenderState} {packets : List Packet}

def SenderState.withPackets (s : SenderState) (packets : List Packet) : SenderState :=
  { s with packetBuffer := packets }

theorem Drained.withPackets {pkts : List Packet} (h : Drained s pkts t) (packets : List Packet) :
    Drained (s.withPackets packets) pkts (t.withPackets packets) := by
  have hacc : ∀ pkt ab sm, Acceptable (s.withPackets packets) pkt ab sm ↔ Acceptable s pkt ab sm :=
    fun pkt ab sm => Acceptable.congr rfl rfl
  refine ⟨?_, h.length, ?_, ?_⟩
  · rw [h.frame]
    rfl
  · unfold bases
    simp only [hacc]
    exact h.base
  · unfold sackedBy
    simp only [hacc]
    exact h.acked

theorem drain_withPackets (h : s.Sized) (hbelow : ∀ i < s.sendBase, s.Acked i)
    (hlen : packets.length = s.totalPkts) {pkts : List Packet}
    (ht : pkts.foldlM processAck s = some t) :
    pkts.foldlM processAck (s.withPackets packets) = some (t.withPackets packets) := by
  obtain ⟨u, hu, hdrained⟩ := drain_drained h hbelow pkts
  obtain rfl : u = t := Option.some.inj (hu.symm.trans ht)
  have hsized : (s.withPackets packets).Sized :=
    ⟨hlen, h.acked, h.sentTime, h.base_le, h.next_le⟩
  obtain ⟨v, hv, hdrained'⟩ := drain_drained hsized hbelow pkts
  rw [hv, (hdrained.withPackets packets).unique hdrained' fun pkt => Iff.rfl]

theorem stamped_unique {now : ℤ} {p : ℕ → Prop} [DecidablePred p] {ts ts' : List ℤ}
    (h : s.Stamped now p ts) (h' : s.Stamped now p ts') : ts = ts' := by
  apply List.ext_getElem?
  intro i
  rw [h.2, h'.2]

theorem sendPhase_withPackets (h : s.Sized) (hlen : packets.length = s.totalPkts) {now : ℤ}
    {ts : List ℤ} (hts : s.Stamped now (· ∈ s.transmitted now) ts) :
    ∃ n, sendPhase now (s.withPackets packets) = some ⟨(s.afterSend ts).withPackets packets, n,
      (s.transmitted now).map (s.withPackets packets).packet⟩ := by
  have hsized : (s.withPackets packets).Sized :=
    ⟨hlen, h.acked, h.sentTime, h.base_le, h.next_le⟩
  obtain ⟨ts', hrun, hts'⟩ := sendPhase_spec hsized now
  obtain rfl : ts = ts' := stamped_unique hts hts'
  exact ⟨_, hrun⟩

end Contents

/-- The sent times and `nextSeq` record what has been sent so far. -/
structure Recorded (rounds : List Round) (s : SenderState) : Prop where
  disciplined : Disciplined rounds
  clock : rounds.Pairwise fun r r' => r.now ≤ r'.now
  sent : ∀ i, i < s.nextSeq ↔ ∃ r ∈ rounds, i ∈ r.indices
  stamps : ∀ i < s.totalPkts, s.sentTime[i]? = some ((lastSent rounds i).getD 0)
  acked : ∀ r ∈ rounds, ∀ i, r.state.Acked i → s.Acked i

variable {rounds : List Round} {s u : SenderState}

theorem recorded_start (packets : List Packet) : Recorded [] (senderStart packets) where
  disciplined := ⟨by simp, by simp, by simp, List.Pairwise.nil, List.Pairwise.nil, by simp⟩
  clock := List.Pairwise.nil
  sent i := by simp [senderStart]
  stamps i hi := by
    have hlt : i < packets.length := hi
    simp [senderStart, lastSent, hlt]
  acked r hr := absurd hr List.not_mem_nil

theorem Recorded.drained (h : Recorded rounds s) (hgrows : Grows s u)
    (hnext : u.nextSeq = s.nextSeq) (htime : u.sentTime = s.sentTime) : Recorded rounds u where
  disciplined := h.disciplined
  clock := h.clock
  sent i := by rw [hnext, h.sent]
  stamps i hi := by rw [htime, h.stamps i (hgrows.totalPkts ▸ hi)]
  acked r hr i hi := hgrows.acked i (h.acked r hr i hi)

structure Continues (rounds : List Round) (r : Round) : Prop where
  in_order : ∀ sent i rest, r.indices = sent ++ i :: rest →
    ∀ j < i, j ∈ rounds.flatMap Round.indices ∨ j ∈ sent
  once : r.indices.Nodup
  unacked : ∀ i ∈ r.indices, ¬ r.state.Acked i
  unacked_later : ∀ r' ∈ rounds, ∀ i, r'.state.Acked i → i ∉ r.indices
  apart : ∀ r' ∈ rounds, ∀ i ∈ r'.indices, i ∈ r.indices → timeoutMs < r.now - r'.now
  prompt : r.left = false → ∀ i t, lastSent rounds i = some t → r.state.sendBase ≤ i →
    ¬ r.state.Acked i → timeoutMs < r.now - t → i ∈ r.indices

theorem Disciplined.concat (h : Disciplined rounds) {r : Round} (hr : Continues rounds r) :
    Disciplined (rounds ++ [r]) where
  in_order sent i rest heq j hj := by
    rw [List.flatMap_append, List.flatMap_singleton, List.append_eq_append_iff] at heq
    -- the index is in the last iteration, or in one before it
    rcases heq with ⟨sent', rfl, heq⟩ | ⟨between, heq, hrest⟩
    · exact List.mem_append.mpr (hr.in_order sent' i rest heq j hj)
    · cases between with
      | nil =>
        rw [List.append_nil] at heq
        have hmem := hr.in_order [] i rest hrest.symm j hj
        simpa [heq] using hmem
      | cons i' between =>
        obtain ⟨rfl, -⟩ := List.cons.inj hrest
        exact h.in_order sent i between heq j hj
  once r' hr' := by
    rcases List.mem_append.mp hr' with hr' | hr'
    · exact h.once r' hr'
    · exact List.mem_singleton.mp hr' ▸ hr.once
  unacked r' hr' := by
    rcases List.mem_append.mp hr' with hr' | hr'
    · exact h.unacked r' hr'
    · exact List.mem_singleton.mp hr' ▸ hr.unacked
  unacked_later := by
    rw [List.pairwise_append]
    exact ⟨h.unacked_later, List.pairwise_singleton _ _, by simpa using hr.unacked_later⟩
  apart := by
    rw [List.pairwise_append]
    exact ⟨h.apart, List.pairwise_singleton _ _, by simpa using hr.apart⟩
  prompt before r' after heq := by
    rcases after.eq_nil_or_concat with rfl | ⟨after, r'', rfl⟩
    · obtain ⟨rfl, hlast⟩ := List.append_inj' heq rfl
      obtain rfl := List.singleton_injective hlast
      exact hr.prompt
    · rw [List.concat_eq_append, ← List.cons_append, ← List.append_assoc] at heq
      exact h.prompt before r' after (List.append_inj' heq rfl).1

theorem continues_leave (rounds : List Round) (now : ℤ) (u : SenderState) :
    Continues rounds ⟨now, [], u, true⟩ where
  in_order sent i rest h := by simp at h
  once := List.nodup_nil
  unacked i hi := absurd hi List.not_mem_nil
  unacked_later _ _ _ _ := List.not_mem_nil
  apart _ _ _ _ hi := absurd hi List.not_mem_nil
  prompt h := by cases h

theorem Recorded.due_of_transmitted (h : Recorded rounds u) (hsized : u.Sized) {now : ℤ} {i : ℕ}
    (hi : i ∈ u.transmitted now) (hlt : i < u.nextSeq) :
    ¬ u.Acked i ∧ ∃ t, lastSent rounds i = some t ∧ timeoutMs < now - t := by
  obtain ⟨r, hr, hir⟩ := (h.sent i).mp hlt
  obtain ⟨t, ht, -⟩ := exists_lastSent h.clock hr hir
  have hread := h.stamps i (hlt.trans_le hsized.next_le)
  rw [ht, Option.getD_some] at hread
  have hdue : u.due now i = true := by
    rcases SenderState.mem_transmitted.mp hi with hi | hi
    · exact hi.2.2
    · omega
  obtain ⟨hnot, -, hlate⟩ :=
    (SenderState.due_eq hsized (hlt.trans_le hsized.next_le) hread).mp hdue
  exact ⟨hnot, t, ht, hlate⟩

theorem Recorded.continues (h : Recorded rounds u) (hinv : SenderInv u) (htimed : Timed u)
    (now : ℤ) (ts : List ℤ) : Continues rounds ⟨now, u.transmitted now, u.afterSend ts, false⟩ where
  in_order sent i rest heq j hj := by
    by_cases hjn : j < u.nextSeq
    · obtain ⟨r, hr, hjr⟩ := (h.sent j).mp hjn
      exact Or.inl (List.mem_flatMap.mpr ⟨r, hr, hjr⟩)
    · have hold : ∀ k ∈ u.resent now, k < u.nextSeq := fun k hk =>
        (SenderState.mem_resent.mp hk).2.1
      exact Or.inr (mem_of_resent_append hold heq (by omega) hj)
  once := by
    show (u.resent now ++ List.range' u.nextSeq u.refill).Nodup
    rw [List.nodup_append]
    refine ⟨List.Nodup.filter _ List.nodup_range', List.nodup_range', fun i hi j hj => ?_⟩
    have hlt := (SenderState.mem_resent.mp hi).2.1
    rw [List.mem_range'_1] at hj
    omega
  unacked i hi hacked := by
    have hlt := hinv.acked_lt i hacked
    exact (h.due_of_transmitted hinv.sized hi hlt).1 hacked
  unacked_later r hr i hacked hi := by
    have hacked' := h.acked r hr i hacked
    exact (h.due_of_transmitted hinv.sized hi (hinv.acked_lt i hacked')).1 hacked'
  apart r hr i hi hi' := by
    have hlt := (h.sent i).mpr ⟨r, hr, hi⟩
    obtain ⟨-, t, ht, hlate⟩ := h.due_of_transmitted hinv.sized hi' hlt
    obtain ⟨t', ht', hle⟩ := exists_lastSent h.clock hr hi
    obtain rfl : t = t' := Option.some.inj (ht.symm.trans ht')
    dsimp only
    omega
  prompt _ i t ht hbase hnot hlate := by
    have hlt : i < u.nextSeq := by
      rw [h.sent]
      obtain ⟨r, hfind, -⟩ := Option.map_eq_some_iff.mp ht
      have hprop := List.find?_some hfind
      exact ⟨r, List.mem_reverse.mp (List.mem_of_find?_eq_some hfind), by simpa using hprop⟩
    have hread := h.stamps i (hlt.trans_le hinv.sized.next_le)
    rw [ht, Option.getD_some] at hread
    exact SenderState.transmitted_of_late hinv.sized hbase hlt hnot hread
      ((htimed i t hread).mpr hlt) hlate

theorem Recorded.concat (h : Recorded rounds u) (hinv : SenderInv u) (htimed : Timed u) {now : ℤ}
    (hnow : ∀ r ∈ rounds, r.now ≤ now) {ts : List ℤ}
    (hts : u.Stamped now (· ∈ u.transmitted now) ts) :
    Recorded (rounds ++ [⟨now, u.transmitted now, u.afterSend ts, false⟩]) (u.afterSend ts) where
  disciplined := h.disciplined.concat (h.continues hinv htimed now ts)
  clock := by
    rw [List.pairwise_append]
    exact ⟨h.clock, List.pairwise_singleton _ _, by simpa using hnow⟩
  sent i := by
    show i < u.nextSeq + u.refill ↔ _
    constructor
    · intro hi
      by_cases hold : i < u.nextSeq
      · obtain ⟨r, hr, hir⟩ := (h.sent i).mp hold
        exact ⟨r, List.mem_append_left _ hr, hir⟩
      · exact ⟨_, List.mem_append_right _ (List.mem_singleton_self _),
          SenderState.mem_transmitted.mpr (Or.inr ⟨by omega, hi⟩)⟩
    · rintro ⟨r, hr, hi⟩
      rcases List.mem_append.mp hr with hr | hr
      · exact Nat.lt_add_right _ ((h.sent i).mpr ⟨r, hr, hi⟩)
      · rw [List.mem_singleton.mp hr] at hi
        rcases SenderState.mem_transmitted.mp hi with hi | hi <;> omega
  stamps i hi := by
    show ts[i]? = _
    rw [hts.2, lastSent_concat]
    split_ifs with hsent
    · rfl
    · exact h.stamps i hi
  acked r hr i hi := by
    rcases List.mem_append.mp hr with hr | hr
    · exact h.acked r hr i hi
    · rw [List.mem_singleton.mp hr] at hi
      exact hi

theorem iteration_eq {r : Round} {packets : List Packet} {n : ℕ} (hlen : packets.length = n)
    (hlt : ∀ i ∈ r.indices, i < n) : r.iteration packets = some ⟨r.state.withPackets packets,
      r.indices.map (r.state.withPackets packets).packet, r.left⟩ := by
  have hread : ∀ i ∈ r.indices, packets[i]? = some ((r.state.withPackets packets).packet i) := by
    intro i hi
    have hin : i < packets.length := hlen ▸ hlt i hi
    show packets[i]? = some (packets[i]?.getD [])
    rw [List.getElem?_eq_getElem hin, Option.getD_some]
  rw [Round.iteration, Loops.mapM_eq_some hread]
  rfl

/-- One iteration: what it logs, whatever the packets are, and what holds after it. -/
theorem Recorded.round (h : Recorded rounds s) (hinv : SenderInv s) (htimed : Timed s) {now : ℤ}
    (hpos : 0 < now) (hnow : ∀ r ∈ rounds, r.now ≤ now) (pkts : List Packet) :
    ∃ r : Round, r.now = now ∧ Disciplined (rounds ++ [r]) ∧
      (∀ packets : List Packet, packets.length = s.totalPkts →
        ∃ it, senderIteration (s.withPackets packets) now pkts = some it ∧
          r.iteration packets = some it ∧ it.left = r.left ∧
          it.state = r.state.withPackets packets) ∧
      (r.left = false → Recorded (rounds ++ [r]) r.state ∧ SenderInv r.state ∧ Timed r.state ∧
        r.state.totalPkts = s.totalPkts) := by
  obtain ⟨u, hu, huinv, hgrows, hnext, htime⟩ := drain_inv hinv pkts
  have hrec := h.drained hgrows hnext htime
  have hutimed := htimed.congr hnext htime
  have hdrain : ∀ packets : List Packet, packets.length = s.totalPkts →
      pkts.foldlM processAck (s.withPackets packets) = some (u.withPackets packets) :=
    fun packets hlen => drain_withPackets hinv.sized hinv.acked_below hlen hu
  by_cases hdone : u.sendBase ≥ u.totalPkts
  · refine ⟨⟨now, [], u, true⟩, rfl, hrec.disciplined.concat (continues_leave rounds now u),
      fun packets hlen => ?_, fun hleft => by cases hleft⟩
    have hleave : (u.withPackets packets).sendBase ≥ (u.withPackets packets).totalPkts := hdone
    refine ⟨⟨u.withPackets packets, [], true⟩, ?_, rfl, rfl, rfl⟩
    simp [senderIteration, hdrain packets hlen, hleave]
  · obtain ⟨ts, -, hts⟩ := sendPhase_spec huinv.sized now
    refine ⟨⟨now, u.transmitted now, u.afterSend ts, false⟩, rfl,
      hrec.disciplined.concat (hrec.continues huinv hutimed now ts), fun packets hlen => ?_,
      fun _ => ⟨hrec.concat huinv hutimed hnow hts, huinv.afterSend hts.1,
        hutimed.afterSend hpos hts, hgrows.totalPkts⟩⟩
    have hlen' : packets.length = u.totalPkts := hlen.trans hgrows.totalPkts.symm
    have hstay : ¬ (u.withPackets packets).sendBase ≥ (u.withPackets packets).totalPkts := hdone
    obtain ⟨n, hsend⟩ := sendPhase_withPackets huinv.sized hlen' hts
    refine ⟨_, ?_, iteration_eq hlen' fun i hi => huinv.transmitted_lt hi, rfl, rfl⟩
    simp [senderIteration, hdrain packets hlen, hstay, hsend]
    exact fun i _ => rfl

theorem Recorded.run (h : Recorded rounds s) (hinv : SenderInv s) (htimed : Timed s)
    (inputs : List (ℤ × List Packet)) (hpos : ∀ input ∈ inputs, 0 < input.1)
    (hclock : inputs.Pairwise fun input input' => input.1 ≤ input'.1)
    (hnow : ∀ r ∈ rounds, ∀ input ∈ inputs, r.now ≤ input.1) :
    ∃ new : List Round, new.map Round.now <+: inputs.map Prod.fst ∧ Disciplined (rounds ++ new) ∧
      ∀ packets : List Packet, packets.length = s.totalPkts →
        ∃ its, senderLoop (s.withPackets packets) inputs = some its ∧
          new.mapM (Round.iteration packets) = some its := by
  -- along the inputs, with the rounds before them as the accumulator
  induction inputs generalizing s rounds with
  | nil =>
    exact ⟨[], List.prefix_rfl, by simpa using h.disciplined, fun packets _ => ⟨[], rfl, rfl⟩⟩
  | cons input inputs ih =>
    obtain ⟨now, pkts⟩ := input
    rw [List.pairwise_cons] at hclock
    by_cases hloop : s.sendBase < s.totalPkts
    · obtain ⟨r, rfl, hdisc, hrun, hnext⟩ := h.round hinv htimed (hpos (now, pkts) (by simp))
        (fun r hr => hnow r hr _ (by simp)) pkts
      by_cases hleft : r.left
      · refine ⟨[r], ⟨_, rfl⟩, hdisc, fun packets hlen => ?_⟩
        obtain ⟨it, hit, hr, hl, -⟩ := hrun packets hlen
        have hstart : (s.withPackets packets).sendBase < (s.withPackets packets).totalPkts := hloop
        exact ⟨[it], by simp [senderLoop, hstart, hit, hl, hleft], by simp [hr]⟩
      · obtain ⟨hrec, hinv', htimed', htotal⟩ := hnext (by simpa using hleft)
        have hnow' : ∀ r' ∈ rounds ++ [r], ∀ input ∈ inputs, r'.now ≤ input.1 := by
          intro r' hr' input hin
          rcases List.mem_append.mp hr' with hr' | hr'
          · exact hnow r' hr' input (List.mem_cons_of_mem _ hin)
          · exact List.mem_singleton.mp hr' ▸ hclock.1 input hin
        obtain ⟨new, hpre, hdisc', hall⟩ := ih hrec hinv' htimed'
          (fun input hin => hpos input (List.mem_cons_of_mem _ hin)) hclock.2 hnow'
        refine ⟨r :: new, ?_, by simpa using hdisc', fun packets hlen => ?_⟩
        · exact (List.prefix_cons_inj r.now).mpr hpre
        · obtain ⟨it, hit, hr, hl, hstate⟩ := hrun packets hlen
          obtain ⟨its, hits, hmap⟩ := hall packets (hlen.trans htotal.symm)
          have hstart : (s.withPackets packets).sendBase < (s.withPackets packets).totalPkts :=
            hloop
          rw [← hstate] at hits
          exact ⟨it :: its, by simp [senderLoop, hstart, hit, hl, hleft, hits],
            by simp [List.mapM_cons, hr, hmap]⟩
    · refine ⟨[], List.nil_prefix, by simpa using h.disciplined, fun packets _ => ⟨[], ?_, rfl⟩⟩
      have hstop : ¬ (s.withPackets packets).sendBase < (s.withPackets packets).totalPkts := hloop
      simp [senderLoop, hstop]

/-- For every number of packets and everything that can arrive there is one log, whatever
the packets are, and it is disciplined. -/
theorem retransmission_discipline (n : ℕ) (inputs : List (ℤ × List Packet))
    (hpos : ∀ input ∈ inputs, 0 < input.1)
    (hclock : inputs.Pairwise fun input input' => input.1 ≤ input'.1) :
    ∃ rounds : List Round, rounds.map Round.now <+: inputs.map Prod.fst ∧ Disciplined rounds ∧
      ∀ packets : List Packet, packets.length = n →
        ∃ its, senderLoop (senderStart packets) inputs = some its ∧
          rounds.mapM (Round.iteration packets) = some its := by
  have hstart := recorded_start (List.replicate n [])
  obtain ⟨rounds, hpre, hdisc, hall⟩ := hstart.run (senderStart_inv _) (senderStart_timed _)
    inputs hpos hclock (by simp)
  refine ⟨rounds, hpre, by simpa using hdisc, fun packets hlen => ?_⟩
  have heq : (senderStart (List.replicate n [])).withPackets packets = senderStart packets := by
    simp [SenderState.withPackets, senderStart, hlen]
  exact heq ▸ hall packets (by simp [senderStart, hlen])

theorem retransmission_discipline_two :
    ∃ rounds : List Round, Disciplined rounds ∧
      ∃ its, senderLoop (senderStart [[0], [1]])
          [(1, []), (300, [buildAckPacket 0 2]), (702, [])] = some its ∧
        rounds.mapM (Round.iteration [[0], [1]]) = some its := by
  obtain ⟨rounds, -, hdisc, hall⟩ := retransmission_discipline 2
    [(1, []), (300, [buildAckPacket 0 2]), (702, [])] (by decide) (by decide)
  exact ⟨rounds, hdisc, hall [[0], [1]] rfl⟩

end RdtChallenge
