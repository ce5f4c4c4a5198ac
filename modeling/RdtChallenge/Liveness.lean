import RdtChallenge.ArrivalOrder
import RdtChallenge.InfiniteRun
import RdtChallenge.Progress

namespace RdtChallenge
open Filter JointState
open InfiniteRun (IsRun)

variable {file : List Byte} {s t u : JointState} {clock : Clock}

def SendsData (s t : JointState) (packet : Packet) : Prop :=
  ∃ out, t.sentData = s.sentData ++ out ∧ packet ∈ out

def SendsAck (s t : JointState) (packet : Packet) : Prop :=
  ∃ out, t.sentAcks = s.sentAcks ++ out ∧ packet ∈ out

def TakesData (s : JointState) (a : Action) (packet : Packet) : Prop :=
  ∃ i now, a = .receiverReceive i now ∧ s.dataNet[i]? = some packet

def TakesAck (s : JointState) (a : Action) (packet : Packet) : Prop :=
  ∃ i, a = .senderReceive i ∧ s.ackNet[i]? = some packet

/-- A run that is fair until the receiver returns. -/
structure FairRun (file : List Byte) (ss : ℕ → JointState) (as : ℕ → Action) : Prop where
  start : JointReachable steadyClock file (ss 0)
  steps : IsRun (step steadyClock) ss as
  no_stop : ∀ n, (ss n).result = none → (ss n).stop = false
  /-- The sender's loop goes round for ever. -/
  sender_clock : ∀ bound n, ∃ m ≥ n, (ss m).result ≠ none ∨ bound < (ss m).senderClock
  receiver_clock : ∀ bound n, ∃ m ≥ n, (ss m).result ≠ none ∨ bound < (ss m).receiverClock
  /-- What is sent infinitely often is delivered infinitely often. -/
  data_fair : ∀ packet, (∃ᶠ n in atTop, SendsData (ss n) (ss (n + 1)) packet) →
    ∃ᶠ n in atTop, (ss n).result ≠ none ∨ TakesData (ss n) (as n) (carry packet)
  ack_fair : ∀ packet, (∃ᶠ n in atTop, SendsAck (ss n) (ss (n + 1)) packet) →
    ∃ᶠ n in atTop, (ss n).result ≠ none ∨ TakesAck (ss n) (as n) (carry packet)

structure Advances (s t : JointState) : Prop where
  base : s.sender.sendBase ≤ t.sender.sendBase
  next : s.sender.nextSeq ≤ t.sender.nextSeq
  recvExpected : s.receiver.recvExpected ≤ t.receiver.recvExpected
  held : ∀ i, s.receiver.Held i → t.receiver.Held i

theorem Advances.refl (s : JointState) : Advances s s := ⟨le_rfl, le_rfl, le_rfl, fun _ => id⟩

theorem Advances.trans (h : Advances s t) (h' : Advances t u) : Advances s u where
  base := h.base.trans h'.base
  next := h.next.trans h'.next
  recvExpected := h.recvExpected.trans h'.recvExpected
  held i hi := h'.held i (h.held i hi)

theorem Coherent.received (h : Coherent file s) (hfile : packetCount file.length ≤ 65535)
    {k : ℕ} {packet : Packet} {now : ℤ} {b : Reception} {result : Option (List Value)}
    (hget : s.dataNet[k]? = some packet)
    (hrun : RdtChallenge.receiverIteration s.receiver packet now = some (b, result)) :
    ∃ i < packetCount file.length, packet = dataPacket file i ∧ b.sent = [b.state.lastAck] ∧
      b.state.Held i ∧ s.receiver.recvExpected ≤ b.state.recvExpected ∧
      ∀ j, s.receiver.Held j → b.state.Held j := by
  obtain ⟨i, -, hi, rfl⟩ := h.mem_dataNet (List.mem_of_getElem? hget)
  obtain ⟨r', mask, hrun', -, -, -, hstored, -⟩ := h.receiverIteration hfile hi now
  rw [hrun', Option.some.injEq, Prod.mk.injEq] at hrun
  obtain ⟨rfl, -⟩ := hrun
  exact ⟨i, hi, rfl, rfl, (hstored.held i).mpr (Or.inr ⟨rfl, hi⟩), hstored.recvExpected,
    fun j hj => (hstored.held j).mpr (Or.inl hj)⟩

theorem Coherent.advances (h : Coherent file s) (hfile : packetCount file.length ≤ 65535)
    (hinv : SelectiveRepeat.Inv 16 s.abs) {a : Action} (he : Effect clock s a t) :
    Advances s t := by
  cases he with
  | ack i now packet sender hphase hget hrun =>
    obtain ⟨r, -, -, hgrows, -⟩ := h.ack hfile hinv (List.mem_of_getElem? hget) hrun
    exact ⟨hgrows.sendBase, hgrows.nextSeq, le_rfl, fun _ => id⟩
  | send now b hphase hlt hrun =>
    obtain ⟨ts, rfl, -⟩ := sendPhase_eq h.sender.sized hrun
    have hgrows := grows_afterSend s.sender ts
    exact ⟨hgrows.sendBase, hgrows.nextSeq, le_rfl, fun _ => id⟩
  | reject i now packet b result hresult hget hrun hsent =>
    exact absurd hsent (h.not_reject hfile hget hrun)
  | receive i now packet b result hresult hget hclock hrun hsent =>
    obtain ⟨_, -, -, -, -, hle, hheld⟩ := h.received hfile hget hrun
    exact ⟨le_rfl, le_rfl, hle, hheld⟩
  | idle now hresult hclock =>
    have hkeep : (keepAlive s.receiver now).state.recvExpected = s.receiver.recvExpected ∧
        ∀ i, (keepAlive s.receiver now).state.Held i ↔ s.receiver.Held i := by
      unfold keepAlive
      split_ifs <;> exact ⟨rfl, fun _ => Iff.rfl⟩
    exact ⟨le_rfl, le_rfl, hkeep.1.ge, fun i hi => (hkeep.2 i).mpr hi⟩
  | fault hwhy => exact absurd hwhy (h.not_fault hfile)
  | _ => exact ⟨le_rfl, le_rfl, le_rfl, fun _ => id⟩

theorem Coherent.receiver_step (h : Coherent file s) (hfile : packetCount file.length ≤ 65535)
    {a : Action} (he : Effect clock s a t) :
    t.receiver = s.receiver ∧ (t.receiverClock = s.receiverClock ∨ s.receiver.lastAck = [] ∨
        t.receiverClock - s.receiver.lastRecvTime ≤ ackKeepaliveMs) ∨
      SendsAck s t t.receiver.lastAck := by
  cases he with
  | reject i now packet b result hresult hget hrun hsent =>
    exact absurd hsent (h.not_reject hfile hget hrun)
  | receive i now packet b result hresult hget hclock hrun hsent =>
    obtain ⟨_, -, -, hsends, -⟩ := h.received hfile hget hrun
    exact Or.inr ⟨b.sent, rfl, by simp [hsends, afterReceiving]⟩
  | idle now hresult hclock =>
    by_cases hfire : s.receiver.lastAck ≠ [] ∧ now - s.receiver.lastRecvTime > ackKeepaliveMs
    · right
      have hkeep : keepAlive s.receiver now =
          ⟨{ s.receiver with lastRecvTime := now }, [s.receiver.lastAck], false⟩ := if_pos hfire
      exact ⟨[s.receiver.lastAck], by simp [afterReceiving, hkeep],
        by simp [afterReceiving, hkeep]⟩
    · left
      have hkeep : keepAlive s.receiver now = ⟨s.receiver, [], false⟩ := if_neg hfire
      refine ⟨by simp [afterReceiving, hkeep], Or.inr ?_⟩
      by_cases hempty : s.receiver.lastAck = []
      · exact Or.inl hempty
      · exact Or.inr (not_lt.mp fun hlate => hfire ⟨hempty, hlate⟩)
  | fault hwhy => exact absurd hwhy (h.not_fault hfile)
  | _ => exact Or.inl ⟨rfl, Or.inl rfl⟩

theorem Coherent.sentTime_step (h : Coherent file s) (hfile : packetCount file.length ≤ 65535)
    {a : Action} (he : Effect clock s a t) {i : ℕ} (hi : i < packetCount file.length) :
    t.sender.sentTime[i]? = s.sender.sentTime[i]? ∨ SendsData s t (dataPacket file i) := by
  cases he with
  | ack j now packet sender hphase hget hrun =>
    obtain ⟨-, -, -, htime⟩ := h.sender.processAck hrun
    exact Or.inl (by dsimp only; rw [htime])
  | send now b hphase hlt hrun =>
    obtain ⟨ts, rfl, -, hts⟩ := sendPhase_eq h.sender.sized hrun
    by_cases hmem : i ∈ s.sender.transmitted now
    · exact Or.inr ⟨_, rfl, List.mem_map.mpr ⟨i, hmem, h.packet hi⟩⟩
    · left
      have hread := hts i
      rwa [if_neg hmem] at hread
  | fault hwhy => exact absurd hwhy (h.not_fault hfile)
  | _ => exact Or.inl rfl

theorem Coherent.drained_step (h : Coherent file s) (hfile : packetCount file.length ≤ 65535)
    (hinv : SelectiveRepeat.Inv 16 s.abs) (hr : Running s) {now : ℤ} {a : Action}
    (he : Effect clock s a t) (hphase : s.phase = .draining now)
    (hleft : t.phase ≠ .draining now) :
    ∃ b, sendPhase now s.sender = some b ∧ t = s.afterSending b := by
  cases he with
  | enter now' hphase' => simp [hphase] at hphase'
  | leave ha hphase' hwhy =>
    have := h.base_lt hinv hr.result
    rcases hwhy with hstop | hle
    · exact absurd hstop (by simp [hr.stop])
    · omega
  | send now' b hphase' hlt hrun =>
    obtain rfl : now = now' := Phase.draining.inj (hphase.symm.trans hphase')
    exact ⟨b, hrun, rfl⟩
  | fault hwhy => exact absurd hwhy (h.not_fault hfile)
  | _ => exact absurd hphase hleft

theorem senderClock_step {a : Action} (he : Effect clock s a t) :
    t.senderClock = s.senderClock ∨
      s.phase = .top ∧ ∃ now, t.phase = .draining now ∧ t.senderClock = now := by
  cases he with
  | enter now hphase => exact Or.inr ⟨hphase, now, rfl, rfl⟩
  | _ => exact Or.inl rfl

theorem Coherent.held_of_takes (h : Coherent file s) (hfile : packetCount file.length ≤ 65535)
    {a : Action} (he : Effect clock s a t) {i : ℕ} (hi : i < packetCount file.length)
    (htakes : TakesData s a (dataPacket file i)) : t.receiver.Held i := by
  obtain ⟨k, now, rfl, hget⟩ := htakes
  cases he with
  | leave ha => simp at ha
  | network ha => cases ha
  | reject _ _ packet b result hresult hget' hrun hsent =>
    exact absurd hsent (h.not_reject hfile hget' hrun)
  | receive _ _ packet b result hresult hget' hclock hrun hsent =>
    obtain rfl := Option.some.inj (hget.symm.trans hget')
    obtain ⟨j, hj, hpacket, -, hheld, -⟩ := h.received hfile hget hrun
    have hd := decode_dataPacket hi hfile
    rw [hpacket, decode_dataPacket hj hfile, Option.some.injEq, Prod.mk.injEq] at hd
    exact hd.1 ▸ hheld
  | fault hwhy => exact absurd hwhy (h.not_fault hfile)

theorem Coherent.base_of_takes (h : Coherent file s) (hfile : packetCount file.length ≤ 65535)
    {a : Action} (he : Effect clock s a t) {ab : ℕ} {mask : BitVec 16}
    (hab : ab ≤ s.sender.nextSeq) (htakes : TakesAck s a (buildAckPacket ab mask)) :
    ab ≤ t.sender.sendBase := by
  have hsmall : ab < 2 ^ 16 := by
    have := h.sender.sized.next_le
    rw [h.totalPkts] at this
    omega
  obtain ⟨k, rfl, hget⟩ := htakes
  cases he with
  | leave ha => simp at ha
  | network ha => cases ha
  | ack _ now packet sender hphase hget' hrun =>
    obtain rfl := Option.some.inj (hget.symm.trans hget')
    obtain ⟨v, hv, -⟩ := processAck_accept h.sender.sized (decode_buildAckPacket hsmall mask) hab
    obtain rfl := Option.some.inj (hrun.symm.trans hv)
    exact le_max_right _ _
  | fault hwhy => exact absurd hwhy (h.not_fault hfile)

/-- How far the transfer has got. -/
def progress (total : ℕ) (s : JointState) : ℕ :=
  s.sender.sendBase + s.sender.nextSeq + s.receiver.recvExpected +
    ((Finset.range total).filter s.receiver.Held).card

theorem Coherent.recvExpected_le (h : Coherent file s) :
    s.receiver.recvExpected ≤ packetCount file.length := by
  have := h.receiver.least.le
  rcases h.announced with h0 | heq <;> omega

theorem Coherent.held_lt (h : Coherent file s) {i : ℕ} (hi : s.receiver.Held i) :
    i < packetCount file.length := by
  have := hi.lt h.receiver.sized
  rcases h.announced with h0 | heq <;> omega

theorem Coherent.progress_le (h : Coherent file s) :
    progress (packetCount file.length) s ≤ 4 * packetCount file.length := by
  have hbase := h.sender.sized.base_le
  have hnext := h.sender.sized.next_le
  have hrecv := h.recvExpected_le
  have hcard := Finset.card_filter_le (Finset.range (packetCount file.length)) s.receiver.Held
  rw [h.totalPkts] at hnext
  rw [Finset.card_range] at hcard
  unfold progress
  omega

theorem Advances.symm_of_progress (h : Advances s t) (ht : Coherent file t)
    (hle : progress (packetCount file.length) t ≤ progress (packetCount file.length) s) :
    Advances t s := by
  have hsub : (Finset.range (packetCount file.length)).filter s.receiver.Held ⊆
      (Finset.range (packetCount file.length)).filter t.receiver.Held := by
    intro i hi
    rw [Finset.mem_filter] at hi ⊢
    exact ⟨hi.1, h.held i hi.2⟩
  have hcard := Finset.card_le_card hsub
  have hbase := h.base
  have hnext := h.next
  have hrecv := h.recvExpected
  unfold progress at hle
  refine ⟨by omega, by omega, by omega, fun i hi => ?_⟩
  have hsame := Finset.eq_of_subset_of_card_le hsub (by omega)
  have hmem : i ∈ (Finset.range (packetCount file.length)).filter t.receiver.Held :=
    Finset.mem_filter.mpr ⟨Finset.mem_range.mpr (ht.held_lt hi), hi⟩
  rw [← hsame, Finset.mem_filter] at hmem
  exact hmem.2

/-- From `n` on the receiver does not return and nothing is gained. -/
def Stuck (ss : ℕ → JointState) (n : ℕ) : Prop :=
  ∀ m ≥ n, (ss m).result = none ∧ Advances (ss m) (ss n)

namespace FairRun
variable {ss : ℕ → JointState} {as : ℕ → Action} {n m : ℕ}
  (hfile : packetCount file.length ≤ 65535) (h : FairRun file ss as)
include h

theorem reachable (n : ℕ) : JointReachable steadyClock file (ss n) := by
  obtain ⟨as, hrun⟩ := h.steps.reachable n
  exact h.start.run hrun

theorem effect (n : ℕ) : Effect steadyClock (ss n) (as n) (ss (n + 1)) := step_effect (h.steps n)

include hfile

theorem coherent (n : ℕ) : Coherent file (ss n) := ((h.reachable n).coherent hfile).1

theorem advances (hnm : n ≤ m) : Advances (ss n) (ss m) :=
  InfiniteRun.rel_of_steps Advances.refl (fun _ _ _ => Advances.trans)
    (fun k => (h.coherent hfile k).advances hfile ((h.reachable k).inv hfile) (h.effect k)) hnm

theorem exists_send (hstuck : Stuck ss n) (bound : ℤ) (hm : n ≤ m) :
    ∃ k ≥ m, ∃ now b, bound < now ∧ sendPhase now (ss k).sender = some b ∧
      ss (k + 1) = (ss k).afterSending b := by
  -- a reading that is late enough starts an iteration
  obtain ⟨m₁, hm₁, hres | hlate⟩ := h.sender_clock (max bound (ss m).senderClock) m
  · exact absurd (hstuck m₁ (le_trans hm hm₁)).1 hres
  obtain ⟨k₁, hk₁, -, hearly, hnow⟩ := InfiniteRun.exists_crossing
    (p := fun j => (ss j).senderClock ≤ max bound (ss m).senderClock) hm₁ (le_max_right _ _)
    (not_le.mpr hlate)
  obtain hsame | ⟨-, now, hphase, hclock⟩ := senderClock_step (h.effect k₁)
  · rw [hsame] at hnow
    exact absurd hearly hnow
  -- and before the next reading that iteration has sent
  obtain ⟨m₂, hm₂, hres | hlater⟩ := h.sender_clock now (k₁ + 1)
  · exact absurd (hstuck m₂ (by omega)).1 hres
  obtain ⟨k₂, hk₂, -, ⟨hphase₂, hclock₂⟩, hleft⟩ := InfiniteRun.exists_crossing
    (p := fun j => (ss j).phase = .draining now ∧ (ss j).senderClock = now) hm₂ ⟨hphase, hclock⟩
    (fun hp => absurd hp.2 hlater.ne')
  have hresult := (hstuck k₂ (by omega)).1
  have hleft' : (ss (k₂ + 1)).phase ≠ .draining now := by
    intro hp
    obtain hsame | ⟨htop, -⟩ := senderClock_step (h.effect k₂)
    · exact hleft ⟨hp, hsame.trans hclock₂⟩
    · simp [hphase₂] at htop
  obtain ⟨b, hrun, hsent⟩ := (h.coherent hfile k₂).drained_step hfile ((h.reachable k₂).inv hfile)
    ⟨hresult, h.no_stop k₂ hresult⟩ (h.effect k₂) hphase₂ hleft'
  refine ⟨k₂, by omega, now, b, ?_, hrun, hsent⟩
  rw [hclock, not_le] at hnow
  exact lt_of_le_of_lt (le_max_left _ _) hnow

theorem missing_sent (hstuck : Stuck ss n)
    (hlt : (ss n).receiver.recvExpected < (ss n).sender.nextSeq) (hm : n ≤ m) :
    ∃ k ≥ m, SendsData (ss k) (ss (k + 1)) (dataPacket file (ss n).receiver.recvExpected) := by
  set e := (ss n).receiver.recvExpected with he
  have hcoh := h.coherent hfile m
  have heT : e < packetCount file.length := by
    have := (h.coherent hfile n).sender.sized.next_le
    rw [(h.coherent hfile n).totalPkts] at this
    omega
  obtain ⟨t₀, hread⟩ : ∃ t₀, (ss m).sender.sentTime[e]? = some t₀ :=
    ⟨_, List.getElem?_eq_getElem (by rw [hcoh.sender.sized.sentTime, hcoh.totalPkts]; exact heT)⟩
  obtain ⟨k, hk, now, b, hlate, hrun, hsent⟩ := h.exists_send hfile hstuck (t₀ + timeoutMs) hm
  by_cases hsame : (ss k).sender.sentTime[e]? = (ss m).sender.sentTime[e]?
  · -- not sent in the meantime, so it is due
    have hcohk := h.coherent hfile k
    have hinvk := (h.reachable k).inv hfile
    have hadv := h.advances hfile (hm.trans hk)
    have hexp : (ss k).receiver.recvExpected = e :=
      le_antisymm (hstuck k (hm.trans hk)).2.recvExpected hadv.recvExpected
    have hnext : e < (ss k).sender.nextSeq := hlt.trans_le hadv.next
    have hmissing : ¬ (ss k).sender.Acked e := by
      intro ha
      exact hcohk.receiver.least.missing (hexp ▸ hinvk.acked_held ha)
    have hbase : (ss k).sender.sendBase ≤ e := hexp ▸ hcohk.base_le_recvExpected hinvk
    have hpos := (((h.reachable k).paced hfile).timed e t₀ (hsame.trans hread)).mpr hnext
    have hdue : timeoutMs < now - t₀ := by omega
    have hmem := SenderState.transmitted_of_late hcohk.sender.sized hbase hnext hmissing
      (hsame.trans hread) hpos hdue
    obtain ⟨ts, rfl, -⟩ := sendPhase_eq hcohk.sender.sized hrun
    refine ⟨k, hk, _, congrArg JointState.sentData hsent, ?_⟩
    exact List.mem_map.mpr ⟨e, hmem, hcohk.packet heT⟩
  · obtain ⟨j, hj, -, hjsame, hjchange⟩ := InfiniteRun.exists_crossing
      (p := fun j => (ss j).sender.sentTime[e]? = (ss m).sender.sentTime[e]?) hk rfl hsame
    refine ⟨j, hj, ?_⟩
    refine ((h.coherent hfile j).sentTime_step hfile (h.effect j) heT).resolve_left fun heq => ?_
    exact hjchange (heq.trans hjsame)

theorem next_eq_of_stuck (hstuck : Stuck ss n) :
    (ss n).receiver.recvExpected = (ss n).sender.nextSeq := by
  have hcoh := h.coherent hfile n
  have hle := hcoh.recvExpected_le_next ((h.reachable n).inv hfile)
  by_contra hne
  have hlt : (ss n).receiver.recvExpected < (ss n).sender.nextSeq := by omega
  have heT : (ss n).receiver.recvExpected < packetCount file.length := by
    have := hcoh.sender.sized.next_le
    rw [hcoh.totalPkts] at this
    omega
  have hsent := InfiniteRun.frequently_of_forall fun m hm => h.missing_sent hfile hstuck hlt hm
  obtain ⟨m, hm, hres | htakes⟩ := (frequently_atTop.mp (h.data_fair _ hsent)) n
  · exact hres (hstuck m hm).1
  · rw [carry_dataPacket] at htakes
    have hheld := (h.coherent hfile m).held_of_takes hfile (h.effect m) heT htakes
    exact hcoh.receiver.least.missing ((hstuck (m + 1) (by omega)).2.held _ hheld)

/-- The window is full: the sender waits for acknowledgements of what has arrived. -/
theorem base_lt_of_stuck (hstuck : Stuck ss n) :
    (ss n).sender.sendBase < (ss n).receiver.recvExpected := by
  obtain ⟨k, hk, now, b, -, hrun, hsent⟩ := h.exists_send hfile hstuck 0 le_rfl
  have hcohk := h.coherent hfile k
  have hadv := h.advances hfile hk
  have hnext : (ss k).sender.nextSeq = (ss n).sender.nextSeq :=
    le_antisymm (hstuck k hk).2.next hadv.next
  obtain ⟨ts, rfl, -⟩ := sendPhase_eq hcohk.sender.sized hrun
  have hafter := (hstuck (k + 1) (by omega)).2.next
  rw [hsent, ← hnext] at hafter
  dsimp only [afterSending, SenderState.afterSend] at hafter
  -- nothing new was sent, although there is more of the file
  have hmore : (ss k).sender.nextSeq < (ss k).sender.totalPkts := by
    have := hcohk.recvExpected_lt (hstuck k hk).1
    have := (hstuck k hk).2.recvExpected
    have := h.next_eq_of_stuck hfile hstuck
    have := hadv.recvExpected
    omega
  have hfull : 0 < (ss k).sender.unacked.card := by
    have hrefill : (ss k).sender.refill = 0 := by omega
    simp only [SenderState.refill, window] at hrefill
    omega
  obtain ⟨i, hi⟩ := Finset.card_pos.mp hfull
  have hmem := Finset.mem_Ico.mp (Finset.mem_of_mem_filter i hi)
  have := hadv.base
  have := h.next_eq_of_stuck hfile hstuck
  omega

theorem exists_lastAck (hstuck : Stuck ss n) : ∃ mask, ∀ m ≥ n,
    (ss m).receiver.lastAck = buildAckPacket (ss n).receiver.recvExpected mask := by
  have hpos := h.base_lt_of_stuck hfile hstuck
  have hbuilt : ∀ m ≥ n, ∃ mask, (ss m).receiver.Masked mask ∧
      (ss m).receiver.lastAck = buildAckPacket (ss n).receiver.recvExpected mask := by
    intro m hm
    have hcoh := h.coherent hfile m
    have hexp : (ss m).receiver.recvExpected = (ss n).receiver.recvExpected :=
      le_antisymm (hstuck m hm).2.recvExpected (h.advances hfile hm).recvExpected
    obtain ⟨mask, hlast, hmasked⟩ := hcoh.receiver.lastAck.resolve_left
      fun hnone => hnone.2 0 (hcoh.receiver.least.below 0 (by omega))
    exact ⟨mask, hmasked, hexp ▸ hlast⟩
  obtain ⟨mask, hmasked, -⟩ := hbuilt n le_rfl
  refine ⟨mask, fun m hm => ?_⟩
  obtain ⟨mask', hmasked', hlast⟩ := hbuilt m hm
  have hadv := h.advances hfile hm
  rw [hlast, mask_unique hmasked' hmasked
    (le_antisymm (hstuck m hm).2.recvExpected hadv.recvExpected)
    fun i => ⟨(hstuck m hm).2.held i, hadv.held i⟩]

theorem lastAck_sent (hstuck : Stuck ss n) {packet : Packet} (hne : packet ≠ [])
    (hlast : ∀ m ≥ n, (ss m).receiver.lastAck = packet) (hm : n ≤ m) :
    ∃ k ≥ m, SendsAck (ss k) (ss (k + 1)) packet := by
  have hstep : ∀ k ≥ m, (ss (k + 1)).receiver = (ss k).receiver ∧
      ((ss (k + 1)).receiverClock = (ss k).receiverClock ∨
        (ss (k + 1)).receiverClock - (ss k).receiver.lastRecvTime ≤ ackKeepaliveMs) ∨
      SendsAck (ss k) (ss (k + 1)) packet := by
    intro k hk
    rw [← hlast (k + 1) (by omega)]
    refine ((h.coherent hfile k).receiver_step hfile (h.effect k)).imp_left fun hquiet => ?_
    refine ⟨hquiet.1, hquiet.2.imp_right fun hor => hor.resolve_left ?_⟩
    rw [hlast k (by omega)]
    exact hne
  obtain ⟨m₁, hm₁, hres | hlate⟩ := h.receiver_clock
    (max ((ss m).receiver.lastRecvTime + ackKeepaliveMs) (ss m).receiverClock) m
  · exact absurd (hstuck m₁ (le_trans hm hm₁)).1 hres
  obtain ⟨k, hk, -, hearly, hnow⟩ := InfiniteRun.exists_crossing
    (p := fun j => (ss j).receiverClock ≤
      max ((ss m).receiver.lastRecvTime + ackKeepaliveMs) (ss m).receiverClock)
    hm₁ (le_max_right _ _) (not_le.mpr hlate)
  obtain ⟨-, hsame | hquiet⟩ | hsends := hstep k hk
  · rw [hsame] at hnow
    exact absurd hearly hnow
  · -- the time of the last one has changed since, and that was a sending
    have hchanged : ¬ (ss k).receiver.lastRecvTime = (ss m).receiver.lastRecvTime := by
      intro heq
      rw [heq] at hquiet
      exact hnow (le_trans (by omega) (le_max_left _ _))
    obtain ⟨j, hj, -, hjsame, hjchange⟩ := InfiniteRun.exists_crossing
      (p := fun j => (ss j).receiver.lastRecvTime = (ss m).receiver.lastRecvTime) hk rfl hchanged
    refine ⟨j, hj, (hstep j hj).resolve_left fun hquiet' => hjchange ?_⟩
    rw [hquiet'.1, hjsame]
  · exact ⟨k, hk, hsends⟩

theorem not_stuck : ¬ Stuck ss n := by
  intro hstuck
  obtain ⟨mask, hlast⟩ := h.exists_lastAck hfile hstuck
  have hne : buildAckPacket (ss n).receiver.recvExpected mask ≠ [] := List.cons_ne_nil _ _
  have hsent := InfiniteRun.frequently_of_forall
    fun m hm => h.lastAck_sent hfile hstuck hne hlast hm
  obtain ⟨m, hm, hres | htakes⟩ := (frequently_atTop.mp (h.ack_fair _ hsent)) n
  · exact hres (hstuck m hm).1
  · rw [carry_buildAckPacket] at htakes
    -- the base moves to where the receiver is
    have hab : (ss n).receiver.recvExpected ≤ (ss m).sender.nextSeq :=
      (h.next_eq_of_stuck hfile hstuck).le.trans (h.advances hfile hm).next
    have hmoved := (h.coherent hfile m).base_of_takes hfile (h.effect m) hab htakes
    have hkept := (hstuck (m + 1) (by omega)).2.base
    have := h.base_lt_of_stuck hfile hstuck
    omega

/-- While the receiver has not returned something is gained, and that comes to an end. -/
theorem returns : ∃ n, (ss n).result ≠ none := by
  refine InfiniteRun.exists_of_progress (fun n => progress (packetCount file.length) (ss n))
    (4 * packetCount file.length) (fun n => (h.coherent hfile n).progress_le) fun n => ?_
  by_contra hno
  push Not at hno
  refine h.not_stuck hfile (n := n) fun m hm => ⟨(hno m).1, ?_⟩
  exact (h.advances hfile hm).symm_of_progress (h.coherent hfile m) (hno m).2

end FairRun

/-- In every fair run the receiver returns, and what it returns is the file. -/
theorem fair_run_completes (hfile : packetCount file.length ≤ 65535) {ss : ℕ → JointState}
    {as : ℕ → Action} (h : FairRun file ss as) :
    ∃ n, (ss n).result = some (file.map byteValue) := by
  obtain ⟨n, hres⟩ := h.returns hfile
  obtain ⟨out, hout⟩ := Option.ne_none_iff_exists'.mp hres
  exact ⟨n, hout.trans (congrArg some ((h.coherent hfile n).returned out hout).2)⟩

def oneByteAction : ℕ → Action
  | 0 => .senderTop 1
  | 1 => .senderSend
  | 2 => .receiverReceive 0 2
  | _ => .setStop

def oneByteState : ℕ → JointState
  | 0 => initial [dataPacket [0x89] 0] 1
  | n + 1 => (step steadyClock (oneByteState n) (oneByteAction n)).getD (oneByteState n)

theorem oneByteState_result (n : ℕ) : (oneByteState (n + 3)).result = some [0x89] := by
  induction n with
  | zero => decide +kernel
  | succ n ih => exact ih

theorem fair_run_completes_one_byte : ∃ ss as, FairRun [0x89] ss as ∧
    ∃ n, (ss n).result = some ([(0x89 : Byte)].map byteValue) := by
  have hdone : ∀ n ≥ 3, (oneByteState n).result ≠ none := by
    intro n hn
    obtain ⟨k, rfl⟩ := Nat.exists_eq_add_of_le' hn
    rw [oneByteState_result]
    exact Option.some_ne_none _
  have hrun : FairRun [0x89] oneByteState oneByteAction := by
    refine ⟨⟨_, 1, by decide +kernel, by decide, .refl _ _⟩, ?_, ?_, ?_, ?_, ?_, ?_⟩
    · intro n
      match n with
      | 0 => decide +kernel
      | 1 => decide +kernel
      | 2 => decide +kernel
      | _ + 3 => rfl
    · intro n hn
      match n with
      | 0 => rfl
      | 1 => decide +kernel
      | 2 => decide +kernel
      | n + 3 => exact absurd hn (hdone _ (by omega))
    · exact fun bound n => ⟨max n 3, le_max_left _ _, Or.inl (hdone _ (le_max_right _ _))⟩
    · exact fun bound n => ⟨max n 3, le_max_left _ _, Or.inl (hdone _ (le_max_right _ _))⟩
    · exact fun packet _ => InfiniteRun.frequently_of_forall
        fun m (hm : m ≥ 3) => ⟨m, le_rfl, Or.inl (hdone m hm)⟩
    · exact fun packet _ => InfiniteRun.frequently_of_forall
        fun m (hm : m ≥ 3) => ⟨m, le_rfl, Or.inl (hdone m hm)⟩
  exact ⟨oneByteState, oneByteAction, hrun, fair_run_completes (by decide) hrun⟩

end RdtChallenge
