import RdtChallenge.InfiniteRun
import RdtChallenge.Refinement

namespace RdtChallenge

def relayOf (packet : Packet) : Message := packetWord ++ space :: base64Encode packet

theorem isPacket_relayOf (packet : Packet) : isPacket (relayOf packet) = true :=
  startsWith_iff.mpr (List.prefix_append _ _)

theorem payloadOf_relayOf (packet : Packet) : payloadOf (relayOf packet) = carry packet := by
  have hspace : space ∉ base64Encode packet := not_mem_base64Encode (by decide) (by decide) packet
  rw [payloadOf, relayOf, split_word (by decide) hspace, packetContents_base64Encode]

namespace Process
open InfiniteRun (Unbounded)
open Filter

variable {S : Settings} {p q : Process} {a : ProcessAction} {packet : Packet}

theorem written_grows (hstep : step S p a = some q) : p.written <+: q.written := by
  obtain ⟨-, he⟩ := step_effect hstep
  cases he with
  | register | request | upload | farewell | act | transmit => exact List.prefix_append _ _
  | _ => exact List.prefix_rfl

theorem acted_grows (hstep : step S p a = some q) : p.acted <+: q.acted := by
  obtain ⟨-, he⟩ := step_effect hstep
  cases he with
  | greeted | registered | act => exact List.prefix_append _ _
  | _ => exact List.prefix_rfl

theorem queue_cases (hstep : step S p a = some q) :
    p.client.inputPacketBuffer <+: q.client.inputPacketBuffer ∨ ∃ packet, p.Takes q packet := by
  obtain ⟨-, he⟩ := step_effect hstep
  cases he with
  | listen chunk c hmain hget | greeted chunk c hmain hget | registered chunk c hmain hget
  | quiet chunk written c hloop hget =>
    obtain ⟨_, _, rfl⟩ := getControlMessage_frame hget
    exact Or.inl List.prefix_rfl
  | act chunk written c c' message input hloop hget hc hne hhandle =>
    have hframe := handleMessage_frame input message c
    rw [hhandle] at hframe
    obtain ⟨_, _, hc'⟩ := getControlMessage_frame hget
    rw [hc'] at hframe
    left
    rcases hframe.inputPacketBuffer with hsame | ⟨-, happend⟩
    · exact hsame ▸ List.prefix_rfl
    · exact happend ▸ List.prefix_append _ _
  | acknowledge t now packet rest state ht hphase hqueue => exact Or.inr ⟨packet, rest, hqueue, rfl⟩
  | reject r now packet rest b result hr hreceiving hqueue =>
    exact Or.inr ⟨packet, rest, hqueue, rfl⟩
  | receive r now packet rest b result hr hreceiving hqueue =>
    exact Or.inr ⟨packet, rest, hqueue, rfl⟩
  | _ => exact Or.inl List.prefix_rfl

def Writes (p q : Process) (packet : Packet) : Prop := q.written = p.written ++ [.transmit packet]

theorem writes_of_count (hstep : step S p a = some q)
    (h : (p.written.filterMap Request.packet?).count packet <
      (q.written.filterMap Request.packet?).count packet) : p.Writes q packet := by
  obtain ⟨-, he⟩ := step_effect hstep
  cases he with
  | register | request | upload | farewell =>
    simp [List.filterMap_cons, Request.packet?] at h
  | act chunk written c c' message input hloop hget hc hne hhandle =>
    cases hchecksum : checksumIn S message c with
    | none => simp [hchecksum] at h
    | some r =>
      obtain ⟨-, challenge, contents, rfl⟩ := checksumIn_eq hchecksum
      simp [hchecksum, List.filterMap_cons, Request.packet?] at h
  | transmit packet' rest hloop hstarted hqueue =>
    obtain rfl : packet' = packet := by
      by_contra hne
      simp [Request.packet?, hne] at h
    rfl
  | _ => exact absurd h (lt_irrefl _)

theorem queued_of_count (hstep : step S p a = some q) {m : Message} (hm : isPacket m = true)
    (hstarted : p.client.simulationStarted = true) (h : p.acted.count m < q.acted.count m) :
    q.client.inputPacketBuffer = p.client.inputPacketBuffer ++ [payloadOf m] := by
  have hother : ∀ word : Message, isPacket word = false →
      (p.acted ++ [word]).count m = p.acted.count m := by
    intro word hword
    have hne : word ≠ m := by
      rintro rfl
      simp [hm] at hword
    simp [List.count_append, hne]
  obtain ⟨-, he⟩ := step_effect hstep
  cases he with
  | greeted chunk c hmain hget hc =>
    have hsame := hother c.currentControlMessage (hc ▸ by decide)
    exact absurd hsame h.ne'
  | registered chunk c hmain hget hc =>
    have hsame := hother c.currentControlMessage (hc ▸ by decide)
    exact absurd hsame h.ne'
  | act chunk written c c' message input hloop hget hc hne hhandle =>
    obtain rfl : message = m := by
      by_contra hdiff
      simp [List.count_append, hdiff] at h
    have hnot : isStart message = true → 3 ≤ (split message space).length := fun hs =>
      absurd (not_isPacket_of_isStart hs) (by simp [hm])
    obtain ⟨hhandled, -⟩ := handleMessage_spec input hne hnot c
    rw [hhandle] at hhandled
    obtain ⟨_, _, hc'⟩ := getControlMessage_frame hget
    have hqueue := hhandled.inputPacketBuffer
    rw [hc'] at hqueue
    simpa [hstarted, hm] using hqueue
  | _ => exact absurd h (lt_irrefl _)

theorem loopSend_first {written : Bool} (hstep : step S p (.loopSend written) = some q)
    (hstarted : p.client.simulationStarted = true) {rest : List Packet}
    (hqueue : p.client.outputPacketBuffer = packet :: rest) :
    q.ended ≠ none ∨ p.Writes q packet := by
  simp only [step, loopSend, hstarted, hqueue] at hstep
  split_ifs at hstep with hended hloop hwritten <;> obtain rfl := Option.some.inj hstep
  · exact Or.inr rfl
  · exact Or.inl (by simp [exit])

/-- At each moment the process takes a step, or stays as it is. -/
def Lives (S : Settings) (ps : ℕ → Process) : Prop :=
  ∀ n, ps (n + 1) = ps n ∨ ∃ a, step S (ps n) a = some (ps (n + 1))

variable {ps : ℕ → Process} {n m : ℕ}

theorem Lives.grows (h : Lives S ps) {β : Type} (log : Process → List β)
    (hlog : ∀ p a q, step S p a = some q → log p <+: log q) (hnm : n ≤ m) :
    log (ps n) <+: log (ps m) := by
  refine InfiniteRun.rel_of_steps (R := fun p q => log p <+: log q) (fun _ => List.prefix_rfl)
    (fun _ _ _ => List.IsPrefix.trans) (fun k => ?_) hnm
  rcases h k with hsame | ⟨a, ha⟩
  · rw [hsame]
  · exact hlog _ _ _ ha

theorem Lives.keeps (h : Lives S ps) {I : Process → Prop}
    (hI : ∀ p a q, I p → step S p a = some q → I q) (hn : I (ps n)) (hnm : n ≤ m) : I (ps m) := by
  induction m, hnm using Nat.le_induction with
  | base => exact hn
  | succ m _ ih =>
    rcases h m with hsame | ⟨a, ha⟩
    · rwa [hsame]
    · exact hI _ _ _ ih ha

theorem Lives.ended (h : Lives S ps) (hended : (ps n).ended ≠ none) (hnm : n ≤ m) :
    (ps m).ended ≠ none :=
  h.keeps (I := fun p => p.ended ≠ none) (fun _ _ _ hp hstep => absurd (step_effect hstep).1 hp)
    hended hnm

/-- A process of which the event loop and the protocol go round. `ms` are the messages that
the server has sent to it. -/
structure Busy (S : Settings) (ps : ℕ → Process) (ms : ℕ → List Message) : Prop where
  lives : Lives S ps
  queued : ∀ n, (ps n).Queued
  started : ∀ n, (ps n).client.simulationStarted = true
  turns : ∀ n, ∃ m ≥ n, ∃ written, step S (ps m) (.loopSend written) = some (ps (m + 1))
  acted : ∀ n, (ps n).acted <+: ms n
  reads : ∀ n, ∃ m ≥ n, (ms n).length ≤ (ps m).acted.length
  takes : ∀ n, (ps n).client.inputPacketBuffer ≠ [] →
    ∃ m ≥ n, ∃ packet, (ps m).Takes (ps (m + 1)) packet

namespace Busy
variable {ms : ℕ → List Message} (h : Busy S ps ms)
include h

theorem exists_written (n : ℕ) :
    ∃ m ≥ n, (ps n).handed <+: (ps m).written.filterMap Request.packet? := by
  have hgrows : ∀ {k l : ℕ}, k ≤ l → (ps k).written.filterMap Request.packet? <+:
      (ps l).written.filterMap Request.packet? := fun hkl =>
    h.lives.grows (fun p => p.written.filterMap Request.packet?)
      (fun _ _ _ hstep => (written_grows hstep).filterMap _) hkl
  have hhanded : ∀ {m : ℕ}, n ≤ m → (ps n).handed <+: (ps m).handed := fun hnm =>
    h.lives.grows Process.handed (fun _ _ _ hstep => handed_grows hstep) hnm
  -- one packet more with every turn
  have hcount : ∀ k ≤ (ps n).handed.length, ∃ m ≥ n,
      k ≤ ((ps m).written.filterMap Request.packet?).length := by
    intro k
    induction k with
    | zero => exact fun _ => ⟨n, le_rfl, Nat.zero_le _⟩
    | succ k ih =>
      intro hk
      obtain ⟨m, hm, hle⟩ := ih (by omega)
      obtain ⟨m', hm', written, hturn⟩ := h.turns m
      have hle' := hle.trans (hgrows hm').length_le
      by_cases hmore : k + 1 ≤ ((ps m').written.filterMap Request.packet?).length
      · exact ⟨m', by omega, hmore⟩
      have hlength := (hhanded (hm.trans hm')).length_le
      have hqueued : (ps m').written.filterMap Request.packet? ++
        (ps m').client.outputPacketBuffer = (ps m').handed := h.queued m'
      cases hqueue : (ps m').client.outputPacketBuffer with
      | nil =>
        rw [hqueue, List.append_nil] at hqueued
        rw [← hqueued] at hlength
        omega
      | cons packet rest =>
        rcases loopSend_first hturn (h.started m') hqueue with hended | hwrites
        · obtain ⟨l, hl, _, hturn'⟩ := h.turns (m' + 1)
          exact absurd (step_effect hturn').1 (h.lives.ended hended hl)
        · refine ⟨m' + 1, by omega, ?_⟩
          rw [Writes] at hwrites
          simp [hwrites, Request.packet?]
          omega
  obtain ⟨m, hm, hle⟩ := hcount _ le_rfl
  refine ⟨m, hm, List.prefix_of_prefix_length_le (hhanded hm) ?_ hle⟩
  have hqueued : (ps m).written.filterMap Request.packet? ++
    (ps m).client.outputPacketBuffer = (ps m).handed := h.queued m
  exact ⟨_, hqueued⟩

theorem writes_again (hhanded : Unbounded fun n => (ps n).handed.count packet) :
    ∃ᶠ n in atTop, (ps n).Writes (ps (n + 1)) packet := by
  have hmono : Monotone fun n => ((ps n).written.filterMap Request.packet?).count packet :=
    monotone_nat_of_le_succ fun n =>
      (h.lives.grows (fun p => p.written.filterMap Request.packet?)
        (fun _ _ _ hstep => (written_grows hstep).filterMap _) (Nat.le_succ n)).count_le packet
  have hwritten : Unbounded fun n => ((ps n).written.filterMap Request.packet?).count packet := by
    refine hhanded.of_le fun n => ?_
    obtain ⟨m, -, hprefix⟩ := h.exists_written n
    exact ⟨m, hprefix.count_le packet⟩
  refine InfiniteRun.frequently_of_forall (n := 0) fun n _ => ?_
  obtain ⟨m, hm, hlt⟩ := hwritten.exists_growth hmono n
  refine ⟨m, hm, ?_⟩
  rcases h.lives m with hsame | ⟨a, ha⟩
  · exact absurd hlt (by simp [hsame])
  · exact writes_of_count ha hlt

theorem exists_next {d : ℕ} (hd : (ps n).client.inputPacketBuffer[d]? = some packet) :
    ∃ m ≥ n, ∃ first rest, (ps m).client.inputPacketBuffer = first :: rest ∧
      (ps (m + 1)).client.inputPacketBuffer = rest ∧ (first :: rest)[d]? = some packet := by
  obtain ⟨m, hm, ⟨first, rest, hqueue, hrest⟩, hbefore⟩ :=
    InfiniteRun.exists_first (h.takes n (by rintro hnil; simp [hnil] at hd))
  have hgrows : ∀ k ≥ n, k ≤ m →
      (ps n).client.inputPacketBuffer <+: (ps k).client.inputPacketBuffer := by
    intro k hk
    induction k, hk using Nat.le_induction with
    | base => exact fun _ => List.prefix_rfl
    | succ k hk ih =>
      intro hkm
      refine (ih (by omega)).trans ?_
      rcases h.lives k with hsame | ⟨a, ha⟩
      · rw [hsame]
      · exact (queue_cases ha).resolve_right (hbefore k hk (by omega))
  obtain ⟨later, hlater⟩ := hgrows m hm le_rfl
  have hlt := (List.getElem?_eq_some_iff.mp hd).1
  refine ⟨m, hm, first, rest, hqueue, hrest, ?_⟩
  rw [← hqueue, ← hlater, List.getElem?_append_left hlt, hd]

theorem exists_taken {d : ℕ} (hd : (ps n).client.inputPacketBuffer[d]? = some packet) :
    ∃ m ≥ n, (ps m).Takes (ps (m + 1)) packet := by
  -- each packet that is taken brings it one place forward
  induction d generalizing n with
  | zero =>
    obtain ⟨m, hm, first, rest, hqueue, hrest, hfirst⟩ := h.exists_next hd
    obtain rfl : first = packet := Option.some.inj hfirst
    exact ⟨m, hm, rest, hqueue, hrest⟩
  | succ d ih =>
    obtain ⟨m, hm, first, rest, -, hrest, hplace⟩ := h.exists_next hd
    obtain ⟨m', hm', htakes⟩ := ih (n := m + 1) (by rw [hrest]; exact hplace)
    exact ⟨m', by omega, htakes⟩

/-- A packet that is relayed again and again is taken again and again. -/
theorem takes_again (hms : ∀ n, ms n <+: ms (n + 1))
    (hrelayed : ∃ᶠ n in atTop, ms (n + 1) = ms n ++ [relayOf packet]) (n : ℕ) :
    ∃ m ≥ n, (ps m).Takes (ps (m + 1)) (carry packet) := by
  have hgrows : ∀ {k l : ℕ}, k ≤ l → ms k <+: ms l := fun hkl =>
    InfiniteRun.rel_of_steps (R := fun l l' : List Message => l <+: l') (fun _ => List.prefix_rfl)
      (fun _ _ _ => List.IsPrefix.trans) hms hkl
  have hsent : Unbounded fun n => (ms n).count (relayOf packet) := by
    refine InfiniteRun.unbounded_count hgrows (hrelayed.mono fun k hk => ?_)
    exact ⟨[relayOf packet], hk, by simp⟩
  have hacted : Unbounded fun n => (ps n).acted.count (relayOf packet) := by
    refine hsent.of_le fun k => ?_
    obtain ⟨l, hl, hle⟩ := h.reads k
    exact ⟨l, (List.prefix_of_prefix_length_le (hgrows hl) (h.acted l) hle).count_le _⟩
  have hmono : Monotone fun n => (ps n).acted.count (relayOf packet) := fun k l hkl =>
    (h.lives.grows Process.acted (fun _ _ _ hstep => acted_grows hstep) hkl).count_le _
  obtain ⟨k, hk, hlt⟩ := hacted.exists_growth hmono n
  rcases h.lives k with hsame | ⟨a, ha⟩
  · exact absurd hlt (by simp [hsame])
  · have hqueue := queued_of_count ha (isPacket_relayOf packet) (h.started k) hlt
    rw [payloadOf_relayOf] at hqueue
    have hplace : (ps (k + 1)).client.inputPacketBuffer[(ps k).client.inputPacketBuffer.length]? =
        some (carry packet) := by simp [hqueue]
    obtain ⟨m, hm, htakes⟩ := h.exists_taken hplace
    exact ⟨m, by omega, htakes⟩

end Busy

theorem receiver_loop_step (hsound : p.Sound) (hstep : step S p a = some q) {r r' : ReceiverCall}
    (hr : p.receiver = some r) (hr' : q.receiver = some r') : r'.clock = r.clock ∨
      (r.receiving = true ∨ r.pending = []) ∧
        (p.client.inputPacketBuffer = [] ∨ ∃ packet, p.Takes q packet) := by
  obtain ⟨-, he⟩ := step_effect hstep
  cases he with
  | call key written now hmain =>
    obtain ⟨⟨-, -, hreceives, -⟩, -⟩ := hsound.at hmain
    simp [control, hr] at hreceives
  | keep r'' now hr'' hresult hclock hpending hempty =>
    obtain rfl := Option.some.inj (hr.symm.trans hr'')
    exact Or.inr ⟨hpending, Or.inl hempty⟩
  | receive r'' now packet rest b result hr'' hreceiving hqueue =>
    obtain rfl := Option.some.inj (hr.symm.trans hr'')
    exact Or.inr ⟨Or.inl hreceiving, Or.inr ⟨packet, rest, hqueue, rfl⟩⟩
  | receiverTest r'' now hr'' | receiverPush r'' packet rest hr''
  | reject r'' now packet rest b result hr'' =>
    obtain rfl := Option.some.inj (hr.symm.trans hr'')
    obtain rfl := Option.some.inj hr'
    exact Or.inl rfl
  | _ =>
    obtain rfl := Option.some.inj (hr.symm.trans hr')
    exact Or.inl rfl

theorem sender_loop_step (hsound : p.Sound) (hstep : step S p a = some q) {t t' : SenderThread}
    (ht : p.sender = some t) (ht' : q.sender = some t') :
    t'.clock = t.clock ∧
        (t'.phase = t.phase ∨ t.phase = .top ∨ p.client.inputPacketBuffer = []) ∨
      t.phase = .top ∧ t.pending = [] ∧ ∃ now, t'.phase = .draining now ∧ t'.clock = now := by
  obtain ⟨-, he⟩ := step_effect hstep
  cases he with
  | spawn key written now file packets hmain =>
    obtain ⟨⟨-, hsends, -⟩, -⟩ := hsound.at hmain
    simp [control, ht] at hsends
  | enter t'' now ht'' hphase hpending =>
    obtain rfl := Option.some.inj (ht.symm.trans ht'')
    obtain rfl := Option.some.inj ht'
    exact Or.inr ⟨hphase, hpending, now, rfl, rfl⟩
  | leave t'' now ht'' hphase =>
    obtain rfl := Option.some.inj (ht.symm.trans ht'')
    obtain rfl := Option.some.inj ht'
    exact Or.inl ⟨rfl, Or.inr (Or.inl hphase)⟩
  | done t'' now ht'' hphase hdone hempty =>
    obtain rfl := Option.some.inj (ht.symm.trans ht'')
    obtain rfl := Option.some.inj ht'
    exact Or.inl ⟨rfl, Or.inr (Or.inr hempty)⟩
  | send t'' now b ht'' hphase hlt hrun hempty =>
    obtain rfl := Option.some.inj (ht.symm.trans ht'')
    obtain rfl := Option.some.inj ht'
    exact Or.inl ⟨rfl, Or.inr (Or.inr hempty)⟩
  | senderTest t'' now ht'' | acknowledge t'' now packet rest state ht''
  | senderPush t'' packet rest ht'' =>
    obtain rfl := Option.some.inj (ht.symm.trans ht'')
    obtain rfl := Option.some.inj ht'
    exact Or.inl ⟨rfl, Or.inl rfl⟩
  | _ =>
    obtain rfl := Option.some.inj (ht.symm.trans ht')
    exact Or.inl ⟨rfl, Or.inl rfl⟩

section Loops
variable {rs : ℕ → ReceiverCall} {ts : ℕ → SenderThread}

theorem Lives.takes_of_emptied (h : Lives S ps) (hne : (ps n).client.inputPacketBuffer ≠ [])
    (hnm : n ≤ m) (hempty : (ps m).client.inputPacketBuffer = []) :
    ∃ k ≥ n, ∃ packet, (ps k).Takes (ps (k + 1)) packet := by
  obtain ⟨k, hk, -, hsome, hnone⟩ := InfiniteRun.exists_crossing
    (p := fun k => (ps k).client.inputPacketBuffer ≠ []) hnm hne (not_not.mpr hempty)
  refine ⟨k, hk, ?_⟩
  rw [not_not] at hnone
  rcases h k with hsame | ⟨a, ha⟩
  · exact absurd (hsame ▸ hnone) hsome
  · exact (queue_cases ha).resolve_left fun hprefix => hsome (List.prefix_nil.mp (hnone ▸ hprefix))

theorem Lives.receiver_goes_round (h : Lives S ps) (hsound : ∀ n, (ps n).Sound)
    (hrs : ∀ n, (ps n).receiver = some (rs n)) (hclock : ∀ bound n, ∃ m ≥ n, bound < (rs m).clock)
    (n : ℕ) : ∃ m ≥ n, ((rs m).receiving = true ∨ (rs m).pending = []) ∧
      ((ps m).client.inputPacketBuffer = [] ∨ ∃ packet, (ps m).Takes (ps (m + 1)) packet) := by
  obtain ⟨m, hm, hlate⟩ := hclock (rs n).clock n
  obtain ⟨k, hk, -, hearly, hnow⟩ := InfiniteRun.exists_crossing
    (p := fun k => (rs k).clock ≤ (rs n).clock) hm le_rfl (not_le.mpr hlate)
  refine ⟨k, hk, ?_⟩
  rcases h k with hsame | ⟨a, ha⟩
  · have hrs' := hrs (k + 1)
    rw [hsame, hrs k, Option.some.injEq] at hrs'
    exact absurd (hrs' ▸ hearly) hnow
  · exact (receiver_loop_step (hsound k) ha (hrs k) (hrs (k + 1))).resolve_left
      fun hsame => hnow (hsame ▸ hearly)

theorem Lives.receiver_takes (h : Lives S ps) (hsound : ∀ n, (ps n).Sound)
    (hrs : ∀ n, (ps n).receiver = some (rs n)) (hclock : ∀ bound n, ∃ m ≥ n, bound < (rs m).clock)
    (hne : (ps n).client.inputPacketBuffer ≠ []) :
    ∃ m ≥ n, ∃ packet, (ps m).Takes (ps (m + 1)) packet := by
  obtain ⟨m, hm, -, hempty | htakes⟩ := h.receiver_goes_round hsound hrs hclock n
  · exact h.takes_of_emptied hne hm hempty
  · exact ⟨m, hm, htakes⟩

theorem Lives.sender_goes_round (h : Lives S ps) (hsound : ∀ n, (ps n).Sound)
    (hts : ∀ n, (ps n).sender = some (ts n)) (hclock : ∀ bound n, ∃ m ≥ n, bound < (ts m).clock)
    (n : ℕ) : ∃ m ≥ n, (ts m).pending = [] ∧ ∃ k ≥ m, (ps k).client.inputPacketBuffer = [] := by
  have hstep : ∀ k, ts (k + 1) = ts k ∨ ∃ a, step S (ps k) a = some (ps (k + 1)) := by
    intro k
    refine (h k).imp_left fun hsame => ?_
    have hts' := hts (k + 1)
    rw [hsame, hts k, Option.some.injEq] at hts'
    exact hts'.symm
  -- a reading starts an iteration
  obtain ⟨m₁, hm₁, hlate⟩ := hclock (ts n).clock n
  obtain ⟨k₁, hk₁, -, hearly, hnow⟩ := InfiniteRun.exists_crossing
    (p := fun k => (ts k).clock ≤ (ts n).clock) hm₁ le_rfl (not_le.mpr hlate)
  rcases hstep k₁ with hsame | ⟨a, ha⟩
  · exact absurd (hsame ▸ hearly) hnow
  obtain ⟨hsame, -⟩ | ⟨-, hpending, now, hphase, hclock'⟩ :=
    sender_loop_step (hsound k₁) ha (hts k₁) (hts (k₁ + 1))
  · exact absurd (hsame ▸ hearly) hnow
  refine ⟨k₁, hk₁, hpending, ?_⟩
  -- and the next reading comes after the queue was empty
  obtain ⟨m₂, hm₂, hlater⟩ := hclock now (k₁ + 1)
  obtain ⟨k₂, hk₂, -, ⟨hphase₂, hclock₂⟩, hleft⟩ := InfiniteRun.exists_crossing
    (p := fun k => (ts k).phase = .draining now ∧ (ts k).clock = now) hm₂ ⟨hphase, hclock'⟩
    (fun hp => absurd hp.2 hlater.ne')
  refine ⟨k₂, by omega, ?_⟩
  rcases hstep k₂ with hsame | ⟨a, ha⟩
  · exact absurd (hsame ▸ ⟨hphase₂, hclock₂⟩) hleft
  obtain ⟨hsame, hphase' | htop | hempty⟩ | ⟨htop, -⟩ :=
    sender_loop_step (hsound k₂) ha (hts k₂) (hts (k₂ + 1))
  · exact absurd ⟨hphase'.trans hphase₂, hsame.trans hclock₂⟩ hleft
  · simp [hphase₂] at htop
  · exact hempty
  · simp [hphase₂] at htop

theorem Lives.sender_takes (h : Lives S ps) (hsound : ∀ n, (ps n).Sound)
    (hts : ∀ n, (ps n).sender = some (ts n)) (hclock : ∀ bound n, ∃ m ≥ n, bound < (ts m).clock)
    (hne : (ps n).client.inputPacketBuffer ≠ []) :
    ∃ m ≥ n, ∃ packet, (ps m).Takes (ps (m + 1)) packet := by
  obtain ⟨m, hm, -, k, hk, hempty⟩ := h.sender_goes_round hsound hts hclock n
  exact h.takes_of_emptied hne (hm.trans hk) hempty

end Loops

end Process
end RdtChallenge
