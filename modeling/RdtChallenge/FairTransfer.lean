import RdtChallenge.Delivery
import RdtChallenge.EndToEnd
import RdtChallenge.Liveness
import RdtChallenge.Reporting

namespace RdtChallenge
open InfiniteRun (IsRun Unbounded interleave interleave_even interleave_odd)
open Filter

variable {clock : Clock} {j j' : JointState}

theorem exists_two_steps {as : List Action}
    (hrun : Transition.run (step clock) j as = some j') (hshort : as.length ≤ 2) :
    ∃ a b mid, step clock j a = some mid ∧ step clock mid b = some j' ∧
      (as.length = 2 → as = [a, b]) := by
  have hidle : ∀ s : JointState, step clock s (.loseData s.dataNet.length) = some s := fun s => by
    simp [step, List.eraseIdx_of_length_le]
  rcases as with _ | ⟨a, _ | ⟨b, _ | ⟨c, as⟩⟩⟩
  · obtain rfl := Option.some.inj hrun
    exact ⟨_, _, j, hidle j, hidle j, by simp⟩
  · exact ⟨a, _, j', by simpa using hrun, hidle j', by simp⟩
  · obtain ⟨mid, hmid, hrest⟩ := Option.bind_eq_some_iff.mp hrun
    exact ⟨a, b, mid, hmid, by simpa using hrest, fun _ => rfl⟩
  · simp at hshort

structure JointGrows (j j' : JointState) : Prop where
  stop : j.stop = true → j'.stop = true
  result : j.result ≠ none → j'.result ≠ none
  sentData : j.sentData <+: j'.sentData
  sentAcks : j.sentAcks <+: j'.sentAcks

theorem JointGrows.refl (j : JointState) : JointGrows j j :=
  ⟨id, id, List.prefix_rfl, List.prefix_rfl⟩

theorem JointGrows.trans {j'' : JointState} (h : JointGrows j j') (h' : JointGrows j' j'') :
    JointGrows j j'' :=
  ⟨h'.stop ∘ h.stop, h'.result ∘ h.result, h.sentData.trans h'.sentData,
    h.sentAcks.trans h'.sentAcks⟩

theorem step_grows {a : Action} (hstep : step clock j a = some j') : JointGrows j j' := by
  cases step_effect hstep with
  | stop => exact ⟨fun _ => rfl, id, List.prefix_rfl, List.prefix_rfl⟩
  | send => exact ⟨id, id, List.prefix_append _ _, List.prefix_rfl⟩
  | receive i now packet b result hresult =>
    exact ⟨id, fun hne => absurd hresult hne, List.prefix_rfl, List.prefix_append _ _⟩
  | idle => exact ⟨id, id, List.prefix_rfl, List.prefix_append _ _⟩
  | _ => exact ⟨id, id, List.prefix_rfl, List.prefix_rfl⟩

namespace Stack
open Process (Busy Lives)

variable {S T : Settings} {s t : Stack} {b : StackAction} {m : Message} {a : ProcessAction}

theorem step_source (hstep : step S T s (.source a) = some t) :
    Process.step S s.source a = some t.source := by
  obtain ⟨p, hp, h⟩ := Option.bind_eq_some_iff.mp hstep
  split_ifs at h
  exact Option.some.inj h ▸ hp

theorem step_sink (hstep : step S T s (.sink a) = some t) :
    Process.step T s.sink a = some t.sink := by
  obtain ⟨p, hp, h⟩ := Option.bind_eq_some_iff.mp hstep
  split_ifs at h
  exact Option.some.inj h ▸ hp

theorem step_serveSource (hstep : step S T s (.serveSource m) = some t) :
    t = { s with toSource := s.toSource ++ [m] } := by
  simp only [step] at hstep
  split_ifs at hstep
  exact (Option.some.inj hstep).symm

theorem step_serveSink (hstep : step S T s (.serveSink m) = some t) :
    t = { s with toSink := s.toSink ++ [m] } := by
  simp only [step] at hstep
  split_ifs at hstep
  exact (Option.some.inj hstep).symm

theorem step_lives (hstep : step S T s b = some t) :
    (t.source = s.source ∨ ∃ a, Process.step S s.source a = some t.source) ∧
      (t.sink = s.sink ∨ ∃ a, Process.step T s.sink a = some t.sink) ∧
      s.toSource <+: t.toSource ∧ s.toSink <+: t.toSink := by
  cases step_effect hstep with
  | source a p hp =>
    exact ⟨Or.inr ⟨a, hp⟩, Or.inl rfl, List.prefix_rfl, List.prefix_rfl⟩
  | sink a p hp =>
    exact ⟨Or.inl rfl, Or.inr ⟨a, hp⟩, List.prefix_rfl, List.prefix_rfl⟩
  | serveSource m =>
    exact ⟨Or.inl rfl, Or.inl rfl, List.prefix_append _ _, List.prefix_rfl⟩
  | serveSink m =>
    exact ⟨Or.inl rfl, Or.inl rfl, List.prefix_rfl, List.prefix_append _ _⟩

def Returned (s : Stack) : Prop := ∃ r ∈ s.sink.receiver, r.result ≠ none

/-- A run in which, until the output is written, both processes go on and the server relays
what it gets. -/
structure FairRun (S T : Settings) (ss : ℕ → Stack) (as : ℕ → StackAction) : Prop where
  start : Transition.Reachable (step S T) initial (ss 0)
  steps : IsRun (step S T) ss as
  /-- Both processes have taken their roles. -/
  sender : (ss 0).source.sender.isSome = true
  receiver : (ss 0).sink.receiver.isSome = true
  /-- The server does not end the simulation. -/
  started : ∀ n, (ss n).Returned ∨ (ss n).source.client.simulationStarted = true ∧
    (ss n).sink.client.simulationStarted = true
  /-- The loops of the protocol go round for ever, and so do the event loops. -/
  sender_clock : ∀ bound n, ∃ m ≥ n, (ss m).Returned ∨
    ∃ t ∈ (ss m).source.sender, bound < t.clock
  receiver_clock : ∀ bound n, ∃ m ≥ n, (ss m).Returned ∨
    ∃ r ∈ (ss m).sink.receiver, bound < r.clock
  source_turns : ∀ n, ∃ m ≥ n, (ss m).Returned ∨ ∃ written, as m = .source (.loopSend written)
  sink_turns : ∀ n, ∃ m ≥ n, (ss m).Returned ∨ ∃ written, as m = .sink (.loopSend written)
  /-- What the server has sent is acted on. -/
  source_reads : ∀ n, ∃ m ≥ n, (ss m).Returned ∨
    (ss n).toSource.length ≤ (ss m).source.acted.length
  sink_reads : ∀ n, ∃ m ≥ n, (ss m).Returned ∨ (ss n).toSink.length ≤ (ss m).sink.acted.length
  /-- What is written infinitely often is relayed infinitely often. -/
  data_fair : ∀ packet, (∃ᶠ n in atTop, (ss n).source.Writes (ss (n + 1)).source packet) →
    ∃ᶠ n in atTop, (ss n).Returned ∨ as n = .serveSink (relayOf packet)
  ack_fair : ∀ packet, (∃ᶠ n in atTop, (ss n).sink.Writes (ss (n + 1)).sink packet) →
    ∃ᶠ n in atTop, (ss n).Returned ∨ as n = .serveSource (relayOf packet)
  /-- When `receiver()` has returned, the main thread goes on. -/
  main_turns : ∀ n, ∃ m ≥ n, ¬ (ss m).Returned ∨ (ss m).sink.output.isSome = true ∨
    ∃ a, Process.ByMain a ∧ as m = .sink a

variable {ss : ℕ → Stack} {as : ℕ → StackAction} {n : ℕ}

namespace FairRun
variable (h : FairRun S T ss as)
include h

theorem exists_run (n : ℕ) : ∃ bs, Transition.run (step S T) initial bs = some (ss n) :=
  h.start.trans (h.steps.reachable n)

theorem kept (n : ℕ) : (ss n).source.Kept S ∧ (ss n).sink.Kept T := by
  obtain ⟨bs, hrun⟩ := h.exists_run n
  exact kept_run hrun

theorem inv (n : ℕ) : (ss n).Inv := by
  obtain ⟨bs, hrun⟩ := h.exists_run n
  exact inv_run hrun

theorem stopsLate (n : ℕ) : (ss n).source.StopsLate := by
  obtain ⟨bs, hrun⟩ := h.exists_run n
  refine (process_invariant (fun p => p.Sound ∧ p.StopsLate) (fun _ => True)
    ⟨Process.sound_initial, by simp [Process.StopsLate, Process.initial]⟩ trivial
    (fun p a q hp hstep => ⟨hp.1.step hstep, hp.2.step hp.1 hstep⟩) (fun _ _ _ _ _ => trivial)
    hrun).1.2

theorem inCall (n : ℕ) : (ss n).sink.InCall := by
  obtain ⟨bs, hrun⟩ := h.exists_run n
  exact (process_invariant (fun _ => True) Process.InCall trivial
    (by simp [Process.InCall, Process.initial]) (fun _ _ _ _ _ => trivial)
    (fun _ _ _ hp hstep => hp.step hstep) hrun).2

theorem roles {th : SenderThread} {r : ReceiverCall} (ht : (ss 0).source.sender = some th)
    (hr : (ss 0).sink.receiver = some r) (n : ℕ) :
    (∃ th', (ss n).source.sender = some th' ∧ th'.file = th.file) ∧
      ∃ r', (ss n).sink.receiver = some r' ∧ r'.start = r.start := by
  induction n with
  | zero => exact ⟨⟨th, ht, rfl⟩, r, hr, rfl⟩
  | succ n ih =>
    obtain ⟨⟨t₁, ht₁, hfile₁⟩, r₁, hr₁, hstart₁⟩ := ih
    obtain ⟨hsource, hsink⟩ := h.kept n
    obtain ⟨-, -, hthread, hcall⟩ := roles_before hsource.sound hsink.sound (h.steps n)
    obtain ⟨t₂, ht₂, hfile₂⟩ := hthread t₁ ht₁
    obtain ⟨r₂, hr₂, hstart₂⟩ := hcall r₁ hr₁
    exact ⟨⟨t₂, ht₂, hfile₂.trans hfile₁⟩, r₂, hr₂, hstart₂.trans hstart₁⟩

end FairRun

structure Endless (S T : Settings) (ss : ℕ → Stack) (as : ℕ → StackAction)
    (ts : ℕ → SenderThread) (rs : ℕ → ReceiverCall) : Prop where
  fair : FairRun S T ss as
  waits : ∀ n, ¬ (ss n).Returned
  sender : ∀ n, (ss n).source.sender = some (ts n)
  receiver : ∀ n, (ss n).sink.receiver = some (rs n)

namespace Endless
variable {ts : ℕ → SenderThread} {rs : ℕ → ReceiverCall} (h : Endless S T ss as ts rs)
include h

theorem result (n : ℕ) : (rs n).result = none := by
  by_contra hne
  exact h.waits n ⟨rs n, h.receiver n, hne⟩

theorem source_lives : Lives S fun n => (ss n).source := fun n => (step_lives (h.fair.steps n)).1

theorem sink_lives : Lives T fun n => (ss n).sink := fun n => (step_lives (h.fair.steps n)).2.1

theorem sender_clock (bound : ℤ) (n : ℕ) : ∃ m ≥ n, bound < (ts m).clock := by
  obtain ⟨m, hm, hres | ⟨t, ht, hlt⟩⟩ := h.fair.sender_clock bound n
  · exact absurd hres (h.waits m)
  · obtain rfl := Option.some.inj ((h.sender m).symm.trans ht)
    exact ⟨m, hm, hlt⟩

theorem receiver_clock (bound : ℤ) (n : ℕ) : ∃ m ≥ n, bound < (rs m).clock := by
  obtain ⟨m, hm, hres | ⟨r, hr, hlt⟩⟩ := h.fair.receiver_clock bound n
  · exact absurd hres (h.waits m)
  · obtain rfl := Option.some.inj ((h.receiver m).symm.trans hr)
    exact ⟨m, hm, hlt⟩

theorem source_sound (n : ℕ) : (ss n).source.Sound := (h.fair.kept n).1.sound

theorem sink_sound (n : ℕ) : (ss n).sink.Sound := (h.fair.kept n).2.sound

theorem source_busy : Busy S (fun n => (ss n).source) fun n => (ss n).toSource where
  lives := h.source_lives
  queued n := (h.fair.inv n).sourceQueued
  started n := ((h.fair.started n).resolve_left (h.waits n)).1
  turns n := by
    obtain ⟨m, hm, hres | ⟨written, ha⟩⟩ := h.fair.source_turns n
    · exact absurd hres (h.waits m)
    · exact ⟨m, hm, written, step_source (ha ▸ h.fair.steps m)⟩
  acted n := (h.fair.inv n).source.acted
  reads n := by
    obtain ⟨m, hm, hread⟩ := h.fair.source_reads n
    exact ⟨m, hm, hread.resolve_left (h.waits m)⟩
  takes n := h.source_lives.sender_takes h.source_sound h.sender h.sender_clock

theorem sink_busy : Busy T (fun n => (ss n).sink) fun n => (ss n).toSink where
  lives := h.sink_lives
  queued n := (h.fair.inv n).sinkQueued
  started n := ((h.fair.started n).resolve_left (h.waits n)).2
  turns n := by
    obtain ⟨m, hm, hres | ⟨written, ha⟩⟩ := h.fair.sink_turns n
    · exact absurd hres (h.waits m)
    · exact ⟨m, hm, written, step_sink (ha ▸ h.fair.steps m)⟩
  acted n := (h.fair.inv n).sink.acted
  reads n := by
    obtain ⟨m, hm, hread⟩ := h.fair.sink_reads n
    exact ⟨m, hm, hread.resolve_left (h.waits m)⟩
  takes n := h.sink_lives.receiver_takes h.sink_sound h.receiver h.receiver_clock

theorem not_stop (n : ℕ) : (ss n).source.stop = false := by
  by_contra hstop
  rw [Bool.not_eq_false] at hstop
  obtain ⟨m, hm, written, hturn⟩ := h.source_busy.turns n
  have hstop' : (ss m).source.stop = true := h.source_lives.keeps
    (I := fun p => p.stop = true) (fun _ _ _ hp hstep => Process.stop_grows hstep hp) hstop hm
  have hended := h.fair.stopsLate m hstop'
  simp [Process.step, Process.loopSend, hended] at hturn

theorem data_arrives {packet : Packet}
    (hhanded : Unbounded fun n => (ss n).source.handed.count packet) (n : ℕ) :
    ∃ m ≥ n, (ss m).sink.Takes (ss (m + 1)).sink (carry packet) := by
  have hrelayed := h.fair.data_fair packet (h.source_busy.writes_again hhanded)
  refine h.sink_busy.takes_again (fun k => (step_lives (h.fair.steps k)).2.2.2)
    (hrelayed.mono fun k hk => ?_) n
  have hstep := h.fair.steps k
  rw [hk.resolve_left (h.waits k)] at hstep
  rw [step_serveSink hstep]

theorem acks_arrive {packet : Packet}
    (hhanded : Unbounded fun n => (ss n).sink.handed.count packet) (n : ℕ) :
    ∃ m ≥ n, (ss m).source.Takes (ss (m + 1)).source (carry packet) := by
  have hrelayed := h.fair.ack_fair packet (h.sink_busy.writes_again hhanded)
  refine h.source_busy.takes_again (fun k => (step_lives (h.fair.steps k)).2.2.1)
    (hrelayed.mono fun k hk => ?_) n
  have hstep := h.fair.steps k
  rw [hk.resolve_left (h.waits k)] at hstep
  rw [step_serveSource hstep]

end Endless

/-- Two steps of the protocol account for a step of the stack. -/
structure TwoSteps (clock : Clock) (s t : Stack) (j mid j' : JointState) (a b : Action) :
    Prop where
  first : RdtChallenge.step clock j a = some mid
  second : RdtChallenge.step clock mid b = some j'
  takesAck : ∀ packet, s.source.Takes t.source packet → TakesAck mid b packet
  takesData : ∀ packet, s.sink.Takes t.sink packet → TakesData mid b packet

theorem Follows.twoSteps {j j' : JointState} {bs : List Action} (h : Follows s t j bs)
    (hrun : Transition.run (RdtChallenge.step clock) j bs = some j') :
    ∃ mid a b, TwoSteps clock s t j mid j' a b := by
  obtain ⟨a, b, mid, hfirst, hsecond, hsame⟩ := exists_two_steps hrun h.short
  refine ⟨mid, a, b, hfirst, hsecond, fun packet htakes => ?_, fun packet htakes => ?_⟩
  · obtain ⟨i, rfl, hi⟩ := h.takesAck packet htakes
    obtain ⟨rfl, hb⟩ := List.cons.inj (hsame rfl)
    obtain rfl := List.head_eq_of_cons_eq hb
    refine ⟨i, rfl, ?_⟩
    simp only [RdtChallenge.step, hi] at hfirst
    obtain rfl := Option.some.inj hfirst
    exact getElem?_append_copy hi
  · obtain ⟨i, now, rfl, hi⟩ := h.takesData packet htakes
    obtain ⟨rfl, hb⟩ := List.cons.inj (hsame rfl)
    obtain rfl := List.head_eq_of_cons_eq hb
    refine ⟨i, now, rfl, ?_⟩
    simp only [RdtChallenge.step, hi] at hfirst
    obtain rfl := Option.some.inj hfirst
    exact getElem?_append_copy hi

/-- A run of the protocol along the run of the stack. -/
structure Shadow (ss : ℕ → Stack) (file : List Byte) (packets : List Packet) (now : ℤ)
    (js mids : ℕ → JointState) (bs cs : ℕ → Action) : Prop where
  reachable : ∀ n, JointReachable steadyClock file (js n)
  sims : ∀ n, (ss n).Sims file packets now (js n)
  steps : ∀ n, TwoSteps steadyClock (ss n) (ss (n + 1)) (js n) (mids n) (js (n + 1)) (bs n) (cs n)

theorem FairRun.exists_shadow (h : FairRun S T ss as)
    (hS : ∀ u v, S.clock u v = true → steadyClock u v = true)
    (hT : ∀ u v, T.clock u v = true → steadyClock u v = true) {th : SenderThread}
    {r : ReceiverCall} (ht : (ss 0).source.sender = some th)
    (hr : (ss 0).sink.receiver = some r) :
    ∃ packets js mids bs cs, Shadow ss th.file packets r.start js mids bs cs := by
  obtain ⟨bs, hrun⟩ := h.exists_run 0
  obtain ⟨packets, j₀, hpackets, hj₀, hsims₀⟩ := exists_joint hS hT hrun ht hr
  have hnext : ∀ n j, (JointReachable steadyClock th.file j ∧
      (ss n).Sims th.file packets r.start j) → ∃ j', (JointReachable steadyClock th.file j' ∧
      (ss (n + 1)).Sims th.file packets r.start j') ∧
      ∃ mid a b, TwoSteps steadyClock (ss n) (ss (n + 1)) j mid j' a b := by
    rintro n j ⟨hj, hsims⟩
    obtain ⟨hsource, hsink⟩ := h.kept n
    obtain ⟨hsource', hsink'⟩ := h.kept (n + 1)
    obtain ⟨⟨t', ht', hfile⟩, r', hr', hstart⟩ := h.roles ht hr (n + 1)
    obtain ⟨bs, j', hrun, hsims', hfollows⟩ := hsims.step hS hT (h.inv n) hsource.sound
      hsink.sound hpackets (hsource'.roles.one.resolve_left (by simp [ht']))
      (hsink'.roles.one.resolve_right (by simp [hr']))
      (fun t'' ht'' => by rw [← hfile, Option.some.inj (ht'.symm.trans ht'')])
      (fun r'' hr'' => by rw [← hstart, Option.some.inj (hr'.symm.trans hr'')]) (h.steps n)
    exact ⟨j', ⟨hj.run hrun, hsims'⟩, hfollows.twoSteps hrun⟩
  obtain ⟨js, -, hjs⟩ := InfiniteRun.exists_sequence
    (P := fun n j => JointReachable steadyClock th.file j ∧
      (ss n).Sims th.file packets r.start j)
    (R := fun n j j' => ∃ mid a b, TwoSteps steadyClock (ss n) (ss (n + 1)) j mid j' a b)
    ⟨hj₀, hsims₀⟩ hnext
  choose hheld mids bs cs hsteps using hjs
  exact ⟨packets, js, mids, bs, cs, fun n => (hheld n).1, fun n => (hheld n).2, hsteps⟩

namespace Shadow
variable {file : List Byte} {packets : List Packet} {now : ℤ} {js mids : ℕ → JointState}
  {bs cs : ℕ → Action} {ts : ℕ → SenderThread} {rs : ℕ → ReceiverCall} {packet : Packet}
  (hsh : Shadow ss file packets now js mids bs cs)
include hsh

theorem isRun : IsRun (RdtChallenge.step steadyClock) (interleave js mids) (interleave bs cs) :=
  InfiniteRun.isRun_interleave (fun n => (hsh.steps n).first) fun n => (hsh.steps n).second

theorem grows {k l : ℕ} (hkl : k ≤ l) : JointGrows (interleave js mids k) (interleave js mids l) :=
  InfiniteRun.rel_of_steps JointGrows.refl (fun _ _ _ => JointGrows.trans)
    (fun n => step_grows (hsh.isRun n)) hkl

theorem before {k n : ℕ} (hkn : k ≤ n) : JointGrows (interleave js mids k) (js n) := by
  have hgrows := hsh.grows (show k ≤ 2 * n by omega)
  rwa [interleave_even] at hgrows

theorem unbounded_handed (log : JointState → List Packet)
    (hlog : ∀ j j', JointGrows j j' → log j <+: log j') {handed : ℕ → List Packet}
    (hround : ∀ k, ∃ n ≥ k, log (js n) = handed n) (hsent : ∃ᶠ k in atTop, ∃ out,
      log (interleave js mids (k + 1)) = log (interleave js mids k) ++ out ∧ packet ∈ out) :
    Unbounded fun n => (handed n).count packet := by
  have hcount : Unbounded fun k => (log (interleave js mids k)).count packet :=
    InfiniteRun.unbounded_count (fun hkl => hlog _ _ (hsh.grows hkl)) hsent
  refine hcount.of_le fun k => ?_
  obtain ⟨n, hn, hall⟩ := hround k
  exact ⟨n, hall ▸ (hlog _ _ (hsh.before hn)).count_le packet⟩

variable (h : Endless S T ss as ts rs)
include h

theorem data_handed (hsent : ∃ᶠ k in atTop,
    SendsData (interleave js mids k) (interleave js mids (k + 1)) packet) :
    Unbounded fun n => (ss n).source.handed.count packet := by
  refine hsh.unbounded_handed JointState.sentData (fun _ _ hgrows => hgrows.sentData)
    (fun k => ?_) hsent
  obtain ⟨m, hm, hpending, -⟩ :=
    h.source_lives.sender_goes_round h.source_sound h.sender h.sender_clock k
  have hall := ((hsh.sims m).source.thread (h.sender m)).sent
  rw [hpending, List.append_nil] at hall
  exact ⟨m, hm, hall⟩

theorem acks_handed (hsent : ∃ᶠ k in atTop,
    SendsAck (interleave js mids k) (interleave js mids (k + 1)) packet) :
    Unbounded fun n => (ss n).sink.handed.count packet := by
  refine hsh.unbounded_handed JointState.sentAcks (fun _ _ hgrows => hgrows.sentAcks)
    (fun k => ?_) hsent
  obtain ⟨m, hm, hidle, -⟩ :=
    h.sink_lives.receiver_goes_round h.sink_sound h.receiver h.receiver_clock k
  have hcall := (hsh.sims m).sink.call (h.receiver m)
  have hpending : (rs m).pending = [] := hidle.elim (fun hr => (hcall.receiving hr).2) id
  have hall := hcall.sent
  rw [hpending, List.append_nil] at hall
  exact ⟨m, hm, hall⟩

/-- So the run of the protocol is fair. -/
theorem fairRun : RdtChallenge.FairRun file (interleave js mids) (interleave bs cs) where
  start := hsh.reachable 0
  steps := hsh.isRun
  no_stop k _ := by
    by_contra hstop
    rw [Bool.not_eq_false] at hstop
    have hlater := (hsh.before le_rfl).stop hstop
    rw [(hsh.sims k).source.stop, h.not_stop k] at hlater
    exact absurd hlater (by simp)
  sender_clock bound n := by
    obtain ⟨m, hm, hlt⟩ := h.sender_clock bound n
    refine ⟨2 * m, by omega, Or.inr ?_⟩
    rwa [interleave_even, ((hsh.sims m).source.thread (h.sender m)).clock]
  receiver_clock bound n := by
    obtain ⟨m, hm, hlt⟩ := h.receiver_clock bound n
    refine ⟨2 * m, by omega, Or.inr ?_⟩
    rwa [interleave_even, ((hsh.sims m).sink.call (h.receiver m)).clock]
  data_fair packet hsent := by
    refine InfiniteRun.frequently_of_forall (n := 0) fun n _ => ?_
    obtain ⟨m, hm, htakes⟩ := h.data_arrives (hsh.data_handed h hsent) n
    refine ⟨2 * m + 1, by omega, Or.inr ?_⟩
    rw [interleave_odd, interleave_odd]
    exact (hsh.steps m).takesData _ htakes
  ack_fair packet hsent := by
    refine InfiniteRun.frequently_of_forall (n := 0) fun n _ => ?_
    obtain ⟨m, hm, htakes⟩ := h.acks_arrive (hsh.acks_handed h hsent) n
    refine ⟨2 * m + 1, by omega, Or.inr ?_⟩
    rw [interleave_odd, interleave_odd]
    exact (hsh.steps m).takesAck _ htakes

end Shadow

namespace FairRun
variable (h : FairRun S T ss as)
include h

theorem exists_returned (hS : ∀ u v, S.clock u v = true → steadyClock u v = true)
    (hT : ∀ u v, T.clock u v = true → steadyClock u v = true) {th : SenderThread}
    (ht : (ss 0).source.sender = some th) (hfile : packetCount th.file.length ≤ 65535) :
    ∃ n, (ss n).Returned := by
  by_contra hnone
  obtain ⟨r, hr⟩ := Option.isSome_iff_exists.mp h.receiver
  -- without a return, the fairness of the processes is that of the protocol
  choose ts hts using fun n => (h.roles ht hr n).1
  choose rs hrs using fun n => (h.roles ht hr n).2
  have hendless : Endless S T ss as ts rs :=
    ⟨h, fun n hn => hnone ⟨n, hn⟩, fun n => (hts n).1, fun n => (hrs n).1⟩
  obtain ⟨packets, js, mids, bs, cs, hsh⟩ := h.exists_shadow hS hT ht hr
  obtain ⟨k, hk⟩ := (hsh.fairRun hendless).returns hfile
  refine (hsh.before le_rfl).result hk ?_
  rw [((hsh.sims k).sink.call (hendless.receiver k)).result, hendless.result k]

theorem returning_keeps (hn : (ss n).sink.Returning) {m : ℕ} (hnm : n ≤ m) :
    (∃ k, (ss k).sink.output.isSome = true) ∨
      (ss m).sink.Returning ∧ (ss m).sink.untilOutput ≤ (ss n).sink.untilOutput := by
  induction m, hnm using Nat.le_induction with
  | base => exact Or.inr ⟨hn, le_rfl⟩
  | succ m _ ih =>
    rcases ih with hout | ⟨hm, hle⟩
    · exact Or.inl hout
    rcases (step_lives (h.steps m)).2.1 with hsame | ⟨a, ha⟩
    · rw [hsame]
      exact Or.inr ⟨hm, hle⟩
    · rcases hm.step (h.kept m).2 ha with hout | ⟨hm', hle'⟩
      · exact Or.inl ⟨m + 1, hout⟩
      · exact Or.inr ⟨hm', hle'.trans hle⟩

theorem exists_output (hn : (ss n).sink.Returning) : ∃ m, (ss m).sink.output.isSome = true := by
  induction hk : (ss n).sink.untilOutput using Nat.strong_induction_on generalizing n with
  | _ k ih =>
    obtain ⟨m, hm, hturn⟩ := h.main_turns n
    rcases h.returning_keeps hn hm with hout | ⟨hm', hle⟩
    · exact hout
    rcases hturn with hnot | hout | ⟨a, ha, haction⟩
    · -- a result is never taken back
      obtain ⟨r, hr, hresult⟩ := hm'.result
      exact absurd ⟨r, hr, Option.isSome_iff_ne_none.mp hresult⟩ hnot
    · exact ⟨m, hout⟩
    · have hstep := h.steps m
      rw [haction] at hstep
      rcases hm'.step_main ha (step_sink hstep) with hout | hlt
      · exact ⟨m + 1, hout⟩
      rcases hm'.step (h.kept m).2 (step_sink hstep) with hout | ⟨hnext, -⟩
      · exact ⟨m + 1, hout⟩
      · exact ih _ (by omega) hnext rfl

end FairRun

/-- In every fair run the receiver's process writes its output, and that is the file of the
sender. -/
theorem fair_run_delivers (hS : ∀ u v, S.clock u v = true → steadyClock u v = true)
    (hT : ∀ u v, T.clock u v = true → steadyClock u v = true) (h : FairRun S T ss as)
    {th : SenderThread} (ht : (ss 0).source.sender = some th)
    (hfile : packetCount th.file.length ≤ 65535) : ∃ n, (ss n).sink.output = some th.file := by
  obtain ⟨n, r, hr, hresult⟩ := h.exists_returned hS hT ht hfile
  obtain ⟨m, hout⟩ : ∃ m, (ss m).sink.output.isSome = true := by
    cases hout : (ss n).sink.output with
    | some out => exact ⟨n, by simp [hout]⟩
    | none =>
      have hmain := h.inCall n (by simp [Option.mem_def.mp hr]) hout
      exact h.exists_output ⟨⟨r, hr, Option.isSome_iff_ne_none.mpr hresult⟩, hmain⟩
  obtain ⟨out, hout⟩ := Option.isSome_iff_exists.mp hout
  obtain ⟨bs, hrun⟩ := h.exists_run m
  obtain ⟨t₁, ht₁, hsame⟩ := exists_file hrun hout
  obtain ⟨r₀, hr₀⟩ := Option.isSome_iff_exists.mp h.receiver
  obtain ⟨⟨t₂, ht₂, hfile₂⟩, -⟩ := h.roles ht hr₀ m
  obtain rfl := Option.some.inj (ht₁.symm.trans ht₂)
  exact ⟨m, hout.trans (congrArg some ((hsame (hfile₂ ▸ hfile)).trans hfile₂))⟩

def steadySettings : Settings := { Process.oneByteSettings with clock := steadyClock }

/-- `transferRun` from the call of `receiver()` on, and then the server goes on alone. -/
def transferAction (n : ℕ) : StackAction :=
  ((transferRun.drop 36)[n]?).getD (.serveSink okWord)

def transferState : ℕ → Stack
  | 0 => (Transition.run (step steadySettings steadySettings) initial
      (transferRun.take 36)).getD initial
  | n + 1 => (step steadySettings steadySettings (transferState n) (transferAction n)).getD
      (transferState n)

theorem transferAction_late (n : ℕ) : transferAction (n + 9) = .serveSink okWord := by
  have hlength : (transferRun.drop 36).length = 9 := by decide +kernel
  have hnone : (transferRun.drop 36)[n + 9]? = none := List.getElem?_eq_none (by omega)
  rw [transferAction, hnone, Option.getD_none]

theorem transferState_step (n : ℕ) : step steadySettings steadySettings (transferState n)
    (transferAction n) = some (transferState (n + 1)) := by
  have hsome : (step steadySettings steadySettings (transferState n)
      (transferAction n)).isSome = true := by
    by_cases hn : n < 9
    · have hearly : ∀ n < 9, (step steadySettings steadySettings (transferState n)
          (transferAction n)).isSome = true := by decide +kernel
      exact hearly n hn
    · obtain ⟨k, rfl⟩ := Nat.exists_eq_add_of_le' (not_lt.mp hn)
      have hpacket : isPacket okWord ≠ true := by decide
      have hrelay : ∀ p, Relayable p okWord := fun p =>
        ⟨by decide, by decide, fun h => absurd h hpacket⟩
      simp [transferAction_late, step, hrelay]
  obtain ⟨t, ht⟩ := Option.isSome_iff_exists.mp hsome
  rw [transferState, ht, Option.getD_some]

theorem transferState_sink (n : ℕ) : (transferState (n + 9)).sink = (transferState 9).sink := by
  induction n with
  | zero => rfl
  | succ n ih =>
    have hstep := transferState_step (n + 9)
    rw [transferAction_late] at hstep
    rw [show n + 1 + 9 = n + 9 + 1 by omega, step_serveSink hstep]
    exact ih

theorem transferState_done {n : ℕ} (hn : n ≥ 9) : (transferState n).Returned ∧
    (transferState n).sink.output.isSome = true := by
  have hlast : (∃ r ∈ (transferState 9).sink.receiver, r.result ≠ none) ∧
      (transferState 9).sink.output.isSome = true := by decide +kernel
  obtain ⟨k, rfl⟩ := Nat.exists_eq_add_of_le' hn
  unfold Returned
  rw [transferState_sink]
  exact hlast

theorem transferState_started (n : ℕ) : (transferState n).Returned ∨
    (transferState n).source.client.simulationStarted = true ∧
      (transferState n).sink.client.simulationStarted = true := by
  have hearly : ∀ n < 9, (transferState n).source.client.simulationStarted = true ∧
      (transferState n).sink.client.simulationStarted = true := by decide +kernel
  by_cases hn : n < 9
  · exact Or.inr (hearly n hn)
  · exact Or.inl (transferState_done (not_lt.mp hn)).1

theorem transfer_fair :
    FairRun steadySettings steadySettings transferState transferAction := by
  have hfirst : (Transition.run (step steadySettings steadySettings) initial
      (transferRun.take 36)).isSome = true := by decide +kernel
  have hlate : ∀ {p : ℕ → Prop} n, ∃ m ≥ n, (transferState m).Returned ∨ p m := fun n =>
    ⟨max n 9, le_max_left _ _, Or.inl (transferState_done (le_max_right _ _)).1⟩
  refine ⟨?_, transferState_step, by decide +kernel, by decide +kernel, transferState_started,
    fun bound n => hlate n, fun bound n => hlate n, fun n => hlate n, fun n => hlate n,
    fun n => hlate n, fun n => hlate n, fun packet _ => ?_, fun packet _ => ?_, fun n => ?_⟩
  · obtain ⟨s, hs⟩ := Option.isSome_iff_exists.mp hfirst
    exact ⟨_, by rw [transferState, hs, Option.getD_some]⟩
  · exact InfiniteRun.frequently_of_forall (n := 0) fun n _ => hlate n
  · exact InfiniteRun.frequently_of_forall (n := 0) fun n _ => hlate n
  · exact ⟨max n 9, le_max_left _ _, Or.inr (Or.inl (transferState_done (le_max_right _ _)).2)⟩

theorem fair_run_delivers_transfer : ∃ ss as, FairRun steadySettings steadySettings ss as ∧
    ∃ n, (ss n).sink.output = some [0x89] := by
  obtain ⟨th, ht, hfile⟩ : ∃ th ∈ (transferState 0).source.sender, th.file = [0x89] := by
    decide +kernel
  have hsteady : ∀ u v, steadySettings.clock u v = true → steadyClock u v = true :=
    fun _ _ => id
  have hdelivers := fair_run_delivers hsteady hsteady transfer_fair ht (by rw [hfile]; decide)
  rw [hfile] at hdelivers
  exact ⟨_, _, transfer_fair, hdelivers⟩

end Stack
end RdtChallenge
