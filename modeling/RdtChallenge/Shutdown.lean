import RdtChallenge.InfiniteRun
import RdtChallenge.Roles

namespace RdtChallenge

def LoopPhase.rank : LoopPhase → ℕ
  | .unborn | .ended => 0
  | .testing => 1
  | .sending => 2
  | .reading => 3

def Phase.rank : Phase → ℕ
  | .left => 0
  | .top => 1
  | .draining _ => 2

/-- The order in which the main thread comes by when the simulation is over. -/
def MainPhase.rank : MainPhase → ℕ
  | .hello | .registering | .reply | .launching | .returning => 0
  | .farewell => 1
  | .joining => 2
  | .finishing => 3
  | .closing => 4
  | .joiningThread | .uploading => 5
  | .stopping | .reporting => 6
  | .joiningLoop | .receiving | .deciding => 7
  | .waiting => 8
  | .pausing => 9
  | .requesting => 10
  | .marking => 11
  | .pressed => 12
  | .polling => 13

namespace Process

variable {S : Settings} {p q : Process} {a : ProcessAction}

/-- The simulation is over, the sender has been told to stop, and `receiver()` has returned. -/
structure Over (p : Process) : Prop where
  finished : p.client.simulationFinished = true
  decided : p.main ≠ .launching
  sender : p.sender.isSome = true → p.stop = true
  receiver : ∀ r ∈ p.receiver, r.result.isSome = true

def turns (p : Process) : ℕ :=
  (if p.ended.isSome then 0 else 1) + p.loop.rank + p.sender.elim 0 fun t => t.phase.rank

def chores (p : Process) : ℕ :=
  p.main.rank + 2 * p.client.inputPacketBuffer.length +
    (p.sender.elim 0 fun t => t.pending.length + if t.receiving then 0 else 1) +
    p.receiver.elim 0 fun r => r.pending.length

theorem Over.connected (h : p.Over) (hsound : p.Sound) :
    ¬ (p.main = .hello ∨ p.main = .registering ∨ p.main = .reply) := by
  have hconnecting : p.control.Connecting → False := fun hc =>
    absurd (h.finished.symm.trans hc.finished) (by simp)
  rintro (hmain | hmain | hmain)
  · exact hconnecting (hsound.at hmain)
  · exact hconnecting (hsound.at hmain)
  · exact hconnecting (hsound.at hmain)

theorem Over.settled (h : p.Over) : p.settled = true := by
  simp [Process.settled, h.finished]

theorem Over.step (h : p.Over) (hkept : p.Kept S) (hstep : step S p a = some q) : q.Over := by
  have hconnected := h.connected hkept.sound
  obtain ⟨-, he⟩ := step_effect hstep
  obtain ⟨hfinished, hdecided, hsender, hreceiver⟩ := h
  cases he with
  | listen _ _ hmain => exact absurd hmain (by tauto)
  | greeted _ _ hmain | registered _ _ hmain => exact absurd hmain (by tauto)
  | move key written now main hmove =>
    refine ⟨hfinished, ?_, hsender, hreceiver⟩
    cases hmove with
    | launch hmain hnot => exact absurd (hfinished.symm.trans hnot) (by simp)
    | _ => simp
  | spawn _ _ _ _ _ hmain | call _ _ _ hmain => exact absurd hmain hdecided
  | join key written now main hjoinable hloop hmain =>
    refine ⟨hfinished, ?_, hsender, hreceiver⟩
    rcases hmain with ⟨-, rfl⟩ | ⟨-, -, rfl⟩ <;> simp
  | finish => exact ⟨rfl, by simp, hsender, hreceiver⟩
  | setStop => exact ⟨hfinished, by simp, fun _ => rfl, hreceiver⟩
  | register | late | mark | request | report | upload | close | farewell =>
    exact ⟨hfinished, by simp, hsender, hreceiver⟩
  | quiet chunk written c hloop hget hc =>
    obtain ⟨_, _, rfl⟩ := getControlMessage_frame hget
    exact ⟨hfinished, hdecided, hsender, hreceiver⟩
  | act chunk written c c' message input hloop hget hc hne hhandle =>
    have hframe := handleMessage_frame input message c
    rw [hhandle] at hframe
    obtain ⟨_, _, rfl⟩ := getControlMessage_frame hget
    exact ⟨hframe.unfinished hfinished, hdecided, hsender, hreceiver⟩
  | enter t now ht | leave t now ht | senderTest t now ht | done t now ht
  | acknowledge t now packet rest state ht | send t now b ht | senderPush t packet rest ht =>
    exact ⟨hfinished, hdecided, fun _ => hsender (by simp [ht]), hreceiver⟩
  | receiverTest r now hr hresult =>
    exact absurd (hreceiver r hr) (by simp [hresult])
  | keep r now hr | reject r now packet rest b result hr | receiverPush r packet rest hr =>
    refine ⟨hfinished, hdecided, hsender, fun r' hr' => ?_⟩
    obtain rfl := Option.some.inj hr'
    exact hreceiver r hr
  | receive r now packet rest b result hr hreceiving =>
    have hnone := (hkept.roles.receiver r hr).receiving hreceiving
    exact absurd (hreceiver r hr) (by simp [hnone])
  | _ => exact ⟨hfinished, hdecided, hsender, hreceiver⟩

/-- Each step is one of the last turns, or a step to the next of them. -/
theorem Over.descends (h : p.Over) (hkept : p.Kept S) (hstep : Process.step S p a = some q) :
    q.turns < p.turns ∨ q.turns = p.turns ∧ q.chores < p.chores := by
  have hconnected := h.connected hkept.sound
  have hsettled := h.settled
  obtain ⟨hended, he⟩ := step_effect hstep
  obtain ⟨hfinished, hdecided, hsender, hreceiver⟩ := h
  cases he with
  | exit why hwhy => exact Or.inl (by simp [turns, exit, hended])
  | listen _ _ hmain => exact absurd hmain (by tauto)
  | greeted _ _ hmain | registered _ _ hmain | register _ _ hmain =>
    exact absurd hmain (by tauto)
  | move key written now main hmove =>
    refine Or.inr ⟨rfl, ?_⟩
    cases hmove with
    | launch hmain hnot => exact absurd (hfinished.symm.trans hnot) (by simp)
    | poll hmain hnot | pause hmain hnot => exact absurd (hsettled.symm.trans hnot) (by simp)
    | settle hmain | idle hmain | press hmain | mark hmain | resume hmain | refuse hmain
    | leave hmain | finish _ hmain | part hmain => simp [chores, hmain, MainPhase.rank]
  | spawn _ _ _ _ _ hmain | call _ _ _ hmain => exact absurd hmain hdecided
  | join key written now main hjoinable hloop hmain =>
    refine Or.inr ⟨rfl, ?_⟩
    rcases hmain with ⟨hmain, rfl⟩ | ⟨hmain, -, rfl⟩ <;> simp [chores, hmain, MainPhase.rank]
  | late _ _ _ hmain | mark _ _ _ hmain | request _ _ hmain | report _ _ _ _ _ hmain
  | upload _ _ _ hmain | setStop _ _ _ hmain | close _ _ _ hmain | finish _ _ _ hmain
  | farewell _ _ hmain =>
    exact Or.inr ⟨rfl, by simp [chores, hmain, MainPhase.rank]⟩
  | test hloop =>
    have hends : looping p.client = false := by simp [looping, hfinished]
    exact Or.inl (by simp [turns, hloop, hends, LoopPhase.rank])
  | quiet _ _ _ hloop | act _ _ _ _ _ _ hloop | transmit _ _ hloop | skip _ hloop =>
    exact Or.inl (by simp [turns, hloop, LoopPhase.rank])
  | enter t now ht hphase hpending hstop =>
    exact absurd (hstop.symm.trans (hsender (by simp [ht]))) (by simp)
  | leave t now ht hphase | done t now ht hphase | send t now b ht hphase =>
    exact Or.inl (by simp [turns, ht, hphase, Phase.rank])
  | senderTest t now ht hphase hreceiving =>
    exact Or.inr ⟨by simp [turns, ht], by simp [chores, ht, hreceiving]⟩
  | acknowledge t now packet rest state ht hphase hqueue =>
    refine Or.inr ⟨by simp [turns, ht], ?_⟩
    simp only [chores, ht, hqueue, List.length_cons, Option.elim_some]
    split_ifs <;> omega
  | senderPush t packet rest ht hpending =>
    exact Or.inr ⟨by simp [turns, ht, push], by simp [chores, ht, hpending, push]⟩
  | receiverTest r now hr hresult => exact absurd (hreceiver r hr) (by simp [hresult])
  | keep r now hr hwhy =>
    have hnone := hwhy.elim (hkept.roles.receiver r hr).receiving id
    exact absurd (hreceiver r hr) (by simp [hnone])
  | reject r now packet rest b result hr hreceiving
  | receive r now packet rest b result hr hreceiving =>
    have hnone := (hkept.roles.receiver r hr).receiving hreceiving
    exact absurd (hreceiver r hr) (by simp [hnone])
  | receiverPush r packet rest hr hpending =>
    exact Or.inr ⟨rfl, by simp [chores, hr, hpending, push]⟩

def Enabled (S : Settings) (p : Process) : Prop := ∃ a, (Process.step S p a).isSome = true

def Born (p : Process) : Prop := p.joinable = true → p.loop ≠ .unborn

theorem Born.step (h : p.Born) (hstep : Process.step S p a = some q) : q.Born := by
  obtain ⟨-, he⟩ := step_effect hstep
  cases he with
  | registered => exact fun _ => by simp
  | join => exact fun hjoinable => absurd hjoinable (by simp)
  | test =>
    intro _
    show (if looping p.client = true then LoopPhase.reading else .ended) ≠ .unborn
    split_ifs <;> simp
  | quiet | act | transmit | skip => exact fun _ => by simp
  | _ => exact h

theorem born_run {as : List ProcessAction} (hrun : Transition.run (step S) initial as = some p) :
    p.Born :=
  Transition.run_invariant Process.Born (fun _ _ _ h hstep => h.step hstep)
    (fun h => by simp [initial] at h) hrun

theorem kept_run {as : List ProcessAction} (hrun : Transition.run (step S) initial as = some p) :
    p.Kept S :=
  Transition.run_invariant (Process.Kept S) (fun _ _ _ h hstep => h.step hstep) kept_initial hrun

theorem enabled_loop (hended : p.ended = none) (hborn : p.loop ≠ .unborn)
    (hloop : p.loop ≠ .ended) : p.Enabled S := by
  have hnone : p.ended.isSome = false := by simp [hended]
  cases hphase : p.loop with
  | unborn => exact absurd hphase hborn
  | ended => exact absurd hphase hloop
  | testing => exact ⟨.loopTest, by simp [Process.step, hnone, loopTest, hphase]⟩
  | reading =>
    refine ⟨.loopRead [] true, ?_⟩
    simp only [Process.step, hnone, loopRead, hphase, List.length_nil, Nat.zero_le, and_self,
      if_true, Bool.false_eq_true, if_false]
    split
    · rfl
    · split_ifs
      · rfl
      · split <;> rfl
  | sending =>
    refine ⟨.loopSend true, ?_⟩
    simp only [Process.step, hnone, loopSend, hphase, if_true, Bool.false_eq_true, if_false]
    split <;> rfl

theorem enabled_sender (hended : p.ended = none) (hstop : p.stop = true) {t : SenderThread}
    (ht : p.sender = some t) (hleft : t.phase ≠ .left) : p.Enabled S := by
  have hnone : p.ended.isSome = false := by simp [hended]
  cases hphase : t.phase with
  | left => exact absurd hphase hleft
  | top =>
    cases hpending : t.pending with
    | nil =>
      refine ⟨.senderTop 0, ?_⟩
      simp [Process.step, hnone, ht, senderTop, hphase, hpending, hstop]
    | cons packet rest =>
      exact ⟨.senderPush, by simp [Process.step, hnone, ht, senderPush, hpending]⟩
  | draining now =>
    cases hreceiving : t.receiving with
    | false =>
      refine ⟨.senderTest, ?_⟩
      simp only [Process.step, hnone, ht, senderTest, hphase, hreceiving, Option.bind_some,
        Bool.false_eq_true, if_false]
      split_ifs <;> rfl
    | true =>
      refine ⟨.senderTake, ?_⟩
      simp only [Process.step, hnone, ht, senderTake, hphase, hreceiving, Option.bind_some,
        Bool.false_eq_true, if_false, if_true]
      split
      · split <;> rfl
      · rfl

theorem Over.enabled (h : p.Over) (hkept : p.Kept S) (hborn : p.Born) (hended : p.ended = none) :
    p.Enabled S := by
  have hconnected := h.connected hkept.sound
  have hnone : p.ended.isSome = false := by simp [hended]
  have hloop : p.loop = .ended ∨ (p.joinable = true → p.Enabled S) := by
    by_cases hloop : p.loop = .ended
    · exact Or.inl hloop
    · exact Or.inr fun hjoinable => enabled_loop hended (hborn hjoinable) hloop
  cases hmain : p.main with
  | hello | registering | reply => exact absurd hmain (by tauto)
  | launching => exact absurd hmain h.decided
  | joiningLoop =>
    have hjoinable : p.joinable = true := (hkept.sound.at hmain).1
    refine hloop.elim (fun hloop => ⟨.main false true 0, ?_⟩) fun hloop => hloop hjoinable
    simp [Process.step, hnone, mainStep, hmain, join, hjoinable, hloop]
  | joiningThread =>
    obtain ⟨t, ht⟩ : ∃ t, p.sender = some t :=
      Option.isSome_iff_exists.mp (hkept.sound.at hmain).2.2.1
    by_cases hleft : t.phase = .left
    · exact ⟨.main false true 0, by simp [Process.step, hnone, mainStep, hmain, ht, hleft]⟩
    · exact enabled_sender hended (h.sender (by simp [ht])) ht hleft
  | receiving =>
    obtain ⟨r, hr⟩ : ∃ r, p.receiver = some r :=
      Option.isSome_iff_exists.mp (hkept.sound.at hmain).2.2.1
    have hresult := h.receiver r hr
    cases hpending : r.pending with
    | nil =>
      refine ⟨.main false true 0, ?_⟩
      simp [Process.step, hnone, mainStep, hmain, hr, hresult, hpending]
    | cons packet rest =>
      exact ⟨.receiverPush, by simp [Process.step, hnone, hr, receiverPush, hpending]⟩
  | reporting =>
    obtain ⟨r, hr⟩ : ∃ r, p.receiver = some r :=
      Option.isSome_iff_exists.mp (hkept.sound.at hmain).2.2.1
    have hresult := h.receiver r hr
    exact ⟨.main false true 0, by simp [Process.step, hnone, mainStep, hmain, hr, hresult]⟩
  | uploading =>
    obtain ⟨out, hout⟩ := Option.isSome_iff_exists.mp (hkept.reports.uploading hmain)
    exact ⟨.main false true 0, by simp [Process.step, hnone, mainStep, hmain, hout]⟩
  | joining =>
    by_cases hsender : p.client.isSender = true
    · exact ⟨.main false true 0, by simp [Process.step, hnone, mainStep, hmain, hsender]⟩
    · by_cases hjoinable : p.joinable = true
      · refine hloop.elim (fun hloop => ⟨.main false true 0, ?_⟩) fun hloop => hloop hjoinable
        simp [Process.step, hnone, mainStep, hmain, hsender, join, hjoinable, hloop]
      · exact ⟨.main false true 0,
          by simp [Process.step, hnone, mainStep, hmain, hsender, join, hjoinable]⟩
  | pressed =>
    refine ⟨.main false true 0, ?_⟩
    simp only [Process.step, hnone, mainStep, hmain, Bool.false_eq_true, if_false]
    split_ifs <;> rfl
  | waiting | polling | marking | requesting | pausing | deciding | stopping | closing | finishing
  | farewell | returning =>
    exact ⟨.main false true 0, by simp [Process.step, hnone, mainStep, hmain]⟩

/-- When the simulation is over, a process in which no role waits for packets ends, however its
threads take turns and whatever still arrives: no run goes on for ever, and none gets stuck. -/
theorem shuts_down {as : List ProcessAction} (hrun : Transition.run (step S) initial as = some p)
    (h : p.Over) :
    (∀ ps acts, InfiniteRun.IsRun (step S) ps acts → ps 0 ≠ p) ∧
      ∀ bs q, Transition.run (step S) p bs = some q → q.ended = none → q.Enabled S := by
  have hkeep : ∀ p a q, p.Over ∧ p.Kept S → step S p a = some q → q.Over ∧ q.Kept S :=
    fun p a q hp hstep => ⟨hp.1.step hp.2 hstep, hp.2.step hstep⟩
  constructor
  · rintro ps acts hps rfl
    refine InfiniteRun.not_isRun_of_descent
      (WellFounded.prod_lex wellFounded_lt wellFounded_lt) (fun p => (p.turns, p.chores)) hkeep ?_
      ⟨h, kept_run hrun⟩ hps
    exact fun p a q hp hstep => Prod.lex_def.mpr (hp.1.descends hp.2 hstep)
  · intro bs q hbs hended
    obtain ⟨hover, hkept⟩ := Transition.run_invariant _ hkeep ⟨h, kept_run hrun⟩ hbs
    exact hover.enabled hkept (born_run (Transition.run_append hrun hbs)) hended

/-- `FINISH`, with the packet of the file not acknowledged. -/
def finishedRun : List ProcessAction := List.flatten [
  sendingRun,
  [.loopTest, .loopRead (lineOf finishWord ++ [newline]) true, .loopSend true, .loopTest],
  [.main false true 0, .main false true 0]]

theorem shuts_down_finished :
    ∃ p ∈ Transition.run (step oneByteSettings) initial finishedRun,
      p.sender.isSome = true ∧
        (∀ ps acts, InfiniteRun.IsRun (step oneByteSettings) ps acts → ps 0 ≠ p) ∧
        p.Enabled oneByteSettings := by
  obtain ⟨p, hrun, hsender, hended, hfinished, hdecided, hstop, hreceiver⟩ :
      ∃ p ∈ Transition.run (step oneByteSettings) initial finishedRun,
        p.sender.isSome = true ∧ p.ended = none ∧ p.client.simulationFinished = true ∧
          p.main ≠ .launching ∧ p.stop = true ∧ p.receiver = none := by
    decide +kernel
  have hover : p.Over := ⟨hfinished, hdecided, fun _ => hstop, by simp [hreceiver]⟩
  obtain ⟨hfinite, henabled⟩ := shuts_down hrun hover
  exact ⟨p, hrun, hsender, hfinite, henabled [] p rfl hended⟩

end Process
end RdtChallenge
