import RdtChallenge.Roles

namespace RdtChallenge

namespace Process

variable {S : Settings} {p q : Process} {a : ProcessAction}

def StopsLate (p : Process) : Prop := p.stop = true → p.loop = .ended

theorem StopsLate.step (h : p.StopsLate) (hsound : p.Sound) (hstep : step S p a = some q) :
    q.StopsLate := by
  obtain ⟨-, he⟩ := step_effect hstep
  have hnot : ∀ {loop : LoopPhase}, p.loop = loop → loop ≠ .ended → p.stop ≠ true :=
    fun hloop hne hstop => hne (hloop.symm.trans (h hstop))
  cases he with
  | setStop key written now hmain => exact fun _ => (hsound.at hmain).2.1
  | registered chunk c hmain =>
    have hloop : p.loop = .unborn := (hsound.at hmain).unborn
    exact fun hstop => absurd hstop (hnot hloop (by simp))
  | test hloop => exact fun hstop => absurd hstop (hnot hloop (by simp))
  | quiet _ _ _ hloop => exact fun hstop => absurd hstop (hnot hloop (by simp))
  | act _ _ _ _ _ _ hloop => exact fun hstop => absurd hstop (hnot hloop (by simp))
  | transmit _ _ hloop => exact fun hstop => absurd hstop (hnot hloop (by simp))
  | skip _ hloop => exact fun hstop => absurd hstop (hnot hloop (by simp))
  | _ => exact h

theorem stop_grows (hstep : step S p a = some q) (hstop : p.stop = true) : q.stop = true := by
  obtain ⟨-, he⟩ := step_effect hstep
  cases he with
  | setStop => rfl
  | _ => exact hstop

def InCall (p : Process) : Prop :=
  p.receiver.isSome = true → p.output = none → p.main = .receiving ∨ p.main = .reporting

theorem InCall.step (h : p.InCall) (hstep : step S p a = some q) : q.InCall := by
  obtain ⟨-, he⟩ := step_effect hstep
  have hnot : ∀ {main : MainPhase}, p.main = main → main ≠ .receiving → main ≠ .reporting →
      p.receiver.isSome = true → p.output = none → False := by
    rintro main hmain hne hne' hr hout
    rcases h hr hout with hin | hin
    · exact hne (hmain.symm.trans hin)
    · exact hne' (hmain.symm.trans hin)
  cases he with
  | call => exact fun _ _ => Or.inl rfl
  | report => exact fun _ hout => absurd hout (by simp)
  | move key written now main hmove =>
    cases hmove with
    | finish => exact fun _ _ => Or.inr rfl
    | settle hmain | poll hmain | idle hmain | press hmain | mark hmain | resume hmain
    | pause hmain | refuse hmain | launch hmain | leave hmain | part hmain =>
      exact fun hr hout => (hnot hmain (by simp) (by simp) hr hout).elim
  | join key written now main hjoinable hloop hmain =>
    rcases hmain with ⟨hmain, -⟩ | ⟨hmain, -⟩
    · exact fun hr hout => (hnot hmain (by simp) (by simp) hr hout).elim
    · exact fun hr hout => (hnot hmain (by simp) (by simp) hr hout).elim
  | greeted _ _ hmain | registered _ _ hmain | register _ _ hmain | late _ _ _ hmain
  | mark _ _ _ hmain | request _ _ hmain | spawn _ _ _ _ _ hmain | setStop _ _ _ hmain
  | upload _ _ _ hmain | close _ _ _ hmain | finish _ _ _ hmain | farewell _ _ hmain =>
    exact fun hr hout => (hnot hmain (by simp) (by simp) hr hout).elim
  | receiverTest r now hr | keep r now hr | reject r now packet rest b result hr
  | receive r now packet rest b result hr | receiverPush r packet rest hr =>
    exact fun _ hout => h (by simp [hr]) hout
  | _ => exact h

/-- `receiver()` has returned, and the main thread has something left to send or to write. -/
structure Returning (p : Process) : Prop where
  result : ∃ r ∈ p.receiver, r.result.isSome = true
  main : p.main = .receiving ∨ p.main = .reporting

def untilOutput (p : Process) : ℕ :=
  (p.receiver.elim 0 fun r => r.pending.length) + if p.main = .receiving then 1 else 0

def ByMain (a : ProcessAction) : Prop :=
  a = .receiverPush ∨ ∃ key written now, a = .main key written now

theorem Returning.step (h : p.Returning) (hkept : p.Kept S) (hstep : step S p a = some q) :
    q.output.isSome = true ∨ q.Returning ∧ q.untilOutput ≤ p.untilOutput := by
  obtain ⟨⟨r, hr, hresult⟩, hmain⟩ := h
  have hnone : p.sender = none := hkept.roles.one.resolve_right (by simp [Option.mem_def.mp hr])
  have hreceiving : ∀ r' : ReceiverCall, p.receiver = some r' → r'.receiving ≠ true := by
    intro r' hr' hreceiving
    obtain rfl := Option.some.inj (hr'.symm.trans hr)
    have hnot := (hkept.roles.receiver _ hr').receiving hreceiving
    exact absurd hresult (by simp [hnot])
  obtain ⟨-, he⟩ := step_effect hstep
  cases he with
  | exit => exact Or.inr ⟨⟨⟨r, hr, hresult⟩, hmain⟩, le_rfl⟩
  | report => exact Or.inl rfl
  | move key written now main hmove =>
    cases hmove with
    | finish r' hreceiving' =>
      exact Or.inr ⟨⟨⟨r, hr, hresult⟩, Or.inr rfl⟩, by simp [untilOutput, hreceiving']⟩
    | settle hmain' | poll hmain' | idle hmain' | press hmain' | mark hmain' | resume hmain'
    | pause hmain' | refuse hmain' | launch hmain' | leave hmain' | part hmain' =>
      simp [hmain'] at hmain
  | join key written now main hjoinable hloop hmain' =>
    rcases hmain' with ⟨hmain', -⟩ | ⟨hmain', -⟩ <;> simp [hmain'] at hmain
  | listen _ _ hmain' => rcases hmain' with hmain' | hmain' <;> simp [hmain'] at hmain
  | greeted _ _ hmain' | registered _ _ hmain' | register _ _ hmain' | late _ _ _ hmain'
  | mark _ _ _ hmain' | request _ _ hmain' | spawn _ _ _ _ _ hmain' | setStop _ _ _ hmain'
  | upload _ _ _ hmain' | close _ _ _ hmain' | finish _ _ _ hmain' | farewell _ _ hmain'
  | call _ _ _ hmain' =>
    simp [hmain'] at hmain
  | enter t now ht | leave t now ht | senderTest t now ht | done t now ht
  | acknowledge t now packet rest state ht | send t now b ht | senderPush t packet rest ht =>
    exact absurd (hnone.symm.trans ht) (by simp)
  | receiverTest r' now hr' hresult' =>
    obtain rfl := Option.some.inj (hr'.symm.trans hr)
    exact absurd hresult (by simp [hresult'])
  | keep r' now hr' hwhy =>
    obtain rfl := Option.some.inj (hr'.symm.trans hr)
    have hnot := hwhy.resolve_left (hreceiving _ hr')
    exact absurd hresult (by simp [hnot])
  | reject r' now packet rest b result hr' hreceiving' =>
    exact absurd hreceiving' (hreceiving _ hr')
  | receive r' now packet rest b result hr' hreceiving' =>
    exact absurd hreceiving' (hreceiving _ hr')
  | receiverPush r' packet rest hr' hpending =>
    obtain rfl := Option.some.inj (hr'.symm.trans hr)
    exact Or.inr ⟨⟨⟨_, rfl, hresult⟩, hmain⟩, by simp [untilOutput, hr', hpending, push]⟩
  | _ => exact Or.inr ⟨⟨⟨r, hr, hresult⟩, hmain⟩, le_rfl⟩

/-- Each of its steps brings the main thread nearer to the output. -/
theorem Returning.step_main (h : p.Returning) (ha : ByMain a)
    (hstep : Process.step S p a = some q) :
    q.output.isSome = true ∨ q.untilOutput < p.untilOutput := by
  obtain ⟨⟨r, hr, hresult⟩, hmain⟩ := h
  have hended : p.ended.isSome = false := by simp [(step_effect hstep).1]
  rcases ha with rfl | ⟨key, written, now, rfl⟩
  · simp only [Process.step, hended, Bool.false_eq_true, if_false, Option.mem_def.mp hr,
      Option.bind_some, receiverPush] at hstep
    split at hstep
    · rename_i packet rest hpending
      obtain rfl := Option.some.inj hstep
      exact Or.inr (by simp [untilOutput, Option.mem_def.mp hr, hpending, push])
    · cases hstep
  · rcases hmain with hmain | hmain
    · simp only [Process.step, hended, Bool.false_eq_true, if_false, mainStep, hmain,
        Option.mem_def.mp hr, Option.bind_some] at hstep
      split_ifs at hstep
      obtain rfl := Option.some.inj hstep
      exact Or.inr (by simp [untilOutput, hmain, Option.mem_def.mp hr])
    · simp only [Process.step, hended, Bool.false_eq_true, if_false, mainStep, hmain,
        Option.mem_def.mp hr, Option.bind_some] at hstep
      obtain ⟨result, -, rfl⟩ := Option.map_eq_some_iff.mp hstep
      exact Or.inl rfl

end Process

end RdtChallenge
