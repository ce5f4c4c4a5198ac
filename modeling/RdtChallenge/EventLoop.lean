import RdtChallenge.Channel

namespace RdtChallenge

/-- The first line of the buffer is a `START` with exactly one argument. -/
def ShortStart (buffer : List Byte) : Prop :=
  ∃ line rest, buffer = line ++ newline :: rest ∧ newline ∉ line ∧ ProtocolLine line ∧
    isStart (messageOf line) = true ∧ (split (messageOf line) space).length = 2

theorem takeWhile_line {line : List Byte} (hline : newline ∉ line) (rest : List Byte) :
    (line ++ newline :: rest).takeWhile (· ≠ newline) = line := by
  have hall : ∀ b ∈ line, decide (b ≠ newline) = true :=
    fun b hb => decide_eq_true fun he => hline (he ▸ hb)
  rw [List.takeWhile_append_of_pos hall, List.takeWhile_cons_of_neg (by simp), List.append_nil]

theorem shortStart_iff (buffer : List Byte) : ShortStart buffer ↔
    buffer.contains newline = true ∧ ProtocolLine (buffer.takeWhile (· ≠ newline)) ∧
      isStart (messageOf (buffer.takeWhile (· ≠ newline))) = true ∧
      (split (messageOf (buffer.takeWhile (· ≠ newline))) space).length = 2 := by
  constructor
  · rintro ⟨line, rest, rfl, hline, hshort⟩
    rw [takeWhile_line hline]
    exact ⟨by simp, hshort⟩
  · rintro ⟨hmem, hshort⟩
    obtain ⟨line, rest, rfl, hline⟩ := List.eq_append_cons_of_mem (List.contains_iff_mem.mp hmem)
    rw [takeWhile_line hline] at hshort
    exact ⟨line, rest, rfl, hline, hshort⟩

instance (buffer : List Byte) : Decidable (ShortStart buffer) :=
  decidable_of_iff _ (shortStart_iff buffer).symm

def ChannelAction.isIterate : ChannelAction → Bool
  | .iterate _ => true
  | _ => false

namespace Channel

def Running (u : Channel) : Prop := u.halted = none ∧ looping u.client = true

instance (u : Channel) : Decidable u.Running := inferInstanceAs (Decidable (_ ∧ _))

/-- Enough iterations later the first line of the buffer has been handed out, or the
process has exited, whatever else happens. -/
def Progresses (u : Channel) : Prop :=
  u.Running → ∀ line rest, u.client.socketBufferStr = line ++ newline :: rest → newline ∉ line →
    ∃ n, ∀ as v, Transition.run step u as = some v → n ≤ as.countP ChannelAction.isIterate →
      v.halted ≠ none ∨ u.acted ++ [messageOf line] <+: v.acted

def Idle (u : Channel) : Prop := u.halted = none → u.client.currentControlMessage = []

end Channel

variable {c : ClientState} {chunk line rest : List Byte}

theorem getControlMessage_empty (hidle : c.currentControlMessage = [])
    (hbuffer : c.socketBufferStr ++ chunk = newline :: rest) : getControlMessage chunk c =
      .ok { c with socketBufferStr := newline :: rest } := by
  have hfind : (newline :: rest).findIdx? (· == newline) = some 0 := by simp [List.findIdx?_cons]
  unfold getControlMessage
  simp only [hidle, if_true, hbuffer, hfind]
  rfl

theorem handleMessage_idle (input : Input) (m : Message) (c : ClientState)
    (h : (handleMessage input m c).2 = none) :
    (handleMessage input m c).1.currentControlMessage = [] := by
  revert h
  fun_cases handleMessage input m c
  all_goals simp [clearControlMessage]

/-- The one access that the guards of the branches do not cover. -/
theorem handleMessage_outOfRange (input : Input) {m : Message} (hm : m ≠ []) (c : ClientState) :
    (handleMessage input m c).2 = some .outOfRange ↔
      isStart m = true ∧ (split m space).length = 2 := by
  have hsplit := split_length_pos hm space
  have hfirst : ∀ word, (∀ b ∈ word, (b != space) = true) →
      startsWith word ((split m space).getD 0 []) = startsWith word m :=
    fun word hword => startsWith_first hword m
  unfold handleMessage
  simp only [hfirst failWord (by decide), hfirst startWord (by decide),
    hfirst packetWord (by decide), hsplit, true_and]
  by_cases hfail : startsWith failWord m = true
  · have hstart : isStart m = false := startsWith_exclusive hfail (by decide) (by decide)
    simp [hfail, hstart]
  rw [if_neg hfail]
  by_cases hstart : (split m space).length > 1 ∧ startsWith startWord m = true
  · rw [if_pos hstart]
    have hs : isStart m = true := hstart.2
    cases hargument : (split m space)[2]? with
    | none =>
      have hlen := List.getElem?_eq_none_iff.mp hargument
      simp only [hs, true_and, true_iff]
      omega
    | some argument =>
      have hlen := (List.getElem?_eq_some_iff.mp hargument).1
      simp only [hs, true_and]
      constructor
      · intro h
        split_ifs at h
        cases h
      · intro h
        omega
  · rw [if_neg hstart]
    have hno : ¬ (isStart m = true ∧ (split m space).length = 2) := fun h =>
      hstart ⟨by omega, h.1⟩
    simp only [hno, iff_false]
    split_ifs <;> simp

theorem iteration_message (input : Input) {m : Message} (hm : m ≠ []) {c' : ClientState}
    (hget : getControlMessage input.chunk c = .ok c') (hc' : c'.currentControlMessage = m) :
    (iteration input c).message = some m ∧
      ((iteration input c).halt = none → (iteration input c).state.currentControlMessage = []) ∧
      ((iteration input c).halt = some .outOfRange ↔
        isStart m = true ∧ (split m space).length = 2) := by
  obtain ⟨output, transmitted, halt, hiteration, hnone, hrange⟩ :=
    iteration_handled input hm hget hc'
  rw [hiteration]
  exact ⟨rfl, fun h => handleMessage_idle input m c' (hnone h),
    hrange.trans (handleMessage_outOfRange input hm c')⟩

theorem line_unique {line' rest' : List Byte} (hline : newline ∉ line) (hline' : newline ∉ line')
    (h : line ++ newline :: rest = line' ++ newline :: rest') : line = line' := by
  have hfind := congrArg (fun l : List Byte => l.findIdx? (· == newline)) h
  simp only [LineFraming.findIdx?_line hline, LineFraming.findIdx?_line hline',
    Option.some.injEq] at hfind
  exact (List.append_inj h hfind).1

theorem getControlMessage_idle (hidle : c.currentControlMessage = []) (chunk : List Byte) :
    (∃ line rest, c.socketBufferStr ++ chunk = line ++ newline :: rest ∧ newline ∉ line ∧
        line ≠ []) ∨
      getControlMessage chunk c = .ok { c with socketBufferStr := c.socketBufferStr ++ chunk } ∧
        ∀ line rest, c.socketBufferStr ++ chunk = line ++ newline :: rest → newline ∉ line →
          line = [] := by
  by_cases hmem : newline ∈ c.socketBufferStr ++ chunk
  · obtain ⟨line, rest, hbuffer, hline⟩ := List.eq_append_cons_of_mem hmem
    by_cases hne : line = []
    · subst hne
      refine Or.inr ⟨hbuffer ▸ getControlMessage_empty hidle hbuffer, ?_⟩
      exact fun line' rest' h hline' => (line_unique hline hline' (hbuffer.symm.trans h)).symm
    · exact Or.inl ⟨line, rest, hbuffer, hline, hne⟩
  · refine Or.inr ⟨getControlMessage_none hidle hmem, fun line rest h => ?_⟩
    exact absurd (h ▸ by simp) hmem

theorem iteration_spec (input : Input) (hidle : c.currentControlMessage = []) :
    ((iteration input c).halt = none → (iteration input c).state.currentControlMessage = []) ∧
      ((iteration input c).halt = some .outOfRange ↔
        ShortStart (c.socketBufferStr ++ input.chunk)) ∧
      ∀ line rest, c.socketBufferStr ++ input.chunk = line ++ newline :: rest → newline ∉ line →
        line ≠ [] → (iteration input c).halt ≠ none ∨
          (iteration input c).message = some (messageOf line) := by
  rcases getControlMessage_idle hidle input.chunk with
    ⟨line, rest, hbuffer, hline, hne⟩ | ⟨hget, hempty⟩
  · have hget := getControlMessage_front hidle hne hline hbuffer
    have hfront : ∀ line' rest', c.socketBufferStr ++ input.chunk = line' ++ newline :: rest' →
        newline ∉ line' → line = line' := fun line' rest' hbuffer' hline' =>
      line_unique hline hline' (hbuffer.symm.trans hbuffer')
    by_cases hprotocol : ProtocolLine line
    · rw [if_pos hprotocol] at hget
      obtain ⟨hmessage, hclear, hrange⟩ :=
        iteration_message input hprotocol.messageOf_ne_nil hget rfl
      refine ⟨hclear, hrange.trans ⟨fun h => ?_, ?_⟩, fun line' rest' hbuffer' hline' _ => ?_⟩
      · exact ⟨line, rest, hbuffer, hline, hprotocol, h⟩
      · rintro ⟨line', rest', hbuffer', hline', -, hstart⟩
        exact hfront line' rest' hbuffer' hline' ▸ hstart
      · exact Or.inr (hfront line' rest' hbuffer' hline' ▸ hmessage)
    · rw [if_neg hprotocol] at hget
      have hhalt : (iteration input c).halt = some .protocolMismatch := by
        unfold iteration
        rw [hget]
      rw [hhalt]
      refine ⟨by simp, ⟨by simp, ?_⟩, by simp⟩
      rintro ⟨line', rest', hbuffer', hline', hprotocol', -⟩
      exact absurd (hfront line' rest' hbuffer' hline' ▸ hprotocol') hprotocol
  · rw [iteration_quiet input hidle hget]
    obtain ⟨hrange, -⟩ := sendOne_halt input
      { c with socketBufferStr := c.socketBufferStr ++ input.chunk }
    obtain ⟨output, transmitted, hsend⟩ := sendOne_frame input
      { c with socketBufferStr := c.socketBufferStr ++ input.chunk }
    refine ⟨fun _ => ?_, ⟨fun h => absurd h hrange, ?_⟩, fun line rest hbuffer hline hne => ?_⟩
    · rw [hsend]
      exact hidle
    · rintro ⟨line, rest, hbuffer, hline, hprotocol, -⟩
      rw [hempty line rest hbuffer hline] at hprotocol
      exact absurd hprotocol (by decide)
    · exact absurd (hempty line rest hbuffer hline) hne

namespace Channel

structure Aside (u t : Channel) : Prop where
  acted : t.acted = u.acted
  socketBufferStr : t.client.socketBufferStr = u.client.socketBufferStr
  currentControlMessage : t.client.currentControlMessage = u.client.currentControlMessage
  halted : t.halted ≠ some .outOfRange

def afterIteration (u : Channel) (input : Input) : Channel :=
  { u with
    client := (iteration input u.client).state
    halted := (iteration input u.client).halt
    arrived := u.arrived ++ input.chunk
    acted := u.acted ++ (iteration input u.client).message.toList }

variable {u t v : Channel} {a : ChannelAction}

theorem step_cases (h : step u a = some t) : u.halted = none ∧
    ((∃ input, a = .iterate input ∧ t = u.afterIteration input) ∨
      a.isIterate = false ∧ Aside u t) := by
  unfold step at h
  by_cases hhalted : u.halted = none
  swap
  · simp [hhalted] at h
  rw [if_neg (not_not.mpr hhalted)] at h
  refine ⟨hhalted, ?_⟩
  cases a with
  | iterate input =>
    left
    by_cases hloop : looping u.client = true ∧ input.chunk.length ≤ bufSize
    · simp only [if_pos hloop, Option.some.injEq] at h
      exact ⟨input, rfl, h.symm⟩
    · simp [hloop] at h
  | receiveTest =>
    right
    by_cases hreceiving : u.receiving = true
    · simp [hreceiving] at h
    · simp only [if_neg hreceiving, Option.some.injEq] at h
      subst h
      exact ⟨rfl, rfl, rfl, rfl, by simp [hhalted]⟩
  | receiveTake =>
    right
    by_cases hreceiving : u.receiving = true
    swap
    · simp [hreceiving] at h
    simp only [if_pos hreceiving] at h
    cases hqueue : u.client.inputPacketBuffer with
    | nil =>
      simp only [hqueue, Option.some.injEq] at h
      subst h
      exact ⟨rfl, rfl, rfl, rfl, by simp [hhalted]⟩
    | cons packet rest =>
      simp only [hqueue, Option.some.injEq] at h
      subst h
      exact ⟨rfl, rfl, rfl, rfl, by simp [hhalted]⟩
  | sendPacket packet =>
    right
    simp only [Option.some.injEq] at h
    subst h
    exact ⟨rfl, rfl, rfl, rfl, by simp [hhalted]⟩
  | requestStart written =>
    right
    by_cases hrunning : u.client.simulationStarted = true
    · simp only [if_pos hrunning, Option.some.injEq] at h
      subst h
      exact ⟨rfl, rfl, rfl, rfl, by simp [hhalted]⟩
    · simp only [if_neg hrunning, Option.some.injEq] at h
      subst h
      exact ⟨rfl, rfl, rfl, rfl, by cases written <;> simp⟩

theorem Idle.step (h : u.Idle) (hstep : Channel.step u a = some t) : t.Idle := by
  obtain ⟨hhalted, ⟨input, rfl, rfl⟩ | ⟨-, haside⟩⟩ := step_cases hstep
  · exact (iteration_spec input (h hhalted)).1
  · intro _
    rw [haside.currentControlMessage]
    exact h hhalted

theorem acted_prefix {as : List ChannelAction} (hrun : Transition.run step u as = some v) :
    u.acted <+: v.acted := by
  refine Transition.run_invariant (fun v => u.acted <+: v.acted) ?_ List.prefix_rfl hrun
  intro v a w hv hstep
  obtain ⟨-, ⟨input, rfl, rfl⟩ | ⟨-, haside⟩⟩ := step_cases hstep
  · exact hv.trans (List.prefix_append _ _)
  · rw [haside.acted]
    exact hv

theorem eq_of_halted {as : List ChannelAction} (h : u.halted ≠ none)
    (hrun : Transition.run step u as = some v) : v = u := by
  cases as with
  | nil => exact (Option.some.inj hrun).symm
  | cons a as =>
    obtain ⟨t, ht, -⟩ := Option.bind_eq_some_iff.mp hrun
    exact absurd (step_cases ht).1 h

/-- One iteration is enough for a line that is not empty. -/
theorem front_line_taken (hidle : u.Idle) {line rest : List Byte} (hne : line ≠ [])
    (hline : newline ∉ line) (hbuffer : u.client.socketBufferStr = line ++ newline :: rest)
    {as : List ChannelAction} (hrun : Transition.run step u as = some v)
    (hcount : 1 ≤ as.countP ChannelAction.isIterate) :
    v.halted ≠ none ∨ u.acted ++ [messageOf line] <+: v.acted := by
  -- along the actions up to the first iteration, which leave the buffer as it is
  induction as generalizing u with
  | nil => simp at hcount
  | cons a as ih =>
    obtain ⟨t, ht, hrest⟩ := Option.bind_eq_some_iff.mp hrun
    obtain ⟨hhalted, ⟨input, rfl, rfl⟩ | ⟨hother, haside⟩⟩ := step_cases ht
    · obtain ⟨-, -, hfront⟩ := iteration_spec input (hidle hhalted)
      rcases hfront line (rest ++ input.chunk) (by simp [hbuffer]) hline hne with hhalt | hmessage
      · left
        rw [eq_of_halted hhalt hrest]
        exact hhalt
      · right
        have hacted : (u.afterIteration input).acted = u.acted ++ [messageOf line] := by
          simp [afterIteration, hmessage]
        exact hacted ▸ acted_prefix hrest
    · have hbuffer' : t.client.socketBufferStr = line ++ newline :: rest :=
        haside.socketBufferStr.trans hbuffer
      have hcount' : 1 ≤ as.countP ChannelAction.isIterate := by
        rwa [List.countP_cons_of_neg (by simp [hother])] at hcount
      rw [← haside.acted]
      exact ih (hidle.step ht) hbuffer' hrest hcount'

def quietInput : Input := ⟨[], true, true⟩

/-- An iteration on an empty line leaves it where it is. -/
theorem step_blocked (hrunning : u.Running) (hidle : u.Idle) {rest : List Byte}
    (hbuffer : u.client.socketBufferStr = newline :: rest) :
    ∃ t, step u (.iterate quietInput) = some t ∧ t.Running ∧ t.Idle ∧
      t.client.socketBufferStr = newline :: rest ∧ t.acted = u.acted := by
  have hclient := hidle hrunning.1
  have hfront : u.client.socketBufferStr ++ quietInput.chunk = newline :: rest := by
    simp [hbuffer, quietInput]
  have hget := getControlMessage_empty hclient hfront
  obtain ⟨output, transmitted, hsend⟩ := sendOne_frame quietInput
    { u.client with socketBufferStr := newline :: rest }
  have hhalt := (sendOne_halt quietInput
    { u.client with socketBufferStr := newline :: rest }).2 rfl
  have hstep : step u (.iterate quietInput) = some (u.afterIteration quietInput) := by
    simp [step, hrunning.1, hrunning.2, afterIteration, quietInput]
  have hafter := iteration_quiet quietInput hclient hget
  refine ⟨_, hstep, ⟨?_, ?_⟩, hidle.step hstep, ?_, ?_⟩
  · simp only [afterIteration, hafter, hhalt]
  · simp only [afterIteration, hafter, hsend]
    exact hrunning.2
  · simp only [afterIteration, hafter, hsend]
  · simp [afterIteration, hafter]

theorem run_blocked (hrunning : u.Running) (hidle : u.Idle) {rest : List Byte}
    (hbuffer : u.client.socketBufferStr = newline :: rest) (n : ℕ) :
    ∃ v, Transition.run step u (List.replicate n (.iterate quietInput)) = some v ∧
      v.Running ∧ v.acted = u.acted := by
  induction n generalizing u with
  | zero => exact ⟨u, rfl, hrunning, rfl⟩
  | succ n ih =>
    obtain ⟨t, ht, hrunning', hidle', hbuffer', hacted⟩ := step_blocked hrunning hidle hbuffer
    obtain ⟨v, hv, hvrunning, hvacted⟩ := ih hrunning' hidle' hbuffer'
    exact ⟨v, by simp [List.replicate_succ, ht, hv], hvrunning, hvacted.trans hacted⟩

/-- The first line gets its turn if and only if it is not empty. -/
theorem progresses_iff (hidle : u.Idle) :
    u.Progresses ↔ (u.Running → ¬ [newline] <+: u.client.socketBufferStr) := by
  constructor
  · rintro hprogress hrunning ⟨rest, hrest⟩
    obtain ⟨n, hn⟩ := hprogress hrunning [] rest hrest.symm List.not_mem_nil
    obtain ⟨v, hv, hvrunning, hvacted⟩ := run_blocked hrunning hidle hrest.symm n
    have hcount : n ≤ (List.replicate n (ChannelAction.iterate quietInput)).countP
        ChannelAction.isIterate := by
      simp [List.countP_replicate, ChannelAction.isIterate]
    rcases hn _ v hv hcount with hhalt | hprefix
    · exact hhalt hvrunning.1
    · have hlen := hprefix.length_le
      rw [hvacted, List.length_append, List.length_singleton] at hlen
      omega
  · intro hfront hrunning line rest hbuffer hline
    have hne : line ≠ [] := by
      rintro rfl
      exact hfront hrunning ⟨rest, hbuffer.symm⟩
    exact ⟨1, fun as v hrun => front_line_taken hidle hne hline hbuffer hrun⟩

theorem outOfRange_iff (hidle : u.Idle) (hstep : Channel.step u a = some t) :
    t.halted ≠ some .outOfRange ↔
      ∀ input, a = .iterate input → ¬ ShortStart (u.client.socketBufferStr ++ input.chunk) := by
  obtain ⟨hhalted, ⟨input, rfl, rfl⟩ | ⟨hother, haside⟩⟩ := step_cases hstep
  · obtain ⟨-, hrange, -⟩ := iteration_spec input (hidle hhalted)
    have hrange' : (u.afterIteration input).halted ≠ some .outOfRange ↔
        ¬ ShortStart (u.client.socketBufferStr ++ input.chunk) := not_iff_not.mpr hrange
    rw [hrange']
    refine ⟨fun h input' heq => ?_, fun h => h input rfl⟩
    cases heq
    exact h
  · refine ⟨fun _ input heq => ?_, fun _ => haside.halted⟩
    subst heq
    cases hother

theorem idle_initial (buffer : List Byte) : (initial buffer).Idle := fun _ => rfl

end Channel

/-- All along the run the lines get their turn, and no message is read past its end. -/
def ProgressAlong (buffer : List Byte) (as : List ChannelAction) : Prop :=
  ∀ u ∈ Transition.states Channel.step (Channel.initial buffer) as,
    u.Progresses ∧ u.halted ≠ some .outOfRange

/-- No empty line comes to the front, and no iteration meets a short `START` there. -/
def FrontsSound (buffer : List Byte) (as : List ChannelAction) : Prop :=
  (∀ u ∈ Transition.states Channel.step (Channel.initial buffer) as,
    u.Running → ¬ [newline] <+: u.client.socketBufferStr) ∧
  ∀ x ∈ Transition.steps Channel.step (Channel.initial buffer) as, ∀ input,
    x.2 = .iterate input → ¬ ShortStart (x.1.client.socketBufferStr ++ input.chunk)

/-- Exactly the empty line in front and the `START` with one argument stand in the way. -/
theorem progressAlong_iff (buffer : List Byte) (as : List ChannelAction) (s : Channel)
    (hrun : Transition.run Channel.step (Channel.initial buffer) as = some s) :
    ProgressAlong buffer as ↔ FrontsSound buffer as := by
  have hstep : ∀ u a t, Channel.Idle u → Channel.step u a = some t → t.Idle :=
    fun _ _ _ h => h.step
  have hidle := Transition.states_invariant Channel.Idle hstep (Channel.idle_initial buffer) as
  have hrange := Transition.states_iff_steps Channel.Idle (fun u => u.halted ≠ some .outOfRange)
    (fun u a => ∀ input, a = .iterate input →
      ¬ ShortStart (u.client.socketBufferStr ++ input.chunk))
    hstep (fun _ _ _ h _ => Channel.outOfRange_iff h)
    (Channel.idle_initial buffer) (by simp [Channel.initial]) hrun
  rw [FrontsSound, ← hrange]
  constructor
  · intro hall
    exact ⟨fun u hu => (Channel.progresses_iff (hidle u hu)).mp (hall u hu).1,
      fun u hu => (hall u hu).2⟩
  · rintro ⟨hfront, hhalted⟩ u hu
    exact ⟨(Channel.progresses_iff (hidle u hu)).mpr (hfront u hu), hhalted u hu⟩

instance (buffer : List Byte) (a : ChannelAction) :
    Decidable (∀ input, a = .iterate input → ¬ ShortStart (buffer ++ input.chunk)) :=
  match a with
  | .iterate input =>
    decidable_of_iff (¬ ShortStart (buffer ++ input.chunk))
      ⟨fun h _ he => ChannelAction.iterate.inj he ▸ h, fun h => h input rfl⟩
  | .receiveTest | .receiveTake | .sendPacket _ | .requestStart _ => isTrue nofun

instance (buffer : List Byte) (as : List ChannelAction) : Decidable (FrontsSound buffer as) :=
  inferInstanceAs (Decidable (_ ∧ _))

theorem progressAlong_three : ProgressAlong [] threeMessagesRun := by
  obtain ⟨s, hrun⟩ := Option.isSome_iff_exists.mp
    (show (Transition.run Channel.step (Channel.initial []) threeMessagesRun).isSome by
      decide +kernel)
  exact (progressAlong_iff [] threeMessagesRun s hrun).mpr (by decide +kernel)

/-- An empty line before `FINISH` is never taken off, and `START 1` ends the process. -/
theorem not_progressAlong :
    ¬ ProgressAlong [] [.iterate
        ⟨newline :: lineOf (chars ['F', 'I', 'N', 'I', 'S', 'H']) ++ [newline], true, true⟩] ∧
      ¬ ProgressAlong [] [.iterate
        ⟨lineOf (chars ['S', 'T', 'A', 'R', 'T', ' ', '1']) ++ [newline], true, true⟩] := by
  constructor
  · intro hall
    obtain ⟨u, hu, hhalted, hloop, hmessage, hfront⟩ :
        ∃ u ∈ Transition.states Channel.step (Channel.initial []) [.iterate
            ⟨newline :: lineOf (chars ['F', 'I', 'N', 'I', 'S', 'H']) ++ [newline], true, true⟩],
          u.halted = none ∧ looping u.client = true ∧ u.client.currentControlMessage = [] ∧
            [newline] <+: u.client.socketBufferStr := by
      decide +kernel
    have hidle : u.Idle := fun _ => hmessage
    exact (Channel.progresses_iff hidle).mp (hall u hu).1 ⟨hhalted, hloop⟩ hfront
  · intro hall
    obtain ⟨u, hu, hhalted⟩ :
        ∃ u ∈ Transition.states Channel.step (Channel.initial []) [.iterate
            ⟨lineOf (chars ['S', 'T', 'A', 'R', 'T', ' ', '1']) ++ [newline], true, true⟩],
          u.halted = some .outOfRange := by
      decide +kernel
    exact (hall u hu).2 hhalted

end RdtChallenge
