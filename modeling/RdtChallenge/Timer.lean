import Mathlib.Logic.Function.Basic
import RdtChallenge.Transition

namespace RdtChallenge.Timer
open Function (update)

abbrev TimerId := BitVec 64

/-- A `Timestamp`: signed 64-bit nanoseconds. A sum that is past them wraps round, as it does
in the code that compilers make of it; for the language it is undefined. -/
def timestamp (ns : ℤ) : ℤ := ns.bmod 0x10000000000000000

/-- `Duration` of an unsigned count of milliseconds, in signed 64 bits. -/
def duration (ms : ℤ) : ℤ := if ms < 0x8000000000000000 then ms else ms - 0x10000000000000000

def nsPerMs : ℤ := 1000000

structure Instance where
  id : TimerId
  next : ℤ
  /-- In milliseconds. -/
  period : ℤ
  /-- The address of the `ITimeoutEventHandler`. -/
  handler : ℕ
  tag : BitVec 32
  running : Bool
deriving DecidableEq

structure Call where
  id : TimerId
  handler : ℕ
  tag : BitVec 32
deriving DecidableEq

inductive Phase
  /-- At the head of its loop or waiting there. -/
  | waiting
  /-- In the handler of a timer, without the lock. -/
  | handling (id : TimerId)
  /-- The same, and the instance it refers to has been freed. -/
  | dangling
  | undefined
deriving DecidableEq

/-- `active` owns the instances, and `queue` refers to those that wait, sorted by `next`. The
destructor is left out, so `done` stays false. -/
structure State where
  nextId : TimerId
  active : TimerId → Option Instance
  queue : List TimerId
  phase : Phase
  called : List Call

def initial : State := ⟨1, fun _ => none, [], .waiting, []⟩

/-- `next` of the instance that an entry of the queue refers to. -/
def deadlineIn (active : TimerId → Option Instance) (id : TimerId) : Option ℤ :=
  (active id).map Instance.next

/-- `queue.insert`, after the entries that are due no later. -/
def insertEntry (deadline : TimerId → Option ℤ) (id : TimerId) (next : ℤ) :
    List TimerId → Option (List TimerId)
  | [] => some [id]
  | j :: js => do
    if next < (← deadline j) then some (id :: j :: js)
    else
      let js ← insertEntry deadline id next js
      some (j :: js)

/-- `queue.erase` of a key: all the entries due at the same time. -/
def eraseKey (deadline : TimerId → Option ℤ) (next : ℤ) : List TimerId → Option (List TimerId)
  | [] => some []
  | j :: js => do
    let t ← deadline j
    let js ← eraseKey deadline next js
    some (if t = next then js else j :: js)

def createImpl (item : Instance) (s : State) : Option (State × TimerId) := do
  let item := { item with id := s.nextId }
  -- `emplace` keeps the instance of an id that is taken
  let stored := (s.active item.id).getD item
  let active := update s.active item.id (some stored)
  let queue ← insertEntry (deadlineIn active) item.id stored.next s.queue
  some ({ s with nextId := s.nextId + 1, active, queue }, item.id)

/-- `Instance(id, Clock::now() + Duration(msFromNow), Duration(msPeriod), instance, tag)`. -/
def newInstance (id : TimerId) (now msFromNow msPeriod : ℤ) (handler : ℕ) (tag : BitVec 32) :
    Instance :=
  ⟨id, timestamp (now + nsPerMs * duration msFromNow), duration msPeriod, handler, tag, false⟩

def create (now msFromNow msPeriod : ℤ) (handler : ℕ) (tag : BitVec 32) :
    State → Option (State × TimerId) :=
  createImpl (newInstance 0 now msFromNow msPeriod handler tag)

def destroy (id : TimerId) (s : State) : Option (State × Bool) :=
  match s.active id with
  | none => some (s, false)
  | some i =>
    -- a callback is in progress: the flag asks the worker for the deletion
    if i.running then
      some ({ s with active := update s.active id (some { i with running := false }) }, true)
    else do
      let queue ← eraseKey (deadlineIn s.active) i.next s.queue
      some ({ s with
        active := update s.active id none
        queue
        phase := if s.phase = .handling id then .dangling else s.phase }, true)

/-- From `lock.lock()` after the handler to the end of the iteration. -/
def finish (s : State) : Option State :=
  match s.phase with
  | .waiting => some s
  | .handling id => do
    let i ← s.active id
    if ¬ i.running then
      some { s with active := update s.active i.id none, phase := .waiting }
    else if i.period > 0 then
      let i := { i with running := false, next := timestamp (i.next + nsPerMs * i.period) }
      let active := update s.active id (some i)
      let queue ← insertEntry (deadlineIn active) id i.next s.queue
      some { s with active, queue, phase := .waiting }
    else some { s with active := update s.active i.id none, phase := .waiting }
  | _ => none

/-- From the head of the loop to the call of a handler or to one of the two waits. -/
def loopHead (now : ℤ) (s : State) : Option State :=
  match s.queue with
  | [] => some s
  | first :: rest => do
    let i ← s.active first
    if now ≥ i.next then
      some { s with
        active := update s.active first (some { i with running := true })
        queue := rest
        phase := .handling first
        called := s.called ++ [⟨i.id, i.handler, i.tag⟩] }
    else some s

def threadStart (now : ℤ) (s : State) : Option State := do loopHead now (← finish s)

/-- The regions under the lock. The worker gives the lock up around a handler and when it waits,
which any wake-up may end. -/
inductive Action
  | create (now msFromNow msPeriod : ℤ) (handler : ℕ) (tag : BitVec 32)
  | destroy (id : TimerId)
  | worker (now : ℤ)
deriving DecidableEq

/-- The state after a region, or `none` if it uses a freed instance. -/
def region (s : State) : Action → Option State
  | .create now msFromNow msPeriod handler tag =>
    (create now msFromNow msPeriod handler tag s).map Prod.fst
  | .destroy id => (destroy id s).map Prod.fst
  | .worker now => threadStart now s

def step (s : State) (a : Action) : Option State :=
  if s.phase = .undefined then none
  else some ((region s a).getD { s with phase := .undefined })

section Queue
variable {deadline : TimerId → Option ℤ} {q : List TimerId}

theorem insertEntry_spec (hq : ∀ j ∈ q, (deadline j).isSome) (id : TimerId) (next : ℤ) :
    ∃ q', insertEntry deadline id next q = some q' ∧ q'.Perm (id :: q) := by
  induction q with
  | nil => exact ⟨[id], rfl, List.Perm.refl _⟩
  | cons j js ih =>
    obtain ⟨hj, hjs⟩ := List.forall_mem_cons.mp hq
    obtain ⟨t, ht⟩ := Option.isSome_iff_exists.mp hj
    by_cases hlt : next < t
    · exact ⟨id :: j :: js, by simp [insertEntry, ht, hlt], List.Perm.refl _⟩
    · obtain ⟨js', hjs', hperm⟩ := ih hjs
      refine ⟨j :: js', by simp [insertEntry, ht, hlt, hjs'], ?_⟩
      exact (hperm.cons j).trans (List.Perm.swap id j js)

theorem eraseKey_spec (hq : ∀ j ∈ q, (deadline j).isSome) (next : ℤ) :
    eraseKey deadline next q = some (q.filter fun j => deadline j ≠ some next) := by
  induction q with
  | nil => rfl
  | cons j js ih =>
    obtain ⟨hj, hjs⟩ := List.forall_mem_cons.mp hq
    obtain ⟨t, ht⟩ := Option.isSome_iff_exists.mp hj
    by_cases heq : t = next <;> simp [eraseKey, ht, ih hjs, heq]

end Queue

end RdtChallenge.Timer
