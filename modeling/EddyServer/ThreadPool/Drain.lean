import EddyServer.ThreadPool.Order

/-!
# Emptying the list

The worker pops the front of the list behind the callback that it has run, inside `if (cb !=
nullptr)`. An empty `std::function` is taken out and left where it was: the pass ends with the list
as long as before, the next pass finds it again, and nothing behind it is ever run.

The list has been filled and nothing is appended any more: what runs beside the worker is `load` and
`wait_for_idle`.
-/

namespace EddyServer
namespace Thread

open Transition (Run Execution)

/-! ## Who holds the mutex -/

/-- The worker has the mutex here. -/
def RunLoop.holds : RunLoop → Bool
  | .emptyCheck | .innerCheck | .wait | .unlockWait | .takeFront | .unlockFront _ | .popFront
  | .unlockPop => true
  | _ => false

/-- A call has the mutex here. -/
def CallPoint.holds : CallPoint → Bool
  | .pushBack _ | .appendUnlock _ | .loadSize _ | .loadUnlock _ _ => true
  | _ => false

/-- The mutex is held by somebody who is about to release it. -/
def Held (θ : Thread) : Prop :=
  match θ.queueTaskMutex with
  | none => True
  | some .worker => θ.worker.holds = true
  | some (.call i) => (θ.calls i).holds = true

theorem Held.of_none {θ : Thread} (h : θ.queueTaskMutex = none) : Held θ := by
  rw [Held, h]
  trivial

/-- As long as nobody takes or releases the mutex its holder has to stay where it is held. -/
theorem Held.of_same {θ θ' : Thread} (h : Held θ) (hmutex : θ'.queueTaskMutex = θ.queueTaskMutex)
    (hworker : θ.worker.holds = true → θ'.worker.holds = true)
    (hcalls : ∀ i, (θ.calls i).holds = true → (θ'.calls i).holds = true) : Held θ' := by
  unfold Held at h ⊢
  rw [hmutex]
  cases hparty : θ.queueTaskMutex with
  | none => trivial
  | some party =>
      rw [hparty] at h
      cases party with
      | worker => exact hworker h
      | call i => exact hcalls i h

theorem Held.goto {θ : Thread} {i : Nat} {next : CallPoint} (h : Held θ)
    (hnext : (θ.calls i).holds = true → next.holds = true) : Held (θ.goto i next) := by
  refine h.of_same rfl id fun j hj => ?_
  by_cases hji : j = i
  · subst hji
    rw [calls_goto]
    exact hnext hj
  · rwa [calls_goto_of_ne _ _ hji]

theorem calls_notifyOne (θ : Thread) : θ.notifyOne.calls = θ.calls := by
  unfold notifyOne
  split_ifs <;> rfl

/-- The worker is woken where it does not hold the mutex. -/
theorem Held.notifyOne {θ : Thread} (h : Held θ) : Held θ.notifyOne := by
  unfold Thread.notifyOne
  split_ifs with hblocked
  · refine h.of_same rfl (fun hholds => ?_) fun _ => id
    rw [hblocked] at hholds
    cases hholds
  · exact h

theorem Held.worker {θ θ' : Thread} {moved : Callback} (h : Held θ)
    (hstep : θ.workerStep moved = some θ') : Held θ' := by
  unfold workerStep at hstep
  cases hpc : θ.worker with
  | blocked | exited =>
      rw [hpc] at hstep
      cases hstep
  | wait | unlockWait | unlockFront cb | unlockPop =>
      rw [hpc] at hstep
      cases hstep
      exact .of_none rfl
  | lockWait | woken | lockFront | lockPop =>
      rw [hpc] at hstep
      rw [lockWorker_eq hstep]
      exact rfl
  | outerCheck | laterCheck | running i =>
      rw [hpc] at hstep
      cases hstep
      refine h.of_same rfl (fun hholds => ?_) fun _ => id
      rw [hpc] at hholds
      cases hholds
  | emptyCheck | innerCheck =>
      rw [hpc] at hstep
      cases hstep
      refine h.of_same rfl (fun _ => ?_) fun _ => id
      dsimp only
      split_ifs <;> rfl
  | takeFront =>
      rw [hpc] at hstep
      dsimp only at hstep
      split at hstep <;> cases hstep <;> exact h.of_same rfl (fun _ => rfl) fun _ => id
  | test cb =>
      rw [hpc] at hstep
      refine h.of_same ?_ (fun hholds => ?_) fun i => ?_
      · cases cb <;> cases hstep <;> rfl
      · rw [hpc] at hholds
        cases hholds
      · cases cb <;> cases hstep <;> exact id
  | popFront =>
      rw [hpc] at hstep
      cases hstep
      exact h.of_same rfl (fun _ => rfl) fun _ => id

/-- A call that takes the mutex is the one that holds it. -/
theorem held_lockCall {θ θ' : Thread} {i : Nat} {next : CallPoint} (hnext : next.holds = true)
    (hstep : θ.lockCall i next = some θ') : Held θ' := by
  unfold lockCall at hstep
  split_ifs at hstep
  cases hstep
  show ((({ θ with queueTaskMutex := some (.call i) } : Thread).goto i next).calls i).holds = true
  rw [calls_goto]
  exact hnext

theorem Held.call {θ θ' : Thread} {i : Nat} (h : Held θ) (hstep : θ.callStep i = some θ') :
    Held θ' := by
  unfold callStep at hstep
  cases hcall : θ.calls i with
  | idle | returned result =>
      rw [hcall] at hstep
      cases hstep
  | appendLock cb =>
      rw [hcall] at hstep
      exact held_lockCall rfl hstep
  | loadLock waits =>
      rw [hcall] at hstep
      exact held_lockCall rfl hstep
  | appendUnlock size | loadUnlock waits size =>
      rw [hcall] at hstep
      cases hstep
      exact .of_none rfl
  | pushBack cb =>
      rw [hcall] at hstep
      cases hstep
      have hpushed : Held { θ with
          queueTask := θ.queueTask ++ [cb], queued := θ.queued ++ cb.toList } := h
      exact hpushed.goto fun _ => rfl
  | loadSize waits =>
      rw [hcall] at hstep
      cases hstep
      exact h.goto fun _ => rfl
  | appendCheck cb | stopCheck joins =>
      rw [hcall] at hstep
      cases hstep
      refine h.goto fun hholds => ?_
      rw [hcall] at hholds
      cases hholds
  | stopStore joins =>
      rw [hcall] at hstep
      cases hstep
      have hstored : Held { θ with finished := true } := h
      refine hstored.goto fun hholds => ?_
      rw [hcall] at hholds
      cases hholds
  | appendNotify size | stopNotify joins =>
      rw [hcall] at hstep
      cases hstep
      refine h.notifyOne.goto fun hholds => ?_
      rw [calls_notifyOne, hcall] at hholds
      cases hholds
  | joining =>
      rw [hcall] at hstep
      dsimp only at hstep
      split_ifs at hstep
      cases hstep
      refine h.goto fun hholds => ?_
      rw [hcall] at hholds
      cases hholds

/-- **The mutex is always held where it is released.** -/
theorem held_of_reach {θ : Thread} (h : Transition.Reach step .new θ) : Held θ := by
  refine h.invariant (I := Held) (fun {θ a θ'} hheld _ hstep => ?_) (.of_none rfl)
  cases a with
  | worker moved => exact hheld.worker hstep
  | spurious =>
      obtain ⟨hblocked, rfl⟩ := step_spurious hstep
      refine hheld.of_same rfl (fun hholds => ?_) fun _ => id
      rw [hblocked] at hholds
      cases hholds
  | make i call =>
      obtain ⟨hidle, rfl⟩ := step_make hstep
      refine hheld.goto fun hholds => ?_
      rw [hidle] at hholds
      cases hholds
  | call i => exact hheld.call hstep

/-! ## Nothing is appended any more -/

/-- `load` or `wait_for_idle`, or no call at all. -/
def CallPoint.quiet : CallPoint → Bool
  | .idle | .loadLock _ | .loadSize _ | .loadUnlock _ _ | .returned _ => true
  | _ => false

/-- No call but `load` and `wait_for_idle` is made. -/
def Quiet (_ : Thread) : Act → Prop
  | .make _ call => call = .load ∨ call = .waitForIdle
  | _ => True

instance (θ : Thread) : ∀ a, Decidable (Quiet θ a)
  | .make _ _ => inferInstanceAs (Decidable (_ ∨ _))
  | .worker _ | .spurious | .call _ => isTrue trivial

def Calm (θ : Thread) : Prop := ∀ i, (θ.calls i).quiet = true

theorem Calm.goto {θ : Thread} (h : Calm θ) {i : Nat} {next : CallPoint}
    (hnext : next.quiet = true) : Calm (θ.goto i next) := by
  intro j
  by_cases hji : j = i
  · subst hji
    rwa [calls_goto]
  · rw [calls_goto_of_ne _ _ hji]
    exact h j

/-- A step of a call reads the list at most. -/
theorem quiet_callStep {θ θ' : Thread} {i : Nat} (h : Calm θ) (hstep : θ.callStep i = some θ') :
    ∃ mutex next, θ' = ({ θ with queueTaskMutex := mutex } : Thread).goto i next ∧
      next.quiet = true := by
  have hquiet := h i
  unfold callStep at hstep
  cases hcall : θ.calls i with
  | idle | returned result =>
      rw [hcall] at hstep
      cases hstep
  | loadLock waits =>
      rw [hcall] at hstep
      dsimp only [lockCall] at hstep
      split_ifs at hstep
      cases hstep
      exact ⟨_, _, rfl, rfl⟩
  | loadSize waits =>
      rw [hcall] at hstep
      cases hstep
      exact ⟨θ.queueTaskMutex, _, rfl, rfl⟩
  | loadUnlock waits size =>
      rw [hcall] at hstep
      cases hstep
      refine ⟨none, _, rfl, ?_⟩
      split_ifs <;> rfl
  | _ =>
      rw [hcall] at hquiet
      cases hquiet

/-! ## A pass of `run_loop` -/

/-- The callbacks that wait can all be called. In a pass the front has been found to be there, and
in the second half of the pass it has been moved from. -/
def Working (θ : Thread) : Prop :=
  θ.finished = false ∧
    match θ.worker with
    | .outerCheck | .lockWait | .emptyCheck | .woken | .unlockPop => none ∉ θ.queueTask
    | .innerCheck | .wait | .blocked => θ.queueTask = []
    | .unlockWait | .laterCheck | .lockFront | .takeFront =>
      θ.queueTask ≠ [] ∧ none ∉ θ.queueTask
    | .unlockFront cb | .test cb => cb ≠ none ∧ θ.queueTask ≠ [] ∧ none ∉ θ.queueTask.tail
    | .running _ | .lockPop | .popFront => θ.queueTask ≠ [] ∧ none ∉ θ.queueTask.tail
    | .exited => False

/-- How many steps the worker is away from the end of the pass; behind the pop from that of the next
one. -/
def RunLoop.left : RunLoop → Nat
  | .unlockPop => 13
  | .outerCheck => 12
  | .lockWait | .woken => 11
  | .emptyCheck => 10
  | .unlockWait => 9
  | .laterCheck => 8
  | .lockFront => 7
  | .takeFront => 6
  | .unlockFront _ => 5
  | .test _ => 4
  | .running _ => 3
  | .lockPop => 2
  | .popFront => 1
  | .innerCheck | .wait | .blocked | .exited => 0

/-- What the worker has to do before the list is empty. -/
def remaining (θ : Thread) : Nat := 14 * θ.queueTask.length + θ.worker.left

/-- The callbacks that no finished pass has popped. -/
def unpassed (θ : Thread) : Nat :=
  θ.queueTask.length + if θ.worker = .unlockPop then 1 else 0

/-- **One step of the worker.** It goes on in its pass or ends it, and a callback is popped on the
way. -/
theorem Working.worker {θ θ' : Thread} {moved : Callback} (h : Working θ)
    (hstep : θ.workerStep moved = some θ') :
    Working θ' ∧ (θ.queueTask ≠ [] → remaining θ' < remaining θ) ∧
      unpassed θ' + (if θ'.worker = .outerCheck then 1 else 0) = unpassed θ := by
  obtain ⟨hfinished, hpoint⟩ := h
  have hunset : ¬ θ.finished = true := by simp [hfinished]
  unfold workerStep at hstep
  cases hpc : θ.worker with
  | blocked | exited =>
      rw [hpc] at hstep
      cases hstep
  | outerCheck | laterCheck =>
      rw [hpc] at hstep hpoint
      dsimp only at hstep
      rw [if_neg hunset] at hstep
      cases hstep
      exact ⟨⟨hfinished, hpoint⟩, fun _ => by simp [remaining, hpc, RunLoop.left],
        by simp [unpassed, hpc]⟩
  | lockWait | woken | lockFront | lockPop =>
      rw [hpc] at hstep hpoint
      rw [lockWorker_eq hstep]
      exact ⟨⟨hfinished, hpoint⟩, fun _ => by simp [remaining, hpc, RunLoop.left],
        by simp [unpassed, hpc]⟩
  | unlockWait | unlockFront cb | running i | unlockPop =>
      rw [hpc] at hstep hpoint
      cases hstep
      exact ⟨⟨hfinished, hpoint⟩, fun _ => by simp [remaining, hpc, RunLoop.left],
        by simp [unpassed, hpc]⟩
  | emptyCheck =>
      rw [hpc] at hstep hpoint
      cases hstep
      by_cases hempty : θ.queueTask = []
      · refine ⟨⟨hfinished, ?_⟩, fun hne => absurd hempty hne, by simp [unpassed, hpc, hempty]⟩
        simp [hempty]
      · refine ⟨⟨hfinished, ?_⟩, fun _ => ?_, by simp [unpassed, hpc, hempty]⟩
        · simpa [hempty] using hpoint
        · simp [remaining, hpc, RunLoop.left, hempty]
  | innerCheck =>
      rw [hpc] at hstep hpoint
      dsimp only at hstep
      rw [if_neg hunset] at hstep
      cases hstep
      exact ⟨⟨hfinished, hpoint⟩, fun hne => absurd hpoint hne, by simp [unpassed, hpc]⟩
  | wait =>
      rw [hpc] at hstep hpoint
      cases hstep
      exact ⟨⟨hfinished, hpoint⟩, fun hne => absurd hpoint hne, by simp [unpassed, hpc]⟩
  | takeFront =>
      rw [hpc] at hstep hpoint
      obtain ⟨hne, hfull⟩ := hpoint
      -- the front is there, and it can be called
      obtain ⟨cb, rest, hlist⟩ := List.exists_cons_of_ne_nil hne
      rw [hlist, List.mem_cons, not_or] at hfull
      rw [hlist] at hstep
      cases hstep
      refine ⟨⟨hfinished, fun hnone => hfull.1 hnone.symm, List.cons_ne_nil _ _, hfull.2⟩,
        fun _ => ?_, ?_⟩
      · simp [remaining, hpc, RunLoop.left, hlist]
      · simp [unpassed, hpc, hlist]
  | test cb =>
      rw [hpc] at hstep hpoint
      cases cb with
      | none => exact absurd rfl hpoint.1
      | some i =>
          cases hstep
          exact ⟨⟨hfinished, hpoint.2⟩, fun _ => by simp [remaining, hpc, RunLoop.left],
            by simp [unpassed, hpc]⟩
  | popFront =>
      rw [hpc] at hstep hpoint
      obtain ⟨hne, hfull⟩ := hpoint
      cases hstep
      obtain ⟨cb, rest, hlist⟩ := List.exists_cons_of_ne_nil hne
      refine ⟨⟨hfinished, hfull⟩, fun _ => ?_, by simp [unpassed, hpc, hlist]⟩
      simp only [remaining, hpc, RunLoop.left, hlist, List.tail_cons, List.length_cons]
      omega

/-- A thread that empties its list. -/
structure Emptying (θ : Thread) : Prop where
  working : Working θ
  calm : Calm θ

/-- A step of the worker. -/
def Act.isWorker : Act → Bool
  | .worker _ => true
  | _ => false

theorem Act.exists_of_isWorker {a : Act} (h : a.isWorker = true) : ∃ moved, a = .worker moved := by
  cases a with
  | worker moved => exact ⟨moved, rfl⟩
  | _ => cases h

theorem calm_step {θ θ' : Thread} {a : Act} (h : Calm θ) (hquiet : Quiet θ a)
    (hstep : step θ a = some θ') : Calm θ' := by
  cases a with
  | worker moved => cases workerMove_of_step hstep <;> exact h
  | spurious =>
      obtain ⟨-, rfl⟩ := step_spurious hstep
      exact h
  | make i call =>
      obtain ⟨-, rfl⟩ := step_make hstep
      rcases hquiet with rfl | rfl <;> exact h.goto rfl
  | call i =>
      obtain ⟨mutex, next, rfl, hnext⟩ := quiet_callStep h hstep
      have hsame : Calm { θ with queueTaskMutex := mutex } := h
      exact hsame.goto hnext

/-- **A step of anybody else** leaves the list alone, and the worker too, unless it waits for the
list to fill. -/
theorem Emptying.other {θ θ' : Thread} {a : Act} (h : Emptying θ) (ha : a.isWorker = false)
    (hstep : step θ a = some θ') :
    Working θ' ∧ θ'.queueTask = θ.queueTask ∧ (θ.queueTask ≠ [] → θ'.worker = θ.worker) ∧
      unpassed θ' = unpassed θ := by
  cases a with
  | worker moved => cases ha
  | spurious =>
      obtain ⟨hblocked, rfl⟩ := step_spurious hstep
      obtain ⟨hfinished, hpoint⟩ := h.working
      rw [hblocked] at hpoint
      refine ⟨⟨hfinished, ?_⟩, rfl, fun hne => absurd hpoint hne, by simp [unpassed, hblocked]⟩
      simp [hpoint]
  | make i call =>
      obtain ⟨-, rfl⟩ := step_make hstep
      exact ⟨h.working, rfl, fun _ => rfl, rfl⟩
  | call i =>
      obtain ⟨mutex, next, rfl, -⟩ := quiet_callStep h.calm hstep
      exact ⟨h.working, rfl, fun _ => rfl, rfl⟩

theorem Emptying.step {θ θ' : Thread} {a : Act} (h : Emptying θ) (hquiet : Quiet θ a)
    (hstep : step θ a = some θ') : Emptying θ' := by
  refine ⟨?_, calm_step h.calm hquiet hstep⟩
  cases ha : a.isWorker with
  | false => exact (h.other ha hstep).1
  | true =>
      obtain ⟨moved, rfl⟩ := Act.exists_of_isWorker ha
      exact (h.working.worker hstep).1

/-- What is empty stays empty. -/
theorem Emptying.empty {θ θ' : Thread} {a : Act} (h : Emptying θ) (hempty : θ.queueTask = [])
    (hstep : Thread.step θ a = some θ') : θ'.queueTask = [] := by
  cases ha : a.isWorker with
  | false => rw [(h.other ha hstep).2.1, hempty]
  | true =>
      obtain ⟨moved, rfl⟩ := Act.exists_of_isWorker ha
      cases workerMove_of_step hstep with
      | goes mutex pc _ => exact hempty
      | takes cb moved rest _ hlist =>
          rw [hempty] at hlist
          cases hlist
      | calls i _ => exact hempty
      | returns i _ => exact hempty
      | pops _ => exact congrArg List.tail hempty

/-! ## Counting passes -/

/-- A thread, and how many passes of `run_loop` have ended. -/
structure Passing where
  thread : Thread
  passes : Nat

/-- A pass ends where the worker comes to the head of the loop. -/
def Passing.step (p : Passing) (a : Act) : Option Passing :=
  (Thread.step p.thread a).map fun θ =>
    { thread := θ, passes := p.passes + if a.isWorker ∧ θ.worker = .outerCheck then 1 else 0 }

/-- Every pass that has ended has popped one callback. -/
theorem Emptying.passing {p p' : Passing} {a : Act} (h : Emptying p.thread)
    (hstep : p.step a = some p') :
    unpassed p'.thread + p'.passes = unpassed p.thread + p.passes := by
  obtain ⟨θ, hθ, rfl⟩ := Option.map_eq_some_iff.mp hstep
  cases ha : a.isWorker with
  | false =>
      have hsame := (h.other ha hθ).2.2.2
      dsimp only
      rw [hsame, if_neg (by simp)]
      omega
  | true =>
      obtain ⟨moved, rfl⟩ := Act.exists_of_isWorker ha
      have hcount := (h.working.worker hθ).2.2
      dsimp only
      split_ifs at hcount ⊢ with hboth hhead hhead
      · omega
      · exact absurd hboth.2 hhead
      · exact absurd ⟨rfl, hhead⟩ hboth
      · omega

/-! ## Fair runs -/

/-- The call is a `wait_for_idle` that has not returned. -/
def CallPoint.waits : CallPoint → Bool
  | .loadLock true | .loadSize true | .loadUnlock true _ => true
  | _ => false

/-- Everybody goes on: the worker unless it is blocked, and every `wait_for_idle`. -/
structure IsFair (e : Execution step Quiet) : Prop where
  worker : e.Fair (fun θ => θ.worker ≠ .blocked) fun _ a => a.isWorker = true
  calls : ∀ i, e.Fair (fun θ => (θ.calls i).waits = true) fun _ a => a = .call i

/-- The list is empty at last. The induction is on what the worker has to do before. -/
theorem exists_empty {e : Execution step Quiet} (hfair : IsFair e) (m : Nat)
    (h : Emptying (e.state m)) : ∃ l, m ≤ l ∧ (e.state l).queueTask = [] := by
  induction hleft : remaining (e.state m) using Nat.strongRecOn generalizing m with
  | _ left ih =>
      by_cases hempty : (e.state m).queueTask = []
      · exact ⟨m, Nat.le_refl m, hempty⟩
      · have hawake : (e.state m).worker ≠ .blocked := by
          intro hblocked
          have hpoint := h.working.2
          rw [hblocked] at hpoint
          exact hempty hpoint
        -- until the worker goes on nothing happens to it or to the list
        obtain ⟨l, hml, ⟨hl, hqueue, hpc⟩, hworker⟩ := e.until_first
          (I := fun θ => Emptying θ ∧ θ.queueTask = (e.state m).queueTask ∧
            θ.worker = (e.state m).worker) (hfair.worker m hawake) ⟨h, rfl, rfl⟩
          fun {θ a θ'} hi hother hquiet hst => by
            obtain ⟨hθ, hqueue, hpc⟩ := hi
            have hsame := hθ.other (Bool.not_eq_true _ ▸ hother) hst
            exact ⟨hθ.step hquiet hst, hsame.2.1.trans hqueue,
              (hsame.2.2.1 (by rwa [hqueue])).trans hpc⟩
        have hstep := e.step_eq l
        obtain ⟨moved, hmoved⟩ := Act.exists_of_isWorker hworker
        have hnext := hl.step (e.allowed l) hstep
        rw [hmoved] at hstep
        have hless := (hl.working.worker hstep).2.1 (by rwa [hqueue])
        have hsame : remaining (e.state l) = remaining (e.state m) := by
          rw [remaining, remaining, hqueue, hpc]
        obtain ⟨k, hk, hdone⟩ := ih _ (by omega) (l + 1) hnext rfl
        exact ⟨k, by omega, hdone⟩

/-- How many steps a `load` that finds nothing is away from its return. -/
def CallPoint.left : CallPoint → Nat
  | .loadUnlock _ size => if size = 0 then 1 else 4
  | .loadLock _ => 3
  | .loadSize _ => 2
  | _ => 0

/-- A `wait_for_idle` returns or looks again. -/
theorem waits_callStep {θ θ' : Thread} {i : Nat} (hwaits : (θ.calls i).waits = true)
    (hstep : θ.callStep i = some θ') :
    (θ'.calls i).hasReturned = true ∨ (θ'.calls i).waits = true ∧
      (θ.queueTask = [] → (θ'.calls i).left < (θ.calls i).left) := by
  unfold callStep at hstep
  cases hcall : θ.calls i with
  | loadLock waits =>
      rw [hcall] at hstep hwaits
      dsimp only [lockCall] at hstep
      split_ifs at hstep
      cases hstep
      rw [calls_goto]
      cases waits with
      | false => cases hwaits
      | true => exact .inr ⟨rfl, fun _ => by decide⟩
  | loadSize waits =>
      rw [hcall] at hstep hwaits
      cases hstep
      rw [calls_goto]
      cases waits with
      | false => cases hwaits
      | true => exact .inr ⟨rfl, fun hempty => by simp [hempty, CallPoint.left]⟩
  | loadUnlock waits size =>
      rw [hcall] at hstep hwaits
      cases hstep
      rw [unlockCall, calls_goto]
      cases waits with
      | false => cases hwaits
      | true =>
          by_cases hsize : size = 0
          · left
            simp [hsize, CallPoint.hasReturned]
          · right
            simp [hsize, Nat.pos_of_ne_zero hsize, CallPoint.waits, CallPoint.left]
  | _ =>
      rw [hcall] at hwaits
      cases hwaits

/-- A call that has been made goes on by its own steps only. -/
theorem calls_other {θ θ' : Thread} {a : Act} {i : Nat} (h : Calm θ) (hmade : θ.calls i ≠ .idle)
    (ha : a ≠ .call i) (hstep : step θ a = some θ') : θ'.calls i = θ.calls i := by
  cases a with
  | worker moved => cases workerMove_of_step hstep <;> rfl
  | spurious =>
      obtain ⟨-, rfl⟩ := step_spurious hstep
      rfl
  | make j call =>
      obtain ⟨hidle, rfl⟩ := step_make hstep
      have hij : i ≠ j := by
        rintro rfl
        exact hmade hidle
      exact calls_goto_of_ne _ _ hij
  | call j =>
      obtain ⟨mutex, next, rfl, -⟩ := quiet_callStep h hstep
      have hij : i ≠ j := by
        rintro rfl
        exact ha rfl
      exact calls_goto_of_ne _ _ hij

theorem made_of {θ : Thread} {i : Nat} {made : CallPoint → Bool} (hidle : made .idle = false)
    (h : made (θ.calls i) = true) : θ.calls i ≠ .idle := by
  intro hpoint
  rw [hpoint, hidle] at h
  cases h

/-- With an empty list a `wait_for_idle` returns. The induction is on the steps that it is away from
its return. -/
theorem exists_returned {e : Execution step Quiet} (hfair : IsFair e) {i : Nat} (m : Nat)
    (h : Emptying (e.state m)) (hempty : (e.state m).queueTask = [])
    (hwaits : ((e.state m).calls i).waits = true) :
    ∃ l, m ≤ l ∧ ((e.state l).calls i).hasReturned = true := by
  induction hleft : ((e.state m).calls i).left using Nat.strongRecOn generalizing m with
  | _ left ih =>
      obtain ⟨l, hml, ⟨hl, hnone, hsame⟩, hcall⟩ := e.until_first
        (I := fun θ => Emptying θ ∧ θ.queueTask = [] ∧ θ.calls i = (e.state m).calls i)
        (hfair.calls i m hwaits) ⟨h, hempty, rfl⟩
        fun {θ a θ'} hi hother hquiet hst => by
          obtain ⟨hθ, hnone, hsame⟩ := hi
          have hmade : θ.calls i ≠ .idle := by
            rw [hsame]
            exact made_of rfl hwaits
          exact ⟨hθ.step hquiet hst, hθ.empty hnone hst,
            (calls_other hθ.calm hmade hother hst).trans hsame⟩
      have hstep := e.step_eq l
      have hnext := hl.step (e.allowed l) hstep
      have hnone' := hl.empty hnone hstep
      rw [hcall] at hstep
      rcases waits_callStep (by rwa [hsame]) hstep with hreturned | ⟨hagain, hless⟩
      · exact ⟨l + 1, by omega, hreturned⟩
      · -- the list is still empty, so the call has come closer to its return
        rw [hsame] at hless
        have hlt := hless hnone
        obtain ⟨k, hk, hdone⟩ := ih _ (by omega) (l + 1) hnext hnone' hagain rfl
        exact ⟨k, by omega, hdone⟩

/-- **`wait_for_idle` ends.** -/
theorem wait_ends {e : Execution step Quiet} (hfair : IsFair e) {i : Nat} (m : Nat)
    (h : Emptying (e.state m)) (hwaits : ((e.state m).calls i).waits = true) :
    ∃ l, m ≤ l ∧ ((e.state l).calls i).hasReturned = true := by
  obtain ⟨l, hml, hempty⟩ := exists_empty hfair m h
  -- at that time the call waits or has returned
  have hkept : Emptying (e.state l) ∧ (((e.state l).calls i).waits = true ∨
      ((e.state l).calls i).hasReturned = true) := by
    refine (e.run hml).invariant (I := fun θ => Emptying θ ∧ ((θ.calls i).waits = true ∨
      (θ.calls i).hasReturned = true)) (fun {θ a θ'} hi hquiet hst => ?_) ⟨h, .inl hwaits⟩
    obtain ⟨hθ, hcall⟩ := hi
    refine ⟨hθ.step hquiet hst, ?_⟩
    by_cases ha : a = .call i
    · subst ha
      rcases hcall with hwaits | hreturned
      · rcases waits_callStep hwaits hst with hreturned | ⟨hagain, -⟩
        · exact .inr hreturned
        · exact .inl hagain
      · -- a call that has returned takes no step
        obtain ⟨result, hresult⟩ : ∃ result, θ.calls i = .returned result := by
          cases hpoint : θ.calls i with
          | returned result => exact ⟨result, rfl⟩
          | _ =>
              rw [hpoint] at hreturned
              cases hreturned
        rw [Thread.step, callStep, hresult] at hst
        cases hst
    · have hmade : θ.calls i ≠ .idle := hcall.elim (made_of rfl) (made_of rfl)
      rw [calls_other hθ.calm hmade ha hst]
      exact hcall
  obtain ⟨hl, hwaits | hreturned⟩ := hkept
  · obtain ⟨k, hk, hdone⟩ := exists_returned hfair l hl hempty hwaits
    exact ⟨k, by omega, hdone⟩
  · exact ⟨l, hml, hreturned⟩

/-! ## An empty callback -/

/-- The worker does not hold the mutex and is about to look at the list, in a pass that it starts or
behind a notification. -/
def RunLoop.starts : RunLoop → Bool
  | .outerCheck | .lockWait | .woken => true
  | _ => false

theorem RunLoop.eq_of_starts {pc : RunLoop} (h : pc.starts = true) :
    pc = .outerCheck ∨ pc = .lockWait ∨ pc = .woken := by
  cases pc with
  | outerCheck => exact .inl rfl
  | lockWait => exact .inr (.inl rfl)
  | woken => exact .inr (.inr rfl)
  | _ => cases h

/-- The worker can go on to the list. -/
structure AtHead (θ : Thread) : Prop where
  worker : θ.worker.starts = true
  finished : θ.finished = false
  mutex : θ.queueTaskMutex = none

/-- Runs that count passes and append nothing. -/
abbrev QuietRun : Passing → Passing → Prop := Run Passing.step fun p a => Quiet p.thread a

/-- `n` steps of the worker. -/
def workerSteps (n : Nat) : List Act := List.replicate n (.worker none)

theorem allowed_workerSteps (n : Nat) (p : Passing) :
    Transition.Allowed Passing.step (fun p a => Quiet p.thread a) p (workerSteps n) := by
  induction n generalizing p with
  | zero => trivial
  | succ n ih => exact ⟨trivial, fun p' _ => ih p'⟩

/-- The worker takes the mutex and is about to look at the list. -/
theorem locks {θ : Thread} (h : AtHead θ) (k : Nat) :
    QuietRun ⟨θ, k⟩
      ⟨{ θ with queueTaskMutex := some .worker, worker := .emptyCheck }, k⟩ := by
  obtain ⟨finished, queueTask, mutex, worker, calls, queued, started, done⟩ := θ
  obtain ⟨hworker, rfl, rfl⟩ := h
  have hexec : ∃ n, Transition.exec Passing.step
      ⟨⟨false, queueTask, none, worker, calls, queued, started, done⟩, k⟩ (workerSteps n) =
        some ⟨⟨false, queueTask, some .worker, .emptyCheck, calls, queued, started, done⟩, k⟩ := by
    rcases RunLoop.eq_of_starts hworker with hpc | hpc | hpc
    · exact ⟨2, by rw [show worker = .outerCheck from hpc]; rfl⟩
    · exact ⟨1, by rw [show worker = .lockWait from hpc]; rfl⟩
    · exact ⟨1, by rw [show worker = .woken from hpc]; rfl⟩
  obtain ⟨n, hexec⟩ := hexec
  exact Transition.run_of_exec hexec (allowed_workerSteps _ _)

/-- A pass that pops its callback. -/
theorem pass_some {θ : Thread} (h : AtHead θ) {i : Nat} {rest : List Callback}
    (hlist : θ.queueTask = some i :: rest) (k : Nat) :
    ∃ θ', AtHead θ' ∧ θ'.worker = .outerCheck ∧ θ'.queueTask = rest ∧
      QuietRun ⟨θ, k⟩ ⟨θ', k + 1⟩ := by
  have hlocks := locks h k
  obtain ⟨finished, queueTask, mutex, worker, calls, queued, started, done⟩ := θ
  obtain ⟨-, rfl, rfl⟩ := h
  obtain rfl : queueTask = some i :: rest := hlist
  have hexec : Transition.exec Passing.step
      ⟨⟨false, some i :: rest, some .worker, .emptyCheck, calls, queued, started, done⟩, k⟩
      (workerSteps 11) = some
        ⟨⟨false, rest, none, .outerCheck, calls, queued, started ++ [i], done ++ [i]⟩, k + 1⟩ := rfl
  exact ⟨_, ⟨rfl, rfl, rfl⟩, rfl, rfl,
    hlocks.trans (Transition.run_of_exec hexec (allowed_workerSteps _ _))⟩

/-- A pass that finds an empty callback. -/
theorem pass_none {θ : Thread} (h : AtHead θ) {rest : List Callback}
    (hlist : θ.queueTask = none :: rest) (k : Nat) :
    ∃ θ', AtHead θ' ∧ θ'.worker = .outerCheck ∧ θ'.queueTask = none :: rest ∧
      QuietRun ⟨θ, k⟩ ⟨θ', k + 1⟩ := by
  have hlocks := locks h k
  obtain ⟨finished, queueTask, mutex, worker, calls, queued, started, done⟩ := θ
  obtain ⟨-, rfl, rfl⟩ := h
  obtain rfl : queueTask = none :: rest := hlist
  have hexec : Transition.exec Passing.step
      ⟨⟨false, none :: rest, some .worker, .emptyCheck, calls, queued, started, done⟩, k⟩
      (workerSteps 7) = some
        ⟨⟨false, none :: rest, none, .outerCheck, calls, queued, started, done⟩, k + 1⟩ := rfl
  exact ⟨_, ⟨rfl, rfl, rfl⟩, rfl, rfl,
    hlocks.trans (Transition.run_of_exec hexec (allowed_workerSteps _ _))⟩

/-- The passes come to the empty callback, and the next one pops nothing. -/
theorem stuck_of_none {θ : Thread} (h : AtHead θ) (hnone : none ∈ θ.queueTask) (k : Nat) :
    ∃ p, QuietRun ⟨θ, k⟩ p ∧ p.thread.worker = .outerCheck ∧
      p.thread.queueTask.length + p.passes = θ.queueTask.length + k + 1 := by
  induction hlist : θ.queueTask generalizing θ k with
  | nil =>
      rw [hlist] at hnone
      cases hnone
  | cons cb rest ih =>
      cases cb with
      | none =>
          obtain ⟨θ', -, hpc, hsame, hrun⟩ := pass_none h hlist k
          refine ⟨_, hrun, hpc, ?_⟩
          dsimp only
          rw [hsame]
          omega
      | some i =>
          obtain ⟨θ', h', -, hrest, hrun⟩ := pass_some h hlist k
          rw [hlist] at hnone
          have hlater : none ∈ rest := (List.mem_cons.mp hnone).resolve_left (by simp)
          obtain ⟨p, hp, hpc, hcount⟩ := ih h' (by rwa [hrest]) (k + 1) hrest
          refine ⟨p, hrun.trans hp, hpc, ?_⟩
          rw [hcount, List.length_cons]
          omega

/-! ## Filling the list -/

/-- A call of `append` that nothing interferes with. -/
theorem append_run {θ : Thread} (h : AtHead θ) {i : Nat} (hidle : θ.calls i = .idle)
    (empty : Bool) :
    ∃ θ', Transition.Reach step θ θ' ∧ AtHead θ' ∧
      θ'.queueTask = θ.queueTask ++ [if empty then none else some i] ∧
      (θ'.calls i).quiet = true ∧ ∀ j, j ≠ i → θ'.calls j = θ.calls j := by
  have hawake : θ.worker ≠ .blocked := by
    intro hblocked
    have hworker := h.worker
    rw [hblocked] at hworker
    cases hworker
  have hfinished := h.finished
  have hmutex := h.mutex
  let cb : Callback := if empty then none else some i
  let θ' : Thread := ({ θ with
    queueTask := θ.queueTask ++ [cb]
    queued := θ.queued ++ cb.toList } : Thread).goto i (.returned (θ.queueTask.length + 1))
  have hhead : AtHead θ' := ⟨h.worker, hfinished, hmutex⟩
  have hquiet : (θ'.calls i).quiet = true := by rw [calls_goto]; rfl
  refine ⟨θ', ?_, hhead, rfl, hquiet, fun j hji => calls_goto_of_ne _ _ hji⟩
  let filled : Thread := ({ θ with
    queueTask := θ.queueTask ++ [cb]
    queued := θ.queued ++ cb.toList
    queueTaskMutex := some (.call i) } : Thread).goto i (.appendUnlock (θ.queueTask.length + 1))
  have hfour : Transition.exec step θ [.make i (.append empty), .call i, .call i, .call i] =
      some filled := by
    simp [Transition.exec, step, hidle, callStep, firstPoint, goto, hfinished, hmutex, lockCall, cb,
      filled]
  apply (Transition.reach_of_exec hfour).trans
  -- the append that has filled an empty list notifies, and the worker is awake
  by_cases hnil : θ.queueTask = []
  · have hlast : Transition.exec step filled [.call i, .call i] = some θ' := by
      simp [Transition.exec, step, callStep, goto, unlockCall, notifyOne, hnil, hawake, hmutex,
        filled, θ']
    exact Transition.reach_of_exec hlast
  · have hlast : Transition.exec step filled [.call i] = some θ' := by
      simp [Transition.exec, step, callStep, goto, unlockCall, hnil, hmutex, filled, θ']
    exact Transition.reach_of_exec hlast

/-- Every `append` has returned, nothing has been terminated, and the worker is about to look at the
list. -/
structure Filled (θ : Thread) : Prop where
  reach : Transition.Reach step .new θ
  worker : θ.worker.starts = true
  finished : θ.finished = false
  calm : Calm θ

/-- **Any callbacks can be in the list**, empty ones (`true`) and others. -/
theorem exists_filled (empties : List Bool) :
    ∃ θ, Filled θ ∧
      θ.queueTask = empties.mapIdx fun i empty => if empty then none else some i := by
  -- the call with the number of the next callback has not been made yet
  have hmore : ∃ θ, Transition.Reach step .new θ ∧ AtHead θ ∧ Calm θ ∧
      (∀ j, empties.length ≤ j → θ.calls j = .idle) ∧
      θ.queueTask = empties.mapIdx fun i empty => if empty then none else some i := by
    induction empties using List.reverseRecOn with
    | nil => exact ⟨.new, .refl _, ⟨rfl, rfl, rfl⟩, fun _ => rfl, fun _ _ => rfl, rfl⟩
    | append_singleton empties empty ih =>
        obtain ⟨θ, hreach, hhead, hcalm, hidle, hlist⟩ := ih
        obtain ⟨θ', hrun, hhead', hlist', hquiet, hsame⟩ :=
          append_run hhead (hidle _ (Nat.le_refl _)) empty
        refine ⟨θ', hreach.trans hrun, hhead', fun j => ?_, fun j hj => ?_, ?_⟩
        · by_cases hj : j = empties.length
          · rw [hj]
            exact hquiet
          · rw [hsame j hj]
            exact hcalm j
        · rw [List.length_append, List.length_singleton] at hj
          rw [hsame j (by omega)]
          exact hidle j (by omega)
        · rw [hlist', hlist, List.mapIdx_concat]
  obtain ⟨θ, hreach, hhead, hcalm, -, hlist⟩ := hmore
  exact ⟨θ, ⟨hreach, hhead.worker, hhead.finished, hcalm⟩, hlist⟩

/-- The mutex is free, or a `load` is about to release it. -/
theorem Filled.release {θ : Thread} (h : Filled θ) :
    ∃ ϑ, QuietRun ⟨θ, 0⟩ ⟨ϑ, 0⟩ ∧ AtHead ϑ ∧ ϑ.queueTask = θ.queueTask := by
  have hheld := held_of_reach h.reach
  unfold Held at hheld
  cases hmutex : θ.queueTaskMutex with
  | none => exact ⟨θ, .refl _, ⟨h.worker, h.finished, hmutex⟩, rfl⟩
  | some party =>
      rw [hmutex] at hheld
      cases party with
      | worker =>
          dsimp only at hheld
          rcases RunLoop.eq_of_starts h.worker with hpc | hpc | hpc <;>
          · rw [hpc] at hheld
            cases hheld
      | call i =>
          have hquiet := h.calm i
          dsimp only at hheld
          -- the call has counted the callbacks, or is about to
          cases hcall : θ.calls i with
          | loadSize waits =>
              let ϑ := θ.unlockCall i
                (if waits ∧ θ.queueTask.length > 0 then .loadLock waits
                else .returned θ.queueTask.length)
              have hexec : Transition.exec Passing.step ⟨θ, 0⟩ [.call i, .call i] =
                  some ⟨ϑ, 0⟩ := by
                simp [Transition.exec, Passing.step, Thread.step, callStep, hcall, goto, unlockCall,
                  Act.isWorker, ϑ]
              have hrun : QuietRun ⟨θ, 0⟩ ⟨ϑ, 0⟩ := Transition.run_of_exec hexec
                ⟨trivial, fun _ _ => ⟨trivial, fun _ _ => trivial⟩⟩
              exact ⟨ϑ, hrun, ⟨h.worker, h.finished, rfl⟩, rfl⟩
          | loadUnlock waits size =>
              let ϑ := θ.unlockCall i
                (if waits ∧ size > 0 then .loadLock waits else .returned size)
              have hexec : Transition.exec Passing.step ⟨θ, 0⟩ [.call i] = some ⟨ϑ, 0⟩ := by
                simp [Transition.exec, Passing.step, Thread.step, callStep, hcall, Act.isWorker, ϑ]
              have hrun : QuietRun ⟨θ, 0⟩ ⟨ϑ, 0⟩ :=
                Transition.run_of_exec hexec ⟨trivial, fun _ _ => trivial⟩
              exact ⟨ϑ, hrun, ⟨h.worker, h.finished, rfl⟩, rfl⟩
          | pushBack cb | appendUnlock size =>
              rw [hcall] at hquiet
              cases hquiet
          | _ =>
              rw [hcall] at hheld
              cases hheld

/-! ## The list becomes empty -/

/-- Each pass that comes to its end has popped one callback, and where everybody goes on the list
becomes empty and every `wait_for_idle` returns. -/
structure Drains (θ : Thread) : Prop where
  passes : ∀ p, QuietRun ⟨θ, 0⟩ p → p.thread.worker = .outerCheck →
    p.thread.queueTask.length + p.passes = θ.queueTask.length
  empties : ∀ e : Execution step Quiet, e.state 0 = θ → IsFair e → ∃ m, (e.state m).queueTask = []
  waits : ∀ e : Execution step Quiet, e.state 0 = θ → IsFair e → ∀ i m,
    ((e.state m).calls i).waits = true → ∃ l, m ≤ l ∧ ((e.state l).calls i).hasReturned = true

theorem Filled.emptying {θ : Thread} (h : Filled θ) (hfull : none ∉ θ.queueTask) : Emptying θ := by
  refine ⟨⟨h.finished, ?_⟩, h.calm⟩
  rcases RunLoop.eq_of_starts h.worker with hpc | hpc | hpc <;>
  · rw [hpc]
    exact hfull

theorem Filled.unpassed_eq {θ : Thread} (h : Filled θ) : unpassed θ = θ.queueTask.length := by
  rcases RunLoop.eq_of_starts h.worker with hpc | hpc | hpc <;> simp [unpassed, hpc]

/-- **The list drains exactly if no callback in it is empty.** -/
theorem drains_iff {θ : Thread} (h : Filled θ) : Drains θ ↔ none ∉ θ.queueTask := by
  constructor
  · -- a run to the pass that finds the empty callback
    intro hdrains hnone
    obtain ⟨ϑ, hrelease, hhead, hsame⟩ := h.release
    obtain ⟨p, hrun, hpc, hcount⟩ := stuck_of_none hhead (by rwa [hsame]) 0
    have hpasses := hdrains.passes p (hrelease.trans hrun) hpc
    rw [hsame] at hcount
    omega
  · intro hfull
    have hstart := h.emptying hfull
    refine ⟨fun p hrun hpc => ?_, fun e hzero hfair => ?_, fun e hzero hfair i m hwaits => ?_⟩
    · have hkept : Emptying p.thread ∧ unpassed p.thread + p.passes = unpassed θ := by
        refine hrun.invariant (I := fun p => Emptying p.thread ∧
          unpassed p.thread + p.passes = unpassed θ) (fun {p a p'} hi hquiet hst => ?_)
          ⟨hstart, rfl⟩
        refine ⟨?_, (hi.1.passing hst).trans hi.2⟩
        obtain ⟨θ', hθ', rfl⟩ := Option.map_eq_some_iff.mp hst
        exact hi.1.step hquiet hθ'
      have hcount := hkept.2
      rw [h.unpassed_eq] at hcount
      simpa [unpassed, hpc] using hcount
    · obtain ⟨m, -, hempty⟩ := exists_empty hfair 0 (by rwa [hzero])
      exact ⟨m, hempty⟩
    · have hthen : Emptying (e.state m) :=
        (e.run (Nat.zero_le m)).invariant (I := Emptying) (fun hi hquiet hst => hi.step hquiet hst)
          (by rwa [hzero])
      exact wait_ends hfair m hthen hwaits

/-- Three callbacks. -/
theorem drains_three_callbacks :
    ∃ θ, Filled θ ∧ θ.queueTask = [some 0, some 1, some 2] ∧ Drains θ := by
  obtain ⟨θ, hfilled, hlist⟩ := exists_filled [false, false, false]
  exact ⟨θ, hfilled, hlist, (drains_iff hfilled).mpr (by rw [hlist]; decide)⟩

/-- One empty callback, in front of another one: after a pass there are two as before. -/
theorem empty_callback_stays :
    ∃ θ, Filled θ ∧ θ.queueTask = [none, some 1] ∧ ¬ Drains θ ∧
      ∃ p, QuietRun ⟨θ, 0⟩ p ∧ p.thread.worker = .outerCheck ∧ p.passes = 1 ∧
        p.thread.queueTask = [none, some 1] := by
  obtain ⟨θ, hfilled, hlist⟩ := exists_filled [true, false]
  obtain ⟨ϑ, hrelease, hhead, hsame⟩ := hfilled.release
  obtain ⟨ϑ', -, hpc, hlist', hrun⟩ := pass_none hhead (hsame.trans hlist) 0
  refine ⟨θ, hfilled, hlist, fun hdrains => ?_, _, hrelease.trans hrun, hpc, rfl, hlist'⟩
  have hpasses := hdrains.passes _ (hrelease.trans hrun) hpc
  dsimp only at hpasses
  rw [hlist', hlist] at hpasses
  cases hpasses

end Thread
end EddyServer
