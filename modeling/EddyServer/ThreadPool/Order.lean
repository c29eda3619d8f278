import EddyServer.ThreadPool.Thread

/-!
# Callbacks run once and in order

The worker moves the callback at the front out of the list, runs it without the mutex, and pops the
front later. Between these steps only the back of the list grows, so what is popped is what has run,
and the list is empty only when nothing is running and nothing waits.
-/

namespace EddyServer
namespace Thread

/-! ## The list and the worker -/

namespace RunLoop

/-- The callback that has been taken out and has not returned. -/
def current : RunLoop → List Nat
  | .unlockFront (some i) | .test (some i) | .running i => [i]
  | _ => []

/-- The callback that runs. -/
def active : RunLoop → List Nat
  | .running i => [i]
  | _ => []

/-- The number of callbacks in the list that have been moved from. -/
def moved : RunLoop → Nat
  | .unlockFront (some _) | .test (some _) | .running _ | .lockPop | .popFront => 1
  | _ => 0

theorem current_eq_nil {pc : RunLoop} (h : pc.moved = 0) : pc.current = [] := by
  cases pc with
  | unlockFront cb => cases cb with
    | none => rfl
    | some i => cases h
  | test cb => cases cb with
    | none => rfl
    | some i => cases h
  | running i => cases h
  | _ => rfl

theorem active_prefix (pc : RunLoop) : pc.active <+: pc.current := by
  cases pc with
  | running i => exact List.prefix_refl _
  | _ => exact List.nil_prefix

/-- The two points are alike as far as callbacks are concerned. -/
def Like (pc pc' : RunLoop) : Prop :=
  pc'.current = pc.current ∧ pc'.active = pc.active ∧ pc'.moved = pc.moved

end RunLoop

theorem lockWorker_eq {θ θ' : Thread} {next : RunLoop} (h : θ.lockWorker next = some θ') :
    θ' = { θ with queueTaskMutex := some .worker, worker := next } := by
  unfold lockWorker at h
  split_ifs at h
  exact (Option.some.inj h).symm

/-- What the worker can do to the callbacks. -/
inductive WorkerMove (θ : Thread) : Thread → Prop
  /-- It goes on, and perhaps takes or releases the mutex. -/
  | goes (mutex : Option Party) (pc : RunLoop) : θ.worker.Like pc →
      WorkerMove θ { θ with queueTaskMutex := mutex, worker := pc }
  | takes (cb moved : Callback) (rest : List Callback) : θ.worker = .takeFront →
      θ.queueTask = cb :: rest →
      WorkerMove θ { θ with queueTask := moved :: rest, worker := .unlockFront cb }
  | calls (i : Nat) : θ.worker = .test (some i) →
      WorkerMove θ { θ with worker := .running i, started := θ.started ++ [i] }
  | returns (i : Nat) : θ.worker = .running i →
      WorkerMove θ { θ with worker := .lockPop, done := θ.done ++ [i] }
  | pops : θ.worker = .popFront →
      WorkerMove θ { θ with queueTask := θ.queueTask.tail, worker := .unlockPop }

theorem workerMove_of_step {θ θ' : Thread} {moved : Callback}
    (h : θ.workerStep moved = some θ') : WorkerMove θ θ' := by
  unfold workerStep at h
  cases hpc : θ.worker with
  | blocked | exited =>
      rw [hpc] at h
      cases h
  | outerCheck | emptyCheck | innerCheck | laterCheck =>
      rw [hpc] at h
      cases h
      refine .goes θ.queueTaskMutex _ ?_
      rw [hpc]
      split_ifs <;> exact ⟨rfl, rfl, rfl⟩
  | lockWait | woken | lockFront | lockPop =>
      rw [hpc] at h
      rw [lockWorker_eq h]
      refine .goes _ _ ?_
      rw [hpc]
      exact ⟨rfl, rfl, rfl⟩
  | wait | unlockWait | unlockPop =>
      rw [hpc] at h
      cases h
      refine .goes none _ ?_
      rw [hpc]
      exact ⟨rfl, rfl, rfl⟩
  | takeFront =>
      rw [hpc] at h
      dsimp only at h
      split at h
      · cases h
        refine .goes θ.queueTaskMutex _ ?_
        rw [hpc]
        exact ⟨rfl, rfl, rfl⟩
      · rename_i cb rest hlist
        cases h
        exact .takes cb moved rest hpc hlist
  | unlockFront cb =>
      rw [hpc] at h
      cases h
      refine .goes none _ ?_
      rw [hpc]
      cases cb <;> exact ⟨rfl, rfl, rfl⟩
  | test cb =>
      rw [hpc] at h
      cases cb with
      | none =>
          cases h
          refine .goes θ.queueTaskMutex _ ?_
          rw [hpc]
          exact ⟨rfl, rfl, rfl⟩
      | some i =>
          cases h
          exact .calls i hpc
  | running i =>
      rw [hpc] at h
      cases h
      exact .returns i hpc
  | popFront =>
      rw [hpc] at h
      cases h
      exact .pops hpc

/-- Behind what has been moved from, the list holds the callbacks that wait, in order. -/
def Listed (θ : Thread) : Prop :=
  ∃ junk waiting, θ.queueTask = junk ++ waiting.map some ∧ junk.length = θ.worker.moved ∧
    θ.queued = θ.done ++ θ.worker.current ++ waiting ∧ θ.started = θ.done ++ θ.worker.active

theorem Listed.new : Listed .new := ⟨[], [], rfl, rfl, rfl, rfl⟩

/-- The worker goes on, and perhaps takes or releases the mutex. -/
theorem Listed.worker {θ θ' : Thread} (h : Listed θ) (hmove : WorkerMove θ θ') : Listed θ' := by
  obtain ⟨junk, waiting, hlist, hjunk, hqueued, hstarted⟩ := h
  cases hmove with
  | goes mutex pc hlike =>
      obtain ⟨hcurrent, hactive, hmoved⟩ := hlike
      exact ⟨junk, waiting, hlist, hjunk.trans hmoved.symm, by rw [hqueued, hcurrent],
        by rw [hstarted, hactive]⟩
  | takes cb moved rest hpc hfront =>
      -- nothing has been moved from, so the front is the first callback that waits
      rw [hpc] at hjunk hqueued hstarted
      obtain rfl : junk = [] := List.length_eq_zero_iff.mp hjunk
      rw [hlist] at hfront
      cases waiting with
      | nil => cases hfront
      | cons i waiting =>
          obtain ⟨rfl, rfl⟩ := List.cons.inj hfront
          exact ⟨[moved], waiting, rfl, rfl, by rw [hqueued]; simp [RunLoop.current], hstarted⟩
  | calls i hpc =>
      rw [hpc] at hjunk hqueued hstarted
      exact ⟨junk, waiting, hlist, hjunk, hqueued, by rw [hstarted]; simp [RunLoop.active]⟩
  | returns i hpc =>
      rw [hpc] at hjunk hqueued hstarted
      refine ⟨junk, waiting, hlist, hjunk, ?_, ?_⟩
      · rw [hqueued]
        simp [RunLoop.current]
      · rw [hstarted]
        simp [RunLoop.active]
  | pops hpc =>
      rw [hpc] at hjunk hqueued hstarted
      -- exactly one callback has been moved from, and it is the one that is popped
      obtain ⟨cb, rfl⟩ := List.length_eq_one_iff.mp hjunk
      exact ⟨[], waiting, by rw [hlist]; rfl, rfl, hqueued, hstarted⟩

/-! ## Calls -/

namespace CallPoint

/-- Nothing but `append` with a callback of its own, `load` and `wait_for_idle` is running. -/
def Runs (i : Nat) : CallPoint → Prop
  | .appendCheck cb | .appendLock cb | .pushBack cb => cb = some i
  | .stopCheck _ | .stopStore _ | .stopNotify _ | .joining => False
  | _ => True

/-- The call can have put a callback into the list. -/
def pushed : CallPoint → Bool
  | .idle | .appendCheck _ | .appendLock _ | .pushBack _ => false
  | _ => true

end CallPoint

/-- The thread is not terminated, and no empty callback is appended. -/
def Runs (_ : Thread) : Act → Prop
  | .make _ call => call ≠ .termminiate ∧ call ≠ .join ∧ call ≠ .append true
  | _ => True

instance (θ : Thread) : ∀ a, Decidable (Runs θ a)
  | .make _ _ => inferInstanceAs (Decidable (_ ∧ _ ∧ _))
  | .worker _ | .spurious | .call _ => isTrue trivial

structure Calling (θ : Thread) : Prop where
  finished : θ.finished = false
  point : ∀ i, (θ.calls i).Runs i
  pushed : ∀ i ∈ θ.queued, (θ.calls i).pushed = true
  nodup : θ.queued.Nodup

theorem Calling.new : Calling .new :=
  ⟨rfl, fun _ => trivial, fun _ h => absurd h List.not_mem_nil, List.nodup_nil⟩

/-- A call goes on, and does not forget that it has put a callback into the list. -/
theorem Calling.goto {θ : Thread} (h : Calling θ) {i : Nat} {next : CallPoint}
    (hnext : next.Runs i) (hpushed : (θ.calls i).pushed = true → next.pushed = true) :
    Calling (θ.goto i next) := by
  refine ⟨h.finished, fun j => ?_, fun j hj => ?_, h.nodup⟩
  · by_cases hji : j = i
    · subst hji
      simpa [Thread.goto] using hnext
    · rw [calls_goto_of_ne _ _ hji]
      exact h.point j
  · by_cases hji : j = i
    · subst hji
      simpa [Thread.goto] using hpushed (h.pushed j hj)
    · rw [calls_goto_of_ne _ _ hji]
      exact h.pushed j hj

/-- What a call can do: it goes on and perhaps takes or releases the mutex, puts its callback into
the list, or wakes the worker. -/
inductive CallMove (θ : Thread) (i : Nat) : Thread → Prop
  | goes (mutex : Option Party) (next : CallPoint) : next.Runs i →
      ((θ.calls i).pushed = true → next.pushed = true) →
      CallMove θ i (({ θ with queueTaskMutex := mutex } : Thread).goto i next)
  | pushes (size : Nat) : θ.calls i = .pushBack (some i) →
      CallMove θ i (({ θ with
        queueTask := θ.queueTask ++ [some i]
        queued := θ.queued ++ [i] } : Thread).goto i (.appendUnlock size))
  | wakes (size : Nat) : CallMove θ i (θ.notifyOne.goto i (.returned size))

theorem callMove_of_step {θ θ' : Thread} {i : Nat} (h : Calling θ)
    (hstep : θ.callStep i = some θ') : CallMove θ i θ' := by
  have hpoint := h.point i
  unfold callStep at hstep
  cases hcall : θ.calls i with
  | idle | returned result =>
      rw [hcall] at hstep
      cases hstep
  | stopCheck joins | stopStore joins | stopNotify joins | joining =>
      rw [hcall] at hpoint
      cases hpoint
  | appendCheck cb =>
      rw [hcall] at hstep hpoint
      cases hstep
      rw [h.finished]
      exact .goes θ.queueTaskMutex _ hpoint fun hpushed => by rw [hcall] at hpushed; cases hpushed
  | appendLock cb =>
      rw [hcall] at hstep hpoint
      dsimp only [lockCall] at hstep
      split_ifs at hstep
      cases hstep
      exact .goes _ _ hpoint fun hpushed => by rw [hcall] at hpushed; cases hpushed
  | pushBack cb =>
      rw [hcall] at hstep hpoint
      cases hstep
      obtain rfl : cb = some i := hpoint
      exact .pushes _ hcall
  | appendUnlock size =>
      rw [hcall] at hstep
      cases hstep
      refine .goes none _ ?_ fun _ => ?_
      · split_ifs <;> trivial
      · split_ifs <;> rfl
  | appendNotify size =>
      rw [hcall] at hstep
      cases hstep
      exact .wakes size
  | loadLock waits =>
      rw [hcall] at hstep
      dsimp only [lockCall] at hstep
      split_ifs at hstep
      cases hstep
      exact .goes _ _ trivial fun _ => rfl
  | loadSize waits =>
      rw [hcall] at hstep
      cases hstep
      exact .goes θ.queueTaskMutex _ trivial fun _ => rfl
  | loadUnlock waits size =>
      rw [hcall] at hstep
      cases hstep
      refine .goes none _ ?_ fun _ => ?_
      · split_ifs <;> trivial
      · split_ifs <;> rfl

/-! ## Runs -/

structure Ordered (θ : Thread) : Prop where
  listed : Listed θ
  calling : Calling θ

theorem Ordered.new : Ordered .new := ⟨.new, .new⟩

/-- A notification lets the worker go on. -/
theorem notifyOne_eq (θ : Thread) :
    ∃ pc, θ.notifyOne = { θ with worker := pc } ∧ θ.worker.Like pc := by
  unfold notifyOne
  split_ifs with hblocked
  · refine ⟨.woken, rfl, ?_⟩
    rw [hblocked]
    exact ⟨rfl, rfl, rfl⟩
  · exact ⟨θ.worker, rfl, rfl, rfl, rfl⟩

theorem Ordered.worker {θ θ' : Thread} (h : Ordered θ) (hmove : WorkerMove θ θ') : Ordered θ' := by
  refine ⟨h.listed.worker hmove, ?_⟩
  cases hmove <;> exact ⟨h.calling.finished, h.calling.point, h.calling.pushed, h.calling.nodup⟩

theorem Ordered.call {θ θ' : Thread} {i : Nat} (h : Ordered θ) (hmove : CallMove θ i θ') :
    Ordered θ' := by
  obtain ⟨hlisted, hcalling⟩ := h
  cases hmove with
  | goes mutex next hnext hpushed =>
      have hsame : Calling { θ with queueTaskMutex := mutex } :=
        ⟨hcalling.finished, hcalling.point, hcalling.pushed, hcalling.nodup⟩
      exact ⟨hlisted, hsame.goto hnext hpushed⟩
  | pushes size hcall =>
      obtain ⟨junk, waiting, hlist, hjunk, hqueued, hstarted⟩ := hlisted
      -- the list grows at the back, whatever the worker is doing
      refine ⟨⟨junk, waiting ++ [i], ?_, hjunk, ?_, hstarted⟩, hcalling.finished, fun j => ?_,
        fun j hj => ?_, ?_⟩
      · simp [Thread.goto, hlist]
      · simp [Thread.goto, hqueued]
      · by_cases hji : j = i
        · subst hji
          simp [Thread.goto, CallPoint.Runs]
        · simpa [Thread.goto, Function.update_of_ne hji] using hcalling.point j
      · by_cases hji : j = i
        · subst hji
          simp [Thread.goto, CallPoint.pushed]
        · have hold : j ∈ θ.queued := (List.mem_append.mp hj).resolve_right (by simpa using hji)
          simpa [Thread.goto, Function.update_of_ne hji] using hcalling.pushed j hold
      · -- the call has put its callback into the list for the first time
        have hfresh : i ∉ θ.queued := by
          intro hmem
          have hpushed := hcalling.pushed i hmem
          rw [hcall] at hpushed
          cases hpushed
        exact List.nodup_append.mpr ⟨hcalling.nodup, List.nodup_singleton i, by
          intro j hj k hk heq
          rw [List.mem_singleton.mp hk] at heq
          exact hfresh (heq ▸ hj)⟩
  | wakes size =>
      obtain ⟨pc, heq, hlike⟩ := notifyOne_eq θ
      rw [heq]
      have hmoved := (Ordered.mk hlisted hcalling).worker (.goes θ.queueTaskMutex pc hlike)
      exact ⟨hmoved.listed, hmoved.calling.goto trivial fun _ => rfl⟩

theorem Ordered.step {θ θ' : Thread} {a : Act} (h : Ordered θ) (hok : Runs θ a)
    (hstep : step θ a = some θ') : Ordered θ' := by
  cases a with
  | worker moved => exact h.worker (workerMove_of_step hstep)
  | spurious =>
      obtain ⟨hblocked, rfl⟩ := step_spurious hstep
      refine h.worker (.goes θ.queueTaskMutex .woken ?_)
      rw [hblocked]
      exact ⟨rfl, rfl, rfl⟩
  | make i call =>
      obtain ⟨hidle, rfl⟩ := step_make hstep
      refine ⟨h.listed, h.calling.goto ?_ fun hpushed => by rw [hidle] at hpushed; cases hpushed⟩
      obtain ⟨hterminate, hjoin, hempty⟩ := hok
      cases call with
      | append empty =>
          cases empty with
          | false => rfl
          | true => exact absurd rfl hempty
      | termminiate => exact absurd rfl hterminate
      | join => exact absurd rfl hjoin
      | load | waitForIdle => trivial
  | call i => exact h.call (callMove_of_step h.calling hstep)

/-- The callbacks that have been called are the first that were put into the list. -/
theorem Ordered.started_prefix {θ : Thread} (h : Ordered θ) : θ.started <+: θ.queued := by
  obtain ⟨junk, waiting, -, -, hqueued, hstarted⟩ := h.listed
  rw [hqueued, hstarted, List.append_assoc]
  apply (List.prefix_append_right_inj _).mpr
  exact (RunLoop.active_prefix _).trans (List.prefix_append _ _)

/-- The list is empty only when every callback has returned. -/
theorem Ordered.done_eq {θ : Thread} (h : Ordered θ) (hempty : θ.queueTask = []) :
    θ.done = θ.queued := by
  obtain ⟨junk, waiting, hlist, hjunk, hqueued, -⟩ := h.listed
  rw [hempty] at hlist
  obtain ⟨hnil, hwaiting⟩ := List.append_eq_nil_iff.mp hlist.symm
  subst hnil
  rw [hqueued, RunLoop.current_eq_nil hjunk.symm, List.map_eq_nil_iff.mp hwaiting]
  simp

end Thread
end EddyServer
