import EddyServer.ThreadPool.Order

/-!
# The wake-up of `termminiate`

`termminiate` sets the flag and notifies without the mutex. The worker that has read the flag as
unset may not have blocked yet; a notification that comes then wakes nobody. Unless another one
follows, the worker blocks and does not see the flag.
-/

namespace EddyServer
namespace Thread

/-! ## What a call can do -/

namespace CallPoint

/-- A call at this point still notifies. `append` does so if it finds the list empty. The flag has
been set, so a call that has not read it yet does not count. -/
@[simp] def notifies (empty : Bool) : CallPoint → Bool
  | .appendLock _ | .pushBack _ => empty
  | .appendUnlock size => size == 1
  | .appendNotify _ | .stopStore _ | .stopNotify _ => true
  | _ => false

/-- `notify_one` comes next. -/
@[simp] def isNotify : CallPoint → Bool
  | .appendNotify _ | .stopNotify _ => true
  | _ => false

/-- The flag has been set by the call or was set before. -/
@[simp] def isFlagged : CallPoint → Bool
  | .stopNotify _ | .joining => true
  | _ => false

/-- What a call that has set the flag can come to. -/
@[simp] def hasStored : CallPoint → Bool
  | .stopNotify _ | .joining | .returned _ => true
  | _ => false

/-- A call that would notify behind a callback in the list notifies in any case. -/
theorem notifies_of_false {pc : CallPoint} (h : pc.notifies false = true) (empty : Bool) :
    pc.notifies empty = true := by
  cases pc with
  | appendLock cb | pushBack cb => cases h
  | _ => exact h

/-- A call goes on without touching the flag, the list or the condition variable. -/
structure Goes (finished : Bool) (pc next : CallPoint) : Prop where
  notifies : finished = true → ∀ empty, next.notifies empty = pc.notifies empty
  isFlagged : next.isFlagged = true → finished = true
  hasStored : pc.hasStored = true → next.hasStored = true

/-- A call notifies and goes on. -/
structure Wakes (pc next : CallPoint) : Prop where
  isNotify : pc.isNotify = true
  isFlagged : next.isFlagged = true → pc.isFlagged = true
  hasStored : next.hasStored = true
  notifies : ∀ empty, next.notifies empty = false

end CallPoint

/-- A notification of call `i` is still to come. -/
def Notifies (θ : Thread) (i : Nat) : Prop := (θ.calls i).notifies θ.queueTask.isEmpty = true

inductive CallEffect (θ : Thread) (i : Nat) : Thread → Prop
  | goes (mutex : Option Party) (next : CallPoint) : (θ.calls i).Goes θ.finished next →
      CallEffect θ i (({ θ with queueTaskMutex := mutex } : Thread).goto i next)
  | pushes (cb : Callback) (queued : List Nat) : θ.calls i = .pushBack cb →
      CallEffect θ i (({ θ with
        queueTask := θ.queueTask ++ [cb]
        queued := queued } : Thread).goto i (.appendUnlock (θ.queueTask.length + 1)))
  | stores (joins : Bool) : θ.calls i = .stopStore joins →
      CallEffect θ i (({ θ with finished := true } : Thread).goto i (.stopNotify joins))
  | wakes (next : CallPoint) : (θ.calls i).Wakes next → CallEffect θ i (θ.notifyOne.goto i next)

theorem callEffect_of_step {θ θ' : Thread} {i : Nat} (h : θ.callStep i = some θ') :
    CallEffect θ i θ' := by
  unfold callStep at h
  cases hcall : θ.calls i with
  | idle | returned result =>
      rw [hcall] at h
      cases h
  | appendCheck cb =>
      rw [hcall] at h
      cases h
      refine .goes θ.queueTaskMutex _ ?_
      rw [hcall]
      cases hfinished : θ.finished <;> exact ⟨by simp, by simp, by simp⟩
  | appendLock cb | loadLock waits =>
      rw [hcall] at h
      dsimp only [lockCall] at h
      split_ifs at h
      cases h
      refine .goes _ _ ?_
      rw [hcall]
      exact ⟨by simp, by simp, by simp⟩
  | pushBack cb =>
      rw [hcall] at h
      cases h
      exact .pushes cb _ hcall
  | appendUnlock size =>
      rw [hcall] at h
      cases h
      refine .goes none _ ?_
      rw [hcall]
      by_cases hone : size = 1
      · rw [if_pos hone]
        exact ⟨by simp [hone], by simp, by simp⟩
      · rw [if_neg hone]
        exact ⟨by simp [hone], by simp, by simp⟩
  | appendNotify size =>
      rw [hcall] at h
      cases h
      refine .wakes _ ?_
      rw [hcall]
      exact ⟨rfl, by simp, rfl, by simp⟩
  | stopCheck joins =>
      rw [hcall] at h
      cases h
      refine .goes θ.queueTaskMutex _ ?_
      rw [hcall]
      cases hfinished : θ.finished <;> cases joins <;> exact ⟨by simp, by simp, by simp⟩
  | stopStore joins =>
      rw [hcall] at h
      cases h
      exact .stores joins hcall
  | stopNotify joins =>
      rw [hcall] at h
      cases h
      refine .wakes _ ?_
      rw [hcall]
      cases joins <;> exact ⟨rfl, by simp, rfl, by simp⟩
  | joining =>
      rw [hcall] at h
      dsimp only at h
      split_ifs at h
      cases h
      refine .goes θ.queueTaskMutex _ ?_
      rw [hcall]
      exact ⟨by simp, by simp, by simp⟩
  | loadSize waits =>
      rw [hcall] at h
      cases h
      refine .goes θ.queueTaskMutex _ ?_
      rw [hcall]
      exact ⟨by simp, by simp, by simp⟩
  | loadUnlock waits size =>
      rw [hcall] at h
      cases h
      refine .goes none _ ?_
      rw [hcall]
      split_ifs <;> exact ⟨by simp, by simp, by simp⟩

theorem notifies_goto (θ : Thread) (i : Nat) (next : CallPoint) :
    Notifies (θ.goto i next) i ↔ next.notifies θ.queueTask.isEmpty = true := by
  simp [Notifies, Thread.goto]

theorem notifies_goto_of_ne (θ : Thread) {i j : Nat} (next : CallPoint) (h : j ≠ i) :
    Notifies (θ.goto i next) j ↔ Notifies θ j := by
  rw [Notifies, calls_goto_of_ne _ _ h]
  rfl

/-! ## A notification is to come -/

/-- The flag is set, the worker is blocked, and nobody will wake it. -/
structure Stuck (θ : Thread) : Prop where
  finished : θ.finished = true
  worker : θ.worker = .blocked
  silent : ∀ i, ¬ Notifies θ i

/-- The step is the last notification, and comes when the worker has read the flag as unset but has
not blocked. -/
def Lost (θ : Thread) : Act → Prop
  | .call i => θ.finished = true ∧ θ.worker = .wait ∧ (θ.calls i).isNotify = true ∧
      ∀ j, j ≠ i → ¬ Notifies θ j
  | _ => False

/-- If the worker waits or is about to, and the flag is set, then a notification is to come. -/
def Awaited (θ : Thread) : Prop :=
  θ.finished = true → θ.worker = .wait ∨ θ.worker = .blocked → ∃ i, Notifies θ i

theorem Awaited.not_stuck {θ : Thread} (h : Awaited θ) : ¬ Stuck θ := by
  intro hstuck
  obtain ⟨i, hi⟩ := h hstuck.finished (.inr hstuck.worker)
  exact hstuck.silent i hi

/-- The worker comes to the wait only if it reads the flag as unset. -/
theorem sleeps_of_step {θ θ' : Thread} {moved : Callback} (h : θ.workerStep moved = some θ')
    (hsleeps : θ'.worker = .wait ∨ θ'.worker = .blocked) :
    θ' = { θ with worker := .wait } ∧ θ.finished = false ∨
      θ' = { θ with queueTaskMutex := none, worker := .blocked } ∧ θ.worker = .wait := by
  unfold workerStep at h
  cases hpc : θ.worker with
  | innerCheck =>
      rw [hpc] at h
      -- With the flag unset it goes on to the wait, else it leaves the loop.
      cases hfinished : θ.finished with
      | false =>
          rw [hfinished] at h
          exact .inl ⟨(Option.some.inj h).symm, rfl⟩
      | true =>
          rw [hfinished] at h
          cases h
          simp at hsleeps
  | wait =>
      rw [hpc] at h
      -- It releases the mutex and blocks, whatever the flag has become meanwhile.
      exact .inr ⟨(Option.some.inj h).symm, rfl⟩
  | blocked | exited =>
      rw [hpc] at h
      cases h
  | lockWait | woken | lockFront | lockPop =>
      rw [hpc] at h
      rw [lockWorker_eq h] at hsleeps
      simp at hsleeps
  | outerCheck | emptyCheck | laterCheck =>
      rw [hpc] at h
      cases h
      dsimp only at hsleeps
      split_ifs at hsleeps <;> simp at hsleeps
  | takeFront =>
      rw [hpc] at h
      dsimp only at h
      split at h <;> cases h <;> simp at hsleeps
  | test cb =>
      rw [hpc] at h
      cases cb <;> cases h <;> simp at hsleeps
  | _ =>
      rw [hpc] at h
      cases h
      simp at hsleeps

theorem Awaited.worker {θ θ' : Thread} {moved : Callback} (h : Awaited θ)
    (hstep : θ.workerStep moved = some θ') : Awaited θ' := by
  intro hfinished hsleeps
  -- the flag is set, so the worker cannot have read it as unset
  rcases sleeps_of_step hstep hsleeps with ⟨rfl, hunset⟩ | ⟨rfl, hwait⟩
  · rw [show θ.finished = true from hfinished] at hunset
    cases hunset
  · exact h hfinished (.inl hwait)

theorem Awaited.call {θ θ' : Thread} {i : Nat} (h : Awaited θ) (heffect : CallEffect θ i θ')
    (hlost : ¬ Lost θ (.call i)) : Awaited θ' := by
  intro hfinished hsleeps
  cases heffect with
  | goes mutex next hgoes =>
      obtain ⟨j, hj⟩ := h hfinished hsleeps
      refine ⟨j, ?_⟩
      by_cases hji : j = i
      · subst hji
        rw [notifies_goto, hgoes.notifies hfinished]
        exact hj
      · exact (notifies_goto_of_ne _ _ hji).mpr hj
  | pushes cb queued hcall =>
      obtain ⟨j, hj⟩ := h hfinished hsleeps
      by_cases hempty : θ.queueTask = []
      · -- the list was empty, so the call that has filled it notifies
        exact ⟨i, (notifies_goto ..).mpr (by simp [hempty])⟩
      · have hlist : θ.queueTask.isEmpty = false := by simpa using hempty
        have hji : j ≠ i := by
          rintro rfl
          simp [Notifies, hcall, hlist] at hj
        refine ⟨j, (notifies_goto_of_ne _ _ hji).mpr ?_⟩
        rw [Notifies, hlist] at hj
        exact CallPoint.notifies_of_false hj _
  | stores joins hcall => exact ⟨i, (notifies_goto ..).mpr rfl⟩
  | wakes next hwakes =>
      by_cases hblocked : θ.worker = .blocked
      · rw [notifyOne, if_pos hblocked] at hsleeps
        simp [Thread.goto] at hsleeps
      · rw [notifyOne_of_ne hblocked] at hfinished hsleeps ⊢
        have hwait : θ.worker = .wait := hsleeps.resolve_right hblocked
        -- the notification wakes nobody, so there is another one
        have hother : ∃ j, j ≠ i ∧ Notifies θ j := by
          by_contra hnone
          push Not at hnone
          exact hlost ⟨hfinished, hwait, hwakes.isNotify, hnone⟩
        obtain ⟨j, hji, hj⟩ := hother
        exact ⟨j, (notifies_goto_of_ne _ _ hji).mpr hj⟩

theorem Awaited.step {θ θ' : Thread} {a : Act} (h : Awaited θ) (hlost : ¬ Lost θ a)
    (hstep : step θ a = some θ') : Awaited θ' := by
  cases a with
  | worker moved => exact h.worker hstep
  | spurious =>
      obtain ⟨-, rfl⟩ := step_spurious hstep
      intro _ hsleeps
      simp at hsleeps
  | make i call =>
      obtain ⟨hidle, rfl⟩ := step_make hstep
      intro hfinished hsleeps
      obtain ⟨j, hj⟩ := h hfinished hsleeps
      have hji : j ≠ i := by
        rintro rfl
        simp [Notifies, hidle] at hj
      exact ⟨j, (notifies_goto_of_ne _ _ hji).mpr hj⟩
  | call i => exact h.call (callEffect_of_step hstep) hlost

/-! ## A lost notification -/

/-- A call that joins, or is about to notify in `termminiate`, has seen or set the flag. -/
def Flagged (θ : Thread) : Prop := ∀ i, (θ.calls i).isFlagged = true → θ.finished = true

theorem Flagged.goto {θ : Thread} (h : Flagged θ) {i : Nat} {next : CallPoint}
    (hnext : next.isFlagged = true → θ.finished = true) : Flagged (θ.goto i next) := by
  intro j hj
  by_cases hji : j = i
  · subst hji
    exact hnext (by simpa [Thread.goto] using hj)
  · rw [calls_goto_of_ne _ _ hji] at hj
    exact h j hj

theorem Flagged.call {θ θ' : Thread} {i : Nat} (h : Flagged θ) (heffect : CallEffect θ i θ') :
    Flagged θ' := by
  cases heffect with
  | goes mutex next hgoes =>
      have hsame : Flagged { θ with queueTaskMutex := mutex } := h
      exact hsame.goto hgoes.isFlagged
  | pushes cb queued hcall =>
      have hsame : Flagged { θ with queueTask := θ.queueTask ++ [cb], queued := queued } := h
      exact hsame.goto (by simp)
  | stores joins hcall => exact fun _ _ => rfl
  | wakes next hwakes =>
      obtain ⟨pc, heq, -⟩ := notifyOne_eq θ
      rw [heq]
      have hsame : Flagged { θ with worker := pc } := h
      exact hsame.goto fun hnext => h i (hwakes.isFlagged hnext)

/-- The worker keeps the flag and the calls. -/
theorem WorkerMove.same {θ θ' : Thread} (h : WorkerMove θ θ') :
    θ'.finished = θ.finished ∧ θ'.calls = θ.calls := by
  cases h <;> exact ⟨rfl, rfl⟩

theorem Flagged.step {θ θ' : Thread} {a : Act} (h : Flagged θ) (hstep : step θ a = some θ') :
    Flagged θ' := by
  cases a with
  | worker moved =>
      obtain ⟨hfinished, hcalls⟩ := (workerMove_of_step hstep).same
      intro i hi
      rw [hfinished]
      exact h i (by rwa [hcalls] at hi)
  | spurious =>
      obtain ⟨-, rfl⟩ := step_spurious hstep
      exact h
  | make i call =>
      obtain ⟨-, rfl⟩ := step_make hstep
      exact h.goto (by cases call <;> simp [firstPoint])
  | call i => exact h.call (callEffect_of_step hstep)

/-- A call that has set the flag is past it or has returned. -/
theorem hasStored_step {θ θ' : Thread} {a : Act} {i : Nat} (hstep : step θ a = some θ')
    (h : (θ.calls i).hasStored = true) : (θ'.calls i).hasStored = true := by
  cases a with
  | worker moved =>
      rw [(workerMove_of_step hstep).same.2]
      exact h
  | spurious =>
      obtain ⟨-, rfl⟩ := step_spurious hstep
      exact h
  | make j call =>
      obtain ⟨hidle, rfl⟩ := step_make hstep
      have hij : i ≠ j := by
        rintro rfl
        rw [hidle] at h
        cases h
      rw [calls_goto_of_ne _ _ hij]
      exact h
  | call j =>
      by_cases hij : i = j
      · subst hij
        cases callEffect_of_step hstep with
        | goes mutex next hgoes => simpa [Thread.goto] using hgoes.hasStored h
        | pushes cb queued hcall =>
            rw [hcall] at h
            cases h
        | stores joins hcall => simp [Thread.goto]
        | wakes next hwakes => simpa [Thread.goto] using hwakes.hasStored
      · have hsame : θ'.calls i = θ.calls i := by
          cases callEffect_of_step hstep with
          | wakes next hwakes =>
              obtain ⟨pc, heq, -⟩ := notifyOne_eq θ
              rw [heq]
              exact calls_goto_of_ne _ _ hij
          | _ => exact calls_goto_of_ne _ _ hij
        rw [hsame]
        exact h

/-- A call of `termminiate`, perhaps in `join`, has set the flag. -/
def Stored (θ : Thread) : Prop :=
  ∃ i ϑ joins, Transition.Reach step .new ϑ ∧ ϑ.calls i = .stopStore joins ∧
    Transition.Reach step ϑ θ ∧ (θ.calls i).hasStored = true

/-- The flag is set by `termminiate` only. -/
theorem stored_run {θ : Thread} (hrun : Transition.Reach step .new θ)
    (hfinished : θ.finished = true) : Stored θ := by
  induction hrun with
  | refl => cases hfinished
  | @tail θ θ' a hrun hok hst ih =>
      by_cases hold : θ.finished = true
      · obtain ⟨i, ϑ, joins, hbefore, hcall, hafter, hstored⟩ := ih hold
        exact ⟨i, ϑ, joins, hbefore, hcall, .tail hafter trivial hst, hasStored_step hst hstored⟩
      · -- the flag was unset before the step, and only `finished_ = true` changes that
        have hset : ∃ i joins, a = .call i ∧ θ.calls i = .stopStore joins := by
          cases a with
          | worker moved =>
              rw [(workerMove_of_step hst).same.1] at hfinished
              exact absurd hfinished hold
          | spurious =>
              obtain ⟨-, rfl⟩ := step_spurious hst
              exact absurd hfinished hold
          | make i call =>
              obtain ⟨-, rfl⟩ := step_make hst
              exact absurd hfinished hold
          | call i =>
              cases callEffect_of_step hst with
              | stores joins hcall => exact ⟨i, joins, rfl, hcall⟩
              | wakes next hwakes =>
                  obtain ⟨pc, heq, -⟩ := notifyOne_eq θ
                  rw [heq] at hfinished
                  exact absurd hfinished hold
              | _ => exact absurd hfinished hold
        obtain ⟨i, joins, rfl, hcall⟩ := hset
        refine ⟨i, θ, joins, hrun, hcall, .tail (.refl _) trivial hst, ?_⟩
        rw [step, callStep, hcall] at hst
        cases hst
        simp [Thread.goto]

/-- Nothing but a spurious wake-up helps. -/
theorem Stuck.step {θ θ' : Thread} {a : Act} (h : Stuck θ) (ha : a ≠ .spurious)
    (hstep : step θ a = some θ') : Stuck θ' := by
  obtain ⟨hfinished, hblocked, hsilent⟩ := h
  have hgoto : ∀ (ϑ : Thread) (i : Nat) (next : CallPoint), (∀ j, ¬ Notifies ϑ j) →
      next.notifies ϑ.queueTask.isEmpty = false → ∀ j, ¬ Notifies (ϑ.goto i next) j := by
    intro ϑ i next hold hnext j
    by_cases hji : j = i
    · subst hji
      rw [notifies_goto, hnext]
      exact Bool.false_ne_true
    · rw [notifies_goto_of_ne _ _ hji]
      exact hold j
  cases a with
  | worker moved =>
      rw [Thread.step, workerStep, hblocked] at hstep
      cases hstep
  | spurious => exact absurd rfl ha
  | make i call =>
      obtain ⟨-, rfl⟩ := step_make hstep
      exact ⟨hfinished, hblocked, hgoto θ i _ hsilent (by cases call <;> rfl)⟩
  | call i =>
      have hi : (θ.calls i).notifies θ.queueTask.isEmpty = false := by
        simpa [Notifies] using hsilent i
      cases callEffect_of_step hstep with
      | goes mutex next hgoes =>
          refine ⟨hfinished, hblocked, hgoto _ i next hsilent ?_⟩
          rw [hgoes.notifies hfinished]
          exact hi
      | pushes cb queued hcall =>
          rw [hcall] at hi
          -- a call that is about to append finds the list filled, and will not notify
          have hlist : θ.queueTask ≠ [] := by
            intro hempty
            simp [hempty] at hi
          refine ⟨hfinished, hblocked, hgoto _ i _ ?_ (by simpa using hlist)⟩
          intro j hj
          apply hsilent j
          have hlater : (θ.queueTask ++ [cb]).isEmpty = false := by simp
          unfold Notifies at hj
          rw [hlater] at hj
          exact CallPoint.notifies_of_false hj _
      | stores joins hcall =>
          rw [hcall] at hi
          cases hi
      | wakes next hwakes =>
          have hnotify := hwakes.isNotify
          cases hcall : θ.calls i <;> rw [hcall] at hi hnotify <;> simp at hi hnotify

/-! ## Runs -/

/-- A call of `termminiate`, perhaps in `join`, has set the flag and returned. -/
def Terminated (θ : Thread) : Prop :=
  ∃ i ϑ joins, Transition.Reach step .new ϑ ∧ ϑ.calls i = .stopStore joins ∧
    Transition.Reach step ϑ θ ∧ (θ.calls i = .joining ∨ (θ.calls i).hasReturned = true)

theorem Stuck.terminated {θ : Thread} (h : Stuck θ) (hrun : Transition.Reach Thread.step .new θ) :
    Terminated θ := by
  obtain ⟨i, ϑ, joins, hbefore, hcall, hafter, hstored⟩ := stored_run hrun h.finished
  refine ⟨i, ϑ, joins, hbefore, hcall, hafter, ?_⟩
  have hsilent := h.silent i
  unfold Notifies at hsilent
  cases hpoint : θ.calls i with
  | joining => exact .inl rfl
  | returned result => exact .inr rfl
  | stopNotify joins =>
      rw [hpoint] at hsilent
      exact absurd rfl hsilent
  | _ =>
      rw [hpoint] at hstored
      cases hstored

/-- A call that is about to notify does so and goes on. -/
theorem wakes_of_isNotify {θ θ' : Thread} {i : Nat} (h : (θ.calls i).isNotify = true)
    (hstep : θ.callStep i = some θ') :
    ∃ next, θ' = θ.notifyOne.goto i next ∧ ∀ empty, next.notifies empty = false := by
  unfold callStep at hstep
  cases hcall : θ.calls i with
  | appendNotify size =>
      rw [hcall] at hstep
      exact ⟨_, (Option.some.inj hstep).symm, fun _ => rfl⟩
  | stopNotify joins =>
      rw [hcall] at hstep
      refine ⟨_, (Option.some.inj hstep).symm, fun _ => ?_⟩
      cases joins <;> rfl
  | _ =>
      rw [hcall] at h
      cases h

/-- When the last notification has been lost, the worker blocks. -/
theorem Lost.stuck {θ θ' : Thread} {a : Act} (h : Lost θ a) (hstep : Thread.step θ a = some θ') :
    ∃ θ'', Thread.step θ' (.worker none) = some θ'' ∧ Stuck θ'' := by
  cases a with
  | call i =>
      obtain ⟨hfinished, hwait, hnotify, hothers⟩ := h
      obtain ⟨next, rfl, hnext⟩ := wakes_of_isNotify hnotify hstep
      rw [notifyOne_of_ne (by rw [hwait]; simp)]
      -- the call that has notified has nothing more to do
      have hsilent : ∀ j, ¬ Notifies (θ.goto i next) j := by
        intro j hj
        by_cases hji : j = i
        · subst hji
          rw [notifies_goto, hnext] at hj
          cases hj
        · exact hothers j hji ((notifies_goto_of_ne θ next hji).mp hj)
      refine ⟨{ θ.goto i next with queueTaskMutex := none, worker := .blocked }, ?_, hfinished, rfl,
        hsilent⟩
      rw [Thread.step, workerStep, goto, hwait]
  | _ => cases h

/-- While no last notification is lost, the worker does not stay blocked when the flag is set, and
`join` does not wait for a blocked worker. When one is lost the worker blocks, `termminiate` has
returned, and only a spurious wake-up can end the wait. -/
theorem no_sleeping_worker (θ : Thread) :
    (Transition.Run step (fun θ a => ¬ Lost θ a) .new θ →
      ¬ Stuck θ ∧
        ∀ i, θ.calls i = .joining → θ.worker = .blocked → ∃ j, Notifies θ j) ∧
      (Transition.Reach step .new θ → ∀ a θ', Lost θ a → step θ a = some θ' →
        ∃ θ'', step θ' (.worker none) = some θ'' ∧ Terminated θ'' ∧
          ∀ ϑ, Transition.Run step (fun _ a => a ≠ .spurious) θ'' ϑ → Stuck ϑ) := by
  refine ⟨fun hrun => ?_, fun hrun a θ' hlost hstep => ?_⟩
  · have hawaited : Awaited θ :=
      hrun.invariant (I := Awaited) (fun hI hok hst => hI.step hok hst) fun h => by cases h
    have hflagged : Flagged θ :=
      hrun.invariant (I := Flagged) (fun hI _ hst => hI.step hst) fun _ h => by cases h
    refine ⟨hawaited.not_stuck, fun i hjoining hblocked => ?_⟩
    exact hawaited (hflagged i (by rw [hjoining]; rfl)) (.inr hblocked)
  · obtain ⟨θ'', hblocks, hstuck⟩ := hlost.stuck hstep
    have hreach : Transition.Reach step .new θ'' := .tail (.tail hrun trivial hstep) trivial hblocks
    refine ⟨θ'', hblocks, hstuck.terminated hreach, fun ϑ hlater => ?_⟩
    exact hlater.invariant (I := Stuck) (fun hI hok hst => hI.step hok hst) hstuck

/-- The worker has read the flag as unset, and `termminiate` is about to set it. -/
def unaware : Thread :=
  (({ Thread.new with worker := .wait, queueTaskMutex := some .worker } : Thread).goto 0
    (.stopCheck false)).goto 0 (.stopStore false)

/-- `termminiate` has returned, the worker has blocked, and `join` waits. -/
def asleep : Thread :=
  (((({ unaware with finished := true, queueTaskMutex := none, worker := .blocked } : Thread).goto 0
    (.stopNotify false)).goto 0 (.returned 0)).goto 1 (.stopCheck true)).goto 1 .joining

theorem shutdown_wakeup_lost :
    ∃ ϑ θ, Transition.Reach step .new ϑ ∧ ϑ.calls 0 = .stopStore false ∧
      Transition.Reach step ϑ θ ∧ θ.calls 0 = .returned 0 ∧ θ.calls 1 = .joining ∧ Stuck θ := by
  have hearly : Transition.exec step .new
      (List.replicate 4 (.worker none) ++ [.make 0 .termminiate, .call 0]) = some unaware := rfl
  have hlate : Transition.exec step unaware
      [.call 0, .call 0, .worker none, .make 1 .join, .call 1] = some asleep := rfl
  refine ⟨unaware, asleep, Transition.reach_of_exec hearly, rfl, Transition.reach_of_exec hlate,
    rfl, rfl, rfl, rfl, fun i hi => ?_⟩
  match i with
  | 0 | 1 => cases hi
  | i + 2 => cases hi

/-- `termminiate` is called when the worker has blocked. -/
def inTime : List Act :=
  List.replicate 5 (.worker none) ++ [.make 0 .termminiate, .call 0, .call 0, .call 0]

theorem no_sleeping_worker_woken :
    ∃ θ, Transition.Run step (fun θ a => ¬ Lost θ a) .new θ ∧ θ.calls 0 = .returned 0 ∧
      ¬ Stuck θ := by
  obtain ⟨θ, hθ, hreturned⟩ := Option.map_eq_some_iff.mp (show
    (Transition.exec step .new inTime).map (fun θ => θ.calls 0) = some (.returned 0) by
      decide +kernel)
  have hallowed : Transition.Allowed step (fun θ a => θ.worker ≠ .wait ∨ a = .worker none) .new
      inTime := by decide +kernel
  have hrun : Transition.Run step (fun θ a => ¬ Lost θ a) .new θ := by
    refine (Transition.run_of_exec hθ hallowed).mono fun ϑ a hok hlost => ?_
    cases a with
    | call i =>
        rcases hok with hne | heq
        · exact hne hlost.2.1
        · cases heq
    | _ => exact hlost
  exact ⟨θ, hrun, hreturned, ((no_sleeping_worker θ).1 hrun).1⟩

end Thread
end EddyServer
