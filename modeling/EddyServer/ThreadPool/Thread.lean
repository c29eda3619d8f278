import EddyServer.Library.Transition

/-!
# `Thread`

The worker of a `ThreadPool`: a list of callbacks behind a mutex, a condition variable and a stop
flag. Every lock, unlock, access to the flag, notification and wait is a step of its own, so the
worker and any number of calls of the members interleave at every point.

A callback that has been appended is known by the number of the call that appended it; calls are
numbered in any order. `queued`, `started` and `done` are not part of the source: they record the
callbacks that have been put into the list, that the worker has called, and that have returned or
thrown. No function reads them.
-/

namespace EddyServer
namespace Thread

/-- A `std::function`: empty, or the callback of a call of `append`. -/
abbrev Callback := Option Nat

/-- Where the worker is in `run_loop`. -/
inductive RunLoop
  /-- `while (!finished_)`. -/
  | outerCheck
  /-- `std::unique_lock`. -/
  | lockWait
  /-- `while (queue_task_.empty())`. -/
  | emptyCheck
  /-- `if (finished_)` inside. -/
  | innerCheck
  /-- `wait`, which releases the mutex and blocks. -/
  | wait
  /-- Blocked in `wait`. -/
  | blocked
  /-- `wait` takes the mutex again. -/
  | woken
  | unlockWait
  /-- `if (finished_)` after the lock. -/
  | laterCheck
  | lockFront
  /-- `cb = std::move(queue_task_.front())`. -/
  | takeFront
  | unlockFront (cb : Callback)
  /-- `if (cb != nullptr)`. -/
  | test (cb : Callback)
  /-- Inside `cb()`. -/
  | running (i : Nat)
  | lockPop
  | popFront
  | unlockPop
  /-- `run_loop` has returned. -/
  | exited
  deriving DecidableEq, Repr

/-- A call of a member function. -/
inductive Call
  | append (empty : Bool)
  | termminiate
  | join
  | load
  | waitForIdle
  deriving DecidableEq, Repr

/-- Where a call is. -/
inductive CallPoint
  /-- The call has not been made. -/
  | idle
  /-- `if (!finished_)` of `append`. -/
  | appendCheck (cb : Callback)
  | appendLock (cb : Callback)
  | pushBack (cb : Callback)
  | appendUnlock (size : Nat)
  /-- `notify_one` of `append`. -/
  | appendNotify (size : Nat)
  /-- `if (!finished_)` of `termminiate`, which `join` may have called. -/
  | stopCheck (joins : Bool)
  /-- `finished_ = true`. -/
  | stopStore (joins : Bool)
  /-- `notify_one` of `termminiate`. -/
  | stopNotify (joins : Bool)
  /-- `thread_->join()`. -/
  | joining
  /-- `load`, which `wait_for_idle` may have called. -/
  | loadLock (waits : Bool)
  | loadSize (waits : Bool)
  | loadUnlock (waits : Bool) (size : Nat)
  /-- The call has returned. -/
  | returned (result : Nat)
  deriving DecidableEq, Repr

def CallPoint.hasReturned : CallPoint → Bool
  | .returned _ => true
  | _ => false

/-- Who can hold the mutex. -/
inductive Party
  | worker
  | call (i : Nat)
  deriving DecidableEq, Repr

end Thread

structure Thread where
  finished : Bool
  queueTask : List Thread.Callback
  queueTaskMutex : Option Thread.Party
  worker : Thread.RunLoop
  calls : Nat → Thread.CallPoint
  queued : List Nat
  started : List Nat
  done : List Nat

namespace Thread

/-- The constructor. -/
def new : Thread :=
  { finished := false
    queueTask := []
    queueTaskMutex := none
    worker := .outerCheck
    calls := fun _ => .idle
    queued := []
    started := []
    done := [] }

/-- `notify_one` on `condition_incoming_task_`, for which only the worker waits. -/
def notifyOne (θ : Thread) : Thread :=
  if θ.worker = .blocked then { θ with worker := .woken } else θ

/-- The worker takes the mutex and goes on at `next`. -/
def lockWorker (θ : Thread) (next : RunLoop) : Option Thread :=
  if θ.queueTaskMutex = none then
    some { θ with queueTaskMutex := some .worker, worker := next }
  else none

/-- The worker takes its next step. `moved` is what a callback holds after it has been moved from;
a callback that runs returns or throws an exception that `run_loop` catches. -/
def workerStep (θ : Thread) (moved : Callback) : Option Thread :=
  match θ.worker with
  | .outerCheck => some { θ with worker := if θ.finished then .exited else .lockWait }
  | .lockWait => θ.lockWorker .emptyCheck
  | .emptyCheck =>
    some { θ with worker := if θ.queueTask.isEmpty then .innerCheck else .unlockWait }
  | .innerCheck => some { θ with worker := if θ.finished then .unlockWait else .wait }
  | .wait => some { θ with queueTaskMutex := none, worker := .blocked }
  | .blocked => none
  | .woken => θ.lockWorker .emptyCheck
  | .unlockWait => some { θ with queueTaskMutex := none, worker := .laterCheck }
  | .laterCheck => some { θ with worker := if θ.finished then .exited else .lockFront }
  | .lockFront => θ.lockWorker .takeFront
  | .takeFront =>
    match θ.queueTask with
    -- `if (!queue_task_.empty())` fails, and `cb` stays empty.
    | [] => some { θ with worker := .unlockFront none }
    | cb :: rest => some { θ with queueTask := moved :: rest, worker := .unlockFront cb }
  | .unlockFront cb => some { θ with queueTaskMutex := none, worker := .test cb }
  -- Nothing is popped when the callback is empty.
  | .test none => some { θ with worker := .outerCheck }
  | .test (some i) => some { θ with worker := .running i, started := θ.started ++ [i] }
  | .running i => some { θ with worker := .lockPop, done := θ.done ++ [i] }
  | .lockPop => θ.lockWorker .popFront
  | .popFront => some { θ with queueTask := θ.queueTask.tail, worker := .unlockPop }
  | .unlockPop => some { θ with queueTaskMutex := none, worker := .outerCheck }
  | .exited => none

/-- Call `i` goes on at `next`. -/
def goto (θ : Thread) (i : Nat) (next : CallPoint) : Thread :=
  { θ with calls := Function.update θ.calls i next }

/-- Call `i` takes the mutex and goes on at `next`. -/
def lockCall (θ : Thread) (i : Nat) (next : CallPoint) : Option Thread :=
  if θ.queueTaskMutex = none then
    some (({ θ with queueTaskMutex := some (.call i) } : Thread).goto i next)
  else none

/-- Call `i` releases the mutex and goes on at `next`. -/
def unlockCall (θ : Thread) (i : Nat) (next : CallPoint) : Thread :=
  ({ θ with queueTaskMutex := none } : Thread).goto i next

/-- Call `i` takes its next step. -/
def callStep (θ : Thread) (i : Nat) : Option Thread :=
  match θ.calls i with
  | .idle => none
  | .appendCheck cb => some (θ.goto i (if θ.finished then .returned 0 else .appendLock cb))
  | .appendLock cb => θ.lockCall i (.pushBack cb)
  | .pushBack cb =>
    some (({ θ with
      queueTask := θ.queueTask ++ [cb]
      queued := θ.queued ++ cb.toList } : Thread).goto i (.appendUnlock (θ.queueTask.length + 1)))
  -- Only the append that has filled an empty list notifies.
  | .appendUnlock size =>
    some (θ.unlockCall i (if size = 1 then .appendNotify size else .returned size))
  | .appendNotify size => some (θ.notifyOne.goto i (.returned size))
  | .stopCheck joins =>
    some (θ.goto i (if θ.finished then (if joins then .joining else .returned 0)
      else .stopStore joins))
  | .stopStore joins => some (({ θ with finished := true } : Thread).goto i (.stopNotify joins))
  | .stopNotify joins => some (θ.notifyOne.goto i (if joins then .joining else .returned 0))
  | .joining => if θ.worker = .exited then some (θ.goto i (.returned 0)) else none
  | .loadLock waits => θ.lockCall i (.loadSize waits)
  | .loadSize waits => some (θ.goto i (.loadUnlock waits θ.queueTask.length))
  | .loadUnlock waits size =>
    some (θ.unlockCall i (if waits ∧ size > 0 then .loadLock waits else .returned size))
  | .returned _ => none

/-- The first point of a call; `i` is its number. -/
def firstPoint (i : Nat) : Call → CallPoint
  | .append empty => .appendCheck (if empty then none else some i)
  | .termminiate => .stopCheck false
  | .join => .stopCheck true
  | .load => .loadLock false
  | .waitForIdle => .loadLock true

inductive Act
  | worker (moved : Callback)
  /-- The wait of the worker ends without a notification. -/
  | spurious
  /-- Call `i` is made. -/
  | make (i : Nat) (call : Call)
  /-- Call `i` takes its next step. -/
  | call (i : Nat)
  deriving DecidableEq, Repr

def step (θ : Thread) : Act → Option Thread
  | .worker moved => θ.workerStep moved
  | .spurious => if θ.worker = .blocked then some { θ with worker := .woken } else none
  | .make i call => if θ.calls i = .idle then some (θ.goto i (firstPoint i call)) else none
  | .call i => θ.callStep i

/-! ## Steps -/

theorem step_spurious {θ θ' : Thread} (h : step θ .spurious = some θ') :
    θ.worker = .blocked ∧ θ' = { θ with worker := .woken } := by
  rw [step] at h
  split_ifs at h with hblocked
  exact ⟨hblocked, (Option.some.inj h).symm⟩

theorem step_make {θ θ' : Thread} {i : Nat} {call : Call} (h : step θ (.make i call) = some θ') :
    θ.calls i = .idle ∧ θ' = θ.goto i (firstPoint i call) := by
  rw [step] at h
  split_ifs at h with hidle
  exact ⟨hidle, (Option.some.inj h).symm⟩

/-- A notification lets a blocked worker go on. -/
theorem notifyOne_of_ne {θ : Thread} (h : θ.worker ≠ .blocked) : θ.notifyOne = θ := by
  rw [notifyOne, if_neg h]

@[simp] theorem calls_goto (θ : Thread) (i : Nat) (next : CallPoint) :
    (θ.goto i next).calls i = next := Function.update_self ..

theorem calls_goto_of_ne (θ : Thread) {i j : Nat} (next : CallPoint) (h : j ≠ i) :
    (θ.goto i next).calls j = θ.calls j := Function.update_of_ne h _ _

end Thread
end EddyServer
