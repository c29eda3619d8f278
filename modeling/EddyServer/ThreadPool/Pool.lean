import EddyServer.ThreadPool.Thread

/-!
# `ThreadPool`

A vector of threads. `append` looks for a thread with the smallest load and appends to it; `load`
calls the member of the same name on one thread, and `join`, `termminiate` and `wait_for_idle` on
one thread after the other. A call of a member of the pool has the same number as the calls of the
threads' members that it makes; the size that `load` returns is what that call returns.

The loads that `append` compares are read one by one, each behind the mutex of its thread. Which of
the two is read first is not determined.
-/

namespace EddyServer
namespace ThreadPool

/-- A call of a member function. -/
inductive Call
  | append (empty : Bool)
  | termminiate
  | join
  | load (index : Nat)
  | waitForIdle
  deriving DecidableEq, Repr

/-- The member of a thread that a call of the pool calls. -/
def Call.each : Call → Thread.Call
  | .append empty => .append empty
  | .termminiate => .termminiate
  | .join => .join
  | .load _ => .load
  | .waitForIdle => .waitForIdle

/-- Where a call is. -/
inductive CallPoint
  /-- The call has not been made. -/
  | idle
  /-- `if (!vector_thread_.empty())`. -/
  | appendCheck (empty : Bool)
  /-- `std::lock_guard` on `mutex_`. -/
  | appendLock (empty : Bool)
  /-- `min_element` has found `best` among the first `next` threads. -/
  | compare (empty : Bool) (best next : Nat)
  /-- One of the loads of the next comparison has been read. -/
  | compareLoad (empty : Bool) (best next : Nat) (isNext : Bool) (load : Nat)
  | appendUnlock (empty : Bool) (best : Nat)
  /-- In `append` of thread `t`. -/
  | appending (empty : Bool) (t : Nat)
  /-- `index < vector_thread_.size()`. -/
  | loadCheck (index : Nat)
  /-- In `load` of thread `index`. -/
  | loading (index : Nat)
  /-- At the head of a loop. -/
  | loop (call : Call) (t : Nat)
  /-- In the member of thread `t` that the loop calls. -/
  | inside (call : Call) (t : Nat)
  | returned (call : Call)
  deriving DecidableEq, Repr

end ThreadPool

structure ThreadPool where
  count : Nat
  threads : Nat → Thread
  mutex : Option Nat
  calls : Nat → ThreadPool.CallPoint

namespace ThreadPool

/-- The constructor. -/
def new (count : Nat) : ThreadPool :=
  { count := count, threads := fun _ => .new, mutex := none, calls := fun _ => .idle }

/-- Call `k` goes on at `next`. -/
def goto (π : ThreadPool) (k : Nat) (next : CallPoint) : ThreadPool :=
  { π with calls := Function.update π.calls k next }

/-- Thread `t` takes a step. -/
def onThread (π : ThreadPool) (t : Nat) (a : Thread.Act) : Option ThreadPool :=
  (Thread.step (π.threads t) a).map fun θ => { π with threads := Function.update π.threads t θ }

/-- `load` of thread `t`. -/
def load (π : ThreadPool) (t : Nat) : Option Nat :=
  if (π.threads t).queueTaskMutex = none then some (π.threads t).queueTask.length else none

/-- `comp(*next, *best)` has been evaluated. -/
def choose (best next nextLoad bestLoad : Nat) : Nat := if nextLoad < bestLoad then next else best

/-- Call `k` takes its next step, in the pool or in a thread. `first` says which load a comparison
reads first: that of the next thread or that of the best one. -/
def callStep (π : ThreadPool) (k : Nat) (first : Bool) : Option ThreadPool :=
  match π.calls k with
  | .idle => none
  | .appendCheck empty =>
    some (π.goto k (if π.count = 0 then .returned (.append empty) else .appendLock empty))
  | .appendLock empty =>
    if π.mutex = none then
      some (({ π with mutex := some k } : ThreadPool).goto k (.compare empty 0 1))
    else none
  -- `min_element` keeps the earlier thread on equal loads.
  | .compare empty best next =>
    if next < π.count then
      (π.load (if first then next else best)).map fun load =>
        π.goto k (.compareLoad empty best next first load)
    else some (π.goto k (.appendUnlock empty best))
  | .compareLoad empty best next isNext load =>
    (π.load (if isNext then best else next)).map fun load' =>
      π.goto k (.compare empty
        (if isNext then choose best next load load' else choose best next load' load) (next + 1))
  | .appendUnlock empty best =>
    (({ π with mutex := none } : ThreadPool).goto k (.appending empty best)).onThread best
      (.make k (.append empty))
  | .appending empty t =>
    if ((π.threads t).calls k).hasReturned then some (π.goto k (.returned (.append empty)))
    else π.onThread t (.call k)
  | .loadCheck index =>
    if index < π.count then (π.goto k (.loading index)).onThread index (.make k .load)
    -- There is no such thread, and the size is 0.
    else some (π.goto k (.returned (.load index)))
  | .loading index =>
    if ((π.threads index).calls k).hasReturned then some (π.goto k (.returned (.load index)))
    else π.onThread index (.call k)
  | .loop call t =>
    if t < π.count then (π.goto k (.inside call t)).onThread t (.make k call.each)
    else some (π.goto k (.returned call))
  | .inside call t =>
    if ((π.threads t).calls k).hasReturned then some (π.goto k (.loop call (t + 1)))
    else π.onThread t (.call k)
  | .returned _ => none

/-- The first point of a call. -/
def firstPoint : Call → CallPoint
  | .append empty => .appendCheck empty
  | .load index => .loadCheck index
  | call => .loop call 0

inductive Act
  /-- The worker of thread `t` takes a step; `moved` is as for a thread. -/
  | worker (t : Nat) (moved : Thread.Callback)
  /-- The wait of the worker of thread `t` ends without a notification. -/
  | spurious (t : Nat)
  /-- Call `k` is made. -/
  | make (k : Nat) (call : Call)
  /-- Call `k` takes its next step. -/
  | call (k : Nat) (first : Bool)
  deriving DecidableEq, Repr

def step (π : ThreadPool) : Act → Option ThreadPool
  | .worker t moved => if t < π.count then π.onThread t (.worker moved) else none
  | .spurious t => if t < π.count then π.onThread t .spurious else none
  | .make k call => if π.calls k = .idle then some (π.goto k (firstPoint call)) else none
  | .call k first => π.callStep k first

end ThreadPool
end EddyServer
