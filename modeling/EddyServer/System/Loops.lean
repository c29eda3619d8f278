import EddyServer.System.Clients

/-!
# Event loops

Every thread runs handlers inside `IOServiceThread::run`, and leaves it when its `io_service` has
run out of work: the `io_service::work` is gone, no handler is queued and no asynchronous operation
is outstanding. `check_keep_alive` is the completion of a timer of the thread and starts the next
wait. `IOServiceThreadManager::stop` drops the `io_service::work` of every worker and joins it.
-/

namespace EddyServer

/-- Whether the thread is inside `run`. -/
inductive LoopPhase
  | created
  | running
  | returned
  deriving DecidableEq, Repr

/-- `timer_`. -/
inductive KeepAliveTimer
  | idle
  /-- A wait until this time is outstanding. -/
  | waiting (expiry : Nat)
  /-- `check_keep_alive` is queued. -/
  | expired (error : ErrorCode)
  deriving DecidableEq, Repr

/-- What an `IOServiceThread` owns besides its queues. -/
structure IOServiceThread where
  phase : LoopPhase
  /-- `io_work_` holds an `io_service::work`. -/
  ioWork : Bool
  timer : KeepAliveTimer
  /-- The number of handlers that the thread has run; no function reads it. -/
  executed : Nat
  deriving DecidableEq, Repr

namespace IOServiceThread

def new : IOServiceThread :=
  { phase := .created, ioWork := false, timer := .idle, executed := 0 }

/-- `timer_.expires_from_now(std::chrono::seconds(1))` and `async_wait`. -/
def startTimer (l : IOServiceThread) (now : Nat) : IOServiceThread :=
  { l with timer := .waiting (now + 1000000000) }

/-- `run`, up to `io_service::run`. -/
def run (l : IOServiceThread) (now : Nat) : IOServiceThread :=
  ({ l with phase := .running, ioWork := true } : IOServiceThread).startTimer now

def stop (l : IOServiceThread) : IOServiceThread := { l with ioWork := false }

/-- `check_keep_alive`, after the visits to the sessions. -/
def checkKeepAlive (l : IOServiceThread) (now : Nat) (error : ErrorCode) : IOServiceThread :=
  let l := { l with timer := .idle, executed := l.executed + 1 }
  if error ≠ .success then l else l.startTimer now

end IOServiceThread

/-- How far `IOServiceThreadManager::stop` has come. -/
inductive StopCall
  | idle
  /-- The first loop is about to stop thread `i`. -/
  | stopping (i : ThreadIx)
  /-- The second loop is about to join thread `i`. -/
  | joining (i : ThreadIx)
  deriving DecidableEq, Repr

/-- The manager, its server and its clients, and the loops of its threads. -/
structure Process (Φ : Type) where
  clients : Clients Φ
  /-- `threads_.size()`. -/
  threads : Nat
  loops : ThreadIx → IOServiceThread
  stopCall : StopCall

namespace Process

variable {Φ : Type} (F : MessageFilterInterface Φ)

/-! ## Outstanding work -/

/-- The operations that a session has outstanding on its thread. -/
def operations (s : TCPSession Φ) : Nat :=
  s.socket.reads.length + s.outstandingWrites + s.outstandingWaits

/-- The number of things that keep `io_service::run` of thread `t` from returning. -/
def outstanding (π : Process Φ) (t : ThreadIx) : Nat :=
  let σ := π.clients.server
  (if (π.loops t).ioWork then 1 else 0) +
  (if (π.loops t).timer = .idle then 0 else 1) +
  (σ.tasks t).length + (π.clients.connected t).length +
  π.clients.connecting.countP (fun op => op.1 = t) +
  ((List.range σ.accepted).map fun c =>
    if (σ.sessions c).ioThread = t then operations (σ.sessions c) else 0).sum +
  (if t = mainThread ∧ σ.accepting.isSome then 1 else 0)

/-! ## Steps -/

/-- `check_keep_alive` visits a session. -/
def visit (t : ThreadIx) (σ : System Φ) (c : Conn) : System Φ :=
  if (σ.sessions c).checkKeepAlive σ.clock then σ else σ.post t (.on c .close)

/-- `IOServiceThreadManager::stop` goes on. A `join` waits until the thread has left `run`. -/
def stopStep (π : Process Φ) : Option (Process Φ) :=
  match π.stopCall with
  | .idle => some (if π.threads = 0 then π else { π with stopCall := .stopping 0 })
  | .stopping i =>
    if i < π.threads then
      some { π with
        loops := if i = mainThread then π.loops
          else Function.update π.loops i (π.loops i).stop
        stopCall := .stopping (i + 1) }
    else some { π with stopCall := .joining 0 }
  | .joining i =>
    if i < π.threads then
      if i ≠ mainThread ∧ (π.loops i).phase = .running then none
      else some { π with stopCall := .joining (i + 1) }
    else
      some { π with
        loops := Function.update π.loops mainThread (π.loops mainThread).stop
        stopCall := .idle }

inductive Act (Φ : Type)
  /-- A step of the server or a client. The sessions are visited by `checkKeepAlive` only. -/
  | clients (a : Clients.Act Φ)
  /-- Thread `t` enters `run`. -/
  | run (t : ThreadIx)
  /-- The wait of `timer_` is over. -/
  | expire (t : ThreadIx)
  /-- Thread `t` runs `check_keep_alive`, which visits the sessions in this order. -/
  | checkKeepAlive (t : ThreadIx) (order : List Conn)
  /-- `io_service::run` returns on thread `t`. -/
  | leave (t : ThreadIx)
  /-- `IOServiceThreadManager::stop` is called or goes on. -/
  | stop

/-- The thread whose loop runs a step of the server or a client. -/
def handlerThread : Clients.Act Φ → Option ThreadIx
  | .server (.run t _ _ _) => some t
  | .handleAsyncConnect t _ _ => some t
  | _ => none

/-- A visit by `check_keep_alive`. -/
def isVisit : Clients.Act Φ → Bool
  | .server (.keepAlive _ _) => true
  | _ => false

def step (π : Process Φ) : Act Φ → Option (Process Φ)
  | .clients a =>
    if isVisit a then none
    else
      match handlerThread a with
      | none => (Clients.step F π.clients a).map fun κ => { π with clients := κ }
      | some t =>
        if (π.loops t).phase = .running then
          (Clients.step F π.clients a).map fun κ =>
            { π with
              clients := κ
              loops := Function.update π.loops t
                { π.loops t with executed := (π.loops t).executed + 1 } }
        else none
  | .run t =>
    if t < π.threads ∧ (π.loops t).phase = .created then
      some { π with
        loops := Function.update π.loops t ((π.loops t).run π.clients.server.clock) }
    else none
  | .expire t =>
    match (π.loops t).timer with
    | .waiting expiry =>
      if expiry ≤ π.clients.server.clock then
        some { π with
          loops := Function.update π.loops t { π.loops t with timer := .expired .success } }
      else none
    | _ => none
  | .checkKeepAlive t order =>
    match (π.loops t).timer with
    | .expired error =>
      if (π.loops t).phase = .running ∧ order.Perm (π.clients.server.sessionQueue t).values then
        let σ := if error ≠ .success then π.clients.server
          else order.foldl (visit t) π.clients.server
        some { π with
          clients := { π.clients with server := σ }
          loops := Function.update π.loops t
            ((π.loops t).checkKeepAlive π.clients.server.clock error) }
      else none
    | _ => none
  | .leave t =>
    if (π.loops t).phase = .running ∧ π.outstanding t = 0 then
      some { π with loops := Function.update π.loops t { π.loops t with phase := .returned } }
    else none
  | .stop => π.stopStep

/-- A manager that has just been constructed; none of its threads runs. -/
def start (threads keepAliveTime : Nat) (filter : Φ) : Process Φ :=
  { clients := .start threads keepAliveTime filter
    threads := threads
    loops := fun _ => .new
    stopCall := .idle }

/-! ## What a step does to a loop -/

inductive LoopStep (l : IOServiceThread) : IOServiceThread → Prop
  | same : LoopStep l l
  /-- A handler has run. -/
  | executes : LoopStep l { l with executed := l.executed + 1 }
  | run (now : Nat) : l.phase = .created → LoopStep l (l.run now)
  | expires (expiry : Nat) : l.timer = .waiting expiry →
      LoopStep l { l with timer := .expired .success }
  | checks (now : Nat) (error : ErrorCode) : l.timer = .expired error →
      LoopStep l (l.checkKeepAlive now error)
  | leaves : l.timer = .idle → LoopStep l { l with phase := .returned }
  | stops : LoopStep l l.stop

variable {F}

/-- A thread that changes its loop leaves those of other threads alone. -/
theorem loopStep_update {loops : ThreadIx → IOServiceThread} {t : ThreadIx} {l : IOServiceThread}
    (h : LoopStep (loops t) l) (u : ThreadIx) :
    LoopStep (loops u) (Function.update loops t l u) := by
  by_cases hu : u = t
  · subst hu
    rw [Function.update_self]
    exact h
  · rw [Function.update_of_ne hu]
    exact .same

theorem loopStep_of_stopStep {π π' : Process Φ} (h : π.stopStep = some π') (u : ThreadIx) :
    LoopStep (π.loops u) (π'.loops u) := by
  unfold stopStep at h
  split at h
  · cases h
    split_ifs <;> exact .same
  · split_ifs at h with hlt hmain <;> cases h
    · exact .same
    · exact loopStep_update .stops u
    · exact .same
  · split_ifs at h <;> cases h
    · exact .same
    · exact loopStep_update .stops u

/-- Nothing but the timer is needed for work to be outstanding. -/
theorem outstanding_pos {π : Process Φ} {t : ThreadIx} (h : (π.loops t).timer ≠ .idle) :
    0 < π.outstanding t := by
  unfold outstanding
  rw [if_neg h]
  dsimp only
  omega

/-- What a step does: a server or a client takes one and its thread counts it, a thread changes its
loop, a thread visits its sessions as well, or `stop` goes on. -/
inductive Move (F : MessageFilterInterface Φ) (π : Process Φ) : Process Φ → Prop
  | clients (a : Clients.Act Φ) (κ : Clients Φ) (loops : ThreadIx → IOServiceThread) :
      Clients.step F π.clients a = some κ → (∀ u, LoopStep (π.loops u) (loops u)) →
      Move F π { π with clients := κ, loops := loops }
  | loop (t : ThreadIx) (l : IOServiceThread) : LoopStep (π.loops t) l →
      Move F π { π with loops := Function.update π.loops t l }
  | visits (t : ThreadIx) (order : List Conn) (l : IOServiceThread) :
      order.Perm (π.clients.server.sessionQueue t).values → LoopStep (π.loops t) l →
      Move F π { π with
        clients := { π.clients with server := order.foldl (visit t) π.clients.server }
        loops := Function.update π.loops t l }
  | stop (π' : Process Φ) : π.stopStep = some π' → Move F π π'

theorem move_of_step {π π' : Process Φ} {a : Act Φ} (h : step F π a = some π') : Move F π π' := by
  cases a with
  | clients a =>
      unfold step at h
      dsimp only at h
      split_ifs at h
      split at h
      · obtain ⟨κ, hκ, rfl⟩ := Option.map_eq_some_iff.mp h
        exact .clients a κ π.loops hκ fun _ => .same
      · split_ifs at h
        obtain ⟨κ, hκ, rfl⟩ := Option.map_eq_some_iff.mp h
        exact .clients a κ _ hκ (loopStep_update .executes)
  | run t =>
      unfold step at h
      dsimp only at h
      split_ifs at h with hcreated
      cases h
      exact .loop t _ (.run _ hcreated.2)
  | expire t =>
      unfold step at h
      dsimp only at h
      split at h
      · rename_i expiry htimer
        split_ifs at h
        cases h
        exact .loop t _ (.expires expiry htimer)
      · cases h
  | checkKeepAlive t order =>
      unfold step at h
      dsimp only at h
      split at h
      · rename_i error htimer
        split_ifs at h with hruns herror
        · cases h
          exact .loop t _ (.checks _ error htimer)
        · cases h
          exact .visits t order _ hruns.2 (.checks _ error htimer)
      · cases h
  | leave t =>
      unfold step at h
      dsimp only at h
      split_ifs at h with hout
      cases h
      have htimer : (π.loops t).timer = .idle := by
        by_contra hne
        exact Nat.lt_irrefl 0 (hout.2 ▸ outstanding_pos hne)
      exact .loop t _ (.leaves htimer)
  | stop => exact .stop π' h

theorem loopStep_of_step {π π' : Process Φ} {a : Act Φ} (h : step F π a = some π') (u : ThreadIx) :
    LoopStep (π.loops u) (π'.loops u) := by
  cases move_of_step h with
  | clients a κ loops _ hloops => exact hloops u
  | loop t l hloop => exact loopStep_update hloop u
  | visits t order l _ hloop => exact loopStep_update hloop u
  | stop π' hstop => exact loopStep_of_stopStep hstop u

/-! ## The timer is never idle -/

/-- A thread inside `run` waits for its timer, or `check_keep_alive` is queued without an error. -/
def Armed (l : IOServiceThread) : Prop :=
  l.phase = .running → l.timer = .expired .success ∨ ∃ expiry, l.timer = .waiting expiry

theorem Armed.ne_idle {l : IOServiceThread} (h : Armed l) (hrunning : l.phase = .running) :
    l.timer ≠ .idle := by
  intro hidle
  rcases h hrunning with hexpired | ⟨expiry, hwaiting⟩
  · cases hidle.symm.trans hexpired
  · cases hidle.symm.trans hwaiting

theorem Armed.step {l l' : IOServiceThread} (h : Armed l) (hstep : LoopStep l l') : Armed l' := by
  cases hstep with
  | same => exact h
  | executes => exact h
  | run now _ => exact fun _ => .inr ⟨_, rfl⟩
  | expires expiry _ => exact fun _ => .inl rfl
  | checks now error htimer =>
      intro hrunning
      -- the handler starts the next wait unless it is given an error
      unfold IOServiceThread.checkKeepAlive at hrunning ⊢
      dsimp only at hrunning ⊢
      by_cases herror : error = .success
      · rw [if_neg (not_not.mpr herror)]
        exact .inr ⟨_, rfl⟩
      · rw [if_pos herror] at hrunning
        rcases h hrunning with hexpired | ⟨expiry, hwaiting⟩
        · cases htimer.symm.trans hexpired
          exact absurd rfl herror
        · cases htimer.symm.trans hwaiting
  | leaves _ =>
      intro hrunning
      cases hrunning
  | stops => exact h

/-- A thread whose timer is not idle stays inside `run`. -/
theorem running_step {l l' : IOServiceThread} (h : Armed l) (hrunning : l.phase = .running)
    (hstep : LoopStep l l') : l'.phase = .running := by
  cases hstep with
  | same => exact hrunning
  | executes => exact hrunning
  | run now hcreated => rfl
  | expires expiry _ => exact hrunning
  | checks now error _ =>
      unfold IOServiceThread.checkKeepAlive
      dsimp only
      split_ifs <;> exact hrunning
  | leaves hidle => exact absurd hidle (h.ne_idle hrunning)
  | stops => exact hrunning

/-! ## Runs -/

theorem armed_of_reach {π π' : Process Φ} (hrun : Transition.Reach (step F) π π')
    (h : ∀ t, Armed (π.loops t)) (t : ThreadIx) : Armed (π'.loops t) :=
  hrun.invariant (I := fun π => ∀ t, Armed (π.loops t))
    (fun hi _ hstep u => (hi u).step (loopStep_of_step hstep u)) h t

theorem armed_of_start {threads keepAliveTime : Nat} {filter : Φ} {π : Process Φ}
    (hrun : Transition.Reach (step F) (start threads keepAliveTime filter) π) (t : ThreadIx) :
    Armed (π.loops t) := by
  apply armed_of_reach hrun
  intro u hrunning
  cases hrunning

/-- A thread inside `run` never leaves it and never runs out of work. -/
theorem running_of_reach {π π' : Process Φ} {t : ThreadIx} (hrun : Transition.Reach (step F) π π')
    (h : Armed (π.loops t)) (hrunning : (π.loops t).phase = .running) :
    (π'.loops t).phase = .running ∧ 0 < π'.outstanding t := by
  have hkeeps : Armed (π'.loops t) ∧ (π'.loops t).phase = .running := by
    refine hrun.invariant (I := fun π => Armed (π.loops t) ∧ (π.loops t).phase = .running)
      (fun hi _ hstep => ?_) ⟨h, hrunning⟩
    have hloop := loopStep_of_step hstep t
    exact ⟨hi.1.step hloop, running_step hi.1 hi.2 hloop⟩
  exact ⟨hkeeps.2, outstanding_pos (hkeeps.1.ne_idle hkeeps.2)⟩

/-- Only `stop` itself goes on with `stop`. -/
theorem stopCall_of_step {π π' : Process Φ} {a : Act Φ} (h : step F π a = some π') :
    π'.threads = π.threads ∧ π'.stopCall = π.stopCall ∨ π.stopStep = some π' := by
  cases move_of_step h with
  | stop π' hstop => exact .inr hstop
  | _ => exact .inl ⟨rfl, rfl⟩

/-- `stop` is inside the `join` of this thread. -/
def Joins (π : Process Φ) (t : ThreadIx) : Prop :=
  t < π.threads ∧ t ≠ mainThread ∧ π.stopCall = .joining t

theorem joins_of_reach {π π' : Process Φ} {t : ThreadIx} (hrun : Transition.Reach (step F) π π')
    (harmed : Armed (π.loops t)) (hrunning : (π.loops t).phase = .running) (h : Joins π t) :
    Joins π' t := by
  refine (hrun.invariant (I := fun π => (Armed (π.loops t) ∧ (π.loops t).phase = .running) ∧ Joins π t)
    (fun hi _ hstep => ?_) ⟨⟨harmed, hrunning⟩, h⟩).2
  obtain ⟨⟨ha, hr⟩, hlt, hworker, hjoin⟩ := hi
  have hloop := loopStep_of_step hstep t
  refine ⟨⟨ha.step hloop, running_step ha hr hloop⟩, ?_⟩
  rcases stopCall_of_step hstep with ⟨hthreads, hcall⟩ | hstop
  · exact ⟨by rw [hthreads]; exact hlt, hworker, by rw [hcall, hjoin]⟩
  · -- the thread that is joined has not left `run`
    unfold stopStep at hstop
    rw [hjoin] at hstop
    dsimp only at hstop
    rw [if_pos hlt, if_pos ⟨hworker, hr⟩] at hstop
    cases hstop

/-! ## The loops run the server and its clients -/

theorem visits_reach {κ : Clients Φ} {t : ThreadIx} {order : List Conn}
    (h : ∀ c ∈ order, c ∈ (κ.server.sessionQueue t).values) :
    Transition.Reach (Clients.step F) κ { κ with server := order.foldl (visit t) κ.server } := by
  induction order generalizing κ with
  | nil => exact .refl κ
  | cons c order ih =>
      obtain ⟨id, hid⟩ := Table.mem_values.mp (h c List.mem_cons_self)
      have hfound : κ.server.getSession t id = some c := hid
      -- a visit leaves the queue of sessions as it is
      have hqueue : (visit t κ.server c).sessionQueue = κ.server.sessionQueue := by
        unfold visit
        split_ifs <;> rfl
      have hvisit : Clients.step F κ (.server (.keepAlive t id)) =
          some { κ with server := visit t κ.server c } := by
        rw [Clients.step, System.step, hfound]
        rfl
      have hrest := ih (κ := { κ with server := visit t κ.server c }) fun d hd => by
        dsimp only
        rw [hqueue]
        exact h d (List.mem_cons_of_mem _ hd)
      exact (Transition.Run.tail (.refl κ) trivial hvisit).trans hrest

/-- `stop` leaves the server and its clients alone. -/
theorem clients_of_stopStep {π π' : Process Φ} (h : π.stopStep = some π') :
    π'.clients = π.clients := by
  unfold stopStep at h
  split at h
  · cases h
    split_ifs <;> rfl
  · split_ifs at h <;> cases h <;> rfl
  · split_ifs at h <;> cases h <;> rfl

/-- Every run of the loops is a run of the server and its clients. -/
theorem clients_reach {π π' : Process Φ} (hrun : Transition.Reach (step F) π π') :
    Transition.Reach (Clients.step F) π.clients π'.clients := by
  induction hrun with
  | refl => exact .refl _
  | tail _ _ hstep ih =>
      apply ih.trans
      cases move_of_step hstep with
      | clients a κ loops hκ _ => exact .tail (.refl _) trivial hκ
      | loop t l _ => exact .refl _
      | visits t order l hperm _ => exact visits_reach fun c hc => hperm.mem_iff.mp hc
      | stop π' hstop =>
          rw [clients_of_stopStep hstop]
          exact .refl _

/-! ## The handlers that keep running -/

/-- The wait comes to its end. -/
theorem exists_expired {π : Process Φ} {t : ThreadIx} (h : Armed (π.loops t))
    (hrunning : (π.loops t).phase = .running) :
    ∃ π', Transition.Reach (step F) π π' ∧ (π'.loops t).phase = .running ∧
      (π'.loops t).timer = .expired .success ∧ (π'.loops t).executed = (π.loops t).executed := by
  rcases h hrunning with hexpired | ⟨expiry, hwaiting⟩
  · exact ⟨π, .refl _, hrunning, hexpired, rfl⟩
  · -- let enough time pass for the timer to expire
    let σ := π.clients.server
    let later : Process Φ :=
      { π with clients := { π.clients with server := { σ with clock := σ.clock + expiry } } }
    have htick : step F π (.clients (.server (.tick expiry))) = some later := rfl
    have hexpire : step F later (.expire t) =
        some { later with
          loops := Function.update π.loops t { π.loops t with timer := .expired .success } } := by
      have htimer : (later.loops t).timer = .waiting expiry := hwaiting
      have hclock : expiry ≤ later.clients.server.clock := Nat.le_add_left expiry σ.clock
      unfold step
      dsimp only
      rw [htimer]
      dsimp only
      rw [if_pos hclock]
    refine ⟨_, .tail (.tail (.refl _) trivial htick) trivial hexpire, ?_⟩
    dsimp only
    rw [Function.update_self]
    exact ⟨hrunning, rfl, rfl⟩

/-- One more `check_keep_alive` is run. -/
theorem exists_round {π : Process Φ} {t : ThreadIx} (h : Armed (π.loops t))
    (hrunning : (π.loops t).phase = .running) :
    ∃ π', Transition.Reach (step F) π π' ∧ (π'.loops t).executed = (π.loops t).executed + 1 := by
  obtain ⟨τ, hrun, hrunning', htimer, hexecuted⟩ := exists_expired (F := F) h hrunning
  have hcheck : step F τ (.checkKeepAlive t (τ.clients.server.sessionQueue t).values) =
      some { τ with
        clients := { τ.clients with
          server := (τ.clients.server.sessionQueue t).values.foldl (visit t) τ.clients.server }
        loops := Function.update τ.loops t
          ((τ.loops t).checkKeepAlive τ.clients.server.clock .success) } := by
    unfold step
    dsimp only
    rw [htimer]
    dsimp only
    rw [if_pos ⟨hrunning', List.Perm.refl _⟩, if_neg (by decide)]
  refine ⟨_, .tail hrun trivial hcheck, ?_⟩
  dsimp only
  rw [Function.update_self, ← hexecuted]
  rfl

theorem exists_rounds {π : Process Φ} {t : ThreadIx} (h : Armed (π.loops t))
    (hrunning : (π.loops t).phase = .running) (n : Nat) :
    ∃ π', Transition.Reach (step F) π π' ∧ (π'.loops t).executed = (π.loops t).executed + n := by
  induction n with
  | zero => exact ⟨π, .refl _, rfl⟩
  | succ n ih =>
      obtain ⟨τ, hrun, hn⟩ := ih
      have harmed : Armed (τ.loops t) := by
        refine hrun.invariant (I := fun π => Armed (π.loops t)) (fun hi _ hstep => ?_) h
        exact hi.step (loopStep_of_step hstep t)
      obtain ⟨π', hround, hone⟩ := exists_round (F := F) harmed (running_of_reach hrun h hrunning).1
      exact ⟨π', hrun.trans hround, by rw [hone, hn, Nat.add_assoc]⟩

/-- **A thread that runs is never joined.** Once a thread is inside `run`, in every run from there
its `io_service` has work outstanding, whether or not the `io_service::work` is gone and whatever
else there is to do; a `join` of it does not return; and no number of handlers is the last. -/
theorem worker_never_runs_out {threads keepAliveTime : Nat} {filter : Φ} {π : Process Φ}
    (hrun : Transition.Reach (step F) (start threads keepAliveTime filter) π) {t : ThreadIx}
    (hrunning : (π.loops t).phase = .running) :
    (∀ π', Transition.Reach (step F) π π' →
      (π'.loops t).phase = .running ∧ 0 < π'.outstanding t) ∧
      (Joins π t → ∀ π', Transition.Reach (step F) π π' → Joins π' t) ∧
      ∀ n, ∃ π', Transition.Reach (step F) π π' ∧
        (π'.loops t).executed = (π.loops t).executed + n := by
  have harmed := armed_of_start hrun t
  exact ⟨fun π' hrun' => running_of_reach hrun' harmed hrunning,
    fun hjoins π' hrun' => joins_of_reach hrun' harmed hrunning hjoins,
    exists_rounds harmed hrunning⟩

/-- Thread `t` has been stopped: it has no session, and nothing but its timer is outstanding. -/
def OnlyTimer (π : Process Φ) (t : ThreadIx) : Prop :=
  (π.loops t).ioWork = false ∧ (π.clients.server.sessionQueue t).values = [] ∧
    (π.loops t).timer ≠ .idle ∧ π.outstanding t = 1

instance (π : Process Φ) (t : ThreadIx) : Decidable (OnlyTimer π t) :=
  inferInstanceAs (Decidable (_ ∧ _))

instance (π : Process Φ) (t : ThreadIx) : Decidable (Joins π t) :=
  inferInstanceAs (Decidable (_ ∧ _))

/-- A manager with a worker, after the labels of a list. -/
def ran (labels : List (Act MessageFilter)) : Option (Process MessageFilter) :=
  Transition.exec (step (messageFilter .little .zeros)) (start 2 0 (.new 0)) labels

/-- Both threads run, and `stop` has come to the `join` of the worker. -/
def stopped : Option (Process MessageFilter) :=
  ran [.run 0, .run 1, .stop, .stop, .stop, .stop, .stop]

theorem exists_stopped :
    ∃ π, stopped = some π ∧ OnlyTimer π 1 ∧ Joins π 1 ∧ (π.loops 1).phase = .running := by
  obtain ⟨π, hπ, hview⟩ := Option.map_eq_some_iff.mp (show
    stopped.map (fun π => decide (OnlyTimer π 1 ∧ Joins π 1 ∧ (π.loops 1).phase = .running)) =
      some true by decide +kernel)
  exact ⟨π, hπ, of_decide_eq_true hview⟩

/-- The worker of a stopped manager runs `check_keep_alive` three more times. -/
theorem worker_never_runs_out_stopped :
    ∃ π, stopped = some π ∧ OnlyTimer π 1 ∧
      (∀ π', Transition.Reach (step (messageFilter .little .zeros)) π π' →
        (π'.loops 1).phase = .running ∧ 0 < π'.outstanding 1) ∧
      ∃ π', Transition.Reach (step (messageFilter .little .zeros)) π π' ∧
        (π'.loops 1).executed = (π.loops 1).executed + 3 := by
  obtain ⟨π, hπ, honly, -, hrunning⟩ := exists_stopped
  obtain ⟨hruns, -, hrounds⟩ := worker_never_runs_out (Transition.reach_of_exec hπ) hrunning
  exact ⟨π, hπ, honly, hruns, hrounds 3⟩

/-- `stop` has dropped the worker's `io_service::work`, and the worker has nothing but its timer;
but it never runs out of work, and the `join` never returns. -/
theorem stop_waits_for_ever :
    ∃ π, stopped = some π ∧ OnlyTimer π 1 ∧ Joins π 1 ∧
      ∀ π', Transition.Reach (step (messageFilter .little .zeros)) π π' →
        0 < π'.outstanding 1 ∧ Joins π' 1 := by
  obtain ⟨π, hπ, honly, hjoins, hrunning⟩ := exists_stopped
  have harmed := armed_of_start (Transition.reach_of_exec hπ) 1
  exact ⟨π, hπ, honly, hjoins, fun π' hrun =>
    ⟨(running_of_reach hrun harmed hrunning).2, joins_of_reach hrun harmed hrunning hjoins⟩⟩

end Process
end EddyServer
