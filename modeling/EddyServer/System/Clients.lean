import EddyServer.System.Registry

/-!
# Clients

A `TCPClient` opens connections of its own for the same manager. Its session belongs to a worker,
and `async_connect` completes on the `io_service` the session's socket was created with: the worker
runs `handle_async_connect`, and with it `on_session_connected`.

Which task of a thread runs first, one of its queue or one of these completions, is left open.
-/

namespace EddyServer

/-- The task runs callbacks of handlers or changes what the manager keeps. -/
def Task.isLogic : Task → Bool
  | .sessionSendMessageListDirectly | .sendMessageListToHandler .. | .onSessionClosed _ => true
  | _ => false

theorem Task.not_isLogic_of_isCompletion {task : Task} (h : task.isCompletion = true) :
    task.isLogic = false := by
  cases task <;> first | rfl | cases h

def Job.isLogic {Φ : Type} : Job Φ → Bool
  | .on _ task => task.isLogic
  | .handleAccept .. => true

namespace System

variable {Φ : Type} {F : MessageFilterInterface Φ}

/-! ## Tasks of the server -/

/-- No callback has been run, and the map, the generator and the loads are as they were. -/
structure SameLogic (σ σ' : System Φ) : Prop where
  callbacks : ∀ h, (σ'.handlers h).callbacks = (σ.handlers h).callbacks
  sessionHandlerMap : σ'.sessionHandlerMap = σ.sessionHandlerMap
  idGenerator : σ'.idGenerator = σ.idGenerator
  threadLoad : σ'.threadLoad = σ.threadLoad

theorem SameLogic.refl (σ : System Φ) : SameLogic σ σ := ⟨fun _ => rfl, rfl, rfl, rfl⟩

theorem sameLogic_onSession (σ : System Φ) (c : Conn) (r : TCPSession Φ × List Effect) :
    SameLogic σ (σ.onSession c r) := by
  rw [onSession_eq]
  exact ⟨fun _ => rfl, rfl, rfl, rfl⟩

theorem sameLogic_postMessageList {σ σ' : System Φ} {d : Conn} {messages : List NetMessage}
    (h : σ.postMessageList F d messages = some σ') : SameLogic σ σ' := by
  obtain ⟨s, -, rfl⟩ := Option.map_eq_some_iff.mp h
  exact ⟨fun _ => rfl, rfl, rfl, rfl⟩

theorem Calls.sameLogic {σ σ' : System Φ} (h : Calls [] σ σ') : SameLogic σ σ' := by
  have hcallbacks := h.callbacks
  obtain ⟨handlers, tasks, rfl⟩ := h.same
  refine ⟨fun d => ?_, rfl, rfl, rfl⟩
  rw [hcallbacks]
  simp

/-- Any other task runs no callback. -/
theorem sameLogic_exec {σ σ' : System Φ} {t : ThreadIx} {c : Conn} {scripts : List Script}
    {task : Task} (hplain : task.isLogic = false) (h : exec F σ t c scripts task = some σ') :
    SameLogic σ σ' := by
  cases task with
  | init id => cases h; exact sameLogic_onSession ..
  | handleRead error data => cases h; exact sameLogic_onSession ..
  | hanldeWrite error => cases h; exact sameLogic_onSession ..
  | handleSafeClose error data => cases h; exact sameLogic_onSession ..
  | closeTimer error =>
      obtain ⟨s, -, rfl⟩ := Option.map_eq_some_iff.mp h
      exact sameLogic_onSession ..
  | close => cases h; exact sameLogic_onSession ..
  | sessionPackMessageList => cases h; exact sameLogic_onSession ..
  | sessionSendMessageListDirectly => cases hplain
  | sendMessageListToHandler id messages => cases hplain
  | onSessionClosed id => cases hplain
  | handlerPackMessageList =>
      cases h
      exact (calls_onHandler (handlerMove_packMessageList _ _)).sameLogic
  | handlerSendMessageListDirectly =>
      rw [exec, handlerSendMessageListDirectly] at h
      split at h
      · cases h
        exact .refl _
      · obtain ⟨τ, hτ, rfl⟩ := Option.map_eq_some_iff.mp h
        have hsame := sameLogic_postMessageList hτ
        refine ⟨fun d => ?_, hsame.sessionHandlerMap, hsame.idGenerator, hsame.threadLoad⟩
        rw [← hsame.callbacks d]
        by_cases hd : d = c
        · subst hd
          simp
        · simp [hd]
  | sendMessageListToSession id messages =>
      rw [exec, sendMessageListToSession] at h
      split at h
      · cases h
        exact .refl _
      · exact sameLogic_postMessageList h
  | closeSession id =>
      cases h
      rw [closeSession]
      split
      · exact .refl _
      · exact sameLogic_onSession ..

/-! ## Where tasks are queued -/

/-- Only the main thread's queue holds such tasks. -/
def Confined (σ : System Φ) : Prop :=
  ∀ t, ∀ job ∈ σ.tasks t, job.isLogic = true → t = mainThread

theorem Confined.start (threads keepAliveTime : Nat) (filter : Φ) :
    Confined (start threads keepAliveTime filter) := by
  intro t job hjob
  cases hjob

theorem Confined.popped {σ : System Φ} (h : Confined σ) {t : ThreadIx} {job : Job Φ}
    {rest : List (Job Φ)} (ht : σ.tasks t = job :: rest) : Confined (σ.popped t rest) :=
  fun u job' hjob => h u job' (mem_popped ht hjob)

/-- Tasks are appended to queues, and those of this kind to the main thread's. -/
theorem Confined.grow {σ σ' : System Φ} (h : Confined σ)
    (hmore : ∀ t, ∀ job ∈ σ'.tasks t, job ∈ σ.tasks t ∨ (job.isLogic = true → t = mainThread)) :
    Confined σ' := by
  intro t job hjob hlogic
  rcases hmore t job hjob with hold | hnew
  · exact h t job hold hlogic
  · exact hnew hlogic

theorem CallJob.not_isLogic {σ : System Φ} {t : ThreadIx} {job : Job Φ} (h : CallJob σ t job) :
    job.isLogic = false := by
  obtain ⟨c, task, rfl, ⟨-, -, rfl | rfl⟩ | ⟨-, ⟨messages, rfl⟩ | rfl⟩⟩ := h <;> rfl

theorem Calls.confined {cbs : List (Conn × Callback)} {σ σ' : System Φ} (hcalls : Calls cbs σ σ')
    (h : Confined σ) : Confined σ' := by
  apply h.grow
  intro t job hjob
  obtain ⟨more, heq, hmore⟩ := hcalls.tasks t
  rw [heq] at hjob
  rcases List.mem_append.mp hjob with hold | hnew
  · exact .inl hold
  · refine .inr fun hlogic => ?_
    rw [(hmore job hnew).not_isLogic] at hlogic
    cases hlogic

/-- A session gives tasks of this kind to the main thread. -/
theorem post_main_of_move {s : TCPSession Φ} {found : Option Conn} {task task' : Task}
    {r : TCPSession Φ × List Effect} (h : TCPSession.Move s found task r) {t : ThreadIx}
    (hmem : .post t task' ∈ r.2) (hlogic : task'.isLogic = true) : t = mainThread := by
  cases h.outcome with
  | quiet _ _ heffects =>
      rw [heffects] at hmem
      cases hmem
  | timer _ _ heffects =>
      rw [heffects] at hmem
      cases List.mem_singleton.mp hmem
      cases hlogic
  | deregister _ _ _ _ _ _ heffects =>
      rw [heffects] at hmem
      rcases TCPSession.mem_leaving hmem with hpost | hremove | hpost
      · cases hpost
        rfl
      · cases hremove
      · cases hpost
        cases hlogic
  | receive _ _ _ _ heffects =>
      rw [heffects] at hmem
      cases hmem
  | first _ _ _ _ _ heffects =>
      rw [heffects] at hmem
      cases List.mem_singleton.mp hmem
      -- a worker's session first goes through a task of its own
      unfold TCPSession.flushTask at hlogic
      split_ifs at hlogic with hmain
      · exact threadId_inj.mp hmain
      · cases hlogic
  | deliver _ _ _ _ _ heffects =>
      rw [heffects] at hmem
      cases List.mem_singleton.mp hmem
      rfl

theorem Confined.onSession {σ : System Φ} (h : Confined σ) {c : Conn}
    {r : TCPSession Φ × List Effect}
    (hmain : ∀ t task, .post t task ∈ r.2 → task.isLogic = true → t = mainThread) :
    Confined (σ.onSession c r) := by
  apply h.grow
  intro t job hjob
  rw [onSession_eq] at hjob
  rcases List.mem_append.mp hjob with hold | hnew
  · exact .inl hold
  · obtain ⟨task, hpost, rfl⟩ := mem_jobsTo.mp hnew
    exact .inr (hmain t task hpost)

theorem Confined.post {σ : System Φ} (h : Confined σ) {t : ThreadIx} {job : Job Φ}
    (hmain : job.isLogic = true → t = mainThread) : Confined (σ.post t job) := by
  apply h.grow
  intro u job' hjob
  rw [post_eq] at hjob
  rcases List.mem_append.mp hjob with hold | hnew
  · exact .inl hold
  · split_ifs at hnew with hu
    · rw [List.mem_singleton.mp hnew, ← hu]
      exact .inr hmain
    · cases hnew

theorem Confined.register {σ : System Φ} (h : Confined σ) (s : TCPSession Φ) (id : TCPSessionID)
    (generator : IDGenerator 32) : Confined (σ.register s id generator) := by
  have hsame : Confined { σ with
      accepted := σ.accepted + 1
      idGenerator := generator
      sessions := Function.update σ.sessions σ.accepted s
      handlers := Function.update σ.handlers σ.accepted
        (TCPSessionHandler.new.init id (threadId s.ioThread))
      sessionHandlerMap := σ.sessionHandlerMap.add id σ.accepted } := h
  exact hsame.post fun hlogic => by cases hlogic

theorem Confined.step {σ σ' : System Φ} {a : Act Φ} (h : Confined σ) (hev : Event F σ a σ') :
    Confined σ' := by
  cases hev with
  | move t c d task rest r ht _ _ hmove =>
      exact (h.popped ht).onSession fun u task' => post_main_of_move hmove
  | opens t c id rest r ht _ hr =>
      apply (h.popped ht).onSession
      intro u task hpost
      rw [hr.effects] at hpost
      cases List.mem_singleton.mp hpost
  | posts t c d task rest messages s buffer ht _ _ => exact h.popped ht
  | plain t c task rest ht _ _ hcalls => exact hcalls.confined (h.popped ht)
  | deliver t c d id messages rest ht _ hcalls => exact hcalls.confined (h.popped ht)
  | deliverDirectly t c d rest ht _ hcalls => exact hcalls.confined (h.popped ht)
  | closed t c d id rest threadLoad ht _ hcalls => exact hcalls.confined (h.popped ht)
  | unknown t c id rest generator ht _ => exact h.popped ht
  | connect t u filter first id rest generator threadLoad accepting ht _ _ _ hcalls =>
      exact hcalls.confined ((h.popped ht).register _ id generator)
  | complete t c task s hs _ =>
      have hsame : Confined { σ with sessions := Function.update σ.sessions c s } := h
      apply hsame.post
      intro hlogic
      rw [Job.isLogic, Task.not_isLogic_of_isCompletion hs.isCompletion] at hlogic
      cases hlogic
  | accept t filter error =>
      have hsame : Confined { σ with accepting := none } := h
      exact hsame.post fun _ => rfl
  | refuse t u filter error rest ht => exact h.popped ht
  | logic hcalls => exact hcalls.confined h
  | tick clock => exact h

end System

/-! ## Clients -/

/-- The server and the clients of its manager. -/
structure Clients (Φ : Type) where
  server : System Φ
  /-- The sessions whose `async_connect` is outstanding. -/
  connecting : List (ThreadIx × Φ)
  /-- The `handle_async_connect` that are queued on each thread. -/
  connected : ThreadIx → List (Φ × ErrorCode)

namespace Clients

variable {Φ : Type} (F : MessageFilterInterface Φ)

/-- `TCPClient::handle_connect`, with the arguments of the session's constructor; its keep-alive
time is the default. If no id is left, `on_session_connected` throws. -/
def handleConnect (σ : System Φ) (ioThread : ThreadIx) (filter : Φ) (error : ErrorCode)
    (first : TCPSessionID) (script : Script) : Option (System Φ) :=
  if error ≠ .success then some σ
  else
    (σ.idGenerator.get first).map fun draw =>
      σ.onSessionConnected (.new ioThread filter 0) draw.1 draw.2 script

inductive Act (Φ : Type)
  /-- A step of the server. -/
  | server (a : System.Act Φ)
  /-- `TCPClient::async_connect` is called. -/
  | asyncConnect (filter : Φ)
  /-- The outstanding `async_connect` at this position completes. -/
  | connectDone (i : Nat) (error : ErrorCode)
  /-- Thread `t` runs `handle_async_connect`; `first` is the first id of the generator's pool. -/
  | handleAsyncConnect (t : ThreadIx) (first : TCPSessionID) (script : Script)
  /-- `TCPClient::connect` is called on the main thread. -/
  | connect (filter : Φ) (error : ErrorCode) (first : TCPSessionID) (script : Script)

def step (κ : Clients Φ) : Act Φ → Option (Clients Φ)
  | .server a => (System.step F κ.server a).map fun σ => { κ with server := σ }
  | .asyncConnect filter =>
    let t := System.getMinLoadThread κ.server.threadLoad
    some { κ with connecting := κ.connecting ++ [(t, filter)] }
  | .connectDone i error =>
    match κ.connecting[i]? with
    | none => none
    | some (t, filter) =>
      some { κ with
        connecting := κ.connecting.eraseIdx i
        connected := Function.update κ.connected t (κ.connected t ++ [(filter, error)]) }
  | .handleAsyncConnect t first script =>
    match κ.connected t with
    | [] => none
    | (filter, error) :: rest =>
      if κ.server.idGenerator.Offers first then
        (handleConnect κ.server t filter error first script).map fun σ =>
          { κ with server := σ, connected := Function.update κ.connected t rest }
      else none
  | .connect filter error first script =>
    if κ.server.idGenerator.Offers first then
      (handleConnect κ.server (System.getMinLoadThread κ.server.threadLoad) filter error first
        script).map fun σ => { κ with server := σ }
    else none

/-- A manager with a server that has just been constructed, and no client yet. -/
def start (threads keepAliveTime : Nat) (filter : Φ) : Clients Φ :=
  { server := .start threads keepAliveTime filter
    connecting := []
    connected := fun _ => [] }

/-- The thread that runs a step, unless it is a step of the system. -/
def executor : Act Φ → Option ThreadIx
  | .server (.run t _ _ _) => some t
  | .server (.keepAlive t _) => some t
  | .server (.logic _) => some mainThread
  | .server _ => none
  | .asyncConnect _ => some mainThread
  | .connectDone _ _ => none
  | .handleAsyncConnect t _ _ => some t
  | .connect _ _ _ _ => some mainThread

/-- The step is taken by a worker: it runs `handle_async_connect` for a connection that is made. -/
def ConnectsOnWorker (κ : Clients Φ) : Act Φ → Prop
  | .handleAsyncConnect t _ _ =>
    t ≠ mainThread ∧ ∃ filter rest, κ.connected t = (filter, .success) :: rest
  | _ => False

/-! ## Confinement -/

variable {F}

theorem confined_handleConnect {σ σ' : System Φ} (h : σ.Confined) {ioThread : ThreadIx} {filter : Φ}
    {error : ErrorCode} {first : TCPSessionID} {script : Script}
    (hconnect : handleConnect σ ioThread filter error first script = some σ') : σ'.Confined := by
  unfold handleConnect at hconnect
  split_ifs at hconnect
  · cases hconnect
    exact h
  · obtain ⟨⟨id, generator⟩, -, rfl⟩ := Option.map_eq_some_iff.mp hconnect
    obtain ⟨τ, hcalls, heq⟩ := System.onSessionConnected_eq σ (.new ioThread filter 0) id generator
      script
    dsimp only
    rw [heq]
    exact hcalls.confined (h.register _ id generator)

theorem confined_step {κ κ' : Clients Φ} {a : Act Φ} (h : κ.server.Confined)
    (hstep : step F κ a = some κ') : κ'.server.Confined := by
  cases a with
  | server a =>
      obtain ⟨σ, hσ, rfl⟩ := Option.map_eq_some_iff.mp hstep
      exact h.step (System.event_of_step hσ)
  | asyncConnect filter =>
      cases hstep
      exact h
  | connectDone i error =>
      unfold step at hstep
      dsimp only at hstep
      split at hstep
      · cases hstep
      · cases hstep
        exact h
  | handleAsyncConnect t first script =>
      unfold step at hstep
      dsimp only at hstep
      split at hstep
      · cases hstep
      · split_ifs at hstep
        obtain ⟨σ, hσ, rfl⟩ := Option.map_eq_some_iff.mp hstep
        exact confined_handleConnect h hσ
  | connect filter error first script =>
      unfold step at hstep
      dsimp only at hstep
      split_ifs at hstep
      obtain ⟨σ, hσ, rfl⟩ := Option.map_eq_some_iff.mp hstep
      exact confined_handleConnect h hσ

/-- A connection that is made draws an id. -/
theorem handleConnect_draws {σ σ' : System Φ} {ioThread : ThreadIx} {filter : Φ}
    {first : TCPSessionID} {script : Script} (hoffers : σ.idGenerator.Offers first)
    (h : handleConnect σ ioThread filter .success first script = some σ') :
    ¬ System.SameLogic σ σ' := by
  unfold handleConnect at h
  rw [if_neg (by decide)] at h
  obtain ⟨⟨id, generator⟩, hget, rfl⟩ := Option.map_eq_some_iff.mp h
  intro hsame
  have hgenerator : (σ.onSessionConnected (.new ioThread filter 0) id generator script).idGenerator =
      generator := by
    obtain ⟨τ, hcalls, heq⟩ := System.onSessionConnected_eq σ (.new ioThread filter 0) id generator
      script
    obtain ⟨_, _, rfl⟩ := hcalls.same
    rw [heq]
    rfl
  exact IDGenerator.get_ne (by decide) hoffers hget (hgenerator.symm.trans hsame.idGenerator)

/-- The server itself runs such code on the main thread only. -/
theorem server_on_main {σ σ' : System Φ} (h : σ.Confined) {a : System.Act Φ}
    (hstep : System.step F σ a = some σ') (hlogic : ¬ System.SameLogic σ σ') :
    executor (.server a) = some mainThread := by
  have hjob : ∀ {t scripts first filter job rest}, σ.tasks t = job :: rest → job.isLogic = true →
      executor (.server (.run t scripts first filter : System.Act Φ)) = some mainThread := by
    intro t scripts first filter job rest ht hjob
    rw [executor, h t job (by rw [ht]; exact List.mem_cons_self) hjob]
  -- a job that runs such code is in the queue of the main thread
  cases System.taken_of_step hstep with
  | task t c task rest scripts first filter ht hexec =>
      apply hjob ht
      by_contra hplain
      have hsame := System.sameLogic_exec (Bool.eq_false_iff.mpr hplain) hexec
      exact hlogic ⟨hsame.callbacks, hsame.sessionHandlerMap, hsame.idGenerator, hsame.threadLoad⟩
  | handleAccept t u filter nextFilter error rest scripts first ht _ _ => exact hjob ht rfl
  | logic script => rfl
  | _ => exact absurd ⟨fun _ => rfl, rfl, rfl, rfl⟩ hlogic

/-! ## Runs -/

/-- **Logic on the main thread.** In every reachable state: a step that runs a callback, or changes
the map, the generator or the loads, is a step of the main thread, except for exactly the steps in
which a worker runs `handle_async_connect` for a connection that is made. -/
theorem logic_on_main_iff {threads keepAliveTime : Nat} {filter : Φ} {κ κ' : Clients Φ} {a : Act Φ}
    (hrun : Transition.Reach (step F) (start threads keepAliveTime filter) κ)
    (hstep : step F κ a = some κ') :
    (¬ System.SameLogic κ.server κ'.server → executor a = some mainThread) ↔
      ¬ ConnectsOnWorker κ a := by
  have hconfined : κ.server.Confined :=
    hrun.invariant (fun h _ hstep => confined_step h hstep) (.start threads keepAliveTime filter)
  cases a with
  | server a =>
      obtain ⟨σ, hσ, rfl⟩ := Option.map_eq_some_iff.mp hstep
      exact ⟨fun _ h => h, fun _ hlogic => server_on_main hconfined hσ hlogic⟩
  | asyncConnect filter => exact ⟨fun _ h => h, fun _ _ => rfl⟩
  | connectDone i error =>
      unfold step at hstep
      dsimp only at hstep
      split at hstep <;> cases hstep
      exact ⟨fun _ h => h, fun _ hlogic => absurd (.refl _) hlogic⟩
  | handleAsyncConnect t first script =>
      unfold step at hstep
      dsimp only at hstep
      split at hstep
      · cases hstep
      · rename_i filter error rest hconnected
        split_ifs at hstep with hoffers
        obtain ⟨σ, hσ, rfl⟩ := Option.map_eq_some_iff.mp hstep
        constructor
        · rintro hmain ⟨hworker, filter', rest', hhead⟩
          cases hconnected.symm.trans hhead
          exact hworker (Option.some.inj (hmain (handleConnect_draws hoffers hσ)))
        · intro hno hlogic
          by_contra hworker
          apply hno
          refine ⟨fun hmain => hworker (by rw [executor, hmain]), filter, rest, ?_⟩
          -- a failed connection changes nothing
          rw [hconnected]
          by_contra herror
          unfold handleConnect at hσ
          rw [if_pos fun heq => herror (by rw [heq])] at hσ
          cases hσ
          exact hlogic (.refl _)
  | connect filter error first script => exact ⟨fun _ h => h, fun _ _ => rfl⟩

/-- A manager with a worker thread, a server and the default filter, after the labels of a list. -/
def ran (labels : List (Act MessageFilter)) : Option (Clients MessageFilter) :=
  Transition.exec (step (messageFilter .little .zeros)) (start 2 0 (.new 0)) labels

/-- What belongs to the main thread, of the first handler and the manager. -/
structure MainParts where
  callbacks : List Callback
  keys : List TCPSessionID
  next : TCPSessionID
  threadLoad : List Nat
  deriving DecidableEq

def parts (κ : Clients MessageFilter) : MainParts :=
  { callbacks := (κ.server.handlers 0).callbacks
    keys := κ.server.sessionHandlerMap.keys
    next := κ.server.idGenerator.next
    threadLoad := κ.server.threadLoad }

/-- The main thread accepts a connection. -/
theorem logic_on_main_iff_accept :
    ∃ κ κ', ran [.server (.acceptDone .success)] = some κ ∧
      step (messageFilter .little .zeros) κ (.server (.run 0 [] 0 (.new 0))) = some κ' ∧
      ((¬ System.SameLogic κ.server κ'.server →
          executor (.server (.run 0 [] 0 (.new 0)) : Act MessageFilter) = some mainThread) ↔
        ¬ ConnectsOnWorker κ (.server (.run 0 [] 0 (.new 0)))) := by
  obtain ⟨κ', hrun⟩ := Option.isSome_iff_exists.mp (show
    ((ran [.server (.acceptDone .success)]).bind fun κ =>
      step (messageFilter .little .zeros) κ (.server (.run 0 [] 0 (.new 0)))).isSome = true
    by decide +kernel)
  obtain ⟨κ, hκ, hstep⟩ := Option.bind_eq_some_iff.mp hrun
  exact ⟨κ, κ', hκ, hstep, logic_on_main_iff (Transition.reach_of_exec hκ) hstep⟩

/-- An asynchronous connection is made by the session's worker, which runs `on_connected` and
changes the map, the generator and the loads. -/
theorem async_connect_leaves_main :
    ∃ κ κ', ran [.asyncConnect (.new 0), .connectDone 0 .success] = some κ ∧
      step (messageFilter .little .zeros) κ (.handleAsyncConnect 1 0 []) = some κ' ∧
      (executor (.handleAsyncConnect 1 0 [] : Act MessageFilter) ≠ some mainThread ∧
        ¬ System.SameLogic κ.server κ'.server) ∧
      parts κ = ⟨[], [], 1, [0, 0]⟩ ∧ parts κ' = ⟨[.onConnected], [1], 2, [0, 1]⟩ := by
  obtain ⟨κ, hκ, hrest⟩ := Option.bind_eq_some_iff.mp (show
    ((ran [.asyncConnect (.new 0), .connectDone 0 .success]).bind fun κ =>
      (step (messageFilter .little .zeros) κ (.handleAsyncConnect 1 0 [])).map fun κ' =>
        (parts κ, parts κ')) = some (⟨[], [], 1, [0, 0]⟩, ⟨[.onConnected], [1], 2, [0, 1]⟩)
    by decide +kernel)
  obtain ⟨κ', hκ', hparts⟩ := Option.map_eq_some_iff.mp hrest
  obtain ⟨hbefore, hafter⟩ := Prod.mk.inj hparts
  refine ⟨κ, κ', hκ, hκ', ⟨by decide, fun hsame => ?_⟩, hbefore, hafter⟩
  have hkeys : (parts κ').keys = (parts κ).keys := congrArg AList.keys hsame.sessionHandlerMap
  rw [hbefore, hafter] at hkeys
  cases hkeys

end Clients
end EddyServer
