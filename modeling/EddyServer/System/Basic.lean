import EddyServer.IDGenerator
import EddyServer.Link.Basic

/-!
# The server

All connections of a server between the threads of its manager: the `io_service` queue and the
`TCPSessionQueue` of every thread, `session_handler_map_`, the loads and the id generator of the
manager, and the acceptor, which runs on the main thread.

A connection is numbered when it is accepted. The session that waits in `async_accept` has no number
yet; it is the thread and the filter its constructor was given. Every queued task carries the number
of the connection that posted it, but a task that carries only a session id acts on whatever it
finds under the id: the numbers are read by tasks that hold a pointer, and are otherwise a record.

Steps, labels and the atomicity of tasks are those of a single connection.
-/

namespace EddyServer

/-- A posted function object. -/
inductive Job (Φ : Type)
  /-- A task posted by a connection. -/
  | on (conn : Conn) (task : Task)
  /-- `TCPServer::handle_accept`, with the arguments of the session's constructor. -/
  | handleAccept (ioThread : ThreadIx) (filter : Φ) (error : ErrorCode)

/-- The calls that application code makes in one callback. -/
abbrev Script := List (Conn × Call)

structure System (Φ : Type) where
  threads : Nat
  clock : Nat
  keepAliveTime : Nat
  /-- The number of connections that have been accepted. -/
  accepted : Nat
  sessions : Conn → TCPSession Φ
  handlers : Conn → TCPSessionHandler
  tasks : ThreadIx → List (Job Φ)
  sessionQueue : ThreadIx → Table TCPSessionID Conn
  sessionHandlerMap : Table TCPSessionID Conn
  threadLoad : List Nat
  idGenerator : IDGenerator 32
  /-- The session that waits in `async_accept`. -/
  accepting : Option (ThreadIx × Φ)

namespace System

variable {Φ : Type} (F : MessageFilterInterface Φ)

/-! ## What the functions of the objects do to the server -/

/-- `post` on the `io_service` of thread `t`. -/
def post (σ : System Φ) (t : ThreadIx) (job : Job Φ) : System Φ :=
  { σ with tasks := Function.update σ.tasks t (σ.tasks t ++ [job]) }

/-- An effect of a function of connection `c`. -/
def effect (c : Conn) (σ : System Φ) : Effect → System Φ
  | .post t task => σ.post t (.on c task)
  -- The queue is that of the session's own thread, whatever thread has called.
  | .queueAdd =>
    let t := (σ.sessions c).ioThread
    { σ with
      sessionQueue := Function.update σ.sessionQueue t
        ((σ.sessionQueue t).add (σ.sessions c).sessionId c) }
  | .queueRemove =>
    let t := (σ.sessions c).ioThread
    { σ with
      sessionQueue := Function.update σ.sessionQueue t
        ((σ.sessionQueue t).erase (σ.sessions c).sessionId) }

/-- Session `c` has run a function. -/
def onSession (σ : System Φ) (c : Conn) (r : TCPSession Φ × List Effect) : System Φ :=
  r.2.foldl (effect c) { σ with sessions := Function.update σ.sessions c r.1 }

/-- Handler `c` has run a function. -/
def onHandler (σ : System Φ) (c : Conn) (r : TCPSessionHandler × List Effect) : System Φ :=
  r.2.foldl (effect c) { σ with handlers := Function.update σ.handlers c r.1 }

/-- `get_session_queue().get(id)` on thread `t`. -/
def getSession (σ : System Φ) (t : ThreadIx) (id : TCPSessionID) : Option Conn :=
  (σ.sessionQueue t).find id

/-- `get_session_queue().get(get_id())` on the thread of session `c`. -/
def found (σ : System Φ) (c : Conn) : Option Conn :=
  σ.getSession (σ.sessions c).ioThread (σ.sessions c).sessionId

/-- `get_session_handler(id)`. -/
def getSessionHandler (σ : System Φ) (id : TCPSessionID) : Option Conn :=
  σ.sessionHandlerMap.find id

/-- Application code on the main thread calls a handler. -/
def call (σ : System Φ) (c : Conn × Call) : System Φ :=
  σ.onHandler c.1 ((σ.handlers c.1).call (getThread σ.threads) c.2)

def runScript (σ : System Φ) (script : Script) : System Φ := script.foldl call σ

/-- Handler `h` receives a callback, whose code makes the calls of a script. -/
def callback (σ : System Φ) (h : Conn) (cb : Callback) (script : Script) : System Φ :=
  runScript
    { σ with
      handlers := Function.update σ.handlers h
        { σ.handlers h with callbacks := (σ.handlers h).callbacks ++ [cb] } } script

/-- `on_message` of handler `h` for every message of a batch of connection `c`. -/
def deliver (σ : System Φ) (h c : Conn) : List NetMessage → List Script → System Φ
  | [], _ => σ
  | m :: messages, scripts =>
    (σ.callback h (.onMessage c m) (scripts.headD [])).deliver h c messages scripts.tail

/-! ## Running a task -/

/-- `session_stuff::SendMessageListDirectly`. -/
def sessionSendMessageListDirectly (σ : System Φ) (c : Conn) (scripts : List Script) : System Φ :=
  match σ.getSessionHandler (σ.sessions c).sessionId with
  | none => σ
  | some h =>
    -- The list is cleared after the last callback, and only if there is a handler.
    let σ := σ.deliver h c (σ.sessions c).messagesReceived scripts
    { σ with
      sessions := Function.update σ.sessions c { σ.sessions c with messagesReceived := [] } }

/-- `session_stuff::SendMessageListToHandler`. -/
def sendMessageListToHandler (σ : System Φ) (c : Conn) (id : TCPSessionID)
    (messages : List NetMessage) (scripts : List Script) : System Φ :=
  match σ.getSessionHandler id with
  | none => σ
  | some h => σ.deliver h c messages scripts

/-- `++thread_load_[tid - 1]` and `--thread_load_[tid - 1]`, if there is such a thread. -/
def changeLoad (σ : System Φ) (tid : IOThreadID) (f : Nat → Nat) : System Φ :=
  if tid > 0 then { σ with threadLoad := σ.threadLoad.modify (tid - 1) f } else σ

/-- `dispose` of handler `h`, which leaves `session_handler_map_`. -/
def unregister (σ : System Φ) (h : Conn) (id : TCPSessionID) : System Φ :=
  { σ with
    handlers := Function.update σ.handlers h (σ.handlers h).dispose
    sessionHandlerMap := σ.sessionHandlerMap.erase id }

/-- `IOServiceThreadManager::on_session_closed`, posted by connection `c`. -/
def onSessionClosed (σ : System Φ) (c : Conn) (id : TCPSessionID) (script : Script) : System Φ :=
  let σ :=
    match σ.getSessionHandler id with
    | none => σ
    | some h =>
      ((σ.callback h (.onClosed c) script).unregister h id).changeLoad (σ.handlers h).threadId
        fun load => if load > 0 then load - 1 else load
  -- The id goes back also when no handler is found under it.
  if id = 0 then σ else { σ with idGenerator := σ.idGenerator.put id }

/-- Session `d` is given a batch, or `reserve` throws. -/
def postMessageList (σ : System Φ) (d : Conn) (messages : List NetMessage) : Option (System Φ) :=
  ((σ.sessions d).postMessageList F messages).map fun s =>
    { σ with sessions := Function.update σ.sessions d s }

/-- The session that a task of a handler finds, when thread `t` runs it. -/
def target (σ : System Φ) (t : ThreadIx) (c : Conn) : Task → Option Conn
  | .sendMessageListToSession id _ => σ.getSession t id
  | .closeSession id => σ.getSession t id
  -- The handler may name another thread than the one that runs the task.
  | .handlerSendMessageListDirectly =>
    (getThread σ.threads (σ.handlers c).threadId).bind fun u =>
      σ.getSession u (σ.handlers c).sessionId
  | _ => none

/-- `session_handler_stuff::SendMessageListDirectly`. -/
def handlerSendMessageListDirectly (σ : System Φ) (t : ThreadIx) (c : Conn) : Option (System Φ) :=
  match σ.target t c .handlerSendMessageListDirectly with
  | none => some σ
  | some d =>
    (σ.postMessageList F d (σ.handlers c).messagesToBeSent).map fun σ =>
      { σ with
        handlers := Function.update σ.handlers c { σ.handlers c with messagesToBeSent := [] } }

/-- `session_handler_stuff::SendMessageListToSession`, run by thread `t`. -/
def sendMessageListToSession (σ : System Φ) (t : ThreadIx) (c : Conn) (id : TCPSessionID)
    (messages : List NetMessage) : Option (System Φ) :=
  match σ.target t c (.sendMessageListToSession id messages) with
  | none => some σ
  | some d => σ.postMessageList F d messages

/-- `session_handler_stuff::CloseSession`, run by thread `t`. -/
def closeSession (σ : System Φ) (t : ThreadIx) (c : Conn) (id : TCPSessionID) : System Φ :=
  match σ.target t c (.closeSession id) with
  | none => σ
  | some d => σ.onSession d ((σ.sessions d).close .closeSession (σ.found d))

/-- Thread `t` runs a task of connection `c` that it has taken from its queue. -/
def exec (σ : System Φ) (t : ThreadIx) (c : Conn) (scripts : List Script) :
    Task → Option (System Φ)
  | .init id => some (σ.onSession c ((σ.sessions c).init F σ.clock id))
  | .handleRead error data =>
    some (σ.onSession c ((σ.sessions c).handleRead F σ.clock (σ.found c) error data))
  | .hanldeWrite error => some (σ.onSession c ((σ.sessions c).hanldeWrite (σ.found c) error))
  | .handleSafeClose error data => some (σ.onSession c ((σ.sessions c).handleSafeClose error data))
  | .closeTimer error =>
    ((σ.sessions c).closeTimerExpired error).map fun s => σ.onSession c (s, [])
  | .close => some (σ.onSession c ((σ.sessions c).close .keepAlive (σ.found c)))
  | .sessionPackMessageList => some (σ.onSession c (σ.sessions c).packMessageList)
  | .sessionSendMessageListDirectly => some (σ.sessionSendMessageListDirectly c scripts)
  | .sendMessageListToHandler id messages => some (σ.sendMessageListToHandler c id messages scripts)
  | .onSessionClosed id => some (σ.onSessionClosed c id (scripts.headD []))
  | .handlerPackMessageList =>
    some (σ.onHandler c ((σ.handlers c).packMessageList (getThread σ.threads)))
  | .handlerSendMessageListDirectly => σ.handlerSendMessageListDirectly F t c
  | .sendMessageListToSession id messages => σ.sendMessageListToSession F t c id messages
  | .closeSession id => some (σ.closeSession t c id)

/-! ## Accepting connections -/

/-- `get_min_load_thread`. The loop never lowers `min_load_value`, so the last worker whose load is
below the initial value is taken. -/
def getMinLoadThread (threadLoad : List Nat) : ThreadIx :=
  if threadLoad.length = 1 then mainThread
  else
    (List.range threadLoad.length).foldl (fun index i =>
      -- `min_load_value` starts at the greatest `size_t`.
      if i ≠ mainThread ∧ threadLoad.getD i 0 < 2 ^ 64 - 1 then i else index) mainThread

/-- `on_session_connected`, up to `on_connected`, for a new connection: the generator has drawn `id`
and become `generator`. -/
def register (σ : System Φ) (session : TCPSession Φ) (id : TCPSessionID)
    (generator : IDGenerator 32) : System Φ :=
  let c := σ.accepted
  let σ := { σ with
    accepted := σ.accepted + 1
    idGenerator := generator
    sessions := Function.update σ.sessions c session
    handlers := Function.update σ.handlers c
      (TCPSessionHandler.new.init id (threadId session.ioThread))
    sessionHandlerMap := σ.sessionHandlerMap.add id c }
  σ.post session.ioThread (.on c (.init id))

/-- `on_session_connected`, which runs a script in `on_connected`. -/
def onSessionConnected (σ : System Φ) (session : TCPSession Φ) (id : TCPSessionID)
    (generator : IDGenerator 32) (script : Script) : System Φ :=
  let c := σ.accepted
  let σ := (σ.register session id generator).callback c .onConnected script
  σ.changeLoad (σ.handlers c).threadId (· + 1)

/-- `handle_accept`. If no id is left, `on_session_connected` throws. -/
def handleAccept (σ : System Φ) (ioThread : ThreadIx) (filter : Φ) (error : ErrorCode)
    (first : TCPSessionID) (script : Script) (nextFilter : Φ) : Option (System Φ) :=
  -- Nothing is accepted from then on: no other `async_accept` is started.
  if error ≠ .success then some σ
  else
    (σ.idGenerator.get first).map fun draw =>
      let session := TCPSession.new ioThread filter σ.keepAliveTime
      -- The load of the new session counts before the next thread is chosen.
      let σ := σ.onSessionConnected session draw.1 draw.2 script
      { σ with accepting := some (getMinLoadThread σ.threadLoad, nextFilter) }

/-! ## Steps -/

inductive Act (Φ : Type)
  /-- A thread runs the task at the head of its queue. If this accepts a connection, `first` is the
  first id of the generator's pool, and `filter` is the filter of the next session. -/
  | run (t : ThreadIx) (scripts : List Script) (first : TCPSessionID) (filter : Φ)
  /-- `async_accept` completes. -/
  | acceptDone (error : ErrorCode)
  /-- The outstanding read at this position completes. -/
  | readDone (c : Conn) (i : Nat) (error : ErrorCode) (data : List UInt8)
  /-- The outstanding `async_write` completes. -/
  | writeDone (c : Conn) (error : ErrorCode)
  /-- `close_timer_` expires. -/
  | timerDone (c : Conn)
  /-- `IOServiceThread::check_keep_alive` of thread `t` visits an entry of the queue. -/
  | keepAlive (t : ThreadIx) (id : TCPSessionID)
  /-- Other code on the main thread calls handlers. -/
  | logic (script : Script)
  | tick (nanoseconds : Nat)

/-- An operation of session `c` has completed: the session has become `s`, and its thread is given
the completion. -/
def complete (σ : System Φ) (c : Conn) (s : TCPSession Φ) (task : Task) : System Φ :=
  ({ σ with sessions := Function.update σ.sessions c s } : System Φ).post s.ioThread (.on c task)

def step (σ : System Φ) : Act Φ → Option (System Φ)
  | .run t scripts first filter =>
    match σ.tasks t with
    | [] => none
    | .on c task :: rest => exec F { σ with tasks := Function.update σ.tasks t rest } t c scripts task
    | .handleAccept u filter' error :: rest =>
      if σ.idGenerator.Offers first then
        handleAccept { σ with tasks := Function.update σ.tasks t rest } u filter' error first
          (scripts.headD []) filter
      else none
  | .acceptDone error =>
    match σ.accepting with
    | none => none
    | some (t, filter) =>
      some (({ σ with accepting := none } : System Φ).post mainThread (.handleAccept t filter error))
  | .readDone c i error data =>
    let s := σ.sessions c
    match s.socket.reads[i]? with
    | none => none
    | some op =>
      if op.allows error data then
        let k := { s.socket with reads := s.socket.reads.eraseIdx i }
        some (σ.complete c { s with socket := k } (op.completion error data))
      else none
  | .writeDone c error =>
    let s := σ.sessions c
    match s.socket.writing with
    | [] => none
    | _ :: writing =>
      let k := { s.socket with writing := writing }
      some (σ.complete c { s with socket := k } (.hanldeWrite error))
  | .timerDone c =>
    let s := σ.sessions c
    if s.closeTimer = .waiting then
      some (σ.complete c { s with closeTimer := .idle } (.closeTimer .success))
    else none
  -- The check posts `close`; the task finds out later whether the session is still there.
  | .keepAlive t id =>
    match σ.getSession t id with
    | none => none
    | some c =>
      some (if (σ.sessions c).checkKeepAlive σ.clock then σ else σ.post t (.on c .close))
  | .logic script => some (σ.runScript script)
  | .tick nanoseconds => some { σ with clock := σ.clock + nanoseconds }

/-- A server with `threads` threads that has just been constructed; `filter` is the filter of its
first session. -/
def start (threads keepAliveTime : Nat) (filter : Φ) : System Φ :=
  { threads := threads
    clock := 0
    keepAliveTime := keepAliveTime
    accepted := 0
    sessions := fun _ => .new mainThread filter keepAliveTime
    handlers := fun _ => .new
    tasks := fun _ => []
    sessionQueue := fun _ => ∅
    sessionHandlerMap := ∅
    threadLoad := List.replicate threads 0
    idGenerator := .new 1
    accepting := some (getMinLoadThread (List.replicate threads 0), filter) }

section
variable (threads keepAliveTime : Nat) (filter : Φ)

@[simp] theorem getSessionHandler_start (k : TCPSessionID) :
    (start threads keepAliveTime filter).getSessionHandler k = none := Table.find_empty k

@[simp] theorem getSession_start (t : ThreadIx) (k : TCPSessionID) :
    (start threads keepAliveTime filter).getSession t k = none := Table.find_empty k

@[simp] theorem tasks_start (t : ThreadIx) : (start threads keepAliveTime filter).tasks t = [] := rfl

end

/-- A server with a worker thread and the default filter, after the labels of a list. -/
def ran (labels : List (Act MessageFilter)) : Option (System MessageFilter) :=
  Transition.exec (step (messageFilter .little .zeros)) (start 2 0 (.new 0))
    labels

end System
end EddyServer
