import Mathlib
import EddyServer.Library.Transition
import EddyServer.TCPSession.Basic
import EddyServer.TCPSessionHandler

/-!
# One connection

A `Link` is one session with the handler registered for it, as they run between the session's own
thread and the main thread: the two `io_service` queues restricted to the tasks of this connection,
the entry in the thread's `TCPSessionQueue` and the entry in the manager's `session_handler_map_`.
The session may live on a worker or on the main thread itself; there is one definition for both.

A step runs the task at the head of a queue, or is something the surroundings do: an outstanding
operation completes, application code on the main thread calls `send` or `close`, the keep-alive
check visits the session, time passes. Tasks are atomic. Application code that runs inside a
callback is part of the step (its calls are the label's script); since a callback's calls only
append to queues, calls that interleave differently with another thread appear as `logic` steps.

A step that ends in an exception has no successor: the exception leaves `io_service::run`.
-/

namespace EddyServer

/-- `IOServiceThreadManager::get_thread`: the index of the thread with this id. -/
def getThread (threads : Nat) (id : IOThreadID) : Option ThreadIx :=
  (List.range threads).find? fun t => threadId t == id

theorem getThread_threadId {threads : Nat} {t : ThreadIx} (h : t < threads) :
    getThread threads (threadId t) = some t := by
  unfold getThread
  rw [List.find?_range_eq_some]
  exact ⟨beq_self_eq_true _, by simpa using h, fun j hj => by simpa using Nat.ne_of_lt hj⟩

structure Link (Φ : Type) where
  conn : Conn
  /-- The number of threads of the manager. -/
  threads : Nat
  clock : Nat
  session : TCPSession Φ
  handler : TCPSessionHandler
  /-- `on_session_connected` has run. -/
  registered : Bool
  /-- The id drawn for the session. -/
  id : TCPSessionID
  /-- The session is in the `TCPSessionQueue` of its thread, under its id. -/
  queued : Bool
  /-- The handler is in `session_handler_map_`, under the id of the session. -/
  mapped : Bool
  /-- The `io_service` queue of each thread. -/
  tasks : ThreadIx → List Task

namespace Link

variable {Φ : Type} (F : MessageFilterInterface Φ)

/-! ## What the functions of the objects do to the link -/

/-- `post` on the `io_service` of thread `t`. -/
def post (ℓ : Link Φ) (t : ThreadIx) (task : Task) : Link Φ :=
  { ℓ with tasks := Function.update ℓ.tasks t (ℓ.tasks t ++ [task]) }

def effect (ℓ : Link Φ) : Effect → Link Φ
  | .post t task => ℓ.post t task
  | .queueAdd => { ℓ with queued := true }
  | .queueRemove => { ℓ with queued := false }

/-- The session has run a function. -/
def onSession (ℓ : Link Φ) (r : TCPSession Φ × List Effect) : Link Φ :=
  r.2.foldl effect { ℓ with session := r.1 }

/-- The handler has run a function. -/
def onHandler (ℓ : Link Φ) (r : TCPSessionHandler × List Effect) : Link Φ :=
  r.2.foldl effect { ℓ with handler := r.1 }

/-- `get_session_queue().get(get_id())` on the session's own thread. -/
def found (ℓ : Link Φ) : Option Conn := if ℓ.queued then some ℓ.conn else none

/-- Whether `get_session_queue().get(id)` on thread `t` finds the session. -/
def inQueue (ℓ : Link Φ) (t : ThreadIx) (id : TCPSessionID) : Bool :=
  ℓ.queued && t == ℓ.session.ioThread && id == ℓ.session.sessionId

/-- Whether `get_session_handler(id)` finds the handler. -/
def inMap (ℓ : Link Φ) (id : TCPSessionID) : Bool := ℓ.mapped && id == ℓ.id

/-- Application code on the main thread makes one call. -/
def call (ℓ : Link Φ) (c : Call) : Link Φ :=
  ℓ.onHandler (ℓ.handler.call (getThread ℓ.threads) c)

/-- Application code on the main thread makes the calls of a script. -/
def runScript (ℓ : Link Φ) (script : List Call) : Link Φ := script.foldl call ℓ

/-- The handler receives a callback, whose code makes the calls of a script. -/
def callback (ℓ : Link Φ) (cb : Callback) (script : List Call) : Link Φ :=
  runScript
    { ℓ with handler := { ℓ.handler with callbacks := ℓ.handler.callbacks ++ [cb] } } script

/-- `on_message` for every message of a batch, each with its script. -/
def deliver (ℓ : Link Φ) : List NetMessage → List (List Call) → Link Φ
  | [], _ => ℓ
  | m :: messages, scripts =>
    (ℓ.callback (.onMessage ℓ.conn m) (scripts.headD [])).deliver messages scripts.tail

/-! ## Running a task -/

/-- `session_stuff::SendMessageListDirectly`. The list is cleared only if there is a handler. -/
def sessionSendMessageListDirectly (ℓ : Link Φ) (scripts : List (List Call)) : Link Φ :=
  if ℓ.inMap ℓ.session.sessionId then
    let ℓ := ℓ.deliver ℓ.session.messagesReceived scripts
    { ℓ with session := { ℓ.session with messagesReceived := [] } }
  else ℓ

/-- `session_stuff::SendMessageListToHandler`. -/
def sendMessageListToHandler (ℓ : Link Φ) (id : TCPSessionID) (messages : List NetMessage)
    (scripts : List (List Call)) : Link Φ :=
  if ℓ.inMap id then ℓ.deliver messages scripts else ℓ

/-- `IOServiceThreadManager::on_session_closed`, as far as this connection can tell: the callback,
`dispose`, the removal from the map. -/
def onSessionClosed (ℓ : Link Φ) (id : TCPSessionID) (script : List Call) : Link Φ :=
  if ℓ.inMap id then
    -- `on_closed` still sees the handler registered.
    let ℓ := ℓ.callback (.onClosed ℓ.conn) script
    { ℓ with handler := ℓ.handler.dispose, mapped := false }
  else ℓ

/-- `session_handler_stuff::SendMessageListToSession`, run by thread `t`. -/
def sendMessageListToSession (ℓ : Link Φ) (t : ThreadIx) (id : TCPSessionID)
    (messages : List NetMessage) : Option (Link Φ) :=
  -- A session that has left its queue gets nothing; the batch is lost.
  if ℓ.inQueue t id then
    (ℓ.session.postMessageList F messages).map fun s => { ℓ with session := s }
  else some ℓ

/-- `session_handler_stuff::SendMessageListDirectly`. -/
def handlerSendMessageListDirectly (ℓ : Link Φ) : Option (Link Φ) :=
  match getThread ℓ.threads ℓ.handler.threadId with
  | none => some ℓ
  | some t =>
    if ℓ.inQueue t ℓ.handler.sessionId then
      (ℓ.session.postMessageList F ℓ.handler.messagesToBeSent).map fun s =>
        { ℓ with session := s, handler := { ℓ.handler with messagesToBeSent := [] } }
    -- Not under that id, which is 0 after `dispose`: the messages stay with the handler.
    else some ℓ

/-- `session_handler_stuff::CloseSession`, run by thread `t`. -/
def closeSession (ℓ : Link Φ) (t : ThreadIx) (id : TCPSessionID) : Link Φ :=
  if ℓ.inQueue t id then ℓ.onSession (ℓ.session.close .closeSession ℓ.found) else ℓ

/-- Thread `t` runs a task that it has taken from its queue. -/
def exec (ℓ : Link Φ) (t : ThreadIx) (scripts : List (List Call)) : Task → Option (Link Φ)
  | .init id => some (ℓ.onSession (ℓ.session.init F ℓ.clock id))
  | .handleRead error data => some (ℓ.onSession (ℓ.session.handleRead F ℓ.clock ℓ.found error data))
  | .hanldeWrite error => some (ℓ.onSession (ℓ.session.hanldeWrite ℓ.found error))
  | .handleSafeClose error data => some (ℓ.onSession (ℓ.session.handleSafeClose error data))
  | .closeTimer error =>
    (ℓ.session.closeTimerExpired error).map fun s => { ℓ with session := s }
  | .close => some (ℓ.onSession (ℓ.session.close .keepAlive ℓ.found))
  | .sessionPackMessageList => some (ℓ.onSession ℓ.session.packMessageList)
  | .sessionSendMessageListDirectly => some (ℓ.sessionSendMessageListDirectly scripts)
  | .sendMessageListToHandler id messages => some (ℓ.sendMessageListToHandler id messages scripts)
  | .onSessionClosed id => some (ℓ.onSessionClosed id (scripts.headD []))
  | .handlerPackMessageList =>
    some (ℓ.onHandler (ℓ.handler.packMessageList (getThread ℓ.threads)))
  | .handlerSendMessageListDirectly => ℓ.handlerSendMessageListDirectly F
  | .sendMessageListToSession id messages => ℓ.sendMessageListToSession F t id messages
  | .closeSession id => some (ℓ.closeSession t id)

/-! ## Steps -/

/-- `on_session_connected`, with the id the generator has drawn. -/
def connect (ℓ : Link Φ) (id : TCPSessionID) (script : List Call) : Link Φ :=
  let ℓ := { ℓ with
    registered := true
    id := id
    mapped := true
    handler := ℓ.handler.init id (threadId ℓ.session.ioThread) }
  -- `init` is posted before `on_connected` can post anything for the session.
  (ℓ.post ℓ.session.ioThread (.init id)).callback .onConnected script

inductive Act
  /-- `on_session_connected` draws the id and runs the script in `on_connected`. -/
  | connect (id : TCPSessionID) (script : List Call)
  /-- A thread runs the task at the head of its queue. -/
  | run (t : ThreadIx) (scripts : List (List Call))
  /-- The outstanding read at this position completes. -/
  | readDone (i : Nat) (error : ErrorCode) (data : List UInt8)
  /-- The outstanding `async_write` completes. -/
  | writeDone (error : ErrorCode)
  /-- `close_timer_` expires. -/
  | timerDone
  /-- `IOServiceThread::check_keep_alive` visits the session. -/
  | keepAlive
  /-- Other code on the main thread calls the handler. -/
  | logic (script : List Call)
  | tick (nanoseconds : Nat)

def step (ℓ : Link Φ) : Act → Option (Link Φ)
  | .connect id script =>
    -- An id is drawn once, and ids start at 1.
    if ℓ.registered = true ∨ id = 0 then none else some (ℓ.connect id script)
  | .run t scripts =>
    match ℓ.tasks t with
    | [] => none
    | task :: rest => exec F { ℓ with tasks := Function.update ℓ.tasks t rest } t scripts task
  | .readDone i error data =>
    match ℓ.session.socket.reads[i]? with
    | none => none
    | some op =>
      if op.allows error data then
        let k := { ℓ.session.socket with reads := ℓ.session.socket.reads.eraseIdx i }
        some (({ ℓ with session := { ℓ.session with socket := k } } : Link Φ).post
          ℓ.session.ioThread (op.completion error data))
      else none
  | .writeDone error =>
    match ℓ.session.socket.writing with
    | [] => none
    | _ :: writing =>
      let k := { ℓ.session.socket with writing := writing }
      some (({ ℓ with session := { ℓ.session with socket := k } } : Link Φ).post
        ℓ.session.ioThread (.hanldeWrite error))
  | .timerDone =>
    if ℓ.session.closeTimer = .waiting then
      some (({ ℓ with session := { ℓ.session with closeTimer := .idle } } : Link Φ).post
        ℓ.session.ioThread (.closeTimer .success))
    else none
  | .keepAlive =>
    some (if ℓ.queued && !ℓ.session.checkKeepAlive ℓ.clock
      then ℓ.post ℓ.session.ioThread .close else ℓ)
  | .logic script => some (ℓ.runScript script)
  | .tick nanoseconds => some { ℓ with clock := ℓ.clock + nanoseconds }

/-- An accepted session that has not been registered yet. -/
def start (conn : Conn) (threads : Nat) (ioThread : ThreadIx) (filter : Φ) (keepAliveTime : Nat) :
    Link Φ :=
  { conn := conn
    threads := threads
    clock := 0
    session := .new ioThread filter keepAliveTime
    handler := .new
    registered := false
    id := 0
    queued := false
    mapped := false
    tasks := fun _ => [] }

/-- A session with the default filter on thread `ioThread`, after the labels of a list. -/
def ran (threads : Nat) (ioThread : ThreadIx) (labels : List Act) : Option (Link MessageFilter) :=
  Transition.exec (step (messageFilter .little .zeros))
    (start 0 threads ioThread (.new 0) 0) labels

end Link
end EddyServer
