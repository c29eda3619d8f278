import EddyServer.Library.Transition
import EddyServer.TCPSession.Moves

/-!
# A session on its own

A `Solo` is one session among surroundings that may do anything with it: outstanding operations
complete with any result they allow, `post_message_list` and `close` are called at any time, the
received messages are taken away at any time. Nobody else has the session's id, so that the session
finds itself in its queue for as long as it is there.

An operation that has completed is not over: its handler waits in the `io_service` queue of the
session's thread and runs when it is the first. What the session posts besides is written down in
`posted`; the calls that come of it are the surroundings' anyway.
-/

namespace EddyServer

structure Solo (Φ : Type) where
  conn : Conn
  clock : Nat
  session : TCPSession Φ
  /-- The session is in the `TCPSessionQueue` of its thread. -/
  queued : Bool
  /-- The completion handlers that wait in the queue of the session's thread. -/
  completions : List Task
  /-- The other tasks that the session has posted, oldest first. -/
  posted : List Task
  /-- What the filter makes of the batches that are posted to the open session. -/
  encoded : List UInt8

/-- The bytes that the filter makes of a batch, if it is asked for them. -/
def TCPSession.encoding {Φ : Type} (F : MessageFilterInterface Φ) (s : TCPSession Φ)
    (messages : List NetMessage) : List UInt8 :=
  if s.closed || messages.isEmpty then []
  else (F.write (F.bytesWannaWrite s.msgFilter messages).2 messages s.bufferToBeSent).appended

namespace Solo

variable {Φ : Type} (F : MessageFilterInterface Φ)

/-! ## Running the functions of the session -/

/-- The cancelled wait of `close_timer_` completes in the queue of the session's thread. -/
def effect (σ : Solo Φ) : Effect → Solo Φ
  | .post _ (.closeTimer error) =>
    { σ with completions := σ.completions ++ [.closeTimer error] }
  | .post _ task => { σ with posted := σ.posted ++ [task] }
  | .queueAdd => { σ with queued := true }
  | .queueRemove => { σ with queued := false }

/-- The session has run a function. -/
def onSession (σ : Solo Φ) (r : TCPSession Φ × List Effect) : Solo Φ :=
  r.2.foldl effect { σ with session := r.1 }

/-- `get_session_queue().get(get_id())`. -/
def found (σ : Solo Φ) : Option Conn := if σ.queued then some σ.conn else none

/-- The thread runs a completion handler that it has taken from its queue. -/
def exec (σ : Solo Φ) : Task → Option (Solo Φ)
  | .handleRead error data => some (σ.onSession (σ.session.handleRead F σ.clock σ.found error data))
  | .hanldeWrite error => some (σ.onSession (σ.session.hanldeWrite σ.found error))
  | .handleSafeClose error data => some (σ.onSession (σ.session.handleSafeClose error data))
  | .closeTimer error =>
    (σ.session.closeTimerExpired error).map fun s => { σ with session := s }
  | _ => none

/-! ## Steps -/

inductive Act
  /-- The completion handler at the head of the queue runs. -/
  | run
  /-- The outstanding read at this position completes. -/
  | readDone (i : Nat) (error : ErrorCode) (data : List UInt8)
  /-- The outstanding `async_write` completes. -/
  | writeDone (error : ErrorCode)
  /-- `close_timer_` expires. -/
  | timerDone
  /-- `post_message_list` is called. -/
  | post (messages : List NetMessage)
  /-- `close` is called. -/
  | close
  /-- `close` is called because of the keep-alive check. -/
  | keepAlive
  /-- `PackMessageList` runs. -/
  | pack
  /-- `SendMessageListDirectly` has passed the received messages on. -/
  | deliver
  | tick (nanoseconds : Nat)

/-- An operation has completed: the session has become `s`, and `task` is queued. -/
def complete (σ : Solo Φ) (s : TCPSession Φ) (task : Task) : Solo Φ :=
  { σ with session := s, completions := σ.completions ++ [task] }

def step (σ : Solo Φ) : Act → Option (Solo Φ)
  | .run =>
    match σ.completions with
    | [] => none
    | task :: rest => exec F { σ with completions := rest } task
  | .readDone i error data =>
    let s := σ.session
    match s.socket.reads[i]? with
    | none => none
    | some op =>
      if op.allows error data then
        let k := { s.socket with reads := s.socket.reads.eraseIdx i }
        some (σ.complete { s with socket := k } (op.completion error data))
      else none
  | .writeDone error =>
    let s := σ.session
    match s.socket.writing with
    | [] => none
    | _ :: writing =>
      let k := { s.socket with writing := writing }
      some (σ.complete { s with socket := k } (.hanldeWrite error))
  | .timerDone =>
    let s := σ.session
    if s.closeTimer = .waiting then
      some (σ.complete { s with closeTimer := .idle } (.closeTimer .success))
    else none
  | .post messages =>
    (σ.session.postMessageList F messages).map fun s =>
      { σ with session := s, encoded := σ.encoded ++ σ.session.encoding F messages }
  | .close => some (σ.onSession (σ.session.close .closeSession σ.found))
  | .keepAlive => some (σ.onSession (σ.session.close .keepAlive σ.found))
  | .pack => some (σ.onSession σ.session.packMessageList)
  | .deliver => some { σ with session := { σ.session with messagesReceived := [] } }
  | .tick nanoseconds => some { σ with clock := σ.clock + nanoseconds }

/-- A session that has just run `init`. -/
def start (conn : Conn) (clock : Nat) (ioThread : ThreadIx) (filter : Φ) (keepAliveTime : Nat)
    (id : TCPSessionID) : Solo Φ :=
  let σ : Solo Φ :=
    { conn := conn
      clock := clock
      session := .new ioThread filter keepAliveTime
      queued := false
      completions := []
      posted := []
      encoded := [] }
  σ.onSession (σ.session.init F clock id)

/-- A session with the default filter, after the labels of a list. -/
def ran (labels : List Act) : Option (Solo MessageFilter) :=
  Transition.exec (step (messageFilter .little .zeros))
    (start (messageFilter .little .zeros) 0 0 1 (.new 0) 0 1) labels

end Solo
end EddyServer
