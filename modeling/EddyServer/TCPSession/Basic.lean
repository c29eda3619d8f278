import EddyServer.MessageFilter.Basic
import EddyServer.TCPSession.Task

/-!
# `TCPSession`

The functions of a session are pure here: each maps the session to the session it leaves and the
list of what it does elsewhere (`Effect`). What a function looks up outside the session is an
argument: the time, and the entry of the thread's `TCPSessionQueue` under the session's id.

Starting an asynchronous operation records it in the session's `Socket`. Completing it is a step of
the surroundings: it takes the operation out of the socket and queues the completion handler.

`SessionTrace` is not part of the source. It records what a session has been seen to do (what its
filter decoded, what it handed to the socket, what closed it); no function reads it.
-/

namespace EddyServer

/-! ## The socket and the timer -/

/-- Which function completes a read. -/
inductive ReadHandler
  | handleRead
  | handleSafeClose
  deriving DecidableEq, Repr

/-- A started read: `async_read` completes with exactly the size it was given,
`async_read_some` with one byte at least. -/
structure ReadOp where
  handler : ReadHandler
  exact : Bool
  size : Nat
  deriving DecidableEq, Repr

namespace ReadOp

/-- The results a read can complete with. -/
def allows (op : ReadOp) (error : ErrorCode) (data : List UInt8) : Bool :=
  decide (data.length ≤ op.size) &&
    (error != .success || (if op.exact then data.length == op.size else data.length != 0))

/-- The task a completed read queues. -/
def completion (op : ReadOp) (error : ErrorCode) (data : List UInt8) : Task :=
  match op.handler with
  | .handleRead => .handleRead error data
  | .handleSafeClose => .handleSafeClose error data

end ReadOp

structure Socket where
  isOpen : Bool
  sendShutdown : Bool
  /-- Reads that have been started and have not completed. -/
  reads : List ReadOp
  /-- Ranges handed to `async_write` whose write has not completed. -/
  writing : List (List UInt8)
  /-- All ranges ever handed to `async_write`, one after the other. -/
  handed : List UInt8

namespace Socket

def new : Socket :=
  { isOpen := true, sendShutdown := false, reads := [], writing := [], handed := [] }

def asyncRead (k : Socket) (handler : ReadHandler) (size : Nat) : Socket :=
  { k with reads := k.reads ++ [{ handler := handler, exact := true, size := size }] }

def asyncReadSome (k : Socket) (handler : ReadHandler) (size : Nat) : Socket :=
  { k with reads := k.reads ++ [{ handler := handler, exact := false, size := size }] }

def asyncWrite (k : Socket) (range : List UInt8) : Socket :=
  { k with writing := k.writing ++ [range], handed := k.handed ++ range }

end Socket

/-- `close_timer_`: whether a wait is outstanding. -/
inductive Timer
  | idle
  | waiting
  deriving DecidableEq, Repr

/-! ## The session -/

/-- The function that set `closed_` on an open session. -/
inductive CloseCause
  | handleRead
  | hanldeWrite
  | closeSession
  | keepAlive
  deriving DecidableEq, Repr

structure SessionTrace where
  /-- The bytes of the successful reads on the open session. -/
  delivered : List UInt8
  /-- The messages the filter appended to `messages_received_`. -/
  decoded : List NetMessage
  /-- The messages passed to `post_message_list` on the open session. -/
  posted : List NetMessage
  /-- The batches `post_message_list` passed on to the filter, with the bytes the filter
  appended. -/
  batches : List (List NetMessage × List UInt8)
  closedBy : Option CloseCause
  /-- The queue entries that `hanlde_close` of this session removed. -/
  removed : List Conn

def SessionTrace.new : SessionTrace :=
  { delivered := [], decoded := [], posted := [], batches := [], closedBy := none, removed := [] }

structure TCPSession (Φ : Type) where
  closed : Bool
  numReadHandlers : Int
  numWriteHandlers : Int
  sessionId : TCPSessionID
  socket : Socket
  ioThread : ThreadIx
  closeTimer : Timer
  msgFilter : Φ
  /-- Nanoseconds of the steady clock. -/
  lastActivityTime : Nat
  bufferReceiving : List UInt8
  bufferSending : List UInt8
  bufferToBeSent : List UInt8
  messagesReceived : List NetMessage
  /-- Seconds. -/
  keepAliveTime : Nat
  trace : SessionTrace

namespace TCPSession

variable {Φ : Type} (F : MessageFilterInterface Φ)

/-- `TCPSession(td, filter, keep_alive_time)`. -/
def new (ioThread : ThreadIx) (filter : Φ) (keepAliveTime : Nat) : TCPSession Φ :=
  { closed := true
    numReadHandlers := 0
    numWriteHandlers := 0
    sessionId := 0
    socket := .new
    ioThread := ioThread
    closeTimer := .idle
    msgFilter := filter
    lastActivityTime := 0
    bufferReceiving := []
    bufferSending := []
    bufferToBeSent := []
    messagesReceived := []
    keepAliveTime := keepAliveTime
    trace := .new }

/-! ### Starting to read -/

/-- The common end of `init` and `handle_read`: ask the filter how much it wants and start that
read. A demand of zero bytes starts none. -/
def startRead (s : TCPSession Φ) : TCPSession Φ :=
  let demand := F.bytesWannaRead s.msgFilter
  let s := { s with msgFilter := demand.2 }
  if demand.1 = 0 then s
  else
    let s := { s with numReadHandlers := s.numReadHandlers + 1 }
    if demand.1 = anyBytes then
      { s with
        bufferReceiving := resize s.bufferReceiving kDynamicThreshold
        socket := s.socket.asyncReadSome .handleRead kDynamicThreshold }
    else
      { s with
        bufferReceiving := resize s.bufferReceiving demand.1
        socket := s.socket.asyncRead .handleRead demand.1 }

/-- `init`, up to the queue entry and the first read. -/
def init (now : Nat) (s : TCPSession Φ) (id : TCPSessionID) : TCPSession Φ × List Effect :=
  let s := { s with closed := false, sessionId := id, lastActivityTime := now }
  (s.startRead F, [.queueAdd])

/-! ### Closing -/

/-- `closed_ = true`, with the first cause written down. -/
def markClosed (s : TCPSession Φ) (cause : CloseCause) : TCPSession Φ :=
  { s with
    closed := true
    trace := { s.trace with closedBy := s.trace.closedBy.or (some cause) } }

/-- Cancelling `close_timer_`, or setting it again: a wait that is outstanding completes; one whose
completion is queued already is left alone. -/
def cancelTimer (s : TCPSession Φ) : List Effect :=
  if s.closeTimer = .waiting then [.post s.ioThread (.closeTimer .operationAborted)] else []

/-- `hanlde_close`: wait while a write is outstanding; else, if the queue has an entry under this
session's id (`found`), remove it, tell the manager, shut the sending side down, and drain the
socket for at most five seconds. -/
def hanldeClose (s : TCPSession Φ) (found : Option Conn) : TCPSession Φ × List Effect :=
  -- `hanlde_write` comes back here when the write has completed.
  if s.numWriteHandlers > 0 then (s, [])
  else
    match found with
    | none => (s, [])
    | some entry =>
      ({ s with
          bufferReceiving := resize s.bufferReceiving kDynamicThreshold
          socket := { s.socket.asyncReadSome .handleSafeClose kDynamicThreshold with
            sendShutdown := true }
          closeTimer := .waiting
          trace := { s.trace with removed := s.trace.removed ++ [entry] } },
        -- A session that comes here once more, for an entry of its id, sets the timer again.
        [.post mainThread (.onSessionClosed s.sessionId), .queueRemove] ++ s.cancelTimer)

/-- `close`, called by `CloseSession` or by the keep-alive check. -/
def close (s : TCPSession Φ) (cause : CloseCause) (found : Option Conn) :
    TCPSession Φ × List Effect :=
  -- A second call does nothing, also while the first one waits for a write.
  if s.closed then (s, []) else (s.markClosed cause).hanldeClose found

/-- `check_keep_alive`. -/
def checkKeepAlive (s : TCPSession Φ) (now : Nat) : Bool :=
  -- A time of zero switches the check off; the activity is that of the receiving side alone.
  s.keepAliveTime == 0 || decide (now - s.lastActivityTime < s.keepAliveTime * 10 ^ 9)

/-! ### Writing -/

/-- `post_message_list`. The result is `none` when `reserve` throws. The first write of a busy
period covers the number of bytes the filter announced, from the start of the buffer. -/
def postMessageList (s : TCPSession Φ) (messages : List NetMessage) : Option (TCPSession Φ) :=
  if s.closed || messages.isEmpty then some s
  else
    let s := { s with trace := { s.trace with posted := s.trace.posted ++ messages } }
    let announced := F.bytesWannaWrite s.msgFilter messages
    if announced.1 = 0 then some { s with msgFilter := announced.2 }
    else if SizeT.add s.bufferToBeSent.length announced.1 > vectorMaxSize then none
    else
      let written := F.write announced.2 messages s.bufferToBeSent
      let s := { s with
        msgFilter := written.filter
        bufferToBeSent := s.bufferToBeSent ++ written.appended
        trace := { s.trace with batches := s.trace.batches ++ [(messages, written.appended)] } }
      -- An empty `buffer_sending_` stands for: no write is outstanding.
      if s.bufferSending.isEmpty then
        some { s with
          numWriteHandlers := s.numWriteHandlers + 1
          bufferSending := s.bufferToBeSent
          bufferToBeSent := s.bufferSending
          socket := s.socket.asyncWrite (s.bufferToBeSent.take announced.1) }
      else some s

/-- `hanlde_write`. -/
def hanldeWrite (s : TCPSession Φ) (found : Option Conn) (error : ErrorCode) :
    TCPSession Φ × List Effect :=
  let s := { s with numWriteHandlers := s.numWriteHandlers - 1 }
  -- Closed by another function: the close that waited for this write goes on.
  if error ≠ .success ∨ s.closed = true then (s.markClosed .hanldeWrite).hanldeClose found
  else
    let s := { s with bufferSending := [] }
    if s.bufferToBeSent.isEmpty then (s, [])
    else
      ({ s with
          numWriteHandlers := s.numWriteHandlers + 1
          bufferSending := s.bufferToBeSent
          bufferToBeSent := s.bufferSending
          socket := s.socket.asyncWrite s.bufferToBeSent }, [])

/-! ### Reading -/

/-- What `handle_read` does with a successful read of an open session before it asks for more: the
filter is given the whole buffer, whose front the socket has filled with `data`. -/
def readMessages (now : Nat) (s : TCPSession Φ) (data : List UInt8) :
    TCPSession Φ × List Effect :=
  -- Messages that are still there are left to the flush that has been posted for them.
  let wannaPost := s.messagesReceived.isEmpty
  let got := F.read s.msgFilter (overwrite s.bufferReceiving 0 data) s.messagesReceived
  let s := { s with
    msgFilter := got.filter
    messagesReceived := s.messagesReceived ++ got.messages
    bufferReceiving := []
    trace := { s.trace with
      delivered := s.trace.delivered ++ data
      decoded := s.trace.decoded ++ got.messages } }
  if wannaPost && !s.messagesReceived.isEmpty then
    ({ s with lastActivityTime := now },
      [.post s.ioThread (if threadId s.ioThread = threadId mainThread
        then .sessionSendMessageListDirectly else .sessionPackMessageList)])
  else (s, [])

/-- `handle_read`. -/
def handleRead (now : Nat) (s : TCPSession Φ) (found : Option Conn) (error : ErrorCode)
    (data : List UInt8) : TCPSession Φ × List Effect :=
  let s := { s with numReadHandlers := s.numReadHandlers - 1 }
  if error ≠ .success ∨ s.closed = true then (s.markClosed .handleRead).hanldeClose found
  else
    let r := s.readMessages F now data
    (r.1.startRead F, r.2)

/-- `session_stuff::PackMessageList`. -/
def packMessageList (s : TCPSession Φ) : TCPSession Φ × List Effect :=
  if s.messagesReceived.isEmpty then (s, [])
  else
    ({ s with messagesReceived := [] },
      [.post mainThread (.sendMessageListToHandler s.sessionId s.messagesReceived)])

/-! ### After the close -/

/-- `handle_safe_close`. -/
def handleSafeClose (s : TCPSession Φ) (error : ErrorCode) (data : List UInt8) :
    TCPSession Φ × List Effect :=
  if data.length = 0 then
    -- `operation_aborted`: the timer has closed the socket already.
    if error ≠ .operationAborted then
      ({ s with closeTimer := .idle, socket := { s.socket with isOpen := false } }, s.cancelTimer)
    else (s, [])
  else
    -- What the peer still sends is read and thrown away.
    ({ s with
        bufferReceiving := resize s.bufferReceiving kDynamicThreshold
        socket := s.socket.asyncReadSome .handleSafeClose kDynamicThreshold }, [])

/-- The completion of `close_timer_`. The result is `none` when `socket_.cancel()` throws because
the socket has been closed. -/
def closeTimerExpired (s : TCPSession Φ) (error : ErrorCode) : Option (TCPSession Φ) :=
  if error ≠ .operationAborted then
    if s.socket.isOpen then some { s with socket := { s.socket with isOpen := false } } else none
  else some s

end TCPSession
end EddyServer
