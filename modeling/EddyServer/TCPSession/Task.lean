import EddyServer.NetMessage.Basic

/-!
# Threads, tasks and completions

Every thread of the manager owns an `io_service` that runs one task at a time, in the order the
tasks were posted. A `Task` is one such posted function object: what the source binds with
`std::bind`, or the completion handler of an asynchronous operation together with its result.

A task is always posted on behalf of one connection (a session and the handler registered with it),
and the queues of the models pair it with that connection. Tasks that carry a pointer to their
session or handler act on that connection; tasks that carry only a session id act on whatever they
find under the id when they run.
-/

namespace EddyServer

/-- Index into `threads_`; the main thread has index 0. -/
abbrev ThreadIx := Nat

/-- `kMainThreadIndex`. -/
def mainThread : ThreadIx := 0

/-- `IOServiceThread::get_id()`: the constructor numbers the threads from 1. -/
abbrev IOThreadID := Nat

/-- The id of the thread with the given index. -/
def threadId (t : ThreadIx) : IOThreadID := t + 1

@[simp] theorem threadId_inj {s t : ThreadIx} : threadId s = threadId t ↔ s = t :=
  Nat.succ_inj

abbrev TCPSessionID := BitVec 32

/-- A session together with the handler that is registered with it. -/
abbrev Conn := Nat

/-- The outcome of an asynchronous operation, as far as the handlers tell outcomes apart. -/
inductive ErrorCode
  | success
  | eof
  | operationAborted
  | other
  deriving DecidableEq, Repr

inductive Task
  /-- `TCPSession::init`. -/
  | init (id : TCPSessionID)
  /-- `TCPSession::handle_read`, with the bytes the operation transferred. -/
  | handleRead (error : ErrorCode) (data : List UInt8)
  /-- `TCPSession::hanlde_write`. -/
  | hanldeWrite (error : ErrorCode)
  /-- `TCPSession::handle_safe_close`, with the bytes the operation transferred. -/
  | handleSafeClose (error : ErrorCode) (data : List UInt8)
  /-- The completion of `close_timer_`. -/
  | closeTimer (error : ErrorCode)
  /-- `TCPSession::close`, as posted by `IOServiceThread::check_keep_alive`. -/
  | close
  /-- `session_stuff::PackMessageList`. -/
  | sessionPackMessageList
  /-- `session_stuff::SendMessageListDirectly`. -/
  | sessionSendMessageListDirectly
  /-- `session_stuff::SendMessageListToHandler`. -/
  | sendMessageListToHandler (id : TCPSessionID) (messages : List NetMessage)
  /-- `IOServiceThreadManager::on_session_closed`. -/
  | onSessionClosed (id : TCPSessionID)
  /-- `session_handler_stuff::PackMessageList`. -/
  | handlerPackMessageList
  /-- `session_handler_stuff::SendMessageListDirectly`. -/
  | handlerSendMessageListDirectly
  /-- `session_handler_stuff::SendMessageListToSession`. -/
  | sendMessageListToSession (id : TCPSessionID) (messages : List NetMessage)
  /-- `session_handler_stuff::CloseSession`. -/
  | closeSession (id : TCPSessionID)
  deriving DecidableEq

/-- What a function of a session or a handler does outside its own object. -/
inductive Effect
  /-- `post` on the `io_service` of a thread. -/
  | post (thread : ThreadIx) (task : Task)
  /-- The session adds itself to the `TCPSessionQueue` of its thread. -/
  | queueAdd
  /-- `remove(get_id())` on the `TCPSessionQueue` of its thread. -/
  | queueRemove
  deriving DecidableEq

end EddyServer
