import EddyServer.TCPSession.Task

/-!
# `TCPSessionHandler`

The application's side of a connection. A handler lives on the main thread; `send` and `close` reach
the session through posted tasks only. The callbacks a handler receives and the calls it makes while
it is registered are written down in it; no function reads that record.
-/

namespace EddyServer

/-- A callback of a handler, with the connection whose task made it. -/
inductive Callback
  | onConnected
  | onMessage (source : Conn) (message : NetMessage)
  | onClosed (source : Conn)
  deriving DecidableEq, Repr

/-- What application code calls on a handler. -/
inductive Call
  | send (message : NetMessage)
  | close
  deriving DecidableEq, Repr

structure TCPSessionHandler where
  sessionId : TCPSessionID
  threadId : IOThreadID
  messagesToBeSent : List NetMessage
  callbacks : List Callback
  calls : List Call
  deriving DecidableEq, Repr

namespace TCPSessionHandler

/-- `thread_id_` is not initialised by the constructor. -/
def new : TCPSessionHandler :=
  { sessionId := 0, threadId := 0, messagesToBeSent := [], callbacks := [], calls := [] }

def isClosed (h : TCPSessionHandler) : Bool := h.sessionId == 0

def init (h : TCPSessionHandler) (sid : TCPSessionID) (tid : IOThreadID) : TCPSessionHandler :=
  { h with sessionId := sid, threadId := tid }

def dispose (h : TCPSessionHandler) : TCPSessionHandler := { h with sessionId := 0 }

section
variable (getThread : IOThreadID → Option ThreadIx)

/-- `session_handler_stuff::PackMessageList`. -/
def packMessageList (h : TCPSessionHandler) : TCPSessionHandler × List Effect :=
  if h.messagesToBeSent.isEmpty then (h, [])
  else
    match getThread h.threadId with
    | none => (h, [])
    | some t =>
      ({ h with messagesToBeSent := [] },
        [.post t (.sendMessageListToSession h.sessionId h.messagesToBeSent)])

def close (h : TCPSessionHandler) : TCPSessionHandler × List Effect :=
  if h.isClosed then (h, [])
  else
    let packed := h.packMessageList getThread
    match getThread h.threadId with
    | none => packed
    | some t => (packed.1, packed.2 ++ [.post t (.closeSession h.sessionId)])

def send (h : TCPSessionHandler) (message : NetMessage) : TCPSessionHandler × List Effect :=
  if h.isClosed then (h, [])
  else if message.empty then (h, [])
  else
    ({ h with messagesToBeSent := h.messagesToBeSent ++ [message] },
      if h.messagesToBeSent.isEmpty then
        [.post mainThread (if h.threadId = EddyServer.threadId mainThread
          then .handlerSendMessageListDirectly else .handlerPackMessageList)]
      else [])

/-- Application code calls `send` or `close`. Calls on a handler that is registered are recorded. -/
def call (h : TCPSessionHandler) (c : Call) : TCPSessionHandler × List Effect :=
  let h := if h.isClosed then h else { h with calls := h.calls ++ [c] }
  match c with
  | .send message => h.send message
  | .close => h.close getThread

end

end TCPSessionHandler
end EddyServer
