import EddyServer.TCPSession.Basic

/-!
# What running a task can do to a session

One description, `Move`, for every task that runs a function of a session which has been started:
which fields it leaves alone, whether it closes the session, how it counts reads, and which of five
things it does with messages and elsewhere. The invariants of a connection are derived from it; they
do not unfold the functions again.
-/

namespace EddyServer

namespace Task

/-- The task is a completion of `handle_read`. -/
def isRead : Task → Bool
  | .handleRead .. => true
  | _ => false

/-- The task is a completion of `hanlde_write`. -/
def isWrite : Task → Bool
  | .hanldeWrite _ => true
  | _ => false

/-- The task is a completion of `handle_safe_close`. -/
def isDrain : Task → Bool
  | .handleSafeClose .. => true
  | _ => false

/-- The task passes on what a session has received. -/
def isFlush : Task → Bool
  | .sessionPackMessageList | .sessionSendMessageListDirectly => true
  | _ => false

/-- The task is a completion of `close_timer_` that has not been cancelled. -/
def isExpiry : Task → Bool
  | .closeTimer error => error != .operationAborted
  | _ => false

/-- The task is queued by the surroundings when an operation completes or a check is due. -/
def isCompletion : Task → Bool
  | .handleRead .. | .hanldeWrite _ | .handleSafeClose .. | .closeTimer _ | .close => true
  | _ => false

/-- What closes the session when this task does. -/
def cause : Task → Option CloseCause
  | .handleRead .. => some .handleRead
  | .hanldeWrite _ => some .hanldeWrite
  | .close => some .keepAlive
  | .closeSession _ => some .closeSession
  | _ => none

end Task

namespace TCPSession

variable {Φ : Type} (F : MessageFilterInterface Φ)

/-! ## Starting a read -/

/-- The reads on the socket that `handle_read` completes. -/
def readOps (s : TCPSession Φ) : List ReadOp :=
  s.socket.reads.filter fun op => op.handler == .handleRead

def outstandingReads (s : TCPSession Φ) : Nat :=
  s.socket.reads.countP fun op => op.handler == .handleRead

/-- The reads on the socket that `handle_safe_close` completes. -/
def outstandingDrains (s : TCPSession Φ) : Nat :=
  s.socket.reads.countP fun op => op.handler == .handleSafeClose

/-- A read is completed by one or the other. -/
theorem length_reads (s : TCPSession Φ) :
    s.socket.reads.length = s.outstandingReads + s.outstandingDrains := by
  unfold outstandingReads outstandingDrains
  rw [List.length_eq_countP_add_countP (fun op : ReadOp => op.handler == .handleRead)]
  congr 1
  apply List.countP_congr
  intro op _
  cases op.handler <;> simp

/-- The writes on the socket. -/
def outstandingWrites (s : TCPSession Φ) : Nat := s.socket.writing.length

/-- The wait of `close_timer_`. -/
def outstandingWaits (s : TCPSession Φ) : Nat := if s.closeTimer = .waiting then 1 else 0

theorem length_readOps (s : TCPSession Φ) : s.readOps.length = s.outstandingReads :=
  List.countP_eq_length_filter.symm

/-- `startRead` changes the filter, the read counter, the receive buffer and the socket's reads. -/
theorem startRead_eq (s : TCPSession Φ) : ∃ f n b reads,
    s.startRead F =
      { s with
        msgFilter := f
        numReadHandlers := n
        bufferReceiving := b
        socket := { s.socket with reads := reads } } := by
  unfold startRead
  dsimp only
  split_ifs
  · exact ⟨_, _, _, s.socket.reads, rfl⟩
  · exact ⟨_, _, _, _, rfl⟩
  · exact ⟨_, _, _, _, rfl⟩

/-- It counts the read it starts, and starts one at most. -/
theorem startRead_reads (s : TCPSession Φ) :
    (s.startRead F).numReadHandlers - (s.startRead F).outstandingReads =
        s.numReadHandlers - s.outstandingReads ∧
      (s.startRead F).outstandingReads ≤ s.outstandingReads + 1 := by
  unfold startRead outstandingReads
  dsimp only
  split_ifs <;> simp [Socket.asyncRead, Socket.asyncReadSome]

/-! ## Completing an operation -/

/-- Taking a read out of the socket. -/
theorem countP_eraseIdx {α : Type*} {p : α → Bool} {l : List α} {i : Nat} {a : α}
    (h : l[i]? = some a) : (l.eraseIdx i).countP p + (if p a then 1 else 0) = l.countP p := by
  -- By induction on the list; the position moves along with it.
  induction l generalizing i with
  | nil => cases h
  | cons b l ih =>
      cases i with
      | zero =>
          cases h
          simp [List.countP_cons]
      | succ i =>
          rw [List.getElem?_cons_succ] at h
          rw [List.eraseIdx_cons_succ, List.countP_cons, List.countP_cons, ← ih h]
          omega

/-- An outstanding operation of session `s` has completed, or a check is due: `task` is posted, and
the socket and the timer have become those of `s'`. -/
structure Completes (s : TCPSession Φ) (task : Task) (s' : TCPSession Φ) : Prop where
  isCompletion : task.isCompletion = true
  same : ∃ k timer, s' = { s with socket := k, closeTimer := timer }
  reads : s'.outstandingReads + (if task.isRead then 1 else 0) = s.outstandingReads
  drains : s'.outstandingDrains + (if task.isDrain then 1 else 0) = s.outstandingDrains
  writes : s'.outstandingWrites + (if task.isWrite then 1 else 0) = s.outstandingWrites
  waits : s'.outstandingWaits + (if task.isExpiry then 1 else 0) = s.outstandingWaits
  isOpen : s'.socket.isOpen = s.socket.isOpen
  writing : ∀ range ∈ s'.socket.writing, range ∈ s.socket.writing
  handed : s'.socket.handed = s.socket.handed

theorem completes_read {s : TCPSession Φ} {i : Nat} {op : ReadOp}
    (hop : s.socket.reads[i]? = some op) (error : ErrorCode) (data : List UInt8) :
    Completes s (op.completion error data)
      { s with socket := { s.socket with reads := s.socket.reads.eraseIdx i } } := by
  have hread : (op.completion error data).isRead = (op.handler == .handleRead) := by
    cases hh : op.handler <;> simp [ReadOp.completion, hh, Task.isRead]
  have hdrain : (op.completion error data).isDrain = (op.handler == .handleSafeClose) := by
    cases hh : op.handler <;> simp [ReadOp.completion, hh, Task.isDrain]
  have hwrite : (op.completion error data).isWrite = false := by
    cases hh : op.handler <;> simp [ReadOp.completion, hh, Task.isWrite]
  have hexpiry : (op.completion error data).isExpiry = false := by
    cases hh : op.handler <;> simp [ReadOp.completion, hh, Task.isExpiry]
  refine ⟨?_, ⟨_, _, rfl⟩, ?_, ?_, ?_, by rw [hexpiry]; rfl, rfl, fun _ h => h, rfl⟩
  · cases hh : op.handler <;> simp [ReadOp.completion, hh, Task.isCompletion]
  · rw [hread]
    exact countP_eraseIdx hop
  · rw [hdrain]
    exact countP_eraseIdx hop
  · rw [hwrite]
    rfl

theorem completes_write {s : TCPSession Φ} {range : List UInt8} {writing : List (List UInt8)}
    (hw : s.socket.writing = range :: writing) (error : ErrorCode) :
    Completes s (.hanldeWrite error) { s with socket := { s.socket with writing := writing } } := by
  refine ⟨rfl, ⟨_, _, rfl⟩, rfl, rfl, ?_, rfl, rfl, ?_, rfl⟩
  · simp [outstandingWrites, hw, Task.isWrite]
  · intro other hmem
    rw [hw]
    exact List.mem_cons_of_mem _ hmem

theorem completes_timer {s : TCPSession Φ} (htimer : s.closeTimer = .waiting) :
    Completes s (.closeTimer .success) { s with closeTimer := .idle } := by
  refine ⟨rfl, ⟨_, _, rfl⟩, rfl, rfl, rfl, ?_, rfl, fun _ h => h, rfl⟩
  simp [outstandingWaits, htimer, Task.isExpiry]

theorem completes_close (s : TCPSession Φ) : Completes s .close s :=
  ⟨rfl, ⟨s.socket, s.closeTimer, rfl⟩, rfl, rfl, rfl, rfl, rfl, fun _ h => h, rfl⟩

/-! ## Moves -/

/-- The session is as its constructor has made it. -/
def Pristine (s : TCPSession Φ) : Prop :=
  ∃ filter keepAliveTime, s = .new s.ioThread filter keepAliveTime

/-- The flush task that a session posts to its own thread. -/
def flushTask (t : ThreadIx) : Task :=
  if threadId t = threadId mainThread then .sessionSendMessageListDirectly
  else .sessionPackMessageList

theorem isRead_flushTask (t : ThreadIx) : (flushTask t).isRead = false := by
  unfold flushTask
  split_ifs <;> rfl

theorem ne_flushTask {task : Task} (h : task.isFlush = false) (t : ThreadIx) :
    task ≠ flushTask t := by
  rintro rfl
  unfold flushTask at h
  split_ifs at h <;> cases h

/-- `closed_` is set exactly when the trace knows a cause. -/
def Marked (s : TCPSession Φ) : Prop := s.closed = s.trace.closedBy.isSome

/-- The received messages are as they were, and no queue entry has been removed. -/
structure Quiet (s t : TCPSession Φ) : Prop where
  messagesReceived : t.messagesReceived = s.messagesReceived
  decoded : t.trace.decoded = s.trace.decoded
  removed : t.trace.removed = s.trace.removed

/-- The open session `s` has appended `new` to the received messages. -/
structure Receives (s t : TCPSession Φ) (new : List NetMessage) : Prop where
  wasOpen : s.closed = false
  isOpen : t.closed = false
  messagesReceived : t.messagesReceived = s.messagesReceived ++ new
  decoded : t.trace.decoded = s.trace.decoded ++ new
  removed : t.trace.removed = s.trace.removed

/-- What `hanlde_close` does outside the session when it takes an entry out of the queue. -/
def leaving (s : TCPSession Φ) : List Effect :=
  [.post mainThread (.onSessionClosed s.sessionId), .queueRemove] ++ s.cancelTimer

theorem cancelTimer_cases (s : TCPSession Φ) :
    s.cancelTimer = [] ∨ s.cancelTimer = [.post s.ioThread (.closeTimer .operationAborted)] := by
  unfold cancelTimer
  split_ifs
  · exact .inr rfl
  · exact .inl rfl

@[simp] theorem queueRemove_not_mem_cancelTimer (s : TCPSession Φ) :
    .queueRemove ∉ s.cancelTimer := by
  rcases s.cancelTimer_cases with hnil | hone
  · simp [hnil]
  · simp [hone]

theorem mem_leaving {s : TCPSession Φ} {e : Effect} (h : e ∈ s.leaving) :
    e = .post mainThread (.onSessionClosed s.sessionId) ∨ e = .queueRemove ∨
      e = .post s.ioThread (.closeTimer .operationAborted) := by
  rw [leaving, List.mem_append, List.mem_pair, or_assoc] at h
  refine h.imp_right (Or.imp_right fun hcancel => ?_)
  rcases s.cancelTimer_cases with hnil | hone
  · rw [hnil] at hcancel
    cases hcancel
  · rw [hone] at hcancel
    exact List.mem_singleton.mp hcancel

@[simp] theorem queueRemove_mem_leaving (s : TCPSession Φ) : .queueRemove ∈ s.leaving :=
  List.mem_append_left _ (List.mem_cons_of_mem _ List.mem_cons_self)

/-- What a task does with the received messages and outside the session. -/
inductive Outcome (s : TCPSession Φ) (found : Option Conn) (task : Task)
    (r : TCPSession Φ × List Effect) : Prop
  | quiet : Quiet s r.1 → (task = .sessionPackMessageList → s.messagesReceived = []) →
      r.2 = [] → Outcome s found task r
  | timer : Quiet s r.1 → task ≠ .sessionPackMessageList →
      r.2 = [.post s.ioThread (.closeTimer .operationAborted)] → Outcome s found task r
  | deregister (entry : Conn) : found = some entry → r.1.closed = true →
      r.1.messagesReceived = s.messagesReceived → r.1.trace.decoded = s.trace.decoded →
      r.1.trace.removed = s.trace.removed ++ [entry] →
      r.2 = s.leaving → Outcome s found task r
  | receive (new : List NetMessage) : task.isRead = true → Receives s r.1 new →
      (s.messagesReceived = [] → new = []) → r.2 = [] → Outcome s found task r
  | first (new : List NetMessage) : task.isRead = true → Receives s r.1 new →
      s.messagesReceived = [] → new ≠ [] →
      r.2 = [.post s.ioThread (flushTask s.ioThread)] → Outcome s found task r
  | deliver : task = .sessionPackMessageList → s.messagesReceived ≠ [] →
      r.1.messagesReceived = [] →
      r.1.trace.decoded = s.trace.decoded → r.1.trace.removed = s.trace.removed →
      r.2 = [.post mainThread (.sendMessageListToHandler s.sessionId s.messagesReceived)] →
      Outcome s found task r

/-- The send buffers are as they were, and nothing has been handed to `async_write`. -/
structure SameBuffers (s t : TCPSession Φ) : Prop where
  handed : t.socket.handed = s.socket.handed
  bufferSending : t.bufferSending = s.bufferSending
  bufferToBeSent : t.bufferToBeSent = s.bufferToBeSent

/-- The open session `s` has handed over what was waiting in its second buffer. -/
structure NextWrite (s t : TCPSession Φ) : Prop where
  wasOpen : s.closed = false
  handed : t.socket.handed = s.socket.handed ++ s.bufferToBeSent
  bufferSending : t.bufferSending = s.bufferToBeSent
  bufferToBeSent : t.bufferToBeSent = []

/-- What running `task` can make of a started session `s` whose lookup in the queue gives
`found`. -/
structure Move (s : TCPSession Φ) (found : Option Conn) (task : Task)
    (r : TCPSession Φ × List Effect) : Prop where
  ioThread : r.1.ioThread = s.ioThread
  sessionId : r.1.sessionId = s.sessionId
  posted : r.1.trace.posted = s.trace.posted
  batches : r.1.trace.batches = s.trace.batches
  closed : s.Marked → r.1.Marked
  stays : s.closed = true → r.1.closed = true
  closedBy : r.1.trace.closedBy = s.trace.closedBy ∨
    s.trace.closedBy = none ∧ r.1.trace.closedBy = task.cause
  reads : r.1.numReadHandlers - r.1.outstandingReads =
    s.numReadHandlers - s.outstandingReads - if task.isRead then 1 else 0
  reads_le : r.1.outstandingReads ≤ s.outstandingReads + if task.isRead then 1 else 0
  writes : SameBuffers s r.1 ∨ NextWrite s r.1
  writeCount : r.1.numWriteHandlers - r.1.outstandingWrites =
    s.numWriteHandlers - s.outstandingWrites - if task.isWrite then 1 else 0
  writeCount_le : r.1.outstandingWrites ≤ s.outstandingWrites + if task.isWrite then 1 else 0
  /-- The session leaves its queue when it has no write outstanding, as a completion arrives or as
  it is closed. -/
  leaves : .queueRemove ∈ r.2 → r.1.numWriteHandlers ≤ 0 ∧
    (task.isRead = true ∨ task.isWrite = true ∨ s.closed = false)
  shutdown : r.1.socket.sendShutdown = true → s.socket.sendShutdown = true ∨ r.1.closed = true
  outcome : Outcome s found task r

/-- `t` is `s`, up to fields that no move is about and the number of counted reads. -/
structure Like (s t : TCPSession Φ) (task : Task) : Prop where
  ioThread : t.ioThread = s.ioThread
  sessionId : t.sessionId = s.sessionId
  closeTimer : t.closeTimer = s.closeTimer
  closed : t.closed = s.closed
  posted : t.trace.posted = s.trace.posted
  batches : t.trace.batches = s.trace.batches
  closedBy : t.trace.closedBy = s.trace.closedBy
  outstandingReads : t.outstandingReads = s.outstandingReads
  numReadHandlers : t.numReadHandlers = s.numReadHandlers - if task.isRead then 1 else 0
  buffers : SameBuffers s t
  outstandingWrites : t.outstandingWrites = s.outstandingWrites
  numWriteHandlers : t.numWriteHandlers = s.numWriteHandlers - if task.isWrite then 1 else 0
  shutdown : t.socket.sendShutdown = s.socket.sendShutdown
  quiet : Quiet s t
  packs : task = .sessionPackMessageList → s.messagesReceived = []

theorem Like.move {s t : TCPSession Φ} {task : Task} (h : Like s t task) (found : Option Conn) :
    Move s found task (t, []) where
  ioThread := h.ioThread
  sessionId := h.sessionId
  posted := h.posted
  batches := h.batches
  closed hm := by rw [Marked, h.closed, h.closedBy]; exact hm
  stays hc := by rw [h.closed]; exact hc
  closedBy := .inl h.closedBy
  reads := by
    dsimp only
    rw [h.outstandingReads, h.numReadHandlers]
    omega
  reads_le := by
    dsimp only
    rw [h.outstandingReads]
    omega
  writes := .inl h.buffers
  writeCount := by
    dsimp only
    rw [h.outstandingWrites, h.numWriteHandlers]
    omega
  writeCount_le := by
    dsimp only
    rw [h.outstandingWrites]
    omega
  leaves := nofun
  shutdown hs := .inl (h.shutdown.symm.trans hs)
  outcome := .quiet h.quiet h.packs rfl

/-- Closing: `closed_` is set, and the session is deregistered now or, if a write is outstanding,
later. -/
theorem move_closing {s u : TCPSession Φ} {task : Task} {cause : CloseCause}
    (h : Like s u task) (hcause : task.cause = some cause)
    (hkind : task.isRead = true ∨ task.isWrite = true ∨ s.closed = false) (found : Option Conn) :
    Move s found task ((u.markClosed cause).hanldeClose found) := by
  have hmarked : (u.markClosed cause).Marked := by
    cases hc : u.trace.closedBy <;> simp [Marked, markClosed, hc]
  have hby : (u.markClosed cause).trace.closedBy = s.trace.closedBy ∨
      s.trace.closedBy = none ∧ (u.markClosed cause).trace.closedBy = task.cause := by
    rw [hcause, ← h.closedBy]
    cases hc : u.trace.closedBy <;> simp [markClosed, hc]
  have hbuffers := h.buffers
  have hmark : Move s found task (u.markClosed cause, []) :=
    { h.move found with
      closed := fun _ => hmarked
      stays := fun _ => rfl
      closedBy := hby
      writes := .inl ⟨hbuffers.handed, hbuffers.bufferSending, hbuffers.bufferToBeSent⟩
      shutdown := fun hs => .inl (h.shutdown.symm.trans hs)
      outcome := .quiet ⟨h.quiet.messagesReceived, h.quiet.decoded, h.quiet.removed⟩ h.packs rfl }
  unfold hanldeClose
  split_ifs with hw
  · exact hmark
  · cases found with
    | none => exact hmark
    | some entry =>
        -- the drain that is started now is not a read of `handle_read`
        have hdrain : ∀ r : TCPSession Φ,
            r.socket.reads = u.socket.reads ++
              [{ handler := .handleSafeClose, exact := false, size := kDynamicThreshold }] →
            r.outstandingReads = (u.markClosed cause).outstandingReads := by
          intro r hr
          simp [TCPSession.outstandingReads, markClosed, hr]
        refine { hmark with
          closed := fun _ => hmarked
          stays := fun _ => rfl
          reads := ?_
          reads_le := ?_
          writes := .inl ⟨hbuffers.handed, hbuffers.bufferSending, hbuffers.bufferToBeSent⟩
          leaves := fun _ => ⟨Int.not_lt.mp hw, hkind⟩
          shutdown := fun _ => .inr rfl
          outcome := ?_ }
        · rw [hdrain _ rfl]
          exact hmark.reads
        · rw [hdrain _ rfl]
          exact hmark.reads_le
        · have hleaving : (u.markClosed cause).leaving = s.leaving := by
            unfold leaving cancelTimer markClosed
            dsimp only
            rw [h.sessionId, h.ioThread, h.closeTimer]
          exact .deregister entry rfl rfl h.quiet.messagesReceived h.quiet.decoded
            (congrArg (· ++ [entry]) h.quiet.removed) hleaving

/-! ## Every task of a session is a move -/

theorem Like.refl (s : TCPSession Φ) (task : Task) (h : task.isRead = false)
    (hwrite : task.isWrite = false)
    (hpacks : task = .sessionPackMessageList → s.messagesReceived = []) : Like s s task :=
  ⟨rfl, rfl, rfl, rfl, rfl, rfl, rfl, rfl, by simp [h], ⟨rfl, rfl, rfl⟩, rfl, by simp [hwrite],
    rfl, ⟨rfl, rfl, rfl⟩, hpacks⟩

theorem move_close (s : TCPSession Φ) {task : Task} {cause : CloseCause}
    (htask : task.isRead = false) (hwrite : task.isWrite = false)
    (hcause : task.cause = some cause) (found : Option Conn) :
    Move s found task (s.close cause found) := by
  have hlike : Like s s task := Like.refl s task htask hwrite (by rintro rfl; cases hcause)
  unfold close
  split_ifs with hc
  · exact hlike.move found
  · exact move_closing hlike hcause (.inr (.inr (by simpa using hc))) found

/-- `close` leaves the session closed. -/
theorem close_closed (s : TCPSession Φ) (cause : CloseCause) (found : Option Conn) :
    (s.close cause found).1.closed = true := by
  unfold close hanldeClose
  split_ifs with hc
  · exact hc
  · rfl
  · cases found <;> rfl

theorem move_hanldeWrite (s : TCPSession Φ) (found : Option Conn) (error : ErrorCode) :
    Move s found (.hanldeWrite error) (s.hanldeWrite found error) := by
  have hlike : Like s { s with numWriteHandlers := s.numWriteHandlers - 1 } (.hanldeWrite error) :=
    ⟨rfl, rfl, rfl, rfl, rfl, rfl, rfl, rfl, by simp [Task.isRead], ⟨rfl, rfl, rfl⟩, rfl,
      by simp [Task.isWrite], rfl, ⟨rfl, rfl, rfl⟩, nofun⟩
  have hmove := hlike.move found
  unfold hanldeWrite
  dsimp only
  split_ifs with hc hb
  · exact move_closing hlike rfl (.inr (.inl rfl)) found
  · have hopen : s.closed = false := by simpa using (not_or.mp hc).2
    have hnil : s.bufferToBeSent = [] := List.isEmpty_iff.mp hb
    exact
      { hmove with
        closed := fun hm => hm
        stays := fun hc => hc
        writes := .inr ⟨hopen, by simp [hnil], hnil.symm, hnil⟩
        outcome := .quiet ⟨rfl, rfl, rfl⟩ nofun rfl }
  · have hopen : s.closed = false := by simpa using (not_or.mp hc).2
    exact
      { hmove with
        closed := fun hm => hm
        stays := fun hc => hc
        writes := .inr ⟨hopen, rfl, rfl, rfl⟩
        writeCount := by simp [outstandingWrites, Socket.asyncWrite, Task.isWrite]; omega
        writeCount_le := by simp [outstandingWrites, Socket.asyncWrite, Task.isWrite]
        leaves := nofun
        outcome := .quiet ⟨rfl, rfl, rfl⟩ nofun rfl }

/-- A successful read of an open session adds the messages of the filter, and posts a flush when
they are the first. -/
theorem readMessages_eq (now : Nat) (s : TCPSession Φ) (data : List UInt8) :
    let got := F.read s.msgFilter (overwrite s.bufferReceiving 0 data) s.messagesReceived
    let first := s.messagesReceived = [] ∧ got.messages ≠ []
    s.readMessages F now data =
      ({ s with
          msgFilter := got.filter
          messagesReceived := s.messagesReceived ++ got.messages
          bufferReceiving := []
          lastActivityTime := if first then now else s.lastActivityTime
          trace := { s.trace with
            delivered := s.trace.delivered ++ data
            decoded := s.trace.decoded ++ got.messages } },
        if first then [.post s.ioThread (flushTask s.ioThread)] else []) := by
  unfold readMessages flushTask
  dsimp only
  generalize F.read s.msgFilter (overwrite s.bufferReceiving 0 data) s.messagesReceived = got
  cases hs : s.messagesReceived <;> cases hm : got.messages <;> simp

theorem move_handleRead (now : Nat) (s : TCPSession Φ) (found : Option Conn) (error : ErrorCode)
    (data : List UInt8) :
    Move s found (.handleRead error data) (s.handleRead F now found error data) := by
  unfold handleRead
  dsimp only
  have hlike : Like s { s with numReadHandlers := s.numReadHandlers - 1 }
      (.handleRead error data) :=
    ⟨rfl, rfl, rfl, rfl, rfl, rfl, rfl, rfl, by simp [Task.isRead], ⟨rfl, rfl, rfl⟩, rfl,
      by simp [Task.isWrite], rfl, ⟨rfl, rfl, rfl⟩, nofun⟩
  split_ifs with hc
  · exact move_closing hlike rfl (.inl rfl) found
  · have hopen : s.closed = false := by simpa using (not_or.mp hc).2
    -- First the bytes go to the filter, then another read is started.
    have hmid := readMessages_eq F now { s with numReadHandlers := s.numReadHandlers - 1 } data
    dsimp only at hmid
    generalize F.read s.msgFilter (overwrite s.bufferReceiving 0 data) s.messagesReceived = got
      at hmid
    rcases hr : TCPSession.readMessages F now
      { s with numReadHandlers := s.numReadHandlers - 1 } data with ⟨u, effects⟩
    obtain ⟨hu, heffects⟩ := Prod.mk.inj (hr.symm.trans hmid)
    dsimp only
    have hreads := startRead_reads F u
    obtain ⟨f, n, b, reads, hstart⟩ := startRead_eq F u
    rw [hstart] at hreads ⊢
    subst hu heffects
    exact
      { ioThread := rfl
        sessionId := rfl
        posted := rfl
        batches := rfl
        closed := fun hm => hm
        stays := fun hc => hc
        closedBy := .inl rfl
        reads := by
          have h := hreads.1
          simp only [Task.isRead, if_true]
          rw [h]
          simp only [outstandingReads]
          omega
        reads_le := hreads.2
        writes := .inl ⟨rfl, rfl, rfl⟩
        writeCount := by simp [outstandingWrites, Task.isWrite]
        writeCount_le := by simp [outstandingWrites]
        leaves := fun hmem => by
          dsimp only at hmem
          split_ifs at hmem
          · simp at hmem
          · cases hmem
        shutdown := .inl
        outcome := by
          by_cases hfirst : s.messagesReceived = [] ∧ got.messages ≠ []
          · exact .first got.messages rfl ⟨hopen, hopen, rfl, rfl, rfl⟩ hfirst.1 hfirst.2 (if_pos hfirst)
          · exact .receive got.messages rfl ⟨hopen, hopen, rfl, rfl, rfl⟩
              (fun hnil => by_contra fun hne => hfirst ⟨hnil, hne⟩) (if_neg hfirst) }

theorem move_packMessageList (s : TCPSession Φ) (found : Option Conn) :
    Move s found .sessionPackMessageList s.packMessageList := by
  unfold packMessageList
  split_ifs with h
  · exact (Like.refl s _ rfl rfl fun _ => List.isEmpty_iff.mp h).move found
  · exact
      { ioThread := rfl
        sessionId := rfl
        posted := rfl
        batches := rfl
        closed := fun hm => hm
        stays := fun hc => hc
        closedBy := .inl rfl
        reads := by simp [outstandingReads, Task.isRead]
        reads_le := by simp [outstandingReads, Task.isRead]
        writes := .inl ⟨rfl, rfl, rfl⟩
        writeCount := by simp [outstandingWrites, Task.isWrite]
        writeCount_le := by simp [outstandingWrites]
        leaves := fun hmem => by simp at hmem
        shutdown := .inl
        outcome := .deliver rfl (by simpa using h) rfl rfl rfl rfl }

theorem move_handleSafeClose (s : TCPSession Φ) (found : Option Conn) (error : ErrorCode)
    (data : List UInt8) :
    Move s found (.handleSafeClose error data) (s.handleSafeClose error data) := by
  have hmove := (Like.refl s (.handleSafeClose error data) rfl rfl nofun).move found
  unfold handleSafeClose cancelTimer
  split_ifs
  · exact
      { hmove with
        closed := fun hm => hm
        stays := fun hc => hc
        writes := .inl ⟨rfl, rfl, rfl⟩
        leaves := fun hmem => by simp at hmem
        outcome := .timer ⟨rfl, rfl, rfl⟩ nofun rfl }
  · exact
      { hmove with
        closed := fun hm => hm
        stays := fun hc => hc
        writes := .inl ⟨rfl, rfl, rfl⟩
        outcome := .quiet ⟨rfl, rfl, rfl⟩ nofun rfl }
  · exact hmove
  · have hreads : (s.socket.asyncReadSome .handleSafeClose kDynamicThreshold).reads.countP
        (fun op => op.handler == .handleRead) = s.outstandingReads := by
      simp [outstandingReads, Socket.asyncReadSome]
    exact
      { hmove with
        closed := fun hm => hm
        stays := fun hc => hc
        reads := by rw [outstandingReads, hreads]; exact hmove.reads
        reads_le := by rw [outstandingReads, hreads]; exact hmove.reads_le
        writes := .inl ⟨rfl, rfl, rfl⟩
        outcome := .quiet ⟨rfl, rfl, rfl⟩ nofun rfl }

theorem move_closeTimerExpired {s t : TCPSession Φ} (found : Option Conn) {error : ErrorCode}
    (h : s.closeTimerExpired error = some t) : Move s found (.closeTimer error) (t, []) := by
  have hmove := (Like.refl s (.closeTimer error) rfl rfl nofun).move found
  unfold closeTimerExpired at h
  split_ifs at h
  all_goals
    cases h
    exact
      { hmove with
        closed := fun hm => hm
        stays := fun hc => hc
        writes := .inl ⟨rfl, rfl, rfl⟩
        outcome := .quiet ⟨rfl, rfl, rfl⟩ nofun rfl }

/-- Running `task` makes `r` of the session `s` at the time `now`, when the lookup in the queue
gives `found`. -/
inductive Runs (now : Nat) (s : TCPSession Φ) (found : Option Conn) :
    Task → TCPSession Φ × List Effect → Prop
  | handleRead (error : ErrorCode) (data : List UInt8) :
      Runs now s found (.handleRead error data) (s.handleRead F now found error data)
  | hanldeWrite (error : ErrorCode) :
      Runs now s found (.hanldeWrite error) (s.hanldeWrite found error)
  | handleSafeClose (error : ErrorCode) (data : List UInt8) :
      Runs now s found (.handleSafeClose error data) (s.handleSafeClose error data)
  | closeTimer (error : ErrorCode) (t : TCPSession Φ) : s.closeTimerExpired error = some t →
      Runs now s found (.closeTimer error) (t, [])
  | close : Runs now s found .close (s.close .keepAlive found)
  | closeSession (id : TCPSessionID) :
      Runs now s found (.closeSession id) (s.close .closeSession found)
  | packMessageList : Runs now s found .sessionPackMessageList s.packMessageList

variable {F}

theorem Runs.move {now : Nat} {s : TCPSession Φ} {found : Option Conn} {task : Task}
    {r : TCPSession Φ × List Effect} (h : Runs F now s found task r) : Move s found task r := by
  cases h with
  | handleRead error data => exact move_handleRead F now s found error data
  | hanldeWrite error => exact move_hanldeWrite s found error
  | handleSafeClose error data => exact move_handleSafeClose s found error data
  | closeTimer error t ht => exact move_closeTimerExpired found ht
  | close => exact move_close s rfl rfl rfl found
  | closeSession id => exact move_close s rfl rfl rfl found
  | packMessageList => exact move_packMessageList s found

variable (F)

/-! ## `init` -/

/-- What `init` leaves alone, and what it sets. -/
structure Opens (s : TCPSession Φ) (id : TCPSessionID) (r : TCPSession Φ × List Effect) : Prop where
  ioThread : r.1.ioThread = s.ioThread
  sessionId : r.1.sessionId = id
  closed : r.1.closed = false
  trace : r.1.trace = s.trace
  messagesReceived : r.1.messagesReceived = s.messagesReceived
  reads : r.1.numReadHandlers - r.1.outstandingReads = s.numReadHandlers - s.outstandingReads
  reads_le : r.1.outstandingReads ≤ s.outstandingReads + 1
  buffers : SameBuffers s r.1
  numWriteHandlers : r.1.numWriteHandlers = s.numWriteHandlers
  outstandingWrites : r.1.outstandingWrites = s.outstandingWrites
  shutdown : r.1.socket.sendShutdown = s.socket.sendShutdown
  effects : r.2 = [.queueAdd]

theorem init_opens (now : Nat) (s : TCPSession Φ) (id : TCPSessionID) :
    Opens s id (s.init F now id) := by
  unfold init
  dsimp only
  have hreads := startRead_reads F
    { s with closed := false, sessionId := id, lastActivityTime := now }
  obtain ⟨f, n, b, reads, hread⟩ := startRead_eq F
    { s with closed := false, sessionId := id, lastActivityTime := now }
  rw [hread] at hreads ⊢
  exact ⟨rfl, rfl, rfl, rfl, rfl, hreads.1, hreads.2, ⟨rfl, rfl, rfl⟩, rfl, rfl, rfl, rfl⟩

/-! ## `post_message_list` -/

/-- The messages of the batches that were passed on to the filter. -/
def accepted (s : TCPSession Φ) : List NetMessage := (s.trace.batches.map Prod.fst).flatten

/-- The filter announces a size for a batch that comes to an open session. -/
def Announces (s : TCPSession Φ) (messages : List NetMessage) : Prop :=
  s.closed = false → messages ≠ [] → (F.bytesWannaWrite s.msgFilter messages).1 ≠ 0

/-- What `post_message_list` leaves alone, and what it records. -/
structure Posts (s : TCPSession Φ) (messages : List NetMessage) (t : TCPSession Φ) : Prop where
  run : s.postMessageList F messages = some t
  ioThread : t.ioThread = s.ioThread
  sessionId : t.sessionId = s.sessionId
  closed : t.closed = s.closed
  closedBy : t.trace.closedBy = s.trace.closedBy
  numReadHandlers : t.numReadHandlers = s.numReadHandlers
  outstandingReads : t.outstandingReads = s.outstandingReads
  writeCount : t.numWriteHandlers - t.outstandingWrites = s.numWriteHandlers - s.outstandingWrites
  writes_of_closed : s.closed = true → t.outstandingWrites = s.outstandingWrites
  shutdown : t.socket.sendShutdown = s.socket.sendShutdown
  quiet : Quiet s t
  posted : t.trace.posted = if s.closed then s.trace.posted else s.trace.posted ++ messages
  accepted : Announces F s messages →
    t.accepted = if s.closed then s.accepted else s.accepted ++ messages

theorem postMessageList_posts {s t : TCPSession Φ} {messages : List NetMessage}
    (h : s.postMessageList F messages = some t) : Posts F s messages t := by
  have hrun := h
  unfold postMessageList at h
  dsimp only at h
  split_ifs at h with h₁ h₂
  · cases h
    rcases Bool.or_eq_true_iff.mp h₁ with hc | hm
    · exact ⟨hrun, rfl, rfl, rfl, rfl, rfl, rfl, rfl, fun _ => rfl, rfl, ⟨rfl, rfl, rfl⟩,
        (if_pos hc).symm,
        fun _ => (if_pos hc).symm⟩
    · rw [List.isEmpty_iff.mp hm] at hrun ⊢
      exact ⟨hrun, rfl, rfl, rfl, rfl, rfl, rfl, rfl, fun _ => rfl, rfl, ⟨rfl, rfl, rfl⟩, by simp,
        by simp⟩
  all_goals
    cases h
    obtain ⟨hc, hm⟩ : s.closed = false ∧ messages ≠ [] := by simpa using h₁
    refine ⟨hrun, rfl, rfl, rfl, rfl, rfl, rfl,
      by
        simp only [outstandingWrites, Socket.asyncWrite, List.length_append, List.length_singleton]
        try omega,
      fun hclosed => absurd (hc.symm.trans hclosed) (by decide), rfl, ⟨rfl, rfl, rfl⟩,
      by simp [hc], fun hannounces => ?_⟩
    first
    | exact absurd h₂ (hannounces hc hm)
    | simp [TCPSession.accepted, hc]

/-- What has been handed to the socket stays handed. -/
theorem postMessageList_handed {s t : TCPSession Φ} {messages : List NetMessage}
    (h : s.postMessageList F messages = some t) : s.socket.handed <+: t.socket.handed := by
  unfold postMessageList at h
  dsimp only at h
  split_ifs at h <;> cases h
  · exact List.prefix_refl _
  · exact List.prefix_refl _
  · exact List.prefix_append _ _
  · exact List.prefix_refl _

theorem Move.handed {s : TCPSession Φ} {found : Option Conn} {task : Task}
    {r : TCPSession Φ × List Effect} (h : Move s found task r) :
    s.socket.handed <+: r.1.socket.handed := by
  rcases h.writes with hsame | hnext
  · rw [hsame.handed]
  · exact ⟨_, hnext.handed.symm⟩

end TCPSession
end EddyServer
