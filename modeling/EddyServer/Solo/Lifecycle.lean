import EddyServer.MessageFilter.Oversize
import EddyServer.Solo.Basic

/-!
# The life of a session

Five functions can close a session, and closing waits while a write is outstanding. `Lives` ties
`closed_`, the two counters and the entry in the queue together, whatever completes and is called in
whatever order; that the manager hears of the end exactly once follows from it.
-/

namespace EddyServer

/-! ## How the functions of a session end it -/

namespace TCPSession

variable {Φ : Type} {F : MessageFilterInterface Φ}

/-- If the filter announces a size for a batch that comes to the open session, it appends
something. -/
def Appends (F : MessageFilterInterface Φ) (s : TCPSession Φ) (messages : List NetMessage) : Prop :=
  s.closed = false → messages ≠ [] → (F.bytesWannaWrite s.msgFilter messages).1 ≠ 0 →
    s.encoding F messages ≠ []

/-- What `task` does about the bytes that are being sent. -/
inductive Sends (s : TCPSession Φ) (task : Task) (t : TCPSession Φ) : Prop
  /-- Nothing, as long as the session is not closed by the write that has completed. -/
  | same : t.socket.writing = s.socket.writing → t.bufferSending = s.bufferSending →
      (task.isWrite = true → t.closed = true) → Sends s task t
  /-- The write has completed and nothing waits. -/
  | done : task.isWrite = true → t.socket.writing = s.socket.writing → t.bufferSending = [] →
      Sends s task t
  /-- The write has completed and the next one is started. -/
  | next : task.isWrite = true → t.bufferSending ≠ [] →
      t.socket.writing = s.socket.writing ++ [t.bufferSending] → Sends s task t

/-- What `task` does about the end of session `s`, and about its writes. -/
structure Ends (s : TCPSession Φ) (found : Option Conn) (task : Task)
    (r : TCPSession Φ × List Effect) : Prop where
  /-- A session that is closed and has no write outstanding leaves its queue, now if not before. -/
  settles : r.1.closed = true → r.1.numWriteHandlers ≤ 0 →
    .queueRemove ∈ r.2 ∨ found = none ∨ s.closed = true ∧ s.numWriteHandlers ≤ 0
  sends : Sends s task r.1

/-- A function that neither closes nor writes. -/
theorem ends_of_same {s : TCPSession Φ} {task : Task} {r : TCPSession Φ × List Effect}
    (found : Option Conn) (htask : task.isWrite = false) (hclosed : r.1.closed = s.closed)
    (hnum : r.1.numWriteHandlers = s.numWriteHandlers)
    (hwriting : r.1.socket.writing = s.socket.writing)
    (hsending : r.1.bufferSending = s.bufferSending) : Ends s found task r where
  settles := by
    intro hc hn
    rw [hclosed] at hc
    rw [hnum] at hn
    exact .inr (.inr ⟨hc, hn⟩)
  sends := .same hwriting hsending (by simp [htask])

/-- `hanlde_close` of what session `s` has become. -/
theorem hanldeClose_ends {s u : TCPSession Φ} (found : Option Conn) (task : Task)
    (hclosed : u.closed = true) (hwriting : u.socket.writing = s.socket.writing)
    (hsending : u.bufferSending = s.bufferSending) : Ends s found task (u.hanldeClose found) := by
  unfold hanldeClose
  split_ifs with hbusy
  · exact ⟨fun _ hn => absurd hbusy (Int.not_lt.mpr hn), .same hwriting hsending fun _ => hclosed⟩
  · cases found with
    | none => exact ⟨fun _ _ => .inr (.inl rfl), .same hwriting hsending fun _ => hclosed⟩
    | some entry =>
        exact ⟨fun _ _ => .inl (by simp), .same hwriting hsending fun _ => hclosed⟩

theorem close_ends (s : TCPSession Φ) (cause : CloseCause) (found : Option Conn) {task : Task}
    (htask : task.isWrite = false) : Ends s found task (s.close cause found) := by
  unfold close
  split_ifs
  · exact ends_of_same found htask rfl rfl rfl rfl
  · exact hanldeClose_ends found task rfl rfl rfl

theorem hanldeWrite_ends (s : TCPSession Φ) (found : Option Conn) (error : ErrorCode) :
    Ends s found (.hanldeWrite error) (s.hanldeWrite found error) := by
  unfold hanldeWrite
  dsimp only
  split_ifs with hc hb
  · exact hanldeClose_ends found _ rfl rfl rfl
  · have hopen : s.closed = false := by simpa using (not_or.mp hc).2
    refine ⟨fun hclosed => ?_, .done rfl rfl rfl⟩
    exact absurd (hopen.symm.trans hclosed) (by decide)
  · have hopen : s.closed = false := by simpa using (not_or.mp hc).2
    refine ⟨fun hclosed => absurd (hopen.symm.trans hclosed) (by decide), .next rfl ?_ rfl⟩
    -- the write that is started covers a buffer that is not empty
    intro hnil
    exact absurd (List.isEmpty_iff.mpr hnil) hb

theorem handleRead_ends (now : Nat) (s : TCPSession Φ) (found : Option Conn) (error : ErrorCode)
    (data : List UInt8) :
    Ends s found (.handleRead error data) (s.handleRead F now found error data) := by
  unfold handleRead
  dsimp only
  split_ifs with hc
  · exact hanldeClose_ends found _ rfl rfl rfl
  · obtain ⟨f, n, b, reads, hstart⟩ := startRead_eq F
      (TCPSession.readMessages F now { s with numReadHandlers := s.numReadHandlers - 1 } data).1
    rw [readMessages_eq] at hstart ⊢
    rw [hstart]
    exact ends_of_same found rfl rfl rfl rfl rfl

theorem handleSafeClose_ends (s : TCPSession Φ) (found : Option Conn) (error : ErrorCode)
    (data : List UInt8) :
    Ends s found (.handleSafeClose error data) (s.handleSafeClose error data) := by
  unfold handleSafeClose
  split_ifs <;> exact ends_of_same found rfl rfl rfl rfl rfl

theorem closeTimerExpired_ends {s t : TCPSession Φ} (found : Option Conn) {error : ErrorCode}
    (h : s.closeTimerExpired error = some t) : Ends s found (.closeTimer error) (t, []) := by
  unfold closeTimerExpired at h
  split_ifs at h <;> cases h <;> exact ends_of_same found rfl rfl rfl rfl rfl

theorem packMessageList_ends (s : TCPSession Φ) (found : Option Conn) :
    Ends s found .sessionPackMessageList s.packMessageList := by
  unfold packMessageList
  split_ifs <;> exact ends_of_same found rfl rfl rfl rfl rfl

theorem Runs.ends {now : Nat} {s : TCPSession Φ} {found : Option Conn} {task : Task}
    {r : TCPSession Φ × List Effect} (h : Runs F now s found task r) : Ends s found task r := by
  cases h with
  | handleRead error data => exact handleRead_ends now s found error data
  | hanldeWrite error => exact hanldeWrite_ends s found error
  | handleSafeClose error data => exact handleSafeClose_ends s found error data
  | closeTimer error t ht => exact closeTimerExpired_ends found ht
  | close => exact close_ends s _ found rfl
  | closeSession id => exact close_ends s _ found rfl
  | packMessageList => exact packMessageList_ends s found

/-- `post_message_list` starts a write when nothing is being sent, and sends something then. -/
theorem postMessageList_sends {s t : TCPSession Φ} {messages : List NetMessage}
    (h : s.postMessageList F messages = some t) (happends : Appends F s messages) :
    t.bufferSending = s.bufferSending ∧ t.outstandingWrites = s.outstandingWrites ∨
      s.bufferSending = [] ∧ t.bufferSending ≠ [] ∧
        t.outstandingWrites = s.outstandingWrites + 1 := by
  unfold postMessageList at h
  dsimp only at h
  split_ifs at h with hskip hzero _ hidle
  · cases h
    exact .inl ⟨rfl, rfl⟩
  · cases h
    exact .inl ⟨rfl, rfl⟩
  · cases h
    obtain ⟨hopen, hne⟩ : s.closed = false ∧ messages ≠ [] := by simpa using hskip
    have hsome := happends hopen hne hzero
    rw [encoding, if_neg hskip] at hsome
    refine .inr ⟨List.isEmpty_iff.mp hidle, fun hnil => ?_, ?_⟩
    · exact hsome (List.append_eq_nil_iff.mp hnil).2
    · simp [outstandingWrites, Socket.asyncWrite]
  · cases h
    exact .inl ⟨rfl, rfl⟩

end TCPSession

namespace Solo

variable {Φ : Type} {F : MessageFilterInterface Φ}

/-! ## Kinds of steps -/

theorem queued_of_found {σ : Solo Φ} (h : σ.found.isSome = true) : σ.queued = true := by
  unfold found at h
  by_contra hq
  rw [if_neg hq] at h
  cases h

/-- The function of the session that a step runs. -/
def runs (σ : Solo Φ) : Act → Option Task
  | .run => σ.completions.head?
  | .close => some (.closeSession 0)
  | .keepAlive => some .close
  | .pack => some .sessionPackMessageList
  | .readDone .. | .writeDone _ | .timerDone | .post _ | .deliver | .tick _ => none

/-- What a step leaves of the queue before a function of the session runs. -/
def taken (σ : Solo Φ) : Act → Solo Φ
  | .run => { σ with completions := σ.completions.tail }
  | _ => σ

/-- What a step is: a function of the session runs, or one of the things that run none. -/
inductive Event (F : MessageFilterInterface Φ) (σ : Solo Φ) : Act → Solo Φ → Prop
  | move (a : Act) (task : Task) (r : TCPSession Φ × List Effect) : σ.runs a = some task →
      TCPSession.Runs F σ.clock σ.session σ.found task r →
      Event F σ a ((σ.taken a).onSession r)
  | post (messages : List NetMessage) (s : TCPSession Φ) :
      TCPSession.Posts F σ.session messages s →
      Event F σ (.post messages)
        { σ with session := s, encoded := σ.encoded ++ σ.session.encoding F messages }
  | complete (a : Act) (task : Task) (s : TCPSession Φ) : σ.runs a = none →
      TCPSession.Completes σ.session task s → Event F σ a (σ.complete s task)
  | deliver : Event F σ .deliver { σ with session := { σ.session with messagesReceived := [] } }
  | tick (n : Nat) : Event F σ (.tick n) { σ with clock := σ.clock + n }

/-- A completion handler runs on the session and nothing else. -/
theorem runs_of_exec {σ σ' : Solo Φ} {task : Task} (h : exec F σ task = some σ') :
    ∃ r, σ' = σ.onSession r ∧ TCPSession.Runs F σ.clock σ.session σ.found task r := by
  cases task with
  | handleRead error data =>
      cases h
      exact ⟨_, rfl, .handleRead error data⟩
  | hanldeWrite error =>
      cases h
      exact ⟨_, rfl, .hanldeWrite error⟩
  | handleSafeClose error data =>
      cases h
      exact ⟨_, rfl, .handleSafeClose error data⟩
  | closeTimer error =>
      obtain ⟨s, hs, rfl⟩ := Option.map_eq_some_iff.mp h
      exact ⟨(s, []), rfl, .closeTimer error s hs⟩
  | _ => cases h

theorem event_of_step {σ σ' : Solo Φ} {a : Act} (h : step F σ a = some σ') :
    Event F σ a σ' := by
  unfold step at h
  cases a with
  | run =>
      dsimp only at h
      cases ht : σ.completions with
      | nil => rw [ht] at h; cases h
      | cons task rest =>
          rw [ht] at h
          obtain ⟨r, rfl, hruns⟩ := runs_of_exec h
          have hmove := Event.move .run task r (congrArg List.head? ht) hruns
          rw [taken, ht] at hmove
          exact hmove
  | readDone i error data =>
      dsimp only at h
      cases hop : σ.session.socket.reads[i]? with
      | none => rw [hop] at h; cases h
      | some op =>
          rw [hop] at h
          dsimp only at h
          split_ifs at h
          cases h
          exact .complete _ _ _ rfl (TCPSession.completes_read hop error data)
  | writeDone error =>
      dsimp only at h
      cases hw : σ.session.socket.writing with
      | nil => rw [hw] at h; cases h
      | cons range writing =>
          rw [hw] at h
          cases h
          exact .complete _ _ _ rfl (TCPSession.completes_write hw error)
  | timerDone =>
      dsimp only at h
      split_ifs at h with htimer
      cases h
      exact .complete _ _ _ rfl (TCPSession.completes_timer htimer)
  | post messages =>
      obtain ⟨s, hs, rfl⟩ := Option.map_eq_some_iff.mp h
      exact .post messages s (TCPSession.postMessageList_posts F hs)
  | close => cases h; exact .move .close _ _ rfl (.closeSession 0)
  | keepAlive => cases h; exact .move .keepAlive _ _ rfl .close
  | pack => cases h; exact .move .pack _ _ rfl .packMessageList
  | deliver => cases h; exact .deliver
  | tick n => cases h; exact .tick _

/-! ## What the effects do -/

/-- The task is `on_session_closed`. -/
def isNotice : Task → Bool
  | .onSessionClosed _ => true
  | _ => false

/-- What becomes of `σ` when its session has run a function with result `r`. -/
inductive After (σ : Solo Φ) (r : TCPSession Φ × List Effect) : Solo Φ → Prop
  | stays (more posts : List Task) : .queueRemove ∉ r.2 →
      (∀ task ∈ more, task = .closeTimer .operationAborted) →
      (∀ task ∈ posts, isNotice task = false) →
      After σ r
        { σ with
          session := r.1
          completions := σ.completions ++ more
          posted := σ.posted ++ posts }
  | leaves (id : TCPSessionID) (more : List Task) : σ.found ≠ none → .queueRemove ∈ r.2 →
      r.1.closed = true → (∀ task ∈ more, task = .closeTimer .operationAborted) →
      After σ r
        { σ with
          session := r.1
          queued := false
          completions := σ.completions ++ more
          posted := σ.posted ++ [.onSessionClosed id] }

theorem after_of_move {σ : Solo Φ} {s : TCPSession Φ} {task : Task}
    {r : TCPSession Φ × List Effect} (h : TCPSession.Move s σ.found task r) :
    After σ r (σ.onSession r) := by
  have hnone : r.2 = [] → After σ r (σ.onSession r) := by
    intro hr
    have hstays := After.stays (σ := σ) (r := r) [] [] (by simp [hr]) (by simp) (by simp)
    simpa [onSession, hr] using hstays
  cases h.outcome with
  | quiet _ _ heffects => exact hnone heffects
  | timer _ _ heffects =>
      have hstays := After.stays (σ := σ) (r := r) [.closeTimer .operationAborted] []
        (by simp [heffects]) (by simp) (by simp)
      simpa [onSession, heffects, effect] using hstays
  | deregister entry hfound hclosed _ _ _ heffects =>
      have hleaves := fun more => After.leaves (σ := σ) (r := r) s.sessionId more
        (by rw [hfound]; exact Option.some_ne_none _) (by simp [heffects]) hclosed
      rcases s.cancelTimer_cases with hnil | hone
      · simpa [onSession, heffects, TCPSession.leaving, hnil, effect] using hleaves [] (by simp)
      · simpa [onSession, heffects, TCPSession.leaving, hone, effect] using
          hleaves [.closeTimer .operationAborted] (by simp)
  | receive _ _ _ _ heffects => exact hnone heffects
  | first _ _ _ _ _ heffects =>
      have hflush : TCPSession.flushTask s.ioThread = .sessionSendMessageListDirectly ∨
          TCPSession.flushTask s.ioThread = .sessionPackMessageList := by
        unfold TCPSession.flushTask
        split_ifs
        · exact .inl rfl
        · exact .inr rfl
      rcases hflush with hflush | hflush
      · have hstays := After.stays (σ := σ) (r := r) [] [.sessionSendMessageListDirectly]
          (by simp [heffects]) (by simp) (by simp [isNotice])
        simpa [onSession, heffects, effect, hflush] using hstays
      · have hstays := After.stays (σ := σ) (r := r) [] [.sessionPackMessageList]
          (by simp [heffects]) (by simp) (by simp [isNotice])
        simpa [onSession, heffects, effect, hflush] using hstays
  | deliver _ _ _ _ _ heffects =>
      have hstays := After.stays (σ := σ) (r := r) []
        [.sendMessageListToHandler s.sessionId s.messagesReceived]
        (by simp [heffects]) (by simp) (by simp [isNotice])
      simpa [onSession, heffects, effect] using hstays

/-! ## The invariant -/

/-- How often `on_session_closed` has been posted. -/
def notices (σ : Solo Φ) : Nat := σ.posted.countP isNotice

/-- The reads of `handle_read` that are outstanding: on the socket, or completed and waiting for
`handle_read` to run. -/
def readsOf (σ : Solo Φ) : Nat := σ.session.outstandingReads + σ.completions.countP Task.isRead

/-- The writes that are outstanding: on the socket, or completed and waiting for `hanlde_write`. -/
def writesOf (σ : Solo Φ) : Nat := σ.session.outstandingWrites + σ.completions.countP Task.isWrite

/-- The session is in its queue until it is closed and has no write outstanding. -/
structure Lives (σ : Solo Φ) : Prop where
  reads : σ.session.numReadHandlers = σ.readsOf
  reads_le : σ.session.numReadHandlers ≤ 1
  writes : σ.session.numWriteHandlers = σ.writesOf
  left : σ.queued = false ↔ σ.session.closed = true ∧ σ.session.numWriteHandlers = 0
  notices : σ.notices = if σ.queued then 0 else 1

theorem Lives.start (conn : Conn) (clock : Nat) (ioThread : ThreadIx) (filter : Φ)
    (keepAliveTime : Nat) (id : TCPSessionID) :
    Lives (start F conn clock ioThread filter keepAliveTime id) := by
  have hopens := TCPSession.init_opens F clock (.new ioThread filter keepAliveTime) id
  have hreads := hopens.reads
  have hle := hopens.reads_le
  unfold Solo.start onSession
  dsimp only
  rw [hopens.effects]
  have hzero : (TCPSession.new ioThread filter keepAliveTime).outstandingReads = 0 := rfl
  have hnum : (TCPSession.new ioThread filter keepAliveTime).numReadHandlers = 0 := rfl
  refine ⟨?_, ?_, ?_, ?_, rfl⟩
  · simp only [List.foldl_cons, List.foldl_nil, effect, readsOf, List.countP_nil]
    omega
  · simp only [List.foldl_cons, List.foldl_nil, effect]
    omega
  · simp only [List.foldl_cons, List.foldl_nil, effect, writesOf, List.countP_nil]
    rw [hopens.numWriteHandlers, hopens.outstandingWrites]
    rfl
  · simp [effect, hopens.closed]

/-- The task is a completion handler. -/
def isHandler : Task → Bool
  | .handleRead .. | .hanldeWrite _ | .handleSafeClose .. | .closeTimer _ => true
  | _ => false

/-- Only completion handlers count. -/
def Counts (p : Task → Bool) : Prop := ∀ task, isHandler task = false → p task = false

theorem counts_isRead : Counts Task.isRead := by
  intro task htask
  cases task <;> first | rfl | cases htask

theorem counts_isWrite : Counts Task.isWrite := by
  intro task htask
  cases task <;> first | rfl | cases htask

/-- What of `σ` has gone when `task` starts to run: `task`, if it is a completion handler. -/
structure Taken (σ τ : Solo Φ) (task : Task) : Prop where
  session : τ.session = σ.session
  queued : τ.queued = σ.queued
  posted : τ.posted = σ.posted
  found : τ.found = σ.found
  completions : σ.completions = task :: τ.completions ∨
    τ.completions = σ.completions ∧ isHandler task = false

theorem taken_of_runs {σ : Solo Φ} {a : Act} {task : Task} (h : σ.runs a = some task) :
    Taken σ (σ.taken a) task := by
  cases a with
  | run =>
      obtain ⟨rest, ht⟩ := List.head?_eq_some_iff.mp h
      exact ⟨rfl, rfl, rfl, rfl, .inl (by rw [taken, ht]; rfl)⟩
  | close => cases h; exact ⟨rfl, rfl, rfl, rfl, .inr ⟨rfl, rfl⟩⟩
  | keepAlive => cases h; exact ⟨rfl, rfl, rfl, rfl, .inr ⟨rfl, rfl⟩⟩
  | pack => cases h; exact ⟨rfl, rfl, rfl, rfl, .inr ⟨rfl, rfl⟩⟩
  | _ => cases h

theorem Taken.count {σ τ : Solo Φ} {task : Task} (h : Taken σ τ task) {p : Task → Bool}
    (hp : Counts p) :
    τ.completions.countP p + (if p task then 1 else 0) = σ.completions.countP p := by
  rcases h.completions with hhead | ⟨hsame, hnone⟩
  · rw [hhead, List.countP_cons]
  · rw [hsame, hp task hnone]
    simp

theorem Taken.reads {σ τ : Solo Φ} {task : Task} (h : Taken σ τ task) :
    τ.readsOf + (if task.isRead then 1 else 0) = σ.readsOf := by
  have hcount := h.count counts_isRead
  unfold readsOf
  rw [h.session, ← hcount]
  omega

theorem Taken.writes {σ τ : Solo Φ} {task : Task} (h : Taken σ τ task) :
    τ.writesOf + (if task.isWrite then 1 else 0) = σ.writesOf := by
  have hcount := h.count counts_isWrite
  unfold writesOf
  rw [h.session, ← hcount]
  omega

theorem After.session {σ υ : Solo Φ} {r : TCPSession Φ × List Effect} (h : After σ r υ) :
    υ.session = r.1 := by
  cases h <;> rfl

theorem After.encoded {σ υ : Solo Φ} {r : TCPSession Φ × List Effect} (h : After σ r υ) :
    υ.encoded = σ.encoded := by
  cases h <;> rfl

theorem After.queued {σ υ : Solo Φ} {r : TCPSession Φ × List Effect} (h : After σ r υ) :
    υ.queued = true ↔ σ.queued = true ∧ .queueRemove ∉ r.2 := by
  cases h with
  | stays more posts hstays _ _ => exact ⟨fun hq => ⟨hq, hstays⟩, fun hq => hq.1⟩
  | leaves id more _ hremove _ _ =>
      refine ⟨fun hq => ?_, fun hq => absurd hremove hq.2⟩
      cases hq

/-- Only an aborted wait has been queued. -/
theorem After.count {σ υ : Solo Φ} {r : TCPSession Φ × List Effect} (h : After σ r υ)
    {p : Task → Bool} (hp : p (.closeTimer .operationAborted) = false) :
    υ.completions.countP p = σ.completions.countP p := by
  have hzero : ∀ more : List Task, (∀ task ∈ more, task = .closeTimer .operationAborted) →
      (σ.completions ++ more).countP p = σ.completions.countP p := by
    intro more hmore
    rw [List.countP_append, Nat.add_eq_left, List.countP_eq_zero]
    intro task hmem htrue
    rw [hmore task hmem, hp] at htrue
    cases htrue
  cases h with
  | stays more posts _ hmore _ => exact hzero more hmore
  | leaves id more _ _ _ hmore => exact hzero more hmore

/-- What a function of the session does to the counts. -/
theorem counts_of_after {σ τ : Solo Φ} {task : Task} {r : TCPSession Φ × List Effect}
    (htaken : Taken σ τ task) (hmove : TCPSession.Move σ.session σ.found task r) {υ : Solo Φ}
    (hafter : After τ r υ) :
    υ.session = r.1 ∧
      r.1.numReadHandlers - υ.readsOf = σ.session.numReadHandlers - σ.readsOf ∧
      υ.readsOf ≤ σ.readsOf ∧
      r.1.numWriteHandlers - υ.writesOf = σ.session.numWriteHandlers - σ.writesOf ∧
      υ.writesOf ≤ σ.writesOf ∧
      υ.writesOf + (if task.isWrite then 1 else 0) + σ.session.outstandingWrites =
        σ.writesOf + r.1.outstandingWrites := by
  have hreads := hmove.reads
  have hreadsLe := hmove.reads_le
  have hwrites := hmove.writeCount
  have hwritesLe := hmove.writeCount_le
  have htakenReads := htaken.reads
  have htakenWrites := htaken.writes
  unfold readsOf writesOf at *
  rw [htaken.session] at htakenReads htakenWrites
  rw [hafter.session, hafter.count rfl, hafter.count rfl]
  split_ifs at * <;> exact ⟨rfl, by omega, by omega, by omega, by omega, by omega⟩

/-- A function of the session runs. -/
theorem Lives.move {σ τ : Solo Φ} (h : Lives σ) {task : Task} {r : TCPSession Φ × List Effect}
    (htaken : Taken σ τ task) (hmove : TCPSession.Move σ.session σ.found task r)
    (hends : TCPSession.Ends σ.session σ.found task r) : Lives (τ.onSession r) := by
  have hafter : After τ r (τ.onSession r) :=
    after_of_move (σ := τ) (s := σ.session) (htaken.found ▸ hmove)
  obtain ⟨hsession, hreads, hreadsLe, hwrites, hwritesLe, -⟩ := counts_of_after htaken hmove hafter
  have hleft := h.left
  have hnotices := h.notices
  have hcounted := h.reads
  have hle := h.reads_le
  have hbusy := h.writes
  generalize τ.onSession r = υ at hafter hsession hreads hreadsLe hwrites hwritesLe ⊢
  refine ⟨by rw [hsession]; omega, by rw [hsession]; omega, by rw [hsession]; omega, ?_, ?_⟩
  · rw [hsession]
    cases hafter with
    | stays more posts hstays _ _ =>
        show τ.queued = false ↔ _
        rw [htaken.queued, hleft]
        constructor
        · rintro ⟨hclosed, hzero⟩
          exact ⟨hmove.stays hclosed, by omega⟩
        · rintro ⟨hclosed, hzero⟩
          -- Closed without a write: it leaves now, is not in the queue, or was closed before.
          rcases hends.settles hclosed (by omega) with hremove | hnone | ⟨hc, hn⟩
          · exact absurd hremove hstays
          · rw [← hleft]
            unfold found at hnone
            split_ifs at hnone with hq
            simpa using hq
          · exact ⟨hc, by omega⟩
    | leaves id more _ hremove hclosed _ =>
        have hzero := (hmove.leaves hremove).1
        exact ⟨fun _ => ⟨hclosed, by omega⟩, fun _ => rfl⟩
  · cases hafter with
    | stays more posts _ _ hposts =>
        have hzero : posts.countP isNotice = 0 := by
          rw [List.countP_eq_zero]
          intro task' hmem htrue
          rw [hposts task' hmem] at htrue
          cases htrue
        show (τ.posted ++ posts).countP isNotice = if τ.queued then 0 else 1
        rw [List.countP_append, hzero, Nat.add_zero, htaken.posted, htaken.queued]
        exact hnotices
    | leaves id more hfound _ _ _ =>
        -- It has been in the queue until now, so this notice is the first.
        have hq : σ.queued = true := by
          by_contra hq
          rw [htaken.found, found, if_neg hq] at hfound
          exact hfound rfl
        rw [hq] at hnotices
        show List.countP isNotice (τ.posted ++ [.onSessionClosed id]) = 1
        rw [List.countP_append, htaken.posted]
        have hnone : σ.posted.countP isNotice = 0 := hnotices
        rw [hnone]
        rfl

theorem Lives.step {σ σ' : Solo Φ} {a : Act} (h : Lives σ) (hev : Event F σ a σ') : Lives σ' := by
  cases hev with
  | move _ task r htask hruns => exact h.move (taken_of_runs htask) hruns.move hruns.ends
  | post messages s hposts =>
      have hwrites := h.writes
      have hcount := hposts.writeCount
      refine ⟨?_, ?_, ?_, ?_, h.notices⟩
      · show s.numReadHandlers = (s.outstandingReads + _ : Nat)
        rw [hposts.numReadHandlers, hposts.outstandingReads]
        exact h.reads
      · show s.numReadHandlers ≤ 1
        rw [hposts.numReadHandlers]
        exact h.reads_le
      · show s.numWriteHandlers = (s.outstandingWrites + σ.completions.countP Task.isWrite : Nat)
        unfold writesOf at hwrites
        omega
      · show σ.queued = false ↔ s.closed = true ∧ s.numWriteHandlers = 0
        rw [h.left, hposts.closed]
        -- a closed session starts no write
        constructor
        · rintro ⟨hclosed, hzero⟩
          have hsame := hposts.writes_of_closed hclosed
          exact ⟨hclosed, by omega⟩
        · rintro ⟨hclosed, hzero⟩
          have hsame := hposts.writes_of_closed hclosed
          exact ⟨hclosed, by omega⟩
  | complete _ task s _ hs =>
      obtain ⟨k, timer, hsame⟩ := hs.same
      have hreads := hs.reads
      have hwrites := hs.writes
      have hcounted := h.reads
      have hbusy := h.writes
      unfold readsOf at hcounted
      unfold writesOf at hbusy
      refine ⟨?_, ?_, ?_, ?_, h.notices⟩
      · show s.numReadHandlers =
          (s.outstandingReads + (σ.completions ++ [task]).countP Task.isRead : Nat)
        rw [List.countP_append, List.countP_singleton]
        rw [show s.numReadHandlers = σ.session.numReadHandlers by rw [hsame]]
        omega
      · show s.numReadHandlers ≤ 1
        rw [hsame]
        exact h.reads_le
      · show s.numWriteHandlers =
          (s.outstandingWrites + (σ.completions ++ [task]).countP Task.isWrite : Nat)
        rw [List.countP_append, List.countP_singleton]
        rw [show s.numWriteHandlers = σ.session.numWriteHandlers by rw [hsame]]
        omega
      · show σ.queued = false ↔ s.closed = true ∧ s.numWriteHandlers = 0
        rw [hsame]
        exact h.left
  | deliver => exact ⟨h.reads, h.reads_le, h.writes, h.left, h.notices⟩
  | tick n => exact ⟨h.reads, h.reads_le, h.writes, h.left, h.notices⟩

/-! ## One write at a time -/

/-- The bytes that are being sent are those of the one outstanding write. -/
structure OneWrite (σ : Solo Φ) : Prop where
  idle : σ.session.bufferSending = [] → σ.writesOf = 0
  le_one : σ.writesOf ≤ 1

/-- A filter that announces a size appends something. -/
def Appending (F : MessageFilterInterface Φ) (σ : Solo Φ) (a : Act) : Prop :=
  ∀ messages, a = .post messages → TCPSession.Appends F σ.session messages

theorem OneWrite.start (conn : Conn) (clock : Nat) (ioThread : ThreadIx) (filter : Φ)
    (keepAliveTime : Nat) (id : TCPSessionID) :
    OneWrite (start F conn clock ioThread filter keepAliveTime id) := by
  have hopens := TCPSession.init_opens F clock (.new ioThread filter keepAliveTime) id
  have hzero : (Solo.start F conn clock ioThread filter keepAliveTime id).writesOf = 0 := by
    unfold Solo.start onSession writesOf
    dsimp only
    rw [hopens.effects]
    exact hopens.outstandingWrites
  exact ⟨fun _ => hzero, by omega⟩

theorem OneWrite.move {σ τ : Solo Φ} (h : OneWrite σ) {task : Task}
    {r : TCPSession Φ × List Effect} (htaken : Taken σ τ task)
    (hmove : TCPSession.Move σ.session σ.found task r)
    (hends : TCPSession.Ends σ.session σ.found task r) : OneWrite (τ.onSession r) := by
  have hafter : After τ r (τ.onSession r) :=
    after_of_move (σ := τ) (s := σ.session) (htaken.found ▸ hmove)
  obtain ⟨hsession, -, -, -, hle, hwrites⟩ := counts_of_after htaken hmove hafter
  have hone := h.le_one
  refine ⟨fun hnil => ?_, by omega⟩
  rw [hsession] at hnil
  cases hends.sends with
  | same hwriting hsending _ =>
      have hzero := h.idle (hsending.symm.trans hnil)
      omega
  | done hwrite hwriting _ =>
      have hsame : r.1.outstandingWrites = σ.session.outstandingWrites :=
        congrArg List.length hwriting
      rw [if_pos hwrite] at hwrites
      omega
  | next _ hsome _ => exact absurd hnil hsome

theorem OneWrite.step {σ σ' : Solo Φ} {a : Act} (h : OneWrite σ) (hev : Event F σ a σ')
    (hok : Appending F σ a) : OneWrite σ' := by
  have hone := h.le_one
  have hidle := h.idle
  cases hev with
  | move _ task r htask hruns => exact h.move (taken_of_runs htask) hruns.move hruns.ends
  | post messages s hposts =>
      have hqueue : ∀ e, (({ σ with session := s, encoded := e } : Solo Φ)).writesOf =
          s.outstandingWrites + σ.completions.countP Task.isWrite := fun _ => rfl
      unfold writesOf at hone hidle
      rcases TCPSession.postMessageList_sends hposts.run (hok messages rfl) with
        ⟨hsending, hwrites⟩ | ⟨hnil, hsome, hwrites⟩
      · refine ⟨fun hnil => ?_, ?_⟩
        · have hzero := hidle (hsending.symm.trans hnil)
          rw [hqueue]
          omega
        · rw [hqueue]
          omega
      · have hzero := hidle hnil
        refine ⟨fun hnil' => absurd hnil' hsome, ?_⟩
        rw [hqueue]
        omega
  | complete _ task s _ hs =>
      obtain ⟨k, timer, hsame⟩ := hs.same
      have hwrites := hs.writes
      have hqueue : (σ.complete s task).writesOf = σ.writesOf := by
        show s.outstandingWrites + (σ.completions ++ [task]).countP Task.isWrite = σ.writesOf
        rw [List.countP_append, List.countP_singleton]
        unfold writesOf
        omega
      refine ⟨fun hnil => ?_, by rw [hqueue]; exact hone⟩
      rw [hqueue]
      apply hidle
      rw [← hnil]
      show _ = s.bufferSending
      rw [hsame]
  | deliver => exact ⟨h.idle, h.le_one⟩
  | tick n => exact ⟨h.idle, h.le_one⟩

/-! ## Runs -/

/-- What is closed stays closed and starts no write, and who has left does not come back. -/
structure Later (σ σ' : Solo Φ) : Prop where
  closed : σ.session.closed = true → σ'.session.closed = true
  handed : σ.session.closed = true → σ'.session.socket.handed = σ.session.socket.handed
  queued : σ.queued = false → σ'.queued = false

theorem Later.refl (σ : Solo Φ) : Later σ σ := ⟨fun h => h, fun _ => rfl, fun h => h⟩

theorem Later.trans {σ τ υ : Solo Φ} (h : Later σ τ) (h' : Later τ υ) : Later σ υ where
  closed := fun hc => h'.closed (h.closed hc)
  handed := fun hc => (h'.handed (h.closed hc)).trans (h.handed hc)
  queued := fun hq => h'.queued (h.queued hq)

theorem Later.move {σ τ : Solo Φ} {task : Task} {r : TCPSession Φ × List Effect}
    (htaken : Taken σ τ task) (hmove : TCPSession.Move σ.session σ.found task r) :
    Later σ (τ.onSession r) := by
  have hafter : After τ r (τ.onSession r) :=
    after_of_move (σ := τ) (s := σ.session) (htaken.found ▸ hmove)
  have hsession := (counts_of_after htaken hmove hafter).1
  generalize τ.onSession r = υ at hafter hsession ⊢
  refine ⟨fun hc => ?_, fun hc => ?_, fun hq => ?_⟩
  · rw [hsession]
    exact hmove.stays hc
  · rw [hsession]
    rcases hmove.writes with hsame | hnext
    · exact hsame.handed
    · exact absurd (hnext.wasOpen.symm.trans hc) (by decide)
  · cases hafter with
    | stays more posts _ _ _ => exact htaken.queued.trans hq
    | leaves id more _ _ _ _ => rfl

theorem later_of_event {σ σ' : Solo Φ} {a : Act} (hev : Event F σ a σ') : Later σ σ' := by
  cases hev with
  | move _ task r htask hruns => exact .move (taken_of_runs htask) hruns.move
  | post messages s hposts =>
      refine ⟨fun hc => hposts.closed.trans hc, fun hc => ?_, fun hq => hq⟩
      have hsame : σ.session.postMessageList F messages = some σ.session := by
        rw [TCPSession.postMessageList, if_pos (by rw [hc]; rfl)]
      cases hposts.run.symm.trans hsame
      rfl
  | complete _ task s _ hs =>
      obtain ⟨k, timer, hsame⟩ := hs.same
      refine ⟨fun hc => ?_, fun _ => hs.handed, fun hq => hq⟩
      show s.closed = true
      rw [hsame]
      exact hc
  | deliver => exact ⟨fun h => h, fun _ => rfl, fun h => h⟩
  | tick n => exact ⟨fun h => h, fun _ => rfl, fun h => h⟩

/-- What holds in every run with a filter that appends something when it has announced something. -/
structure Living (σ : Solo Φ) : Prop where
  lives : Lives σ
  oneWrite : OneWrite σ

theorem Living.start (conn : Conn) (clock : Nat) (ioThread : ThreadIx) (filter : Φ)
    (keepAliveTime : Nat) (id : TCPSessionID) :
    Living (start F conn clock ioThread filter keepAliveTime id) :=
  ⟨.start conn clock ioThread filter keepAliveTime id,
    .start conn clock ioThread filter keepAliveTime id⟩

theorem Living.step {σ σ' : Solo Φ} {a : Act} (h : Living σ) (hok : Appending F σ a)
    (hstep : step F σ a = some σ') : Living σ' :=
  have hev := event_of_step hstep
  ⟨h.lives.step hev, h.oneWrite.step hev hok⟩

end Solo

/-- Whatever the state of the filter, it appends something when it has announced something. -/
def MessageFilterInterface.Appends {Φ : Type} (F : MessageFilterInterface Φ) : Prop :=
  ∀ filter messages buffer, (F.bytesWannaWrite filter messages).1 ≠ 0 →
    (F.write (F.bytesWannaWrite filter messages).2 messages buffer).appended ≠ []

/-- The default filter writes a header at least. -/
theorem messageFilter_appends (host : ByteOrder) (junk : NetMessage.Junk) :
    (messageFilter host junk).Appends := by
  intro filter messages buffer hne
  have hgrow : ∀ (messages : List NetMessage) (acc : Nat × List UInt8), acc.2 ≠ [] →
      (messages.foldl (MessageFilter.writeOne host) acc).2 ≠ [] := by
    intro messages
    induction messages with
    | nil => exact fun acc hacc => hacc
    | cons m messages ih =>
        intro acc hacc
        apply ih
        simp [MessageFilter.writeOne, hacc]
  cases messages with
  | nil => exact absurd rfl hne
  | cons m messages =>
      show (messages.foldl (MessageFilter.writeOne host)
        (MessageFilter.writeOne host (0, []) m)).2 ≠ []
      apply hgrow messages
      cases host <;> simp [MessageFilter.writeOne, ByteOrder.toMemory]

namespace Solo

variable {Φ : Type} {F : MessageFilterInterface Φ}

theorem appending_of_appends (hF : F.Appends) (σ : Solo Φ) (a : Act) : Appending F σ a := by
  intro messages _ hopen hne hannounced
  rw [TCPSession.encoding, if_neg (by simp [hopen, hne])]
  exact hF _ _ _ hannounced

/-- **The life of a session.** After `init`, in whatever order things happen: the counters count
what is outstanding, one read of `handle_read` and one write at most; `closed_` stays set;
`on_session_closed` has been posted once if the session has left its queue, and not at all before;
the session leaves only when no write is outstanding, and has left when it is closed and none is;
from then on no write is started. -/
theorem lifecycle (hF : F.Appends) {conn : Conn} {clock : Nat} {ioThread : ThreadIx} {filter : Φ}
    {keepAliveTime : Nat} {id : TCPSessionID} {σ σ' : Solo Φ}
    (hrun : Transition.Reach (step F) (start F conn clock ioThread filter keepAliveTime id) σ)
    (hrun' : Transition.Reach (step F) σ σ') :
    (σ.session.numWriteHandlers = σ.writesOf ∧ σ.writesOf ≤ 1) ∧
      (σ.session.numReadHandlers = σ.readsOf ∧ σ.readsOf ≤ 1) ∧
      (σ.session.closed = true → σ'.session.closed = true) ∧
      σ.notices = (if σ.queued then 0 else 1) ∧
      (σ.queued = false → σ'.queued = false) ∧
      (σ.notices = 1 → σ.writesOf = 0) ∧
      (σ.session.closed = true → σ.writesOf = 0 → σ.notices = 1) ∧
      (σ.notices = 1 → σ'.writesOf = 0 ∧ σ'.session.socket.handed = σ.session.socket.handed) := by
  have hliving : Living σ :=
    hrun.invariant (fun hi _ hstep => hi.step (appending_of_appends hF _ _) hstep)
      (.start conn clock ioThread filter keepAliveTime id)
  have hliving' : Living σ' :=
    hrun'.invariant (fun hi _ hstep => hi.step (appending_of_appends hF _ _) hstep) hliving
  have hlater : Later σ σ' :=
    hrun'.invariant (fun hi _ hstep => hi.trans (later_of_event (event_of_step hstep))) (.refl σ)
  have hwrites := hliving.lives.writes
  have hwrites' := hliving'.lives.writes
  have hreads := hliving.lives.reads
  have hreadsLe := hliving.lives.reads_le
  have hnotices := hliving.lives.notices
  -- one notice means that the session has left its queue
  have hleft : σ.notices = 1 → σ.queued = false := by
    intro hone
    by_contra hq
    rw [if_pos (by simpa using hq)] at hnotices
    omega
  refine ⟨⟨hwrites, hliving.oneWrite.le_one⟩, ⟨hreads, by omega⟩, hlater.closed, hnotices,
    hlater.queued, fun hone => ?_, fun hclosed hzero => ?_, fun hone => ⟨?_, ?_⟩⟩
  · have hzero := (hliving.lives.left.mp (hleft hone)).2
    omega
  · have hgone := hliving.lives.left.mpr ⟨hclosed, by omega⟩
    rw [hgone] at hnotices
    exact hnotices
  · have hzero := (hliving'.lives.left.mp (hlater.queued (hleft hone))).2
    omega
  · exact hlater.handed (hliving.lives.left.mp (hleft hone)).1

/-- A session that is closed while it writes: the notice is posted when the write completes. -/
theorem lifecycle_close_while_writing :
    ∃ σ σ', ran [.post [oneByteMessage 1], .close] = some σ ∧
      Transition.exec (step (messageFilter .little .zeros)) σ [.writeDone .success, .run] =
        some σ' ∧
      σ.session.closed = true ∧ σ.writesOf = 1 ∧ σ.notices = 0 ∧
      σ'.session.closed = true ∧ σ'.writesOf = 0 ∧ σ'.notices = 1 := by
  obtain ⟨σ, hσ, hview⟩ := Option.map_eq_some_iff.mp (show
    (ran [.post [oneByteMessage 1], .close]).map
      (fun σ => (σ.session.closed, σ.writesOf, σ.notices)) = some (true, 1, 0) by decide +kernel)
  obtain ⟨σ', hσ', hview'⟩ := Option.map_eq_some_iff.mp (show
    (ran ([.post [oneByteMessage 1], .close] ++ [.writeDone .success, .run])).map
      (fun σ => σ.writesOf) = some 0 by decide +kernel)
  rw [ran, Transition.exec_append hσ] at hσ'
  obtain ⟨hclosed, hwrites, hnotices⟩ : σ.session.closed = true ∧ σ.writesOf = 1 ∧ σ.notices = 0 := by
    simpa using hview
  have hF := messageFilter_appends .little .zeros
  have hrun := Transition.reach_of_exec hσ
  have hrun' := Transition.reach_of_exec hσ'
  have hclosed' := (lifecycle hF hrun hrun').2.2.1 hclosed
  have hafter := lifecycle hF (hrun.trans hrun') (.refl σ')
  exact ⟨σ, σ', hσ, hσ', hclosed, hwrites, hnotices, hclosed', hview',
    hafter.2.2.2.2.2.2.1 hclosed' hview'⟩

end Solo
end EddyServer
