import EddyServer.Link.Basic
import EddyServer.TCPSession.Moves

/-!
# What a step of a link can do

Three descriptions, from which every invariant of a link is derived:

* `Calls`: what application code does in a callback or between tasks;
* `exec_move`: the tasks that run a function of the session;
* `Event`: the kinds of steps.
-/

namespace EddyServer

/-- The tasks that run a function of the session and are not `init`. -/
def Task.ofSession : Task → Bool
  | .handleRead .. | .hanldeWrite _ | .handleSafeClose .. | .closeTimer _ | .close => true
  | .sessionPackMessageList | .closeSession _ => true
  | _ => false

/-- The tasks that functions of the session post. -/
def Task.fromSession : Task → Bool
  | .closeTimer _ | .onSessionClosed _ | .sendMessageListToHandler .. => true
  | .sessionPackMessageList | .sessionSendMessageListDirectly => true
  | _ => false

/-- The tasks that calls of the handler post. -/
def Task.fromHandler : Task → Bool
  | .handlerPackMessageList | .handlerSendMessageListDirectly => true
  | .sendMessageListToSession .. | .closeSession _ => true
  | _ => false

/-- The tasks that look a session up by its id. -/
def Task.looksInQueue : Task → Bool
  | .sendMessageListToSession .. | .closeSession _ | .handlerSendMessageListDirectly => true
  | _ => false

/-- The tasks that look a handler up by its id. -/
def Task.looksInMap : Task → Bool
  | .sendMessageListToHandler .. | .onSessionClosed _ | .sessionSendMessageListDirectly => true
  | _ => false

/-- The flush task that a handler posts to the main thread. -/
def TCPSessionHandler.flushTask (t : ThreadIx) : Task :=
  if EddyServer.threadId t = EddyServer.threadId mainThread then .handlerSendMessageListDirectly
  else .handlerPackMessageList

namespace Link

variable {Φ : Type} {F : MessageFilterInterface Φ}

/-! ## Effects -/

/-- The tasks that a list of effects posts to thread `t`. -/
def postsTo (t : ThreadIx) : List Effect → List Task
  | [] => []
  | .post u task :: effects => if u = t then task :: postsTo t effects else postsTo t effects
  | _ :: effects => postsTo t effects

theorem mem_postsTo_singleton {t u : ThreadIx} {task task' : Task} :
    task' ∈ postsTo t [.post u task] ↔ t = u ∧ task' = task := by
  by_cases h : u = t
  · simp [postsTo, h]
  · simp [postsTo, h, Ne.symm h]

/-- A session that leaves its queue posts its close to the main thread, and the wait that it has
cancelled to its own. -/
theorem postsTo_leaving (s : TCPSession Φ) (t : ThreadIx) : ∃ aborted,
    (∀ task ∈ aborted, t = s.ioThread ∧ task = .closeTimer .operationAborted) ∧
      postsTo t s.leaving =
        (if mainThread = t then [.onSessionClosed s.sessionId] else []) ++ aborted := by
  refine ⟨postsTo t s.cancelTimer, fun task hmem => ?_, ?_⟩
  · rcases s.cancelTimer_cases with hnil | hone
    · rw [hnil] at hmem
      cases hmem
    · rw [hone] at hmem
      exact mem_postsTo_singleton.mp hmem
  · simp only [TCPSession.leaving, List.cons_append, List.nil_append, postsTo]
    split_ifs <;> rfl

theorem mem_postsTo_leaving {s : TCPSession Φ} {t : ThreadIx} {task : Task}
    (h : task ∈ postsTo t s.leaving) :
    t = mainThread ∧ task = .onSessionClosed s.sessionId ∨
      t = s.ioThread ∧ task = .closeTimer .operationAborted := by
  obtain ⟨aborted, haborted, heq⟩ := postsTo_leaving s t
  rw [heq] at h
  rcases List.mem_append.mp h with hclosing | hcancel
  · split_ifs at hclosing with hmain
    · exact .inl ⟨hmain.symm, List.mem_singleton.mp hclosing⟩
    · cases hclosing
  · exact .inr (haborted task hcancel)

/-- The queue entry after a list of effects. -/
def queuedAfter : Bool → List Effect → Bool
  | queued, [] => queued
  | queued, .post _ _ :: effects => queuedAfter queued effects
  | _, .queueAdd :: effects => queuedAfter true effects
  | _, .queueRemove :: effects => queuedAfter false effects

@[simp] theorem queuedAfter_leaving (queued : Bool) (s : TCPSession Φ) :
    queuedAfter queued s.leaving = false := by
  rcases s.cancelTimer_cases with hnil | hone
  · simp [TCPSession.leaving, hnil, queuedAfter]
  · simp [TCPSession.leaving, hone, queuedAfter]

theorem foldl_effect (ℓ : Link Φ) (effects : List Effect) :
    effects.foldl effect ℓ =
      { ℓ with
        tasks := fun t => ℓ.tasks t ++ postsTo t effects
        queued := queuedAfter ℓ.queued effects } := by
  induction effects generalizing ℓ with
  | nil => simp [postsTo, queuedAfter]
  | cons e effects ih =>
      rw [List.foldl_cons, ih]
      cases e with
      | queueAdd => rfl
      | queueRemove => rfl
      | post u task =>
          simp only [effect, post, postsTo, queuedAfter]
          congr 1
          funext t
          by_cases h : u = t
          · subst h
            simp
          · simp [h, Function.update_of_ne (Ne.symm h)]

theorem onSession_eq (ℓ : Link Φ) (r : TCPSession Φ × List Effect) :
    ℓ.onSession r =
      { ℓ with
        session := r.1
        tasks := fun t => ℓ.tasks t ++ postsTo t r.2
        queued := queuedAfter ℓ.queued r.2 } :=
  foldl_effect _ _

theorem onHandler_eq (ℓ : Link Φ) (r : TCPSessionHandler × List Effect) :
    ℓ.onHandler r =
      { ℓ with
        handler := r.1
        tasks := fun t => ℓ.tasks t ++ postsTo t r.2
        queued := queuedAfter ℓ.queued r.2 } :=
  foldl_effect _ _

theorem post_eq (ℓ : Link Φ) (t : ThreadIx) (task : Task) :
    ℓ.post t task = { ℓ with tasks := fun u => ℓ.tasks u ++ if t = u then [task] else [] } := by
  unfold post
  congr 1
  funext u
  by_cases h : t = u
  · subst h
    simp
  · simp [h, Function.update_of_ne (Ne.symm h)]

/-- Thread `t` has taken a task and left `rest`. -/
def popped (ℓ : Link Φ) (t : ThreadIx) (rest : List Task) : Link Φ :=
  { ℓ with tasks := Function.update ℓ.tasks t rest }

theorem step_run {ℓ : Link Φ} {t : ThreadIx} {task : Task} {rest : List Task}
    (ht : ℓ.tasks t = task :: rest) (scripts : List (List Call)) :
    step F ℓ (.run t scripts) = exec F (ℓ.popped t rest) t scripts task := by
  simp only [step, ht]
  rfl

/-! ## Calls of the application -/

/-- The tasks that a call of a registered handler posts: flushes of the buffer to the main thread,
batches and close requests to the thread of the session. -/
def CallTask (ℓ : Link Φ) (t : ThreadIx) (task : Task) : Prop :=
  t = mainThread ∧ task = TCPSessionHandler.flushTask ℓ.session.ioThread ∨
  t = ℓ.session.ioThread ∧
    ((∃ messages, task = .sendMessageListToSession ℓ.handler.sessionId messages) ∨
      task = .closeSession ℓ.handler.sessionId)

theorem CallTask.fromHandler {ℓ : Link Φ} {t : ThreadIx} {task : Task} (h : CallTask ℓ t task) :
    task.fromHandler = true := by
  obtain ⟨-, rfl⟩ | ⟨-, ⟨messages, rfl⟩ | rfl⟩ := h
  · unfold TCPSessionHandler.flushTask
    split_ifs <;> rfl
  · rfl
  · rfl

/-- The handler can find the thread of its session, or is not registered. -/
def Callable (ℓ : Link Φ) : Prop :=
  ℓ.handler.isClosed = true ∨
    ℓ.handler.threadId = threadId ℓ.session.ioThread ∧ ℓ.session.ioThread < ℓ.threads

/-- The handler has received the callbacks `cbs`, and application code has called it any number of
times: nothing changes but the handler's buffer and its record, and only tasks of calls are
posted. -/
structure Calls (cbs : List Callback) (ℓ ℓ' : Link Φ) : Prop where
  conn : ℓ'.conn = ℓ.conn
  threads : ℓ'.threads = ℓ.threads
  session : ℓ'.session = ℓ.session
  registered : ℓ'.registered = ℓ.registered
  id : ℓ'.id = ℓ.id
  queued : ℓ'.queued = ℓ.queued
  mapped : ℓ'.mapped = ℓ.mapped
  sessionId : ℓ'.handler.sessionId = ℓ.handler.sessionId
  threadId : ℓ'.handler.threadId = ℓ.handler.threadId
  callbacks : ℓ'.handler.callbacks = ℓ.handler.callbacks ++ cbs
  calls : ∃ more, ℓ'.handler.calls = ℓ.handler.calls ++ more
  tasks : ∀ t, ∃ more, ℓ'.tasks t = ℓ.tasks t ++ more ∧
    ∀ task ∈ more, CallTask ℓ t task

theorem Calls.refl (ℓ : Link Φ) : Calls [] ℓ ℓ :=
  ⟨rfl, rfl, rfl, rfl, rfl, rfl, rfl, rfl, rfl, by simp, ⟨[], by simp⟩,
    fun _ => ⟨[], by simp, by simp⟩⟩

theorem Calls.trans {cbs cbs' : List Callback} {ℓ ℓ' ℓ'' : Link Φ} (h : Calls cbs ℓ ℓ')
    (h' : Calls cbs' ℓ' ℓ'') : Calls (cbs ++ cbs') ℓ ℓ'' where
  conn := h'.conn.trans h.conn
  threads := h'.threads.trans h.threads
  session := h'.session.trans h.session
  registered := h'.registered.trans h.registered
  id := h'.id.trans h.id
  queued := h'.queued.trans h.queued
  mapped := h'.mapped.trans h.mapped
  sessionId := h'.sessionId.trans h.sessionId
  threadId := h'.threadId.trans h.threadId
  callbacks := by rw [h'.callbacks, h.callbacks, List.append_assoc]
  calls := by
    obtain ⟨more, heq⟩ := h.calls
    obtain ⟨more', heq'⟩ := h'.calls
    exact ⟨more ++ more', by rw [heq', heq, List.append_assoc]⟩
  tasks t := by
    obtain ⟨more, heq, hmore⟩ := h.tasks t
    obtain ⟨more', heq', hmore'⟩ := h'.tasks t
    refine ⟨more ++ more', by rw [heq', heq, List.append_assoc], fun task htask => ?_⟩
    rcases List.mem_append.mp htask with hm | hm
    · exact hmore task hm
    · have hcall := hmore' task hm
      unfold CallTask at hcall ⊢
      rwa [h.sessionId, h.session] at hcall

theorem Calls.callable {cbs : List Callback} {ℓ ℓ' : Link Φ} (h : Calls cbs ℓ ℓ')
    (hc : Callable ℓ) : Callable ℓ' := by
  unfold Callable TCPSessionHandler.isClosed at *
  rwa [h.sessionId, h.threadId, h.session, h.threads]

/-- A handler that is not registered ignores its calls. -/
theorem call_closed {ℓ : Link Φ} (h : ℓ.handler.isClosed = true) (c : Call) : ℓ.call c = ℓ := by
  cases c <;>
    simp [call, TCPSessionHandler.call, TCPSessionHandler.send, TCPSessionHandler.close, h,
      onHandler]

theorem call_send_empty {ℓ : Link Φ} (h : ℓ.handler.isClosed = false) {m : NetMessage}
    (hm : m.empty = true) :
    ℓ.call (.send m) =
      { ℓ with handler := { ℓ.handler with calls := ℓ.handler.calls ++ [.send m] } } := by
  have hid : ℓ.handler.sessionId ≠ 0#32 := by simpa [TCPSessionHandler.isClosed] using h
  simp [call, TCPSessionHandler.call, TCPSessionHandler.send, TCPSessionHandler.isClosed, hid, hm,
    onHandler]

/-- `send` of a message that is not empty; the first message in the buffer posts a flush. -/
theorem call_send {ℓ : Link Φ} (h : ℓ.handler.isClosed = false)
    (hthread : ℓ.handler.threadId = threadId ℓ.session.ioThread) {m : NetMessage}
    (hm : m.empty = false) :
    ℓ.call (.send m) =
      { ℓ with
        handler := { ℓ.handler with
          messagesToBeSent := ℓ.handler.messagesToBeSent ++ [m]
          calls := ℓ.handler.calls ++ [.send m] }
        tasks := fun t => ℓ.tasks t ++
          if mainThread = t ∧ ℓ.handler.messagesToBeSent = [] then
            [TCPSessionHandler.flushTask ℓ.session.ioThread] else [] } := by
  have hid : ℓ.handler.sessionId ≠ 0#32 := by simpa [TCPSessionHandler.isClosed] using h
  cases hb : ℓ.handler.messagesToBeSent <;>
    simp [call, TCPSessionHandler.call, TCPSessionHandler.send, TCPSessionHandler.isClosed, hid,
      hm, hb, hthread, onHandler_eq, TCPSessionHandler.flushTask, postsTo, queuedAfter]

/-- `close` moves the buffer onto the queue of the session's thread and posts a close request. -/
theorem call_close {ℓ : Link Φ} (h : ℓ.handler.isClosed = false)
    (hthread : ℓ.handler.threadId = threadId ℓ.session.ioThread)
    (hio : ℓ.session.ioThread < ℓ.threads) :
    ℓ.call .close =
      { ℓ with
        handler := { ℓ.handler with messagesToBeSent := [], calls := ℓ.handler.calls ++ [.close] }
        tasks := fun t => ℓ.tasks t ++
          if ℓ.session.ioThread = t then
            (if ℓ.handler.messagesToBeSent = [] then []
              else [.sendMessageListToSession ℓ.handler.sessionId ℓ.handler.messagesToBeSent]) ++
              [.closeSession ℓ.handler.sessionId]
          else [] } := by
  have hid : ℓ.handler.sessionId ≠ 0#32 := by simpa [TCPSessionHandler.isClosed] using h
  have hget : getThread ℓ.threads ℓ.handler.threadId = some ℓ.session.ioThread := by
    rw [hthread, getThread_threadId hio]
  cases hb : ℓ.handler.messagesToBeSent with
  | nil =>
      simp [call, TCPSessionHandler.call, TCPSessionHandler.close, TCPSessionHandler.packMessageList,
        TCPSessionHandler.isClosed, hid, hget, hb, onHandler_eq, postsTo, queuedAfter]
  | cons m messages =>
      simp [call, TCPSessionHandler.call, TCPSessionHandler.close, TCPSessionHandler.packMessageList,
        TCPSessionHandler.isClosed, hid, hget, hb, onHandler_eq, postsTo, queuedAfter]
      funext t
      split_ifs <;> rfl

theorem calls_call {ℓ : Link Φ} (h : Callable ℓ) (c : Call) : Calls [] ℓ (ℓ.call c) := by
  cases hc : ℓ.handler.isClosed with
  | true => rw [call_closed hc]; exact .refl ℓ
  | false =>
      obtain hclosed | ⟨hthread, hio⟩ := h
      · exact absurd (hc.symm.trans hclosed) (by decide)
      cases c with
      | send m =>
          cases hm : m.empty with
          | true =>
              rw [call_send_empty hc hm]
              exact ⟨rfl, rfl, rfl, rfl, rfl, rfl, rfl, rfl, rfl, by simp, ⟨_, rfl⟩,
                fun _ => ⟨[], by simp, by simp⟩⟩
          | false =>
              rw [call_send hc hthread hm]
              refine ⟨rfl, rfl, rfl, rfl, rfl, rfl, rfl, rfl, rfl, by simp, ⟨_, rfl⟩,
                fun t => ⟨_, rfl, ?_⟩⟩
              intro task htask
              split_ifs at htask with ht
              · exact .inl ⟨ht.1.symm, by simpa using htask⟩
              · cases htask
      | close =>
          rw [call_close hc hthread hio]
          refine ⟨rfl, rfl, rfl, rfl, rfl, rfl, rfl, rfl, rfl, by simp, ⟨_, rfl⟩,
            fun t => ⟨_, rfl, ?_⟩⟩
          intro task htask
          by_cases ht : ℓ.session.ioThread = t
          · refine .inr ⟨ht.symm, ?_⟩
            rw [if_pos ht] at htask
            split_ifs at htask with hb
            · exact .inr (by simpa using htask)
            · rcases List.mem_append.mp htask with hm | hm
              · exact .inl ⟨_, by simpa using hm⟩
              · exact .inr (by simpa using hm)
          · rw [if_neg ht] at htask
            cases htask

/-- A property that callbacks and calls keep. -/
structure KeptByCalls (I : Link Φ → Prop) : Prop where
  call : ∀ ℓ c, Callable ℓ → I ℓ → I (ℓ.call c)
  record : ∀ ℓ cb, I ℓ →
    I { ℓ with handler := { ℓ.handler with callbacks := ℓ.handler.callbacks ++ [cb] } }

theorem runScript_closed {ℓ : Link Φ} (h : ℓ.handler.isClosed = true) (script : List Call) :
    ℓ.runScript script = ℓ := by
  induction script with
  | nil => rfl
  | cons c script ih => rwa [runScript, List.foldl_cons, call_closed h]

theorem calls_runScript {ℓ : Link Φ} (h : Callable ℓ) (script : List Call) :
    Calls [] ℓ (ℓ.runScript script) := by
  induction script generalizing ℓ with
  | nil => exact .refl ℓ
  | cons c script ih =>
      have hc := calls_call h c
      exact hc.trans (ih (hc.callable h))

theorem calls_callback {ℓ : Link Φ} (h : Callable ℓ) (cb : Callback) (script : List Call) :
    Calls [cb] ℓ (ℓ.callback cb script) := by
  have hcb : Calls [cb] ℓ
      { ℓ with handler := { ℓ.handler with callbacks := ℓ.handler.callbacks ++ [cb] } } :=
    ⟨rfl, rfl, rfl, rfl, rfl, rfl, rfl, rfl, rfl, rfl, ⟨[], by simp⟩,
      fun _ => ⟨[], by simp, by simp⟩⟩
  exact hcb.trans (calls_runScript (hcb.callable h) script)

theorem calls_deliver {ℓ : Link Φ} (h : Callable ℓ) (messages : List NetMessage)
    (scripts : List (List Call)) :
    Calls (messages.map (.onMessage ℓ.conn)) ℓ (ℓ.deliver messages scripts) := by
  induction messages generalizing ℓ scripts with
  | nil => exact .refl ℓ
  | cons m messages ih =>
      have hm := calls_callback h (.onMessage ℓ.conn m) (scripts.headD [])
      have hrest := ih (hm.callable h) scripts.tail
      rw [hm.conn] at hrest
      exact hm.trans hrest

section
variable {I : Link Φ → Prop} {ℓ : Link Φ}

theorem KeptByCalls.runScript (hI : KeptByCalls I) (hc : Callable ℓ) (h : I ℓ)
    (script : List Call) : I (ℓ.runScript script) := by
  induction script generalizing ℓ with
  | nil => exact h
  | cons c script ih => exact ih ((calls_call hc c).callable hc) (hI.call ℓ c hc h)

theorem KeptByCalls.callback (hI : KeptByCalls I) (hc : Callable ℓ) (h : I ℓ) (cb : Callback)
    (script : List Call) : I (ℓ.callback cb script) :=
  hI.runScript (ℓ :=
    { ℓ with handler := { ℓ.handler with callbacks := ℓ.handler.callbacks ++ [cb] } }) hc
    (hI.record ℓ cb h) script

theorem KeptByCalls.deliver (hI : KeptByCalls I) (hc : Callable ℓ) (h : I ℓ)
    (messages : List NetMessage) (scripts : List (List Call)) : I (ℓ.deliver messages scripts) := by
  induction messages generalizing ℓ scripts with
  | nil => exact h
  | cons m messages ih =>
      exact ih ((calls_callback hc _ _).callable hc) (hI.callback hc h _ _) _

end

/-- `session_handler_stuff::PackMessageList` moves the buffer onto the queue of the session's
thread. -/
theorem onHandler_packMessageList {ℓ : Link Φ}
    (hthread : ℓ.handler.threadId = threadId ℓ.session.ioThread)
    (hio : ℓ.session.ioThread < ℓ.threads) :
    ℓ.onHandler (ℓ.handler.packMessageList (getThread ℓ.threads)) =
      { ℓ with
        handler := { ℓ.handler with messagesToBeSent := [] }
        tasks := fun t => ℓ.tasks t ++
          if ℓ.session.ioThread = t ∧ ℓ.handler.messagesToBeSent ≠ [] then
            [.sendMessageListToSession ℓ.handler.sessionId ℓ.handler.messagesToBeSent]
          else [] } := by
  have hget : getThread ℓ.threads ℓ.handler.threadId = some ℓ.session.ioThread := by
    rw [hthread, getThread_threadId hio]
  cases hb : ℓ.handler.messagesToBeSent with
  | nil =>
      have hsame : { ℓ.handler with messagesToBeSent := [] } = ℓ.handler := by rw [← hb]
      rw [hsame]
      simp [TCPSessionHandler.packMessageList, hb, onHandler_eq, postsTo, queuedAfter]
  | cons m messages =>
      simp [TCPSessionHandler.packMessageList, hget, hb, onHandler_eq, postsTo, queuedAfter]

theorem calls_packMessageList {ℓ : Link Φ}
    (hthread : ℓ.handler.threadId = threadId ℓ.session.ioThread)
    (hio : ℓ.session.ioThread < ℓ.threads) :
    Calls [] ℓ (ℓ.onHandler (ℓ.handler.packMessageList (getThread ℓ.threads))) := by
  rw [onHandler_packMessageList hthread hio]
  refine ⟨rfl, rfl, rfl, rfl, rfl, rfl, rfl, rfl, rfl, by simp, ⟨[], by simp⟩,
    fun t => ⟨_, rfl, ?_⟩⟩
  intro task htask
  split_ifs at htask with ht
  · exact .inr ⟨ht.1.symm, .inl ⟨_, by simpa using htask⟩⟩
  · cases htask

/-! ## Tasks of the session -/

/-- A task of the session is a move; a close request whose lookup fails does nothing. -/
theorem exec_move {ℓ ℓ' : Link Φ} {t : ThreadIx} {scripts : List (List Call)} {task : Task}
    (h : task.ofSession = true) (hex : exec F ℓ t scripts task = some ℓ') :
    (∃ r, TCPSession.Move ℓ.session ℓ.found task r ∧
        (∀ id, task = .closeSession id → r.1.closed = true) ∧ ℓ' = ℓ.onSession r) ∨
      ∃ id, task = .closeSession id ∧ ℓ.inQueue t id = false ∧ ℓ' = ℓ := by
  cases task with
  | handleRead error data =>
      cases hex
      exact .inl ⟨_, TCPSession.move_handleRead F _ _ _ error data, nofun, rfl⟩
  | hanldeWrite error =>
      cases hex
      exact .inl ⟨_, TCPSession.move_hanldeWrite _ _ error, nofun, rfl⟩
  | handleSafeClose error data =>
      cases hex
      exact .inl ⟨_, TCPSession.move_handleSafeClose _ _ error data, nofun, rfl⟩
  | closeTimer error =>
      obtain ⟨s, hs, rfl⟩ := Option.map_eq_some_iff.mp hex
      exact .inl ⟨_, TCPSession.move_closeTimerExpired _ hs, nofun, rfl⟩
  | close =>
      cases hex
      exact .inl ⟨_, TCPSession.move_close _ rfl rfl rfl _, nofun, rfl⟩
  | sessionPackMessageList =>
      cases hex
      exact .inl ⟨_, TCPSession.move_packMessageList _ _, nofun, rfl⟩
  | closeSession id =>
      cases hex
      unfold closeSession
      split_ifs with hq
      · exact .inl ⟨_, TCPSession.move_close _ rfl rfl rfl _,
          fun _ _ => TCPSession.close_closed _ _ _, rfl⟩
      · exact .inr ⟨id, rfl, by simpa using hq, rfl⟩
  | _ => cases h

/-- What a task of the session posts. -/
theorem move_posts {s : TCPSession Φ} {found : Option Conn} {task : Task}
    {r : TCPSession Φ × List Effect} (h : TCPSession.Move s found task r) {t : ThreadIx}
    {task' : Task} (hmem : task' ∈ postsTo t r.2) : task'.fromSession = true := by
  cases h.outcome with
  | quiet _ _ heffects =>
      rw [heffects] at hmem
      cases hmem
  | timer _ _ heffects =>
      rw [heffects, mem_postsTo_singleton] at hmem
      rw [hmem.2]
      rfl
  | deregister _ _ _ _ _ _ heffects =>
      rw [heffects] at hmem
      rcases mem_postsTo_leaving hmem with ⟨-, rfl⟩ | ⟨-, rfl⟩ <;> rfl
  | receive _ _ _ _ heffects =>
      rw [heffects] at hmem
      cases hmem
  | first _ _ _ _ _ heffects =>
      rw [heffects, mem_postsTo_singleton] at hmem
      rw [hmem.2]
      unfold TCPSession.flushTask
      split_ifs <;> rfl
  | deliver _ _ _ _ _ heffects =>
      rw [heffects, mem_postsTo_singleton] at hmem
      rw [hmem.2]
      rfl

/-! ## Kinds of steps -/

/-- An outstanding operation of the session has completed, or a check is due: `task` is queued, and
the socket and the timer have become those of `s`. -/
structure Completes (ℓ : Link Φ) (a : Act) (task : Task) (s : TCPSession Φ) : Prop where
  isCompletion : task.isCompletion = true
  outstanding : ℓ.session.socket.reads ≠ [] ∨ ℓ.session.socket.writing ≠ [] ∨
    ℓ.session.closeTimer = .waiting ∨ ℓ.queued = true
  session : ∃ k timer, s = { ℓ.session with socket := k, closeTimer := timer }
  reads : s.outstandingReads + (if task.isRead then 1 else 0) = ℓ.session.outstandingReads
  /-- A completed `handle_read` is one that the surroundings could complete so. -/
  read : ∀ error data, task = .handleRead error data → ∃ i op, a = .readDone i error data ∧
    ℓ.session.socket.reads[i]? = some op ∧ op ∈ ℓ.session.readOps ∧ op.allows error data = true
  readOps : task.isRead = false → s.readOps = ℓ.session.readOps
  handed : s.socket.handed = ℓ.session.socket.handed
  shutdown : s.socket.sendShutdown = ℓ.session.socket.sendShutdown

/-- The kinds of steps, with the label that makes them. -/
inductive Event (F : MessageFilterInterface Φ) (ℓ : Link Φ) : Act → Link Φ → Prop
  | connect (id : TCPSessionID) (script : List Call) : ℓ.registered = false → id ≠ 0 →
      Event F ℓ (.connect id script) (ℓ.connect id script)
  | run {ℓ' : Link Φ} (t : ThreadIx) (task : Task) (rest : List Task)
      (scripts : List (List Call)) : ℓ.tasks t = task :: rest →
      exec F (ℓ.popped t rest) t scripts task = some ℓ' → Event F ℓ (.run t scripts) ℓ'
  | complete {a : Act} (task : Task) (s : TCPSession Φ) : Completes ℓ a task s →
      Event F ℓ a (({ ℓ with session := s } : Link Φ).post ℓ.session.ioThread task)
  | logic (script : List Call) : Event F ℓ (.logic script) (ℓ.runScript script)
  | tick {a : Act} (clock : Nat) : Event F ℓ a { ℓ with clock := clock }

theorem filter_eraseIdx {α : Type*} {p : α → Bool} {l : List α} {i : Nat} {a : α}
    (h : l[i]? = some a) (hp : p a = false) : (l.eraseIdx i).filter p = l.filter p := by
  induction l generalizing i with
  | nil => rfl
  | cons b l ih =>
      cases i with
      | zero =>
          cases h
          simp [hp]
      | succ i =>
          rw [List.getElem?_cons_succ] at h
          rw [List.eraseIdx_cons_succ, List.filter_cons, List.filter_cons, ih h]

theorem event_of_step {ℓ ℓ' : Link Φ} {a : Act} (h : step F ℓ a = some ℓ') :
    Event F ℓ a ℓ' := by
  unfold step at h
  cases a with
  | connect id script =>
      dsimp only at h
      split_ifs at h with hc
      cases h
      obtain ⟨hr, hid⟩ := not_or.mp hc
      exact .connect id script (by simpa using hr) hid
  | run t scripts =>
      dsimp only at h
      cases ht : ℓ.tasks t with
      | nil => rw [ht] at h; cases h
      | cons task rest => rw [ht] at h; exact .run t task rest scripts ht h
  | readDone i error data =>
      dsimp only at h
      cases hop : ℓ.session.socket.reads[i]? with
      | none => rw [hop] at h; cases h
      | some op =>
          rw [hop] at h
          dsimp only at h
          split_ifs at h
          cases h
          -- The task that is queued is told by the handler the read was started for.
          have hread : (op.completion error data).isRead = (op.handler == .handleRead) := by
            cases hh : op.handler <;> simp [ReadOp.completion, hh, Task.isRead]
          refine .complete _ _ ⟨?_, .inl ?_, ⟨_, _, rfl⟩, ?_, fun error' data' htask => ?_,
            fun hother => ?_, rfl, rfl⟩
          · cases hh : op.handler <;> simp [ReadOp.completion, hh, Task.isCompletion]
          · rintro hnil
            rw [hnil] at hop
            cases hop
          · rw [hread]
            exact TCPSession.countP_eraseIdx hop
          · rw [htask] at hread
            have htask' := htask
            unfold ReadOp.completion at htask'
            split at htask'
            · cases htask'
              exact ⟨i, op, rfl, hop,
                List.mem_filter.mpr ⟨List.mem_of_getElem? hop, hread.symm⟩, ‹_›⟩
            · cases htask'
          · exact filter_eraseIdx hop (hread.symm.trans hother)
  | writeDone error =>
      dsimp only at h
      cases hw : ℓ.session.socket.writing with
      | nil => rw [hw] at h; cases h
      | cons range writing =>
          rw [hw] at h
          cases h
          exact .complete (.hanldeWrite error) _
            ⟨rfl, .inr (.inl (by simp [hw])), ⟨_, _, rfl⟩, rfl, (fun _ _ h => by cases h), fun _ => rfl,
              rfl, rfl⟩
  | timerDone =>
      dsimp only at h
      split_ifs at h with ht
      cases h
      exact .complete (.closeTimer .success) _
        ⟨rfl, .inr (.inr (.inl ht)), ⟨_, _, rfl⟩, rfl, (fun _ _ h => by cases h), fun _ => rfl, rfl,
          rfl⟩
  | keepAlive =>
      dsimp only at h
      split_ifs at h with hq
      · cases h
        have hqueued : ℓ.queued = true := (Bool.and_eq_true_iff.mp hq).1
        exact .complete .close ℓ.session
          ⟨rfl, .inr (.inr (.inr hqueued)), ⟨ℓ.session.socket, ℓ.session.closeTimer, rfl⟩, rfl,
            (fun _ _ h => by cases h), fun _ => rfl, rfl, rfl⟩
      · cases h
        exact .tick ℓ.clock
  | logic script => cases h; exact .logic script
  | tick n => cases h; exact .tick _

end Link
end EddyServer
