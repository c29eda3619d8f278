import EddyServer.Link.Events

/-!
# The life of a link

A link is idle until `on_session_connected` has run, is opening until its session has run `init`,
and is started from then on. `Lifecycle` says what holds in each stage: which tasks are in which
queue, that the session is in its queue while nothing has closed it, that the handler stays in the
map until the session has left its queue.
-/

namespace EddyServer
namespace Link

variable {Φ : Type} {F : MessageFilterInterface Φ}

/-! ## The invariant -/

/-- Where a task may be queued, and what is known while it is. (`init` is the first task in the
queue of the session's thread, and is described with the stages.) -/
def TaskOk (ℓ : Link Φ) (t : ThreadIx) : Task → Prop
  | .init _ => False
  | .handleRead .. | .hanldeWrite _ | .handleSafeClose .. | .closeTimer _ | .close =>
    t = ℓ.session.ioThread
  | .sessionPackMessageList =>
    t = ℓ.session.ioThread ∧ TCPSession.flushTask t = .sessionPackMessageList
  | .sessionSendMessageListDirectly =>
    t = ℓ.session.ioThread ∧ TCPSession.flushTask t = .sessionSendMessageListDirectly
  | .sendMessageListToHandler id _ =>
    t = mainThread ∧ id = ℓ.id ∧
      TCPSession.flushTask ℓ.session.ioThread = .sessionPackMessageList
  | .onSessionClosed id =>
    t = mainThread ∧ id = ℓ.id ∧ ℓ.queued = false ∧ ℓ.session.trace.closedBy ≠ none
  | .handlerPackMessageList =>
    t = mainThread ∧ TCPSessionHandler.flushTask ℓ.session.ioThread = .handlerPackMessageList
  | .handlerSendMessageListDirectly =>
    t = mainThread ∧
      TCPSessionHandler.flushTask ℓ.session.ioThread = .handlerSendMessageListDirectly
  | .sendMessageListToSession id _ | .closeSession id =>
    t = ℓ.session.ioThread ∧ (ℓ.mapped = true → id = ℓ.id)

def TasksOk (ℓ : Link Φ) : Prop := ∀ t, ∀ task ∈ ℓ.tasks t, TaskOk ℓ t task

/-- What `on_session_connected` has set up. -/
structure Registered (ℓ : Link Φ) : Prop where
  registered : ℓ.registered = true
  id_ne : ℓ.id ≠ 0
  threadId : ℓ.handler.threadId = threadId ℓ.session.ioThread
  mapped : ℓ.mapped = true → ℓ.handler.sessionId = ℓ.id
  disposed : ℓ.mapped = false → ℓ.handler.sessionId = 0

structure Idle (ℓ : Link Φ) : Prop where
  registered : ℓ.registered = false
  tasks : ∀ t, ℓ.tasks t = []
  pristine : ℓ.session.Pristine
  queued : ℓ.queued = false
  mapped : ℓ.mapped = false
  handler : ℓ.handler = .new

/-- `init` is the next task of the session's thread. -/
structure Opening (ℓ : Link Φ) : Prop extends Registered ℓ where
  pristine : ℓ.session.Pristine
  queued : ℓ.queued = false
  isMapped : ℓ.mapped = true
  tasks : ∃ rest, ℓ.tasks ℓ.session.ioThread = .init ℓ.id :: rest ∧
    TasksOk (ℓ.popped ℓ.session.ioThread rest)

structure Started (ℓ : Link Φ) : Prop extends Registered ℓ where
  sessionId : ℓ.session.sessionId = ℓ.id
  marked : ℓ.session.Marked
  queued_of_open : ℓ.session.trace.closedBy = none → ℓ.queued = true
  mapped_of_queued : ℓ.queued = true → ℓ.mapped = true
  tasks : TasksOk ℓ

/-- A session that has left the map has been closed. -/
theorem Started.mapped_of_open {ℓ : Link Φ} (h : Started ℓ)
    (hopen : ℓ.session.trace.closedBy = none) : ℓ.mapped = true :=
  h.mapped_of_queued (h.queued_of_open hopen)

inductive Stage (ℓ : Link Φ) : Prop
  | idle : Idle ℓ → Stage ℓ
  | opening : Opening ℓ → Stage ℓ
  | started : Started ℓ → Stage ℓ

structure Lifecycle (ℓ : Link Φ) : Prop where
  ioThread_lt : ℓ.session.ioThread < ℓ.threads
  stage : Stage ℓ

theorem Lifecycle.callable {ℓ : Link Φ} (h : Lifecycle ℓ) : Callable ℓ := by
  rcases h.stage with hidle | hop | hst
  · left
    rw [hidle.handler]
    rfl
  · exact .inr ⟨hop.threadId, h.ioThread_lt⟩
  · exact .inr ⟨hst.threadId, h.ioThread_lt⟩

theorem Lifecycle.start {threads : Nat} {ioThread : ThreadIx} (hio : ioThread < threads)
    (conn : Conn) (filter : Φ) (keepAliveTime : Nat) :
    Lifecycle (start conn threads ioThread filter keepAliveTime) :=
  ⟨hio, .idle ⟨rfl, fun _ => rfl, ⟨filter, keepAliveTime, rfl⟩, rfl, rfl, rfl⟩⟩

/-! ## Taking a task -/

/-- The stage when a task other than `init` has been taken from a queue. -/
structure Popped (ℓ : Link Φ) (t : ThreadIx) (task : Task) : Prop where
  lifecycle : Lifecycle ℓ
  taskOk : TaskOk ℓ t task
  started : t = ℓ.session.ioThread → Started ℓ
  registered : Registered ℓ

theorem TasksOk.popped {ℓ : Link Φ} (h : TasksOk ℓ) {t : ThreadIx} {task : Task}
    {rest : List Task} (ht : ℓ.tasks t = task :: rest) : TasksOk (ℓ.popped t rest) := by
  intro u task' hmem
  by_cases hu : u = t
  · subst hu
    refine h u task' ?_
    rw [ht]
    exact List.mem_cons_of_mem _ (by simpa [Link.popped] using hmem)
  · exact h u task' (by simpa [Link.popped, Function.update_of_ne hu] using hmem)

theorem Lifecycle.popped {ℓ : Link Φ} (h : Lifecycle ℓ) {t : ThreadIx} {task : Task}
    {rest : List Task} (ht : ℓ.tasks t = task :: rest) (hinit : ∀ id, task ≠ .init id) :
    Popped (ℓ.popped t rest) t task := by
  rcases h.stage with hidle | hop | hst
  · rw [hidle.tasks t] at ht
    cases ht
  · obtain ⟨rest', hio, hok⟩ := hop.tasks
    have hne : t ≠ ℓ.session.ioThread := by
      rintro rfl
      rw [ht] at hio
      exact hinit _ (List.cons.inj hio).1
    have hts : (ℓ.popped ℓ.session.ioThread rest').tasks t = task :: rest := by
      simpa [Link.popped, Function.update_of_ne hne] using ht
    have hcomm : (ℓ.popped t rest).popped ℓ.session.ioThread rest' =
        (ℓ.popped ℓ.session.ioThread rest').popped t rest := by
      simp only [Link.popped]
      rw [Function.update_comm hne]
    refine ⟨⟨h.ioThread_lt, .opening ?_⟩, hok t task (by rw [hts]; exact List.mem_cons_self),
      fun hio => absurd hio hne, ?_⟩
    · exact
        { registered := hop.registered
          id_ne := hop.id_ne
          threadId := hop.threadId
          mapped := hop.mapped
          disposed := hop.disposed
          pristine := hop.pristine
          queued := hop.queued
          isMapped := hop.isMapped
          tasks := ⟨rest', by simpa [Link.popped, Function.update_of_ne hne.symm] using hio, by
            rw [show (ℓ.popped t rest).session = ℓ.session from rfl, hcomm]
            exact hok.popped hts⟩ }
    · exact ⟨hop.registered, hop.id_ne, hop.threadId, hop.mapped, hop.disposed⟩
  · have hreg : Registered (ℓ.popped t rest) :=
      ⟨hst.registered, hst.id_ne, hst.threadId, hst.mapped, hst.disposed⟩
    have hst' : Started (ℓ.popped t rest) :=
      { hreg with
        sessionId := hst.sessionId
        marked := hst.marked
        queued_of_open := hst.queued_of_open
        mapped_of_queued := hst.mapped_of_queued
        tasks := hst.tasks.popped ht }
    exact ⟨⟨h.ioThread_lt, .started hst'⟩, hst.tasks t task (by rw [ht]; exact List.mem_cons_self),
      fun _ => hst', hreg⟩

/-- `init` is taken from the queue of the session's thread, once. -/
theorem Lifecycle.popped_init {ℓ : Link Φ} (h : Lifecycle ℓ) {t : ThreadIx} {id : TCPSessionID}
    {rest : List Task} (ht : ℓ.tasks t = .init id :: rest) :
    t = ℓ.session.ioThread ∧ id = ℓ.id ∧ Opening ℓ ∧ TasksOk (ℓ.popped t rest) := by
  rcases h.stage with hidle | hop | hst
  · rw [hidle.tasks t] at ht
    cases ht
  · obtain ⟨rest', hio, hok⟩ := hop.tasks
    by_cases hne : t = ℓ.session.ioThread
    · subst hne
      obtain ⟨hid, rfl⟩ := List.cons.inj (ht.symm.trans hio)
      exact ⟨rfl, by injection hid, hop, hok⟩
    · have hmem : Task.init id ∈ (ℓ.popped ℓ.session.ioThread rest').tasks t := by
        simp [Link.popped, Function.update_of_ne hne, ht]
      exact (hok t _ hmem).elim
  · exact (hst.tasks t (.init id) (by rw [ht]; exact List.mem_cons_self)).elim

/-! ## Steps keep the invariant -/

/-- What a change has to keep so that the tasks that are queued stay in order. -/
structure Keeps (ℓ ℓ' : Link Φ) : Prop where
  ioThread : ℓ'.session.ioThread = ℓ.session.ioThread
  id : ℓ'.id = ℓ.id
  mapped : ℓ'.mapped = true → ℓ.mapped = true
  closedBy : ℓ.session.trace.closedBy ≠ none → ℓ'.session.trace.closedBy ≠ none
  queued : ℓ.session.trace.closedBy ≠ none → ℓ.queued = false → ℓ'.queued = false

theorem TaskOk.keeps {ℓ ℓ' : Link Φ} {t : ThreadIx} {task : Task} (h : TaskOk ℓ t task)
    (hkeeps : Keeps ℓ ℓ') : TaskOk ℓ' t task := by
  cases task <;> simp only [TaskOk, hkeeps.ioThread, hkeeps.id] at h ⊢
  case onSessionClosed =>
    exact ⟨h.1, h.2.1, hkeeps.queued h.2.2.2 h.2.2.1, hkeeps.closedBy h.2.2.2⟩
  case sendMessageListToSession => exact ⟨h.1, fun hm => h.2 (hkeeps.mapped hm)⟩
  case closeSession => exact ⟨h.1, fun hm => h.2 (hkeeps.mapped hm)⟩
  all_goals exact h

/-- Queues that have grown by tasks that are in order are in order. -/
theorem TasksOk.grow {ℓ ℓ' : Link Φ} (h : TasksOk ℓ) (hkeeps : Keeps ℓ ℓ')
    (htasks : ∀ t, ∃ more, ℓ'.tasks t = ℓ.tasks t ++ more ∧ ∀ task ∈ more, TaskOk ℓ' t task) :
    TasksOk ℓ' := by
  intro t task hmem
  obtain ⟨more, heq, hmore⟩ := htasks t
  rw [heq] at hmem
  rcases List.mem_append.mp hmem with hold | hnew
  · exact (h t task hold).keeps hkeeps
  · exact hmore task hnew

theorem CallTask.taskOk {ℓ : Link Φ} {t : ThreadIx} {task : Task} (h : CallTask ℓ t task)
    (hreg : Registered ℓ) : TaskOk ℓ t task := by
  obtain ⟨rfl, rfl⟩ | ⟨rfl, ⟨messages, rfl⟩ | rfl⟩ := h
  · by_cases hmain : threadId ℓ.session.ioThread = threadId mainThread
    · rw [TCPSessionHandler.flushTask, if_pos hmain]
      exact ⟨rfl, if_pos hmain⟩
    · rw [TCPSessionHandler.flushTask, if_neg hmain]
      exact ⟨rfl, if_neg hmain⟩
  · exact ⟨rfl, hreg.mapped⟩
  · exact ⟨rfl, hreg.mapped⟩

theorem Calls.registered_of {cbs : List Callback} {ℓ ℓ' : Link Φ} (h : Calls cbs ℓ ℓ')
    (hreg : Registered ℓ) : Registered ℓ' where
  registered := by rw [h.registered]; exact hreg.registered
  id_ne := by rw [h.id]; exact hreg.id_ne
  threadId := by rw [h.threadId, h.session]; exact hreg.threadId
  mapped := by rw [h.mapped, h.sessionId, h.id]; exact hreg.mapped
  disposed := by rw [h.mapped, h.sessionId]; exact hreg.disposed

theorem Calls.tasksOk {cbs : List Callback} {ℓ ℓ' : Link Φ} (h : Calls cbs ℓ ℓ')
    (hreg : Registered ℓ) (htasks : TasksOk ℓ) : TasksOk ℓ' := by
  have hkeeps : Keeps ℓ ℓ' :=
    { ioThread := by rw [h.session]
      id := h.id
      mapped := by rw [h.mapped]; exact fun hm => hm
      closedBy := by rw [h.session]; exact fun hc => hc
      queued := by rw [h.queued]; exact fun _ hq => hq }
  refine htasks.grow hkeeps fun t => ?_
  obtain ⟨more, heq, hmore⟩ := h.tasks t
  exact ⟨more, heq, fun task htask => ((hmore task htask).taskOk hreg).keeps hkeeps⟩

theorem Started.calls {cbs : List Callback} {ℓ ℓ' : Link Φ} (h : Started ℓ)
    (hcalls : Calls cbs ℓ ℓ') : Started ℓ' :=
  { hcalls.registered_of h.toRegistered with
    sessionId := by rw [hcalls.session, hcalls.id]; exact h.sessionId
    marked := by rw [hcalls.session]; exact h.marked
    queued_of_open := by rw [hcalls.session, hcalls.queued]; exact h.queued_of_open
    mapped_of_queued := by rw [hcalls.queued, hcalls.mapped]; exact h.mapped_of_queued
    tasks := hcalls.tasksOk h.toRegistered h.tasks }

/-- Application code keeps the invariant, whatever it calls. -/
theorem Lifecycle.calls {cbs : List Callback} {ℓ ℓ' : Link Φ} (h : Lifecycle ℓ)
    (hreg : Registered ℓ) (hcalls : Calls cbs ℓ ℓ') : Lifecycle ℓ' := by
  have hreg' := hcalls.registered_of hreg
  refine ⟨by rw [hcalls.session, hcalls.threads]; exact h.ioThread_lt, ?_⟩
  rcases h.stage with hidle | hop | hst
  · exact absurd (hidle.registered.symm.trans hreg.registered) (by decide)
  · obtain ⟨rest, hio, hok⟩ := hop.tasks
    obtain ⟨more, heq, hmore⟩ := hcalls.tasks ℓ.session.ioThread
    refine .opening
      { hreg' with
        pristine := by rw [hcalls.session]; exact hop.pristine
        queued := by rw [hcalls.queued]; exact hop.queued
        isMapped := by rw [hcalls.mapped]; exact hop.isMapped
        tasks := ⟨rest ++ more, by rw [hcalls.session, heq, hio, hcalls.id]; rfl, ?_⟩ }
    have hpopped : Calls cbs (ℓ.popped ℓ.session.ioThread rest)
        (ℓ'.popped ℓ'.session.ioThread (rest ++ more)) :=
      { conn := hcalls.conn
        threads := hcalls.threads
        session := hcalls.session
        registered := hcalls.registered
        id := hcalls.id
        queued := hcalls.queued
        mapped := hcalls.mapped
        sessionId := hcalls.sessionId
        threadId := hcalls.threadId
        callbacks := hcalls.callbacks
        calls := hcalls.calls
        tasks := fun t => by
          rw [hcalls.session]
          by_cases ht : t = ℓ.session.ioThread
          · subst ht
            exact ⟨more, by simp [Link.popped], hmore⟩
          · obtain ⟨more', heq', hmore'⟩ := hcalls.tasks t
            exact ⟨more', by simp [Link.popped, Function.update_of_ne ht, heq'], hmore'⟩ }
    exact hpopped.tasksOk ⟨hop.registered, hop.id_ne, hop.threadId, hop.mapped, hop.disposed⟩ hok
  · exact .started (hst.calls hcalls)

/-- The link when `on_session_connected` is about to call `on_connected`. -/
def opened (ℓ : Link Φ) (id : TCPSessionID) : Link Φ :=
  ({ ℓ with
    registered := true
    id := id
    mapped := true
    handler := ℓ.handler.init id (threadId ℓ.session.ioThread) } : Link Φ).post
      ℓ.session.ioThread (.init id)

theorem connect_eq (ℓ : Link Φ) (id : TCPSessionID) (script : List Call) :
    ℓ.connect id script = (ℓ.opened id).callback .onConnected script := rfl

theorem Idle.opened {ℓ : Link Φ} (h : Idle ℓ) {id : TCPSessionID} (hid : id ≠ 0) :
    Opening (ℓ.opened id) := by
  rw [Link.opened, post_eq]
  refine
    { registered := rfl
      id_ne := hid
      threadId := rfl
      mapped := fun _ => rfl
      disposed := fun hm => nomatch hm
      pristine := h.pristine
      queued := h.queued
      isMapped := rfl
      tasks := ⟨[], by simp [h.tasks], fun t task hmem => ?_⟩ }
  by_cases ht : t = ℓ.session.ioThread
  · subst ht
    simp [Link.popped] at hmem
  · simp [Link.popped, Function.update_of_ne ht, h.tasks, Ne.symm ht] at hmem

theorem Lifecycle.idle {ℓ : Link Φ} (h : Lifecycle ℓ) (hreg : ℓ.registered = false) : Idle ℓ := by
  rcases h.stage with hidle | hop | hst
  · exact hidle
  · exact absurd (hreg.symm.trans hop.registered) (by decide)
  · exact absurd (hreg.symm.trans hst.registered) (by decide)

theorem Opening.closedBy {ℓ : Link Φ} (h : Opening ℓ) : ℓ.session.trace.closedBy = none := by
  obtain ⟨filter, keepAliveTime, hs⟩ := h.pristine
  rw [hs]
  rfl

/-- `init` starts the link. -/
theorem Opening.init {ℓ : Link Φ} (h : Opening ℓ) {rest : List Task}
    (ht : ℓ.tasks ℓ.session.ioThread = .init ℓ.id :: rest) {r : TCPSession Φ × List Effect}
    (hinit : TCPSession.Opens ℓ.session ℓ.id r) :
    Started ((ℓ.popped ℓ.session.ioThread rest).onSession r) := by
  obtain ⟨rest', hio, hok⟩ := h.tasks
  obtain ⟨-, rfl⟩ := List.cons.inj (ht.symm.trans hio)
  rw [onSession_eq]
  exact
    { registered := h.registered
      id_ne := h.id_ne
      threadId := by dsimp only; rw [hinit.ioThread]; exact h.threadId
      mapped := h.mapped
      disposed := h.disposed
      sessionId := hinit.sessionId
      marked := by
        show r.1.closed = r.1.trace.closedBy.isSome
        rw [hinit.closed, hinit.trace, h.closedBy]
        rfl
      queued_of_open := fun _ => by rw [hinit.effects]; rfl
      mapped_of_queued := fun _ => h.isMapped
      tasks := hok.grow
        ⟨hinit.ioThread, rfl, fun hm => hm, fun hc => absurd h.closedBy hc,
          fun hc => absurd h.closedBy hc⟩
        fun t => ⟨[], by rw [hinit.effects]; rfl, by simp⟩ }

/-- A change of the session that closes nothing and keeps its place. -/
theorem Started.withSession {ℓ : Link Φ} (h : Started ℓ) {s : TCPSession Φ}
    (hio : s.ioThread = ℓ.session.ioThread) (hid : s.sessionId = ℓ.session.sessionId)
    (hclosed : s.closed = ℓ.session.closed)
    (hby : s.trace.closedBy = ℓ.session.trace.closedBy) : Started { ℓ with session := s } where
  registered := h.registered
  id_ne := h.id_ne
  threadId := by dsimp only; rw [hio]; exact h.threadId
  mapped := h.mapped
  disposed := h.disposed
  sessionId := hid.trans h.sessionId
  marked := by
    show s.closed = s.trace.closedBy.isSome
    rw [hclosed, hby]
    exact h.marked
  queued_of_open := by dsimp only; rw [hby]; exact h.queued_of_open
  mapped_of_queued := h.mapped_of_queued
  tasks := h.tasks.grow
    ⟨hio, rfl, fun hm => hm, by dsimp only; rw [hby]; exact fun hc => hc, fun _ hq => hq⟩
    fun t => ⟨[], (List.append_nil _).symm, by simp⟩

/-- What closes a session has a cause, so one that has left the queue has been closed. -/
theorem Started.closedBy_of_closed {ℓ : Link Φ} (h : Started ℓ) (hc : ℓ.session.closed = true) :
    ℓ.session.trace.closedBy ≠ none := by
  intro hnone
  have hmarked := h.marked
  rw [TCPSession.Marked, hc, hnone] at hmarked
  cases hmarked

/-- Every task of the session keeps a started link started. -/
theorem Started.move {ℓ : Link Φ} (h : Started ℓ) {t : ThreadIx} {task : Task}
    (htask : TaskOk ℓ t task) {r : TCPSession Φ × List Effect}
    (hmove : TCPSession.Move ℓ.session ℓ.found task r) : Started (ℓ.onSession r) := by
  have hcause : ℓ.session.trace.closedBy ≠ none → r.1.trace.closedBy ≠ none := by
    intro hne
    rcases hmove.closedBy with hsame | ⟨hnone, -⟩
    · rwa [hsame]
    · exact absurd hnone hne
  have hclosed : r.1.closed = true → r.1.trace.closedBy ≠ none := by
    intro hc hnone
    have hmarked := hmove.closed h.marked
    rw [TCPSession.Marked, hc, hnone] at hmarked
    cases hmarked
  -- Only deregistering takes the session out of its queue, and only once it is closed.
  have hqueued : queuedAfter ℓ.queued r.2 = ℓ.queued ∨
      queuedAfter ℓ.queued r.2 = false ∧ r.1.trace.closedBy ≠ none := by
    cases hmove.outcome with
    | quiet _ _ heffects => exact .inl (by rw [heffects]; rfl)
    | timer _ _ heffects => exact .inl (by rw [heffects]; rfl)
    | deregister _ _ hc _ _ _ heffects =>
        exact .inr ⟨by rw [heffects, queuedAfter_leaving], hclosed hc⟩
    | receive _ _ _ _ heffects => exact .inl (by rw [heffects]; rfl)
    | first _ _ _ _ _ heffects => exact .inl (by rw [heffects]; rfl)
    | deliver _ _ _ _ _ heffects => exact .inl (by rw [heffects]; rfl)
  rw [onSession_eq]
  refine
    { registered := h.registered
      id_ne := h.id_ne
      threadId := by dsimp only; rw [hmove.ioThread]; exact h.threadId
      mapped := h.mapped
      disposed := h.disposed
      sessionId := hmove.sessionId.trans h.sessionId
      marked := hmove.closed h.marked
      queued_of_open := fun hopen => ?_
      mapped_of_queued := fun hq => ?_
      tasks := h.tasks.grow
        ⟨hmove.ioThread, rfl, fun hm => hm, hcause, fun _ hq => ?_⟩
        fun u => ⟨postsTo u r.2, rfl, fun task' hmem => ?_⟩ }
  · rcases hqueued with hsame | ⟨-, hne⟩
    · exact hsame.trans (h.queued_of_open (by_contra fun hne => hcause hne hopen))
    · exact absurd hopen hne
  · rcases hqueued with hsame | ⟨hfalse, -⟩
    · exact h.mapped_of_queued (hsame.symm.trans hq)
    · exact absurd (hfalse.symm.trans hq) (by decide)
  · rcases hqueued with hsame | ⟨hfalse, -⟩
    · exact hsame.trans hq
    · exact hfalse
  · -- What the session posts, outcome by outcome.
    have hio := hmove.ioThread
    cases hmove.outcome with
    | quiet _ _ heffects =>
        rw [heffects] at hmem
        cases hmem
    | timer _ _ heffects =>
        rw [heffects, mem_postsTo_singleton] at hmem
        obtain ⟨rfl, rfl⟩ := hmem
        exact hio.symm
    | deregister entry _ hc _ _ _ heffects =>
        rw [heffects] at hmem
        rcases mem_postsTo_leaving hmem with ⟨rfl, rfl⟩ | ⟨rfl, rfl⟩
        · exact ⟨rfl, h.sessionId, by rw [heffects, queuedAfter_leaving], hclosed hc⟩
        · exact hio.symm
    | receive _ _ _ _ heffects =>
        rw [heffects] at hmem
        cases hmem
    | first new _ _ _ _ heffects =>
        rw [heffects, mem_postsTo_singleton] at hmem
        obtain ⟨rfl, rfl⟩ := hmem
        by_cases hmain : threadId ℓ.session.ioThread = threadId mainThread
        · rw [TCPSession.flushTask, if_pos hmain]
          exact ⟨hio.symm, if_pos hmain⟩
        · rw [TCPSession.flushTask, if_neg hmain]
          exact ⟨hio.symm, if_neg hmain⟩
    | deliver hpack _ _ _ _ heffects =>
        rw [heffects, mem_postsTo_singleton] at hmem
        obtain ⟨rfl, rfl⟩ := hmem
        subst hpack
        obtain ⟨rfl, hflush⟩ := htask
        exact ⟨rfl, h.sessionId, by dsimp only; rw [hio]; exact hflush⟩

/-- Only a started session has something outstanding. -/
theorem Lifecycle.started_of_completes {ℓ : Link Φ} (h : Lifecycle ℓ) {task : Task}
    {a : Act} {s : TCPSession Φ} (hc : Completes ℓ a task s) : Started ℓ := by
  have hpristine : ℓ.session.Pristine → ℓ.queued = false → False := by
    rintro ⟨filter, keepAliveTime, hs⟩ hq
    have hout := hc.outstanding
    rw [hs, hq] at hout
    simp [TCPSession.new, Socket.new] at hout
  rcases h.stage with hidle | hop | hst
  · exact (hpristine hidle.pristine hidle.queued).elim
  · exact (hpristine hop.pristine hop.queued).elim
  · exact hst

theorem Started.complete {ℓ : Link Φ} (h : Started ℓ) {a : Act} {task : Task}
    {s : TCPSession Φ} (hc : Completes ℓ a task s) :
    Started (({ ℓ with session := s } : Link Φ).post ℓ.session.ioThread task) := by
  obtain ⟨k, timer, rfl⟩ := hc.session
  have hst : Started { ℓ with session := { ℓ.session with socket := k, closeTimer := timer } } :=
    h.withSession rfl rfl rfl rfl
  rw [post_eq]
  exact
    { registered := hst.registered
      id_ne := hst.id_ne
      threadId := hst.threadId
      mapped := hst.mapped
      disposed := hst.disposed
      sessionId := hst.sessionId
      marked := hst.marked
      queued_of_open := hst.queued_of_open
      mapped_of_queued := hst.mapped_of_queued
      tasks := hst.tasks.grow ⟨rfl, rfl, fun hm => hm, fun hc => hc, fun _ hq => hq⟩ fun t =>
        ⟨_, rfl, fun task' hmem => by
          obtain ⟨rfl, rfl⟩ : ℓ.session.ioThread = t ∧ task' = task := by
            simpa [and_comm] using hmem
          have hcompletion := hc.isCompletion
          cases task' <;> first | rfl | cases hcompletion⟩ }

/-! ## Tasks of the handler and the manager -/

/-- A change of the handler that keeps its ids, and of nothing else. -/
theorem Started.withHandler {ℓ : Link Φ} (h : Started ℓ) {handler : TCPSessionHandler}
    (hsid : handler.sessionId = ℓ.handler.sessionId)
    (htid : handler.threadId = ℓ.handler.threadId) : Started { ℓ with handler := handler } where
  registered := h.registered
  id_ne := h.id_ne
  threadId := htid.trans h.threadId
  mapped hm := hsid.trans (h.mapped hm)
  disposed hm := hsid.trans (h.disposed hm)
  sessionId := h.sessionId
  marked := h.marked
  queued_of_open := h.queued_of_open
  mapped_of_queued := h.mapped_of_queued
  tasks := h.tasks.grow ⟨rfl, rfl, fun hm => hm, fun hc => hc, fun _ hq => hq⟩
    fun t => ⟨[], (List.append_nil _).symm, by simp⟩

/-- The handler leaves the map when its session has left the queue. -/
theorem Started.dispose {ℓ : Link Φ} (h : Started ℓ) (hqueued : ℓ.queued = false)
    (hclosed : ℓ.session.trace.closedBy ≠ none) :
    Started { ℓ with handler := ℓ.handler.dispose, mapped := false } where
  registered := h.registered
  id_ne := h.id_ne
  threadId := h.threadId
  mapped hm := nomatch hm
  disposed _ := rfl
  sessionId := h.sessionId
  marked := h.marked
  queued_of_open hopen := absurd hopen hclosed
  mapped_of_queued hq := absurd (hqueued.symm.trans hq) (by decide)
  tasks := h.tasks.grow ⟨rfl, rfl, fun hm => (nomatch hm), fun hc => hc, fun _ hq => hq⟩
    fun t => ⟨[], (List.append_nil _).symm, by simp⟩

/-- A session that has been closed has been started. -/
theorem Lifecycle.started_of_closed {ℓ : Link Φ} (h : Lifecycle ℓ)
    (hc : ℓ.session.trace.closedBy ≠ none) : Started ℓ := by
  have hpristine : ℓ.session.Pristine → False := by
    rintro ⟨filter, keepAliveTime, hs⟩
    rw [hs] at hc
    exact hc rfl
  rcases h.stage with hidle | hop | hst
  · exact (hpristine hidle.pristine).elim
  · exact (hpristine hop.pristine).elim
  · exact hst

/-- A session that is open has been started. -/
theorem Lifecycle.started_of_open {ℓ : Link Φ} (h : Lifecycle ℓ)
    (hopen : ℓ.session.closed = false) : Started ℓ := by
  have hpristine : ¬ ℓ.session.Pristine := by
    rintro ⟨filter, keepAliveTime, hs⟩
    rw [hs] at hopen
    cases hopen
  rcases h.stage with hidle | hop | hst
  · exact absurd hidle.pristine hpristine
  · exact absurd hop.pristine hpristine
  · exact hst

theorem Lifecycle.closedBy_of_open {ℓ : Link Φ} (h : Lifecycle ℓ)
    (hopen : ℓ.session.closed = false) : ℓ.session.trace.closedBy = none := by
  have hmarked := (h.started_of_open hopen).marked
  rw [TCPSession.Marked, hopen] at hmarked
  simpa using hmarked.symm

/-! ## Running a task -/

/-- What running a task does to a link whose thread has taken it. Lookups are resolved: an open
session is found in its queue, and a handler is found as long as it is in the map. -/
inductive Ran (F : MessageFilterInterface Φ) (ℓ : Link Φ) (t : ThreadIx) : Task → Link Φ → Prop
  | move {task : Task} (r : TCPSession Φ × List Effect) : task.ofSession = true →
      t = ℓ.session.ioThread → Started ℓ → TCPSession.Move ℓ.session ℓ.found task r →
      (∀ id, task = .closeSession id → r.1.closed = true) → Ran F ℓ t task (ℓ.onSession r)
  | unqueued {task : Task} : task.looksInQueue = true → ℓ.session.trace.closedBy ≠ none →
      Ran F ℓ t task ℓ
  | unmapped {task : Task} : task.looksInMap = true → ℓ.mapped = false → Ran F ℓ t task ℓ
  | flush (scripts : List (List Call)) : t = ℓ.session.ioThread → Started ℓ → ℓ.mapped = true →
      Ran F ℓ t .sessionSendMessageListDirectly
        { ℓ.deliver ℓ.session.messagesReceived scripts with
          session := { (ℓ.deliver ℓ.session.messagesReceived scripts).session with
            messagesReceived := [] } }
  | deliver (id : TCPSessionID) (messages : List NetMessage) (scripts : List (List Call)) :
      t = mainThread → ℓ.mapped = true →
      Ran F ℓ t (.sendMessageListToHandler id messages) (ℓ.deliver messages scripts)
  | dispose (id : TCPSessionID) (script : List Call) : t = mainThread → Started ℓ →
      ℓ.mapped = true → ℓ.queued = false → ℓ.session.trace.closedBy ≠ none →
      Ran F ℓ t (.onSessionClosed id)
        { ℓ.callback (.onClosed ℓ.conn) script with
          handler := (ℓ.callback (.onClosed ℓ.conn) script).handler.dispose
          mapped := false }
  | pack : t = mainThread → Ran F ℓ t .handlerPackMessageList
      (ℓ.onHandler (ℓ.handler.packMessageList (getThread ℓ.threads)))
  | post (id : TCPSessionID) (messages : List NetMessage) (s : TCPSession Φ) :
      t = ℓ.session.ioThread → Started ℓ → TCPSession.Posts F ℓ.session messages s →
      Ran F ℓ t (.sendMessageListToSession id messages) { ℓ with session := s }
  | direct (s : TCPSession Φ) : t = ℓ.session.ioThread → Started ℓ →
      TCPSession.Posts F ℓ.session ℓ.handler.messagesToBeSent s →
      Ran F ℓ t .handlerSendMessageListDirectly
        { ℓ with session := s, handler := { ℓ.handler with messagesToBeSent := [] } }

theorem Started.inMap {ℓ : Link Φ} {id : TCPSessionID} (hid : id = ℓ.id) :
    ℓ.inMap id = ℓ.mapped := by
  unfold Link.inMap
  rw [hid, beq_self_eq_true, Bool.and_true]

/-- An open session is found in its queue. -/
theorem Started.inQueue {ℓ : Link Φ} (h : Started ℓ) {t : ThreadIx} {id : TCPSessionID}
    (ht : t = ℓ.session.ioThread) (hid : ℓ.mapped = true → id = ℓ.id)
    (hmiss : ℓ.inQueue t id = false) : ℓ.session.trace.closedBy ≠ none := by
  intro hopen
  have hmapped := h.mapped_of_open hopen
  unfold Link.inQueue at hmiss
  rw [h.queued_of_open hopen, ht, hid hmapped, h.sessionId, beq_self_eq_true,
    beq_self_eq_true] at hmiss
  cases hmiss

theorem Popped.ran {ℓ ℓ' : Link Φ} {t : ThreadIx} {task : Task} (h : Popped ℓ t task)
    {scripts : List (List Call)} (hex : exec F ℓ t scripts task = some ℓ') : Ran F ℓ t task ℓ' := by
  have hio := h.lifecycle.ioThread_lt
  by_cases hsession : task.ofSession = true
  · -- the session's own tasks are in the queue of its thread only
    have ht : t = ℓ.session.ioThread := by
      have hok := h.taskOk
      cases task <;> first | exact hok | exact hok.1 | cases hsession
    rcases exec_move hsession hex with ⟨r, hmove, hclosed, rfl⟩ | ⟨id, rfl, hmiss, rfl⟩
    · exact .move r hsession ht (h.started ht) hmove hclosed
    · exact .unqueued rfl ((h.started ht).inQueue ht h.taskOk.2 hmiss)
  · cases task with
    | init id => exact h.taskOk.elim
    | sessionSendMessageListDirectly =>
        cases hex
        have hst := h.started h.taskOk.1
        unfold sessionSendMessageListDirectly
        split_ifs with hmap
        · rw [Started.inMap hst.sessionId] at hmap
          exact .flush scripts h.taskOk.1 hst hmap
        · rw [Started.inMap hst.sessionId] at hmap
          exact .unmapped rfl (by simpa using hmap)
    | sendMessageListToHandler id messages =>
        cases hex
        obtain ⟨ht, hid, -⟩ := h.taskOk
        unfold sendMessageListToHandler
        split_ifs with hmap
        · rw [Started.inMap hid] at hmap
          exact .deliver id messages scripts ht hmap
        · rw [Started.inMap hid] at hmap
          exact .unmapped rfl (by simpa using hmap)
    | onSessionClosed id =>
        cases hex
        obtain ⟨ht, hid, hqueued, hclosed⟩ := h.taskOk
        unfold onSessionClosed
        split_ifs with hmap
        · rw [Started.inMap hid] at hmap
          exact .dispose id _ ht (h.lifecycle.started_of_closed hclosed) hmap hqueued hclosed
        · rw [Started.inMap hid] at hmap
          exact .unmapped rfl (by simpa using hmap)
    | handlerPackMessageList =>
        cases hex
        exact .pack h.taskOk.1
    | handlerSendMessageListDirectly =>
        have ht : t = ℓ.session.ioThread := by
          obtain ⟨rfl, hflush⟩ := h.taskOk
          by_contra hne
          have hids : threadId ℓ.session.ioThread ≠ threadId mainThread := by
            simpa [eq_comm] using hne
          rw [TCPSessionHandler.flushTask, if_neg hids] at hflush
          cases hflush
        have hget : getThread ℓ.threads ℓ.handler.threadId = some ℓ.session.ioThread := by
          rw [h.registered.threadId, getThread_threadId hio]
        have hst := h.started ht
        have hdirect : ℓ.handlerSendMessageListDirectly F = some ℓ' := hex
        unfold handlerSendMessageListDirectly at hdirect
        rw [hget] at hdirect
        dsimp only at hdirect
        split_ifs at hdirect with hq
        · obtain ⟨s, hs, rfl⟩ := Option.map_eq_some_iff.mp hdirect
          exact .direct s ht hst (TCPSession.postMessageList_posts F hs)
        · cases hdirect
          exact .unqueued rfl (hst.inQueue rfl h.registered.mapped (by simpa using hq))
    | sendMessageListToSession id messages =>
        obtain ⟨ht, hid⟩ := h.taskOk
        have hst := h.started ht
        have hpost : ℓ.sendMessageListToSession F t id messages = some ℓ' := hex
        unfold sendMessageListToSession at hpost
        split_ifs at hpost with hq
        · obtain ⟨s, hs, rfl⟩ := Option.map_eq_some_iff.mp hpost
          exact .post id messages s ht hst (TCPSession.postMessageList_posts F hs)
        · cases hpost
          exact .unqueued rfl (hst.inQueue ht hid (by simpa using hq))
    | _ => exact absurd rfl hsession

/-- Running a task keeps the invariant. -/
theorem Popped.exec {ℓ ℓ' : Link Φ} {t : ThreadIx} {task : Task} (h : Popped ℓ t task)
    (hran : Ran F ℓ t task ℓ') : Lifecycle ℓ' := by
  have hio := h.lifecycle.ioThread_lt
  have hcallable := h.lifecycle.callable
  cases hran with
  | move r _ _ hst hmove =>
      exact ⟨by rw [onSession_eq]; dsimp only; rw [hmove.ioThread]; exact hio,
        .started (hst.move h.taskOk hmove)⟩
  | unqueued => exact h.lifecycle
  | unmapped => exact h.lifecycle
  | flush scripts _ hst =>
      have hcalls := calls_deliver hcallable ℓ.session.messagesReceived scripts
      refine ⟨?_, .started ((hst.calls hcalls).withSession rfl rfl rfl rfl)⟩
      dsimp only
      rw [hcalls.session, hcalls.threads]
      exact hio
  | deliver id messages scripts =>
      exact h.lifecycle.calls h.registered (calls_deliver hcallable messages scripts)
  | dispose id script _ hst _ hqueued hclosed =>
      have hcalls := calls_callback hcallable (.onClosed ℓ.conn) script
      refine ⟨?_, .started ((hst.calls hcalls).dispose ?_ ?_)⟩
      · dsimp only
        rw [hcalls.session, hcalls.threads]
        exact hio
      · rw [hcalls.queued]
        exact hqueued
      · rw [hcalls.session]
        exact hclosed
  | pack =>
      exact h.lifecycle.calls h.registered (calls_packMessageList h.registered.threadId hio)
  | post id messages s _ hst hposts =>
      exact ⟨by dsimp only; rw [hposts.ioThread]; exact hio,
        .started (hst.withSession hposts.ioThread hposts.sessionId hposts.closed hposts.closedBy)⟩
  | direct s _ hst hposts =>
      have hst' := hst.withSession hposts.ioThread hposts.sessionId hposts.closed hposts.closedBy
      exact ⟨by dsimp only; rw [hposts.ioThread]; exact hio, .started (hst'.withHandler rfl rfl)⟩

/-- Running a task only appends to the queues. -/
theorem Popped.appends {ℓ ℓ' : Link Φ} {t : ThreadIx} {task : Task} (h : Popped ℓ t task)
    (hran : Ran F ℓ t task ℓ') (u : ThreadIx) :
    ∃ more, ℓ'.tasks u = ℓ.tasks u ++ more ∧
      ∀ x ∈ more, x.fromSession = true ∨ x.fromHandler = true := by
  have hcallable := h.lifecycle.callable
  have hcalls : ∀ {cbs : List Callback} {ℓ₁ : Link Φ}, Calls cbs ℓ ℓ₁ →
      ∃ more, ℓ₁.tasks u = ℓ.tasks u ++ more ∧
        ∀ x ∈ more, x.fromSession = true ∨ x.fromHandler = true := by
    intro cbs ℓ₁ hcalls
    obtain ⟨more, heq, hmore⟩ := hcalls.tasks u
    exact ⟨more, heq, fun x hx => .inr (hmore x hx).fromHandler⟩
  have hsame : ∃ more, ℓ.tasks u = ℓ.tasks u ++ more ∧
      ∀ x ∈ more, x.fromSession = true ∨ x.fromHandler = true := ⟨[], by simp, nofun⟩
  cases hran with
  | move r _ _ _ hmove =>
      rw [onSession_eq]
      exact ⟨_, rfl, fun x hx => .inl (move_posts hmove hx)⟩
  | unqueued => exact hsame
  | unmapped => exact hsame
  | flush scripts =>
      have hdeliver := hcalls (calls_deliver hcallable ℓ.session.messagesReceived scripts)
      exact hdeliver
  | deliver id messages scripts => exact hcalls (calls_deliver hcallable messages scripts)
  | dispose id script =>
      have hcallback := hcalls (calls_callback hcallable (.onClosed ℓ.conn) script)
      exact hcallback
  | pack => exact hcalls (calls_packMessageList h.registered.threadId h.lifecycle.ioThread_lt)
  | post => exact hsame
  | direct => exact hsame

/-! ## Steps -/

/-- What a step of a link can do. -/
inductive Step (F : MessageFilterInterface Φ) (ℓ : Link Φ) : Act → Link Φ → Prop
  | connect (id : TCPSessionID) (script : List Call) : Idle ℓ → Opening (ℓ.opened id) →
      Step F ℓ (.connect id script) ((ℓ.opened id).callback .onConnected script)
  | init {scripts : List (List Call)} (rest : List Task) (r : TCPSession Φ × List Effect) :
      Opening ℓ →
      ℓ.tasks ℓ.session.ioThread = .init ℓ.id :: rest → TCPSession.Opens ℓ.session ℓ.id r →
      r = ℓ.session.init F ℓ.clock ℓ.id →
      Step F ℓ (.run ℓ.session.ioThread scripts) ((ℓ.popped ℓ.session.ioThread rest).onSession r)
  | run {ℓ' : Link Φ} (t : ThreadIx) (task : Task) (rest : List Task)
      (scripts : List (List Call)) : ℓ.tasks t = task :: rest →
      Popped (ℓ.popped t rest) t task → Ran F (ℓ.popped t rest) t task ℓ' →
      exec F (ℓ.popped t rest) t scripts task = some ℓ' → Step F ℓ (.run t scripts) ℓ'
  | complete {a : Act} (task : Task) (s : TCPSession Φ) : Started ℓ → Completes ℓ a task s →
      Step F ℓ a (({ ℓ with session := s } : Link Φ).post ℓ.session.ioThread task)
  | logic (script : List Call) : Step F ℓ (.logic script) (ℓ.runScript script)
  | tick {a : Act} (clock : Nat) : Step F ℓ a { ℓ with clock := clock }

theorem Lifecycle.cases {ℓ ℓ' : Link Φ} {a : Act} (h : Lifecycle ℓ)
    (hstep : step F ℓ a = some ℓ') : Step F ℓ a ℓ' := by
  cases event_of_step hstep with
  | connect id script hreg hid =>
      rw [connect_eq]
      exact .connect id script (h.idle hreg) ((h.idle hreg).opened hid)
  | run t task rest scripts ht hex =>
      by_cases hinit : ∃ id, task = .init id
      · obtain ⟨id, rfl⟩ := hinit
        cases hex
        obtain ⟨rfl, rfl, hop, -⟩ := h.popped_init ht
        exact .init rest _ hop ht (TCPSession.init_opens F _ _ _) rfl
      · have hpopped := h.popped ht fun id hid => hinit ⟨id, hid⟩
        exact .run t task rest scripts ht hpopped (hpopped.ran hex) hex
  | complete task s hc => exact .complete task s (h.started_of_completes hc) hc
  | logic script => exact .logic script
  | tick clock => exact .tick clock

/-- Every step of a link keeps the invariant. -/
theorem Lifecycle.step {ℓ ℓ' : Link Φ} {a : Act} (h : Lifecycle ℓ) (hstep : step F ℓ a = some ℓ') :
    Lifecycle ℓ' := by
  cases h.cases hstep with
  | connect id script hidle hopened =>
      have hlife : Lifecycle (ℓ.opened id) := ⟨h.ioThread_lt, .opening hopened⟩
      exact hlife.calls hopened.toRegistered (calls_callback hlife.callable _ script)
  | init rest r hop ht hopens =>
      refine ⟨?_, .started (hop.init ht hopens)⟩
      rw [onSession_eq]
      dsimp only
      rw [hopens.ioThread]
      exact h.ioThread_lt
  | run t task rest scripts ht hpopped hran => exact hpopped.exec hran
  | complete task s hst hc =>
      obtain ⟨k, timer, rfl⟩ := hc.session
      exact ⟨h.ioThread_lt, .started (hst.complete hc)⟩
  | logic script =>
      rcases h.stage with hidle | hop | hst
      · rw [runScript_closed (by rw [hidle.handler]; rfl)]
        exact h
      · exact h.calls hop.toRegistered (calls_runScript h.callable script)
      · exact h.calls hst.toRegistered (calls_runScript h.callable script)
  | tick clock =>
      refine ⟨h.ioThread_lt, ?_⟩
      rcases h.stage with hidle | hop | hst
      · exact .idle ⟨hidle.registered, hidle.tasks, hidle.pristine, hidle.queued, hidle.mapped,
          hidle.handler⟩
      · exact .opening { hop with }
      · exact .started { hst with }

/-- The session stays on its thread, and what has closed it once stays the cause. What closes it is
the task at the head of the queue of its thread. -/
structure Evolves (ℓ : Link Φ) (a : Act) (ℓ' : Link Φ) : Prop where
  conn : ℓ'.conn = ℓ.conn
  ioThread : ℓ'.session.ioThread = ℓ.session.ioThread
  closedBy : ℓ'.session.trace.closedBy = ℓ.session.trace.closedBy ∨
    ℓ.session.trace.closedBy = none ∧ ∃ scripts task rest,
      a = .run ℓ.session.ioThread scripts ∧ ℓ.tasks ℓ.session.ioThread = task :: rest ∧
      ℓ'.session.trace.closedBy = task.cause
  calls : ∃ more, ℓ'.handler.calls = ℓ.handler.calls ++ more

theorem Calls.evolves {cbs : List Callback} {ℓ ℓ₁ ℓ' : Link Φ} {a : Act} (h : Calls cbs ℓ₁ ℓ')
    (hconn : ℓ₁.conn = ℓ.conn) (hsession : ℓ₁.session = ℓ.session)
    (hsame : ℓ₁.handler.calls = ℓ.handler.calls) : Evolves ℓ a ℓ' :=
  ⟨h.conn.trans hconn, by rw [h.session, hsession], .inl (by rw [h.session, hsession]),
    hsame ▸ h.calls⟩

theorem Step.evolves {ℓ ℓ' : Link Φ} {a : Act} (h : Lifecycle ℓ) (hstep : Step F ℓ a ℓ') :
    Evolves ℓ a ℓ' := by
  cases hstep with
  | connect id script hidle hopening =>
      exact (calls_callback (.inr ⟨hopening.threadId, h.ioThread_lt⟩) _ script).evolves rfl rfl
        (by rw [Link.opened, post_eq]; rfl)
  | init rest r hop _ hopens =>
      rw [onSession_eq]
      exact ⟨rfl, hopens.ioThread, .inl (by dsimp only; rw [hopens.trace]), ⟨[], by simp [Link.popped]⟩⟩
  | complete task s _ hc =>
      obtain ⟨k, timer, rfl⟩ := hc.session
      exact ⟨rfl, rfl, .inl rfl, ⟨[], by rw [post_eq, List.append_nil]⟩⟩
  | logic script => exact (calls_runScript h.callable script).evolves rfl rfl rfl
  | tick => exact ⟨rfl, rfl, .inl rfl, ⟨[], (List.append_nil _).symm⟩⟩
  | run t task rest scripts ht hpopped hran =>
      have hcallable := hpopped.lifecycle.callable
      cases hran with
      | move r _ hio _ hmove =>
          obtain rfl : t = ℓ.session.ioThread := hio
          rw [onSession_eq]
          exact ⟨rfl, hmove.ioThread,
            hmove.closedBy.imp_right fun hset => ⟨hset.1, scripts, task, rest, rfl, ht, hset.2⟩,
            ⟨[], (List.append_nil _).symm⟩⟩
      | unqueued => exact ⟨rfl, rfl, .inl rfl, ⟨[], (List.append_nil _).symm⟩⟩
      | unmapped => exact ⟨rfl, rfl, .inl rfl, ⟨[], (List.append_nil _).symm⟩⟩
      | flush scripts' =>
          have hcalls := calls_deliver hcallable (ℓ.popped t rest).session.messagesReceived scripts'
          have hevolves : Evolves ℓ (.run t scripts) _ := hcalls.evolves rfl rfl rfl
          exact ⟨hevolves.conn, hevolves.ioThread, hevolves.closedBy, hevolves.calls⟩
      | deliver id messages scripts' =>
          exact (calls_deliver hcallable messages scripts').evolves rfl rfl rfl
      | dispose id script' =>
          have hcalls := calls_callback hcallable (.onClosed ℓ.conn) script'
          have hevolves : Evolves ℓ (.run t scripts) _ := hcalls.evolves rfl rfl rfl
          exact ⟨hevolves.conn, hevolves.ioThread, hevolves.closedBy, hevolves.calls⟩
      | pack =>
          exact (calls_packMessageList hpopped.registered.threadId
            hpopped.lifecycle.ioThread_lt).evolves rfl rfl rfl
      | post id messages s _ _ hposts =>
          exact ⟨rfl, hposts.ioThread, .inl hposts.closedBy, ⟨[], (List.append_nil _).symm⟩⟩
      | direct s _ _ hposts =>
          exact ⟨rfl, hposts.ioThread, .inl hposts.closedBy, ⟨[], (List.append_nil _).symm⟩⟩

/-- A queue from which no task is taken only grows. -/
theorem Step.appends {ℓ ℓ' : Link Φ} {a : Act} (h : Lifecycle ℓ) (hstep : Step F ℓ a ℓ')
    {t : ThreadIx} (hother : ∀ scripts, a ≠ .run t scripts) :
    ∃ more, ℓ'.tasks t = ℓ.tasks t ++ more := by
  cases hstep with
  | connect id script hidle hopening =>
      obtain ⟨more, heq, -⟩ := (calls_callback (.inr ⟨hopening.threadId, h.ioThread_lt⟩)
        .onConnected script).tasks t
      rw [heq, Link.opened, post_eq, List.append_assoc]
      exact ⟨_, rfl⟩
  | init rest r hop ht hopens =>
      have hne : t ≠ ℓ.session.ioThread := by
        rintro rfl
        exact hother _ rfl
      rw [onSession_eq]
      exact ⟨_, by simp [Link.popped, Function.update_of_ne hne]; rfl⟩
  | run u task rest scripts ht hpopped hran =>
      have hne : t ≠ u := by
        rintro rfl
        exact hother _ rfl
      obtain ⟨more, heq, -⟩ := hpopped.appends hran t
      exact ⟨more, by simpa [Link.popped, Function.update_of_ne hne] using heq⟩
  | complete task s =>
      rw [post_eq]
      exact ⟨_, rfl⟩
  | logic script =>
      obtain ⟨more, heq, -⟩ := (calls_runScript h.callable script).tasks t
      exact ⟨more, heq⟩
  | tick => exact ⟨[], (List.append_nil _).symm⟩

/-- A queue from which a task is taken grows behind the others. -/
theorem Step.pops {ℓ ℓ' : Link Φ} {t : ThreadIx} {scripts : List (List Call)} {task : Task}
    {rest : List Task} (ht : ℓ.tasks t = task :: rest) (hlife : Lifecycle ℓ)
    (hstep : step F ℓ (.run t scripts) = some ℓ') : ∃ more, ℓ'.tasks t = rest ++ more := by
  rw [step_run ht] at hstep
  by_cases hinit : ∃ id, task = .init id
  · obtain ⟨id, rfl⟩ := hinit
    rw [← Option.some.inj hstep, onSession_eq]
    exact ⟨_, by simp [Link.popped]; rfl⟩
  · have hpopped := hlife.popped ht fun id hid => hinit ⟨id, hid⟩
    obtain ⟨more, heq, -⟩ := hpopped.appends (hpopped.ran hstep) t
    exact ⟨more, by simpa [Link.popped] using heq⟩

/-! ## The id of a link -/

theorem Ran.id {ℓ ℓ' : Link Φ} {t : ThreadIx} {task : Task} (h : Ran F ℓ t task ℓ')
    (hcallable : Callable ℓ) : ℓ'.id = ℓ.id := by
  cases h with
  | move r =>
      rw [onSession_eq]
  | unqueued => rfl
  | unmapped => rfl
  | flush scripts => exact (calls_deliver hcallable _ scripts).id
  | deliver id messages scripts => exact (calls_deliver hcallable messages scripts).id
  | dispose id script => exact (calls_callback hcallable _ script).id
  | pack => rw [onHandler_eq]
  | post => rfl
  | direct => rfl

/-- A connection keeps the id it has been given. -/
theorem Lifecycle.step_id {ℓ ℓ' : Link Φ} {a : Act} (h : Lifecycle ℓ) (hreg : ℓ.registered = true)
    (hstep : Link.step F ℓ a = some ℓ') : ℓ'.id = ℓ.id := by
  cases h.cases hstep with
  | connect id script hidle => exact absurd (hidle.registered.symm.trans hreg) (by decide)
  | init rest r => rw [onSession_eq]; rfl
  | run t task rest scripts _ hpopped hran _ => exact hran.id hpopped.lifecycle.callable
  | complete => rfl
  | logic script => exact (calls_runScript h.callable script).id
  | tick => rfl

/-- A session has the id of its link from `init` on. -/
theorem Lifecycle.sessionId {ℓ : Link Φ} (h : Lifecycle ℓ) :
    ℓ.session.sessionId = 0 ∨ ℓ.session.sessionId = ℓ.id := by
  have hpristine : ℓ.session.Pristine → ℓ.session.sessionId = 0 := by
    rintro ⟨filter, keepAliveTime, hs⟩
    rw [hs]
    rfl
  rcases h.stage with hidle | hop | hst
  · exact .inl (hpristine hidle.pristine)
  · exact .inl (hpristine hop.pristine)
  · exact .inr hst.sessionId

/-- Every queued task but `init` is in order. -/
theorem Lifecycle.taskOk_of_mem {ℓ : Link Φ} (h : Lifecycle ℓ) {t : ThreadIx} {task : Task}
    (hmem : task ∈ ℓ.tasks t) (hinit : ∀ id, task ≠ .init id) : TaskOk ℓ t task := by
  rcases h.stage with hidle | hop | hst
  · rw [hidle.tasks t] at hmem
    cases hmem
  · obtain ⟨rest, hio, hok⟩ := hop.tasks
    refine hok t task ?_
    by_cases ht : t = ℓ.session.ioThread
    · subst ht
      rw [hio] at hmem
      simpa [Link.popped] using (List.mem_cons.mp hmem).resolve_left (hinit _)
    · simpa [Link.popped, Function.update_of_ne ht] using hmem
  · exact hst.tasks t task hmem

theorem Ran.sessionId {ℓ ℓ' : Link Φ} {t : ThreadIx} {task : Task} (h : Ran F ℓ t task ℓ')
    (hcallable : Callable ℓ) : ℓ'.session.sessionId = ℓ.session.sessionId := by
  cases h with
  | move r _ _ _ hmove =>
      rw [onSession_eq]
      exact hmove.sessionId
  | unqueued => rfl
  | unmapped => rfl
  | flush scripts =>
      have hsession := (calls_deliver hcallable ℓ.session.messagesReceived scripts).session
      dsimp only
      rw [hsession]
  | deliver id messages scripts =>
      exact congrArg TCPSession.sessionId (calls_deliver hcallable messages scripts).session
  | dispose id script =>
      exact congrArg TCPSession.sessionId (calls_callback hcallable _ script).session
  | pack => rw [onHandler_eq]
  | post id messages s _ _ hposts => exact hposts.sessionId
  | direct s _ _ hposts => exact hposts.sessionId

theorem Lifecycle.started_of_sessionId {ℓ : Link Φ} (h : Lifecycle ℓ)
    (hid : ℓ.session.sessionId ≠ 0) : Started ℓ := by
  have hpristine : ℓ.session.Pristine → False := by
    rintro ⟨filter, keepAliveTime, hs⟩
    rw [hs] at hid
    exact hid rfl
  rcases h.stage with hidle | hop | hst
  · exact (hpristine hidle.pristine).elim
  · exact (hpristine hop.pristine).elim
  · exact hst

/-- A link that has started stays started. -/
theorem Started.step {ℓ ℓ' : Link Φ} {a : Act} (h : Started ℓ) (hlife : Lifecycle ℓ)
    (hstep : Link.step F ℓ a = some ℓ') : Started ℓ' := by
  have hlife' := hlife.step hstep
  cases hlife.cases hstep with
  | connect id script hidle => exact absurd (hidle.registered.symm.trans h.registered) (by decide)
  | init rest r hop ht hopens => exact hop.init ht hopens
  | run t task rest scripts _ hpopped hran _ =>
      refine hlife'.started_of_sessionId ?_
      rw [hran.sessionId hpopped.lifecycle.callable]
      exact h.sessionId ▸ h.id_ne
  | complete task s _ hc => exact h.complete hc
  | logic script => exact h.calls (calls_runScript hlife.callable script)
  | tick => exact { h with }

/-! ## Runs -/

/-- What holds in every run of a link that starts on thread `ioThread`. -/
structure Alive (ioThread : ThreadIx) (ℓ : Link Φ) : Prop where
  lifecycle : Lifecycle ℓ
  ioThread : ℓ.session.ioThread = ioThread

theorem Alive.start {threads : Nat} {ioThread : ThreadIx} (hio : ioThread < threads)
    (conn : Conn) (filter : Φ) (keepAliveTime : Nat) :
    Alive ioThread (start conn threads ioThread filter keepAliveTime) :=
  ⟨.start hio conn filter keepAliveTime, rfl⟩

theorem Alive.step {ioThread : ThreadIx} {ℓ ℓ' : Link Φ} {a : Act} (h : Alive ioThread ℓ)
    (hstep : step F ℓ a = some ℓ') : Alive ioThread ℓ' :=
  ⟨h.lifecycle.step hstep,
    (Step.evolves h.lifecycle (h.lifecycle.cases hstep)).ioThread.trans h.ioThread⟩

/-- Nothing is ever queued on a third thread. -/
theorem Lifecycle.drained {ℓ : Link Φ} (h : Lifecycle ℓ) (hmain : ℓ.tasks mainThread = [])
    (hio : ℓ.tasks ℓ.session.ioThread = []) (t : ThreadIx) : ℓ.tasks t = [] := by
  rcases h.stage with hidle | hop | hst
  · exact hidle.tasks t
  · obtain ⟨rest, hinit, -⟩ := hop.tasks
    rw [hio] at hinit
    cases hinit
  · refine List.eq_nil_iff_forall_not_mem.mpr fun task hmem => ?_
    have hok := hst.tasks t task hmem
    have ht : t = mainThread ∨ t = ℓ.session.ioThread := by
      cases task <;> simp only [TaskOk] at hok <;> tauto
    rcases ht with rfl | rfl
    · rw [hmain] at hmem
      cases hmem
    · rw [hio] at hmem
      cases hmem

end Link
end EddyServer
