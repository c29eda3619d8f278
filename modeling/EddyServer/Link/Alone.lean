import EddyServer.Link.Lifecycle
import EddyServer.Solo.Lifecycle

/-!
# The session of a link on its own

What a link does to its session is what the surroundings of a session on its own may do to it: the
tasks that are no completion handlers come as calls from outside. So every run of a link, from
`init` on, is a run of its session alone, and what holds of a session in any surroundings holds of
the session of a link.
-/

namespace EddyServer
namespace Link

variable {Φ : Type} {F : MessageFilterInterface Φ}

/-- `σ` is the session of `ℓ`, and its completion handlers wait in the same order. -/
structure Alone (ℓ : Link Φ) (σ : Solo Φ) : Prop where
  conn : σ.conn = ℓ.conn
  clock : σ.clock = ℓ.clock
  session : σ.session = ℓ.session
  queued : σ.queued = ℓ.queued
  completions : σ.completions = (ℓ.tasks ℓ.session.ioThread).filter Solo.isHandler

theorem Alone.found {ℓ : Link Φ} {σ : Solo Φ} (h : Alone ℓ σ) : σ.found = ℓ.found := by
  unfold Solo.found Link.found
  rw [h.queued, h.conn]

/-! ## Functions of the session -/

theorem isHandler_of_fromHandler {task : Task} (h : task.fromHandler = true) :
    Solo.isHandler task = false := by
  cases task <;> first | rfl | cases h

/-- A completion that a function of a session on thread `io` posts is the cancelled wait of the
timer, in the queue of that thread. -/
def Homely (io : ThreadIx) : Effect → Prop
  | .post t task => Solo.isHandler task = true → t = io ∧ ∃ error, task = .closeTimer error
  | _ => True

theorem Alone.effect {ℓ : Link Φ} {σ : Solo Φ} (h : Alone ℓ σ) {e : Effect}
    (he : Homely ℓ.session.ioThread e) : Alone (ℓ.effect e) (σ.effect e) := by
  cases e with
  | queueAdd => exact ⟨h.conn, h.clock, h.session, rfl, h.completions⟩
  | queueRemove => exact ⟨h.conn, h.clock, h.session, rfl, h.completions⟩
  | post t task =>
      have htasks : ((ℓ.post t task).tasks ℓ.session.ioThread).filter Solo.isHandler =
          σ.completions ++ if Solo.isHandler task then [task] else [] := by
        rw [h.completions, Link.post_eq]
        dsimp only
        rw [List.filter_append]
        by_cases htask : Solo.isHandler task = true
        · obtain ⟨rfl, -⟩ := he htask
          simp [htask]
        · split_ifs <;> simp [htask]
      by_cases htask : Solo.isHandler task = true
      · obtain ⟨-, error, rfl⟩ := he htask
        rw [if_pos htask] at htasks
        exact ⟨h.conn, h.clock, h.session, h.queued, htasks.symm⟩
      · rw [if_neg htask, List.append_nil] at htasks
        have hsame : σ.effect (.post t task) = { σ with posted := σ.posted ++ [task] } := by
          cases task <;> first | rfl | exact absurd rfl htask
        rw [hsame]
        exact ⟨h.conn, h.clock, h.session, h.queued, htasks.symm⟩

theorem Alone.effects {ℓ : Link Φ} {σ : Solo Φ} (h : Alone ℓ σ) {effects : List Effect}
    (he : ∀ e ∈ effects, Homely ℓ.session.ioThread e) :
    Alone (effects.foldl Link.effect ℓ) (effects.foldl Solo.effect σ) := by
  induction effects generalizing ℓ σ with
  | nil => exact h
  | cons e effects ih =>
      have hhead := h.effect (he e List.mem_cons_self)
      have hio : (ℓ.effect e).session.ioThread = ℓ.session.ioThread := by cases e <;> rfl
      exact ih hhead fun e' he' => hio ▸ he e' (List.mem_cons_of_mem _ he')

theorem Alone.withSession {ℓ : Link Φ} {σ : Solo Φ} (h : Alone ℓ σ) {s : TCPSession Φ}
    (hio : s.ioThread = ℓ.session.ioThread) :
    Alone { ℓ with session := s } { σ with session := s } :=
  ⟨h.conn, h.clock, rfl, h.queued, by dsimp only; rw [hio]; exact h.completions⟩

theorem homely_of_move {s : TCPSession Φ} {found : Option Conn} {task : Task}
    {r : TCPSession Φ × List Effect} (hmove : TCPSession.Move s found task r) :
    ∀ e ∈ r.2, Homely s.ioThread e := by
  cases hmove.outcome with
  | quiet _ _ heffects => rw [heffects]; exact nofun
  | timer _ _ heffects =>
      rw [heffects]
      intro e he
      cases List.mem_singleton.mp he
      exact fun _ => ⟨rfl, _, rfl⟩
  | deregister entry _ _ _ _ _ heffects =>
      rw [heffects]
      intro e he
      rcases TCPSession.mem_leaving he with rfl | rfl | rfl
      · exact fun hhandler => nomatch hhandler
      · trivial
      · exact fun _ => ⟨rfl, _, rfl⟩
  | receive _ _ _ _ heffects => rw [heffects]; exact nofun
  | first _ _ _ _ _ heffects =>
      rw [heffects]
      intro e he
      cases List.mem_singleton.mp he
      intro hhandler
      unfold TCPSession.flushTask at hhandler
      split_ifs at hhandler <;> cases hhandler
  | deliver _ _ _ _ _ heffects =>
      rw [heffects]
      intro e he
      cases List.mem_singleton.mp he
      exact fun hhandler => nomatch hhandler

/-- The session has run a function. -/
theorem Alone.onSession {ℓ : Link Φ} {σ : Solo Φ} (h : Alone ℓ σ) {task : Task}
    {found : Option Conn} {r : TCPSession Φ × List Effect}
    (hmove : TCPSession.Move ℓ.session found task r) :
    Alone (ℓ.onSession r) (σ.onSession r) := by
  refine (h.withSession hmove.ioThread).effects fun e he => ?_
  dsimp only
  rw [hmove.ioThread]
  exact homely_of_move hmove e he

/-! ## Steps -/

/-- Application code has run. -/
theorem Alone.calls {ℓ ℓ' : Link Φ} {σ : Solo Φ} (h : Alone ℓ σ) {cbs : List Callback}
    (hcalls : Calls cbs ℓ ℓ') (hclock : ℓ'.clock = ℓ.clock) : Alone ℓ' σ := by
  refine ⟨h.conn.trans hcalls.conn.symm, h.clock.trans hclock.symm,
    h.session.trans hcalls.session.symm, h.queued.trans hcalls.queued.symm, ?_⟩
  obtain ⟨more, heq, hmore⟩ := hcalls.tasks ℓ.session.ioThread
  have hnone : more.filter Solo.isHandler = [] := by
    rw [List.filter_eq_nil_iff]
    intro task htask
    rw [isHandler_of_fromHandler (hmore task htask).fromHandler]
    decide
  rw [hcalls.session, heq, List.filter_append, hnone, List.append_nil]
  exact h.completions

/-- A task that is no completion handler has been taken. -/
theorem Alone.popped {ℓ : Link Φ} {σ : Solo Φ} (h : Alone ℓ σ) {t : ThreadIx} {task : Task}
    {rest : List Task} (ht : ℓ.tasks t = task :: rest) (htask : Solo.isHandler task = false) :
    Alone (ℓ.popped t rest) σ := by
  refine ⟨h.conn, h.clock, h.session, h.queued, h.completions.trans ?_⟩
  by_cases hio : ℓ.session.ioThread = t
  · subst hio
    simp [Link.popped, ht, htask]
  · simp [Link.popped, Function.update_of_ne hio]

/-- A completion handler has been taken: it is the first one of the session. -/
theorem Alone.head {ℓ : Link Φ} {σ : Solo Φ} (h : Alone ℓ σ) {task : Task} {rest : List Task}
    (ht : ℓ.tasks ℓ.session.ioThread = task :: rest) (htask : Solo.isHandler task = true) :
    σ.completions = task :: rest.filter Solo.isHandler ∧
      Alone (ℓ.popped ℓ.session.ioThread rest)
        { σ with completions := rest.filter Solo.isHandler } := by
  refine ⟨?_, h.conn, h.clock, h.session, h.queued, ?_⟩
  · rw [h.completions, ht, List.filter_cons_of_pos htask]
  · simp [Link.popped]

theorem clock_runScript (ℓ : Link Φ) (script : List Call) : (ℓ.runScript script).clock = ℓ.clock := by
  induction script generalizing ℓ with
  | nil => rfl
  | cons c script ih =>
      refine (ih (ℓ.call c)).trans ?_
      rw [Link.call, onHandler_eq]

theorem clock_callback (ℓ : Link Φ) (cb : Callback) (script : List Call) :
    (ℓ.callback cb script).clock = ℓ.clock :=
  clock_runScript _ script

theorem clock_deliver (ℓ : Link Φ) (messages : List NetMessage) (scripts : List (List Call)) :
    (ℓ.deliver messages scripts).clock = ℓ.clock := by
  induction messages generalizing ℓ scripts with
  | nil => rfl
  | cons m messages ih => exact (ih _ scripts.tail).trans (clock_callback ℓ _ _)

/-- A read that completes for the session on its own has completed so for the link. -/
def Mirrors (a : Act) : Solo.Act → Prop
  | .readDone i error data => a = .readDone i error data
  | _ => True

/-- What the session on its own can answer a step `a` with: nothing, or one step. -/
def Answers (F : MessageFilterInterface Φ) (σ : Solo Φ) (a : Act) (ℓ' : Link Φ) : Prop :=
  Alone ℓ' σ ∨ ∃ b σ', Mirrors a b ∧ Solo.step F σ b = some σ' ∧ Alone ℓ' σ'

theorem step_run_solo {σ : Solo Φ} {task : Task} {rest : List Task}
    (h : σ.completions = task :: rest) :
    Solo.step F σ .run = Solo.exec F { σ with completions := rest } task := by
  unfold Solo.step
  dsimp only
  rw [h]

/-- A batch is given to the session. -/
theorem Alone.posts {ℓ : Link Φ} {σ : Solo Φ} (h : Alone ℓ σ) {messages : List NetMessage}
    {s : TCPSession Φ} (hs : ℓ.session.postMessageList F messages = some s) :
    ∃ σ', Solo.step F σ (.post messages) = some σ' ∧ Alone { ℓ with session := s } σ' := by
  have hposts := TCPSession.postMessageList_posts F hs
  refine ⟨{ σ with session := s, encoded := σ.encoded ++ σ.session.encoding F messages },
    Option.map_eq_some_iff.mpr ⟨s, by rw [h.session]; exact hs, rfl⟩,
    h.conn, h.clock, rfl, h.queued, ?_⟩
  dsimp only
  rw [hposts.ioThread]
  exact h.completions

/-- A task that has been taken from a queue of a started link. -/
theorem Alone.exec {ℓ ℓ' : Link Φ} {σ : Solo Φ} (h : Alone ℓ σ) (hlife : Lifecycle ℓ)
    {t : ThreadIx} {task : Task} {rest : List Task} {scripts : List (List Call)}
    (hst : Started ℓ) (ht : ℓ.tasks t = task :: rest)
    (hex : Link.exec F (ℓ.popped t rest) t scripts task = some ℓ') :
    Answers F σ (.run t scripts) ℓ' := by
  have hok := hst.tasks t task (by rw [ht]; exact List.mem_cons_self)
  have hcallable : Callable (ℓ.popped t rest) := hlife.callable
  cases task with
  | init id => exact hok.elim
  | handleRead error data =>
      cases hex
      obtain rfl : t = ℓ.session.ioThread := hok
      obtain ⟨hcompletions, hpopped⟩ := h.head ht rfl
      refine .inr ⟨.run, _, trivial, ?_, hpopped.onSession
        (TCPSession.move_handleRead F ℓ.clock ℓ.session ℓ.found error data)⟩
      rw [step_run_solo hcompletions]
      show some (Solo.onSession _ (σ.session.handleRead F σ.clock σ.found error data)) = _
      rw [h.clock, h.session, h.found]
      rfl
  | hanldeWrite error =>
      cases hex
      obtain rfl : t = ℓ.session.ioThread := hok
      obtain ⟨hcompletions, hpopped⟩ := h.head ht rfl
      refine .inr ⟨.run, _, trivial, ?_, hpopped.onSession
        (TCPSession.move_hanldeWrite ℓ.session ℓ.found error)⟩
      rw [step_run_solo hcompletions]
      show some (Solo.onSession _ (σ.session.hanldeWrite σ.found error)) = _
      rw [h.session, h.found]
      rfl
  | handleSafeClose error data =>
      cases hex
      obtain rfl : t = ℓ.session.ioThread := hok
      obtain ⟨hcompletions, hpopped⟩ := h.head ht rfl
      refine .inr ⟨.run, _, trivial, ?_, hpopped.onSession
        (TCPSession.move_handleSafeClose ℓ.session ℓ.found error data)⟩
      rw [step_run_solo hcompletions]
      show some (Solo.onSession _ (σ.session.handleSafeClose error data)) = _
      rw [h.session]
      rfl
  | closeTimer error =>
      obtain ⟨s, hs, rfl⟩ := Option.map_eq_some_iff.mp hex
      obtain rfl : t = ℓ.session.ioThread := hok
      obtain ⟨hcompletions, hpopped⟩ := h.head ht rfl
      have hio : s.ioThread = ℓ.session.ioThread :=
        (TCPSession.move_closeTimerExpired ℓ.found hs).ioThread
      refine .inr ⟨.run, _, trivial, ?_, hpopped.withSession hio⟩
      rw [step_run_solo hcompletions]
      exact Option.map_eq_some_iff.mpr ⟨s, by rw [h.session]; exact hs, rfl⟩
  | close =>
      cases hex
      refine .inr ⟨.keepAlive, _, trivial, rfl, ?_⟩
      have hmove : TCPSession.Move ℓ.session ℓ.found .close
          (ℓ.session.close .keepAlive ℓ.found) := TCPSession.move_close _ rfl rfl rfl _
      rw [h.session, h.found]
      exact (h.popped ht rfl).onSession hmove
  | sessionPackMessageList =>
      cases hex
      refine .inr ⟨.pack, _, trivial, rfl, ?_⟩
      rw [h.session]
      exact (h.popped ht rfl).onSession (TCPSession.move_packMessageList ℓ.session ℓ.found)
  | sessionSendMessageListDirectly =>
      cases hex
      unfold Link.sessionSendMessageListDirectly
      split_ifs
      · have hcalls := calls_deliver hcallable (ℓ.popped t rest).session.messagesReceived scripts
        have hdelivered := (h.popped ht rfl).calls hcalls (clock_deliver ..)
        refine .inr ⟨.deliver, _, trivial, rfl, ?_⟩
        rw [hdelivered.session]
        exact hdelivered.withSession (by rw [hcalls.session])
      · exact .inl (h.popped ht rfl)
  | sendMessageListToHandler id messages =>
      cases hex
      unfold Link.sendMessageListToHandler
      split_ifs
      · exact .inl ((h.popped ht rfl).calls (calls_deliver hcallable messages scripts)
          (clock_deliver ..))
      · exact .inl (h.popped ht rfl)
  | onSessionClosed id =>
      cases hex
      unfold Link.onSessionClosed
      split_ifs
      · have hcalled := (h.popped ht rfl).calls (calls_callback hcallable
          (.onClosed (ℓ.popped t rest).conn) (scripts.headD [])) (clock_callback ..)
        exact .inl ⟨hcalled.conn, hcalled.clock, hcalled.session, hcalled.queued,
          hcalled.completions⟩
      · exact .inl (h.popped ht rfl)
  | handlerPackMessageList =>
      cases hex
      refine .inl ((h.popped ht rfl).calls
        (calls_packMessageList (ℓ := ℓ.popped t rest) hst.threadId hlife.ioThread_lt) ?_)
      rw [onHandler_eq]
  | handlerSendMessageListDirectly =>
      change Link.handlerSendMessageListDirectly F (ℓ.popped t rest) = some ℓ' at hex
      unfold Link.handlerSendMessageListDirectly at hex
      split at hex
      · cases hex
        exact .inl (h.popped ht rfl)
      · split_ifs at hex
        · obtain ⟨s, hs, rfl⟩ := Option.map_eq_some_iff.mp hex
          obtain ⟨σ', hstep, hposted⟩ := (h.popped ht rfl).posts hs
          exact .inr ⟨.post _, σ', trivial, hstep, hposted.conn, hposted.clock, hposted.session,
            hposted.queued, hposted.completions⟩
        · cases hex
          exact .inl (h.popped ht rfl)
  | sendMessageListToSession id messages =>
      change Link.sendMessageListToSession F (ℓ.popped t rest) t id messages = some ℓ' at hex
      unfold Link.sendMessageListToSession at hex
      split_ifs at hex
      · obtain ⟨s, hs, rfl⟩ := Option.map_eq_some_iff.mp hex
        obtain ⟨σ', hstep, hposted⟩ := (h.popped ht rfl).posts hs
        exact .inr ⟨.post _, σ', trivial, hstep, hposted⟩
      · cases hex
        exact .inl (h.popped ht rfl)
  | closeSession id =>
      cases hex
      unfold Link.closeSession
      split_ifs
      · refine .inr ⟨.close, _, trivial, rfl, ?_⟩
        have hmove : TCPSession.Move ℓ.session ℓ.found (.closeSession id)
            (ℓ.session.close .closeSession ℓ.found) := TCPSession.move_close _ rfl rfl rfl _
        rw [h.session, h.found]
        exact (h.popped ht rfl).onSession hmove
      · exact .inl (h.popped ht rfl)

/-- An operation has completed. -/
theorem Alone.completes {ℓ : Link Φ} {σ : Solo Φ} (h : Alone ℓ σ) {s : TCPSession Φ} {task : Task}
    (hio : s.ioThread = ℓ.session.ioThread) (htask : Solo.isHandler task = true) :
    Alone (({ ℓ with session := s } : Link Φ).post ℓ.session.ioThread task) (σ.complete s task) := by
  refine ⟨h.conn, h.clock, rfl, h.queued, ?_⟩
  rw [Link.post_eq]
  dsimp only [Solo.complete]
  rw [hio, if_pos rfl, List.filter_append, h.completions]
  simp [htask]

theorem isHandler_completion (op : ReadOp) (error : ErrorCode) (data : List UInt8) :
    Solo.isHandler (op.completion error data) = true := by
  unfold ReadOp.completion
  cases op.handler <;> rfl

/-- **A step of a started link is nothing to its session, or one step of it on its own.** -/
theorem Alone.step {ℓ ℓ' : Link Φ} {σ : Solo Φ} {a : Act} (h : Alone ℓ σ) (hlife : Lifecycle ℓ)
    (hst : Started ℓ) (hstep : Link.step F ℓ a = some ℓ') : Answers F σ a ℓ' := by
  cases a with
  | connect id script =>
      unfold Link.step at hstep
      dsimp only at hstep
      rw [if_pos (.inl hst.registered)] at hstep
      cases hstep
  | run t scripts =>
      cases ht : ℓ.tasks t with
      | nil =>
          simp only [Link.step, ht] at hstep
          cases hstep
      | cons task rest =>
          rw [step_run ht] at hstep
          exact h.exec hlife hst ht hstep
  | readDone i error data =>
      unfold Link.step at hstep
      dsimp only at hstep
      cases hop : ℓ.session.socket.reads[i]? with
      | none =>
          rw [hop] at hstep
          cases hstep
      | some op =>
          rw [hop] at hstep
          dsimp only at hstep
          split_ifs at hstep with hallows
          cases hstep
          refine .inr ⟨.readDone i error data, _, rfl, ?_,
            h.completes rfl (isHandler_completion op error data)⟩
          unfold Solo.step
          dsimp only
          rw [h.session, hop]
          exact if_pos hallows
  | writeDone error =>
      unfold Link.step at hstep
      dsimp only at hstep
      cases hw : ℓ.session.socket.writing with
      | nil =>
          rw [hw] at hstep
          cases hstep
      | cons range writing =>
          rw [hw] at hstep
          cases hstep
          refine .inr ⟨.writeDone error, _, trivial, ?_, h.completes rfl rfl⟩
          unfold Solo.step
          dsimp only
          rw [h.session, hw]
  | timerDone =>
      unfold Link.step at hstep
      dsimp only at hstep
      split_ifs at hstep with htimer
      cases hstep
      refine .inr ⟨.timerDone, _, trivial, ?_, h.completes rfl rfl⟩
      unfold Solo.step
      dsimp only
      rw [h.session]
      exact if_pos htimer
  | keepAlive =>
      cases hstep
      split_ifs
      · refine .inl ⟨h.conn, h.clock, h.session, h.queued, h.completions.trans ?_⟩
        rw [Link.post_eq]
        dsimp only
        rw [if_pos rfl, List.filter_append]
        simp [Solo.isHandler]
      · exact .inl h
  | logic script =>
      cases hstep
      exact .inl (h.calls (calls_runScript hlife.callable script) (clock_runScript ℓ script))
  | tick n =>
      cases hstep
      exact .inr ⟨.tick n, _, trivial, rfl, h.conn, congrArg (· + n) h.clock, h.session, h.queued,
        h.completions⟩

/-! ## Runs -/

/-- The session is as its constructor has made it, and no completion handler waits. -/
structure Fresh (ioThread : ThreadIx) (filter : Φ) (keepAliveTime : Nat) (ℓ : Link Φ) : Prop where
  session : ℓ.session = .new ioThread filter keepAliveTime
  queued : ℓ.queued = false
  tasks : ∀ task ∈ ℓ.tasks ioThread, Solo.isHandler task = false

/-- The session of a link has had a life on its own from `init` on. -/
inductive Apart (F : MessageFilterInterface Φ) (okS : Solo Φ → Solo.Act → Prop) (conn : Conn)
    (ioThread : ThreadIx) (filter : Φ) (keepAliveTime : Nat) (ℓ : Link Φ) : Prop
  | fresh : Fresh ioThread filter keepAliveTime ℓ → Apart F okS conn ioThread filter keepAliveTime ℓ
  | alone (clock : Nat) (σ : Solo Φ) : Started ℓ → Alone ℓ σ →
      Transition.Run (Solo.step F) okS
        (.start F conn clock ioThread filter keepAliveTime ℓ.id) σ →
      Apart F okS conn ioThread filter keepAliveTime ℓ

section
variable {conn : Conn} {ioThread : ThreadIx} {filter : Φ} {keepAliveTime : Nat}

theorem Fresh.not_started {ℓ : Link Φ} (h : Fresh ioThread filter keepAliveTime ℓ) :
    ¬ Started ℓ := by
  intro hst
  have hid := hst.sessionId
  rw [h.session] at hid
  exact hst.id_ne hid.symm

theorem Fresh.popped {ℓ : Link Φ} (h : Fresh ioThread filter keepAliveTime ℓ) {t : ThreadIx}
    {task : Task} {rest : List Task} (ht : ℓ.tasks t = task :: rest) :
    Fresh ioThread filter keepAliveTime (ℓ.popped t rest) := by
  refine ⟨h.session, h.queued, fun task' hmem => h.tasks task' ?_⟩
  by_cases hio : ioThread = t
  · subst hio
    rw [ht]
    exact List.mem_cons_of_mem _ (by simpa [Link.popped] using hmem)
  · simpa [Link.popped, Function.update_of_ne hio] using hmem

theorem Fresh.calls {ℓ ℓ' : Link Φ} {cbs : List Callback}
    (h : Fresh ioThread filter keepAliveTime ℓ) (hcalls : Calls cbs ℓ ℓ') :
    Fresh ioThread filter keepAliveTime ℓ' := by
  refine ⟨hcalls.session.trans h.session, hcalls.queued.trans h.queued, fun task hmem => ?_⟩
  obtain ⟨more, heq, hmore⟩ := hcalls.tasks ioThread
  rw [heq] at hmem
  rcases List.mem_append.mp hmem with hold | hnew
  · exact h.tasks task hold
  · exact isHandler_of_fromHandler (hmore task hnew).fromHandler

/-- A session that has just run `init` is on its own. -/
theorem Fresh.init {ℓ : Link Φ} (h : Fresh ioThread filter keepAliveTime ℓ) {id : TCPSessionID}
    {rest : List Task} (ht : ℓ.tasks ℓ.session.ioThread = .init id :: rest) (conn : Conn)
    (hconn : ℓ.conn = conn) :
    Alone ((ℓ.popped ℓ.session.ioThread rest).onSession (ℓ.session.init F ℓ.clock id))
      (.start F conn ℓ.clock ioThread filter keepAliveTime id) := by
  have hopens := TCPSession.init_opens F ℓ.clock ℓ.session id
  have hrest : rest.filter Solo.isHandler = [] := by
    have hio : ℓ.session.ioThread = ioThread := by rw [h.session]; rfl
    rw [List.filter_eq_nil_iff]
    intro task hmem
    rw [h.tasks task (by rw [← hio, ht]; exact List.mem_cons_of_mem _ hmem)]
    decide
  have hbase : Alone (ℓ.popped ℓ.session.ioThread rest)
      { conn := conn, clock := ℓ.clock, session := ℓ.session, queued := false,
        completions := [], posted := [], encoded := [] } :=
    ⟨hconn.symm, rfl, rfl, h.queued.symm, by simp [Link.popped, hrest]⟩
  have hhomely : ∀ e ∈ (ℓ.session.init F ℓ.clock id).2,
      Homely (ℓ.session.init F ℓ.clock id).1.ioThread e := by
    rw [hopens.effects]
    intro e he
    cases List.mem_singleton.mp he
    trivial
  rw [Solo.start, ← h.session]
  exact (hbase.withSession hopens.ioThread).effects hhomely

/-- What holds in every run of a link. -/
structure Accompanied (F : MessageFilterInterface Φ) (okS : Solo Φ → Solo.Act → Prop) (conn : Conn)
    (ioThread : ThreadIx) (filter : Φ) (keepAliveTime : Nat) (ℓ : Link Φ) : Prop where
  isConn : ℓ.conn = conn
  alive : Alive ioThread ℓ
  apart : Apart F okS conn ioThread filter keepAliveTime ℓ

theorem Accompanied.step {okS : Solo Φ → Solo.Act → Prop} {ℓ ℓ' : Link Φ} {a : Act}
    (h : Accompanied F okS conn ioThread filter keepAliveTime ℓ)
    (hok : ∀ {σ b}, Alone ℓ σ → Mirrors a b → okS σ b)
    (hstep : Link.step F ℓ a = some ℓ') :
    Accompanied F okS conn ioThread filter keepAliveTime ℓ' := by
  have hlife := h.alive.lifecycle
  have hio := h.alive.ioThread
  have hcases := hlife.cases hstep
  refine ⟨(Step.evolves hlife hcases).conn.trans h.isConn, h.alive.step hstep, ?_⟩
  cases h.apart with
  | alone clock σ hst halone hrun =>
      have hid := hlife.step_id hst.registered hstep
      have hst' := hst.step hlife hstep
      rcases halone.step hlife hst hstep with hsame | ⟨b, σ', hmirrors, hsolo, halone'⟩
      · exact .alone clock σ hst' hsame (hid ▸ hrun)
      · exact .alone clock σ' hst' halone' (hid ▸ hrun.tail (hok halone hmirrors) hsolo)
  | fresh hfresh =>
      have hnot := hfresh.not_started
      cases hcases with
      | connect id script hidle hopened =>
          have hopen : Fresh ioThread filter keepAliveTime (ℓ.opened id) := by
            rw [Link.opened, Link.post_eq]
            refine ⟨hfresh.session, hfresh.queued, fun task hmem => ?_⟩
            simp only [hidle.tasks, List.nil_append] at hmem
            split_ifs at hmem
            cases List.mem_singleton.mp hmem
            rfl
          exact .fresh (hopen.calls (calls_callback (.inr ⟨hopened.threadId, hlife.ioThread_lt⟩)
            .onConnected script))
      | init rest r hop ht hopens heq =>
          subst heq
          refine .alone ℓ.clock _ (hop.init ht hopens) (hfresh.init ht conn h.isConn) ?_
          rw [onSession_eq]
          exact .refl _
      | run t task rest scripts ht hpopped hran hex =>
          have hfresh' := hfresh.popped ht
          have hnot' := hfresh'.not_started
          have hcallable := hpopped.lifecycle.callable
          cases hran with
          | unqueued => exact .fresh hfresh'
          | unmapped => exact .fresh hfresh'
          | deliver id messages scripts =>
              exact .fresh (hfresh'.calls (calls_deliver hcallable messages scripts))
          | pack =>
              exact .fresh (hfresh'.calls (calls_packMessageList hpopped.registered.threadId
                hpopped.lifecycle.ioThread_lt))
          -- the other tasks find a session, which has run `init`
          | move r _ _ hst => exact absurd hst hnot'
          | flush scripts _ hst => exact absurd hst hnot'
          | dispose id script _ hst => exact absurd hst hnot'
          | post id messages s _ hst => exact absurd hst hnot'
          | direct s _ hst => exact absurd hst hnot'
      | complete task s hst hc => exact absurd hst hnot
      | logic script => exact .fresh (hfresh.calls (calls_runScript hlife.callable script))
      | tick clock => exact .fresh ⟨hfresh.session, hfresh.queued, hfresh.tasks⟩

/-- A weaker condition on the steps of the session. -/
theorem Accompanied.mono {okS okS' : Solo Φ → Solo.Act → Prop} {ℓ : Link Φ}
    (h : Accompanied F okS conn ioThread filter keepAliveTime ℓ)
    (hok : ∀ σ a, okS σ a → okS' σ a) :
    Accompanied F okS' conn ioThread filter keepAliveTime ℓ := by
  refine ⟨h.isConn, h.alive, ?_⟩
  cases h.apart with
  | fresh hfresh => exact .fresh hfresh
  | alone clock σ hst halone hrun => exact .alone clock σ hst halone (hrun.mono hok)

theorem Accompanied.start (F : MessageFilterInterface Φ) (okS : Solo Φ → Solo.Act → Prop)
    {threads : Nat} (hio : ioThread < threads) :
    Accompanied F okS conn ioThread filter keepAliveTime
      (Link.start conn threads ioThread filter keepAliveTime) :=
  ⟨rfl, .start hio conn filter keepAliveTime, .fresh ⟨rfl, rfl, nofun⟩⟩

/-- **The session of a link lives like a session on its own.** -/
theorem Accompanied.of_run {okL : Link Φ → Act → Prop} {okS : Solo Φ → Solo.Act → Prop}
    {threads : Nat} (hio : ioThread < threads) {ℓ : Link Φ}
    (hok : ∀ {ℓ σ a b}, okL ℓ a → Alone ℓ σ → Mirrors a b → okS σ b)
    (hrun : Transition.Run (Link.step F) okL
      (Link.start conn threads ioThread filter keepAliveTime) ℓ) :
    Accompanied F okS conn ioThread filter keepAliveTime ℓ :=
  hrun.invariant
    (fun h ha hstep => h.step (hok ha) hstep)
    (.start F okS hio)

end

end Link
end EddyServer
