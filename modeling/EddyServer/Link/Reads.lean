import EddyServer.Link.Lifecycle

/-!
# Reads of a link

A session never has more than one `handle_read` on its way, started or completed, and
`num_read_handlers_` counts it. Since the next read is started by the `handle_read` that posts a
flush of the received messages, the flush is queued in front of the next `handle_read`: one that
runs on an open session finds `messages_received_` empty.
-/

namespace EddyServer
namespace Link

variable {Φ : Type} {F : MessageFilterInterface Φ}

/-! ## One read at a time -/

/-- The completions of `handle_read` that are queued. -/
def queuedReads (ℓ : Link Φ) : Nat := (ℓ.tasks ℓ.session.ioThread).countP Task.isRead

structure OneRead (ℓ : Link Φ) : Prop where
  counted : ℓ.session.numReadHandlers = ℓ.session.outstandingReads + ℓ.queuedReads
  le_one : ℓ.session.outstandingReads + ℓ.queuedReads ≤ 1

theorem OneRead.start (conn : Conn) (threads : Nat) (ioThread : ThreadIx) (filter : Φ)
    (keepAliveTime : Nat) : OneRead (start conn threads ioThread filter keepAliveTime) :=
  ⟨rfl, Nat.zero_le _⟩

/-- A change that keeps every count. -/
theorem OneRead.congr {ℓ ℓ' : Link Φ} (h : OneRead ℓ)
    (hnum : ℓ'.session.numReadHandlers = ℓ.session.numReadHandlers)
    (hout : ℓ'.session.outstandingReads = ℓ.session.outstandingReads)
    (hqueued : ℓ'.queuedReads = ℓ.queuedReads) : OneRead ℓ' :=
  ⟨by rw [hnum, hout, hqueued]; exact h.counted, by rw [hout, hqueued]; exact h.le_one⟩

theorem countP_append_isRead {ts more : List Task} (h : ∀ task ∈ more, task.isRead = false) :
    (ts ++ more).countP Task.isRead = ts.countP Task.isRead := by
  have hzero : more.countP Task.isRead = 0 :=
    List.countP_eq_zero.mpr fun task hmem => by simp [h task hmem]
  rw [List.countP_append, hzero, Nat.add_zero]

theorem isRead_of_fromHandler {task : Task} (h : task.fromHandler = true) :
    task.isRead = false := by
  cases task <;> first | rfl | cases h

theorem isRead_of_fromSession {task : Task} (h : task.fromSession = true) :
    task.isRead = false := by
  cases task <;> first | rfl | cases h

/-- Application code starts and completes no reads. -/
theorem Calls.oneRead {cbs : List Callback} {ℓ ℓ' : Link Φ} (hcalls : Calls cbs ℓ ℓ')
    (h : OneRead ℓ) : OneRead ℓ' := by
  refine h.congr (by rw [hcalls.session]) (by rw [hcalls.session]) ?_
  obtain ⟨more, heq, hmore⟩ := hcalls.tasks ℓ.session.ioThread
  unfold queuedReads
  rw [hcalls.session, heq]
  exact countP_append_isRead fun task hmem => isRead_of_fromHandler (hmore task hmem).fromHandler

/-- Taking a task takes the read that it completes. -/
theorem queuedReads_popped {ℓ : Link Φ} {t : ThreadIx} {task : Task} {rest : List Task}
    (ht : ℓ.tasks t = task :: rest) (hio : task.isRead = true → t = ℓ.session.ioThread) :
    (ℓ.popped t rest).queuedReads + (if task.isRead then 1 else 0) = ℓ.queuedReads := by
  by_cases hthread : t = ℓ.session.ioThread
  · subst hthread
    simp [queuedReads, popped, ht, List.countP_cons]
  · have hread : task.isRead = false := by
      simpa using fun hr => hthread (hio hr)
    simp [queuedReads, popped, Function.update_of_ne (Ne.symm hthread), hread]

theorem isRead_ioThread {ℓ : Link Φ} {t : ThreadIx} {task : Task} (h : TaskOk ℓ t task)
    (hread : task.isRead = true) : t = ℓ.session.ioThread := by
  cases task <;> first | exact h | cases hread

theorem OneRead.step {ℓ ℓ' : Link Φ} {a : Act} (h : OneRead ℓ) (hlife : Lifecycle ℓ)
    (hstep : Step F ℓ a ℓ') : OneRead ℓ' := by
  cases hstep with
  | connect id script hidle hopening =>
      have hopened : OneRead (ℓ.opened id) := by
        rw [opened, post_eq]
        refine h.congr rfl rfl ?_
        simp [queuedReads, Task.isRead]
      exact (calls_callback (.inr ⟨hopening.threadId, hlife.ioThread_lt⟩) _ script).oneRead hopened
  | init rest r hop ht hopens =>
      have hpopped := queuedReads_popped ht (fun _ => rfl)
      have hqueued : ((ℓ.popped ℓ.session.ioThread rest).onSession r).queuedReads =
          (ℓ.popped ℓ.session.ioThread rest).queuedReads := by
        rw [onSession_eq]
        simp [queuedReads, hopens.ioThread, hopens.effects, postsTo, popped]
      obtain ⟨filter, keepAliveTime, hs⟩ := hop.pristine
      -- Before `init` nothing has been started.
      have hnum : ℓ.session.numReadHandlers = 0 := by rw [hs]; rfl
      have hout : ℓ.session.outstandingReads = 0 := by rw [hs]; rfl
      have hcounted := h.counted
      have hreads := hopens.reads
      have hle := hopens.reads_le
      refine ⟨?_, ?_⟩ <;> rw [hqueued, onSession_eq] <;> dsimp only <;>
        simp only [Task.isRead] at hpopped <;> omega
  | complete task s _ hc =>
      have hreads := hc.reads
      have hnum : s.numReadHandlers = ℓ.session.numReadHandlers := by
        obtain ⟨k, timer, rfl⟩ := hc.session
        rfl
      have hio : s.ioThread = ℓ.session.ioThread := by
        obtain ⟨k, timer, rfl⟩ := hc.session
        rfl
      -- The completion moves one call from the socket to the queue.
      have hqueued : (({ ℓ with session := s } : Link Φ).post ℓ.session.ioThread task).queuedReads =
          ℓ.queuedReads + if task.isRead then 1 else 0 := by
        rw [post_eq]
        simp [queuedReads, hio, List.countP_append, List.countP_cons]
      have hcounted := h.counted
      have hle := h.le_one
      refine ⟨?_, ?_⟩ <;> rw [hqueued, post_eq] <;> dsimp only <;> omega
  | logic script => exact (calls_runScript hlife.callable script).oneRead h
  | tick => exact h.congr rfl rfl rfl
  | run t task rest scripts ht hpopped hran =>
      have hcallable := hpopped.lifecycle.callable
      have hcount := queuedReads_popped ht (isRead_ioThread hpopped.taskOk)
      have hother : task.isRead = false → OneRead (ℓ.popped t rest) := by
        intro hread
        rw [hread] at hcount
        exact h.congr rfl rfl hcount
      cases hran with
      | move r _ _ _ hmove =>
          have hqueued : ((ℓ.popped t rest).onSession r).queuedReads =
              (ℓ.popped t rest).queuedReads := by
            rw [onSession_eq]
            unfold queuedReads
            dsimp only
            rw [hmove.ioThread]
            exact countP_append_isRead fun task' hmem =>
              isRead_of_fromSession (move_posts hmove hmem)
          -- `handle_read` uses up the one call there was before it starts another.
          have hreads : _ = ℓ.session.numReadHandlers - ℓ.session.outstandingReads - _ :=
            hmove.reads
          have hreads_le : _ ≤ ℓ.session.outstandingReads + _ := hmove.reads_le
          have hcounted := h.counted
          have hle := h.le_one
          refine ⟨?_, ?_⟩ <;> rw [hqueued, onSession_eq] <;> dsimp only <;>
            cases hread : task.isRead <;> simp only [hread] at hreads hreads_le hcount <;>
            simp at hreads hreads_le hcount <;> omega
      | unqueued hlooks => exact hother (by cases task <;> first | rfl | cases hlooks)
      | unmapped hlooks => exact hother (by cases task <;> first | rfl | cases hlooks)
      | flush scripts' =>
          have hcalls := calls_deliver hcallable (ℓ.popped t rest).session.messagesReceived scripts'
          exact (hcalls.oneRead (hother rfl)).congr rfl rfl rfl
      | deliver id messages scripts' =>
          exact (calls_deliver hcallable messages scripts').oneRead (hother rfl)
      | dispose id script =>
          exact ((calls_callback hcallable (.onClosed ℓ.conn) script).oneRead (hother rfl)).congr
            rfl rfl rfl
      | pack =>
          exact (calls_packMessageList hpopped.registered.threadId
            hpopped.lifecycle.ioThread_lt).oneRead (hother rfl)
      | post id messages s _ _ hposts =>
          refine (hother rfl).congr hposts.numReadHandlers hposts.outstandingReads ?_
          unfold queuedReads
          dsimp only
          rw [hposts.ioThread]
      | direct s _ _ hposts =>
          refine (hother rfl).congr hposts.numReadHandlers hposts.outstandingReads ?_
          unfold queuedReads
          dsimp only
          rw [hposts.ioThread]

/-! ## The flush comes before the next read -/

/-- While an open session has received messages, their flush is queued, in front of every
`handle_read`. -/
def FlushFirst (ℓ : Link Φ) : Prop :=
  ℓ.session.messagesReceived ≠ [] → ℓ.session.trace.closedBy = none →
    ∃ before after, ℓ.tasks ℓ.session.ioThread =
        before ++ TCPSession.flushTask ℓ.session.ioThread :: after ∧
      ∀ task ∈ before, task.isRead = false

/-- A `handle_read` of an open session finds no received messages: they have been flushed. -/
theorem FlushFirst.nil_of_read {ℓ : Link Φ} (h : FlushFirst ℓ) {task : Task} {rest : List Task}
    (ht : ℓ.tasks ℓ.session.ioThread = task :: rest) (hread : task.isRead = true)
    (hopen : ℓ.session.trace.closedBy = none) : ℓ.session.messagesReceived = [] := by
  by_contra hne
  obtain ⟨before, after, hqueue, hbefore⟩ := h hne hopen
  rw [ht] at hqueue
  cases before with
  | nil =>
      obtain ⟨rfl, -⟩ := List.cons.inj hqueue
      rw [TCPSession.isRead_flushTask] at hread
      cases hread
  | cons task' before =>
      obtain ⟨rfl, -⟩ := List.cons.inj hqueue
      rw [hbefore task List.mem_cons_self] at hread
      cases hread

/-- A change that keeps the received messages and only adds tasks. -/
theorem FlushFirst.grow {ℓ ℓ' : Link Φ} (h : FlushFirst ℓ)
    (hreceived : ℓ'.session.messagesReceived = ℓ.session.messagesReceived)
    (hio : ℓ'.session.ioThread = ℓ.session.ioThread)
    (hby : ℓ'.session.trace.closedBy = none → ℓ.session.trace.closedBy = none)
    (htasks : ∃ more, ℓ'.tasks ℓ.session.ioThread = ℓ.tasks ℓ.session.ioThread ++ more) :
    FlushFirst ℓ' := by
  intro hne hopen
  rw [hreceived] at hne
  obtain ⟨before, after, hqueue, hbefore⟩ := h hne (hby hopen)
  obtain ⟨more, hmore⟩ := htasks
  refine ⟨before, after ++ more, ?_, hbefore⟩
  rw [hio, hmore, hqueue, List.append_assoc, List.cons_append]

/-- Taking a task that is not the flush leaves the flush where it is. -/
theorem FlushFirst.popped {ℓ : Link Φ} (h : FlushFirst ℓ) {t : ThreadIx} {task : Task}
    {rest : List Task} (ht : ℓ.tasks t = task :: rest)
    (htask : task ≠ TCPSession.flushTask ℓ.session.ioThread) : FlushFirst (ℓ.popped t rest) := by
  intro hne hopen
  obtain ⟨before, after, hqueue, hbefore⟩ := h hne hopen
  by_cases hio : t = ℓ.session.ioThread
  · subst hio
    rw [ht] at hqueue
    cases before with
    | nil => exact absurd (List.cons.inj hqueue).1 htask
    | cons task' before =>
        obtain ⟨-, hrest⟩ := List.cons.inj hqueue
        refine ⟨before, after, ?_, fun x hx => hbefore x (List.mem_cons_of_mem _ hx)⟩
        simpa [Link.popped] using hrest
  · exact ⟨before, after, by simpa [Link.popped, Function.update_of_ne (Ne.symm hio)] using hqueue,
      hbefore⟩

theorem FlushFirst.nil {ℓ : Link Φ} (h : ℓ.session.messagesReceived = []) : FlushFirst ℓ :=
  fun hne => absurd h hne

theorem Calls.flushFirst {cbs : List Callback} {ℓ ℓ' : Link Φ} (hcalls : Calls cbs ℓ ℓ')
    (h : FlushFirst ℓ) : FlushFirst ℓ' := by
  obtain ⟨more, heq, -⟩ := hcalls.tasks ℓ.session.ioThread
  exact h.grow (by rw [hcalls.session]) (by rw [hcalls.session])
    (by rw [hcalls.session]; exact fun hn => hn) ⟨more, heq⟩

/-- A task of the session keeps the flush in front. -/
theorem FlushFirst.move {ℓ : Link Φ} (h : FlushFirst ℓ) (hone : OneRead ℓ) {task : Task}
    {rest : List Task} (ht : ℓ.tasks ℓ.session.ioThread = task :: rest)
    (hsession : task.ofSession = true) (hmarked : ℓ.session.Marked)
    {r : TCPSession Φ × List Effect}
    (hmove : TCPSession.Move ℓ.session (ℓ.popped ℓ.session.ioThread rest).found task r) :
    FlushFirst ((ℓ.popped ℓ.session.ioThread rest).onSession r) := by
  have hback : r.1.trace.closedBy = none → ℓ.session.trace.closedBy = none := by
    intro hn
    rcases hmove.closedBy with hsame | ⟨hnone, -⟩
    · exact hsame.symm.trans hn
    · exact hnone
  have hopen_of : ℓ.session.closed = false → ℓ.session.trace.closedBy = none := by
    intro hc
    have hm := hmarked
    rw [TCPSession.Marked, hc] at hm
    simpa using hm.symm
  -- the messages are as they were: another task than the flush has run
  have hquiet : r.1.messagesReceived = ℓ.session.messagesReceived →
      (task = .sessionPackMessageList → ℓ.session.messagesReceived = []) →
      FlushFirst ((ℓ.popped ℓ.session.ioThread rest).onSession r) := by
    intro hsame hpack
    by_cases hflush : task = TCPSession.flushTask ℓ.session.ioThread
    · have htask : task = .sessionPackMessageList := by
        unfold TCPSession.flushTask at hflush
        split_ifs at hflush
        · subst hflush
          cases hsession
        · exact hflush
      refine .nil ?_
      rw [onSession_eq]
      exact hsame.trans (hpack htask)
    · rw [onSession_eq]
      exact (h.popped ht hflush).grow hsame hmove.ioThread hback ⟨_, rfl⟩
  cases hmove.outcome with
  | quiet hq hpack => exact hquiet hq.messagesReceived hpack
  | timer hq hne => exact hquiet hq.messagesReceived fun htask => absurd htask hne
  | deregister entry _ hclosed =>
      intro _ hn
      rw [onSession_eq] at hn
      have hm := hmove.closed hmarked
      rw [TCPSession.Marked, hclosed, show r.1.trace.closedBy = none from hn] at hm
      cases hm
  | receive new hread hrec hnil =>
      have hempty := h.nil_of_read ht hread (hopen_of hrec.wasOpen)
      refine .nil ?_
      rw [onSession_eq]
      show r.1.messagesReceived = []
      rw [hrec.messagesReceived, show ℓ.session.messagesReceived = [] from hempty,
        hnil hempty, List.append_nil]
  | first new hread hrec hnil hnew heffects =>
      -- the read that has been taken was the only one, so the flush is in front of the next
      intro _ _
      rw [onSession_eq, heffects]
      refine ⟨rest, [], ?_, ?_⟩
      · dsimp only
        rw [hmove.ioThread]
        simp [postsTo, Link.popped]
      · have hcount := queuedReads_popped ht (fun _ => rfl)
        have hle := hone.le_one
        rw [hread, if_pos rfl] at hcount
        have hzero : (ℓ.popped ℓ.session.ioThread rest).queuedReads = 0 := by omega
        have hrest : rest.countP Task.isRead = 0 := by
          simpa [queuedReads, Link.popped] using hzero
        intro x hx
        simpa using List.countP_eq_zero.mp hrest x hx
  | deliver _ _ hnil =>
      refine .nil ?_
      rw [onSession_eq]
      exact hnil

theorem FlushFirst.step {ℓ ℓ' : Link Φ} {a : Act} (h : FlushFirst ℓ) (hone : OneRead ℓ)
    (hlife : Lifecycle ℓ) (hstep : Step F ℓ a ℓ') : FlushFirst ℓ' := by
  have hpristine : ∀ {s : TCPSession Φ}, s.Pristine → s.messagesReceived = [] := by
    rintro s ⟨filter, keepAliveTime, hs⟩
    rw [hs]
    rfl
  -- tasks of the handler and of the manager are not the flush of the session
  have hother : ∀ {t : ThreadIx} {task : Task} {rest : List Task}, ℓ.tasks t = task :: rest →
      task.isFlush = false → FlushFirst (ℓ.popped t rest) :=
    fun ht hflush => h.popped ht (TCPSession.ne_flushTask hflush _)
  cases hstep with
  | connect id script hidle hopening =>
      exact (calls_callback (.inr ⟨hopening.threadId, hlife.ioThread_lt⟩) _ script).flushFirst
        (.nil (hpristine hopening.pristine))
  | init rest r hop ht hopens =>
      refine .nil ?_
      rw [onSession_eq]
      exact hopens.messagesReceived.trans (hpristine hop.pristine)
  | complete task s _ hc =>
      obtain ⟨k, timer, rfl⟩ := hc.session
      rw [post_eq]
      exact h.grow rfl rfl (fun hn => hn) ⟨_, rfl⟩
  | logic script => exact (calls_runScript hlife.callable script).flushFirst h
  | tick => exact h
  | run t task rest scripts ht hpopped hran =>
      have hcallable := hpopped.lifecycle.callable
      cases hran with
      | move r hsession hio hst hmove =>
          obtain rfl : t = ℓ.session.ioThread := hio
          exact h.move hone ht hsession hst.marked hmove
      | unqueued hlooks => exact hother ht (by cases task <;> first | rfl | cases hlooks)
      | unmapped hlooks hmapped =>
          by_cases hdirect : task = .sessionSendMessageListDirectly
          · subst hdirect
            have hst := hpopped.started hpopped.taskOk.1
            intro _ hn
            have hm := hst.mapped_of_open hn
            rw [hmapped] at hm
            cases hm
          · refine hother ht ?_
            cases task <;> first | rfl | exact absurd rfl hdirect | cases hlooks
      | flush => exact .nil rfl
      | deliver id messages scripts' =>
          exact (calls_deliver hcallable messages scripts').flushFirst (hother ht rfl)
      | dispose id script =>
          exact ((calls_callback hcallable (.onClosed ℓ.conn) script).flushFirst
            (hother ht rfl)).grow rfl rfl (fun hn => hn) ⟨[], (List.append_nil _).symm⟩
      | pack =>
          exact (calls_packMessageList hpopped.registered.threadId
            hpopped.lifecycle.ioThread_lt).flushFirst (hother ht rfl)
      | post id messages s _ _ hposts =>
          refine (hother ht rfl).grow hposts.quiet.messagesReceived hposts.ioThread ?_
            ⟨[], (List.append_nil _).symm⟩
          dsimp only
          rw [hposts.closedBy]
          exact fun hn => hn
      | direct s _ _ hposts =>
          refine (hother ht rfl).grow hposts.quiet.messagesReceived hposts.ioThread ?_
            ⟨[], (List.append_nil _).symm⟩
          dsimp only
          rw [hposts.closedBy]
          exact fun hn => hn

end Link
end EddyServer
