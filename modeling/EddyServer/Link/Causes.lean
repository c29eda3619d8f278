import EddyServer.Link.Lifecycle

/-!
# Why a link is closed

A session closes itself when a read or a write of it fails, and the keep-alive check closes it when
it has been idle for too long. Where none of this happens, it is closed by nothing but its handler.
-/

namespace EddyServer

namespace TCPSession

variable {Φ : Type} {F : MessageFilterInterface Φ}

/-- A successful read does not close an open session. -/
theorem handleRead_closedBy {now : Nat} {s : TCPSession Φ} (found : Option Conn)
    (data : List UInt8) (hopen : s.closed = false) :
    (s.handleRead F now found .success data).1.trace.closedBy = s.trace.closedBy := by
  unfold handleRead
  dsimp only
  rw [if_neg (by simp [hopen]), readMessages_eq]
  obtain ⟨f, n, b, reads, heq⟩ := startRead_eq F _
  rw [heq]

/-- Nor does a successful write. -/
theorem hanldeWrite_closedBy {s : TCPSession Φ} (found : Option Conn) (hopen : s.closed = false) :
    (s.hanldeWrite found .success).1.trace.closedBy = s.trace.closedBy := by
  unfold hanldeWrite
  dsimp only
  rw [if_neg (by simp [hopen])]
  split_ifs <;> rfl

end TCPSession

namespace Link

variable {Φ : Type} {F : MessageFilterInterface Φ}

/-- Nothing happens that would close the session: what completes succeeds, and a check finds it
active. -/
def Favours (ℓ : Link Φ) : Act → Prop
  | .readDone _ error _ | .writeDone error => error = .success
  | .keepAlive => ℓ.session.checkKeepAlive ℓ.clock = true
  | _ => True

/-- The task closes the session only if the handler has asked for it. -/
def TaskAsked (ℓ : Link Φ) : Task → Prop
  | .handleRead error _ | .hanldeWrite error => error = .success
  | .close => False
  | .closeSession _ => .close ∈ ℓ.handler.calls
  | _ => True

/-- If the session is closed or about to be, its handler has asked for it. -/
structure Asked (ℓ : Link Φ) : Prop where
  tasks : ∀ t, ∀ task ∈ ℓ.tasks t, TaskAsked ℓ task
  closedBy : ℓ.session.trace.closedBy ≠ none →
    ℓ.session.trace.closedBy = some .closeSession ∧ .close ∈ ℓ.handler.calls

theorem Asked.start (conn : Conn) (threads : Nat) (ioThread : ThreadIx) (filter : Φ)
    (keepAliveTime : Nat) : Asked (start conn threads ioThread filter keepAliveTime) :=
  ⟨fun _ _ h => absurd h List.not_mem_nil, fun h => absurd rfl h⟩

/-! ## Calls -/

theorem TaskAsked.mono {ℓ ℓ' : Link Φ} {task : Task} (h : TaskAsked ℓ task)
    (hcalls : .close ∈ ℓ.handler.calls → .close ∈ ℓ'.handler.calls) : TaskAsked ℓ' task := by
  cases task <;> first | exact hcalls h | exact h

/-- New tasks that close nothing unasked. -/
theorem Asked.grow {ℓ ℓ' : Link Φ} (h : Asked ℓ)
    (hcalls : .close ∈ ℓ.handler.calls → .close ∈ ℓ'.handler.calls)
    (hby : ℓ'.session.trace.closedBy = ℓ.session.trace.closedBy)
    (htasks : ∀ t, ∀ task ∈ ℓ'.tasks t, task ∈ ℓ.tasks t ∨ TaskAsked ℓ' task) : Asked ℓ' := by
  refine ⟨fun t task hmem => ?_, fun hne => ?_⟩
  · rcases htasks t task hmem with hold | hnew
    · exact (h.tasks t task hold).mono hcalls
    · exact hnew
  · rw [hby] at hne ⊢
    exact (h.closedBy hne).imp_right hcalls

theorem taskAsked_flushTask (ℓ : Link Φ) (t : ThreadIx) :
    TaskAsked ℓ (TCPSessionHandler.flushTask t) := by
  unfold TCPSessionHandler.flushTask
  split_ifs <;> trivial

/-- A call posts a close request only if it is `close`. -/
theorem Asked.call {ℓ : Link Φ} (h : Asked ℓ) (hc : Callable ℓ) (c : Call) :
    Asked (ℓ.call c) := by
  cases hopen : ℓ.handler.isClosed with
  | true =>
      rw [call_closed hopen]
      exact h
  | false =>
      obtain hclosed | ⟨hthread, hio⟩ := hc
      · exact absurd (hopen.symm.trans hclosed) (by decide)
      cases c with
      | send m =>
          cases hm : m.empty with
          | true =>
              rw [call_send_empty hopen hm]
              exact h.grow (List.mem_append_left _) rfl fun t task hmem => .inl hmem
          | false =>
              rw [call_send hopen hthread hm]
              refine h.grow (List.mem_append_left _) rfl fun t task hmem => ?_
              rcases List.mem_append.mp hmem with hold | hnew
              · exact .inl hold
              · split_ifs at hnew
                · rw [List.mem_singleton.mp hnew]
                  exact .inr (taskAsked_flushTask _ _)
                · cases hnew
      | close =>
          rw [call_close hopen hthread hio]
          refine h.grow (List.mem_append_left _) rfl fun t task hmem => ?_
          rcases List.mem_append.mp hmem with hold | hnew
          · exact .inl hold
          · refine .inr ?_
            split_ifs at hnew
            · rw [List.mem_singleton.mp hnew]
              exact List.mem_append_right _ List.mem_cons_self
            · rcases List.mem_append.mp hnew with hbatch | hclose
              · rw [List.mem_singleton.mp hbatch]
                trivial
              · rw [List.mem_singleton.mp hclose]
                exact List.mem_append_right _ List.mem_cons_self
            · cases hnew

theorem keptByCalls_asked : KeptByCalls fun ℓ : Link Φ => Asked ℓ where
  call _ c hc h := h.call hc c
  record _ _ h := h.grow (fun hc => hc) rfl fun _ _ hmem => .inl hmem

/-! ## Steps -/

theorem Asked.popped {ℓ : Link Φ} (h : Asked ℓ) {t : ThreadIx} {task : Task} {rest : List Task}
    (ht : ℓ.tasks t = task :: rest) : Asked (ℓ.popped t rest) := by
  refine ⟨fun u task' hmem => h.tasks u task' ?_, h.closedBy⟩
  by_cases hu : u = t
  · subst hu
    rw [ht]
    exact List.mem_cons_of_mem _ (by simpa [Link.popped] using hmem)
  · simpa [Link.popped, Function.update_of_ne hu] using hmem

theorem taskAsked_of_fromSession (ℓ : Link Φ) {task : Task} (h : task.fromSession = true) :
    TaskAsked ℓ task := by
  cases task <;> trivial

/-- A completion is queued that closes nothing. -/
theorem Asked.post {ℓ : Link Φ} (h : Asked ℓ) (k : Socket) (timer : Timer) (t : ThreadIx)
    {task : Task} (htask : TaskAsked ℓ task) :
    Asked (({ ℓ with
      session := { ℓ.session with socket := k, closeTimer := timer } } : Link Φ).post t task) := by
  rw [post_eq]
  refine h.grow (fun hc => hc) rfl fun u task' hmem => ?_
  rcases List.mem_append.mp hmem with hold | hnew
  · exact .inl hold
  · split_ifs at hnew
    · rw [List.mem_singleton.mp hnew]
      exact .inr (htask.mono fun hc => hc)
    · cases hnew

/-- A function of the session has run. -/
theorem Asked.onSession {ℓ : Link Φ} (h : Asked ℓ) {task : Task}
    {r : TCPSession Φ × List Effect} (hmove : TCPSession.Move ℓ.session ℓ.found task r)
    (hby : r.1.trace.closedBy = ℓ.session.trace.closedBy ∨
      r.1.trace.closedBy = some .closeSession ∧ .close ∈ ℓ.handler.calls) :
    Asked (ℓ.onSession r) := by
  rw [onSession_eq]
  refine ⟨fun t task' hmem => ?_, fun hne => ?_⟩
  · rcases List.mem_append.mp hmem with hold | hnew
    · exact (h.tasks t task' hold).mono fun hc => hc
    · exact taskAsked_of_fromSession _ (move_posts hmove hnew)
  · rcases hby with hsame | hasked
    · dsimp only at hne ⊢
      rw [hsame] at hne ⊢
      exact h.closedBy hne
    · exact hasked

/-- A task of the session closes it only if the handler has asked for it. -/
theorem Asked.move {ℓ : Link Φ} (h : Asked ℓ) (hst : Started ℓ) {t : ThreadIx} {task : Task}
    {scripts : List (List Call)} (htask : TaskAsked ℓ task) {r : TCPSession Φ × List Effect}
    (hsession : task.ofSession = true) (hmove : TCPSession.Move ℓ.session ℓ.found task r)
    (hex : exec F ℓ t scripts task = some (ℓ.onSession r)) : Asked (ℓ.onSession r) := by
  have hran : ∀ r', exec F ℓ t scripts task = some (ℓ.onSession r') → r'.1 = r.1 := by
    intro r' hex'
    have hsame := congrArg Link.session (Option.some.inj (hex'.symm.trans hex))
    rw [onSession_eq, onSession_eq] at hsame
    exact hsame
  refine h.onSession hmove ?_
  rcases hmove.closedBy with hsame | ⟨hnone, hcause⟩
  · exact .inl hsame
  have hopen : ℓ.session.closed = false := by
    rw [hst.marked, hnone]
    rfl
  cases task with
  | handleRead error data =>
      obtain rfl : error = .success := htask
      rw [← hran _ rfl]
      exact .inl (TCPSession.handleRead_closedBy _ data hopen)
  | hanldeWrite error =>
      obtain rfl : error = .success := htask
      rw [← hran _ rfl]
      exact .inl (TCPSession.hanldeWrite_closedBy _ hopen)
  | close => exact htask.elim
  | closeSession id => exact .inr ⟨hcause, htask⟩
  | handleSafeClose | closeTimer | sessionPackMessageList => exact .inl (hcause.trans hnone.symm)
  | _ => cases hsession

theorem Asked.run {ℓ ℓ' : Link Φ} (h : Asked ℓ) (hlife : Lifecycle ℓ) {t : ThreadIx} {task : Task}
    {rest : List Task} {scripts : List (List Call)} (ht : ℓ.tasks t = task :: rest)
    (hex : exec F (ℓ.popped t rest) t scripts task = some ℓ') : Asked ℓ' := by
  have hpop := h.popped ht
  have htask : TaskAsked (ℓ.popped t rest) task :=
    (h.tasks t task (by rw [ht]; exact List.mem_cons_self)).mono fun hc => hc
  by_cases hinit : ∃ id, task = .init id
  · obtain ⟨id, rfl⟩ := hinit
    cases hex
    have hopens := TCPSession.init_opens F (ℓ.popped t rest).clock (ℓ.popped t rest).session id
    rw [onSession_eq, hopens.effects]
    refine hpop.grow (fun hc => hc) (congrArg SessionTrace.closedBy hopens.trace) fun u task hmem => ?_
    exact .inl (by simpa [postsTo] using hmem)
  have hpopped := hlife.popped ht fun id hid => hinit ⟨id, hid⟩
  have hcallable := hpopped.lifecycle.callable
  cases hpopped.ran hex with
  | move r hsession _ hst hmove => exact hpop.move hst htask hsession hmove hex
  | unqueued => exact hpop
  | unmapped => exact hpop
  | flush scripts' =>
      have hdelivered := keptByCalls_asked.deliver hcallable hpop
        (ℓ.popped t rest).session.messagesReceived scripts'
      exact hdelivered.grow (fun hc => hc) rfl fun _ _ hmem => .inl hmem
  | deliver id messages scripts' => exact keptByCalls_asked.deliver hcallable hpop messages scripts'
  | dispose id script =>
      have hcalled := keptByCalls_asked.callback hcallable hpop
        (.onClosed (ℓ.popped t rest).conn) script
      exact hcalled.grow (fun hc => hc) rfl fun _ _ hmem => .inl hmem
  | pack =>
      rw [onHandler_packMessageList hpopped.registered.threadId hpopped.lifecycle.ioThread_lt]
      refine hpop.grow (fun hc => hc) rfl fun u task hmem => ?_
      rcases List.mem_append.mp hmem with hold | hnew
      · exact .inl hold
      · split_ifs at hnew
        · rw [List.mem_singleton.mp hnew]
          exact .inr trivial
        · cases hnew
  | post id messages s _ _ hposts =>
      exact hpop.grow (fun hc => hc) hposts.closedBy fun _ _ hmem => .inl hmem
  | direct s _ _ hposts =>
      exact hpop.grow (fun hc => hc) hposts.closedBy fun _ _ hmem => .inl hmem

theorem Asked.step {ℓ ℓ' : Link Φ} {a : Act} (h : Asked ℓ) (hlife : Lifecycle ℓ)
    (hok : Favours ℓ a) (hstep : Link.step F ℓ a = some ℓ') : Asked ℓ' := by
  unfold Link.step at hstep
  cases a with
  | connect id script =>
      dsimp only at hstep
      split_ifs at hstep with hc
      cases hstep
      obtain ⟨hreg, hid⟩ := not_or.mp hc
      have hopening := (hlife.idle (by simpa using hreg)).opened hid
      rw [connect_eq]
      refine keptByCalls_asked.callback (.inr ⟨hopening.threadId, hlife.ioThread_lt⟩) ?_ _ script
      exact Asked.post (ℓ := { ℓ with
        registered := true
        id := id
        mapped := true
        handler := ℓ.handler.init id (threadId ℓ.session.ioThread) })
        (h.grow (fun hc => hc) rfl fun _ _ hmem => .inl hmem) ℓ.session.socket ℓ.session.closeTimer _
        trivial
  | run t scripts =>
      dsimp only at hstep
      cases ht : ℓ.tasks t with
      | nil => rw [ht] at hstep; cases hstep
      | cons task rest => rw [ht] at hstep; exact h.run hlife ht hstep
  | readDone i error data =>
      obtain rfl : error = .success := hok
      dsimp only at hstep
      cases hop : ℓ.session.socket.reads[i]? with
      | none => rw [hop] at hstep; cases hstep
      | some op =>
          rw [hop] at hstep
          dsimp only at hstep
          split_ifs at hstep
          cases hstep
          have htask : TaskAsked ℓ (op.completion .success data) := by
            unfold ReadOp.completion
            split <;> trivial
          exact h.post _ _ _ htask
  | writeDone error =>
      obtain rfl : error = .success := hok
      dsimp only at hstep
      split at hstep <;> cases hstep
      have htask : TaskAsked ℓ (.hanldeWrite .success) := rfl
      exact h.post _ _ _ htask
  | timerDone =>
      dsimp only at hstep
      split_ifs at hstep
      cases hstep
      have htask : TaskAsked ℓ (.closeTimer .success) := trivial
      exact h.post _ _ _ htask
  | keepAlive =>
      cases hstep
      rw [if_neg (by rw [show ℓ.session.checkKeepAlive ℓ.clock = true from hok]; simp)]
      exact h
  | logic script =>
      cases hstep
      exact keptByCalls_asked.runScript hlife.callable h script
  | tick n =>
      cases hstep
      exact h.grow (fun hc => hc) rfl fun _ _ hmem => .inl hmem

/-- What closes a link that is favoured. -/
theorem Asked.of_run {conn : Conn} {threads : Nat} {ioThread : ThreadIx} {filter : Φ}
    {keepAliveTime : Nat} {ℓ : Link Φ} (hio : ioThread < threads)
    (hrun : Transition.Run (Link.step F) Favours
      (.start conn threads ioThread filter keepAliveTime) ℓ) : Lifecycle ℓ ∧ Asked ℓ :=
  hrun.invariant (I := fun ℓ => Lifecycle ℓ ∧ Asked ℓ)
    (fun h hok hstep => ⟨h.1.step hstep, h.2.step h.1 hok hstep⟩)
    ⟨.start hio conn filter keepAliveTime, .start conn threads ioThread filter keepAliveTime⟩

end Link
end EddyServer
