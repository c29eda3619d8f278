import EddyServer.Link.Alone
import EddyServer.Link.Inbound
import EddyServer.Solo.Teardown

/-!
# How a session leaves

A session that leaves its queue posts `on_session_closed` to the main thread, once. The handler is
in the map until that has run, and is told of the close when it runs. So nothing is left of a
closed connection when nothing is on its way any more: it is in no queue and in no map, its handler
has seen `on_closed`, its socket is closed.
-/

namespace EddyServer
namespace Link

variable {Φ : Type} {F : MessageFilterInterface Φ}

/-! ## The notice -/

/-- The `on_session_closed` that wait in the main queue. -/
def notices (ℓ : Link Φ) : Nat := (ℓ.tasks mainThread).countP Solo.isNotice

/-- The session has been closed and has left its queue. -/
def hasLeft (ℓ : Link Φ) : Bool := ℓ.session.trace.closedBy.isSome && !ℓ.queued

/-- The handler has been disposed of, and is no longer in the map. -/
def isDisposed (ℓ : Link Φ) : Bool := ℓ.registered && !ℓ.mapped

/-- The notice of a session that has left waits, or has been dealt with. -/
def Notified (ℓ : Link Φ) : Prop :=
  ℓ.notices + (if ℓ.isDisposed then 1 else 0) = if ℓ.hasLeft then 1 else 0

theorem Notified.congr {ℓ ℓ' : Link Φ} (h : Notified ℓ) (hnotices : ℓ'.notices = ℓ.notices)
    (hdisposed : ℓ'.isDisposed = ℓ.isDisposed) (hleft : ℓ'.hasLeft = ℓ.hasLeft) : Notified ℓ' := by
  unfold Notified
  rw [hnotices, hdisposed, hleft]
  exact h

theorem countP_append_isNotice {ts more : List Task}
    (h : ∀ task ∈ more, Solo.isNotice task = false) :
    (ts ++ more).countP Solo.isNotice = ts.countP Solo.isNotice := by
  have hzero : more.countP Solo.isNotice = 0 :=
    List.countP_eq_zero.mpr fun task hmem => by simp [h task hmem]
  rw [List.countP_append, hzero, Nat.add_zero]

theorem isNotice_of_fromHandler {task : Task} (h : task.fromHandler = true) :
    Solo.isNotice task = false := by
  cases task <;> first | rfl | cases h

theorem isNotice_of_isCompletion {task : Task} (h : task.isCompletion = true) :
    Solo.isNotice task = false := by
  cases task <;> first | rfl | cases h

/-- Application code posts no notice and changes neither end. -/
theorem Calls.notified {cbs : List Callback} {ℓ ℓ' : Link Φ} (hcalls : Calls cbs ℓ ℓ')
    (h : Notified ℓ) : Notified ℓ' := by
  refine h.congr ?_ ?_ ?_
  · obtain ⟨more, heq, hmore⟩ := hcalls.tasks mainThread
    unfold notices
    rw [heq]
    exact countP_append_isNotice fun task hmem =>
      isNotice_of_fromHandler (hmore task hmem).fromHandler
  · unfold isDisposed
    rw [hcalls.registered, hcalls.mapped]
  · unfold hasLeft
    rw [hcalls.session, hcalls.queued]

/-- Taking a task takes the notice that it is. -/
theorem notices_popped {ℓ : Link Φ} {t : ThreadIx} {task : Task} {rest : List Task}
    (ht : ℓ.tasks t = task :: rest) (hmain : Solo.isNotice task = true → t = mainThread) :
    (ℓ.popped t rest).notices + (if Solo.isNotice task then 1 else 0) = ℓ.notices := by
  by_cases hthread : t = mainThread
  · subst hthread
    simp [notices, popped, ht, List.countP_cons]
  · have hnotice : Solo.isNotice task = false := by
      simpa using fun hn => hthread (hmain hn)
    simp [notices, popped, Function.update_of_ne (Ne.symm hthread), hnotice]

theorem isNotice_main {ℓ : Link Φ} {t : ThreadIx} {task : Task} (h : TaskOk ℓ t task)
    (hnotice : Solo.isNotice task = true) : t = mainThread := by
  cases task <;> first | exact h.1 | cases hnotice

/-- Only a session that leaves its queue posts a notice. -/
theorem Notified.move {ℓ : Link Φ} (h : Notified ℓ) (hst : Started ℓ) {task : Task}
    {r : TCPSession Φ × List Effect} (hmove : TCPSession.Move ℓ.session ℓ.found task r) :
    Notified (ℓ.onSession r) := by
  have hmarked := hmove.closed hst.marked
  -- a session that is closed and stays in its queue has not left
  have hstays : queuedAfter ℓ.queued r.2 = ℓ.queued →
      (r.1.trace.closedBy.isSome && !queuedAfter ℓ.queued r.2) = ℓ.hasLeft := by
    intro hq
    rw [hq]
    rcases hmove.closedBy with hsame | ⟨hnone, -⟩
    · rw [hsame, hasLeft]
    · rw [hasLeft, hnone, hst.queued_of_open hnone]
      simp
  have hquiet : queuedAfter ℓ.queued r.2 = ℓ.queued →
      (∀ task ∈ postsTo mainThread r.2, Solo.isNotice task = false) →
      Notified (ℓ.onSession r) := by
    intro hq hposts
    rw [onSession_eq]
    refine h.congr ?_ rfl (hstays hq)
    exact countP_append_isNotice hposts
  cases hmove.outcome with
  | quiet _ _ heffects => exact hquiet (by rw [heffects]; rfl) (by simp [heffects, postsTo])
  | timer _ _ heffects =>
      refine hquiet (by rw [heffects]; rfl) fun task' hmem => ?_
      rw [heffects, mem_postsTo_singleton] at hmem
      rw [hmem.2]
      rfl
  | receive _ _ _ _ heffects => exact hquiet (by rw [heffects]; rfl) (by simp [heffects, postsTo])
  | first _ _ _ _ _ heffects =>
      refine hquiet (by rw [heffects]; rfl) fun task' hmem => ?_
      rw [heffects, mem_postsTo_singleton] at hmem
      rw [hmem.2, TCPSession.flushTask]
      split_ifs <;> rfl
  | deliver _ _ _ _ _ heffects =>
      refine hquiet (by rw [heffects]; rfl) fun task' hmem => ?_
      rw [heffects, mem_postsTo_singleton] at hmem
      rw [hmem.2]
      rfl
  | deregister entry hfound hclosed _ _ _ heffects =>
      have hq : ℓ.queued = true := by
        unfold Link.found at hfound
        split_ifs at hfound with hq
        exact hq
      have hby : r.1.trace.closedBy.isSome = true := by
        rw [← hmarked]
        exact hclosed
      have hbefore : ℓ.hasLeft = false := by
        rw [hasLeft, hq]
        simp
      rw [Notified, hbefore] at h
      rw [onSession_eq]
      have hone : ((ℓ.tasks mainThread ++ postsTo mainThread r.2).countP Solo.isNotice) =
          ℓ.notices + 1 := by
        obtain ⟨aborted, haborted, hposts⟩ := postsTo_leaving ℓ.session mainThread
        have hzero : aborted.countP Solo.isNotice = 0 := by
          refine List.countP_eq_zero.mpr fun x hx htrue => ?_
          rw [(haborted x hx).2] at htrue
          cases htrue
        rw [heffects, hposts, List.countP_append, List.countP_append, hzero]
        rfl
      have hafter : (r.1.trace.closedBy.isSome && !queuedAfter ℓ.queued r.2) = true := by
        rw [hby, heffects, queuedAfter_leaving]
        rfl
      show (ℓ.tasks mainThread ++ postsTo mainThread r.2).countP Solo.isNotice +
        (if ℓ.isDisposed then 1 else 0) =
          if (r.1.trace.closedBy.isSome && !queuedAfter ℓ.queued r.2) then 1 else 0
      rw [hone, hafter]
      simp only [Bool.false_eq_true, if_false, if_true] at h ⊢
      omega

/-- The handler is disposed of when the notice has been taken. -/
theorem Notified.dispose {ℓ ℓ' : Link Φ} (hreg : ℓ.registered = true) (hnotices : ℓ.notices = 0)
    (hqueued : ℓ.queued = false) (hby : ℓ.session.trace.closedBy ≠ none) {cb : Callback}
    (hcalls : Calls [cb] ℓ ℓ') :
    Notified { ℓ' with handler := ℓ'.handler.dispose, mapped := false } := by
  obtain ⟨more, heq, hmore⟩ := hcalls.tasks mainThread
  have hkept : ℓ'.notices = ℓ.notices := by
    unfold notices
    rw [heq]
    exact countP_append_isNotice fun task hmem =>
      isNotice_of_fromHandler (hmore task hmem).fromHandler
  show ℓ'.notices + (if (ℓ'.registered && !false) then 1 else 0) =
    if (ℓ'.session.trace.closedBy.isSome && !ℓ'.queued) then 1 else 0
  rw [hkept, hnotices, hcalls.registered, hreg, hcalls.session, hcalls.queued, hqueued,
    Option.isSome_iff_ne_none.mpr hby]
  rfl

/-- **The notice of a session that has left waits, or has been dealt with.** -/
theorem Notified.step {ℓ ℓ' : Link Φ} {a : Act} (h : Notified ℓ) (hlife : Lifecycle ℓ)
    (hstep : Step F ℓ a ℓ') : Notified ℓ' := by
  cases hstep with
  | connect id script hidle hopening =>
      refine (calls_callback (.inr ⟨hopening.threadId, hlife.ioThread_lt⟩) _ script).notified ?_
      refine h.congr ?_ ?_ ?_
      · rw [Link.opened, post_eq]
        exact countP_append_isNotice fun task hmem => by
          split_ifs at hmem
          · cases List.mem_singleton.mp hmem
            rfl
          · cases hmem
      · rw [Link.opened, post_eq, isDisposed, isDisposed, hidle.registered]
        rfl
      · rw [Link.opened, post_eq]
        rfl
  | init rest r hop ht hopens =>
      have hnotices := notices_popped ht (fun hnotice => by cases hnotice)
      simp only [Solo.isNotice, Bool.false_eq_true, if_false, Nat.add_zero] at hnotices
      rw [onSession_eq]
      refine h.congr ?_ rfl ?_
      · rw [← hnotices, hopens.effects]
        exact countP_append_isNotice fun _ hmem => by cases hmem
      · rw [hasLeft, hasLeft]
        dsimp only
        rw [hopens.trace, hop.closedBy]
        rfl
  | run t task rest scripts ht hpopped hran =>
      have hcallable := hpopped.lifecycle.callable
      have hnotices := notices_popped ht (isNotice_main hpopped.taskOk)
      have hplain : Solo.isNotice task = false → Notified (ℓ.popped t rest) := by
        intro htask
        rw [htask, if_neg (by decide), Nat.add_zero] at hnotices
        exact h.congr hnotices rfl rfl
      cases hran with
      | move r hsession _ hst hmove =>
          refine (hplain ?_).move hst hmove
          cases task <;> first | rfl | cases hsession
      | unqueued hlooks =>
          refine hplain ?_
          cases task <;> first | rfl | cases hlooks
      | unmapped hlooks hmapped =>
          refine hplain ?_
          -- a notice is dealt with once
          by_contra hnotice
          rw [if_pos (by simpa using hnotice)] at hnotices
          have hdisposed : ℓ.isDisposed = true := by
            rw [isDisposed, show ℓ.registered = true from hpopped.registered.registered,
              show ℓ.mapped = false from hmapped]
            rfl
          rw [Notified, hdisposed, if_pos rfl] at h
          split_ifs at h
          omega
      | flush scripts' =>
          have hdeliver := (calls_deliver hcallable (ℓ.popped t rest).session.messagesReceived
            scripts').notified (hplain rfl)
          exact hdeliver
      | deliver id messages scripts' =>
          exact (calls_deliver hcallable messages scripts').notified (hplain rfl)
      | dispose id script hmain hst hmapped hqueued hby =>
          have hdisposed : ℓ.isDisposed = false := by
            rw [isDisposed, show ℓ.mapped = true from hmapped]
            simp
          have hleft : ℓ.hasLeft = true := by
            rw [hasLeft, show ℓ.queued = false from hqueued,
              Option.isSome_iff_ne_none.mpr (show ℓ.session.trace.closedBy ≠ none from hby)]
            rfl
          rw [Notified, hdisposed, hleft] at h
          simp only [Solo.isNotice, Bool.false_eq_true, if_false, if_true] at h hnotices
          exact Notified.dispose hpopped.registered.registered (by omega) hqueued hby
            (calls_callback hcallable (.onClosed ℓ.conn) script)
      | pack =>
          exact (calls_packMessageList hpopped.registered.threadId
            hpopped.lifecycle.ioThread_lt).notified (hplain rfl)
      | post id messages s _ _ hposts =>
          refine (hplain rfl).congr rfl rfl ?_
          rw [hasLeft, hasLeft]
          dsimp only
          rw [hposts.closedBy]
      | direct s _ _ hposts =>
          refine (hplain rfl).congr rfl rfl ?_
          rw [hasLeft, hasLeft]
          dsimp only
          rw [hposts.closedBy]
  | complete task s hst hc =>
      obtain ⟨k, timer, rfl⟩ := hc.session
      rw [post_eq]
      refine h.congr ?_ rfl rfl
      refine countP_append_isNotice fun task' hmem => ?_
      split_ifs at hmem
      · cases List.mem_singleton.mp hmem
        exact isNotice_of_isCompletion hc.isCompletion
      · cases hmem
  | logic script => exact (calls_runScript hlife.callable script).notified h
  | tick clock => exact h

/-! ## What is outstanding -/

/-- The reads of `handle_read` that are outstanding, or have completed and wait for `handle_read`. -/
def readsOf (ℓ : Link Φ) : Nat := ℓ.session.outstandingReads + ℓ.queuedReads

/-- The writes that are outstanding, or have completed and wait for `hanlde_write`. -/
def writesOf (ℓ : Link Φ) : Nat :=
  ℓ.session.outstandingWrites + (ℓ.tasks ℓ.session.ioThread).countP Task.isWrite

/-- The waits of the timer that are outstanding, or have expired and have their callback queued. -/
def waitsOf (ℓ : Link Φ) : Nat :=
  ℓ.session.outstandingWaits + (ℓ.tasks ℓ.session.ioThread).countP Task.isExpiry

theorem Alone.count {ℓ : Link Φ} {σ : Solo Φ} (h : Alone ℓ σ) {p : Task → Bool}
    (hp : Solo.Counts p) : σ.completions.countP p = (ℓ.tasks ℓ.session.ioThread).countP p := by
  rw [h.completions, List.countP_filter]
  refine List.countP_congr fun task _ => ?_
  cases hhandler : Solo.isHandler task with
  | true => simp
  | false => simp [hp task hhandler]

theorem Alone.readsOf {ℓ : Link Φ} {σ : Solo Φ} (h : Alone ℓ σ) : σ.readsOf = ℓ.readsOf := by
  rw [Solo.readsOf, h.count Solo.counts_isRead, h.session]
  rfl

theorem Alone.writesOf {ℓ : Link Φ} {σ : Solo Φ} (h : Alone ℓ σ) : σ.writesOf = ℓ.writesOf := by
  rw [Solo.writesOf, h.count Solo.counts_isWrite, h.session]
  rfl

theorem Alone.waitsOf {ℓ : Link Φ} {σ : Solo Φ} (h : Alone ℓ σ) : σ.waitsOf = ℓ.waitsOf := by
  rw [Solo.waitsOf, h.count Solo.counts_isExpiry, h.session]
  rfl

/-- What is known of the session of a link from `init` on. -/
structure Known (ℓ : Link Φ) (σ : Solo Φ) : Prop where
  started : Started ℓ
  alone : Alone ℓ σ
  living : Solo.Living σ
  undrained : Solo.Undrained σ
  guarded : Solo.Guarded σ

theorem Accompanied.known {conn : Conn} {ioThread : ThreadIx} {filter : Φ} {keepAliveTime : Nat}
    {ℓ : Link Φ} (hF : F.Appends) (h : Accompanied F (Transition.Anything _ _) conn ioThread filter
      keepAliveTime ℓ) (hid : ℓ.session.sessionId ≠ 0) : ∃ σ, Known ℓ σ := by
  have hst := h.alive.lifecycle.started_of_sessionId hid
  cases h.apart with
  | fresh hfresh => exact absurd hst hfresh.not_started
  | alone clock σ _ halone hrun =>
      obtain ⟨hliving, hundrained, hguarded⟩ := hrun.invariant
        (I := fun σ => Solo.Living σ ∧ Solo.Undrained σ ∧ Solo.Guarded σ)
        (fun hi _ hstep =>
          have hev := Solo.event_of_step hstep
          ⟨hi.1.step (Solo.appending_of_appends hF _ _) hstep, hi.2.1.step hev,
            hi.2.2.step hi.2.1 hev⟩)
        ⟨.start conn clock ioThread filter keepAliveTime ℓ.id,
          .start conn clock ioThread filter keepAliveTime ℓ.id,
          .start conn clock ioThread filter keepAliveTime ℓ.id⟩
      exact ⟨σ, hst, halone, hliving, hundrained, hguarded⟩

/-- A started link can be followed by its session. -/
theorem Known.run {ℓ ℓ' : Link Φ} {σ : Solo Φ} (h : Known ℓ σ) (hF : F.Appends)
    (hlife : Lifecycle ℓ) (hrun : Transition.Reach (Link.step F) ℓ ℓ') :
    ∃ σ', Transition.Reach (Solo.step F) σ σ' ∧ Lifecycle ℓ' ∧ Known ℓ' σ' := by
  refine hrun.simulate (R := fun ℓ σ => Lifecycle ℓ ∧ Known ℓ σ) ⟨hlife, h⟩
    fun {ℓ a ℓ₁ σ} hR _ hstep => ?_
  obtain ⟨hl, hk⟩ := hR
  have hl' := hl.step hstep
  have hst' := hk.started.step hl hstep
  rcases hk.alone.step hl hk.started hstep with hsame | ⟨b, σ', -, hsolo, halone⟩
  · exact ⟨σ, .refl σ, hl', hst', hsame, hk.living, hk.undrained, hk.guarded⟩
  · have hev := Solo.event_of_step hsolo
    exact ⟨σ', .tail (.refl σ) trivial hsolo, hl', hst', halone,
      hk.living.step (Solo.appending_of_appends hF _ _) hsolo, hk.undrained.step hev,
      hk.guarded.step hk.undrained hev⟩

/-! ## The life of a session in its link -/

theorem Known.reads {ℓ : Link Φ} {σ : Solo Φ} (h : Known ℓ σ) :
    ℓ.session.numReadHandlers = ℓ.readsOf ∧ ℓ.readsOf ≤ 1 := by
  have hreads := h.living.lives.reads
  have hle := h.living.lives.reads_le
  rw [h.alone.session] at hreads hle
  rw [h.alone.readsOf] at hreads
  exact ⟨hreads, by omega⟩

theorem Known.writes {ℓ : Link Φ} {σ : Solo Φ} (h : Known ℓ σ) :
    ℓ.session.numWriteHandlers = ℓ.writesOf ∧ ℓ.writesOf ≤ 1 := by
  have hwrites := h.living.lives.writes
  have hle := h.living.oneWrite.le_one
  rw [h.alone.session] at hwrites
  rw [h.alone.writesOf] at hwrites hle
  exact ⟨hwrites, hle⟩

theorem Known.left {ℓ : Link Φ} {σ : Solo Φ} (h : Known ℓ σ) :
    ℓ.queued = false ↔ ℓ.session.closed = true ∧ ℓ.writesOf = 0 := by
  have hleft := h.living.lives.left
  have hwrites := h.writes.1
  rw [h.alone.queued, h.alone.session] at hleft
  rw [hleft]
  exact and_congr_right fun _ => by omega

/-- A session that has left hands nothing more to `async_write`, and does not come back. -/
theorem Known.stays {ℓ ℓ' : Link Φ} {σ : Solo Φ} (h : Known ℓ σ) (hF : F.Appends)
    (hlife : Lifecycle ℓ) (hrun : Transition.Reach (Link.step F) ℓ ℓ') :
    (ℓ.session.closed = true → ℓ'.session.closed = true) ∧
      (ℓ.queued = false → ℓ'.queued = false ∧ ℓ'.writesOf = 0 ∧
        ℓ'.session.socket.handed = ℓ.session.socket.handed) := by
  obtain ⟨σ', hsolo, -, h'⟩ := h.run hF hlife hrun
  have hlater : Solo.Later σ σ' :=
    hsolo.invariant (fun hi _ hstep => hi.trans (Solo.later_of_event (Solo.event_of_step hstep)))
      (.refl σ)
  have hclosed := hlater.closed
  have hqueued := hlater.queued
  have hhanded := hlater.handed
  rw [h.alone.session, h'.alone.session] at hclosed hhanded
  rw [h.alone.queued, h'.alone.queued] at hqueued
  exact ⟨hclosed, fun hq =>
    ⟨hqueued hq, (h'.left.mp (hqueued hq)).2, hhanded (h.left.mp hq).1⟩⟩

/-- The handler has been told of the close when it has left the map. -/
theorem Protocol.closings {ℓ : Link Φ} (h : Protocol ℓ) :
    ℓ.handler.callbacks.count (.onClosed ℓ.conn) = if ℓ.isDisposed then 1 else 0 := by
  have hmessages : ∀ messages : List NetMessage,
      (messages.map (Callback.onMessage ℓ.conn)).count (.onClosed ℓ.conn) = 0 := by
    intro messages
    rw [List.count_eq_zero]
    simp
  unfold Protocol at h
  rw [h, isDisposed]
  cases ℓ.registered with
  | false => rfl
  | true =>
      cases ℓ.mapped with
      | true => simp [hmessages]
      | false => simp [hmessages]

/-- What holds in every run of a link. -/
structure Leaves (F : MessageFilterInterface Φ) (conn : Conn) (ioThread : ThreadIx) (filter : Φ)
    (keepAliveTime : Nat) (ℓ : Link Φ) : Prop where
  accompanied : Accompanied F (Transition.Anything _ _) conn ioThread filter keepAliveTime ℓ
  inbound : InboundOk ℓ
  notified : Notified ℓ

theorem Leaves.of_run {conn : Conn} {threads : Nat} {ioThread : ThreadIx} {filter : Φ}
    {keepAliveTime : Nat} {ℓ : Link Φ} (hio : ioThread < threads)
    (hrun : Transition.Reach (Link.step F)
      (.start conn threads ioThread filter keepAliveTime) ℓ) :
    Leaves F conn ioThread filter keepAliveTime ℓ :=
  hrun.invariant
    (fun h _ hstep =>
      ⟨h.accompanied.step (fun _ _ => trivial) hstep, h.inbound.step hstep,
        h.notified.step h.inbound.lifecycle (h.inbound.lifecycle.cases hstep)⟩)
    ⟨.start F _ hio, .start hio conn filter keepAliveTime, rfl⟩

/-- The notice of a session that has left waits, or its handler has been told. -/
theorem Leaves.notices {conn : Conn} {ioThread : ThreadIx} {filter : Φ} {keepAliveTime : Nat}
    {ℓ : Link Φ} (h : Leaves F conn ioThread filter keepAliveTime ℓ) (hst : Started ℓ) :
    ℓ.notices + ℓ.handler.callbacks.count (.onClosed ℓ.conn) = if ℓ.queued then 0 else 1 := by
  have hnotified := h.notified
  have hleft : ℓ.hasLeft = !ℓ.queued := by
    cases hq : ℓ.queued with
    | true => simp [hasLeft, hq]
    | false =>
        have hby : ℓ.session.trace.closedBy ≠ none := fun hopen =>
          absurd (hst.queued_of_open hopen) (by simp [hq])
        simp [hasLeft, hq, Option.isSome_iff_ne_none.mpr hby]
  rw [h.inbound.protocol.closings, hnotified, hleft]
  cases ℓ.queued <;> rfl

/-- **Nothing is left of a closed session** when nothing of it is on its way. -/
theorem Leaves.none_left {conn : Conn} {ioThread : ThreadIx} {filter : Φ}
    {keepAliveTime : Nat} {ℓ : Link Φ} {σ : Solo Φ}
    (h : Leaves F conn ioThread filter keepAliveTime ℓ) (hknown : Known ℓ σ)
    (hclosed : ℓ.session.closed = true) (htasks : ∀ t, ℓ.tasks t = [])
    (hwriting : ℓ.session.socket.writing = []) (htimer : ℓ.session.closeTimer ≠ .waiting) :
    ℓ.queued = false ∧ ℓ.mapped = false ∧ ℓ.session.socket.isOpen = false ∧
      ℓ.handler.callbacks.count (.onClosed ℓ.conn) = 1 := by
  have hwrites : ℓ.writesOf = 0 := by
    rw [writesOf, htasks, TCPSession.outstandingWrites, hwriting]
    rfl
  have hqueued := hknown.left.mpr ⟨hclosed, hwrites⟩
  have hnotices := h.notices hknown.started
  rw [Link.notices, htasks, hqueued] at hnotices
  have hcount : ℓ.handler.callbacks.count (.onClosed ℓ.conn) = 1 := by simpa using hnotices
  refine ⟨hqueued, ?_, ?_, hcount⟩
  · rw [h.inbound.protocol.closings] at hcount
    by_contra hmapped
    rw [isDisposed, show ℓ.mapped = true by simpa using hmapped] at hcount
    simp at hcount
  · by_contra hopen
    have hwaits := hknown.guarded.after
    rw [hknown.alone.queued, hknown.alone.session, hknown.alone.waitsOf, waitsOf, htasks,
      TCPSession.outstandingWaits, if_neg htimer] at hwaits
    exact absurd (hwaits hqueued (by simpa using hopen)) (by simp)

end Link
end EddyServer
