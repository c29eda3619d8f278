import EddyServer.Library.Channel
import EddyServer.Link.Reads

/-!
# From the session to the handler

Seen from the peer, a link is a batched channel too: the filter puts messages into
`messages_received_`, a flush moves them onto the queue of the main thread (or, on the main thread,
hands them to the handler directly), deregistering puts the close notification behind, and the
handler takes batches until the notification disposes of it.
-/

namespace EddyServer

/-- The messages that a handler has been called with. -/
def delivered : List Callback → List NetMessage :=
  List.filterMap fun
    | .onMessage _ m => some m
    | _ => none

theorem delivered_append (cs ds : List Callback) :
    delivered (cs ++ ds) = delivered cs ++ delivered ds :=
  List.filterMap_append

@[simp] theorem delivered_map (conn : Conn) (messages : List NetMessage) :
    delivered (messages.map (.onMessage conn)) = messages := by
  simp [delivered, List.filterMap_map]

namespace Link

open Channel Packet

variable {Φ : Type} {F : MessageFilterInterface Φ}

/-! ## The channel of a link -/

/-- What a task carries from the session to the handler. -/
def inPacket : Task → Option (Packet NetMessage)
  | .sendMessageListToHandler _ messages => some (.batch messages)
  | .onSessionClosed _ => some .close
  | _ => none

/-- The link as a channel from the session to the handler. -/
def inbound (ℓ : Link Φ) : Channel NetMessage :=
  { sent := ℓ.session.trace.decoded
    buffer := ℓ.session.messagesReceived
    wire := (ℓ.tasks mainThread).filterMap inPacket
    received := delivered ℓ.handler.callbacks
    isOpen := !ℓ.registered || ℓ.mapped
    mark := none }

/-- A change that keeps what the channel looks at. -/
theorem inbound_congr {ℓ ℓ' : Link Φ} (hdecoded : ℓ'.session.trace.decoded = ℓ.session.trace.decoded)
    (hbuffer : ℓ'.session.messagesReceived = ℓ.session.messagesReceived)
    (hwire : (ℓ'.tasks mainThread).filterMap inPacket = (ℓ.tasks mainThread).filterMap inPacket)
    (hcallbacks : delivered ℓ'.handler.callbacks = delivered ℓ.handler.callbacks)
    (hopen : (!ℓ'.registered || ℓ'.mapped) = (!ℓ.registered || ℓ.mapped)) :
    ℓ'.inbound = ℓ.inbound := by
  unfold inbound
  rw [hdecoded, hbuffer, hwire, hcallbacks, hopen]

theorem filterMap_inPacket_append {ts more : List Task}
    (h : ∀ task ∈ more, inPacket task = none) :
    (ts ++ more).filterMap inPacket = ts.filterMap inPacket := by
  rw [List.filterMap_append, List.filterMap_eq_nil_iff.mpr h, List.append_nil]

theorem inPacket_of_fromHandler {task : Task} (h : task.fromHandler = true) :
    inPacket task = none := by
  cases task <;> first | rfl | cases h

/-- Callbacks deliver what they carry; calls do nothing to the inbound side. -/
theorem Calls.inbound {cbs : List Callback} {ℓ ℓ' : Link Φ} (h : Calls cbs ℓ ℓ') :
    ℓ'.inbound =
      { ℓ.inbound with received := delivered ℓ.handler.callbacks ++ delivered cbs } := by
  obtain ⟨more, heq, hmore⟩ := h.tasks mainThread
  unfold Link.inbound
  rw [h.session, h.registered, h.mapped, h.callbacks, delivered_append, heq,
    filterMap_inPacket_append fun task hmem => inPacket_of_fromHandler (hmore task hmem).fromHandler]

theorem Calls.inbound_nil {cbs : List Callback} {ℓ ℓ' : Link Φ} (h : Calls cbs ℓ ℓ')
    (hcbs : delivered cbs = []) : ℓ'.inbound = ℓ.inbound := by
  rw [h.inbound, hcbs, List.append_nil]
  rfl

/-- Taking a task that carries nothing leaves the channel as it is. -/
theorem inbound_popped {ℓ : Link Φ} {t : ThreadIx} {task : Task} {rest : List Task}
    (ht : ℓ.tasks t = task :: rest) (hpacket : inPacket task = none) :
    (ℓ.popped t rest).inbound = ℓ.inbound := by
  refine inbound_congr rfl rfl ?_ rfl rfl
  by_cases hmain : t = mainThread
  · subst hmain
    simp [Link.popped, ht, hpacket]
  · simp [Link.popped, Function.update_of_ne (Ne.symm hmain)]

/-- Taking a task that carries a packet takes the packet off the wire. -/
theorem inbound_wire {ℓ : Link Φ} {task : Task} {rest : List Task}
    (ht : ℓ.tasks mainThread = task :: rest) {p : Packet NetMessage} (hpacket : inPacket task = some p) :
    ℓ.inbound.wire = p :: (ℓ.popped mainThread rest).inbound.wire := by
  simp [Link.inbound, Link.popped, ht, hpacket]

/-! ## Steps are channel operations -/

/-- The step is one operation of the channel at most, and pushes only if the session stays open. -/
inductive Operates (ℓ ℓ' : Link Φ) : Prop
  | same : ℓ'.inbound = ℓ.inbound → Operates ℓ ℓ'
  | op (o : Op NetMessage) : NoOvertaking ℓ.inbound o →
      NoPush ℓ.inbound o ∨ ℓ'.session.trace.closedBy = none →
      ℓ'.inbound = ℓ.inbound.step o → Operates ℓ ℓ'

theorem Operates.of_eq {ℓ ℓ₁ ℓ' : Link Φ} (h : Operates ℓ₁ ℓ') (heq : ℓ₁.inbound = ℓ.inbound) :
    Operates ℓ ℓ' := by
  cases h with
  | same hsame => exact .same (hsame.trans heq)
  | op o hord hpush hop =>
      rw [heq] at hord hpush hop
      exact .op o hord hpush hop

/-- A function of the session pushes the messages it receives, flushes, or hangs up. -/
theorem inbound_move {ℓ : Link Φ} {task : Task} {r : TCPSession Φ × List Effect}
    (hmarked : ℓ.session.Marked) (hmove : TCPSession.Move ℓ.session ℓ.found task r) :
    Operates ℓ (ℓ.onSession r) := by
  -- A flush is no packet: it is seen on the channel only when it runs.
  have hflush : ∀ u, inPacket (TCPSession.flushTask u) = none := by
    intro u
    unfold TCPSession.flushTask
    split_ifs <;> rfl
  have hone : ∀ u task', inPacket task' = none →
      (ℓ.tasks mainThread ++ postsTo mainThread [.post u task']).filterMap inPacket =
        (ℓ.tasks mainThread).filterMap inPacket := by
    intro u task' htask
    refine filterMap_inPacket_append fun x hx => ?_
    rw [(mem_postsTo_singleton.mp hx).2]
    exact htask
  have hstays : r.1.closed = false → r.1.trace.closedBy = none := by
    intro hc
    have hm := hmove.closed hmarked
    rw [TCPSession.Marked, hc] at hm
    simpa using hm.symm
  rw [onSession_eq]
  cases hmove.outcome with
  | quiet hq _ heffects =>
      refine .same (inbound_congr hq.decoded hq.messagesReceived ?_ rfl rfl)
      rw [heffects]
      exact congrArg (List.filterMap inPacket) (List.append_nil _)
  | timer hq _ heffects =>
      refine .same (inbound_congr hq.decoded hq.messagesReceived ?_ rfl rfl)
      rw [heffects]
      exact hone _ _ rfl
  | deregister entry _ _ hreceived hdecoded _ heffects =>
      refine .op .hangUp trivial (.inl trivial) ?_
      obtain ⟨aborted, haborted, hposts⟩ := postsTo_leaving ℓ.session mainThread
      have hnone : aborted.filterMap inPacket = [] := by
        refine List.filterMap_eq_nil_iff.mpr fun x hx => ?_
        rw [(haborted x hx).2]
        rfl
      rw [heffects]
      simp [inbound, Channel.step, Channel.hangUp, hreceived, hdecoded, hposts, hnone, inPacket]
  | receive new _ hrec hnil heffects =>
      refine .op (.push new) trivial (.inr (hstays hrec.isOpen)) ?_
      rw [heffects]
      simp [inbound, Channel.step, hrec.messagesReceived, hrec.decoded, postsTo]
  | first new _ hrec hnil hnew heffects =>
      refine .op (.push new) trivial (.inr (hstays hrec.isOpen)) ?_
      rw [heffects]
      simp only [inbound, Channel.step, hrec.messagesReceived, hrec.decoded]
      rw [hone _ _ (hflush _)]
  | deliver _ hne hnil hdecoded _ heffects =>
      refine .op .flush trivial (.inl trivial) ?_
      rw [heffects]
      simp [inbound, Channel.step, Channel.flush, hne, hnil, hdecoded, postsTo, inPacket]

/-- On the main thread no batch of messages is ever queued. -/
theorem payload_inbound_main {ℓ : Link Φ} (hmain : ℓ.session.ioThread = mainThread)
    (htasks : ∀ task ∈ ℓ.tasks mainThread, TaskOk ℓ mainThread task) :
    payload ℓ.inbound.wire = [] := by
  have hnone : ∀ ts : List Task, (∀ task ∈ ts, TaskOk ℓ mainThread task) →
      payload (ts.filterMap inPacket) = [] := by
    intro ts
    induction ts with
    | nil => exact fun _ => rfl
    | cons task ts ih =>
        intro hts
        have hrest := ih fun x hx => hts x (List.mem_cons_of_mem _ hx)
        have hok := hts task List.mem_cons_self
        cases task with
        | sendMessageListToHandler id messages =>
            have hflush := hok.2.2
            rw [hmain, TCPSession.flushTask, if_pos rfl] at hflush
            cases hflush
        | _ => exact hrest
  exact hnone _ htasks

/-- A packet that finds no handler is dropped. -/
theorem inbound_dropped {ℓ : Link Φ} {task : Task} {rest : List Task}
    (ht : ℓ.tasks mainThread = task :: rest) {p : Packet NetMessage}
    (hpacket : inPacket task = some p) (hclosed : ℓ.inbound.isOpen = false) :
    (ℓ.popped mainThread rest).inbound = ℓ.inbound.step .recv := by
  have hopen : (!ℓ.registered || ℓ.mapped) = false := hclosed
  rw [Channel.step, inbound_wire ht hpacket]
  cases p <;> simp [inbound, take, Link.popped, hopen]

/-- The handler takes a batch. -/
theorem inbound_deliver {ℓ ℓ' : Link Φ} {id : TCPSessionID} {messages : List NetMessage}
    {rest : List Task} (ht : ℓ.tasks mainThread = .sendMessageListToHandler id messages :: rest)
    (hmapped : ℓ.mapped = true)
    (hcalls : Calls (messages.map (.onMessage ℓ.conn)) (ℓ.popped mainThread rest) ℓ') :
    ℓ'.inbound = ℓ.inbound.step .recv := by
  rw [hcalls.inbound, delivered_map, Channel.step, inbound_wire ht rfl]
  simp [inbound, take, Link.popped, hmapped]

/-- The handler takes the close notification. -/
theorem inbound_dispose {ℓ ℓ' : Link Φ} {id : TCPSessionID} {rest : List Task}
    (ht : ℓ.tasks mainThread = .onSessionClosed id :: rest) (hreg : ℓ.registered = true)
    (hcalls : Calls [.onClosed ℓ.conn] (ℓ.popped mainThread rest) ℓ') :
    ({ ℓ' with handler := ℓ'.handler.dispose, mapped := false } : Link Φ).inbound =
      ℓ.inbound.step .recv := by
  have hsame := hcalls.inbound_nil rfl
  have hclosed : ({ ℓ' with handler := ℓ'.handler.dispose, mapped := false } : Link Φ).inbound =
      { ℓ'.inbound with isOpen := false } := by
    simp [inbound, TCPSessionHandler.dispose,
      show ℓ'.registered = true from hcalls.registered.trans hreg]
  rw [hclosed, hsame, Channel.step, inbound_wire ht rfl]
  simp [inbound, take, Link.popped]

/-- The handler takes what the session has received. -/
theorem inbound_flush {ℓ ℓ' : Link Φ} (hmapped : ℓ.mapped = true)
    (hcalls : Calls (ℓ.session.messagesReceived.map (.onMessage ℓ.conn)) ℓ ℓ') :
    ({ ℓ' with session := { ℓ'.session with messagesReceived := [] } } : Link Φ).inbound =
      ℓ.inbound.step .direct := by
  have hcleared : ({ ℓ' with session := { ℓ'.session with messagesReceived := [] } } :
      Link Φ).inbound = { ℓ'.inbound with buffer := [] } := rfl
  rw [hcleared, hcalls.inbound, delivered_map]
  simp [inbound, Channel.step, hmapped]

/-- **A link refines a channel**: every step is an operation of the channel from the session to the
handler, or leaves the channel alone. -/
theorem inbound_step {ℓ ℓ' : Link Φ} {a : Act} (h : Lifecycle ℓ) (hstep : Step F ℓ a ℓ') :
    Operates ℓ ℓ' := by
  cases hstep with
  | connect id script hidle hopening =>
      have hopened : (ℓ.opened id).inbound = ℓ.inbound := by
        rw [Link.opened, post_eq]
        refine inbound_congr rfl rfl ?_ rfl ?_
        · refine filterMap_inPacket_append fun task hmem => ?_
          split_ifs at hmem
          · rw [List.mem_singleton.mp hmem]
            rfl
          · cases hmem
        · simp [hidle.registered]
      refine .same ?_
      rw [(calls_callback (.inr ⟨hopening.threadId, h.ioThread_lt⟩) _ script).inbound_nil rfl, hopened]
  | init rest r hop ht hopens =>
      refine .same (Eq.trans ?_ (inbound_popped ht rfl))
      rw [onSession_eq]
      refine inbound_congr (by rw [hopens.trace]; rfl) hopens.messagesReceived ?_ rfl rfl
      rw [hopens.effects]
      exact congrArg (List.filterMap inPacket) (List.append_nil _)
  | complete task s _ hc =>
      obtain ⟨k, timer, rfl⟩ := hc.session
      rw [post_eq]
      refine .same (inbound_congr rfl rfl ?_ rfl rfl)
      refine filterMap_inPacket_append fun task' hmem => ?_
      split_ifs at hmem
      · rw [List.mem_singleton.mp hmem]
        have hcompletion := hc.isCompletion
        cases task <;> first | rfl | cases hcompletion
      · cases hmem
  | logic script => exact .same ((calls_runScript h.callable script).inbound_nil rfl)
  | tick => exact .same rfl
  | run t task rest scripts ht hpopped hran =>
      have hcallable := hpopped.lifecycle.callable
      have hreg : ℓ.registered = true := hpopped.registered.registered
      cases hran with
      | move r hsession _ hst hmove =>
          have hpacket : inPacket task = none := by
            cases task <;> first | rfl | cases hsession
          exact (inbound_move hst.marked hmove).of_eq (inbound_popped ht hpacket)
      | unqueued hlooks =>
          have hpacket : inPacket task = none := by
            cases task <;> first | rfl | cases hlooks
          exact .same (inbound_popped ht hpacket)
      | unmapped hlooks hmapped =>
          have hclosed : ℓ.inbound.isOpen = false := by
            show (!ℓ.registered || ℓ.mapped) = false
            rw [hreg, show ℓ.mapped = false from hmapped]
            rfl
          cases hpacket : inPacket task with
          | none => exact .same (inbound_popped ht hpacket)
          | some p =>
              obtain rfl : t = mainThread := by
                have hok := hpopped.taskOk
                cases task <;> first | exact hok.1 | cases hpacket
              exact .op .recv trivial (.inl trivial) (inbound_dropped ht hpacket hclosed)
      | flush scripts' hio hst hmapped =>
          -- the session lives on the main thread: nothing of it is on the wire
          have hmain : t = mainThread := by
            by_contra hne
            have hflush := hpopped.taskOk.2
            rw [TCPSession.flushTask, if_neg (by simpa using hne)] at hflush
            cases hflush
          subst hmain
          have hpayload := payload_inbound_main hio.symm (hst.tasks mainThread)
          rw [inbound_popped ht rfl] at hpayload
          have hop := inbound_flush hmapped (calls_deliver hcallable _ scripts')
          rw [inbound_popped ht rfl] at hop
          exact .op .direct (.inr (.inr hpayload)) (.inl trivial) hop
      | deliver id messages scripts' hmain hmapped =>
          subst hmain
          exact .op .recv trivial (.inl trivial)
            (inbound_deliver ht hmapped (calls_deliver hcallable messages scripts'))
      | dispose id script hmain =>
          subst hmain
          exact .op .recv trivial (.inl trivial)
            (inbound_dispose ht hreg (calls_callback hcallable _ script))
      | pack =>
          refine .same ?_
          rw [(calls_packMessageList hpopped.registered.threadId
            hpopped.lifecycle.ioThread_lt).inbound_nil rfl, inbound_popped ht rfl]
      | post id messages s _ _ hposts =>
          refine .same (Eq.trans ?_ (inbound_popped ht rfl))
          exact inbound_congr hposts.quiet.decoded hposts.quiet.messagesReceived rfl rfl rfl
      | direct s _ _ hposts =>
          refine .same (Eq.trans ?_ (inbound_popped ht rfl))
          exact inbound_congr hposts.quiet.decoded hposts.quiet.messagesReceived rfl rfl rfl

/-! ## A failing read closes a drained channel -/

/-- Once a failing read has closed the session, everything that was decoded will be delivered. -/
def Drains (ℓ : Link Φ) : Prop :=
  ℓ.session.trace.closedBy = some .handleRead → Complete ℓ.inbound

/-- The read that closes the session finds nothing to flush and no close notification. -/
theorem complete_of_read {ℓ : Link Φ} (hlife : Lifecycle ℓ) (hflush : FlushFirst ℓ) {task : Task}
    {rest : List Task} (ht : ℓ.tasks ℓ.session.ioThread = task :: rest) (hread : task.isRead = true)
    (hopen : ℓ.session.trace.closedBy = none) : Complete ℓ.inbound := by
  have hst : Started ℓ := by
    rcases hlife.stage with hidle | hop | hst
    · rw [hidle.tasks] at ht
      cases ht
    · obtain ⟨rest', hinit, -⟩ := hop.tasks
      rw [ht] at hinit
      rw [(List.cons.inj hinit).1] at hread
      cases hread
    · exact hst
  have hnoclose : .close ∉ ℓ.inbound.wire := by
    intro hmem
    obtain ⟨task', htask', hpacket⟩ := List.mem_filterMap.mp hmem
    have hok := hst.tasks mainThread task' htask'
    cases task' <;> first | exact hok.2.2.2 hopen | cases hpacket
  refine ⟨hflush.nil_of_read ht hread hopen, fun _ => deliverable_of_no_close hnoclose, fun hc => ?_⟩
  have hc' : (!ℓ.registered || ℓ.mapped) = false := hc
  rw [hst.mapped_of_open hopen, Bool.or_true] at hc'
  cases hc'

theorem Drains.step {ℓ ℓ' : Link Φ} {a : Act} (h : Drains ℓ) (hord : InOrder ℓ.inbound)
    (hflush : FlushFirst ℓ) (hlife : Lifecycle ℓ) (hstep : Step F ℓ a ℓ') : Drains ℓ' := by
  intro hby
  have hcomplete : Complete ℓ.inbound := by
    rcases (Step.evolves hlife hstep).closedBy with hsame | ⟨hnone, -, task, rest, -, ht, hset⟩
    · exact h (hsame.symm.trans hby)
    · refine complete_of_read hlife hflush ht ?_ hnone
      rw [hby] at hset
      cases task <;> first | rfl | cases hset
  cases inbound_step hlife hstep with
  | same heq =>
      rw [heq]
      exact hcomplete
  | op o _ hpush heq =>
      rw [heq]
      refine hcomplete.step hord o (hpush.resolve_right fun hnone => ?_)
      rw [hby] at hnone
      cases hnone

/-! ## The protocol -/

/-- What the handler sees: `on_connected`, the messages, `on_closed` when it has left the map. -/
def Protocol (ℓ : Link Φ) : Prop :=
  ℓ.handler.callbacks =
    if ℓ.registered then
      .onConnected :: (delivered ℓ.handler.callbacks).map (.onMessage ℓ.conn) ++
        if ℓ.mapped then [] else [.onClosed ℓ.conn]
    else []

theorem Protocol.congr {ℓ ℓ' : Link Φ} (h : Protocol ℓ) (hconn : ℓ'.conn = ℓ.conn)
    (hcallbacks : ℓ'.handler.callbacks = ℓ.handler.callbacks)
    (hreg : ℓ'.registered = ℓ.registered) (hmapped : ℓ'.mapped = ℓ.mapped) : Protocol ℓ' := by
  unfold Protocol
  rw [hconn, hcallbacks, hreg, hmapped]
  exact h

/-- A mapped handler sees more messages. -/
theorem Protocol.deliver {ℓ ℓ' : Link Φ} (h : Protocol ℓ) (hreg : ℓ.registered = true)
    (hmapped : ℓ.mapped = true) {messages : List NetMessage}
    (hcalls : Calls (messages.map (.onMessage ℓ.conn)) ℓ ℓ') : Protocol ℓ' := by
  unfold Protocol at h ⊢
  rw [hreg, hmapped, if_pos rfl, if_pos rfl, List.append_nil] at h
  rw [hcalls.registered, hcalls.mapped, hcalls.conn, hreg, hmapped, if_pos rfl, if_pos rfl,
    hcalls.callbacks, delivered_append, delivered_map, List.append_nil, List.map_append, h]
  simp [delivered]

/-- A mapped handler is told of the close, and leaves the map. -/
theorem Protocol.dispose {ℓ ℓ' : Link Φ} (h : Protocol ℓ) (hreg : ℓ.registered = true)
    (hmapped : ℓ.mapped = true) (hcalls : Calls [.onClosed ℓ.conn] ℓ ℓ') :
    Protocol { ℓ' with handler := ℓ'.handler.dispose, mapped := false } := by
  unfold Protocol at h ⊢
  rw [hreg, hmapped, if_pos rfl, if_pos rfl, List.append_nil] at h
  dsimp only [TCPSessionHandler.dispose]
  rw [hcalls.registered, hcalls.conn, hreg, if_pos rfl, if_neg (by decide), hcalls.callbacks,
    delivered_append]
  show ℓ.handler.callbacks ++ [.onClosed ℓ.conn] =
    .onConnected :: (delivered ℓ.handler.callbacks ++ []).map (.onMessage ℓ.conn) ++
      [.onClosed ℓ.conn]
  rw [List.append_nil, ← h]

theorem Protocol.step {ℓ ℓ' : Link Φ} {a : Act} (h : Protocol ℓ) (hlife : Lifecycle ℓ)
    (hstep : Step F ℓ a ℓ') : Protocol ℓ' := by
  cases hstep with
  | connect id script hidle hopening =>
      have hcalls := calls_callback (.inr ⟨hopening.threadId, hlife.ioThread_lt⟩) .onConnected script
      have hcallbacks : ((ℓ.opened id).callback .onConnected script).handler.callbacks =
          [.onConnected] := by
        rw [hcalls.callbacks, Link.opened, post_eq]
        simp [TCPSessionHandler.init, hidle.handler, TCPSessionHandler.new]
      unfold Protocol
      rw [hcallbacks, hcalls.registered, hopening.registered, hcalls.mapped, hopening.isMapped]
      rfl
  | init rest r => rw [onSession_eq]; exact h
  | complete task s _ hc => rw [post_eq]; exact h
  | logic script =>
      have hcalls := calls_runScript hlife.callable script
      exact h.congr hcalls.conn (by rw [hcalls.callbacks, List.append_nil]) hcalls.registered
        hcalls.mapped
  | tick => exact h
  | run t task rest scripts ht hpopped hran =>
      have hcallable := hpopped.lifecycle.callable
      have hreg : ℓ.registered = true := hpopped.registered.registered
      cases hran with
      | move r => rw [onSession_eq]; exact h
      | unqueued => exact h
      | unmapped => exact h
      | flush scripts' _ _ hmapped =>
          have hdeliver : Protocol ((ℓ.popped t rest).deliver
              (ℓ.popped t rest).session.messagesReceived scripts') :=
            Protocol.deliver (ℓ := ℓ.popped t rest) h hreg hmapped (calls_deliver hcallable _ _)
          exact hdeliver
      | deliver id messages scripts' _ hmapped =>
          exact Protocol.deliver (ℓ := ℓ.popped t rest) h hreg hmapped (calls_deliver hcallable _ _)
      | dispose id script _ _ hmapped =>
          exact Protocol.dispose (ℓ := ℓ.popped t rest) h hreg hmapped (calls_callback hcallable _ _)
      | pack =>
          have hcalls := calls_packMessageList hpopped.registered.threadId
            hpopped.lifecycle.ioThread_lt
          exact Protocol.congr (ℓ := ℓ.popped t rest) h hcalls.conn
            (by rw [hcalls.callbacks, List.append_nil]) hcalls.registered hcalls.mapped
      | post => exact h
      | direct => exact h

/-- What is known of the inbound side of a link. -/
structure InboundOk (ℓ : Link Φ) : Prop where
  lifecycle : Lifecycle ℓ
  oneRead : OneRead ℓ
  flushFirst : FlushFirst ℓ
  inOrder : InOrder ℓ.inbound
  drains : Drains ℓ
  protocol : Protocol ℓ

theorem InboundOk.start {threads : Nat} {ioThread : ThreadIx} (hio : ioThread < threads)
    (conn : Conn) (filter : Φ) (keepAliveTime : Nat) :
    InboundOk (start conn threads ioThread filter keepAliveTime) where
  lifecycle := .start hio conn filter keepAliveTime
  oneRead := .start conn threads ioThread filter keepAliveTime
  flushFirst := .nil rfl
  inOrder := ⟨List.nil_prefix, fun _ => rfl⟩
  drains hby := nomatch hby
  protocol := rfl

theorem InboundOk.step {ℓ ℓ' : Link Φ} {a : Act} (h : InboundOk ℓ)
    (hstep : step F ℓ a = some ℓ') : InboundOk ℓ' := by
  have hs := h.lifecycle.cases hstep
  exact
    { lifecycle := h.lifecycle.step hstep
      oneRead := h.oneRead.step h.lifecycle hs
      flushFirst := h.flushFirst.step h.oneRead h.lifecycle hs
      inOrder := by
        cases inbound_step h.lifecycle hs with
        | same heq => rw [heq]; exact h.inOrder
        | op o hord _ heq => rw [heq]; exact h.inOrder.step o hord
      drains := h.drains.step h.inOrder h.flushFirst h.lifecycle hs
      protocol := h.protocol.step h.lifecycle hs }

/-- **The handler of a link sees the protocol.** In every run, on a worker or on the main thread: no
callback, or `on_connected` first, then `on_message` for a prefix of the messages that the filter
has decoded, in order, then `on_closed` at most once. If it was a failing read that closed the
session, all decoded messages come before `on_closed`. -/
theorem handler_sees_protocol {conn : Conn} {threads : Nat} {ioThread : ThreadIx} {filter : Φ}
    {keepAliveTime : Nat} {ℓ : Link Φ} (hio : ioThread < threads)
    (hrun : Transition.Reach (step F) (start conn threads ioThread filter keepAliveTime) ℓ) :
    ℓ.handler.callbacks = [] ∨
      ∃ messages closing,
        ℓ.handler.callbacks = .onConnected :: messages.map (.onMessage ℓ.conn) ++ closing ∧
        messages <+: ℓ.session.trace.decoded ∧
        (closing = [] ∨ closing = [.onClosed ℓ.conn] ∧
          (ℓ.session.trace.closedBy = some .handleRead → messages = ℓ.session.trace.decoded)) := by
  have h : InboundOk ℓ :=
    hrun.invariant (fun hi _ hst => hi.step hst) (.start hio conn filter keepAliveTime)
  have hprotocol := h.protocol
  unfold Protocol at hprotocol
  cases hreg : ℓ.registered with
  | false =>
      rw [hreg] at hprotocol
      exact .inl hprotocol
  | true =>
      rw [hreg, if_pos rfl] at hprotocol
      refine .inr ⟨delivered ℓ.handler.callbacks, _, hprotocol, h.inOrder.prefix_sent, ?_⟩
      cases hmapped : ℓ.mapped with
      | true => exact .inl rfl
      | false =>
          refine .inr ⟨rfl, fun hby => (h.drains hby).closed ?_⟩
          show (!ℓ.registered || ℓ.mapped) = false
          rw [hreg, hmapped]
          rfl

/-- A message of one byte comes in, then the end of the stream. -/
theorem handler_sees_protocol_one_message :
    ∃ ℓ, ran 2 1 [.connect 1 [], .run 1 [], .readDone 0 .success [0, 1], .run 1 [],
        .readDone 0 .success [65], .run 1 [], .run 1 [], .run 0 [], .readDone 0 .eof [], .run 1 [],
        .run 0 []] = some ℓ ∧
      ℓ.session.trace.closedBy = some .handleRead ∧ ℓ.handler.callbacks.length = 3 ∧
      (ℓ.handler.callbacks = [] ∨
        ∃ messages closing,
          ℓ.handler.callbacks = .onConnected :: messages.map (.onMessage ℓ.conn) ++ closing ∧
          messages <+: ℓ.session.trace.decoded ∧
          (closing = [] ∨ closing = [.onClosed ℓ.conn] ∧
            (ℓ.session.trace.closedBy = some .handleRead →
              messages = ℓ.session.trace.decoded))) := by
  obtain ⟨ℓ, hℓ, hleft⟩ := Option.map_eq_some_iff.mp (show
    (ran 2 1 [.connect 1 [], .run 1 [], .readDone 0 .success [0, 1], .run 1 [],
        .readDone 0 .success [65], .run 1 [], .run 1 [], .run 0 [], .readDone 0 .eof [], .run 1 [],
        .run 0 []]).map (fun ℓ => (ℓ.session.trace.closedBy, ℓ.handler.callbacks.length)) =
      some (some .handleRead, 3) by decide +kernel)
  obtain ⟨hby, hlength⟩ := Prod.mk.inj hleft
  exact ⟨ℓ, hℓ, hby, hlength, handler_sees_protocol (by decide) (Transition.reach_of_exec hℓ)⟩

end Link
end EddyServer
