import EddyServer.Library.Channel
import EddyServer.Link.Lifecycle

/-!
# From the handler to the session

Seen from the application, a link is a batched channel: `send` puts a message into the buffer of the
handler, a flush moves the buffer onto the queue of the session's thread (or, on the main thread,
hands it to the session directly), `close` flushes and puts a close request behind, and the session
takes batches until the close request closes it. `outbound` is that view, and every step of a link
that is not disturbed is a sequence of channel operations.
-/

namespace EddyServer

/-! ## What the application has sent -/

/-- The messages that the calls send; `send` ignores an empty one. -/
def sends : List Call → List NetMessage
  | [] => []
  | .send m :: calls => if m.empty then sends calls else m :: sends calls
  | .close :: calls => sends calls

/-- The messages that the calls send before they close for the first time. -/
def sentBeforeClose : List Call → List NetMessage
  | [] => []
  | .send m :: calls => if m.empty then sentBeforeClose calls else m :: sentBeforeClose calls
  | .close :: _ => []

theorem sends_append (cs ds : List Call) : sends (cs ++ ds) = sends cs ++ sends ds := by
  induction cs with
  | nil => rfl
  | cons c cs ih =>
      cases c with
      | close => exact ih
      | send m =>
          simp only [List.cons_append, sends]
          split_ifs
          · exact ih
          · rw [ih, List.cons_append]

theorem not_empty_of_sends {cs : List Call} {m : NetMessage} (h : m ∈ sends cs) :
    m.empty = false := by
  induction cs with
  | nil => cases h
  | cons c cs ih =>
      cases c with
      | close => exact ih h
      | send m' =>
          simp only [sends] at h
          split_ifs at h with hm
          · exact ih h
          · rcases List.mem_cons.mp h with rfl | hrest
            · simpa using hm
            · exact ih hrest

/-- What is called after the first `close` sends nothing before it. -/
theorem sentBeforeClose_append {cs : List Call} (h : .close ∈ cs) (ds : List Call) :
    sentBeforeClose (cs ++ ds) = sentBeforeClose cs := by
  induction cs with
  | nil => cases h
  | cons c cs ih =>
      cases c with
      | close => rfl
      | send m =>
          have hcs : .close ∈ cs := by simpa using h
          simp only [List.cons_append, sentBeforeClose]
          rw [ih hcs]

theorem sentBeforeClose_of_no_close {cs : List Call} (h : .close ∉ cs) :
    sentBeforeClose cs = sends cs := by
  induction cs with
  | nil => rfl
  | cons c cs ih =>
      cases c with
      | close => exact absurd List.mem_cons_self h
      | send m =>
          have hcs : .close ∉ cs := fun hmem => h (List.mem_cons_of_mem _ hmem)
          simp only [sentBeforeClose, sends]
          rw [ih hcs]

theorem sentBeforeClose_isFront (cs : List Call) : sentBeforeClose cs <+: sends cs := by
  induction cs with
  | nil => exact List.prefix_refl _
  | cons c cs ih =>
      cases c with
      | close => exact List.nil_prefix
      | send m =>
          simp only [sentBeforeClose, sends]
          split_ifs
          · exact ih
          · exact List.prefix_cons_inj m |>.mpr ih

theorem sentBeforeClose_grows (cs ds : List Call) :
    sentBeforeClose cs <+: sentBeforeClose (cs ++ ds) := by
  by_cases hc : .close ∈ cs
  · rw [sentBeforeClose_append hc]
  · induction cs with
    | nil => exact List.nil_prefix
    | cons c cs ih =>
        cases c with
        | close => exact absurd List.mem_cons_self hc
        | send m =>
            have hcs := ih fun hmem => hc (List.mem_cons_of_mem _ hmem)
            simp only [List.cons_append, sentBeforeClose]
            split_ifs
            · exact hcs
            · exact (List.prefix_cons_inj m).mpr hcs

theorem sentBeforeClose_concat_close {cs : List Call} (h : .close ∉ cs) :
    sentBeforeClose (cs ++ [.close]) = sends cs := by
  induction cs with
  | nil => rfl
  | cons c cs ih =>
      cases c with
      | close => exact absurd List.mem_cons_self h
      | send m =>
          have hcs : .close ∉ cs := fun hmem => h (List.mem_cons_of_mem _ hmem)
          simp only [List.cons_append, sentBeforeClose, sends]
          rw [ih hcs]

/-- What had been sent at the first `close`, if there was one. -/
def closeMark (calls : List Call) : Option (List NetMessage) :=
  if .close ∈ calls then some (sentBeforeClose calls) else none

theorem closeMark_send (cs : List Call) (m : NetMessage) :
    closeMark (cs ++ [.send m]) = closeMark cs := by
  unfold closeMark
  by_cases hc : .close ∈ cs
  · rw [if_pos hc, if_pos (List.mem_append_left _ hc), sentBeforeClose_append hc]
  · rw [if_neg hc, if_neg (by simpa using hc)]

theorem closeMark_close (cs : List Call) :
    closeMark (cs ++ [.close]) = (closeMark cs).or (some (sends cs)) := by
  unfold closeMark
  rw [if_pos (by simp)]
  by_cases hc : .close ∈ cs
  · rw [if_pos hc, sentBeforeClose_append hc, Option.some_or]
  · rw [if_neg hc, sentBeforeClose_concat_close hc, Option.none_or]

namespace Link

open Channel Packet

variable {Φ : Type} {F : MessageFilterInterface Φ}

/-! ## The channel of a link -/

/-- What a task carries from the handler to the session. -/
def outPacket : Task → Option (Packet NetMessage)
  | .sendMessageListToSession _ messages => some (.batch messages)
  | .closeSession _ => some .close
  | _ => none

/-- The link as a channel from the handler to the session. -/
def outbound (ℓ : Link Φ) : Channel NetMessage :=
  { sent := sends ℓ.handler.calls
    buffer := ℓ.handler.messagesToBeSent
    wire := (ℓ.tasks ℓ.session.ioThread).filterMap outPacket
    received := ℓ.session.trace.posted
    isOpen := ℓ.session.trace.closedBy.isNone
    mark := closeMark ℓ.handler.calls }

theorem outPacket_flushTask (t : ThreadIx) : outPacket (TCPSessionHandler.flushTask t) = none := by
  unfold TCPSessionHandler.flushTask
  split_ifs <;> rfl

/-- A change that keeps what the channel looks at. -/
theorem outbound_congr {ℓ ℓ' : Link Φ} (hcalls : ℓ'.handler.calls = ℓ.handler.calls)
    (hbuffer : ℓ'.handler.messagesToBeSent = ℓ.handler.messagesToBeSent)
    (hwire : (ℓ'.tasks ℓ'.session.ioThread).filterMap outPacket =
      (ℓ.tasks ℓ.session.ioThread).filterMap outPacket)
    (hposted : ℓ'.session.trace.posted = ℓ.session.trace.posted)
    (hby : ℓ'.session.trace.closedBy = ℓ.session.trace.closedBy) : ℓ'.outbound = ℓ.outbound := by
  unfold outbound
  rw [hcalls, hbuffer, hwire, hposted, hby]

/-- The operations of a link whose session lives on thread `io`: on the main thread the buffer goes
onto the queue only with a close. -/
def Sends (io : ThreadIx) (c : Channel NetMessage) (op : Op NetMessage) : Prop :=
  OwnClose c op ∧ (io = mainThread → NoFlush c op)

/-! ## Calls are channel operations -/

/-- `send` pushes, unless the message is empty or the handler is not registered. -/
theorem outbound_send {ℓ : Link Φ} (hthread : ℓ.handler.threadId = threadId ℓ.session.ioThread)
    (hopen : ℓ.handler.isClosed = false) (m : NetMessage) :
    (ℓ.call (.send m)).outbound = if m.empty then ℓ.outbound else ℓ.outbound.step (.push [m]) := by
  cases hm : m.empty with
  | true =>
      rw [call_send_empty hopen hm]
      simp only [outbound, closeMark_send, sends_append]
      simp [sends, hm]
  | false =>
      rw [call_send hopen hthread hm]
      simp only [outbound, closeMark_send, sends_append, Channel.step]
      have hflush : (if mainThread = ℓ.session.ioThread ∧ ℓ.handler.messagesToBeSent = []
          then [TCPSessionHandler.flushTask ℓ.session.ioThread] else []).filterMap outPacket = [] := by
        split_ifs
        · simp [outPacket_flushTask]
        · rfl
      simp [sends, hm, List.filterMap_append, hflush]

/-- `close` flushes and closes. -/
theorem outbound_close {ℓ : Link Φ} (hthread : ℓ.handler.threadId = threadId ℓ.session.ioThread)
    (hio : ℓ.session.ioThread < ℓ.threads) (hopen : ℓ.handler.isClosed = false) :
    (ℓ.call .close).outbound = ℓ.outbound.step .close := by
  have hsends : sends (ℓ.handler.calls ++ [.close]) = sends ℓ.handler.calls := by
    rw [sends_append, sends, sends, List.append_nil]
  rw [call_close hopen hthread hio]
  cases hb : ℓ.handler.messagesToBeSent <;>
    simp [outbound, Channel.step, Channel.flush, hangUp, hb, hsends, closeMark_close, outPacket,
      List.filterMap_append]

/-- One call is one operation at most. -/
theorem outbound_call (io : ThreadIx) {ℓ : Link Φ} (h : Callable ℓ) (c : Call) :
    Leads (Sends io) ℓ.outbound (ℓ.call c).outbound := by
  cases hopen : ℓ.handler.isClosed with
  | true =>
      rw [call_closed hopen]
      exact .refl _
  | false =>
      obtain hclosed | ⟨hthread, hio⟩ := h
      · exact absurd (hopen.symm.trans hclosed) (by decide)
      cases c with
      | send m =>
          rw [outbound_send hthread hopen m]
          split_ifs
          · exact .refl _
          · exact .one (.push [m]) ⟨trivial, fun _ => trivial⟩
      | close =>
          rw [outbound_close hthread hio hopen]
          exact .one .close ⟨trivial, fun _ => trivial⟩

theorem keptByCalls_outbound (io : ThreadIx) (c : Channel NetMessage) :
    KeptByCalls fun ℓ : Link Φ => Leads (Sends io) c ℓ.outbound where
  call _ c hc h := h.trans (outbound_call io hc c)
  record _ _ h := h

/-! ## Tasks are channel operations -/

/-- No one but the session's own `CloseSession` has closed the session. -/
def Undisturbed (s : TCPSession Φ) : Prop :=
  s.trace.closedBy = none ∨ s.trace.closedBy = some .closeSession

/-- Taking a task that carries nothing leaves the channel as it is. -/
theorem outbound_popped {ℓ : Link Φ} {t : ThreadIx} {task : Task} {rest : List Task}
    (ht : ℓ.tasks t = task :: rest) (hpacket : outPacket task = none) :
    (ℓ.popped t rest).outbound = ℓ.outbound := by
  refine outbound_congr rfl rfl ?_ rfl rfl
  by_cases hio : t = ℓ.session.ioThread
  · subst hio
    simp [Link.popped, ht, hpacket]
  · simp [Link.popped, Function.update_of_ne (Ne.symm hio)]

/-- Taking a task that carries a packet takes the packet off the wire. -/
theorem outbound_wire {ℓ : Link Φ} {task : Task} {rest : List Task}
    (ht : ℓ.tasks ℓ.session.ioThread = task :: rest) {p : Packet NetMessage}
    (hpacket : outPacket task = some p) :
    ℓ.outbound.wire = p :: (ℓ.popped ℓ.session.ioThread rest).outbound.wire := by
  simp [outbound, Link.popped, ht, hpacket]

/-- A function of the session posts nothing that the session would take as a packet. -/
theorem outPacket_posts {s : TCPSession Φ} {found : Option Conn} {task : Task}
    {r : TCPSession Φ × List Effect} (h : TCPSession.Move s found task r) (t : ThreadIx) :
    (postsTo t r.2).filterMap outPacket = [] := by
  refine List.filterMap_eq_nil_iff.mpr fun task' hmem => ?_
  have hfrom := move_posts h hmem
  cases task' <;> first | rfl | cases hfrom

theorem outPacket_of_session {task : Task} (h : task.ofSession = true)
    (hcause : task.cause ≠ some .closeSession) : outPacket task = none := by
  cases task with
  | closeSession id => exact absurd rfl hcause
  | sendMessageListToSession id messages => cases h
  | _ => rfl

/-- `PackMessageList` is a flush. -/
theorem outbound_packMessageList {ℓ : Link Φ}
    (hthread : ℓ.handler.threadId = threadId ℓ.session.ioThread)
    (hio : ℓ.session.ioThread < ℓ.threads) :
    (ℓ.onHandler (ℓ.handler.packMessageList (getThread ℓ.threads))).outbound =
      ℓ.outbound.step .flush := by
  rw [onHandler_packMessageList hthread hio]
  cases hb : ℓ.handler.messagesToBeSent <;>
    simp [outbound, Channel.step, Channel.flush, hb, outPacket, List.filterMap_append]

/-- A task of the session that is not a close request and does not disturb it leaves the channel as
it is. -/
theorem outbound_move {ℓ : Link Φ} {task : Task} {r : TCPSession Φ × List Effect}
    (hmove : TCPSession.Move ℓ.session ℓ.found task r)
    (hcause : task.cause ≠ some .closeSession) (hund : Undisturbed r.1) :
    (ℓ.onSession r).outbound = ℓ.outbound := by
  have hby : r.1.trace.closedBy = ℓ.session.trace.closedBy := by
    rcases hmove.closedBy with hsame | ⟨hnone, hset⟩
    · exact hsame
    · rcases hund with hn | hs
      · rw [hn, hnone]
      · exact absurd (hset.symm.trans hs) hcause
  rw [onSession_eq]
  refine outbound_congr rfl rfl ?_ hmove.posted hby
  dsimp only
  rw [hmove.ioThread, List.filterMap_append, outPacket_posts hmove, List.append_nil]

/-- `CloseSession` takes the `close` packet. -/
theorem outbound_closeSession {ℓ : Link Φ} {id : TCPSessionID} {rest : List Task}
    (ht : ℓ.tasks ℓ.session.ioThread = .closeSession id :: rest)
    {r : TCPSession Φ × List Effect}
    (hmove : TCPSession.Move ℓ.session ℓ.found (.closeSession id) r)
    (hmarked : ℓ.session.Marked) (hclosed : r.1.closed = true) :
    ((ℓ.popped ℓ.session.ioThread rest).onSession r).outbound = ℓ.outbound.step .recv := by
  have hopen : r.1.trace.closedBy.isNone = false := by
    have hm := hmove.closed hmarked
    rw [TCPSession.Marked, hclosed] at hm
    cases hby : r.1.trace.closedBy with
    | none => rw [hby] at hm; cases hm
    | some cause => rfl
  rw [Channel.step, outbound_wire ht rfl, take, onSession_eq]
  simp [outbound, Link.popped, hmove.ioThread, hmove.posted, hopen, outPacket_posts hmove]

/-- `SendMessageListToSession` takes a batch. -/
theorem outbound_sendMessageListToSession {ℓ : Link Φ} {id : TCPSessionID}
    {messages : List NetMessage} {rest : List Task}
    (ht : ℓ.tasks ℓ.session.ioThread = .sendMessageListToSession id messages :: rest)
    {s : TCPSession Φ} (hposts : TCPSession.Posts F ℓ.session messages s)
    (hmarked : ℓ.session.Marked) :
    ({ ℓ.popped ℓ.session.ioThread rest with session := s } : Link Φ).outbound =
      ℓ.outbound.step .recv := by
  rw [Channel.step, outbound_wire ht rfl, take]
  have hclosed : ℓ.session.closed = !ℓ.session.trace.closedBy.isNone := by
    rw [hmarked]
    cases ℓ.session.trace.closedBy <;> rfl
  cases hby : ℓ.session.trace.closedBy <;>
    simp [outbound, Link.popped, hposts.ioThread, hposts.posted, hposts.closedBy, hclosed, hby]

/-- A packet that finds no open session is dropped. -/
theorem outbound_dropped {ℓ : Link Φ} {task : Task} {rest : List Task}
    (ht : ℓ.tasks ℓ.session.ioThread = task :: rest) {p : Packet NetMessage}
    (hpacket : outPacket task = some p) (hclosed : ℓ.session.trace.closedBy ≠ none) :
    (ℓ.popped ℓ.session.ioThread rest).outbound = ℓ.outbound.step .recv := by
  have hopen : ℓ.session.trace.closedBy.isNone = false := by
    cases hby : ℓ.session.trace.closedBy with
    | none => exact absurd hby hclosed
    | some cause => rfl
  rw [Channel.step, outbound_wire ht hpacket]
  cases p <;> simp [outbound, take, Link.popped, hopen]

/-- If the step hands the buffer over directly, it overtakes nothing. -/
def DirectOk (ℓ : Link Φ) (a : Act) : Prop :=
  ∀ scripts rest, a = .run mainThread scripts →
    ℓ.tasks mainThread = .handlerSendMessageListDirectly :: rest → OwnClose ℓ.outbound .direct

/-- `SendMessageListDirectly` hands the buffer over. -/
theorem outbound_direct {ℓ : Link Φ} {s : TCPSession Φ}
    (hposts : TCPSession.Posts F ℓ.session ℓ.handler.messagesToBeSent s)
    (hmarked : ℓ.session.Marked) :
    ({ ℓ with session := s, handler := { ℓ.handler with messagesToBeSent := [] } } :
      Link Φ).outbound = ℓ.outbound.step .direct := by
  have hclosed : ℓ.session.closed = !ℓ.session.trace.closedBy.isNone := by
    rw [hmarked]
    cases ℓ.session.trace.closedBy <;> rfl
  cases hby : ℓ.session.trace.closedBy <;>
    simp [outbound, Channel.step, hposts.ioThread, hposts.posted, hposts.closedBy, hclosed, hby]

/-- **A link refines a channel**: every step that does not disturb the session is a sequence of
channel operations from the handler to the session. -/
theorem outbound_step {ℓ ℓ' : Link Φ} {a : Act} (h : Lifecycle ℓ) (hstep : Step F ℓ a ℓ')
    (hund : Undisturbed ℓ'.session) (hdirect : DirectOk ℓ a) :
    Leads (Sends ℓ.session.ioThread) ℓ.outbound ℓ'.outbound := by
  cases hstep with
  | connect id script hidle hopening =>
      have hsame : (ℓ.opened id).outbound = ℓ.outbound := by
        rw [Link.opened, post_eq]
        refine outbound_congr rfl rfl ?_ rfl rfl
        simp [List.filterMap_append, outPacket]
      rw [← hsame]
      exact (keptByCalls_outbound _ _).callback (.inr ⟨hopening.threadId, h.ioThread_lt⟩) (.refl _) _ _
  | init rest r hop ht hopens =>
      have hsame : ((ℓ.popped ℓ.session.ioThread rest).onSession r).outbound = ℓ.outbound := by
        refine Eq.trans ?_ (outbound_popped ht rfl)
        rw [onSession_eq]
        refine outbound_congr rfl rfl ?_ (by rw [hopens.trace]; rfl) (by rw [hopens.trace]; rfl)
        dsimp only
        rw [hopens.ioThread, hopens.effects]
        exact congrArg (List.filterMap outPacket) (List.append_nil _)
      rw [hsame]
      exact .refl _
  | complete task s hst hc =>
      obtain ⟨k, timer, rfl⟩ := hc.session
      have hpacket : outPacket task = none := by
        have hcompletion := hc.isCompletion
        cases task <;> first | rfl | cases hcompletion
      have hsame : (({ ℓ with
          session := { ℓ.session with socket := k, closeTimer := timer } } : Link Φ).post
          ℓ.session.ioThread task).outbound = ℓ.outbound := by
        rw [post_eq]
        exact outbound_congr rfl rfl (by simp [List.filterMap_append, hpacket]) rfl rfl
      rw [hsame]
      exact .refl _
  | logic script => exact (keptByCalls_outbound _ _).runScript h.callable (.refl _) script
  | tick clock => exact .refl _
  | run t task rest scripts ht hpopped hran =>
      have hcallable := hpopped.lifecycle.callable
      cases hran with
      | move r hsession hio hst hmove hclosed =>
          obtain rfl : t = ℓ.session.ioThread := hio
          -- Running `CloseSession` receives the mark; all else of a session is not seen.
          cases hcause : task.cause == some .closeSession with
          | true =>
              cases task <;> cases hcause
              rw [outbound_closeSession ht hmove hst.marked (hclosed _ rfl)]
              exact .one .recv ⟨trivial, fun _ => trivial⟩
          | false =>
              have hne : task.cause ≠ some .closeSession := by simpa using hcause
              rw [outbound_move hmove hne (by rw [onSession_eq] at hund; exact hund),
                outbound_popped ht (outPacket_of_session hsession hne)]
              exact .refl _
      | unqueued hlooks hby =>
          -- The session has left its queue: the packet is received and dropped.
          cases task with
          | closeSession id =>
              obtain rfl : t = ℓ.session.ioThread := hpopped.taskOk.1
              rw [outbound_dropped ht rfl hby]
              exact .one .recv ⟨trivial, fun _ => trivial⟩
          | sendMessageListToSession id messages =>
              obtain rfl : t = ℓ.session.ioThread := hpopped.taskOk.1
              rw [outbound_dropped ht rfl hby]
              exact .one .recv ⟨trivial, fun _ => trivial⟩
          | handlerSendMessageListDirectly =>
              rw [outbound_popped ht rfl]
              exact .refl _
          | _ => cases hlooks
      | unmapped hlooks =>
          have hpacket : outPacket task = none := by
            cases task <;> first | rfl | cases hlooks
          rw [outbound_popped ht hpacket]
          exact .refl _
      | flush scripts =>
          rw [← outbound_popped ht rfl]
          exact (keptByCalls_outbound _ _).deliver hcallable (.refl _) _ _
      | deliver id messages scripts =>
          rw [← outbound_popped ht rfl]
          exact (keptByCalls_outbound _ _).deliver hcallable (.refl _) _ _
      | dispose id script =>
          rw [← outbound_popped ht rfl]
          exact (keptByCalls_outbound _ _).callback hcallable (.refl _) _ _
      | pack =>
          rw [outbound_packMessageList hpopped.registered.threadId hpopped.lifecycle.ioThread_lt,
            outbound_popped ht rfl]
          refine .one .flush ⟨trivial, fun hmain => ?_⟩
          -- On the main thread the buffer is never packed into a batch.
          have hflush : TCPSessionHandler.flushTask ℓ.session.ioThread = .handlerPackMessageList :=
            hpopped.taskOk.2
          rw [TCPSessionHandler.flushTask, if_pos (congrArg threadId hmain)] at hflush
          cases hflush
      | post id messages s hio hst hposts =>
          obtain rfl : t = ℓ.session.ioThread := hio
          rw [outbound_sendMessageListToSession ht hposts hst.marked]
          exact .one .recv ⟨trivial, fun _ => trivial⟩
      | direct s hio hst hposts =>
          have hmain : t = mainThread := hpopped.taskOk.1
          subst hmain
          rw [outbound_direct hposts hst.marked, outbound_popped ht rfl]
          exact .one .direct ⟨hdirect scripts rest rfl ht, fun _ => trivial⟩

/-! ## A full buffer has a flush pending -/

/-- While the handler's buffer is not empty, a flush of it is queued on the main thread. (On the
main thread a flush that no longer finds its session leaves the buffer as it is.) -/
def FlushPending (ℓ : Link Φ) : Prop :=
  ℓ.handler.messagesToBeSent ≠ [] →
    (TCPSessionHandler.flushTask ℓ.session.ioThread = .handlerSendMessageListDirectly →
      ℓ.session.trace.closedBy = none) →
    TCPSessionHandler.flushTask ℓ.session.ioThread ∈ ℓ.tasks mainThread

/-- A change that keeps the buffer and only adds tasks. -/
theorem FlushPending.grow {ℓ ℓ' : Link Φ} (h : FlushPending ℓ)
    (hbuffer : ℓ'.handler.messagesToBeSent = ℓ.handler.messagesToBeSent)
    (hio : ℓ'.session.ioThread = ℓ.session.ioThread)
    (hby : ℓ'.session.trace.closedBy = none → ℓ.session.trace.closedBy = none)
    (htasks : ∃ more, ℓ'.tasks mainThread = ℓ.tasks mainThread ++ more) : FlushPending ℓ' := by
  intro hne hopen
  obtain ⟨more, hmore⟩ := htasks
  rw [hbuffer] at hne
  rw [hio] at hopen ⊢
  rw [hmore]
  exact List.mem_append_left _ (h hne fun hflush => hby (hopen hflush))

/-- Taking another task leaves the flush where it is. -/
theorem FlushPending.popped {ℓ : Link Φ} (h : FlushPending ℓ) {t : ThreadIx} {task : Task}
    {rest : List Task} (ht : ℓ.tasks t = task :: rest)
    (htask : task ≠ TCPSessionHandler.flushTask ℓ.session.ioThread) :
    FlushPending (ℓ.popped t rest) := by
  intro hne hopen
  have hmem := h hne hopen
  by_cases hmain : t = mainThread
  · subst hmain
    rw [ht] at hmem
    show _ ∈ Function.update ℓ.tasks mainThread rest mainThread
    rw [Function.update_self]
    exact (List.mem_cons.mp hmem).resolve_left fun heq => htask heq.symm
  · show _ ∈ Function.update ℓ.tasks t rest mainThread
    rwa [Function.update_of_ne (Ne.symm hmain)]

theorem FlushPending.call {ℓ : Link Φ} (h : FlushPending ℓ) (hc : Callable ℓ) (c : Call) :
    FlushPending (ℓ.call c) := by
  cases hopen : ℓ.handler.isClosed with
  | true =>
      rw [call_closed hopen]
      exact h
  | false =>
      obtain hclosed | ⟨hthread, hio⟩ := hc
      · exact absurd (hopen.symm.trans hclosed) (by decide)
      cases c with
      | send m =>
          cases hm : m.empty with
          | true =>
              rw [call_send_empty hopen hm]
              exact h
          | false =>
              rw [call_send hopen hthread hm]
              intro _ hby
              dsimp only
              -- The first message in an empty buffer posts the flush; later ones rely on it.
              by_cases hb : ℓ.handler.messagesToBeSent = []
              · rw [if_pos ⟨rfl, hb⟩]
                exact List.mem_append_right _ List.mem_cons_self
              · exact List.mem_append_left _ (h hb hby)
      | close =>
          rw [call_close hopen hthread hio]
          exact fun hne => absurd rfl hne

theorem keptByCalls_flushPending : KeptByCalls fun ℓ : Link Φ => FlushPending ℓ where
  call _ c hc h := h.call hc c
  record _ _ h := h

theorem FlushPending.step {ℓ ℓ' : Link Φ} {a : Act} (h : FlushPending ℓ) (hlife : Lifecycle ℓ)
    (hstep : Step F ℓ a ℓ') : FlushPending ℓ' := by
  have hflush : ∀ t, TCPSessionHandler.flushTask t = .handlerPackMessageList ∨
      TCPSessionHandler.flushTask t = .handlerSendMessageListDirectly := by
    intro t
    unfold TCPSessionHandler.flushTask
    split_ifs
    · exact .inr rfl
    · exact .inl rfl
  have hother : ∀ {t : ThreadIx} {task : Task} {rest : List Task}, ℓ.tasks t = task :: rest →
      task ≠ .handlerPackMessageList → task ≠ .handlerSendMessageListDirectly →
      FlushPending (ℓ.popped t rest) := by
    intro t task rest ht hpack hdirect
    refine h.popped ht ?_
    rcases hflush ℓ.session.ioThread with heq | heq <;> rw [heq]
    · exact hpack
    · exact hdirect
  cases hstep with
  | connect id script hidle hopening =>
      have hopened : FlushPending (ℓ.opened id) := by
        rw [Link.opened, post_eq]
        exact h.grow rfl rfl (fun hn => hn) ⟨_, rfl⟩
      exact keptByCalls_flushPending.callback (.inr ⟨hopening.threadId, hlife.ioThread_lt⟩) hopened _ _
  | init rest r hop ht hopens =>
      rw [onSession_eq]
      exact (hother ht (fun h => by cases h) fun h => by cases h).grow rfl hopens.ioThread
        (by dsimp only; rw [hopens.trace]; exact fun hn => hn) ⟨_, rfl⟩
  | complete task s _ hc =>
      obtain ⟨k, timer, rfl⟩ := hc.session
      rw [post_eq]
      exact h.grow rfl rfl (fun hn => hn) ⟨_, rfl⟩
  | logic script => exact keptByCalls_flushPending.runScript hlife.callable h script
  | tick => exact h
  | run t task rest scripts ht hpopped hran =>
      have hcallable := hpopped.lifecycle.callable
      cases hran with
      | move r hsession _ _ hmove =>
          rw [onSession_eq]
          refine (hother ht ?_ ?_).grow rfl hmove.ioThread (fun hn => ?_) ⟨_, rfl⟩
          · rintro rfl
            cases hsession
          · rintro rfl
            cases hsession
          · rcases hmove.closedBy with hsame | ⟨hnone, -⟩
            · exact hsame.symm.trans hn
            · exact hnone
      | unqueued hlooks hby =>
          -- A direct flush that finds no session runs after the close only.
          by_cases hdirect : task = .handlerSendMessageListDirectly
          · subst hdirect
            exact fun _ hopen => absurd (hopen hpopped.taskOk.2) hby
          · refine hother ht ?_ hdirect
            rintro rfl
            cases hlooks
      | unmapped hlooks =>
          refine hother ht ?_ ?_
          · rintro rfl
            cases hlooks
          · rintro rfl
            cases hlooks
      | flush =>
          have hflush := hother ht (fun h => by cases h) fun h => by cases h
          exact keptByCalls_flushPending.deliver hcallable hflush _ _
      | deliver =>
          have hflush := hother ht (fun h => by cases h) fun h => by cases h
          exact keptByCalls_flushPending.deliver hcallable hflush _ _
      | dispose =>
          have hflush := hother ht (fun h => by cases h) fun h => by cases h
          exact keptByCalls_flushPending.callback hcallable hflush _ _
      | pack =>
          rw [onHandler_packMessageList hpopped.registered.threadId hpopped.lifecycle.ioThread_lt]
          exact fun hne => absurd rfl hne
      | post id messages s _ _ hposts =>
          have hflush := hother ht (fun h => by cases h) fun h => by cases h
          refine hflush.grow rfl hposts.ioThread ?_ ⟨[], (List.append_nil _).symm⟩
          dsimp only
          rw [hposts.closedBy]
          exact fun hn => hn
      | direct => exact fun hne => absurd rfl hne

/-! ## The order of messages on a worker thread -/

/-- What is known of the outbound side of a link. -/
structure OutboundOk (ℓ : Link Φ) : Prop where
  upToMark : UpToMark ℓ.outbound
  spent : Spent ℓ.outbound
  unbatched : ℓ.session.ioThread = mainThread → Unbatched ℓ.outbound
  pending : FlushPending ℓ

theorem OutboundOk.start (conn : Conn) (threads : Nat) (ioThread : ThreadIx) (filter : Φ)
    (keepAliveTime : Nat) : OutboundOk (start conn threads ioThread filter keepAliveTime) where
  upToMark := ⟨fun _ => ⟨rfl, by simp [outbound, Link.start], rfl⟩, fun l hm => by
    simp [outbound, Link.start, TCPSessionHandler.new, closeMark] at hm⟩
  spent _ _ _ := rfl
  unbatched _ _ := rfl
  pending hne := absurd rfl hne

theorem undisturbed_back {ℓ ℓ' : Link Φ} {a : Act} (h : Lifecycle ℓ)
    (hstep : step F ℓ a = some ℓ') (hund : Undisturbed ℓ'.session) : Undisturbed ℓ.session := by
  rcases (Step.evolves h (h.cases hstep)).closedBy with hsame | ⟨hnone, -⟩
  · unfold Undisturbed at hund
    rwa [hsame] at hund
  · exact .inl hnone

/-- A worker never runs `SendMessageListDirectly`. -/
theorem directOk_of_worker {ℓ : Link Φ} (h : Lifecycle ℓ)
    (hworker : ℓ.session.ioThread ≠ mainThread) (a : Act) : DirectOk ℓ a := by
  intro _ rest _ ht
  have hok := (h.popped ht nofun).taskOk.2
  have hids : threadId ℓ.session.ioThread ≠ threadId mainThread := by simpa using hworker
  rw [TCPSessionHandler.flushTask, if_neg (by simpa [Link.popped] using hids)] at hok
  cases hok

theorem OutboundOk.step {ℓ ℓ' : Link Φ} {a : Act} (h : OutboundOk ℓ) (hlife : Lifecycle ℓ)
    (hund : Undisturbed ℓ'.session) (hdirect : DirectOk ℓ a) (hstep : step F ℓ a = some ℓ') :
    OutboundOk ℓ' := by
  have hs := hlife.cases hstep
  have hleads := outbound_step hlife hs hund hdirect
  obtain ⟨hup, hspent⟩ : UpToMark ℓ'.outbound ∧ Spent ℓ'.outbound :=
    hleads.keeps (I := fun c => UpToMark c ∧ Spent c)
      (fun op hi hok => ⟨hi.1.step op hok.1, hi.2.step hi.1 op⟩) ⟨h.upToMark, h.spent⟩
  refine ⟨hup, hspent, fun hmain => ?_, h.pending.step hlife hs⟩
  rw [(Step.evolves hlife hs).ioThread] at hmain
  exact hleads.keeps (I := Unbatched) (fun op hi hok => hi.step op (hok.2 hmain)) (h.unbatched hmain)

/-- What a channel that is in order up to its mark says of the messages that were posted. -/
theorem OutboundOk.posted {ℓ : Link Φ} (h : OutboundOk ℓ) :
    ℓ.session.trace.posted <+: sends ℓ.handler.calls ∧
      ℓ.session.trace.posted <+: sentBeforeClose ℓ.handler.calls ∧
      (ℓ.session.trace.closedBy ≠ none →
        .close ∈ ℓ.handler.calls ∧ ℓ.session.trace.posted = sentBeforeClose ℓ.handler.calls) := by
  have hfront : ℓ.session.trace.posted <+: sends ℓ.handler.calls := h.upToMark.received_prefix
  by_cases hc : .close ∈ ℓ.handler.calls
  · obtain ⟨-, hopen, hclosed⟩ := h.upToMark.marked (sentBeforeClose ℓ.handler.calls) (if_pos hc)
    cases hby : ℓ.session.trace.closedBy with
    | none =>
        obtain ⟨-, hsent⟩ := hopen (by simp [outbound, hby])
        exact ⟨hfront, ⟨_, hsent⟩, fun hne => absurd rfl hne⟩
    | some cause =>
        have hposted : ℓ.session.trace.posted = sentBeforeClose ℓ.handler.calls :=
          hclosed (by simp [outbound, hby])
        exact ⟨hfront, hposted ▸ List.prefix_refl _, fun _ => ⟨hc, hposted⟩⟩
  · obtain ⟨hopen, -, -⟩ := h.upToMark.unmarked (if_neg hc)
    refine ⟨hfront, by rwa [sentBeforeClose_of_no_close hc], fun hne => ?_⟩
    exact absurd (Option.isNone_iff_eq_none.mp hopen) hne

/-- **The send path of a worker keeps the order.** In every run of a link whose session lives on a
worker thread and is closed by nothing but `CloseSession`: what has been passed to the open session
is a prefix of the messages sent, in order, and of those sent before the first `close`; when
`CloseSession` has closed the session, it is all of them; and a buffer that is not empty has a
`PackMessageList` pending on the main thread. -/
theorem worker_sends_in_order {conn : Conn} {threads : Nat} {ioThread : ThreadIx} {filter : Φ}
    {keepAliveTime : Nat} {ℓ : Link Φ} (hio : ioThread < threads) (hworker : ioThread ≠ mainThread)
    (hrun : Transition.Reach (step F) (start conn threads ioThread filter keepAliveTime) ℓ)
    (hund : Undisturbed ℓ.session) :
    ℓ.session.trace.posted <+: sends ℓ.handler.calls ∧
      ℓ.session.trace.posted <+: sentBeforeClose ℓ.handler.calls ∧
      (ℓ.session.trace.closedBy = some .closeSession →
        .close ∈ ℓ.handler.calls ∧ ℓ.session.trace.posted = sentBeforeClose ℓ.handler.calls) ∧
      (ℓ.handler.messagesToBeSent ≠ [] → .handlerPackMessageList ∈ ℓ.tasks mainThread) := by
  obtain ⟨hlife, hok⟩ := hrun.invariant_of_final (J := Alive ioThread)
    (P := fun ℓ => Undisturbed ℓ.session) (I := OutboundOk)
    (fun hj hst => hj.step hst) (fun hj hst => undisturbed_back hj.lifecycle hst)
    (fun hp hj hi _ hst => hi.step hj.lifecycle hp
      (directOk_of_worker hj.lifecycle (hj.ioThread ▸ hworker) _) hst)
    (.start hio conn filter keepAliveTime) (.start conn threads ioThread filter keepAliveTime) hund
  obtain ⟨hfront, hbefore, hclosed⟩ := hok.posted
  refine ⟨hfront, hbefore, fun hby => hclosed (by rw [hby]; exact Option.some_ne_none _),
    fun hne => ?_⟩
  have hids : threadId ℓ.session.ioThread ≠ threadId mainThread := by
    rw [hlife.ioThread]
    simpa using hworker
  have hflush : TCPSessionHandler.flushTask ℓ.session.ioThread = .handlerPackMessageList :=
    if_neg hids
  have hpending := hok.pending hne fun hdirect => by
    rw [hflush] at hdirect
    cases hdirect
  rwa [hflush] at hpending

/-- Two messages and a `close` in `on_connected`: both messages are passed before the close. -/
theorem worker_sends_in_order_two_messages :
    ∃ ℓ, ran 2 1 [.connect 1 [.send (oneByteMessage 1), .send (oneByteMessage 2), .close],
        .run 1 [], .run 1 [], .run 0 [], .run 1 []] = some ℓ ∧
      ℓ.session.trace.closedBy = some .closeSession ∧
      ℓ.session.trace.posted = sentBeforeClose ℓ.handler.calls := by
  obtain ⟨ℓ, hℓ, hby⟩ := Option.map_eq_some_iff.mp (show
    (ran 2 1 [.connect 1 [.send (oneByteMessage 1), .send (oneByteMessage 2), .close],
        .run 1 [], .run 1 [], .run 0 [], .run 1 []]).map (fun ℓ => ℓ.session.trace.closedBy) =
      some (some .closeSession) by decide +kernel)
  have h := worker_sends_in_order (by decide) (by decide) (Transition.reach_of_exec hℓ) (.inr hby)
  exact ⟨ℓ, hℓ, hby, (h.2.2.1 hby).2⟩

end Link
end EddyServer
