import EddyServer.Link.Outbound

/-!
# The two send paths

On a worker the buffer of a handler reaches the session in batches that queue up behind each other.
On the main thread `SendMessageListDirectly` hands over what the buffer holds when the task *runs*,
while `close` moves the buffer into a batch of its own: messages sent after a `close` can overtake
the batch and the close request. Where they do not, the two paths accept the same messages.
-/

namespace EddyServer
namespace Link

open Channel Packet

variable {Φ : Type} (F : MessageFilterInterface Φ)

/-! ## The conditions -/

/-- What a task passes to `post_message_list`. -/
def batch (ℓ : Link Φ) : Task → List NetMessage
  | .sendMessageListToSession _ messages => messages
  | .handlerSendMessageListDirectly => ℓ.handler.messagesToBeSent
  | _ => []

/-- The filter announces a size for the batch that the step passes to the open session. -/
def Announced (ℓ : Link Φ) : Act → Prop
  | .run t _ => ∀ task ∈ (ℓ.tasks t).head?, TCPSession.Announces F ℓ.session (ℓ.batch task)
  | _ => True

/-- `SendMessageListDirectly` does not overtake: it finds nothing in the buffer, or a session that
has been closed, or no batch and no close request of its handler in the queue. -/
def InTurn (ℓ : Link Φ) : Act → Prop
  | .run t _ => ∀ task ∈ (ℓ.tasks t).head?, task = .handlerSendMessageListDirectly →
      ℓ.handler.messagesToBeSent = [] ∨ ℓ.session.closed = true ∨
        ∀ task ∈ ℓ.tasks t, outPacket task = none
  | _ => True

instance (s : TCPSession Φ) (messages : List NetMessage) :
    Decidable (TCPSession.Announces F s messages) :=
  inferInstanceAs (Decidable (_ → _ → _))

instance Announced.decidable (ℓ : Link Φ) : (a : Act) → Decidable (Announced F ℓ a)
  | .run t _ => inferInstanceAs (Decidable
      (∀ task ∈ (ℓ.tasks t).head?, TCPSession.Announces F ℓ.session (ℓ.batch task)))
  | .connect .. | .readDone .. | .writeDone _ | .timerDone | .keepAlive | .logic _ | .tick _ =>
    isTrue trivial

instance InTurn.decidable (ℓ : Link Φ) : (a : Act) → Decidable (InTurn ℓ a)
  | .run t _ => inferInstanceAs (Decidable
      (∀ task ∈ (ℓ.tasks t).head?, task = .handlerSendMessageListDirectly →
        ℓ.handler.messagesToBeSent = [] ∨ ℓ.session.closed = true ∨
          ∀ task ∈ ℓ.tasks t, outPacket task = none))
  | .connect .. | .readDone .. | .writeDone _ | .timerDone | .keepAlive | .logic _ | .tick _ =>
    isTrue trivial

variable {F}

/-- On the main thread, a hand-over in turn is one that the channel allows. -/
theorem directOk_of_inTurn {ℓ : Link Φ} {a : Act} (h : Lifecycle ℓ) (hok : OutboundOk ℓ)
    (hmain : ℓ.session.ioThread = mainThread) (hturn : InTurn ℓ a) : DirectOk ℓ a := by
  rintro scripts rest rfl ht
  have hhead : Task.handlerSendMessageListDirectly ∈ (ℓ.tasks mainThread).head? := by
    rw [ht]
    rfl
  rcases hturn _ hhead rfl with hb | hc | hnone
  · exact .inr (.inl hb)
  · -- the task has been taken from the queue of a started session
    have hst := (h.popped ht nofun).started hmain.symm
    have hby : ℓ.session.trace.closedBy ≠ none := hst.closedBy_of_closed hc
    exact .inl (Option.isNone_eq_false_iff.mpr (Option.isSome_iff_ne_none.mpr hby))
  · have hwire : ℓ.outbound.wire = [] := by
      show (ℓ.tasks ℓ.session.ioThread).filterMap outPacket = []
      rw [hmain]
      exact List.filterMap_eq_nil_iff.mpr hnone
    cases hm : ℓ.outbound.mark with
    | none => exact .inr (.inr ⟨hm, by rw [hwire]; rfl⟩)
    | some l =>
        left
        by_contra hopen
        have hmem := ((hok.upToMark.marked l hm).2.1 (by simpa using hopen)).1
        rw [hwire] at hmem
        cases hmem

/-! ## What is posted is accepted -/

theorem accepted_step {ℓ ℓ' : Link Φ} {a : Act} (h : Lifecycle ℓ) (hstep : Step F ℓ a ℓ')
    (hann : Announced F ℓ a) (hacc : ℓ.session.accepted = ℓ.session.trace.posted) :
    ℓ'.session.accepted = ℓ'.session.trace.posted := by
  have hsame : ∀ {s : TCPSession Φ}, s = ℓ.session → s.accepted = s.trace.posted := by
    rintro s rfl
    exact hacc
  cases hstep with
  | connect id script hidle hopening =>
      exact hsame (calls_callback (.inr ⟨hopening.threadId, h.ioThread_lt⟩) _ script).session
  | init rest r hop _ hopens =>
      rw [onSession_eq]
      dsimp only
      rw [TCPSession.accepted, hopens.trace]
      exact hacc
  | complete task s _ hc =>
      obtain ⟨k, timer, rfl⟩ := hc.session
      exact hacc
  | logic script => exact hsame (calls_runScript h.callable script).session
  | tick => exact hacc
  | run t task rest scripts ht hpopped hran =>
      have hcallable := hpopped.lifecycle.callable
      have hhead : task ∈ (ℓ.tasks t).head? := by rw [ht]; rfl
      have hannounces := hann task hhead
      cases hran with
      | move r _ _ _ hmove =>
          rw [onSession_eq]
          dsimp only
          rw [TCPSession.accepted, hmove.batches, hmove.posted]
          exact hacc
      | unqueued => exact hacc
      | unmapped => exact hacc
      | flush scripts' =>
          have hdeliver := (calls_deliver hcallable (ℓ.popped t rest).session.messagesReceived
            scripts').session
          dsimp only
          rw [TCPSession.accepted, hdeliver]
          exact hacc
      | deliver id messages scripts' =>
          exact hsame (calls_deliver hcallable messages scripts').session
      | dispose id script => exact hsame (calls_callback hcallable _ script).session
      | pack => exact hsame (by rw [onHandler_eq]; rfl)
      | post id messages s _ _ hposts =>
          -- The filter announces what it writes, so a batch that is posted is accepted.
          have hposted : s.accepted = _ := hposts.accepted hannounces
          show s.accepted = s.trace.posted
          rw [hposted, hposts.posted]
          exact congrArg (fun l => if ℓ.session.closed = true then l else l ++ messages) hacc
      | direct s _ _ hposts =>
          have hposted : s.accepted = _ := hposts.accepted hannounces
          show s.accepted = s.trace.posted
          rw [hposted, hposts.posted]
          exact congrArg (fun l => if ℓ.session.closed = true then l
            else l ++ ℓ.handler.messagesToBeSent) hacc

/-! ## Drained links -/

/-- When nothing is left on the queues, all that was sent before the first `close` has been posted. -/
theorem OutboundOk.posted_of_drained {ℓ : Link Φ} (hok : OutboundOk ℓ)
    (hdrained : ∀ t, ℓ.tasks t = []) :
    ℓ.session.trace.posted = sentBeforeClose ℓ.handler.calls := by
  cases hby : ℓ.session.trace.closedBy with
  | some cause => exact (hok.posted.2.2 (by rw [hby]; exact Option.some_ne_none _)).2
  | none =>
      have hwire : ℓ.outbound.wire = [] := by
        show (ℓ.tasks _).filterMap outPacket = []
        rw [hdrained]
        rfl
      have hopen : ℓ.outbound.isOpen = true := by
        show ℓ.session.trace.closedBy.isNone = true
        rw [hby]
        rfl
      have hbuffer : ℓ.handler.messagesToBeSent = [] := by
        by_contra hne
        have hmem := hok.pending hne fun _ => hby
        rw [hdrained] at hmem
        cases hmem
      -- Open at the end: a `close` would still be on the wire.
      by_cases hc : .close ∈ ℓ.handler.calls
      · obtain ⟨hmem, -⟩ := (hok.upToMark.marked _ (if_pos hc)).2.1 hopen
        rw [hwire] at hmem
        cases hmem
      · obtain ⟨-, -, hsent⟩ := hok.upToMark.unmarked (if_neg hc)
        rw [hwire] at hsent
        rw [sentBeforeClose_of_no_close hc]
        show ℓ.session.trace.posted = ℓ.outbound.sent
        rw [← hsent]
        show _ = ℓ.session.trace.posted ++ [] ++ ℓ.handler.messagesToBeSent
        rw [hbuffer, List.append_nil, List.append_nil]

/-- A link that is not disturbed, on whose queues nothing is left, has accepted what was sent before
the first `close`. -/
theorem accepted_of_drained {ok : Link Φ → Act → Prop} {conn : Conn} {threads : Nat}
    {ioThread : ThreadIx} {filter : Φ} {keepAliveTime : Nat} {ℓ : Link Φ}
    (hio : ioThread < threads) (hann : ∀ ℓ a, ok ℓ a → Announced F ℓ a)
    (hdirect : ∀ ℓ a, Alive ioThread ℓ → OutboundOk ℓ → ok ℓ a → DirectOk ℓ a)
    (hrun : Transition.Run (step F) ok (start conn threads ioThread filter keepAliveTime) ℓ)
    (hund : Undisturbed ℓ.session) (hdrained : ∀ t, ℓ.tasks t = []) :
    ℓ.session.accepted = sentBeforeClose ℓ.handler.calls := by
  obtain ⟨halive, hok, hacc⟩ := hrun.invariant_of_final (J := Alive ioThread)
    (P := fun ℓ => Undisturbed ℓ.session)
    (I := fun ℓ => OutboundOk ℓ ∧ ℓ.session.accepted = ℓ.session.trace.posted)
    (fun hj hst => hj.step hst) (fun hj hst => undisturbed_back hj.lifecycle hst)
    (fun hp hj hi hok hst =>
      ⟨hi.1.step hj.lifecycle hp (hdirect _ _ hj hi.1 hok) hst,
        accepted_step hj.lifecycle (hj.lifecycle.cases hst) (hann _ _ hok) hi.2⟩)
    (.start hio conn filter keepAliveTime)
    ⟨.start conn threads ioThread filter keepAliveTime, rfl⟩ hund
  rw [hacc]
  exact hok.posted_of_drained hdrained

/-- **The two send paths agree when nothing overtakes.** Take a link on a worker and a link on the
main thread whose handlers make the same calls, both closed by nothing but `CloseSession` and with
nothing left in any queue. If every `SendMessageListDirectly` runs in turn, and the filters announce
a size for every batch, both sessions have accepted what was sent before the first `close`, in
order. -/
theorem main_agrees_with_worker {conn conn' : Conn} {threads threads' : Nat} {ioThread : ThreadIx}
    {filter filter' : Φ} {keepAliveTime keepAliveTime' : Nat} {worker main : Link Φ}
    (hio : ioThread < threads) (hworker : ioThread ≠ mainThread) (hmain : mainThread < threads')
    (hrun : Transition.Run (step F) (Announced F)
      (start conn threads ioThread filter keepAliveTime) worker)
    (hrun' : Transition.Run (step F) (fun ℓ a => Announced F ℓ a ∧ InTurn ℓ a)
      (start conn' threads' mainThread filter' keepAliveTime') main)
    (hund : Undisturbed worker.session) (hund' : Undisturbed main.session)
    (hdrained : ∀ t, worker.tasks t = []) (hdrained' : ∀ t, main.tasks t = [])
    (hcalls : main.handler.calls = worker.handler.calls) :
    main.session.accepted = worker.session.accepted ∧
      main.session.accepted = sentBeforeClose main.handler.calls := by
  have hw := accepted_of_drained hio (fun _ _ hok => hok)
    (fun _ a hj _ _ => directOk_of_worker hj.lifecycle (hj.ioThread ▸ hworker) a) hrun hund hdrained
  have hm := accepted_of_drained hmain (fun _ _ hok => hok.1)
    (fun _ a hj hi hok => directOk_of_inTurn hj.lifecycle hi hj.ioThread hok.2) hrun' hund' hdrained'
  exact ⟨by rw [hm, hw, hcalls], hm⟩

/-! ### Runs -/

/-- What a run has left. -/
structure Left where
  closedBy : Option CloseCause
  mainQueue : List Task
  ioQueue : List Task
  calls : List Call
  accepted : List NetMessage
  deriving DecidableEq

def left (ioThread : ThreadIx) (ℓ : Link MessageFilter) : Left :=
  { closedBy := ℓ.session.trace.closedBy
    mainQueue := ℓ.tasks mainThread
    ioQueue := ℓ.tasks ioThread
    calls := ℓ.handler.calls
    accepted := ℓ.session.accepted }

theorem of_ran {threads : Nat} {ioThread : ThreadIx} {labels : List Act} {calls : List Call}
    {messages : List NetMessage} (hio : ioThread < threads)
    (h : (ran threads ioThread labels).map (left ioThread) =
      some ⟨some .closeSession, [], [], calls, messages⟩) :
    ∃ ℓ, ran threads ioThread labels = some ℓ ∧ Undisturbed ℓ.session ∧ (∀ t, ℓ.tasks t = []) ∧
      ℓ.handler.calls = calls ∧ ℓ.session.accepted = messages := by
  obtain ⟨ℓ, hℓ, hleft⟩ := Option.map_eq_some_iff.mp h
  obtain ⟨hby, hmain, hqueue, hcalls, haccepted⟩ := Left.mk.inj hleft
  have halive : Alive ioThread ℓ :=
    (Transition.reach_of_exec hℓ).invariant (fun hj _ hst => hj.step hst)
      (.start hio 0 (MessageFilter.new 0) 0)
  refine ⟨ℓ, hℓ, .inr hby, halive.lifecycle.drained hmain ?_, hcalls, haccepted⟩
  rw [halive.ioThread]
  exact hqueue

/-- The condition met: a message and a `close` in `on_connected`. -/
theorem main_agrees_with_worker_one_message :
    ∃ worker main,
      ran 2 1 [.connect 1 [.send (oneByteMessage 1), .close],
        .run 1 [], .run 1 [], .run 0 [], .run 1 []] = some worker ∧
      ran 1 0 [.connect 1 [.send (oneByteMessage 1), .close],
        .run 0 [], .run 0 [], .run 0 [], .run 0 []] = some main ∧
      main.session.accepted = worker.session.accepted := by
  obtain ⟨worker, hw, hund, hdrained, hcalls, -⟩ := of_ran (by decide) (show
    (ran 2 1 [.connect 1 [.send (oneByteMessage 1), .close],
      .run 1 [], .run 1 [], .run 0 [], .run 1 []]).map (left 1) =
      some ⟨some .closeSession, [], [], [.send (oneByteMessage 1), .close], [oneByteMessage 1]⟩
    by decide +kernel)
  obtain ⟨main, hm, hund', hdrained', hcalls', -⟩ := of_ran (by decide) (show
    (ran 1 0 [.connect 1 [.send (oneByteMessage 1), .close],
      .run 0 [], .run 0 [], .run 0 [], .run 0 []]).map (left 0) =
      some ⟨some .closeSession, [], [], [.send (oneByteMessage 1), .close], [oneByteMessage 1]⟩
    by decide +kernel)
  exact ⟨worker, main, hw, hm, (main_agrees_with_worker (by decide) (by decide) (by decide)
    (Transition.run_of_exec hw (by decide +kernel)) (Transition.run_of_exec hm (by decide +kernel))
    hund hund' hdrained hdrained' (hcalls'.trans hcalls.symm)).1⟩

/-- A message sent after `close` overtakes the one sent before it, and the close request. -/
theorem direct_path_overtakes :
    ∃ worker main : Link MessageFilter,
      ran 2 1 [.connect 1 [.send (oneByteMessage 1), .close, .send (oneByteMessage 2)],
        .run 1 [], .run 1 [], .run 0 [], .run 0 [], .run 1 [], .run 1 []] = some worker ∧
      ran 1 0 [.connect 1 [.send (oneByteMessage 1), .close, .send (oneByteMessage 2)],
        .run 0 [], .run 0 [], .run 0 [], .run 0 [], .run 0 []] = some main ∧
      Undisturbed worker.session ∧ Undisturbed main.session ∧
      (∀ t, worker.tasks t = []) ∧ (∀ t, main.tasks t = []) ∧
      main.handler.calls = worker.handler.calls ∧
      worker.session.accepted = [oneByteMessage 1] ∧
      main.session.accepted = [oneByteMessage 2, oneByteMessage 1] := by
  obtain ⟨worker, hw, hund, hdrained, hcalls, haccepted⟩ := of_ran (by decide) (show
    (ran 2 1 [.connect 1 [.send (oneByteMessage 1), .close, .send (oneByteMessage 2)],
      .run 1 [], .run 1 [], .run 0 [], .run 0 [], .run 1 [], .run 1 []]).map (left 1) =
      some ⟨some .closeSession, [], [],
        [.send (oneByteMessage 1), .close, .send (oneByteMessage 2)], [oneByteMessage 1]⟩
    by decide +kernel)
  obtain ⟨main, hm, hund', hdrained', hcalls', haccepted'⟩ := of_ran (by decide) (show
    (ran 1 0 [.connect 1 [.send (oneByteMessage 1), .close, .send (oneByteMessage 2)],
      .run 0 [], .run 0 [], .run 0 [], .run 0 [], .run 0 []]).map (left 0) =
      some ⟨some .closeSession, [], [],
        [.send (oneByteMessage 1), .close, .send (oneByteMessage 2)],
        [oneByteMessage 2, oneByteMessage 1]⟩
    by decide +kernel)
  exact ⟨worker, main, hw, hm, hund, hund', hdrained, hdrained', hcalls'.trans hcalls.symm,
    haccepted, haccepted'⟩

end Link
end EddyServer
