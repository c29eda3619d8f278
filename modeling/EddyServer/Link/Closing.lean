import EddyServer.Link.Direct
import EddyServer.MessageFilter.Codec

/-!
# Closing with bytes left to write

A session writes from two buffers: one is being sent, the other collects what is posted meanwhile
and is handed over when the write completes. `close` waits for the write that is outstanding, but
its completion finds the session closed and shuts the socket down: what the second buffer holds by
then is never handed to `async_write`. Where the second buffer is empty when `close` runs, nothing
is lost.
-/

namespace EddyServer

/-! ## The two buffers -/

namespace TCPSession

variable {Φ : Type} (F : MessageFilterInterface Φ)

/-- The bytes that the filter has made of the accepted batches. -/
def encoded (s : TCPSession Φ) : List UInt8 := (s.trace.batches.map Prod.snd).flatten

/-- For a batch that comes to an open session the filter announces a size that is not zero; if the
batch starts a write, that is the size of what the filter appends. -/
def Honest (s : TCPSession Φ) (messages : List NetMessage) : Prop :=
  s.closed = false → messages ≠ [] →
    (F.bytesWannaWrite s.msgFilter messages).1 ≠ 0 ∧
      -- A batch that waits in the second buffer is handed over whole, whatever was announced.
      (s.bufferSending = [] →
        (F.write (F.bytesWannaWrite s.msgFilter messages).2 messages
          s.bufferToBeSent).appended.length = (F.bytesWannaWrite s.msgFilter messages).1)

instance (s : TCPSession Φ) (messages : List NetMessage) : Decidable (Honest F s messages) :=
  inferInstanceAs (Decidable (_ → _ → _ ∧ (_ → _)))

/-- What is encoded has been handed over or waits in the second buffer, which is empty while nothing
is being sent. -/
structure Written (s : TCPSession Φ) : Prop where
  /-- The bytes of a batch are what the filter has written for it. -/
  written : ∀ b ∈ s.trace.batches, ∃ filter buffer, b.2 = (F.write filter b.1 buffer).appended
  whole : s.socket.handed ++ s.bufferToBeSent = s.encoded
  waiting : s.bufferSending = [] → s.bufferToBeSent = []

variable {F}

theorem Honest.announces {s : TCPSession Φ} {messages : List NetMessage}
    (h : Honest F s messages) : Announces F s messages :=
  fun hopen hne => (h hopen hne).1

theorem Written.same {s t : TCPSession Φ} (h : Written F s) (hbuffers : SameBuffers s t)
    (hbatches : t.trace.batches = s.trace.batches) : Written F t where
  written := by rw [hbatches]; exact h.written
  whole := by rw [hbuffers.handed, hbuffers.bufferToBeSent, encoded, hbatches]; exact h.whole
  waiting := by rw [hbuffers.bufferSending, hbuffers.bufferToBeSent]; exact h.waiting

theorem Written.move {s : TCPSession Φ} {found : Option Conn} {task : Task}
    {r : TCPSession Φ × List Effect} (h : Written F s) (hmove : Move s found task r) :
    Written F r.1 := by
  rcases hmove.writes with hsame | hnext
  · exact h.same hsame hmove.batches
  · refine ⟨by rw [hmove.batches]; exact h.written, ?_, fun _ => hnext.bufferToBeSent⟩
    rw [hnext.handed, hnext.bufferToBeSent, List.append_nil, encoded, hmove.batches]
    exact h.whole

theorem postMessageList_closed {s : TCPSession Φ} (h : s.closed = true)
    (messages : List NetMessage) : s.postMessageList F messages = some s := by
  rw [postMessageList, if_pos (by rw [h]; rfl)]

/-- Posting to an open session: the first batch of a busy period is handed over whole, the ones
behind it collect in the second buffer. -/
theorem Written.postMessageList {s t : TCPSession Φ} {messages : List NetMessage}
    (h : Written F s) (hhonest : Honest F s messages)
    (hrun : s.postMessageList F messages = some t) : Written F t := by
  unfold TCPSession.postMessageList at hrun
  dsimp only at hrun
  split_ifs at hrun with hskip hzero _ hidle
  · cases hrun
    exact h
  all_goals
    obtain ⟨hopen, hne⟩ : s.closed = false ∧ messages ≠ [] := by simpa using hskip
    obtain ⟨hpos, hlen⟩ := hhonest hopen hne
    have hwritten : ∀ bytes, (∃ filter buffer, bytes = (F.write filter messages buffer).appended) →
        ∀ b ∈ s.trace.batches ++ [(messages, bytes)],
          ∃ filter buffer, b.2 = (F.write filter b.1 buffer).appended := by
      intro bytes hbytes b hb
      rcases List.mem_append.mp hb with hold | hnew
      · exact h.written b hold
      · cases List.mem_singleton.mp hnew
        exact hbytes
  · exact absurd hzero hpos
  · have hsending : s.bufferSending = [] := List.isEmpty_iff.mp hidle
    have hwaiting := h.waiting hsending
    have hwhole := h.whole
    rw [hwaiting, List.append_nil] at hwhole
    replace hlen := hlen hsending
    rw [hwaiting] at hlen
    cases hrun
    refine ⟨hwritten _ ⟨_, _, rfl⟩, ?_, fun _ => hsending⟩
    simp only [Socket.asyncWrite, encoded, hwaiting, hsending, List.nil_append, List.append_nil]
    rw [List.take_of_length_le (Nat.le_of_eq hlen), hwhole]
    simp [encoded]
  · cases hrun
    refine ⟨hwritten _ ⟨_, _, rfl⟩, ?_, fun hnil => absurd (List.isEmpty_iff.mpr hnil) hidle⟩
    dsimp only
    rw [← List.append_assoc, h.whole]
    simp [encoded]

end TCPSession

/-- The default filter is honest about a batch whose encoding is shorter than 2³¹ bytes. -/
theorem MessageFilter.honest (host : ByteOrder) (junk : NetMessage.Junk)
    (s : TCPSession MessageFilter) {messages : List NetMessage} (hwf : ∀ m ∈ messages, m.WF)
    (hlen : (encode host messages).length < 2 ^ 31) :
    TCPSession.Honest (messageFilter host junk) s messages := by
  intro _ hne
  have hannounced : ((messageFilter host junk).bytesWannaWrite s.msgFilter messages).1 =
      (encode host messages).length := bytesWannaWrite_eq host hwf hlen
  have happended : ((messageFilter host junk).write
      ((messageFilter host junk).bytesWannaWrite s.msgFilter messages).2 messages
      s.bufferToBeSent).appended = encode host messages := by
    rw [encode_eq host hwf]
    exact appended_write host _ hwf
  refine ⟨?_, fun _ => by rw [happended, hannounced]⟩
  rw [hannounced, encode_eq host hwf]
  obtain ⟨m, rest, rfl⟩ := List.exists_cons_of_ne_nil hne
  simp [Framing.length_frame, networkHeader]

namespace Link

variable {Φ : Type} (F : MessageFilterInterface Φ)

/-! ## Graceful runs -/

/-- The filter is honest about the batch that the step posts, and `CloseSession` finds the second
buffer of an open session empty. -/
def Graceful (ℓ : Link Φ) : Act → Prop
  | .run t _ => ∀ task ∈ (ℓ.tasks t).head?, TCPSession.Honest F ℓ.session (ℓ.batch task) ∧
      (task.cause = some .closeSession → ℓ.session.closed = false → ℓ.session.bufferToBeSent = [])
  | _ => True

instance Graceful.decidable (ℓ : Link Φ) : (a : Act) → Decidable (Graceful F ℓ a)
  | .run t _ => inferInstanceAs (Decidable
      (∀ task ∈ (ℓ.tasks t).head?, TCPSession.Honest F ℓ.session (ℓ.batch task) ∧
        (task.cause = some .closeSession → ℓ.session.closed = false →
          ℓ.session.bufferToBeSent = [])))
  | .connect .. | .readDone .. | .writeDone _ | .timerDone | .keepAlive | .logic _ | .tick _ =>
    isTrue trivial

variable {F}

theorem Graceful.announced {ℓ : Link Φ} {a : Act} (h : Graceful F ℓ a) : Announced F ℓ a := by
  cases a with
  | run t scripts => exact fun task htask => (h task htask).1.announces
  | _ => trivial

/-- The write side of a link: a closed session has nothing left to write. -/
structure WritesOk (F : MessageFilterInterface Φ) (ℓ : Link Φ) : Prop where
  written : ℓ.session.Written F
  emptied : ℓ.session.trace.closedBy ≠ none → ℓ.session.bufferToBeSent = []
  shutdown : ℓ.session.socket.sendShutdown = true → ℓ.session.trace.closedBy ≠ none

theorem WritesOk.start (conn : Conn) (threads : Nat) (ioThread : ThreadIx) (filter : Φ)
    (keepAliveTime : Nat) : WritesOk F (start conn threads ioThread filter keepAliveTime) where
  written := ⟨nofun, rfl, fun _ => rfl⟩
  emptied hne := absurd rfl hne
  shutdown hs := nomatch hs

/-- A change that keeps what the invariant looks at. -/
theorem WritesOk.congr {ℓ ℓ' : Link Φ} (h : WritesOk F ℓ)
    (hbuffers : TCPSession.SameBuffers ℓ.session ℓ'.session)
    (hshutdown : ℓ'.session.socket.sendShutdown = ℓ.session.socket.sendShutdown)
    (htrace : ℓ'.session.trace = ℓ.session.trace) : WritesOk F ℓ' where
  written := h.written.same hbuffers (by rw [htrace])
  emptied := by rw [htrace, hbuffers.bufferToBeSent]; exact h.emptied
  shutdown := by rw [htrace, hshutdown]; exact h.shutdown

theorem WritesOk.session {ℓ ℓ' : Link Φ} (h : WritesOk F ℓ) (hsession : ℓ'.session = ℓ.session) :
    WritesOk F ℓ' :=
  h.congr (by rw [hsession]; exact ⟨rfl, rfl, rfl⟩) (by rw [hsession]) (by rw [hsession])

/-- A task of the session that is not disturbed: what closes it is `CloseSession`, and finds the
second buffer empty. -/
theorem WritesOk.move {ℓ : Link Φ} (h : WritesOk F ℓ) {task : Task}
    {r : TCPSession Φ × List Effect} {found : Option Conn}
    (hmove : TCPSession.Move ℓ.session found task r) (hmarked : ℓ.session.Marked)
    (hund : Undisturbed r.1) (hempty : task.cause = some .closeSession →
      ℓ.session.closed = false → ℓ.session.bufferToBeSent = []) :
    WritesOk F (ℓ.onSession r) := by
  rw [onSession_eq]
  have hmarked' := hmove.closed hmarked
  have hnil : ℓ.session.bufferToBeSent = [] → r.1.bufferToBeSent = [] := by
    intro hb
    rcases hmove.writes with hsame | hnext
    · rw [hsame.bufferToBeSent, hb]
    · exact hnext.bufferToBeSent
  refine ⟨h.written.move hmove, fun hne => hnil ?_, fun hs => ?_⟩
  · rcases hmove.closedBy with hsame | ⟨hnone, hset⟩
    · exact h.emptied fun hn => hne (hsame.trans hn)
    · have hopen : ℓ.session.closed = false := by rw [hmarked, hnone]; rfl
      rcases hund with hn | hclose
      · exact absurd hn hne
      · exact hempty (hset.symm.trans hclose) hopen
  · rcases hmove.shutdown hs with hbefore | hclosed
    · rcases hmove.closedBy with hsame | ⟨hnone, -⟩
      · dsimp only
        rw [hsame]
        exact h.shutdown hbefore
      · exact absurd hnone (h.shutdown hbefore)
    · intro hn
      rw [TCPSession.Marked, hclosed, hn] at hmarked'
      cases hmarked'

/-- Posting a batch. -/
theorem WritesOk.posts {ℓ : Link Φ} (h : WritesOk F ℓ) {messages : List NetMessage}
    {s : TCPSession Φ} (hposts : TCPSession.Posts F ℓ.session messages s)
    (hst : Started ℓ) (hhonest : TCPSession.Honest F ℓ.session messages) :
    WritesOk F { ℓ with session := s } := by
  cases hc : ℓ.session.closed with
  | true =>
      obtain rfl : ℓ.session = s :=
        Option.some.inj ((TCPSession.postMessageList_closed hc messages).symm.trans hposts.run)
      exact h
  | false =>
      have hopen : s.trace.closedBy = none := by
        rw [hposts.closedBy]
        have hm := hst.marked
        rw [TCPSession.Marked, hc] at hm
        simpa using hm.symm
      have hshut : ℓ.session.socket.sendShutdown ≠ true :=
        fun hs => h.shutdown hs (hposts.closedBy.symm.trans hopen)
      refine ⟨h.written.postMessageList hhonest hposts.run, fun hne => absurd hopen hne, fun hs => ?_⟩
      exact absurd (hposts.shutdown ▸ hs) hshut

theorem WritesOk.step {ℓ ℓ' : Link Φ} {a : Act} (h : WritesOk F ℓ) (hlife : Lifecycle ℓ)
    (hund : Undisturbed ℓ'.session) (hgraceful : Graceful F ℓ a) (hstep : Step F ℓ a ℓ') :
    WritesOk F ℓ' := by
  cases hstep with
  | connect id script hidle hopening =>
      exact h.session (calls_callback (.inr ⟨hopening.threadId, hlife.ioThread_lt⟩) _ script).session
  | init rest r hop _ hopens =>
      rw [onSession_eq]
      exact h.congr hopens.buffers hopens.shutdown hopens.trace
  | complete task s _ hc =>
      have hshutdown := hc.shutdown
      have hhanded := hc.handed
      obtain ⟨k, timer, rfl⟩ := hc.session
      rw [post_eq]
      exact h.congr ⟨hhanded, rfl, rfl⟩ hshutdown rfl
  | logic script => exact h.session (calls_runScript hlife.callable script).session
  | tick => exact h.session rfl
  | run t task rest scripts ht hpopped hran =>
      have hcallable := hpopped.lifecycle.callable
      have hpop : WritesOk F (ℓ.popped t rest) := h.session rfl
      have hhead : task ∈ (ℓ.tasks t).head? := by rw [ht]; rfl
      obtain ⟨hhonest, hempty⟩ := hgraceful task hhead
      cases hran with
      | move r _ _ hst hmove =>
          exact hpop.move hmove hst.marked (by rw [onSession_eq] at hund; exact hund) hempty
      | unqueued => exact hpop
      | unmapped => exact hpop
      | flush scripts' =>
          have hdeliver := (calls_deliver hcallable (ℓ.popped t rest).session.messagesReceived
            scripts').session
          exact (hpop.session hdeliver).congr ⟨rfl, rfl, rfl⟩ rfl rfl
      | deliver id messages scripts' =>
          exact hpop.session (calls_deliver hcallable messages scripts').session
      | dispose id script => exact hpop.session (calls_callback hcallable _ script).session
      | pack => exact hpop.session (by rw [onHandler_eq])
      | post id messages s _ hst hposts => exact hpop.posts hposts hst hhonest
      | direct s _ hst hposts => exact (hpop.posts hposts hst hhonest).session rfl

/-! ## Nothing is lost -/

/-- The handler has sent nothing after its first `close`. -/
def ClosesLast (ℓ : Link Φ) : Prop := sentBeforeClose ℓ.handler.calls = sends ℓ.handler.calls

theorem sends_of_append {cs ds : List Call} (h : sentBeforeClose (cs ++ ds) = sends (cs ++ ds)) :
    sentBeforeClose cs = sends cs := by
  by_cases hc : .close ∈ cs
  · rw [sentBeforeClose_append hc, sends_append] at h
    exact (sentBeforeClose_isFront cs).eq_of_length_le (by rw [h]; simp)
  · exact sentBeforeClose_of_no_close hc

theorem closesLast_back {ℓ ℓ' : Link Φ} {a : Act} (h : Lifecycle ℓ)
    (hstep : step F ℓ a = some ℓ') (hlast : ClosesLast ℓ') : ClosesLast ℓ := by
  obtain ⟨more, hmore⟩ := (Step.evolves h (h.cases hstep)).calls
  unfold ClosesLast at hlast
  rw [hmore] at hlast
  exact sends_of_append hlast

/-- On either kind of thread: before the `close` there is no batch to overtake, after it there is
nothing left to hand over. -/
theorem directOk_of_closesLast {ℓ : Link Φ} (h : Lifecycle ℓ) (hok : OutboundOk ℓ)
    (hlast : ClosesLast ℓ) (a : Act) : DirectOk ℓ a := by
  intro scripts rest ha ht
  by_cases hmain : ℓ.session.ioThread = mainThread
  · by_cases hc : .close ∈ ℓ.handler.calls
    · exact .inr (.inl (hok.spent _ (if_pos hc) hlast.symm))
    · have hmark : ℓ.outbound.mark = none := if_neg hc
      exact .inr (.inr ⟨hmark, by rw [hok.unbatched hmain hmark]; rfl⟩)
  · exact directOk_of_worker h hmain a scripts rest ha ht

/-- **A close loses nothing where it finds the second buffer empty.** In every run of a link whose
steps are graceful, whose handler sends nothing after its first `close` and whose session is closed
by nothing but `CloseSession`: when the socket has been shut down, all that was sent before the
`close` has been encoded, in order, and every byte of it has been handed to `async_write`. -/
theorem close_loses_nothing {conn : Conn} {threads : Nat} {ioThread : ThreadIx} {filter : Φ}
    {keepAliveTime : Nat} {ℓ : Link Φ} (hio : ioThread < threads)
    (hrun : Transition.Run (step F) (Graceful F)
      (start conn threads ioThread filter keepAliveTime) ℓ)
    (hund : Undisturbed ℓ.session) (hlast : ClosesLast ℓ)
    (hshutdown : ℓ.session.socket.sendShutdown = true) :
    ℓ.session.accepted = sentBeforeClose ℓ.handler.calls ∧
      (∀ b ∈ ℓ.session.trace.batches, ∃ filter buffer,
        b.2 = (F.write filter b.1 buffer).appended) ∧
      ℓ.session.socket.handed = ℓ.session.encoded := by
  obtain ⟨-, hok, hacc, hwrites⟩ := hrun.invariant_of_final (J := Alive ioThread)
    (P := fun ℓ => Undisturbed ℓ.session ∧ ClosesLast ℓ)
    (I := fun ℓ => OutboundOk ℓ ∧ ℓ.session.accepted = ℓ.session.trace.posted ∧ WritesOk F ℓ)
    (fun hj hst => hj.step hst)
    (fun hj hst hp => ⟨undisturbed_back hj.lifecycle hst hp.1, closesLast_back hj.lifecycle hst hp.2⟩)
    (fun hp hj hi hok hst =>
      have hs := hj.lifecycle.cases hst
      have hlast := closesLast_back hj.lifecycle hst hp.2
      ⟨hi.1.step hj.lifecycle hp.1 (directOk_of_closesLast hj.lifecycle hi.1 hlast _) hst,
        accepted_step hj.lifecycle hs hok.announced hi.2.1,
        hi.2.2.step hj.lifecycle hp.1 hok hs⟩)
    (.start hio conn filter keepAliveTime)
    ⟨.start conn threads ioThread filter keepAliveTime, rfl,
      .start conn threads ioThread filter keepAliveTime⟩ ⟨hund, hlast⟩
  have hclosed := hwrites.shutdown hshutdown
  refine ⟨hacc.trans (hok.posted.2.2 hclosed).2, hwrites.written.written, ?_⟩
  have hwhole := hwrites.written.whole
  rwa [hwrites.emptied hclosed, List.append_nil] at hwhole

/-- What a run has left of the write side. -/
structure Shut where
  closedBy : Option CloseCause
  sendShutdown : Bool
  calls : List Call
  accepted : List NetMessage
  handed : List UInt8
  encoded : List UInt8
  deriving DecidableEq

def shut (ℓ : Link MessageFilter) : Shut :=
  { closedBy := ℓ.session.trace.closedBy
    sendShutdown := ℓ.session.socket.sendShutdown
    calls := ℓ.handler.calls
    accepted := ℓ.session.accepted
    handed := ℓ.session.socket.handed
    encoded := ℓ.session.encoded }

/-- The condition met: one message, and a `close` that has to wait for its write. -/
theorem close_loses_nothing_one_message :
    ∃ ℓ, ran 2 1 [.connect 1 [.send (oneByteMessage 1), .close], .run 1 [], .run 1 [], .run 1 [],
        .writeDone .success, .run 1 []] = some ℓ ∧
      ℓ.session.socket.sendShutdown = true ∧ ℓ.session.socket.handed = ℓ.session.encoded := by
  obtain ⟨ℓ, hℓ, hshut⟩ := Option.map_eq_some_iff.mp (show
    (ran 2 1 [.connect 1 [.send (oneByteMessage 1), .close], .run 1 [], .run 1 [], .run 1 [],
        .writeDone .success, .run 1 []]).map shut =
      some ⟨some .closeSession, true, [.send (oneByteMessage 1), .close], [oneByteMessage 1],
        [0, 1, 1], [0, 1, 1]⟩ by decide +kernel)
  obtain ⟨hby, hshutdown, hcalls, -, -, -⟩ := Shut.mk.inj hshut
  have hlast : ClosesLast ℓ := by
    rw [ClosesLast, hcalls]
    decide
  exact ⟨ℓ, hℓ, hshutdown, (close_loses_nothing (by decide)
    (Transition.run_of_exec hℓ (by decide +kernel)) (.inr hby) hlast hshutdown).2.2⟩

/-- The second message waits in the second buffer when `CloseSession` runs. The socket is shut down
without it. -/
theorem close_drops_second_buffer :
    ∃ ℓ, ran 2 1 [.connect 1 [.send (oneByteMessage 1)], .run 1 [], .run 0 [], .run 1 [],
        .logic [.send (oneByteMessage 2), .close], .run 1 [], .run 1 [],
        .writeDone .success, .run 1 []] = some ℓ ∧
      Undisturbed ℓ.session ∧ ClosesLast ℓ ∧ ℓ.session.socket.sendShutdown = true ∧
      sentBeforeClose ℓ.handler.calls = [oneByteMessage 1, oneByteMessage 2] ∧
      ℓ.session.encoded = [0, 1, 1, 0, 1, 2] ∧ ℓ.session.socket.handed = [0, 1, 1] := by
  obtain ⟨ℓ, hℓ, hshut⟩ := Option.map_eq_some_iff.mp (show
    (ran 2 1 [.connect 1 [.send (oneByteMessage 1)], .run 1 [], .run 0 [], .run 1 [],
        .logic [.send (oneByteMessage 2), .close], .run 1 [], .run 1 [],
        .writeDone .success, .run 1 []]).map shut =
      some ⟨some .closeSession, true,
        [.send (oneByteMessage 1), .send (oneByteMessage 2), .close],
        [oneByteMessage 1, oneByteMessage 2], [0, 1, 1], [0, 1, 1, 0, 1, 2]⟩ by decide +kernel)
  obtain ⟨hby, hshutdown, hcalls, -, hhanded, hencoded⟩ := Shut.mk.inj hshut
  have hlast : ClosesLast ℓ := by
    rw [ClosesLast, hcalls]
    decide
  refine ⟨ℓ, hℓ, .inr hby, hlast, hshutdown, ?_, hencoded, hhanded⟩
  rw [hcalls]
  decide

end Link
end EddyServer
