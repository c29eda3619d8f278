import EddyServer.Link.Alone
import EddyServer.Link.Closing
import EddyServer.Link.Inbound
import EddyServer.Link.Reading
import EddyServer.Solo.Decoding

/-!
# What a link carries

From the bytes of its socket to the callbacks of its handler, and from the calls of its handler to
the bytes of its socket, a link with the default filter loses, repeats and reorders nothing in
between. Whatever closes it, what comes out at either end is the front part of what goes in.
-/

namespace EddyServer
namespace Link

open Framing MessageFilter
open NetMessage (Junk)

variable {host : ByteOrder} {junk : Junk} {P : List UInt8 → Prop}

/-! ## From the socket to the handler -/

/-- What `P` says of the bytes that have been delivered stays true when a read completes. -/
def Carries {Φ : Type} (P : List UInt8 → Prop) (ℓ : Link Φ) : Act → Prop
  | .readDone i .success data => ∀ op ∈ ℓ.session.socket.reads[i]?, op.handler = .handleRead →
      ℓ.session.closed = true ∨ P (ℓ.session.trace.delivered ++ data)
  | _ => True

instance {Φ : Type} {P : List UInt8 → Prop} [DecidablePred P] (ℓ : Link Φ) :
    (a : Act) → Decidable (Carries P ℓ a)
  | .readDone i .success data => inferInstanceAs (Decidable
      (∀ op ∈ ℓ.session.socket.reads[i]?, op.handler = .handleRead →
        ℓ.session.closed = true ∨ P (ℓ.session.trace.delivered ++ data)))
  | .readDone _ .eof _ | .readDone _ .operationAborted _ | .readDone _ .other _ | .connect ..
  | .run .. | .writeDone _ | .timerDone | .keepAlive | .logic _ | .tick _ => isTrue trivial

/-- The read side of a link. `P` is what is known of the bytes that its peer has sent. -/
structure Receives (P : List UInt8 → Prop) (ℓ : Link MessageFilter) : Prop where
  framed : ℓ.session.trace.delivered =
    consumed networkHeader ℓ.session.msgFilter.pending ℓ.parsed
  wf : ∀ m ∈ ℓ.session.trace.decoded, m.WF
  short : ∀ b ∈ ℓ.parsed, b ≠ [] ∧ b.length < networkHeader.bound
  carried : P ℓ.session.trace.delivered
  queued : ℓ.session.closed = false → ∀ data,
    .handleRead .success data ∈ ℓ.tasks ℓ.session.ioThread →
      data.length = ℓ.session.msgFilter.bytesWannaRead

theorem Accompanied.receives {conn : Conn} {ioThread : ThreadIx} {filter : MessageFilter}
    {keepAliveTime : Nat} {ℓ : Link MessageFilter} (hfilter : AtBoundary filter) (hP : P [])
    (h : Accompanied (messageFilter host junk) (Solo.Carries P) conn ioThread filter keepAliveTime
      ℓ) : Receives P ℓ := by
  rw [hfilter.eq_new] at h
  cases h.apart with
  | fresh hfresh =>
      have htrace : ℓ.session.trace = SessionTrace.new := by
        rw [hfresh.session]
        rfl
      have hparsed : ℓ.parsed = [] := by
        rw [parsed, htrace]
        rfl
      refine ⟨?_, ?_, ?_, ?_, fun _ data hmem => ?_⟩
      · rw [hparsed, htrace, hfresh.session]
        rfl
      · rw [htrace]
        nofun
      · rw [hparsed]
        nofun
      · rw [htrace]
        exact hP
      · rw [hfresh.session] at hmem
        cases hfresh.tasks _ hmem
  | alone clock σ _ halone hrun =>
      obtain ⟨-, hdecodes⟩ := hrun.invariant (I := fun σ => Solo.Lives σ ∧ Solo.Decodes P σ)
        (fun hi hok hstep =>
          ⟨hi.1.step (Solo.event_of_step hstep), hi.2.step hi.1 hok hstep⟩)
        ⟨.start conn clock ioThread (MessageFilter.new filter.header) keepAliveTime ℓ.id,
          .start hP conn clock ioThread filter.header keepAliveTime ℓ.id⟩
      have hsession := halone.session
      have hparsed : σ.parsed = ℓ.parsed := by
        rw [Solo.parsed, hsession]
        rfl
      refine ⟨?_, ?_, ?_, ?_, fun hopen data hmem => ?_⟩
      · rw [← hparsed, ← hsession]
        exact hdecodes.framed
      · rw [← hsession]
        exact hdecodes.wf
      · rw [← hparsed]
        exact hdecodes.short
      · rw [← hsession]
        exact hdecodes.carried
      · rw [← hsession] at hopen ⊢
        refine (hdecodes.queued hopen data ?_).1.2
        rw [halone.completions]
        exact List.mem_filter.mpr ⟨hmem, rfl⟩

/-- What a link receives, in every run whose peer sends what `P` allows. -/
theorem Receives.of_run {conn : Conn} {threads : Nat} {ioThread : ThreadIx}
    {filter : MessageFilter} {keepAliveTime : Nat} {ℓ : Link MessageFilter}
    (hio : ioThread < threads) (hfilter : AtBoundary filter) (hP : P [])
    (hrun : Transition.Run (Link.step (messageFilter host junk)) (Carries P)
      (.start conn threads ioThread filter keepAliveTime) ℓ) : Receives P ℓ := by
  refine (Accompanied.of_run hio ?_ hrun).receives hfilter hP
  rintro ℓ σ a b hok halone hmirrors i data rfl
  obtain rfl : a = .readDone i .success data := hmirrors
  rw [halone.session]
  exact hok

theorem carries_true {Φ : Type} (ℓ : Link Φ) (a : Act) : Carries (fun _ => True) ℓ a := by
  cases a with
  | readDone i error data =>
      cases error with
      | success => exact fun _ _ _ => .inr trivial
      | _ => trivial
  | _ => trivial

/-- Every decoded message has a body that its header could announce. -/
theorem Receives.decoded {ℓ : Link MessageFilter} (h : Receives P ℓ) :
    ∀ m ∈ ℓ.session.trace.decoded, m.WF ∧ m.empty = false ∧ m.readable ≤ 65535 := by
  intro m hm
  have hwf := h.wf m hm
  obtain ⟨hne, hlt⟩ := h.short m.content (List.mem_map_of_mem hm)
  have hpos := List.length_pos_iff.mpr hne
  rw [hwf.length_content] at hpos hlt
  refine ⟨hwf, ?_, Nat.le_of_lt_succ hlt⟩
  rw [NetMessage.empty, beq_eq_false_iff_ne]
  omega

/-- The handler has seen the first of the decoded messages, and the session has decoded the first of
what the peer has sent. -/
theorem Receives.prefix_of_sent {ℓ : Link MessageFilter} (h : Receives P ℓ) (hin : InboundOk ℓ)
    {bodies : List (List UInt8)} (hbodies : ∀ b ∈ bodies, b.length < networkHeader.bound)
    (hsent : ℓ.session.trace.delivered <+: frames networkHeader bodies) :
    (delivered ℓ.handler.callbacks).map NetMessage.content <+: bodies := by
  have hseen : delivered ℓ.handler.callbacks <+: ℓ.session.trace.decoded := hin.inOrder.prefix_sent
  rw [h.framed] at hsent
  exact (hseen.map _).trans (prefix_of_frames networkHeader Nat.two_pos
    (fun b hb => (h.short b hb).2) hbodies ((frames_of_consumed _ _ _).trans hsent))

/-! ## From the handler to the socket -/

section
variable {Φ : Type} {F : MessageFilterInterface Φ}

/-- The encoding of the batch that the step passes to the session is shorter than 2³¹ bytes. -/
def Encodable (host : ByteOrder) (ℓ : Link Φ) : Act → Prop
  | .run t _ => ∀ task ∈ (ℓ.tasks t).head?, (encode host (ℓ.batch task)).length < 2 ^ 31
  | _ => True

instance (host : ByteOrder) (ℓ : Link Φ) : (a : Act) → Decidable (Encodable host ℓ a)
  | .run t _ => inferInstanceAs (Decidable
      (∀ task ∈ (ℓ.tasks t).head?, (encode host (ℓ.batch task)).length < 2 ^ 31))
  | .connect .. | .readDone .. | .writeDone _ | .timerDone | .keepAlive | .logic _ | .tick _ =>
    isTrue trivial

/-- The filter is honest about the batch that the step passes to the session. -/
def HonestStep (F : MessageFilterInterface Φ) (ℓ : Link Φ) (a : Act) : Prop :=
  ∀ t scripts, a = .run t scripts → ∀ task ∈ (ℓ.tasks t).head?,
    TCPSession.Honest F ℓ.session (ℓ.batch task)

theorem HonestStep.announced {ℓ : Link Φ} {a : Act} (h : HonestStep F ℓ a) : Announced F ℓ a := by
  cases a with
  | run t scripts => exact fun task htask => (h t scripts rfl task htask).announces
  | _ => trivial

/-- What a step makes of the session. -/
inductive SessionStep (F : MessageFilterInterface Φ) (ℓ : Link Φ) : Act → TCPSession Φ → Prop
  | keep {a : Act} : SessionStep F ℓ a ℓ.session
  | flush {a : Act} : SessionStep F ℓ a { ℓ.session with messagesReceived := [] }
  | opens {a : Act} (id : TCPSessionID) (r : TCPSession Φ × List Effect) :
      TCPSession.Opens ℓ.session id r → SessionStep F ℓ a r.1
  | complete {a : Act} (task : Task) (s : TCPSession Φ) : Completes ℓ a task s →
      SessionStep F ℓ a s
  | move {a : Act} (found : Option Conn) (task : Task) (r : TCPSession Φ × List Effect) :
      TCPSession.Move ℓ.session found task r → SessionStep F ℓ a r.1
  | posts (t : ThreadIx) (scripts : List (List Call)) (task : Task) (s : TCPSession Φ) :
      task ∈ (ℓ.tasks t).head? → ℓ.session.Marked →
      TCPSession.Posts F ℓ.session (ℓ.batch task) s → SessionStep F ℓ (.run t scripts) s

theorem Step.session {ℓ ℓ' : Link Φ} {a : Act} (h : Lifecycle ℓ) (hstep : Step F ℓ a ℓ') :
    SessionStep F ℓ a ℓ'.session := by
  have hkeep : ∀ {a : Act} {s : TCPSession Φ}, s = ℓ.session → SessionStep F ℓ a s := by
    rintro a s rfl
    exact .keep
  cases hstep with
  | connect id script hidle hopening =>
      exact hkeep (calls_callback (.inr ⟨hopening.threadId, h.ioThread_lt⟩) _ script).session
  | init rest r hop _ hopens =>
      rw [onSession_eq]
      exact .opens _ r hopens
  | complete task s _ hc => exact .complete task s hc
  | logic script => exact hkeep (calls_runScript h.callable script).session
  | tick => exact .keep
  | run t task rest scripts ht hpopped hran =>
      have hcallable := hpopped.lifecycle.callable
      have hhead : task ∈ (ℓ.tasks t).head? := by rw [ht]; rfl
      cases hran with
      | move r _ _ _ hmove =>
          rw [onSession_eq]
          exact .move _ task r hmove
      | unqueued => exact .keep
      | unmapped => exact .keep
      | flush scripts' =>
          have hdeliver := (calls_deliver hcallable (ℓ.popped t rest).session.messagesReceived
            scripts').session
          dsimp only
          rw [hdeliver]
          exact .flush
      | deliver id messages scripts' =>
          exact hkeep (calls_deliver hcallable messages scripts').session
      | dispose id script => exact hkeep (calls_callback hcallable _ script).session
      | pack => exact hkeep (by rw [onHandler_eq]; rfl)
      | post id messages s _ hst hposts => exact .posts t scripts _ s hhead hst.marked hposts
      | direct s _ hst hposts => exact .posts t scripts _ s hhead hst.marked hposts

/-- Nothing is posted in a step that ends with a closed session. -/
theorem SessionStep.posted {ℓ : Link Φ} {a : Act} {s : TCPSession Φ} (h : SessionStep F ℓ a s)
    (hclosed : s.trace.closedBy ≠ none) : s.trace.posted = ℓ.session.trace.posted := by
  cases h with
  | keep => rfl
  | flush => rfl
  | opens id r hopens => rw [hopens.trace]
  | complete task _ hc =>
      obtain ⟨k, timer, rfl⟩ := hc.session
      rfl
  | move found task r hmove => exact hmove.posted
  | posts t scripts task _ _ hmarked hposts =>
      have hc : ℓ.session.closed = true := by
        rw [hmarked, ← hposts.closedBy]
        exact Option.isSome_iff_ne_none.mpr hclosed
      rw [hposts.posted, if_pos hc]

theorem SessionStep.written {ℓ : Link Φ} {a : Act} {s : TCPSession Φ} (h : SessionStep F ℓ a s)
    (hhonest : HonestStep F ℓ a) (hw : ℓ.session.Written F) : s.Written F := by
  cases h with
  | keep => exact hw
  | flush => exact hw.same ⟨rfl, rfl, rfl⟩ rfl
  | opens id r hopens =>
      exact hw.same hopens.buffers (congrArg SessionTrace.batches hopens.trace)
  | complete task _ hc =>
      have hhanded := hc.handed
      obtain ⟨k, timer, rfl⟩ := hc.session
      exact hw.same ⟨hhanded, rfl, rfl⟩ rfl
  | move found task r hmove => exact hw.move hmove
  | posts t scripts task _ hhead _ hposts =>
      exact hw.postMessageList (hhonest t scripts rfl task hhead) hposts.run

/-- What has been handed to the socket stays handed. -/
theorem SessionStep.handed {ℓ : Link Φ} {a : Act} {s : TCPSession Φ} (h : SessionStep F ℓ a s) :
    ℓ.session.socket.handed <+: s.socket.handed := by
  cases h with
  | keep => exact List.prefix_refl _
  | flush => exact List.prefix_refl _
  | opens id r hopens => rw [hopens.buffers.handed]
  | complete task _ hc => rw [hc.handed]
  | move found task r hmove => exact hmove.handed
  | posts t scripts task _ _ _ hposts => exact TCPSession.postMessageList_handed F hposts.run

/-- While the session is open, the batch of the next task has been sent. -/
theorem OutboundOk.batch_sent {ℓ : Link Φ} (h : OutboundOk ℓ) (hlife : Lifecycle ℓ)
    {t : ThreadIx} {scripts : List (List Call)} (hdirect : DirectOk ℓ (.run t scripts))
    (hopen : ℓ.session.trace.closedBy = none) {task : Task} {rest : List Task}
    (ht : ℓ.tasks t = task :: rest) : ∀ m ∈ ℓ.batch task, m ∈ sends ℓ.handler.calls := by
  have hisOpen : ℓ.outbound.isOpen = true := Option.isNone_iff_eq_none.mpr hopen
  intro m hm
  cases task with
  | sendMessageListToSession id messages =>
      obtain rfl : t = ℓ.session.ioThread := (hlife.popped ht fun _ h => by cases h).taskOk.1
      have hwire := outbound_wire ht (p := .batch messages) rfl
      show m ∈ ℓ.outbound.sent
      cases hmark : ℓ.outbound.mark with
      | none =>
          obtain ⟨-, -, hsent⟩ := h.upToMark.unmarked hmark
          rw [← hsent, hwire]
          simp [Packet.payload, show m ∈ messages from hm]
      | some l =>
          obtain ⟨hfront, hwhole, -⟩ := h.upToMark.marked l hmark
          obtain ⟨-, rfl⟩ := hwhole hisOpen
          refine hfront.subset ?_
          rw [hwire]
          simp [Packet.deliverable, show m ∈ messages from hm]
  | handlerSendMessageListDirectly =>
      obtain rfl : t = mainThread := (hlife.popped ht fun _ h => by cases h).taskOk.1
      rcases hdirect scripts rest rfl ht with hclosed | hnil | ⟨hmark, -⟩
      · rw [hisOpen] at hclosed
        cases hclosed
      · rw [show ℓ.batch .handlerSendMessageListDirectly = ℓ.outbound.buffer from rfl, hnil] at hm
        cases hm
      · obtain ⟨-, -, hsent⟩ := h.upToMark.unmarked hmark
        show m ∈ ℓ.outbound.sent
        rw [← hsent]
        exact List.mem_append_right _ hm
  | _ => cases hm

/-- The write side of a link, whoever closes it. -/
structure Transmits (F : MessageFilterInterface Φ) (ℓ : Link Φ) : Prop where
  ordered : Undisturbed ℓ.session → OutboundOk ℓ
  front : ℓ.session.trace.posted <+: sentBeforeClose ℓ.handler.calls
  accepted : ℓ.session.accepted = ℓ.session.trace.posted
  written : ℓ.session.Written F

theorem Transmits.start (conn : Conn) (threads : Nat) (ioThread : ThreadIx) (filter : Φ)
    (keepAliveTime : Nat) : Transmits F (start conn threads ioThread filter keepAliveTime) where
  ordered _ := .start conn threads ioThread filter keepAliveTime
  front := List.nil_prefix
  accepted := rfl
  written := ⟨nofun, rfl, fun _ => rfl⟩

theorem Transmits.step {ℓ ℓ' : Link Φ} {a : Act} (h : Transmits F ℓ) (hlife : Lifecycle ℓ)
    (hdirect : OutboundOk ℓ → DirectOk ℓ a) (hhonest : HonestStep F ℓ a)
    (hstep : Link.step F ℓ a = some ℓ') : Transmits F ℓ' := by
  have hs := hlife.cases hstep
  obtain ⟨more, hcalls⟩ := (Step.evolves hlife hs).calls
  have hordered : Undisturbed ℓ'.session → OutboundOk ℓ' := by
    intro hund
    have hok := h.ordered (undisturbed_back hlife hstep hund)
    exact hok.step hlife hund (hdirect hok) hstep
  refine ⟨hordered, ?_, accepted_step hlife hs hhonest.announced h.accepted,
    (hs.session hlife).written hhonest h.written⟩
  by_cases hnone : ℓ'.session.trace.closedBy = none
  · exact (hordered (.inl hnone)).posted.2.1
  · rw [(hs.session hlife).posted hnone, hcalls]
    exact h.front.trans (sentBeforeClose_grows _ _)

end

/-- The messages of a link with the default filter have been sent well formed, so that the filter is
honest about them. -/
theorem honestStep_of_sent {ℓ : Link MessageFilter} {a : Act} (hlife : Lifecycle ℓ)
    (hok : ℓ.session.trace.closedBy = none → OutboundOk ℓ ∧ DirectOk ℓ a)
    (hencodable : Encodable host ℓ a) (hwf : ∀ m ∈ sends ℓ.handler.calls, m.WF) :
    HonestStep (messageFilter host junk) ℓ a := by
  rintro t scripts rfl task htask hopen hne
  have hnone := hlife.closedBy_of_open hopen
  obtain ⟨houtbound, hdirect⟩ := hok hnone
  obtain ⟨rest, ht⟩ := List.head?_eq_some_iff.mp (Option.mem_def.mp htask)
  have hsent := houtbound.batch_sent hlife hdirect hnone ht
  exact MessageFilter.honest host junk ℓ.session (fun m hm => hwf m (hsent m hm))
    (hencodable task htask) hopen hne

/-- The handler of a session on the main thread sends nothing after its first `close`, so that
nothing is overtaken. -/
def Unovertaken (ℓ : Link MessageFilter) : Prop :=
  ℓ.session.ioThread = mainThread → ClosesLast ℓ

theorem Unovertaken.directOk {ℓ : Link MessageFilter} (h : Unovertaken ℓ) (hlife : Lifecycle ℓ)
    (hok : OutboundOk ℓ) (a : Act) : DirectOk ℓ a := by
  by_cases hmain : ℓ.session.ioThread = mainThread
  · exact directOk_of_closesLast hlife hok (h hmain) a
  · exact directOk_of_worker hlife hmain a

/-- What is asked of the application: it sends well-formed messages, and overtakes none. -/
structure Sound (ℓ : Link MessageFilter) : Prop where
  unovertaken : Unovertaken ℓ
  wf : ∀ m ∈ sends ℓ.handler.calls, m.WF

theorem sound_back {F : MessageFilterInterface MessageFilter} {ℓ ℓ' : Link MessageFilter} {a : Act}
    (hlife : Lifecycle ℓ) (hstep : Link.step F ℓ a = some ℓ') (h : Sound ℓ') : Sound ℓ := by
  have hevolves := Step.evolves hlife (hlife.cases hstep)
  refine ⟨fun hmain => ?_, fun m hm => h.wf m ?_⟩
  · exact closesLast_back hlife hstep (h.unovertaken (hevolves.ioThread.trans hmain))
  · obtain ⟨more, hmore⟩ := hevolves.calls
    rw [hmore, sends_append]
    exact List.mem_append_left _ hm

/-- What a link sends, in every run whose application is sound. -/
theorem Transmits.of_run {conn : Conn} {threads : Nat} {ioThread : ThreadIx}
    {filter : MessageFilter} {keepAliveTime : Nat} {ℓ : Link MessageFilter}
    (hio : ioThread < threads)
    (hrun : Transition.Run (Link.step (messageFilter host junk)) (Encodable host)
      (.start conn threads ioThread filter keepAliveTime) ℓ)
    (hsound : Sound ℓ) : Transmits (messageFilter host junk) ℓ := by
  refine (hrun.invariant_of_final (J := Alive ioThread) (P := Sound)
    (I := Transmits (messageFilter host junk)) (fun hj hst => hj.step hst)
    (fun hj hst hp => sound_back hj.lifecycle hst hp) ?_
    (.start hio conn filter keepAliveTime)
    (.start conn threads ioThread filter keepAliveTime) hsound).2
  intro ℓ a ℓ' hp hj hi hencodable hst
  have hlife := hj.lifecycle
  have hbefore := sound_back hlife hst hp
  have hdirect := fun hok => hbefore.unovertaken.directOk hlife hok a
  refine hi.step hlife hdirect (honestStep_of_sent hlife (fun hnone => ?_) hencodable hbefore.wf) hst
  exact ⟨hi.ordered (.inl hnone), hdirect (hi.ordered (.inl hnone))⟩

/-- The frames of batches that have been encoded one by one. -/
theorem flatten_frames {batches : List (List NetMessage × List UInt8)}
    (h : ∀ b ∈ batches, b.2 = frames networkHeader (b.1.map NetMessage.content)) :
    (batches.map Prod.snd).flatten =
      frames networkHeader ((batches.map Prod.fst).flatten.map NetMessage.content) := by
  induction batches with
  | nil => rfl
  | cons b batches ih =>
      simp only [List.map_cons, List.flatten_cons, List.map_append, frames_append]
      rw [h b List.mem_cons_self, ih fun b' hb => h b' (List.mem_cons_of_mem _ hb)]

/-- The bytes that the filter has made are the frames of what has been posted. -/
theorem Transmits.encoded {ℓ : Link MessageFilter} (h : Transmits (messageFilter host junk) ℓ)
    (hwf : ∀ m ∈ sends ℓ.handler.calls, m.WF) :
    ℓ.session.encoded =
      frames networkHeader (ℓ.session.trace.posted.map NetMessage.content) := by
  rw [← h.accepted]
  refine flatten_frames fun b hb => ?_
  obtain ⟨filter, buffer, hbytes⟩ := h.written.written b hb
  rw [hbytes]
  refine appended_write host filter fun m hm => hwf m ?_
  have haccepted : m ∈ ℓ.session.accepted :=
    List.mem_flatten.mpr ⟨b.1, List.mem_map_of_mem hb, hm⟩
  rw [h.accepted] at haccepted
  exact (h.front.trans (sentBeforeClose_isFront _)).subset haccepted

/-- What the session has handed to its socket is the front part of the frames of what the handler
has sent before its first `close`. -/
theorem Transmits.handed {ℓ : Link MessageFilter} (h : Transmits (messageFilter host junk) ℓ)
    (hwf : ∀ m ∈ sends ℓ.handler.calls, m.WF) :
    ℓ.session.socket.handed <+:
      frames networkHeader ((sentBeforeClose ℓ.handler.calls).map NetMessage.content) := by
  have hfront : ℓ.session.socket.handed <+: ℓ.session.encoded := ⟨_, h.written.whole⟩
  rw [h.encoded hwf] at hfront
  exact hfront.trans (frames_front networkHeader (h.front.map _))

/-! ## At rest -/

/-- No task is queued, and nothing is being sent. -/
structure AtRest {Φ : Type} (ℓ : Link Φ) : Prop where
  tasks : ∀ t, ℓ.tasks t = []
  idle : ℓ.session.bufferSending = []

/-- The handler of an open session has seen all that has been decoded. -/
theorem InboundOk.delivered_of_rest {Φ : Type} {ℓ : Link Φ} (h : InboundOk ℓ) (hrest : AtRest ℓ)
    (hopen : ℓ.session.closed = false) :
    delivered ℓ.handler.callbacks = ℓ.session.trace.decoded := by
  have hnone := h.lifecycle.closedBy_of_open hopen
  have hbuffer : ℓ.session.messagesReceived = [] := by
    by_contra hne
    obtain ⟨before, after, hqueue, -⟩ := h.flushFirst hne hnone
    rw [hrest.tasks] at hqueue
    exact absurd hqueue.symm (by simp)
  have hwire : ℓ.inbound.wire = [] := by
    show (ℓ.tasks mainThread).filterMap inPacket = []
    rw [hrest.tasks]
    rfl
  have hisOpen : ℓ.inbound.isOpen = true := by
    show (!ℓ.registered || ℓ.mapped) = true
    rw [(h.lifecycle.started_of_open hopen).mapped_of_open hnone, Bool.or_true]
  have hwhole := h.inOrder.whole hisOpen
  rw [hwire, show ℓ.inbound.buffer = [] from hbuffer, List.append_nil] at hwhole
  exact (List.append_nil _).symm.trans hwhole

/-- An open session has handed over the frames of all that has been sent before the first `close`. -/
theorem Transmits.handed_of_rest {ℓ : Link MessageFilter}
    (h : Transmits (messageFilter host junk) ℓ) (hwf : ∀ m ∈ sends ℓ.handler.calls, m.WF)
    (hlife : Lifecycle ℓ) (hrest : AtRest ℓ) (hopen : ℓ.session.closed = false) :
    ℓ.session.socket.handed =
      frames networkHeader ((sentBeforeClose ℓ.handler.calls).map NetMessage.content) := by
  have hwhole := h.written.whole
  have hposted := (h.ordered (.inl (hlife.closedBy_of_open hopen))).posted_of_drained hrest.tasks
  rw [h.written.waiting hrest.idle, List.append_nil] at hwhole
  rw [hwhole, h.encoded hwf, hposted]

end Link
end EddyServer
