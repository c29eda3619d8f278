import EddyServer.Link.Reading

/-!
# Streams that are served

A stream is served when an open session always has a read on its way, notices the end of the stream,
and has parsed every frame by then. With the default filter these are the streams without an empty
frame. That the end is noticed is a statement about infinite runs in which the threads run their
tasks and the peer answers every read.
-/

namespace EddyServer
namespace Link

open Framing MessageFilter
open NetMessage (Junk)

variable {host : ByteOrder} {junk : Junk} {stream : List UInt8}

/-! ## Progress -/

/-- What holds in every run in which the peer sends `stream`. -/
structure Serving (stream : List UInt8) (ioThread : ThreadIx) (ℓ : Link MessageFilter) : Prop where
  alive : Alive ioThread ℓ
  oneRead : OneRead ℓ
  fed : Fed stream ℓ

theorem Serving.start {threads : Nat} {ioThread : ThreadIx} (hio : ioThread < threads)
    (stream : List UInt8) (conn : Conn) (header : BitVec 16) (keepAliveTime : Nat) :
    Serving stream ioThread
      (start conn threads ioThread (MessageFilter.new header) keepAliveTime) :=
  ⟨.start hio conn _ keepAliveTime, .start conn threads ioThread _ keepAliveTime,
    .start stream conn threads ioThread header keepAliveTime⟩

theorem Serving.step {ioThread : ThreadIx} {ℓ ℓ' : Link MessageFilter} {a : Act}
    (h : Serving stream ioThread ℓ) (hpeer : Peer stream ℓ a)
    (hstep : step (messageFilter host junk) ℓ a = some ℓ') : Serving stream ioThread ℓ' :=
  have hs := h.alive.lifecycle.cases hstep
  ⟨h.alive.step hstep, h.oneRead.step h.alive.lifecycle hs,
    h.fed.step h.oneRead h.alive.lifecycle hs hpeer⟩

theorem Serving.run {ioThread : ThreadIx} {ℓ ℓ' : Link MessageFilter}
    (h : Serving stream ioThread ℓ)
    (hrun : Transition.Run (Link.step (messageFilter host junk)) (Peer stream) ℓ ℓ') :
    Serving stream ioThread ℓ' :=
  hrun.invariant (fun hi hok hst => hi.step hok hst) h

/-- An open session demands at least one byte. -/
theorem Serving.wanted_pos {ioThread : ThreadIx} {ℓ : Link MessageFilter}
    (h : Serving stream ioThread ℓ) (hnone : ¬ HasEmptyFrame networkHeader stream) :
    0 < ℓ.session.msgFilter.bytesWannaRead := by
  have hlen := length_demanded_of_framed hnone h.fed.framed h.fed.short h.fed.isPrefix
  by_contra hzero
  rw [Nat.eq_zero_of_not_pos hzero] at hlen
  cases hlen

/-- Nothing takes delivered bytes back. -/
theorem delivered_le {ioThread : ThreadIx} {ℓ ℓ' : Link MessageFilter} {a : Act}
    (h : Serving stream ioThread ℓ) (hstep : Step (messageFilter host junk) ℓ a ℓ') :
    ℓ.session.trace.delivered.length ≤ ℓ'.session.trace.delivered.length := by
  have hlife := h.alive.lifecycle
  have hsame : ∀ {ℓ' : Link MessageFilter}, ℓ'.session.trace.delivered = ℓ.session.trace.delivered →
      ℓ.session.trace.delivered.length ≤ ℓ'.session.trace.delivered.length :=
    fun heq => Nat.le_of_eq (congrArg List.length heq.symm)
  cases hstep with
  | connect id script hidle hopening =>
      have hcalls := calls_callback (.inr ⟨hopening.threadId, hlife.ioThread_lt⟩) .onConnected script
      exact hsame (by rw [hcalls.session]; rfl)
  | init rest r _ _ hopens => exact hsame (by rw [onSession_eq]; dsimp only; rw [hopens.trace])
  | complete task s _ hc =>
      obtain ⟨k, timer, rfl⟩ := hc.session
      exact hsame rfl
  | logic script => exact hsame (by rw [(calls_runScript hlife.callable script).session])
  | tick => exact hsame rfl
  | run t task rest scripts ht hpopped hran hex =>
      cases hread : task.isRead with
      | false => exact hsame (run_sameReads hpopped hran hex hread).delivered
      | true =>
          obtain ⟨error, data, rfl⟩ := exists_of_isRead hread
          obtain rfl : t = ℓ.session.ioThread := hpopped.taskOk
          rw [← Option.some.inj hex, onSession_eq]
          dsimp only
          by_cases hc : error ≠ .success ∨ ℓ.session.closed = true
          · rw [(TCPSession.handleRead_closing _ (ℓ.popped _ rest).session _ data hc).delivered]
            exact Nat.le_refl _
          · obtain ⟨hsucc, hclosed⟩ := not_or.mp hc
            obtain rfl : error = .success := not_not.mp hsucc
            have hopen : ℓ.session.closed = false := by simpa using hclosed
            rcases h.fed.queued hopen .success data (by rw [ht]; exact List.mem_cons_self) with
              ⟨-, hlen, -⟩ | ⟨hne, -⟩
            · rw [(TCPSession.handleRead_takes host junk _ _ (s := (ℓ.popped _ rest).session)
                hopen hlen).delivered]
              simp [Link.popped]
            · exact absurd rfl hne

/-- Running a `handle_read` takes bytes off the stream, or ends the session. -/
theorem delivered_lt {ioThread : ThreadIx} {ℓ ℓ' : Link MessageFilter}
    (h : Serving stream ioThread ℓ) (hnone : ¬ HasEmptyFrame networkHeader stream)
    {scripts : List (List Call)} {error : ErrorCode} {data : List UInt8} {rest : List Task}
    (ht : ℓ.tasks ioThread = .handleRead error data :: rest)
    (hstep : Link.step (messageFilter host junk) ℓ (.run ioThread scripts) = some ℓ') :
    ℓ'.session.closed = true ∨
      ℓ.session.trace.delivered.length < ℓ'.session.trace.delivered.length := by
  have hio := h.alive.ioThread
  rw [step_run ht] at hstep
  have hran : ℓ' = (ℓ.popped ioThread rest).onSession (ℓ.session.handleRead
      (messageFilter host junk) ℓ.clock (ℓ.popped ioThread rest).found error data) :=
    (Option.some.inj hstep).symm
  rw [hran, onSession_eq]
  dsimp only
  by_cases hc : error ≠ .success ∨ ℓ.session.closed = true
  · left
    have hkeep := TCPSession.handleRead_closing (F := messageFilter host junk) ℓ.clock ℓ.session
      (ℓ.popped ioThread rest).found data hc
    by_contra hopen
    exact nomatch hkeep.wasOpen (by simpa using hopen)
  · right
    obtain ⟨hsucc, hclosed⟩ := not_or.mp hc
    obtain rfl : error = .success := not_not.mp hsucc
    have hopen : ℓ.session.closed = false := by simpa using hclosed
    rcases h.fed.queued hopen .success data (by rw [hio, ht]; exact List.mem_cons_self) with
      ⟨-, hlen, -⟩ | ⟨hne, -⟩
    · have htakes := TCPSession.handleRead_takes host junk ℓ.clock
        (ℓ.popped ioThread rest).found hopen hlen
      have hpos := h.wanted_pos hnone
      rw [htakes.delivered, List.length_append, hlen]
      omega
    · exact absurd rfl hne

/-! ## Fair runs -/

/-- The label completes a `handle_read`. -/
def CompletesRead (ℓ : Link MessageFilter) : Act → Prop
  | .readDone i _ _ => ∃ op, ℓ.session.socket.reads[i]? = some op ∧ op.handler = .handleRead
  | _ => False

/-- An infinite run of a link whose peer sends `stream`. -/
abbrev Serve (host : ByteOrder) (junk : Junk) (stream : List UInt8) :=
  Transition.Execution (Link.step (messageFilter host junk)) (Peer stream)

/-- The threads run their tasks, and the peer answers every `handle_read`. -/
structure IsFair (e : Serve host junk stream) : Prop where
  runs : ∀ t, e.Fair (fun ℓ => ℓ.tasks t ≠ []) fun _ a => ∃ scripts, a = .run t scripts
  reads : e.Fair (fun ℓ => ℓ.session.readOps ≠ []) CompletesRead

/-- A `handle_read` is queued behind `k` other tasks, and at least `n` bytes have been delivered. -/
structure ReadQueued (stream : List UInt8) (ioThread : ThreadIx) (n k : Nat)
    (ℓ : Link MessageFilter) : Prop where
  serving : Serving stream ioThread ℓ
  delivered : n ≤ ℓ.session.trace.delivered.length
  queue : ∃ before error data after, ℓ.tasks ioThread = before ++ .handleRead error data :: after ∧
    before.length = k

/-- While its thread runs nothing, the read keeps its place. -/
theorem ReadQueued.step {ioThread : ThreadIx} {n k : Nat} {ℓ ℓ' : Link MessageFilter} {a : Act}
    (h : ReadQueued stream ioThread n k ℓ) (hother : ¬ ∃ scripts, a = .run ioThread scripts)
    (hpeer : Peer stream ℓ a) (hstep : Link.step (messageFilter host junk) ℓ a = some ℓ') :
    ReadQueued stream ioThread n k ℓ' := by
  have hlife := h.serving.alive.lifecycle
  have hs := hlife.cases hstep
  obtain ⟨before, error, data, after, hqueue, hk⟩ := h.queue
  obtain ⟨more, hmore⟩ := Step.appends hlife hs fun scripts ha => hother ⟨scripts, ha⟩
  refine ⟨h.serving.step hpeer hstep, Nat.le_trans h.delivered (delivered_le h.serving hs),
    before, error, data, after ++ more, ?_, hk⟩
  rw [hmore, hqueue, List.append_assoc, List.cons_append]

/-- A queued `handle_read` gets its turn: the induction is on the number of tasks in front of it. -/
theorem progress_of_queued {e : Serve host junk stream} (hfair : IsFair e)
    (hnone : ¬ HasEmptyFrame networkHeader stream) {ioThread : ThreadIx} {n : Nat} (k : Nat) :
    ∀ m, ReadQueued stream ioThread n k (e.state m) →
      ∃ l, m ≤ l ∧ ((e.state l).session.closed = true ∨
        n < (e.state l).session.trace.delivered.length) := by
  induction k with
  | zero =>
      intro m h
      obtain ⟨l, hml, hq, scripts, hlabel⟩ := e.until_first
        (hfair.runs ioThread m (by obtain ⟨before, _, _, _, hqueue, -⟩ := h.queue; simp [hqueue]))
        h fun hi hother hok hst => hi.step hother hok hst
      have hstep := e.step_eq l
      rw [hlabel] at hstep
      obtain ⟨before, error, data, after, hqueue, hlen⟩ := hq.queue
      obtain rfl := List.eq_nil_of_length_eq_zero hlen
      rcases delivered_lt hq.serving hnone hqueue hstep with hclosed | hlt
      · exact ⟨l + 1, by omega, .inl hclosed⟩
      · exact ⟨l + 1, by omega, .inr (Nat.lt_of_le_of_lt hq.delivered hlt)⟩
  | succ k ih =>
      intro m h
      obtain ⟨l, hml, hq, scripts, hlabel⟩ := e.until_first
        (hfair.runs ioThread m (by obtain ⟨before, _, _, _, hqueue, -⟩ := h.queue; simp [hqueue]))
        h fun hi hother hok hst => hi.step hother hok hst
      have hlife := hq.serving.alive.lifecycle
      have hstep := e.step_eq l
      have hnext := hq.serving.step (e.allowed l) hstep
      have hle := delivered_le hq.serving (hlife.cases hstep)
      rw [hlabel] at hstep
      obtain ⟨before, error, data, after, hqueue, hlen⟩ := hq.queue
      obtain ⟨task, before, rfl⟩ := List.exists_cons_of_length_eq_add_one hlen
      obtain ⟨more, hmore⟩ := Step.pops hqueue hlife hstep
      obtain ⟨l', hl', hprogress⟩ := ih (l + 1)
        ⟨hnext, Nat.le_trans hq.delivered hle, before, error, data, after ++ more,
          by rw [hmore]; exact List.append_assoc .., by simpa using hlen⟩
      exact ⟨l', by omega, hprogress⟩

/-- An open session gets more of the stream, or is closed. -/
theorem progress {e : Serve host junk stream} (hfair : IsFair e)
    (hnone : ¬ HasEmptyFrame networkHeader stream) {ioThread : ThreadIx} {m : Nat}
    (h : Serving stream ioThread (e.state m)) (hopen : (e.state m).session.closed = false) :
    ∃ l, m ≤ l ∧ ((e.state l).session.closed = true ∨
      (e.state m).session.trace.delivered.length <
        (e.state l).session.trace.delivered.length) := by
  have hnum := h.fed.reading hnone hopen
  have hcounted := h.oneRead.counted
  by_cases hqueued : (e.state m).queuedReads = 0
  · -- the read is outstanding: the peer answers it, and it is queued
    have hops : (e.state m).session.readOps ≠ [] := by
      intro hnil
      have hlen := (e.state m).session.length_readOps
      rw [hnil, List.length_nil] at hlen
      omega
    obtain ⟨l, hml, ⟨hserving, hle⟩, hcompletes⟩ := e.until_first
      (I := fun ℓ => Serving stream ioThread ℓ ∧
        (e.state m).session.trace.delivered.length ≤ ℓ.session.trace.delivered.length)
      (hfair.reads m hops) ⟨h, Nat.le_refl _⟩ fun hi _ hok hst =>
        ⟨hi.1.step hok hst, Nat.le_trans hi.2 (delivered_le hi.1 (hi.1.alive.lifecycle.cases hst))⟩
    have hstep := e.step_eq l
    have hnext := hserving.step (e.allowed l) hstep
    have hle' := delivered_le hserving (hserving.alive.lifecycle.cases hstep)
    have hqueue : ∃ error data, (e.state (l + 1)).tasks ioThread =
        (e.state l).tasks ioThread ++ [.handleRead error data] := by
      cases hlabel : e.label l with
      | readDone i error data =>
          rw [hlabel] at hcompletes hstep
          obtain ⟨op, hi, hhandler⟩ := hcompletes
          simp only [Link.step, hi] at hstep
          split_ifs at hstep
          refine ⟨error, data, ?_⟩
          rw [← Option.some.inj hstep, post_eq]
          simp [ReadOp.completion, hhandler, hserving.alive.ioThread]
      | _ =>
          rw [hlabel] at hcompletes
          exact hcompletes.elim
    obtain ⟨error, data, hqueue⟩ := hqueue
    obtain ⟨l', hl', hprogress⟩ := progress_of_queued hfair hnone _ (l + 1)
      ⟨hnext, Nat.le_trans hle hle', _, error, data, [], hqueue, rfl⟩
    exact ⟨l', by omega, hprogress⟩
  · obtain ⟨task, hmem, hread⟩ := List.countP_pos_iff.mp (Nat.pos_of_ne_zero hqueued)
    obtain ⟨error, data, rfl⟩ := exists_of_isRead hread
    obtain ⟨before, after, hqueue⟩ := List.append_of_mem hmem
    rw [h.alive.ioThread] at hqueue
    exact progress_of_queued hfair hnone _ m
      ⟨h, Nat.le_refl _, before, error, data, after, hqueue, rfl⟩

/-- The end of the stream is noticed: the induction is on what is left of it. -/
theorem noticed {e : Serve host junk stream} (hfair : IsFair e)
    (hnone : ¬ HasEmptyFrame networkHeader stream) {ioThread : ThreadIx} (m : Nat)
    (h : Serving stream ioThread (e.state m)) :
    ∃ l, m ≤ l ∧ (e.state l).session.closed = true := by
  induction hleft : stream.length - (e.state m).session.trace.delivered.length
    using Nat.strongRecOn generalizing m with
  | _ left ih =>
      cases hopen : (e.state m).session.closed with
      | true => exact ⟨m, Nat.le_refl m, hopen⟩
      | false =>
          obtain ⟨l, hml, hclosed | hlt⟩ := progress hfair hnone h hopen
          · exact ⟨l, hml, hclosed⟩
          · have hl := h.run (e.run hml)
            have hle := hl.fed.isPrefix.length_le
            obtain ⟨l', hl', hclosed⟩ := ih _ (by omega) l hl rfl
            exact ⟨l', by omega, hclosed⟩

/-! ## A run up to a frame -/

/-- A link on thread 1 whose open session has been sent `d` and holds the header `p`. Nothing is
queued on its thread, up to a flush of the messages it has parsed. -/
structure Parsing (d : List UInt8) (p : Option Nat) (ℓ : Link MessageFilter) : Prop where
  ioThread : ℓ.session.ioThread = 1
  isOpen : ℓ.session.closed = false
  queue : ℓ.tasks 1 = if ℓ.session.messagesReceived = [] then [] else [.sessionPackMessageList]
  delivered : ℓ.session.trace.delivered = d
  pending : ℓ.session.msgFilter.pending = p
  reads : ℓ.session.socket.reads = TCPSession.demanded ℓ.session.msgFilter.bytesWannaRead
  numReadHandlers : ℓ.session.numReadHandlers =
    (TCPSession.demanded ℓ.session.msgFilter.bytesWannaRead).length

/-- It waits for the peer. -/
structure Listening (d : List UInt8) (p : Option Nat) (ℓ : Link MessageFilter) : Prop
    extends Parsing d p ℓ where
  messagesReceived : ℓ.session.messagesReceived = []

/-- The link after `on_session_connected` and `init`. -/
theorem exists_listening (host : ByteOrder) (junk : Junk) (stream : List UInt8) :
    ∃ ℓ, Transition.Run (Link.step (messageFilter host junk)) (Peer stream)
      (start 0 2 1 (MessageFilter.new 0) 0) ℓ ∧ Listening [] none ℓ :=
  ⟨_, .tail (.tail (.refl _) (a := .connect 1 []) trivial rfl) (a := .run 1 []) trivial rfl,
    ⟨rfl, rfl, rfl, rfl, rfl, rfl, rfl⟩, rfl⟩

/-- The flush runs. -/
theorem Parsing.listening (host : ByteOrder) (junk : Junk) (stream : List UInt8) {d : List UInt8}
    {p : Option Nat} {ℓ : Link MessageFilter} (h : Parsing d p ℓ) :
    ∃ ℓ', Transition.Run (Link.step (messageFilter host junk)) (Peer stream) ℓ ℓ' ∧
      Listening d p ℓ' := by
  by_cases hnil : ℓ.session.messagesReceived = []
  · exact ⟨ℓ, .refl ℓ, { h with messagesReceived := hnil }⟩
  · have hqueue : ℓ.tasks 1 = .sessionPackMessageList :: [] := by rw [h.queue, if_neg hnil]
    have hpack : ℓ.session.packMessageList = ({ ℓ.session with messagesReceived := [] },
        [.post mainThread (.sendMessageListToHandler ℓ.session.sessionId
          ℓ.session.messagesReceived)]) := if_neg (by simpa using hnil)
    have hstep : Link.step (messageFilter host junk) ℓ (.run 1 []) =
        some ((ℓ.popped 1 []).onSession ℓ.session.packMessageList) := by
      rw [step_run hqueue]
      rfl
    refine ⟨_, .tail (.refl ℓ) (a := .run 1 []) trivial hstep, ?_⟩
    rw [hpack, onSession_eq]
    exact
      { ioThread := h.ioThread
        isOpen := h.isOpen
        queue := by simp [Link.popped, postsTo, mainThread]
        delivered := h.delivered
        pending := h.pending
        reads := h.reads
        numReadHandlers := h.numReadHandlers
        messagesReceived := rfl }

/-- The peer answers the read. -/
theorem Listening.answered (host : ByteOrder) (junk : Junk) {d data : List UInt8} {p : Option Nat}
    {ℓ : Link MessageFilter} (h : Listening d p ℓ) (hlen : data.length = wanted networkHeader p)
    (hne : data ≠ []) (hfront : d ++ data <+: stream) :
    ℓ.session.numReadHandlers = 1 ∧
      Transition.Run (Link.step (messageFilter host junk)) (Peer stream) ℓ
        (({ ℓ with session :=
            { ℓ.session with socket := { ℓ.session.socket with reads := [] } } } :
          Link MessageFilter).post 1 (.handleRead .success data)) := by
  have hwanted : data.length = ℓ.session.msgFilter.bytesWannaRead := by
    rw [hlen, ← wanted_pending, h.pending]
  obtain ⟨n, hn⟩ := Nat.exists_eq_succ_of_ne_zero
    (show ℓ.session.msgFilter.bytesWannaRead ≠ 0 by
      rw [← hwanted]
      exact fun hzero => hne (List.eq_nil_of_length_eq_zero hzero))
  have hsize : data.length = n + 1 := hwanted.trans hn
  have hreads : ℓ.session.socket.reads =
      [{ handler := .handleRead, exact := true, size := n + 1 }] := by
    rw [h.reads, hn]
    rfl
  have hpeer : Peer stream ℓ (.readDone 0 .success data) :=
    fun _ _ _ => .inr (.inl ⟨rfl, by rw [h.delivered]; exact hfront⟩)
  refine ⟨by rw [h.numReadHandlers, hn]; rfl, .tail (.refl ℓ) hpeer ?_⟩
  simp [Link.step, hreads, ReadOp.allows, hsize, ReadOp.completion, h.ioThread]

/-- The session takes what it has asked for and listens again. -/
theorem Listening.feed (host : ByteOrder) (junk : Junk) {d data : List UInt8} {p : Option Nat}
    {ℓ : Link MessageFilter} (h : Listening d p ℓ) (hlen : data.length = wanted networkHeader p)
    (hne : data ≠ []) (hfront : d ++ data <+: stream) :
    ∃ ℓ', Transition.Run (Link.step (messageFilter host junk)) (Peer stream) ℓ ℓ' ∧
      Listening (d ++ data) (Framing.feed networkHeader p data).1 ℓ' := by
  obtain ⟨hone, hanswered⟩ := h.answered host junk hlen hne hfront
  have hwanted : data.length = ℓ.session.msgFilter.bytesWannaRead := by
    rw [hlen, ← wanted_pending, h.pending]
  generalize hs : ({ ℓ.session with socket := { ℓ.session.socket with reads := [] } } :
    TCPSession MessageFilter) = s at hanswered
  -- The read has left the socket; `handle_read` runs next.
  have htakes := TCPSession.handleRead_takes host junk ℓ.clock (s := s) ℓ.found
    (by rw [← hs]; exact h.isOpen) (by rw [← hs]; exact hwanted)
  have hio := (TCPSession.move_handleRead (messageFilter host junk) ℓ.clock s ℓ.found .success
    data).ioThread
  have hqueue : (({ ℓ with session := s } : Link MessageFilter).post 1
      (.handleRead .success data)).tasks 1 = .handleRead .success data :: [] := by
    rw [post_eq]
    simp [h.queue, h.messagesReceived]
  have hstep := step_run (F := messageFilter host junk) hqueue []
  generalize hr : s.handleRead (messageFilter host junk) ℓ.clock ℓ.found .success data = r
    at htakes hio
  have hran : Link.step (messageFilter host junk) (({ ℓ with session := s } :
      Link MessageFilter).post 1 (.handleRead .success data)) (.run 1 []) =
      some (((({ ℓ with session := s } : Link MessageFilter).post 1
        (.handleRead .success data)).popped 1 []).onSession r) := by
    rw [hstep, ← hr]
    rfl
  -- What `handle_read` leaves behind: at most the flush is still to run.
  have hparsing : Parsing (d ++ data) (Framing.feed networkHeader p data).1
      (((({ ℓ with session := s } : Link MessageFilter).post 1
        (.handleRead .success data)).popped 1 []).onSession r) := by
    have hio₁ : s.ioThread = 1 := by rw [← hs]; exact h.ioThread
    have heffects := htakes.effects (by rw [← hs]; exact h.messagesReceived)
    rw [hio₁] at heffects
    rw [onSession_eq]
    exact
      { ioThread := hio.trans hio₁
        isOpen := htakes.closed
        queue := by
          dsimp only
          rw [heffects]
          split_ifs <;> simp [Link.popped, postsTo, TCPSession.flushTask, mainThread]
        delivered := htakes.delivered.trans (by rw [← hs, ← h.delivered])
        pending := htakes.pending.trans (by rw [← hs, ← h.pending])
        reads := htakes.reads.trans (by rw [← hs]; rfl)
        numReadHandlers := by
          have hnum : s.numReadHandlers = 1 := by rw [← hs]; exact hone
          dsimp only
          rw [htakes.numReadHandlers, hnum]
          omega }
  obtain ⟨ℓ', hrun, hlistening⟩ := hparsing.listening host junk stream
  exact ⟨ℓ', (Transition.Run.tail hanswered (a := Act.run 1 []) trivial hran).trans hrun, hlistening⟩

/-- The session listens again after every frame that has a body. -/
theorem Listening.frames (host : ByteOrder) (junk : Junk) {bodies : List (List UInt8)}
    {d : List UInt8} {ℓ : Link MessageFilter} (h : Listening d none ℓ)
    (hbodies : ∀ b ∈ bodies, b.length < networkHeader.bound ∧ b ≠ [])
    (hfront : d ++ Framing.frames networkHeader bodies <+: stream) :
    ∃ ℓ', Transition.Run (Link.step (messageFilter host junk)) (Peer stream) ℓ ℓ' ∧
      Listening (d ++ Framing.frames networkHeader bodies) none ℓ' := by
  induction bodies generalizing d ℓ with
  | nil => exact ⟨ℓ, .refl ℓ, by simpa using h⟩
  | cons b bodies ih =>
      obtain ⟨hshort, hne⟩ := hbodies b List.mem_cons_self
      have hsplit : d ++ Framing.frames networkHeader (b :: bodies) =
          d ++ networkHeader.encode b.length ++ b ++ Framing.frames networkHeader bodies := by
        simp [frame]
      rw [hsplit] at hfront ⊢
      have hbody := (List.prefix_append _ _).trans hfront
      have hheader := (List.prefix_append _ _).trans hbody
      obtain ⟨ℓ₁, hrun₁, h₁⟩ := h.feed host junk
        (networkHeader.length_encode b.length) (by simp [networkHeader]) hheader
      have hheld : (Framing.feed networkHeader none (networkHeader.encode b.length)).1 =
          some b.length := by
        rw [Framing.feed, networkHeader.decode_encode, Nat.mod_eq_of_lt hshort]
      rw [hheld] at h₁
      obtain ⟨ℓ₂, hrun₂, h₂⟩ := h₁.feed host junk rfl hne hbody
      obtain ⟨ℓ₃, hrun₃, h₃⟩ := ih h₂ (fun c hc => hbodies c (List.mem_cons_of_mem _ hc)) hfront
      exact ⟨ℓ₃, (hrun₁.trans hrun₂).trans hrun₃, h₃⟩

/-! ## Which streams are served -/

/-- The peer that sends `stream` never stalls the session: in every run an open session has exactly
one read on its way, in every fair infinite run an open session is closed in the end, and when it is
closed by its reads it has parsed every frame of the stream. -/
structure Served (host : ByteOrder) (junk : Junk) (stream : List UInt8) : Prop where
  reading : ∀ (conn : Conn) (threads : Nat) (ioThread : ThreadIx) (header : BitVec 16)
    (keepAliveTime : Nat) (ℓ : Link MessageFilter), ioThread < threads →
    Transition.Run (Link.step (messageFilter host junk)) (Peer stream)
      (start conn threads ioThread (MessageFilter.new header) keepAliveTime) ℓ →
    ℓ.session.closed = false →
    ℓ.session.numReadHandlers = 1 ∧ ℓ.session.outstandingReads + ℓ.queuedReads = 1
  noticed : ∀ (conn : Conn) (threads : Nat) (ioThread : ThreadIx) (header : BitVec 16)
    (keepAliveTime : Nat) (e : Serve host junk stream), ioThread < threads →
    e.state 0 = start conn threads ioThread (MessageFilter.new header) keepAliveTime → IsFair e →
    ∀ m, (e.state m).session.closed = false → ∃ l, m ≤ l ∧ (e.state l).session.closed = true
  parsed : ∀ (conn : Conn) (threads : Nat) (ioThread : ThreadIx) (header : BitVec 16)
    (keepAliveTime : Nat) (ℓ : Link MessageFilter), ioThread < threads →
    Transition.Run (Link.step (messageFilter host junk)) (Peer stream)
      (start conn threads ioThread (MessageFilter.new header) keepAliveTime) ℓ →
    ℓ.session.trace.closedBy = some .handleRead →
    ∃ tail, stream = Framing.frames networkHeader ℓ.parsed ++ tail ∧ Incomplete networkHeader tail

/-- In front of a body that is empty the session is left open without a read. -/
theorem exists_stalled (host : ByteOrder) (junk : Junk) {stream : List UInt8}
    (h : HasEmptyFrame networkHeader stream) :
    ∃ ℓ, Transition.Run (Link.step (messageFilter host junk)) (Peer stream)
        (start 0 2 1 (MessageFilter.new 0) 0) ℓ ∧
      ℓ.session.closed = false ∧ ℓ.session.numReadHandlers = 0 := by
  obtain ⟨bodies, rest, hbodies, rfl⟩ := h.first
  have hsplit : Framing.frames networkHeader (bodies ++ [[]]) ++ rest =
      Framing.frames networkHeader bodies ++ networkHeader.encode 0 ++ rest := by
    simp [frame]
  rw [hsplit]
  have hheader := List.prefix_append
    (Framing.frames networkHeader bodies ++ networkHeader.encode 0) rest
  obtain ⟨ℓ₀, hrun₀, h₀⟩ := exists_listening host junk
    (Framing.frames networkHeader bodies ++ networkHeader.encode 0 ++ rest)
  obtain ⟨ℓ₁, hrun₁, h₁⟩ := h₀.frames host junk hbodies ((List.prefix_append _ _).trans hheader)
  obtain ⟨ℓ₂, hrun₂, h₂⟩ := h₁.feed host junk (networkHeader.length_encode 0)
    (by simp [networkHeader]) hheader
  have hwanted := wanted_pending ℓ₂.session.msgFilter
  rw [h₂.pending, Framing.feed, networkHeader.decode_encode] at hwanted
  refine ⟨ℓ₂, (hrun₀.trans hrun₁).trans hrun₂, h₂.isOpen, ?_⟩
  rw [h₂.numReadHandlers, ← hwanted]
  rfl

/-- **A stream is served exactly when none of its frames is empty**, with the default filter on any
host. -/
theorem served_iff_no_empty_frame (host : ByteOrder) (junk : Junk) (stream : List UInt8) :
    Served host junk stream ↔ ¬ HasEmptyFrame networkHeader stream := by
  constructor
  · intro hserved hempty
    obtain ⟨ℓ, hrun, hopen, hnum⟩ := exists_stalled host junk hempty
    have hone := (hserved.reading 0 2 1 0 0 ℓ (by decide) hrun hopen).1
    rw [hnum] at hone
    cases hone
  · intro hnone
    refine
      { reading := fun conn threads ioThread header keepAliveTime ℓ hio hrun hopen => ?_
        noticed := fun conn threads ioThread header keepAliveTime e hio hstart hfair m _ => ?_
        parsed := fun conn threads ioThread header keepAliveTime ℓ hio hrun hby => ?_ }
    · have h := (Serving.start hio stream conn header keepAliveTime).run hrun
      have hnum := h.fed.reading hnone hopen
      have hcounted := h.oneRead.counted
      exact ⟨hnum, by omega⟩
    · have h := Serving.start hio stream conn header keepAliveTime
      rw [← hstart] at h
      exact Link.noticed hfair hnone m (h.run (e.run (Nat.zero_le m)))
    · exact ((Serving.start hio stream conn header keepAliveTime).run hrun).fed.ended hby

/-- An empty frame, and behind it a frame of one byte. -/
theorem empty_frame_stalls :
    ¬ Served .little ⟨List.replicate 128 0, rfl⟩ [0, 0, 0, 1, 65] := by
  intro hserved
  obtain ⟨ℓ, hrun, hopen, hnum⟩ := exists_stalled .little ⟨List.replicate 128 0, rfl⟩
    (⟨[], [0, 1, 65], nofun, rfl⟩ : HasEmptyFrame networkHeader [0, 0, 0, 1, 65])
  have hone := (hserved.reading 0 2 1 0 0 ℓ (by decide) hrun hopen).1
  rw [hnum] at hone
  cases hone

end Link
end EddyServer
