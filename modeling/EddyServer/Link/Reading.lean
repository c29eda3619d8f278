import EddyServer.Link.Reads
import EddyServer.TCPSession.Reading

/-!
# Reading a stream

What a link with the default filter makes of the byte stream its peer sends. While no frame of the
stream is empty, an open session always has a read on its way, so it parses frame after frame and
notices the end. After the header of an empty frame the filter demands zero bytes: `handle_read`
starts no read, and the open session waits for a peer that it no longer listens to.
-/

namespace EddyServer
namespace Link

open Framing MessageFilter
open NetMessage (Junk)

/-! ## The peer -/

/-- The peer sends `stream`. Until the session is closed, a `handle_read` completes with the bytes
it has been started for, or with the end of a stream that holds fewer. -/
def Peer {Φ : Type} (stream : List UInt8) (ℓ : Link Φ) : Act → Prop
  | .readDone i error data => ∀ op ∈ ℓ.session.socket.reads[i]?, op.handler = .handleRead →
      ℓ.session.closed = true ∨
      error = .success ∧ ℓ.session.trace.delivered ++ data <+: stream ∨
      error = .eof ∧ ℓ.session.trace.delivered ++ data = stream ∧ data.length < op.size
  | _ => True

/-- The contents of the messages that the session has parsed. -/
def parsed (ℓ : Link MessageFilter) : List (List UInt8) :=
  ℓ.session.trace.decoded.map NetMessage.content

/-! ## The invariant -/

/-- How a queued `handle_read` continues the stream. -/
def Continues (stream : List UInt8) (s : TCPSession MessageFilter) (error : ErrorCode)
    (data : List UInt8) : Prop :=
  error = .success ∧ data.length = s.msgFilter.bytesWannaRead ∧
      s.trace.delivered ++ data <+: stream ∨
    error ≠ .success ∧ data.length < s.msgFilter.bytesWannaRead ∧
      s.trace.delivered ++ data = stream

/-- The read side of a link whose peer sends `stream`. -/
structure Fed (stream : List UInt8) (ℓ : Link MessageFilter) : Prop where
  /-- What has been delivered spells what has been parsed, and the header that the filter holds. -/
  framed : ℓ.session.trace.delivered =
    consumed networkHeader ℓ.session.msgFilter.pending ℓ.parsed
  short : ∀ b ∈ ℓ.parsed, b.length < networkHeader.bound
  isPrefix : ℓ.session.trace.delivered <+: stream
  asked : ∀ op ∈ ℓ.session.readOps,
    op.exact = true ∧ op.size = ℓ.session.msgFilter.bytesWannaRead
  queued : ℓ.session.closed = false → ∀ error data,
    .handleRead error data ∈ ℓ.tasks ℓ.session.ioThread → Continues stream ℓ.session error data
  reading : ¬ HasEmptyFrame networkHeader stream → ℓ.session.closed = false →
    ℓ.session.numReadHandlers = 1
  ended : ℓ.session.trace.closedBy = some .handleRead →
    ∃ tail, stream = frames networkHeader ℓ.parsed ++ tail ∧ Incomplete networkHeader tail

variable {stream : List UInt8}

theorem Fed.start (stream : List UInt8) (conn : Conn) (threads : Nat) (ioThread : ThreadIx)
    (header : BitVec 16) (keepAliveTime : Nat) :
    Fed stream (start conn threads ioThread (MessageFilter.new header) keepAliveTime) where
  framed := rfl
  short := nofun
  isPrefix := List.nil_prefix
  asked := nofun
  queued := nofun
  reading := nofun
  ended := nofun

/-- A change that leaves the read side alone. -/
theorem Fed.keep {ℓ ℓ' : Link MessageFilter} (h : Fed stream ℓ)
    (hio : ℓ'.session.ioThread = ℓ.session.ioThread)
    (hreads : TCPSession.SameReads ℓ.session ℓ'.session)
    (hended : ℓ'.session.trace.closedBy = some .handleRead →
      ℓ.session.trace.closedBy = some .handleRead)
    (htasks : ∀ error data, .handleRead error data ∈ ℓ'.tasks ℓ.session.ioThread →
      .handleRead error data ∈ ℓ.tasks ℓ.session.ioThread) : Fed stream ℓ' := by
  have hparsed : ℓ'.parsed = ℓ.parsed := congrArg (List.map NetMessage.content) hreads.decoded
  refine
    { framed := by rw [hparsed, hreads.delivered, hreads.msgFilter]; exact h.framed
      short := by rw [hparsed]; exact h.short
      isPrefix := by rw [hreads.delivered]; exact h.isPrefix
      asked := by rw [hreads.readOps, hreads.msgFilter]; exact h.asked
      queued := fun hopen error data hmem => ?_
      reading := fun hnone hopen => ?_
      ended := by rw [hparsed]; exact fun hby => h.ended (hended hby) }
  · rw [hio] at hmem
    unfold Continues
    rw [hreads.msgFilter, hreads.delivered]
    exact h.queued (hreads.wasOpen hopen) error data (htasks error data hmem)
  · rw [hreads.numReadHandlers]
    exact h.reading hnone (hreads.wasOpen hopen)

theorem Fed.session {ℓ ℓ' : Link MessageFilter} (h : Fed stream ℓ)
    (hsession : ℓ'.session = ℓ.session)
    (htasks : ∀ error data, .handleRead error data ∈ ℓ'.tasks ℓ.session.ioThread →
      .handleRead error data ∈ ℓ.tasks ℓ.session.ioThread) : Fed stream ℓ' :=
  h.keep (by rw [hsession]) (by rw [hsession]; exact .refl _) (by rw [hsession]; exact fun hby => hby)
    htasks

theorem exists_of_isRead {task : Task} (h : task.isRead = true) :
    ∃ error data, task = .handleRead error data := by
  cases task <;> first | exact ⟨_, _, rfl⟩ | cases h

theorem mem_of_append_other {ts more : List Task} (h : ∀ x ∈ more, x.isRead = false)
    (error : ErrorCode) (data : List UInt8) (hmem : .handleRead error data ∈ ts ++ more) :
    .handleRead error data ∈ ts := by
  rcases List.mem_append.mp hmem with hold | hnew
  · exact hold
  · cases h _ hnew

theorem Calls.fed {cbs : List Callback} {ℓ ℓ' : Link MessageFilter} (hcalls : Calls cbs ℓ ℓ')
    (h : Fed stream ℓ) : Fed stream ℓ' := by
  obtain ⟨more, heq, hmore⟩ := hcalls.tasks ℓ.session.ioThread
  refine h.session hcalls.session ?_
  rw [heq]
  exact mem_of_append_other fun x hx => isRead_of_fromHandler (hmore x hx).fromHandler

theorem Fed.popped {ℓ : Link MessageFilter} (h : Fed stream ℓ) {t : ThreadIx} {task : Task}
    {rest : List Task} (ht : ℓ.tasks t = task :: rest) : Fed stream (ℓ.popped t rest) := by
  refine h.session rfl fun error data hmem => ?_
  by_cases hio : ℓ.session.ioThread = t
  · rw [← hio] at hmem ht
    rw [ht]
    exact List.mem_cons_of_mem _ (by simpa [Link.popped] using hmem)
  · simpa [Link.popped, Function.update_of_ne hio] using hmem

/-- Asking for more: one read is on its way unless an empty frame has been announced. -/
theorem length_demanded_of_framed {s : TCPSession MessageFilter} {out : List (List UInt8)}
    (hnone : ¬ HasEmptyFrame networkHeader stream)
    (hframed : s.trace.delivered = consumed networkHeader s.msgFilter.pending out)
    (hshort : ∀ b ∈ out, b.length < networkHeader.bound) (hfront : s.trace.delivered <+: stream) :
    (TCPSession.demanded s.msgFilter.bytesWannaRead).length = 1 := by
  cases hn : s.msgFilter.bytesWannaRead with
  | succ n => rfl
  | zero =>
      obtain ⟨rest, hrest⟩ := hfront
      refine absurd ⟨out, rest, hshort, ?_⟩ hnone
      have hwanted := wanted_pending s.msgFilter
      rw [hn] at hwanted
      cases hp : s.msgFilter.pending with
      | none =>
          rw [hp] at hwanted
          cases hwanted
      | some n =>
          obtain rfl : n = 0 := by rwa [hp] at hwanted
          rw [← hrest, hframed, hp, consumed_some, frames_append]
          simp [frame]

/-! ## Steps -/

variable {host : ByteOrder} {junk : Junk}

/-- A task that is not `handle_read` leaves the read side alone. -/
theorem run_sameReads {ℓ ℓ' : Link MessageFilter} {t : ThreadIx} {task : Task}
    {scripts : List (List Call)} (hpopped : Popped ℓ t task)
    (hran : Ran (messageFilter host junk) ℓ t task ℓ')
    (hex : exec (messageFilter host junk) ℓ t scripts task = some ℓ')
    (hread : task.isRead = false) : TCPSession.SameReads ℓ.session ℓ'.session := by
  have hcallable := hpopped.lifecycle.callable
  have hsame : ∀ {ℓ' : Link MessageFilter}, ℓ'.session = ℓ.session →
      TCPSession.SameReads ℓ.session ℓ'.session := by
    intro ℓ' hsession
    rw [hsession]
    exact .refl _
  cases hran with
  | move r hsession =>
      have hr : ∀ {r' : TCPSession MessageFilter × List Effect}, some (ℓ.onSession r') =
          some (ℓ.onSession r) → TCPSession.SameReads ℓ.session r'.1 →
          TCPSession.SameReads ℓ.session (ℓ.onSession r).session := by
        intro r' heq hkeep
        rw [← Option.some.inj heq, onSession_eq]
        exact hkeep
      cases task with
      | handleRead => cases hread
      | hanldeWrite error => exact hr hex (TCPSession.hanldeWrite_sameReads _ _ _)
      | handleSafeClose error data => exact hr hex (TCPSession.handleSafeClose_sameReads _ _ _)
      | closeTimer error =>
          obtain ⟨s, hs, hlink⟩ := Option.map_eq_some_iff.mp hex
          rw [← hlink]
          exact TCPSession.closeTimerExpired_sameReads hs
      | close => exact hr hex (TCPSession.close_sameReads _ _ _)
      | sessionPackMessageList => exact hr hex (TCPSession.packMessageList_sameReads _)
      | closeSession id =>
          have hclose : some (ℓ.closeSession t id) = some (ℓ.onSession r) := hex
          unfold closeSession at hclose
          split_ifs at hclose
          · exact hr hclose (TCPSession.close_sameReads _ _ _)
          · rw [← Option.some.inj hclose]
            exact .refl _
      | _ => cases hsession
  | unqueued => exact .refl _
  | unmapped => exact .refl _
  | flush scripts =>
      have hdeliver := (calls_deliver hcallable ℓ.session.messagesReceived scripts).session
      rw [hdeliver]
      exact ⟨rfl, rfl, rfl, rfl, rfl, fun hopen => hopen⟩
  | deliver id messages scripts => exact hsame (calls_deliver hcallable messages scripts).session
  | dispose id script => exact hsame (calls_callback hcallable (.onClosed ℓ.conn) script).session
  | pack => exact hsame (by rw [onHandler_eq])
  | post id messages s _ _ hposts =>
      exact TCPSession.postMessageList_sameReads host junk hposts.run
  | direct s _ _ hposts => exact TCPSession.postMessageList_sameReads host junk hposts.run

theorem not_mem_of_queuedReads {ℓ : Link MessageFilter} (h : ℓ.queuedReads = 0)
    (error : ErrorCode) (data : List UInt8) :
    .handleRead error data ∉ ℓ.tasks ℓ.session.ioThread := by
  intro hmem
  exact absurd rfl (List.countP_eq_zero.mp h _ hmem)

/-- `init` asks for the first header. -/
theorem Fed.init {ℓ : Link MessageFilter} (h : Fed stream ℓ) (hone : OneRead ℓ) (hop : Opening ℓ)
    {rest : List Task} (ht : ℓ.tasks ℓ.session.ioThread = .init ℓ.id :: rest) :
    Fed stream ((ℓ.popped ℓ.session.ioThread rest).onSession
      (ℓ.session.init (messageFilter host junk) ℓ.clock ℓ.id)) := by
  have hasks := TCPSession.init_asks host junk ℓ.clock ℓ.session ℓ.id
  have hopens := TCPSession.init_opens (messageFilter host junk) ℓ.clock ℓ.session ℓ.id
  have hpopped := queuedReads_popped ht fun _ => rfl
  revert hasks hopens
  generalize ℓ.session.init (messageFilter host junk) ℓ.clock ℓ.id = r
  intro hasks hopens
  -- Nothing has been read and nothing is queued before `init`.
  obtain ⟨header, keepAliveTime, hs⟩ := hop.pristine
  have hnum : ℓ.session.numReadHandlers = 0 := by rw [hs]; rfl
  have hops : ℓ.session.readOps = [] := by rw [hs]; rfl
  have hqueued : (ℓ.popped ℓ.session.ioThread rest).queuedReads = 0 := by
    have hcounted := hone.counted
    simp only [Task.isRead] at hpopped
    omega
  have htrace : r.1.trace = ℓ.session.trace := hasks.trace
  have hfilter : r.1.msgFilter = ℓ.session.msgFilter := hasks.msgFilter
  have hasked : r.1.readOps = TCPSession.demanded ℓ.session.msgFilter.bytesWannaRead :=
    (TCPSession.readOps_append hasks.reads).trans (congrArg (· ++ TCPSession.demanded _) hops)
  have hcount : r.1.numReadHandlers = ℓ.session.numReadHandlers +
      (TCPSession.demanded ℓ.session.msgFilter.bytesWannaRead).length := hasks.numReadHandlers
  have hparsed : ((ℓ.popped ℓ.session.ioThread rest).onSession r).parsed = ℓ.parsed := by
    rw [onSession_eq]
    exact congrArg (List.map NetMessage.content) (congrArg SessionTrace.decoded htrace)
  refine
    { framed := by rw [hparsed, onSession_eq]; dsimp only; rw [htrace, hfilter]; exact h.framed
      short := by rw [hparsed]; exact h.short
      isPrefix := by rw [onSession_eq]; dsimp only; rw [htrace]; exact h.isPrefix
      asked := by
        rw [onSession_eq]
        dsimp only
        rw [hasked, hfilter]
        exact TCPSession.exact_of_demanded _
      queued := fun _ error data hmem => ?_
      reading := fun hnone _ => ?_
      ended := fun hby => ?_ }
  · rw [onSession_eq, hopens.effects] at hmem
    dsimp only at hmem
    rw [hopens.ioThread] at hmem
    refine absurd (mem_of_append_other ?_ error data hmem) (not_mem_of_queuedReads hqueued _ _)
    exact fun _ hmem => by cases hmem
  · rw [onSession_eq]
    dsimp only
    rw [hcount, hnum, length_demanded_of_framed hnone h.framed h.short h.isPrefix]
    rfl
  · rw [onSession_eq] at hby
    dsimp only at hby
    rw [htrace, hop.closedBy] at hby
    cases hby

/-- A read completes as the peer has it. -/
theorem Fed.complete {ℓ : Link MessageFilter} (h : Fed stream ℓ) (hone : OneRead ℓ) {a : Act}
    {task : Task} {s : TCPSession MessageFilter} (hc : Completes ℓ a task s)
    (hpeer : Peer stream ℓ a) :
    Fed stream (({ ℓ with session := s } : Link MessageFilter).post ℓ.session.ioThread task) := by
  have hreads := hc.reads
  have hops := hc.readOps
  have hread := hc.read
  rw [post_eq]
  cases hr : task.isRead with
  | false =>
      obtain ⟨k, timer, rfl⟩ := hc.session
      refine h.keep rfl ⟨rfl, rfl, rfl, hops hr, rfl, fun hopen => hopen⟩ (fun hby => hby) ?_
      exact mem_of_append_other (by simp [hr])
  | true =>
      obtain ⟨error, data, rfl⟩ := exists_of_isRead hr
      obtain ⟨i, op, rfl, hi, hop, hallows⟩ := hread error data rfl
      obtain ⟨hexact, hsize⟩ := h.asked op hop
      have hnil : s.readOps = [] := by
        have hle := hone.le_one
        simp only [Task.isRead, if_true] at hreads
        exact TCPSession.readOps_nil (by omega)
      obtain ⟨k, timer, rfl⟩ := hc.session
      refine
        { framed := h.framed
          short := h.short
          isPrefix := h.isPrefix
          asked := by dsimp only; rw [hnil]; exact fun _ hmem => by cases hmem
          queued := fun hopen error' data' hmem => ?_
          reading := h.reading
          ended := h.ended }
      rcases List.mem_append.mp hmem with hold | hnew
      · exact h.queued hopen error' data' hold
      · obtain ⟨rfl, rfl⟩ : error' = error ∧ data' = data := by simpa using hnew
        rcases hpeer op hi (by simpa using (List.mem_filter.mp hop).2) with
          hclosed | ⟨rfl, hfront⟩ | ⟨rfl, hend, hlt⟩
        · exact absurd (hclosed.symm.trans hopen) (by decide)
        · refine .inl ⟨rfl, ?_, hfront⟩
          rw [← hsize]
          have hlen : data'.length ≤ op.size ∧ data'.length = op.size := by
            simpa [ReadOp.allows, hexact] using hallows
          exact hlen.2
        · exact .inr ⟨by decide, hsize ▸ hlt, hend⟩

/-- The only read of the link has been taken from the queue. -/
theorem OneRead.taken {ℓ : Link MessageFilter} (h : OneRead ℓ) {error : ErrorCode}
    {data : List UInt8} {rest : List Task}
    (ht : ℓ.tasks ℓ.session.ioThread = .handleRead error data :: rest) :
    ℓ.session.numReadHandlers = 1 ∧ ℓ.session.readOps = [] ∧
      (ℓ.popped ℓ.session.ioThread rest).queuedReads = 0 := by
  have hpopped := queuedReads_popped ht fun _ => rfl
  have hcounted := h.counted
  have hle := h.le_one
  simp only [Task.isRead, if_true] at hpopped
  exact ⟨by omega, TCPSession.readOps_nil (by omega), by omega⟩

/-- `handle_read` hands the filter what the peer has sent, or ends with the stream. -/
theorem Fed.handleRead {ℓ : Link MessageFilter} (h : Fed stream ℓ) (hone : OneRead ℓ)
    (hmarked : ℓ.session.Marked) {error : ErrorCode} {data : List UInt8} {rest : List Task}
    (ht : ℓ.tasks ℓ.session.ioThread = .handleRead error data :: rest) (now : Nat)
    (found : Option Conn) :
    Fed stream ((ℓ.popped ℓ.session.ioThread rest).onSession
      (ℓ.session.handleRead (messageFilter host junk) now found error data)) := by
  obtain ⟨hnum, hops, hqueued⟩ := hone.taken ht
  have hmove := TCPSession.move_handleRead (messageFilter host junk) now ℓ.session found error data
  have hcontinues : ℓ.session.closed = false → Continues stream ℓ.session error data :=
    fun hopen => h.queued hopen error data (by rw [ht]; exact List.mem_cons_self)
  -- The read was the only one, so no other completion of `handle_read` is queued.
  have hrest : ∀ error' data', .handleRead error' data' ∉
      rest ++ postsTo ℓ.session.ioThread
        (ℓ.session.handleRead (messageFilter host junk) now found error data).2 := by
    intro error' data' hmem
    have hold := mem_of_append_other (fun x hx => isRead_of_fromSession (move_posts hmove hx))
      error' data' hmem
    exact not_mem_of_queuedReads hqueued error' data' (by simpa [Link.popped] using hold)
  -- The read ends the session, or its bytes go to the filter.
  by_cases hc : error ≠ .success ∨ ℓ.session.closed = true
  · have hkeep := TCPSession.handleRead_closing (F := messageFilter host junk) now ℓ.session found
      data hc
    have hended : (ℓ.session.handleRead (messageFilter host junk) now found error
        data).1.trace.closedBy = some .handleRead →
          ∃ tail, stream = frames networkHeader ℓ.parsed ++ tail ∧
            Incomplete networkHeader tail := by
      intro hby
      rcases hmove.closedBy with hsame | ⟨hnone, -⟩
      · exact h.ended (hsame.symm.trans hby)
      · have hopen : ℓ.session.closed = false := by rw [hmarked, hnone]; rfl
        -- Open so far: the read reports the end of the stream, in the middle of a frame.
        rcases hcontinues hopen with ⟨hsucc, -⟩ | ⟨-, hlt, hstream⟩
        · exact absurd hc (by simp [hsucc, hopen])
        · rw [← wanted_pending] at hlt
          rw [← hstream, h.framed]
          exact consumed_incomplete networkHeader (pending_lt _) ℓ.parsed hlt
    revert hkeep hended hrest
    generalize ℓ.session.handleRead (messageFilter host junk) now found error data = r
    intro hrest hkeep hended
    have hclosed : r.1.closed ≠ false := fun hopen => by cases hkeep.wasOpen hopen
    have hparsed : ((ℓ.popped ℓ.session.ioThread rest).onSession r).parsed = ℓ.parsed := by
      rw [onSession_eq]
      exact congrArg (List.map NetMessage.content) hkeep.decoded
    exact
      { framed := by
          rw [hparsed, onSession_eq]
          dsimp only
          rw [hkeep.delivered, hkeep.msgFilter]
          exact h.framed
        short := by rw [hparsed]; exact h.short
        isPrefix := by rw [onSession_eq]; dsimp only; rw [hkeep.delivered]; exact h.isPrefix
        asked := by
          rw [onSession_eq]
          dsimp only
          rw [hkeep.readOps, hkeep.msgFilter]
          exact h.asked
        queued := by rw [onSession_eq]; exact fun hopen => absurd hopen hclosed
        reading := by rw [onSession_eq]; exact fun _ hopen => absurd hopen hclosed
        ended := by rw [hparsed, onSession_eq]; exact hended }
  · obtain ⟨hsucc, hclosed⟩ := not_or.mp hc
    obtain rfl : error = .success := not_not.mp hsucc
    have hopen : ℓ.session.closed = false := by simpa using hclosed
    obtain ⟨-, hlen, hfront⟩ | ⟨hne, -⟩ := hcontinues hopen
    · have htakes := TCPSession.handleRead_takes host junk now found hopen hlen
      have hio := hmove.ioThread
      revert htakes hrest hio
      generalize ℓ.session.handleRead (messageFilter host junk) now found .success data = r
      intro hrest htakes hio
      -- The socket delivers what the filter has asked for: a whole header or a whole body.
      have hwanted : data.length = wanted networkHeader ℓ.session.msgFilter.pending := by
        rw [wanted_pending]
        exact hlen
      have hparsed : ((ℓ.popped ℓ.session.ioThread rest).onSession r).parsed =
          ℓ.parsed ++ (feed networkHeader ℓ.session.msgFilter.pending data).2.toList := by
        rw [onSession_eq]
        exact htakes.decoded
      have hframed : r.1.trace.delivered = consumed networkHeader r.1.msgFilter.pending
          (ℓ.parsed ++ (feed networkHeader ℓ.session.msgFilter.pending data).2.toList) := by
        rw [htakes.delivered, htakes.pending, consumed_feed networkHeader hwanted, h.framed]
      have hshort : ∀ b ∈ ℓ.parsed ++
          (feed networkHeader ℓ.session.msgFilter.pending data).2.toList,
          b.length < networkHeader.bound := by
        intro b hb
        rcases List.mem_append.mp hb with hold | hnew
        · exact h.short b hold
        · -- A new message is a body of the announced length.
          cases hp : ℓ.session.msgFilter.pending with
          | none =>
              rw [hp] at hnew
              cases hnew
          | some n =>
              rw [hp] at hnew hwanted
              obtain rfl : b = data := by simpa [feed] using hnew
              rw [hwanted]
              exact pending_lt _ n hp
      have hfront' : r.1.trace.delivered <+: stream := by
        rw [htakes.delivered]
        exact hfront
      exact
        { framed := by rw [hparsed, onSession_eq]; exact hframed
          short := by rw [hparsed]; exact hshort
          isPrefix := by rw [onSession_eq]; exact hfront'
          asked := by
            rw [onSession_eq]
            dsimp only
            rw [TCPSession.readOps_append htakes.reads, hops, List.nil_append]
            exact TCPSession.exact_of_demanded _
          queued := fun _ error' data' hmem => by
            rw [onSession_eq] at hmem
            dsimp only at hmem
            rw [hio] at hmem
            exact absurd (by simpa [Link.popped] using hmem) (hrest error' data')
          reading := fun hnone _ => by
            rw [onSession_eq]
            dsimp only
            rw [htakes.numReadHandlers, hnum,
              length_demanded_of_framed hnone hframed hshort hfront']
            rfl
          ended := fun hby => by
            rw [onSession_eq] at hby
            dsimp only at hby
            have hm := hmarked
            rw [TCPSession.Marked, hopen, ← htakes.closedBy, hby] at hm
            cases hm }
    · exact absurd rfl hne

theorem Fed.step {ℓ ℓ' : Link MessageFilter} {a : Act} (h : Fed stream ℓ) (hone : OneRead ℓ)
    (hlife : Lifecycle ℓ) (hstep : Step (messageFilter host junk) ℓ a ℓ')
    (hpeer : Peer stream ℓ a) : Fed stream ℓ' := by
  have hevolves := Step.evolves hlife hstep
  cases hstep with
  | connect id script hidle hopening =>
      have hopened : Fed stream (ℓ.opened id) := by
        rw [Link.opened, post_eq]
        exact h.session rfl (mem_of_append_other (by simp [Task.isRead]))
      exact (calls_callback (.inr ⟨hopening.threadId, hlife.ioThread_lt⟩) _ script).fed hopened
  | init rest r hop ht _ hr =>
      subst hr
      exact h.init hone hop ht
  | complete task s _ hc => exact h.complete hone hc hpeer
  | logic script => exact (calls_runScript hlife.callable script).fed h
  | tick => exact h.session rfl fun _ _ hmem => hmem
  | run t task rest scripts ht hpopped hran hex =>
      cases hread : task.isRead with
      | true =>
          obtain ⟨error, data, rfl⟩ := exists_of_isRead hread
          obtain rfl : t = ℓ.session.ioThread := hpopped.taskOk
          rw [← Option.some.inj hex]
          exact h.handleRead hone (hpopped.started rfl).marked ht _ _
      | false =>
          refine (h.popped ht).keep hevolves.ioThread
            (run_sameReads hpopped hran hex hread) (fun hby => ?_) ?_
          · rcases hevolves.closedBy with hsame | ⟨-, scripts', task', rest', ha, ht', hset⟩
            · exact hsame.symm.trans hby
            · -- the task that has closed the session is the one that has run
              cases ha
              obtain ⟨rfl, -⟩ := List.cons.inj (ht.symm.trans ht')
              rw [hby] at hset
              have hread' : task.isRead = true := by
                cases task <;> first | rfl | cases hset
              exact absurd (hread.symm.trans hread') (by decide)
          · obtain ⟨more, heq, hmore⟩ := hpopped.appends hran ℓ.session.ioThread
            show ∀ error data, _ ∈ ℓ'.tasks ℓ.session.ioThread → _
            rw [heq]
            exact mem_of_append_other fun x hx =>
              (hmore x hx).elim isRead_of_fromSession isRead_of_fromHandler

end Link
end EddyServer
