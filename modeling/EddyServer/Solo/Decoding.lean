import EddyServer.Solo.Lifecycle
import EddyServer.TCPSession.Reading

/-!
# What a session decodes

A session with the default filter, whatever its socket reports and whoever closes it: `handle_read`
hands the filter exactly the bytes that the filter has asked for, so `read` takes all of them, and
what the peer has sent is cut into the frames of the messages that come out, and a header that still
waits for its body.
-/

namespace EddyServer

open Framing MessageFilter
open NetMessage (Junk)

namespace TCPSession

variable {Φ : Type} {F : MessageFilterInterface Φ}

/-- Only `handle_read` is about the read side. -/
theorem Runs.sameReads {now : Nat} {s : TCPSession Φ} {found : Option Conn} {task : Task}
    {r : TCPSession Φ × List Effect} (h : Runs F now s found task r)
    (htask : task.isRead = false) : SameReads s r.1 := by
  cases h with
  | handleRead error data => cases htask
  | hanldeWrite error => exact hanldeWrite_sameReads s found error
  | handleSafeClose error data => exact handleSafeClose_sameReads s error data
  | closeTimer error t ht => exact closeTimerExpired_sameReads ht
  | close => exact close_sameReads s _ found
  | closeSession id => exact close_sameReads s _ found
  | packMessageList => exact packMessageList_sameReads s

/-- The messages of a session with the default filter are well formed. -/
theorem handleRead_wf (host : ByteOrder) (junk : Junk) (now : Nat)
    {s : TCPSession MessageFilter} (found : Option Conn) {data : List UInt8}
    (hopen : s.closed = false) (hlen : data.length = s.msgFilter.bytesWannaRead)
    (hwf : ∀ m ∈ s.trace.decoded, m.WF) :
    ∀ m ∈ (s.handleRead (messageFilter host junk) now found .success data).1.trace.decoded,
      m.WF := by
  have hbuffer : overwrite s.bufferReceiving 0 data =
      data ++ s.bufferReceiving.drop data.length := by simp [overwrite]
  obtain ⟨-, -, -, hnew⟩ := MessageFilter.read_spec host junk hlen
  unfold handleRead
  dsimp only
  rw [if_neg (by simp [hopen]), readMessages_eq]
  dsimp only
  rw [(startRead_asks host junk _).trace]
  intro m hm
  rcases List.mem_append.mp hm with hold | hread
  · exact hwf m hold
  · rw [hbuffer] at hread
    have hsame := MessageFilter.read_append host junk hlen (s.bufferReceiving.drop data.length)
    exact hnew m (hsame ▸ hread)

end TCPSession

namespace Solo

variable {host : ByteOrder} {junk : Junk} {P : List UInt8 → Prop}

/-- The contents of the messages that the session has decoded. -/
def parsed (σ : Solo MessageFilter) : List (List UInt8) :=
  σ.session.trace.decoded.map NetMessage.content

/-- What `P` says of the bytes that have been delivered stays true when a read completes. -/
def Carries {Φ : Type} (P : List UInt8 → Prop) (σ : Solo Φ) (a : Act) : Prop :=
  ∀ i data, a = .readDone i .success data → ∀ op ∈ σ.session.socket.reads[i]?,
    op.handler = .handleRead →
      σ.session.closed = true ∨ P (σ.session.trace.delivered ++ data)

/-- The read side of a session. `P` is what is known of the bytes that its peer has sent. -/
structure Decodes (P : List UInt8 → Prop) (σ : Solo MessageFilter) : Prop where
  framed : σ.session.trace.delivered =
    consumed networkHeader σ.session.msgFilter.pending σ.parsed
  wf : ∀ m ∈ σ.session.trace.decoded, m.WF
  /-- No message is empty: the session does not ask for a body of no bytes. -/
  short : ∀ b ∈ σ.parsed, b ≠ [] ∧ b.length < networkHeader.bound
  asked : ∀ op ∈ σ.session.readOps, 0 < σ.session.msgFilter.bytesWannaRead ∧
    op.exact = true ∧ op.size = σ.session.msgFilter.bytesWannaRead
  carried : P σ.session.trace.delivered
  queued : σ.session.closed = false → ∀ data, .handleRead .success data ∈ σ.completions →
    (0 < data.length ∧ data.length = σ.session.msgFilter.bytesWannaRead) ∧
      P (σ.session.trace.delivered ++ data)

/-- A change that leaves the read side alone. -/
theorem Decodes.keep {σ σ' : Solo MessageFilter} (h : Decodes P σ)
    (hreads : TCPSession.SameReads σ.session σ'.session)
    (hcompletions : ∀ error data, .handleRead error data ∈ σ'.completions →
      .handleRead error data ∈ σ.completions) : Decodes P σ' := by
  have hparsed : σ'.parsed = σ.parsed := congrArg (List.map NetMessage.content) hreads.decoded
  refine
    { framed := by rw [hparsed, hreads.delivered, hreads.msgFilter]; exact h.framed
      wf := by rw [hreads.decoded]; exact h.wf
      short := by rw [hparsed]; exact h.short
      asked := by rw [hreads.readOps, hreads.msgFilter]; exact h.asked
      carried := by rw [hreads.delivered]; exact h.carried
      queued := fun hopen data hmem => ?_ }
  rw [hreads.msgFilter, hreads.delivered]
  exact h.queued (hreads.wasOpen hopen) data (hcompletions _ data hmem)

theorem Decodes.start (hP : P []) (conn : Conn) (clock : Nat) (ioThread : ThreadIx)
    (header : BitVec 16) (keepAliveTime : Nat) (id : TCPSessionID) :
    Decodes P (Solo.start (messageFilter host junk) conn clock ioThread
      (MessageFilter.new header) keepAliveTime id) := by
  have hasks := TCPSession.init_asks host junk clock
    (.new ioThread (MessageFilter.new header) keepAliveTime) id
  have hstart : (Solo.start (messageFilter host junk) conn clock ioThread
      (MessageFilter.new header) keepAliveTime id) =
      { conn := conn
        clock := clock
        session := (TCPSession.init (messageFilter host junk) clock
          (.new ioThread (MessageFilter.new header) keepAliveTime) id).1
        queued := true
        completions := []
        posted := []
        encoded := [] } := rfl
  rw [hstart]
  generalize (TCPSession.init (messageFilter host junk) clock
    (.new ioThread (MessageFilter.new header) keepAliveTime) id).1 = s at hasks
  refine ⟨?_, ?_, ?_, ?_, ?_, fun _ => nofun⟩
  · rw [parsed]
    dsimp only
    rw [hasks.trace, hasks.msgFilter]
    rfl
  · dsimp only
    rw [hasks.trace]
    nofun
  · rw [parsed]
    dsimp only
    rw [hasks.trace]
    nofun
  · dsimp only
    rw [TCPSession.readOps_append hasks.reads, hasks.msgFilter]
    exact fun op hop =>
      ⟨TCPSession.pos_of_demanded _ op hop, TCPSession.exact_of_demanded _ op hop⟩
  · dsimp only
    rw [hasks.trace]
    exact hP

/-! ## Steps -/

/-- A session that runs a function with result `r` gains no completed read. -/
theorem handleRead_of_onSession {σ : Solo MessageFilter} {s : TCPSession MessageFilter}
    {task : Task} {r : TCPSession MessageFilter × List Effect}
    (hmove : TCPSession.Move s σ.found task r) {error : ErrorCode} {data : List UInt8}
    (hmem : .handleRead error data ∈ (σ.onSession r).completions) :
    .handleRead error data ∈ σ.completions := by
  have hafter := after_of_move hmove
  revert hmem
  generalize σ.onSession r = υ at hafter
  intro hmem
  -- only an aborted wait has been queued
  cases hafter with
  | stays more _ _ hmore | leaves _ more _ _ _ hmore =>
      rcases List.mem_append.mp hmem with hold | hnew
      · exact hold
      · cases hmore _ hnew

/-- The one read that was on its way has been taken. -/
theorem Lives.taken {σ : Solo MessageFilter} (h : Lives σ) {error : ErrorCode}
    {data : List UInt8} {rest : List Task} (ht : σ.completions = .handleRead error data :: rest) :
    σ.session.readOps = [] ∧ rest.countP Task.isRead = 0 := by
  have hreads := h.reads
  have hle := h.reads_le
  rw [readsOf, ht, List.countP_cons_of_pos rfl] at hreads
  exact ⟨TCPSession.readOps_nil (by omega), by omega⟩

theorem not_mem_of_countP {ts : List Task} (h : ts.countP Task.isRead = 0) (error : ErrorCode)
    (data : List UInt8) : .handleRead error data ∉ ts := fun hmem =>
  absurd (List.countP_eq_zero.mp h _ hmem) (by simp [Task.isRead])

/-- `handle_read` hands the filter what it has asked for, or ends the session. -/
theorem Decodes.handleRead {σ : Solo MessageFilter} (h : Decodes P σ) (hlives : Lives σ)
    {error : ErrorCode} {data : List UInt8} {rest : List Task}
    (ht : σ.completions = .handleRead error data :: rest) (now : Nat) (found : Option Conn)
    (hfound : found = ({ σ with completions := rest } : Solo MessageFilter).found) :
    Decodes P (({ σ with completions := rest } : Solo MessageFilter).onSession
      (σ.session.handleRead (messageFilter host junk) now found error data)) := by
  obtain ⟨hops, hrest⟩ := hlives.taken ht
  have hmove := TCPSession.move_handleRead (messageFilter host junk) now σ.session found error data
  rw [hfound] at hmove
  have hnone : ∀ error' data', .handleRead error' data' ∉ (({ σ with completions := rest } :
      Solo MessageFilter).onSession (σ.session.handleRead (messageFilter host junk) now found error
        data)).completions := by
    rw [hfound]
    exact fun error' data' hmem =>
      not_mem_of_countP hrest error' data' (handleRead_of_onSession hmove hmem)
  have hsession := (after_of_move (σ := { σ with completions := rest }) hmove).session
  rw [← hfound] at hsession
  generalize ({ σ with completions := rest } : Solo MessageFilter).onSession
    (σ.session.handleRead (messageFilter host junk) now found error data) = υ at hnone hsession ⊢
  by_cases hc : error ≠ .success ∨ σ.session.closed = true
  · have hkeep := TCPSession.handleRead_closing (F := messageFilter host junk) now σ.session found
      data hc
    rw [← hsession] at hkeep
    have hclosed : Decodes P { σ with
        session := { σ.session with
          numReadHandlers := σ.session.numReadHandlers - 1, closed := true } } :=
      ⟨h.framed, h.wf, h.short, h.asked, h.carried, nofun⟩
    exact hclosed.keep hkeep fun error' data' hmem => absurd hmem (hnone error' data')
  · obtain ⟨hsucc, hclosed⟩ := not_or.mp hc
    obtain rfl : error = .success := not_not.mp hsucc
    have hopen : σ.session.closed = false := by simpa using hclosed
    obtain ⟨⟨hpos, hlen⟩, hP⟩ := h.queued hopen data (by rw [ht]; exact List.mem_cons_self)
    have htakes := TCPSession.handleRead_takes host junk now found hopen hlen
    have hwf := TCPSession.handleRead_wf host junk now found hopen hlen h.wf
    generalize σ.session.handleRead (messageFilter host junk) now found .success data = r
      at htakes hwf hsession
    have hwanted : data.length = wanted networkHeader σ.session.msgFilter.pending := by
      rw [wanted_pending]
      exact hlen
    have hparsed : υ.parsed =
        σ.parsed ++ (feed networkHeader σ.session.msgFilter.pending data).2.toList := by
      rw [parsed, hsession]
      exact htakes.decoded
    refine
      { framed := ?_
        wf := by rw [hsession]; exact hwf
        short := fun b hb => ?_
        asked := ?_
        carried := by rw [hsession, htakes.delivered]; exact hP
        queued := fun _ data' hmem => absurd hmem (hnone _ data') }
    · rw [hparsed, hsession, htakes.delivered, htakes.pending, consumed_feed networkHeader hwanted,
        h.framed]
    · rw [hparsed] at hb
      rcases List.mem_append.mp hb with hold | hnew
      · exact h.short b hold
      · -- a new message is a body of the announced length
        cases hp : σ.session.msgFilter.pending with
        | none =>
            rw [hp] at hnew
            cases hnew
        | some n =>
            rw [hp] at hnew hwanted
            obtain rfl : b = data := by simpa [feed] using hnew
            refine ⟨List.length_pos_iff.mp hpos, ?_⟩
            rw [hwanted]
            exact pending_lt _ n hp
    · rw [hsession, TCPSession.readOps_append htakes.reads, hops, List.nil_append]
      exact fun op hop =>
        ⟨TCPSession.pos_of_demanded _ op hop, TCPSession.exact_of_demanded _ op hop⟩

/-- The other functions of a session leave its read side alone. -/
theorem Decodes.move {F : MessageFilterInterface MessageFilter} {σ : Solo MessageFilter}
    (h : Decodes P σ) (completions : List Task)
    (hrest : ∀ task ∈ completions, task ∈ σ.completions) {task : Task}
    {r : TCPSession MessageFilter × List Effect} (htask : task.isRead = false)
    (hruns : TCPSession.Runs F σ.clock σ.session σ.found task r) :
    Decodes P (({ σ with completions := completions } : Solo MessageFilter).onSession r) := by
  have hmove : TCPSession.Move σ.session
      ({ σ with completions := completions } : Solo MessageFilter).found task r := hruns.move
  refine h.keep ?_ fun error data hmem => hrest _ (handleRead_of_onSession hmove hmem)
  rw [(after_of_move hmove).session]
  exact hruns.sameReads htask

/-- What completes a read is what the filter has asked for. -/
theorem Decodes.complete {σ : Solo MessageFilter} (h : Decodes P σ) {i : Nat} {error : ErrorCode}
    {data : List UInt8} (hok : Carries P σ (.readDone i error data)) {op : ReadOp}
    (hop : σ.session.socket.reads[i]? = some op) (hallows : op.allows error data = true) :
    Decodes P (σ.complete { σ.session with
        socket := { σ.session.socket with reads := σ.session.socket.reads.eraseIdx i } }
      (op.completion error data)) := by
  refine ⟨h.framed, h.wf, h.short, fun op' hop' => h.asked op' ?_, h.carried,
    fun hopen data' hmem => ?_⟩
  · exact List.mem_filter.mpr ⟨List.mem_of_mem_eraseIdx (List.mem_filter.mp hop').1,
      (List.mem_filter.mp hop').2⟩
  · rcases List.mem_append.mp hmem with hold | hnew
    · exact h.queued hopen data' hold
    · -- the completion of a read of `handle_read`
      cases hh : op.handler with
      | handleSafeClose =>
          rw [ReadOp.completion, hh] at hnew
          cases List.mem_singleton.mp hnew
      | handleRead =>
          rw [ReadOp.completion, hh] at hnew
          obtain ⟨rfl, rfl⟩ : ErrorCode.success = error ∧ data' = data := by simpa using hnew
          obtain ⟨hpos, hexact, hsize⟩ := h.asked op (List.mem_filter.mpr
            ⟨List.mem_of_getElem? hop, by simp [hh]⟩)
          have hlen : data'.length = op.size := by
            simp only [ReadOp.allows, hexact, Bool.and_eq_true, if_true] at hallows
            simpa using hallows.2
          have hclosed : σ.session.closed ≠ true := by
            rw [show σ.session.closed = false from hopen]
            decide
          have hwanted := hlen.trans hsize
          exact ⟨⟨hwanted ▸ hpos, hwanted⟩, (hok i data' rfl op hop hh).resolve_left hclosed⟩

theorem Decodes.step {σ σ' : Solo MessageFilter} {a : Act} (h : Decodes P σ) (hlives : Lives σ)
    (hok : Carries P σ a) (hstep : Solo.step (messageFilter host junk) σ a = some σ') :
    Decodes P σ' := by
  unfold Solo.step at hstep
  cases a with
  | run =>
      dsimp only at hstep
      cases ht : σ.completions with
      | nil =>
          rw [ht] at hstep
          cases hstep
      | cons task rest =>
          rw [ht] at hstep
          cases hread : task.isRead with
          | true =>
              obtain ⟨error, data, rfl⟩ : ∃ error data, task = .handleRead error data := by
                cases task <;> first | exact ⟨_, _, rfl⟩ | cases hread
              cases hstep
              exact h.handleRead hlives ht σ.clock _ rfl
          | false =>
              obtain ⟨r, rfl, hruns⟩ := runs_of_exec hstep
              exact h.move rest (by rw [ht]; exact fun _ hmem => List.mem_cons_of_mem _ hmem) hread hruns
  | readDone i error data =>
      dsimp only at hstep
      cases hop : σ.session.socket.reads[i]? with
      | none =>
          rw [hop] at hstep
          cases hstep
      | some op =>
          rw [hop] at hstep
          dsimp only at hstep
          split_ifs at hstep with hallows
          cases hstep
          exact h.complete hok hop hallows
  | writeDone error =>
      dsimp only at hstep
      cases hw : σ.session.socket.writing with
      | nil =>
          rw [hw] at hstep
          cases hstep
      | cons range writing =>
          rw [hw] at hstep
          cases hstep
          exact h.keep ⟨rfl, rfl, rfl, rfl, rfl, fun hc => hc⟩ fun error data hmem => by
            simpa [Solo.complete] using hmem
  | timerDone =>
      dsimp only at hstep
      split_ifs at hstep
      cases hstep
      exact h.keep ⟨rfl, rfl, rfl, rfl, rfl, fun hc => hc⟩ fun error data hmem => by
        simpa [Solo.complete] using hmem
  | post messages =>
      obtain ⟨s, hs, rfl⟩ := Option.map_eq_some_iff.mp hstep
      exact h.keep (TCPSession.postMessageList_sameReads host junk hs) fun _ _ hmem => hmem
  | close =>
      cases hstep
      exact h.move (F := messageFilter host junk) σ.completions (fun _ hmem => hmem) rfl (.closeSession 0)
  | keepAlive =>
      cases hstep
      exact h.move (F := messageFilter host junk) σ.completions (fun _ hmem => hmem) rfl .close
  | pack =>
      cases hstep
      exact h.move (F := messageFilter host junk) σ.completions (fun _ hmem => hmem) rfl .packMessageList
  | deliver =>
      cases hstep
      exact h.keep ⟨rfl, rfl, rfl, rfl, rfl, fun hc => hc⟩ fun _ _ hmem => hmem
  | tick n =>
      cases hstep
      exact h.keep (.refl _) fun _ _ hmem => hmem

end Solo
end EddyServer
