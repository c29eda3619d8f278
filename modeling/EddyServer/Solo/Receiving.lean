import EddyServer.Solo.Lifecycle

/-!
# The receive buffer and its readers

`handle_read` and the drain that `hanlde_close` starts read into the same buffer. `hanlde_close`
waits for the write that is outstanding but not for the read: where `close` or a completed write
ends the session, the drain is a second reader. Where no read is on the socket when the drain
starts, there is one reader at a time in every run.
-/

namespace EddyServer

namespace TCPSession

variable {Φ : Type} {F : MessageFilterInterface Φ}

/-- The task comes to `hanlde_close`. -/
def Closing (s : TCPSession Φ) : Task → Prop
  | .handleRead error _ | .hanldeWrite error => error ≠ .success ∨ s.closed = true
  | .close | .closeSession _ => s.closed = false
  | _ => False

instance (s : TCPSession Φ) : (task : Task) → Decidable (s.Closing task)
  | .handleRead error _ | .hanldeWrite error =>
    inferInstanceAs (Decidable (error ≠ .success ∨ s.closed = true))
  | .close | .closeSession _ => inferInstanceAs (Decidable (s.closed = false))
  | .init _ | .handleSafeClose .. | .closeTimer _ | .sessionPackMessageList
  | .sessionSendMessageListDirectly | .sendMessageListToHandler .. | .onSessionClosed _
  | .handlerPackMessageList | .handlerSendMessageListDirectly | .sendMessageListToSession .. =>
    isFalse fun h => h

/-- The task comes to `hanlde_close`, no write is outstanding then, and the session is in its
queue. -/
def StartsDrain (s : TCPSession Φ) (found : Option Conn) (task : Task) : Prop :=
  s.Closing task ∧ s.numWriteHandlers - (if task.isWrite then 1 else 0) ≤ 0 ∧ found.isSome

instance (s : TCPSession Φ) (found : Option Conn) (task : Task) :
    Decidable (s.StartsDrain found task) :=
  inferInstanceAs (Decidable (_ ∧ _ ∧ _))

theorem mem_hanldeClose (u : TCPSession Φ) (found : Option Conn) :
    .queueRemove ∈ (u.hanldeClose found).2 ↔ u.numWriteHandlers ≤ 0 ∧ found.isSome := by
  unfold hanldeClose
  split_ifs with hbusy
  · simp [Int.not_le.mpr hbusy]
  · cases found with
    | none => simp
    | some entry => simp [Int.not_lt.mp hbusy]

theorem mem_close (s : TCPSession Φ) (cause : CloseCause) (found : Option Conn) :
    .queueRemove ∈ (s.close cause found).2 ↔
      s.closed = false ∧ s.numWriteHandlers - 0 ≤ 0 ∧ found.isSome := by
  unfold close
  split_ifs with hc
  · simp [hc]
  · rw [mem_hanldeClose, Int.sub_zero]
    simp [hc, markClosed]

/-- The drain starts where the session leaves its queue. -/
theorem Runs.mem_iff {now : Nat} {s : TCPSession Φ} {found : Option Conn} {task : Task}
    {r : TCPSession Φ × List Effect} (h : Runs F now s found task r) :
    .queueRemove ∈ r.2 ↔ s.StartsDrain found task := by
  cases h with
  | handleRead error data =>
      show _ ↔ (error ≠ .success ∨ s.closed = true) ∧ s.numWriteHandlers - 0 ≤ 0 ∧ found.isSome
      rw [Int.sub_zero]
      unfold TCPSession.handleRead
      dsimp only
      split_ifs with hc
      · rw [mem_hanldeClose]
        simp [hc, markClosed]
      · rw [readMessages_eq]
        simp only [hc, false_and, iff_false]
        split_ifs <;> simp
  | hanldeWrite error =>
      show _ ↔ (error ≠ .success ∨ s.closed = true) ∧ s.numWriteHandlers - 1 ≤ 0 ∧ found.isSome
      unfold TCPSession.hanldeWrite
      dsimp only
      split_ifs with hc
      · rw [mem_hanldeClose]
        simp [hc, markClosed]
      · simp [hc]
      · simp [hc]
  | handleSafeClose error data =>
      unfold TCPSession.handleSafeClose StartsDrain Closing
      split_ifs <;> simp
  | closeTimer error t ht => simp [StartsDrain, Closing]
  | close => exact mem_close s _ found
  | closeSession id => exact mem_close s _ found
  | packMessageList =>
      unfold TCPSession.packMessageList StartsDrain Closing
      split_ifs <;> simp

/-- What `task` does with the receive buffer of `s` and with the reads into it. -/
inductive Fills (s : TCPSession Φ) (task : Task) (r : TCPSession Φ × List Effect) : Prop
  | same : .queueRemove ∉ r.2 → r.1.socket.reads = s.socket.reads →
      r.1.bufferReceiving = s.bufferReceiving → Fills s task r
  /-- `handle_read` starts the next read, if any. -/
  | next : .queueRemove ∉ r.2 → task.isRead = true → s.closed = false →
      r.1.outstandingDrains = s.outstandingDrains → Fills s task r
  /-- The drain reads, for the first time or again. -/
  | drain : .queueRemove ∈ r.2 ∨ task.isDrain = true →
      r.1.outstandingReads = s.outstandingReads →
      r.1.outstandingDrains = s.outstandingDrains + 1 → Fills s task r

theorem hanldeClose_fills {s u : TCPSession Φ} (found : Option Conn) (task : Task)
    (hreads : u.socket.reads = s.socket.reads) (hbuffer : u.bufferReceiving = s.bufferReceiving) :
    Fills s task (u.hanldeClose found) := by
  unfold hanldeClose
  split_ifs
  · exact .same (by simp) hreads hbuffer
  · cases found with
    | none => exact .same (by simp) hreads hbuffer
    | some entry =>
        refine .drain (.inl (by simp)) ?_ ?_
        · simp [outstandingReads, Socket.asyncReadSome, hreads]
        · simp [outstandingDrains, Socket.asyncReadSome, hreads]

theorem close_fills (s : TCPSession Φ) (cause : CloseCause) (found : Option Conn) (task : Task) :
    Fills s task (s.close cause found) := by
  unfold close
  split_ifs
  · exact .same (by simp) rfl rfl
  · exact hanldeClose_fills found task rfl rfl

theorem startRead_drains (s : TCPSession Φ) :
    (s.startRead F).outstandingDrains = s.outstandingDrains := by
  unfold startRead outstandingDrains
  dsimp only
  split_ifs <;> simp [Socket.asyncRead, Socket.asyncReadSome]

theorem Runs.fills {now : Nat} {s : TCPSession Φ} {found : Option Conn} {task : Task}
    {r : TCPSession Φ × List Effect} (h : Runs F now s found task r) : Fills s task r := by
  cases h with
  | handleRead error data =>
      unfold TCPSession.handleRead
      dsimp only
      split_ifs with hc
      · exact hanldeClose_fills found _ rfl rfl
      · have hopen : s.closed = false := by simpa using (not_or.mp hc).2
        rw [readMessages_eq]
        refine .next ?_ rfl hopen (startRead_drains _)
        dsimp only
        split_ifs <;> simp
  | hanldeWrite error =>
      unfold TCPSession.hanldeWrite
      dsimp only
      split_ifs
      · exact hanldeClose_fills found _ rfl rfl
      · exact .same (by simp) rfl rfl
      · exact .same (by simp) rfl rfl
  | handleSafeClose error data =>
      unfold TCPSession.handleSafeClose
      split_ifs
      · exact .same (by simp) rfl rfl
      · exact .same (by simp) rfl rfl
      · refine .drain (.inr rfl) ?_ ?_
        · simp [outstandingReads, Socket.asyncReadSome]
        · simp [outstandingDrains, Socket.asyncReadSome]
  | closeTimer error t ht =>
      unfold closeTimerExpired at ht
      split_ifs at ht <;> cases ht <;> exact .same (by simp) rfl rfl
  | close => exact close_fills s _ found _
  | closeSession id => exact close_fills s _ found _
  | packMessageList =>
      unfold TCPSession.packMessageList
      split_ifs <;> exact .same (by simp) rfl rfl

theorem postMessageList_receiving {s t : TCPSession Φ} {messages : List NetMessage}
    (h : s.postMessageList F messages = some t) :
    t.socket.reads = s.socket.reads ∧ t.bufferReceiving = s.bufferReceiving := by
  unfold postMessageList at h
  dsimp only at h
  split_ifs at h <;> cases h <;> exact ⟨rfl, rfl⟩

end TCPSession

namespace Solo

variable {Φ : Type} {F : MessageFilterInterface Φ}

/-- The step starts the drain. -/
def StartsDrain (σ : Solo Φ) (a : Act) : Prop :=
  ∃ task ∈ σ.runs a, σ.session.StartsDrain σ.found task

/-- If the step starts the drain, no read is on the socket. -/
def DrainsAlone (σ : Solo Φ) (a : Act) : Prop := σ.StartsDrain a → σ.session.socket.reads = []

instance StartsDrain.decidable (σ : Solo Φ) (a : Act) : Decidable (σ.StartsDrain a) :=
  match h : σ.runs a with
  | none => isFalse (by
      rintro ⟨task, htask, -⟩
      rw [h] at htask
      cases htask)
  | some task => decidable_of_iff (σ.session.StartsDrain σ.found task) (by simp [StartsDrain, h])

instance DrainsAlone.decidable (σ : Solo Φ) (a : Act) : Decidable (DrainsAlone σ a) :=
  inferInstanceAs (Decidable (_ → _))

/-- What the step must not do to the receive buffer: there is one reader at most, and while there is
one the buffer stays as it is. -/
def OneReader (σ σ' : Solo Φ) : Prop :=
  σ'.session.socket.reads.length ≤ 1 ∧
    (σ.session.socket.reads ≠ [] → σ'.session.bufferReceiving = σ.session.bufferReceiving)

/-- The reads of the drain that are outstanding, or have completed and wait for
`handle_safe_close`. -/
def drainsOf (σ : Solo Φ) : Nat :=
  σ.session.outstandingDrains + σ.completions.countP Task.isDrain

theorem counts_isDrain : Counts Task.isDrain := by
  intro task htask
  cases task <;> first | rfl | cases htask

/-- Nothing drains the socket of a session that is in its queue. -/
def Undrained (σ : Solo Φ) : Prop := σ.queued = true → σ.drainsOf = 0

theorem Undrained.start (conn : Conn) (clock : Nat) (ioThread : ThreadIx) (filter : Φ)
    (keepAliveTime : Nat) (id : TCPSessionID) :
    Undrained (start F conn clock ioThread filter keepAliveTime id) :=
  fun _ => TCPSession.startRead_drains _

/-- What a function of the session does to the count of the drain's reads. -/
theorem drains_of_runs {σ : Solo Φ} {a : Act} {task : Task} {r : TCPSession Φ × List Effect}
    (htask : σ.runs a = some task)
    (hruns : TCPSession.Runs F σ.clock σ.session σ.found task r) :
    ((σ.taken a).onSession r).drainsOf + (if task.isDrain then 1 else 0) +
      σ.session.outstandingDrains = σ.drainsOf + r.1.outstandingDrains := by
  have htaken := taken_of_runs htask
  have hafter := after_of_move (σ := σ.taken a) (htaken.found ▸ hruns.move)
  have hcount := htaken.count counts_isDrain
  rw [← hafter.count (p := Task.isDrain) rfl] at hcount
  unfold drainsOf
  rw [hafter.session]
  omega

/-- An operation completes, or a batch is posted: the count stays as it is. -/
theorem drains_of_complete {σ : Solo Φ} {task : Task} {s : TCPSession Φ}
    (hs : TCPSession.Completes σ.session task s) : (σ.complete s task).drainsOf = σ.drainsOf := by
  have hdrains := hs.drains
  show s.outstandingDrains + (σ.completions ++ [task]).countP Task.isDrain = σ.drainsOf
  rw [List.countP_append, List.countP_singleton]
  unfold drainsOf
  omega

theorem drains_of_post {σ : Solo Φ} {messages : List NetMessage} {s : TCPSession Φ}
    (hposts : TCPSession.Posts F σ.session messages s) (bytes : List UInt8) :
    ({ σ with session := s, encoded := bytes } : Solo Φ).drainsOf = σ.drainsOf := by
  unfold drainsOf TCPSession.outstandingDrains
  rw [(TCPSession.postMessageList_receiving hposts.run).1]

theorem Undrained.step {σ σ' : Solo Φ} {a : Act} (h : Undrained σ) (hev : Event F σ a σ') :
    Undrained σ' := by
  cases hev with
  | move _ task r htask hruns =>
      intro hq
      have htaken := taken_of_runs htask
      have hafter := after_of_move (σ := σ.taken a) (htaken.found ▸ hruns.move)
      obtain ⟨hq, hstays⟩ := hafter.queued.mp hq
      have hzero := h (htaken.queued ▸ hq)
      have hdrains := drains_of_runs htask hruns
      cases hruns.fills with
      | same _ hreads _ =>
          have hsame : r.1.outstandingDrains = σ.session.outstandingDrains := by
            rw [TCPSession.outstandingDrains, hreads, TCPSession.outstandingDrains]
          omega
      | next _ _ _ hsame => omega
      | drain hkind _ _ =>
          -- no read of the drain can have completed
          have hdrain := hkind.resolve_left hstays
          have hcount := htaken.count counts_isDrain
          rw [if_pos hdrain] at hcount
          unfold drainsOf at hzero
          omega
  | post messages s hposts => exact fun hq => (drains_of_post hposts _).trans (h hq)
  | complete _ task s _ hs => exact fun hq => (drains_of_complete hs).trans (h hq)
  | deliver => exact h
  | tick n => exact h

/-- Once the session has left its queue the buffer belongs to the drain, which reads once at a
time. -/
structure Receiving (σ : Solo Φ) : Prop where
  undrained : Undrained σ
  after : σ.queued = false → σ.session.outstandingReads = 0
  le_one : σ.drainsOf ≤ 1

theorem Receiving.length_le {σ : Solo Φ} (h : Receiving σ) (hlives : Lives σ) :
    σ.session.socket.reads.length ≤ 1 := by
  have hreads := hlives.reads
  have hle := hlives.reads_le
  have hdrains := h.le_one
  have hbefore := h.undrained
  have hafter := h.after
  unfold readsOf at hreads
  unfold Undrained at hbefore
  unfold drainsOf at hdrains hbefore
  rw [TCPSession.length_reads]
  cases hq : σ.queued with
  | true =>
      have hzero := hbefore hq
      omega
  | false =>
      have hzero := hafter hq
      omega

theorem Receiving.start (conn : Conn) (clock : Nat) (ioThread : ThreadIx) (filter : Φ)
    (keepAliveTime : Nat) (id : TCPSessionID) :
    Receiving (start F conn clock ioThread filter keepAliveTime id) := by
  have hundrained := Undrained.start (F := F) conn clock ioThread filter keepAliveTime id
  have hzero := hundrained rfl
  refine ⟨hundrained, fun hq => ?_, by omega⟩
  cases hq

/-- A function of the session runs. -/
theorem Receiving.move {σ : Solo Φ} {a : Act} {task : Task} {r : TCPSession Φ × List Effect}
    (h : Receiving σ) (hlives : Lives σ) (htask : σ.runs a = some task)
    (hruns : TCPSession.Runs F σ.clock σ.session σ.found task r) (hok : DrainsAlone σ a) :
    Receiving ((σ.taken a).onSession r) ∧
      (σ.session.socket.reads ≠ [] → r.1.bufferReceiving = σ.session.bufferReceiving) := by
  have htaken := taken_of_runs htask
  have hafter := after_of_move (σ := σ.taken a) (htaken.found ▸ hruns.move)
  have hundrained := h.undrained.step (.move a task r htask hruns)
  have hdrainsOf := drains_of_runs htask hruns
  have hsession := hafter.session
  have hqueued := hafter.queued
  rw [htaken.queued] at hqueued
  generalize (σ.taken a).onSession r = υ at hundrained hdrainsOf hsession hqueued ⊢
  have hbefore := h.undrained
  have hafter := h.after
  have hle := h.le_one
  have hlength := σ.session.length_reads
  -- a buffer without readers may be changed
  have hnil : σ.session.outstandingReads = 0 → σ.session.outstandingDrains = 0 →
      σ.session.socket.reads = [] := by
    intro hreads hdrains
    apply List.eq_nil_of_length_eq_zero
    omega
  by_cases hremove : .queueRemove ∈ r.2
  · -- the session was in its queue, and `handle_read` had no read on the socket
    have hstarts := hruns.mem_iff.mp hremove
    have hempty : σ.session.socket.reads = [] := hok ⟨task, htask, hstarts⟩
    have hq : σ.queued = true := queued_of_found hstarts.2.2
    have hzero := hbefore hq
    rw [hempty] at hlength
    refine ⟨?_, fun hne => absurd hempty hne⟩
    cases hruns.fills with
    | same hstays _ _ => exact absurd hremove hstays
    | next hstays _ _ _ => exact absurd hremove hstays
    | drain _ hreads hdrains =>
        refine ⟨hundrained, fun _ => ?_, by omega⟩
        rw [hsession, hreads]
        exact (Nat.add_eq_zero_iff.mp hlength.symm).1
  · have hsame : υ.queued = σ.queued := by
      rw [Bool.eq_iff_iff, hqueued]
      exact and_iff_left hremove
    cases hruns.fills with
    | same _ hreads hbuffer =>
        have hdrains : r.1.outstandingDrains = σ.session.outstandingDrains := by
          rw [TCPSession.outstandingDrains, hreads, TCPSession.outstandingDrains]
        refine ⟨⟨hundrained, fun hq => ?_, by omega⟩, fun _ => hbuffer⟩
        rw [hsession, TCPSession.outstandingReads, hreads]
        exact hafter (hsame.symm.trans hq)
    | next _ hread hopen hdrains =>
        have hq : σ.queued = true := by
          by_contra hq
          exact absurd ((hlives.left.mp (by simpa using hq)).1.symm.trans hopen) (by decide)
        have hzero := hbefore hq
        unfold drainsOf at hzero
        -- the read that has completed was the only one
        have hreads := hlives.reads
        have hreadsLe := hlives.reads_le
        have htakenReads := htaken.reads
        rw [if_pos hread] at htakenReads
        unfold readsOf at hreads htakenReads
        rw [htaken.session] at htakenReads
        refine ⟨⟨hundrained, fun hq' => ?_, by omega⟩,
          fun hne => absurd (hnil (by omega) (by omega)) hne⟩
        rw [hsame, hq] at hq'
        cases hq'
    | drain hkind hreads hdrains =>
        have hdrain : task.isDrain = true := hkind.resolve_left hremove
        have hcount := htaken.count counts_isDrain
        rw [if_pos hdrain] at hdrainsOf hcount
        have hq : σ.queued = false := by
          by_contra hq
          have hzero := hbefore (by simpa using hq)
          unfold drainsOf at hzero
          omega
        have hzero := hafter hq
        have hnone : σ.session.outstandingDrains = 0 := by
          unfold drainsOf at hle
          omega
        refine ⟨⟨hundrained, fun _ => ?_, by omega⟩, fun hne => absurd (hnil hzero hnone) hne⟩
        rw [hsession, hreads]
        exact hzero

theorem Receiving.step {σ σ' : Solo Φ} {a : Act} (h : Receiving σ) (hlives : Lives σ)
    (hev : Event F σ a σ') (hok : DrainsAlone σ a) :
    Receiving σ' ∧
      (σ.session.socket.reads ≠ [] → σ'.session.bufferReceiving = σ.session.bufferReceiving) := by
  have hundrained := h.undrained.step hev
  cases hev with
  | move _ task r htask hruns =>
      have hafter := after_of_move (σ := σ.taken a) ((taken_of_runs htask).found ▸ hruns.move)
      rw [hafter.session]
      exact h.move hlives htask hruns hok
  | post messages s hposts =>
      refine ⟨⟨hundrained, fun hq => ?_, (drains_of_post hposts _).trans_le h.le_one⟩,
        fun _ => (TCPSession.postMessageList_receiving hposts.run).2⟩
      show s.outstandingReads = 0
      rw [hposts.outstandingReads]
      exact h.after hq
  | complete _ task s _ hs =>
      obtain ⟨k, timer, hsame⟩ := hs.same
      have hreads := hs.reads
      refine ⟨⟨hundrained, fun hq => ?_, (drains_of_complete hs).trans_le h.le_one⟩, fun _ => ?_⟩
      · have hzero := h.after hq
        show s.outstandingReads = 0
        omega
      · show s.bufferReceiving = _
        rw [hsame]
  | deliver => exact ⟨⟨hundrained, h.after, h.le_one⟩, fun _ => rfl⟩
  | tick n => exact ⟨⟨hundrained, h.after, h.le_one⟩, fun _ => rfl⟩

/-- A second reader comes with a drain that starts too early. -/
theorem drainsAlone_of_oneReader {σ σ' : Solo Φ} {a : Act} (hev : Event F σ a σ')
    (h : σ'.session.socket.reads.length ≤ 1) : DrainsAlone σ a := by
  rintro ⟨task, htask, hstarts⟩
  cases hev with
  | move _ task' r htask' hruns =>
      obtain rfl : task = task' := Option.some.inj (htask.symm.trans htask')
      have hafter := after_of_move (σ := σ.taken a) ((taken_of_runs htask).found ▸ hruns.move)
      have hremove := hruns.mem_iff.mpr hstarts
      have hlength := σ.session.length_reads
      rw [hafter.session, TCPSession.length_reads] at h
      cases hruns.fills with
      | same hstays _ _ => exact absurd hremove hstays
      | next hstays _ _ _ => exact absurd hremove hstays
      | drain _ hreads hdrains =>
          apply List.eq_nil_of_length_eq_zero
          omega
  | complete _ _ _ hnone _ => cases hnone.symm.trans htask
  | post messages s hposts => cases htask
  | deliver => cases htask
  | tick n => cases htask

/-! ## Runs -/

/-- **One reader.** As long as no drain starts while a read is on the socket, there is one read on
the socket at most, and the next step keeps it so and leaves the buffer of that read alone exactly
if it does not start a drain beside it. -/
theorem one_reader_iff {conn : Conn} {clock : Nat} {ioThread : ThreadIx} {filter : Φ}
    {keepAliveTime : Nat} {id : TCPSessionID} {σ : Solo Φ}
    (hrun : Transition.Run (step F) DrainsAlone
      (start F conn clock ioThread filter keepAliveTime id) σ) :
    σ.session.socket.reads.length ≤ 1 ∧
      ∀ a σ', step F σ a = some σ' → (OneReader σ σ' ↔ DrainsAlone σ a) := by
  obtain ⟨hlives, hreceiving⟩ : Lives σ ∧ Receiving σ := by
    refine hrun.invariant (I := fun σ => Lives σ ∧ Receiving σ) (fun hi hok hstep => ?_)
      ⟨.start conn clock ioThread filter keepAliveTime id,
        .start conn clock ioThread filter keepAliveTime id⟩
    have hev := event_of_step hstep
    exact ⟨hi.1.step hev, (hi.2.step hi.1 hev hok).1⟩
  refine ⟨hreceiving.length_le hlives, fun a σ' hstep => ?_⟩
  have hev := event_of_step hstep
  constructor
  · intro hone
    exact drainsAlone_of_oneReader hev hone.1
  · intro hok
    obtain ⟨hreceiving', hbuffer⟩ := hreceiving.step hlives hev hok
    exact ⟨hreceiving'.length_le (hlives.step hev), hbuffer⟩

/-- The end of the stream is read and the drain starts: there is no reader beside it. -/
theorem one_reader_iff_end_of_stream :
    ∃ σ, ran [.readDone 0 .eof [], .run] = some σ ∧ σ.queued = false ∧
      σ.session.socket.reads.length ≤ 1 := by
  obtain ⟨σ, hσ, hq⟩ := Option.map_eq_some_iff.mp (show
    (ran [.readDone 0 .eof [], .run]).map (fun σ => σ.queued) = some false by decide +kernel)
  exact ⟨σ, hσ, hq, (one_reader_iff (Transition.run_of_exec hσ (by decide +kernel))).1⟩

/-- `close` on a session that waits for its first header: two reads into the buffer, which has been
resized from 2 bytes to 128 under the first. -/
theorem close_adds_second_reader :
    ∃ σ, ran [] = some σ ∧ σ.session.socket.reads.length = 1 ∧
      σ.session.bufferReceiving.length = 2 ∧
      ∃ σ', step (messageFilter .little .zeros) σ .close = some σ' ∧
        σ'.session.socket.reads.length = 2 ∧ σ'.session.bufferReceiving.length = 128 := by
  exact ⟨_, rfl, by decide +kernel, by decide +kernel, _, rfl, by decide +kernel, by decide +kernel⟩

end Solo
end EddyServer
