import EddyServer.Solo.Lifecycle

/-!
# The send buffers as a byte stream

Two places start a write: `post_message_list` covers as many bytes as the filter has announced,
`hanlde_write` covers the second buffer whole. The lengths agree because the second buffer is empty
while nothing is being sent, so that the first batch of a busy period is all there is to send.
-/

namespace EddyServer

namespace TCPSession

variable {Φ : Type} (F : MessageFilterInterface Φ)

/-- For a batch that comes to the open session the filter announces the size of what it appends. -/
def Exact (s : TCPSession Φ) (messages : List NetMessage) : Prop :=
  s.closed = false → messages ≠ [] →
    (s.encoding F messages).length = (F.bytesWannaWrite s.msgFilter messages).1

instance (s : TCPSession Φ) (messages : List NetMessage) : Decidable (Exact F s messages) :=
  inferInstanceAs (Decidable (_ → _ → _))

variable {F}

theorem Exact.appends {s : TCPSession Φ} {messages : List NetMessage} (h : Exact F s messages) :
    Appends F s messages := by
  intro hopen hne hannounced hnil
  apply hannounced
  rw [← h hopen hne, hnil]
  rfl

/-- What `post_message_list` does to the buffers of a session with nothing in the second buffer
while it sends nothing. -/
inductive Buffers (s : TCPSession Φ) (bytes : List UInt8) (t : TCPSession Φ) : Prop
  /-- The bytes wait behind the write that is outstanding. -/
  | waits : SameBuffers s { t with bufferToBeSent := s.bufferToBeSent } →
      t.socket.writing = s.socket.writing → t.bufferToBeSent = s.bufferToBeSent ++ bytes →
      (s.bufferSending = [] → bytes = []) → Buffers s bytes t
  /-- The bytes are handed over as a whole. -/
  | starts : s.bufferSending = [] → t.socket.handed = s.socket.handed ++ bytes →
      t.socket.writing = s.socket.writing ++ [bytes] → t.bufferSending = bytes → bytes ≠ [] →
      t.bufferToBeSent = [] → Buffers s bytes t

theorem postMessageList_buffers {s t : TCPSession Φ} {messages : List NetMessage}
    (h : s.postMessageList F messages = some t) (hexact : Exact F s messages)
    (hwaiting : s.bufferSending = [] → s.bufferToBeSent = []) :
    Buffers s (s.encoding F messages) t := by
  unfold postMessageList at h
  dsimp only at h
  split_ifs at h with hskip hzero _ hidle
  · have hnil : s.encoding F messages = [] := if_pos hskip
    cases h
    exact .waits ⟨rfl, rfl, rfl⟩ rfl (by rw [hnil, List.append_nil]) fun _ => hnil
  all_goals
    obtain ⟨hopen, hne⟩ : s.closed = false ∧ messages ≠ [] := by simpa using hskip
    have hlen := hexact hopen hne
    have happended : s.encoding F messages = (F.write (F.bytesWannaWrite s.msgFilter messages).2
      messages s.bufferToBeSent).appended := if_neg hskip
    cases h
  · -- what is announced as empty is empty
    have hnil : s.encoding F messages = [] := List.eq_nil_of_length_eq_zero (hlen.trans hzero)
    exact .waits ⟨rfl, rfl, rfl⟩ rfl (by rw [hnil, List.append_nil]) fun _ => hnil
  · have hsending : s.bufferSending = [] := List.isEmpty_iff.mp hidle
    have hwhole : (s.bufferToBeSent ++ s.encoding F messages).take
        (F.bytesWannaWrite s.msgFilter messages).1 = s.encoding F messages := by
      rw [hwaiting hsending, List.nil_append]
      exact List.take_of_length_le (Nat.le_of_eq hlen)
    rw [happended] at hwhole hlen ⊢
    refine .starts hsending (congrArg (s.socket.handed ++ ·) hwhole)
      (congrArg (s.socket.writing ++ [·]) hwhole) ?_ ?_ hsending
    · show s.bufferToBeSent ++ _ = _
      rw [hwaiting hsending, List.nil_append]
    · intro hnil
      rw [hnil] at hlen
      exact hzero hlen.symm
  · rw [happended]
    refine .waits ⟨rfl, rfl, rfl⟩ rfl rfl fun hnil => ?_
    exact absurd (List.isEmpty_iff.mpr hnil) hidle

end TCPSession

/-- `write` appends exactly as many bytes as `bytes_wanna_write` has announced. -/
def MessageFilterInterface.Exact {Φ : Type} (F : MessageFilterInterface Φ) : Prop :=
  ∀ filter messages buffer,
    (F.write (F.bytesWannaWrite filter messages).2 messages buffer).appended.length =
      (F.bytesWannaWrite filter messages).1

namespace Solo

variable {Φ : Type} (F : MessageFilterInterface Φ)

/-- The filter has announced the size of what it appends for the batch that is posted. -/
def PostsExact (σ : Solo Φ) : Act → Prop
  | .post messages => TCPSession.Exact F σ.session messages
  | _ => True

instance PostsExact.decidable (σ : Solo Φ) : (a : Act) → Decidable (PostsExact F σ a)
  | .post messages => inferInstanceAs (Decidable (TCPSession.Exact F σ.session messages))
  | .run | .readDone .. | .writeDone _ | .timerDone | .close | .keepAlive | .pack | .deliver
  | .tick _ => isTrue trivial

variable {F}

/-- With a filter that keeps its word every step is allowed. -/
theorem postsExact_of_exact (hF : F.Exact) (σ : Solo Φ) (a : Act) : PostsExact F σ a := by
  cases a with
  | post messages =>
      intro hopen hne
      rw [TCPSession.encoding, if_neg (by simp [hopen, hne])]
      exact hF _ _ _
  | _ => trivial

theorem PostsExact.appending {σ : Solo Φ} {a : Act} (h : PostsExact F σ a) : Appending F σ a := by
  rintro messages rfl
  exact TCPSession.Exact.appends h

/-! ## The invariant -/

/-- The bytes that are encoded are handed over in order, and the write that is outstanding covers
the first buffer. -/
structure Streams (σ : Solo Φ) : Prop where
  whole : σ.session.socket.handed ++ σ.session.bufferToBeSent = σ.encoded
  waiting : σ.session.bufferSending = [] → σ.session.bufferToBeSent = []
  covers : ∀ range ∈ σ.session.socket.writing, range = σ.session.bufferSending
  busy : σ.session.closed = false → σ.session.bufferSending ≠ [] → σ.writesOf = 1

theorem Streams.start (conn : Conn) (clock : Nat) (ioThread : ThreadIx) (filter : Φ)
    (keepAliveTime : Nat) (id : TCPSessionID) :
    Streams (start F conn clock ioThread filter keepAliveTime id) := by
  have hopens := TCPSession.init_opens F clock (.new ioThread filter keepAliveTime) id
  have hbuffers := hopens.buffers
  have hwrites := hopens.outstandingWrites
  unfold Solo.start onSession
  dsimp only
  rw [hopens.effects]
  simp only [List.foldl_cons, List.foldl_nil, effect]
  have hnil : ((TCPSession.new ioThread filter keepAliveTime).init F clock id).1.bufferSending = [] :=
    hbuffers.bufferSending
  refine ⟨?_, fun _ => hbuffers.bufferToBeSent, ?_, fun _ hne => absurd hnil hne⟩
  · rw [hbuffers.handed, hbuffers.bufferToBeSent]
    rfl
  · rw [List.eq_nil_of_length_eq_zero hwrites]
    simp

/-- A function of the session runs. -/
theorem Streams.move {σ τ : Solo Φ} (h : Streams σ) (hone : OneWrite σ)
    {task : Task} {r : TCPSession Φ × List Effect} (htaken : Taken σ τ task)
    (hencoded : τ.encoded = σ.encoded)
    (hmove : TCPSession.Move σ.session σ.found task r)
    (hends : TCPSession.Ends σ.session σ.found task r) : Streams (τ.onSession r) := by
  have hafter : After τ r (τ.onSession r) :=
    after_of_move (σ := τ) (s := σ.session) (htaken.found ▸ hmove)
  obtain ⟨hsession, -, -, -, -, hwrites⟩ := counts_of_after htaken hmove hafter
  have hle := hone.le_one
  have hkept : (τ.onSession r).encoded = σ.encoded := hafter.encoded.trans hencoded
  generalize τ.onSession r = υ at hsession hwrites hkept ⊢
  -- the write that has completed was the only one
  have hnone : task.isWrite = true → σ.session.socket.writing = [] := by
    intro hwrite
    have htakenWrites := htaken.writes
    rw [if_pos hwrite] at htakenWrites
    unfold writesOf at htakenWrites hle
    rw [htaken.session] at htakenWrites
    apply List.eq_nil_of_length_eq_zero
    show σ.session.outstandingWrites = 0
    omega
  have hwhole : r.1.socket.handed ++ r.1.bufferToBeSent = σ.encoded ∧
      (r.1.bufferSending = [] → r.1.bufferToBeSent = []) := by
    rcases hmove.writes with hsame | hnext
    · rw [hsame.handed, hsame.bufferToBeSent, hsame.bufferSending]
      exact ⟨h.whole, h.waiting⟩
    · rw [hnext.handed, hnext.bufferToBeSent, List.append_nil]
      exact ⟨h.whole, fun _ => rfl⟩
  refine ⟨by rw [hsession, hkept]; exact hwhole.1, by rw [hsession]; exact hwhole.2, ?_, ?_⟩
  · rw [hsession]
    cases hends.sends with
    | same hwriting hsending _ =>
        rw [hwriting, hsending]
        exact h.covers
    | done hwrite hwriting hnil =>
        rw [hwriting, hnone hwrite]
        simp
    | next hwrite _ hwriting =>
        rw [hwriting, hnone hwrite]
        simp
  · rw [hsession]
    intro hopen hsome
    have hwasOpen : σ.session.closed = false := by
      by_contra hc
      exact absurd (hopen.symm.trans (hmove.stays (by simpa using hc))) (by decide)
    cases hends.sends with
    | same hwriting hsending hclosed =>
        have hsame : r.1.outstandingWrites = σ.session.outstandingWrites :=
          congrArg List.length hwriting
        have hbusy := h.busy hwasOpen (hsending ▸ hsome)
        split_ifs at hwrites with hwrite
        · exact absurd (hopen.symm.trans (hclosed hwrite)) (by decide)
        · omega
    | done _ _ hnil => exact absurd hnil hsome
    | next hwrite _ hwriting =>
        have hsucc : r.1.outstandingWrites = σ.session.outstandingWrites + 1 := by
          rw [TCPSession.outstandingWrites, hwriting, List.length_append]
          rfl
        rw [if_pos hwrite] at hwrites
        have htakenWrites := htaken.writes
        rw [if_pos hwrite] at htakenWrites
        omega

/-- A step that leaves the encoded bytes, the buffers, the writes and their counter alone. -/
theorem Streams.congr {σ σ' : Solo Φ} (h : Streams σ) (hencoded : σ'.encoded = σ.encoded)
    (hbuffers : TCPSession.SameBuffers σ.session σ'.session)
    (hwriting : ∀ range ∈ σ'.session.socket.writing, range ∈ σ.session.socket.writing)
    (hclosed : σ'.session.closed = σ.session.closed) (hwrites : σ'.writesOf = σ.writesOf) :
    Streams σ' where
  whole := by rw [hbuffers.handed, hbuffers.bufferToBeSent, hencoded]; exact h.whole
  waiting := by rw [hbuffers.bufferSending, hbuffers.bufferToBeSent]; exact h.waiting
  covers := by
    intro range hmem
    rw [hbuffers.bufferSending]
    exact h.covers range (hwriting range hmem)
  busy := by rw [hclosed, hbuffers.bufferSending, hwrites]; exact h.busy

theorem Streams.step {σ σ' : Solo Φ} {a : Act} (h : Streams σ) (hone : OneWrite σ)
    (hev : Event F σ a σ') (hok : PostsExact F σ a) : Streams σ' := by
  cases hev with
  | move a task r htask hruns =>
      exact h.move hone (taken_of_runs htask) (by cases a <;> rfl) hruns.move hruns.ends
  | post messages s hposts =>
      have hqueue : ∀ e, (({ σ with session := s, encoded := e } : Solo Φ)).writesOf =
          s.outstandingWrites + σ.completions.countP Task.isWrite := fun _ => rfl
      have hidle := hone.idle
      have hwhole := h.whole
      unfold writesOf at hidle
      -- The new bytes wait in the second buffer, or a write of all of them is started.
      cases TCPSession.postMessageList_buffers hposts.run hok h.waiting with
      | waits hsame hwriting htoBeSent hnil =>
          refine ⟨?_, fun hsending => ?_, ?_, fun hopen hsome => ?_⟩
          · show s.socket.handed ++ s.bufferToBeSent = _
            rw [htoBeSent, ← List.append_assoc, ← hwhole, ← hsame.handed]
          · have hold : σ.session.bufferSending = [] := hsame.bufferSending.symm.trans hsending
            show s.bufferToBeSent = []
            rw [htoBeSent, hnil hold, h.waiting hold]
            rfl
          · show ∀ range ∈ s.socket.writing, range = s.bufferSending
            rw [hwriting, show s.bufferSending = σ.session.bufferSending from hsame.bufferSending]
            exact h.covers
          · have hbusy := h.busy (hposts.closed.symm.trans hopen) (hsame.bufferSending ▸ hsome)
            rw [hqueue, TCPSession.outstandingWrites, hwriting]
            exact hbusy
      | starts hsending hhanded hwriting hbuffer hsome htoBeSent =>
          -- With an empty first buffer no write is on the socket or in the queue.
          have hzero := hidle hsending
          have hnone : σ.session.socket.writing = [] :=
            List.eq_nil_of_length_eq_zero (Nat.add_eq_zero_iff.mp hzero).1
          refine ⟨?_, fun _ => htoBeSent, ?_, fun _ _ => ?_⟩
          · show s.socket.handed ++ s.bufferToBeSent = _
            rw [h.waiting hsending, List.append_nil] at hwhole
            rw [hhanded, htoBeSent, List.append_nil, hwhole]
          · show ∀ range ∈ s.socket.writing, range = s.bufferSending
            rw [hwriting, hbuffer, hnone]
            simp
          · rw [hqueue, TCPSession.outstandingWrites, hwriting, hnone,
              (Nat.add_eq_zero_iff.mp hzero).2]
            rfl
  | complete _ task s _ hs =>
      obtain ⟨k, timer, hsame⟩ := hs.same
      have hbuffers : TCPSession.SameBuffers σ.session s :=
        ⟨hs.handed, by rw [hsame], by rw [hsame]⟩
      refine h.congr rfl hbuffers hs.writing (by rw [complete, hsame]) ?_
      have hwrites := hs.writes
      show s.outstandingWrites + (σ.completions ++ [task]).countP Task.isWrite = σ.writesOf
      rw [List.countP_append, List.countP_singleton]
      unfold writesOf
      omega
  | deliver => exact h.congr rfl ⟨rfl, rfl, rfl⟩ (fun _ h => h) rfl rfl
  | tick n => exact h.congr rfl ⟨rfl, rfl, rfl⟩ (fun _ h => h) rfl rfl

/-- While a write is on the socket no step touches the bytes that it covers. -/
theorem sending_untouched {σ σ' : Solo Φ} {a : Act} (hone : OneWrite σ) (hev : Event F σ a σ')
    (hwriting : σ.session.socket.writing ≠ []) :
    σ'.session.bufferSending = σ.session.bufferSending := by
  have hbusy : 0 < σ.session.outstandingWrites := List.length_pos_iff.mpr hwriting
  have hle := hone.le_one
  have hsome : σ.session.bufferSending ≠ [] := by
    intro hnil
    have hzero := hone.idle hnil
    unfold writesOf at hzero
    omega
  unfold writesOf at hle
  cases hev with
  | move a task r htask hruns =>
      have htaken := taken_of_runs htask
      have hafter := after_of_move (σ := σ.taken a) (htaken.found ▸ hruns.move)
      rw [(counts_of_after htaken hruns.move hafter).1]
      -- a write that has completed would be a second one
      have hwrite : task.isWrite = false := by
        by_contra hwrite
        have hwrites := htaken.writes
        unfold writesOf at hwrites
        rw [if_pos (by simpa using hwrite), htaken.session] at hwrites
        omega
      cases hruns.ends.sends with
      | same _ hsending _ => exact hsending
      | done htrue _ _ => exact absurd (hwrite.symm.trans htrue) (by decide)
      | next htrue _ _ => exact absurd (hwrite.symm.trans htrue) (by decide)
  | post messages s hposts =>
      show s.bufferSending = _
      have hpost := hposts.run
      unfold TCPSession.postMessageList at hpost
      dsimp only at hpost
      split_ifs at hpost with _ _ _ hidle
      · cases hpost
        rfl
      · cases hpost
        rfl
      · exact absurd (List.isEmpty_iff.mp hidle) hsome
      · cases hpost
        rfl
  | complete _ task s _ hs =>
      obtain ⟨k, timer, hsame⟩ := hs.same
      show s.bufferSending = _
      rw [hsame]
  | deliver => rfl
  | tick n => rfl

/-! ## Runs -/

/-- **Writing is a byte stream.** Whatever else happens to the session meanwhile, as long as the
filter keeps its word about the batches that are posted: the bytes handed to `async_write`, followed
by the second buffer, are the encodings of the batches in order; one write is outstanding at most,
and while the session is open exactly when the first buffer holds something, as the counter says;
nothing waits while nothing is sent; a write covers all of the first buffer, which nobody touches
until it completes. -/
theorem writes_byte_stream {conn : Conn} {clock : Nat} {ioThread : ThreadIx} {filter : Φ}
    {keepAliveTime : Nat} {id : TCPSessionID} {σ : Solo Φ}
    (hrun : Transition.Run (step F) (PostsExact F)
      (start F conn clock ioThread filter keepAliveTime id) σ) :
    σ.session.socket.handed ++ σ.session.bufferToBeSent = σ.encoded ∧
      σ.writesOf ≤ 1 ∧
      (σ.session.closed = false → σ.session.numWriteHandlers = σ.writesOf ∧
        σ.session.numWriteHandlers = if σ.session.bufferSending = [] then 0 else 1) ∧
      (σ.session.bufferSending = [] → σ.session.bufferToBeSent = []) ∧
      (∀ range ∈ σ.session.socket.writing, range = σ.session.bufferSending) ∧
      ∀ a σ', step F σ a = some σ' → σ.session.socket.writing ≠ [] →
        σ'.session.bufferSending = σ.session.bufferSending := by
  obtain ⟨hliving, hstreams⟩ : Living σ ∧ Streams σ := by
    refine hrun.invariant (I := fun σ => Living σ ∧ Streams σ) (fun hi hok hstep => ?_)
      ⟨.start conn clock ioThread filter keepAliveTime id,
        .start conn clock ioThread filter keepAliveTime id⟩
    exact ⟨hi.1.step hok.appending hstep, hi.2.step hi.1.oneWrite (event_of_step hstep) hok⟩
  have hwrites := hliving.lives.writes
  refine ⟨hstreams.whole, hliving.oneWrite.le_one, fun hopen => ⟨hwrites, ?_⟩, hstreams.waiting,
    hstreams.covers, fun a σ' hstep hne => ?_⟩
  · split_ifs with hnil
    · have hzero := hliving.oneWrite.idle hnil
      omega
    · have hbusy := hstreams.busy hopen hnil
      omega
  · exact sending_untouched hliving.oneWrite (event_of_step hstep) hne

/-- A batch is posted, another one while it is written, and the write completes. -/
theorem writes_byte_stream_two_batches :
    ∃ σ, ran [.post [oneByteMessage 1], .post [oneByteMessage 1], .writeDone .success,
        .run] = some σ ∧
      σ.encoded = [0, 1, 1, 0, 1, 1] ∧ σ.session.bufferToBeSent = [] ∧
      σ.session.socket.handed = σ.encoded := by
  obtain ⟨σ, hσ, hview⟩ := Option.map_eq_some_iff.mp (show
    (ran [.post [oneByteMessage 1], .post [oneByteMessage 1], .writeDone .success,
      .run]).map (fun σ => (σ.encoded, σ.session.bufferToBeSent)) =
        some ([0, 1, 1, 0, 1, 1], []) by decide +kernel)
  obtain ⟨hencoded, hnil⟩ : σ.encoded = [0, 1, 1, 0, 1, 1] ∧ σ.session.bufferToBeSent = [] := by
    simpa using hview
  have hwhole := (writes_byte_stream (Transition.run_of_exec hσ (by decide +kernel))).1
  rw [hnil, List.append_nil] at hwhole
  exact ⟨σ, hσ, hencoded, hnil, hwhole⟩

end Solo
end EddyServer
