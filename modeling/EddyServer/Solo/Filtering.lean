import EddyServer.Solo.Receiving

/-!
# What the filter is shown

`handle_read` gives the filter the whole receive buffer, which has the size that was asked for. A
read of `any_bytes()` may bring less. To say what a filter has been shown, the filter is replaced by
one that keeps a record of it and behaves the same otherwise.
-/

namespace EddyServer

variable {Φ : Type}

/-! ## A filter that keeps a record -/

/-- The filter, with a record of all buffers that its `read` has been given. -/
def MessageFilterInterface.recording (F : MessageFilterInterface Φ) :
    MessageFilterInterface (Φ × List UInt8) where
  bytesWannaRead f := ((F.bytesWannaRead f.1).1, ((F.bytesWannaRead f.1).2, f.2))
  bytesWannaWrite f messages :=
    ((F.bytesWannaWrite f.1 messages).1, ((F.bytesWannaWrite f.1 messages).2, f.2))
  read f buffer messages :=
    let got := F.read f.1 buffer messages
    { bytes := got.bytes, messages := got.messages, filter := (got.filter, f.2 ++ buffer) }
  write f messages buffer :=
    let written := F.write f.1 messages buffer
    { bytes := written.bytes, appended := written.appended, filter := (written.filter, f.2) }

namespace TCPSession

/-- The session without the record. -/
def forget (s : TCPSession (Φ × List UInt8)) : TCPSession Φ :=
  { closed := s.closed
    numReadHandlers := s.numReadHandlers
    numWriteHandlers := s.numWriteHandlers
    sessionId := s.sessionId
    socket := s.socket
    ioThread := s.ioThread
    closeTimer := s.closeTimer
    msgFilter := s.msgFilter.1
    lastActivityTime := s.lastActivityTime
    bufferReceiving := s.bufferReceiving
    bufferSending := s.bufferSending
    bufferToBeSent := s.bufferToBeSent
    messagesReceived := s.messagesReceived
    keepAliveTime := s.keepAliveTime
    trace := s.trace }

variable {F : MessageFilterInterface Φ} {s : TCPSession (Φ × List UInt8)}

theorem forget_startRead : (s.startRead F.recording).forget = s.forget.startRead F := by
  have hdemand : (F.recording.bytesWannaRead s.msgFilter).1 =
      (F.bytesWannaRead s.forget.msgFilter).1 := rfl
  unfold startRead
  dsimp only
  rw [hdemand]
  split_ifs <;> rfl

theorem forget_hanldeClose (found : Option Conn) :
    ((s.hanldeClose found).1.forget, (s.hanldeClose found).2) = s.forget.hanldeClose found := by
  unfold hanldeClose
  rw [show s.forget.numWriteHandlers = s.numWriteHandlers from rfl]
  split_ifs
  · rfl
  · cases found <;> rfl

theorem forget_close (cause : CloseCause) (found : Option Conn) :
    ((s.close cause found).1.forget, (s.close cause found).2) = s.forget.close cause found := by
  unfold close
  rw [show s.forget.closed = s.closed from rfl]
  split_ifs
  · rfl
  · exact forget_hanldeClose found

theorem forget_hanldeWrite (found : Option Conn) (error : ErrorCode) :
    ((s.hanldeWrite found error).1.forget, (s.hanldeWrite found error).2) =
      s.forget.hanldeWrite found error := by
  unfold hanldeWrite
  dsimp only
  rw [show s.forget.closed = s.closed from rfl,
    show s.forget.bufferToBeSent = s.bufferToBeSent from rfl]
  split_ifs
  · exact forget_hanldeClose found
  · rfl
  · rfl

theorem forget_readMessages (now : Nat) (data : List UInt8) :
    ((s.readMessages F.recording now data).1.forget, (s.readMessages F.recording now data).2) =
      s.forget.readMessages F now data := by
  rw [readMessages_eq, readMessages_eq]
  rfl

theorem forget_handleRead (now : Nat) (found : Option Conn) (error : ErrorCode)
    (data : List UInt8) :
    ((s.handleRead F.recording now found error data).1.forget,
        (s.handleRead F.recording now found error data).2) =
      s.forget.handleRead F now found error data := by
  unfold handleRead
  dsimp only
  rw [show s.forget.closed = s.closed from rfl]
  split_ifs
  · exact forget_hanldeClose found
  · rw [forget_startRead]
    have h := forget_readMessages (F := F)
      (s := { s with numReadHandlers := s.numReadHandlers - 1 }) now data
    exact congrArg (fun r => (startRead F r.1, r.2)) h

theorem forget_handleSafeClose (error : ErrorCode) (data : List UInt8) :
    ((s.handleSafeClose error data).1.forget, (s.handleSafeClose error data).2) =
      s.forget.handleSafeClose error data := by
  unfold handleSafeClose
  rw [show s.forget.closeTimer = s.closeTimer from rfl]
  split_ifs <;> rfl

theorem forget_closeTimerExpired (error : ErrorCode) :
    (s.closeTimerExpired error).map forget = s.forget.closeTimerExpired error := by
  unfold closeTimerExpired
  rw [show s.forget.socket = s.socket from rfl]
  split_ifs <;> rfl

theorem forget_packMessageList :
    (s.packMessageList.1.forget, s.packMessageList.2) = s.forget.packMessageList := by
  unfold packMessageList
  rw [show s.forget.messagesReceived = s.messagesReceived from rfl]
  split_ifs <;> rfl

theorem forget_postMessageList (messages : List NetMessage) :
    (s.postMessageList F.recording messages).map forget = s.forget.postMessageList F messages := by
  have hannounced : (F.recording.bytesWannaWrite s.msgFilter messages).1 =
      (F.bytesWannaWrite s.forget.msgFilter messages).1 := rfl
  unfold postMessageList
  dsimp only
  rw [hannounced, show s.forget.closed = s.closed from rfl,
    show s.forget.bufferToBeSent = s.bufferToBeSent from rfl,
    show s.forget.bufferSending = s.bufferSending from rfl]
  split_ifs <;> rfl

end TCPSession

namespace Solo

/-- The surroundings without the record of the session's filter. -/
def forget (σ : Solo (Φ × List UInt8)) : Solo Φ :=
  { conn := σ.conn
    clock := σ.clock
    session := σ.session.forget
    queued := σ.queued
    completions := σ.completions
    posted := σ.posted
    encoded := σ.encoded }

variable {F : MessageFilterInterface Φ}

theorem forget_onSession (σ : Solo (Φ × List UInt8)) (r : TCPSession (Φ × List UInt8) × List Effect) :
    (σ.onSession r).forget = σ.forget.onSession (r.1.forget, r.2) := by
  have hfold : ∀ (effects : List Effect) (τ : Solo (Φ × List UInt8)),
      (effects.foldl effect τ).forget = effects.foldl effect τ.forget := by
    intro effects
    induction effects with
    | nil => exact fun τ => rfl
    | cons e effects ih =>
        intro τ
        rw [List.foldl_cons, List.foldl_cons, ih]
        congr 1
        cases e with
        | post thread task => cases task <;> rfl
        | queueAdd => rfl
        | queueRemove => rfl
  exact hfold r.2 _

theorem forget_start (conn : Conn) (clock : Nat) (ioThread : ThreadIx) (filter : Φ)
    (keepAliveTime : Nat) (id : TCPSessionID) :
    (start F.recording conn clock ioThread (filter, []) keepAliveTime id).forget =
      start F conn clock ioThread filter keepAliveTime id := by
  unfold start
  rw [forget_onSession]
  unfold TCPSession.init
  dsimp only
  rw [TCPSession.forget_startRead]
  rfl

theorem forget_exec (σ : Solo (Φ × List UInt8)) (task : Task) :
    (exec F.recording σ task).map forget = exec F σ.forget task := by
  cases task with
  | handleRead error data =>
      show some _ = some _
      rw [forget_onSession, TCPSession.forget_handleRead]
      rfl
  | hanldeWrite error =>
      show some _ = some _
      rw [forget_onSession, TCPSession.forget_hanldeWrite]
      rfl
  | handleSafeClose error data =>
      show some _ = some _
      rw [forget_onSession, TCPSession.forget_handleSafeClose]
      rfl
  | closeTimer error =>
      show Option.map forget (Option.map _ (σ.session.closeTimerExpired error)) =
        Option.map _ (σ.session.forget.closeTimerExpired error)
      rw [← TCPSession.forget_closeTimerExpired, Option.map_map, Option.map_map]
      rfl
  | _ => rfl

/-- The record changes nothing about what a session does. -/
theorem forget_step (σ : Solo (Φ × List UInt8)) (a : Act) :
    (step F.recording σ a).map forget = step F σ.forget a := by
  cases a with
  | run =>
      unfold step
      -- The record is no part of what a step looks at.
      rw [show σ.forget.completions = σ.completions from rfl]
      cases σ.completions with
      | nil => rfl
      | cons task rest => exact forget_exec { σ with completions := rest } task
  | readDone i error data =>
      unfold step
      dsimp only
      rw [show σ.forget.session.socket = σ.session.socket from rfl]
      cases σ.session.socket.reads[i]? with
      | none => rfl
      | some op =>
          dsimp only
          split_ifs <;> rfl
  | writeDone error =>
      unfold step
      dsimp only
      rw [show σ.forget.session.socket = σ.session.socket from rfl]
      cases σ.session.socket.writing <;> rfl
  | timerDone =>
      unfold step
      dsimp only
      rw [show σ.forget.session.closeTimer = σ.session.closeTimer from rfl]
      split_ifs <;> rfl
  | post messages =>
      show Option.map forget (Option.map _ (σ.session.postMessageList F.recording messages)) =
        Option.map _ (σ.session.forget.postMessageList F messages)
      rw [← TCPSession.forget_postMessageList, Option.map_map, Option.map_map]
      rfl
  | close =>
      show some _ = some _
      rw [forget_onSession, TCPSession.forget_close]
      rfl
  | keepAlive =>
      show some _ = some _
      rw [forget_onSession, TCPSession.forget_close]
      rfl
  | pack =>
      show some _ = some _
      rw [forget_onSession, TCPSession.forget_packMessageList]
      rfl
  | deliver => rfl
  | tick n => rfl

/-- A run of a session is a run of the session that keeps a record. -/
theorem exists_recorded {labels : List Act} {σ₀ : Solo (Φ × List UInt8)} {σ : Solo Φ}
    (h : Transition.exec (step F) σ₀.forget labels = some σ) :
    ∃ τ, Transition.exec (step F.recording) σ₀ labels = some τ ∧ τ.forget = σ := by
  induction labels generalizing σ₀ with
  | nil =>
      cases h
      exact ⟨σ₀, rfl, rfl⟩
  | cons a labels ih =>
      obtain ⟨υ, hstep, hrest⟩ := Option.bind_eq_some_iff.mp h
      rw [← forget_step] at hstep
      obtain ⟨τ₁, hτ₁, rfl⟩ := Option.map_eq_some_iff.mp hstep
      obtain ⟨τ, hτ, hforget⟩ := ih hrest
      exact ⟨τ, (Transition.exec_cons hτ₁).trans hτ, hforget⟩

end Solo

/-! ## What one task adds -/

namespace TCPSession

/-- A successful read that comes to the filter has filled the receive buffer. -/
def FillsBuffer (s : TCPSession Φ) : Task → Prop
  | .handleRead error data =>
    error = .success → s.closed = false → s.bufferReceiving.length ≤ data.length
  | _ => True

instance (s : TCPSession Φ) : (task : Task) → Decidable (s.FillsBuffer task)
  | .handleRead .. => inferInstanceAs (Decidable (_ → _ → _))
  | .init _ | .hanldeWrite _ | .handleSafeClose .. | .closeTimer _ | .close | .closeSession _
  | .sessionPackMessageList | .sessionSendMessageListDirectly | .sendMessageListToHandler ..
  | .onSessionClosed _ | .handlerPackMessageList | .handlerSendMessageListDirectly
  | .sendMessageListToSession .. => isTrue trivial

/-- What the socket has delivered with the read that `task` completes, if it comes to the filter. -/
def arrived (s : TCPSession Φ) : Task → List UInt8
  | .handleRead error data => if error ≠ .success ∨ s.closed = true then [] else data
  | _ => []

/-- What the filter is shown of it. -/
def shown (s : TCPSession Φ) : Task → List UInt8
  | .handleRead error data =>
    if error ≠ .success ∨ s.closed = true then [] else overwrite s.bufferReceiving 0 data
  | _ => []

theorem shown_eq {s : TCPSession Φ} {task : Task} (h : s.FillsBuffer task) :
    s.shown task = s.arrived task := by
  cases task with
  | handleRead error data =>
      unfold shown arrived
      dsimp only
      split_ifs with hc
      · rfl
      · obtain ⟨hsuccess, hopen⟩ := not_or.mp hc
        have hfull := h (by simpa using hsuccess) (by simpa using hopen)
        simp [overwrite, List.drop_eq_nil_of_le hfull]
  | _ => rfl

theorem length_arrived_le (s : TCPSession Φ) (task : Task) :
    (s.arrived task).length ≤ (s.shown task).length := by
  cases task with
  | handleRead error data =>
      unfold shown arrived
      dsimp only
      split_ifs
      · exact Nat.le_refl _
      · simp [overwrite]
  | _ => exact Nat.le_refl _

/-- A buffer that has not been filled is longer than what has arrived. -/
theorem length_arrived_lt {s : TCPSession Φ} {task : Task} (h : ¬ s.FillsBuffer task) :
    (s.arrived task).length < (s.shown task).length := by
  cases task with
  | handleRead error data =>
      unfold FillsBuffer at h
      push Not at h
      obtain ⟨hsuccess, hopen, hlt⟩ := h
      unfold shown arrived
      dsimp only
      rw [if_neg (by simp [hsuccess, hopen]), if_neg (by simp [hsuccess, hopen])]
      simp only [overwrite, List.take_zero, List.nil_append, Nat.zero_add, List.length_append,
        List.length_drop]
      omega
  | _ => exact absurd trivial h

variable {F : MessageFilterInterface Φ}

theorem startRead_record (s : TCPSession (Φ × List UInt8)) :
    (s.startRead F.recording).msgFilter.2 = s.msgFilter.2 ∧
      (s.startRead F.recording).trace = s.trace := by
  unfold startRead
  dsimp only
  split_ifs <;> exact ⟨rfl, rfl⟩

theorem Runs.records {now : Nat} {s : TCPSession (Φ × List UInt8)} {found : Option Conn}
    {task : Task} {r : TCPSession (Φ × List UInt8) × List Effect}
    (h : Runs F.recording now s found task r) :
    r.1.msgFilter.2 = s.msgFilter.2 ++ s.shown task ∧
      r.1.trace.delivered = s.trace.delivered ++ s.arrived task := by
  -- what `hanlde_close` leaves alone
  have hclose : ∀ u : TCPSession (Φ × List UInt8),
      (u.hanldeClose found).1.msgFilter = u.msgFilter ∧
        (u.hanldeClose found).1.trace.delivered = u.trace.delivered := by
    intro u
    unfold hanldeClose
    split_ifs
    · exact ⟨rfl, rfl⟩
    · cases found <;> exact ⟨rfl, rfl⟩
  have hsame : ∀ t : TCPSession (Φ × List UInt8), t.msgFilter = s.msgFilter →
      t.trace.delivered = s.trace.delivered →
      t.msgFilter.2 = s.msgFilter.2 ++ [] ∧ t.trace.delivered = s.trace.delivered ++ [] := by
    intro t hfilter hdelivered
    rw [hfilter, hdelivered, List.append_nil, List.append_nil]
    exact ⟨rfl, rfl⟩
  cases h with
  | handleRead error data =>
      unfold TCPSession.handleRead shown arrived
      dsimp only
      split_ifs with hc
      · exact hsame _ (hclose _).1 (hclose _).2
      · obtain ⟨hrecord, htrace⟩ := startRead_record (F := F) (TCPSession.readMessages F.recording now
          { s with numReadHandlers := s.numReadHandlers - 1 } data).1
        rw [hrecord, htrace, readMessages_eq]
        exact ⟨rfl, rfl⟩
  | hanldeWrite error =>
      unfold TCPSession.hanldeWrite
      dsimp only
      split_ifs
      · exact hsame _ (hclose _).1 (hclose _).2
      · exact hsame _ rfl rfl
      · exact hsame _ rfl rfl
  | handleSafeClose error data =>
      unfold TCPSession.handleSafeClose
      split_ifs <;> exact hsame _ rfl rfl
  | closeTimer error t ht =>
      unfold closeTimerExpired at ht
      split_ifs at ht <;> cases ht <;> exact hsame _ rfl rfl
  | close =>
      unfold TCPSession.close
      split_ifs
      · exact hsame _ rfl rfl
      · exact hsame _ (hclose _).1 (hclose _).2
  | closeSession id =>
      unfold TCPSession.close
      split_ifs
      · exact hsame _ rfl rfl
      · exact hsame _ (hclose _).1 (hclose _).2
  | packMessageList =>
      unfold TCPSession.packMessageList
      split_ifs <;> exact hsame _ rfl rfl

theorem postMessageList_records {s t : TCPSession (Φ × List UInt8)} {messages : List NetMessage}
    (h : s.postMessageList F.recording messages = some t) :
    t.msgFilter.2 = s.msgFilter.2 ∧ t.trace.delivered = s.trace.delivered := by
  unfold postMessageList at h
  dsimp only at h
  split_ifs at h <;> cases h <;> exact ⟨rfl, rfl⟩

end TCPSession

namespace Solo

variable {F : MessageFilterInterface Φ}

/-! ## Runs -/

/-- A successful read that the step brings to the filter has filled the receive buffer. -/
def FillsBuffer (σ : Solo Φ) (a : Act) : Prop :=
  match σ.runs a with
  | some task => σ.session.FillsBuffer task
  | none => True

instance FillsBuffer.decidable (σ : Solo Φ) (a : Act) : Decidable (FillsBuffer σ a) := by
  unfold FillsBuffer
  split <;> infer_instance

/-- The buffers that the filter has been shown. -/
def seen (σ : Solo (Φ × List UInt8)) : List UInt8 := σ.session.msgFilter.2

/-- What the socket has delivered to the open session. -/
def delivered (σ : Solo Φ) : List UInt8 := σ.session.trace.delivered

/-- What a step adds to the record, and to what has been delivered. -/
theorem records_of_event {σ σ' : Solo (Φ × List UInt8)} {a : Act}
    (hev : Event F.recording σ a σ') :
    ∃ shown arrived, σ'.seen = σ.seen ++ shown ∧ σ'.delivered = σ.delivered ++ arrived ∧
      arrived.length ≤ shown.length ∧ (FillsBuffer σ a → shown = arrived) ∧
      (¬ FillsBuffer σ a → arrived.length < shown.length) := by
  have hsame : σ.runs a = none → σ'.seen = σ.seen → σ'.delivered = σ.delivered →
      ∃ shown arrived, σ'.seen = σ.seen ++ shown ∧ σ'.delivered = σ.delivered ++ arrived ∧
        arrived.length ≤ shown.length ∧ (FillsBuffer σ a → shown = arrived) ∧
        (¬ FillsBuffer σ a → arrived.length < shown.length) := by
    intro hnone hseen hdelivered
    refine ⟨[], [], by rw [hseen, List.append_nil], by rw [hdelivered, List.append_nil],
      Nat.le_refl _, fun _ => rfl, fun hnot => absurd ?_ hnot⟩
    rw [FillsBuffer, hnone]
    trivial
  cases hev with
  | move _ task r htask hruns =>
      have hafter := after_of_move (σ := σ.taken a) ((taken_of_runs htask).found ▸ hruns.move)
      obtain ⟨hrecord, hdelivered⟩ := hruns.records
      refine ⟨σ.session.shown task, σ.session.arrived task, ?_, ?_,
        TCPSession.length_arrived_le _ _, fun hfills => ?_, fun hnot => ?_⟩
      · rw [seen, hafter.session, hrecord]
        rfl
      · rw [delivered, hafter.session, hdelivered]
        rfl
      · rw [FillsBuffer, htask] at hfills
        exact TCPSession.shown_eq hfills
      · rw [FillsBuffer, htask] at hnot
        exact TCPSession.length_arrived_lt hnot
  | post messages s hposts =>
      obtain ⟨hrecord, hdelivered⟩ := TCPSession.postMessageList_records hposts.run
      exact hsame rfl hrecord hdelivered
  | complete _ task s hnone hs =>
      obtain ⟨k, timer, rfl⟩ := hs.same
      exact hsame hnone rfl rfl
  | deliver => exact hsame rfl rfl rfl
  | tick n => exact hsame rfl rfl rfl

/-- What a run adds. -/
theorem records_of_exec {labels : List Act} {σ τ : Solo (Φ × List UInt8)}
    (h : Transition.exec (step F.recording) σ labels = some τ) :
    ∃ shown arrived, τ.seen = σ.seen ++ shown ∧ τ.delivered = σ.delivered ++ arrived ∧
      arrived.length ≤ shown.length ∧
      (Transition.Allowed (step F) FillsBuffer σ.forget labels → shown = arrived) ∧
      (¬ Transition.Allowed (step F) FillsBuffer σ.forget labels →
        arrived.length < shown.length) := by
  induction labels generalizing σ with
  | nil =>
      cases h
      exact ⟨[], [], by simp, by simp, Nat.le_refl _, fun _ => rfl, fun hnot => absurd trivial hnot⟩
  | cons a labels ih =>
      obtain ⟨υ, hstep, hrest⟩ := Option.bind_eq_some_iff.mp h
      obtain ⟨shown, arrived, hseen, hdelivered, hle, hfills, hlt⟩ :=
        records_of_event (event_of_step hstep)
      obtain ⟨shown', arrived', hseen', hdelivered', hle', hfills', hlt'⟩ := ih hrest
      have hforget : step F σ.forget a = some υ.forget := by rw [← forget_step, hstep]; rfl
      have hallowed : Transition.Allowed (step F) FillsBuffer σ.forget (a :: labels) ↔
          FillsBuffer σ a ∧ Transition.Allowed (step F) FillsBuffer υ.forget labels := by
        refine and_congr Iff.rfl ⟨fun hall => hall _ hforget, fun hall t ht => ?_⟩
        cases hforget.symm.trans ht
        exact hall
      refine ⟨shown ++ shown', arrived ++ arrived', ?_, ?_, ?_, fun hall => ?_, fun hnot => ?_⟩
      · rw [hseen', hseen, List.append_assoc]
      · rw [hdelivered', hdelivered, List.append_assoc]
      · rw [List.length_append, List.length_append]
        omega
      · obtain ⟨hnow, hlater⟩ := hallowed.mp hall
        rw [hfills hnow, hfills' hlater]
      · rw [List.length_append, List.length_append]
        by_cases hnow : FillsBuffer σ a
        · have hlater := hlt' fun hlater => hnot (hallowed.mpr ⟨hnow, hlater⟩)
          omega
        · have hnow := hlt hnow
          omega

/-- **The filter sees what was received**, in every run and whatever the filter is, exactly if every
successful read that comes to the filter has filled the receive buffer. -/
theorem filter_sees_received_iff {conn : Conn} {clock : Nat} {ioThread : ThreadIx} {filter : Φ}
    {keepAliveTime : Nat} {id : TCPSessionID} {labels : List Act} {σ : Solo Φ}
    (h : Transition.exec (step F) (start F conn clock ioThread filter keepAliveTime id) labels =
      some σ) :
    ∃ τ, Transition.exec (step F.recording)
        (start F.recording conn clock ioThread (filter, []) keepAliveTime id) labels = some τ ∧
      τ.forget = σ ∧
      (τ.seen = σ.delivered ↔ Transition.Allowed (step F) FillsBuffer
        (start F conn clock ioThread filter keepAliveTime id) labels) := by
  rw [← forget_start] at h
  obtain ⟨τ, hτ, rfl⟩ := exists_recorded h
  refine ⟨τ, hτ, rfl, ?_⟩
  obtain ⟨shown, arrived, hseen, hdelivered, -, hfills, hlt⟩ := records_of_exec hτ
  rw [forget_start] at hfills hlt
  obtain ⟨hrecord, htrace⟩ := TCPSession.startRead_record (F := F)
    { TCPSession.new ioThread (filter, ([] : List UInt8)) keepAliveTime with
      closed := false, sessionId := id, lastActivityTime := clock }
  have hnil : (start F.recording conn clock ioThread (filter, []) keepAliveTime id).seen = [] :=
    hrecord
  have hnone : (start F.recording conn clock ioThread (filter, []) keepAliveTime id).delivered =
      [] := congrArg SessionTrace.delivered htrace
  rw [hnil, List.nil_append] at hseen
  rw [hnone, List.nil_append] at hdelivered
  rw [show τ.forget.delivered = τ.delivered from rfl, hseen, hdelivered]
  constructor
  · intro heq
    by_contra hnot
    have hless := hlt hnot
    rw [heq] at hless
    exact absurd hless (Nat.lt_irrefl _)
  · exact hfills

/-! ## A filter that takes whatever arrives -/

/-- A filter without framing: it asks for any bytes, and writes the bytes of the messages. -/
def rawFilter : MessageFilterInterface Unit where
  bytesWannaRead _ := (anyBytes, ())
  bytesWannaWrite _ messages := ((messages.flatMap NetMessage.content).length, ())
  read _ buffer _ := { bytes := buffer.length, messages := [], filter := () }
  write _ messages _ :=
    { bytes := (messages.flatMap NetMessage.content).length
      appended := messages.flatMap NetMessage.content
      filter := () }

/-- The condition met: the socket delivers 128 bytes at once. -/
theorem filter_sees_received_whole_buffer :
    ∃ τ, Transition.exec (step rawFilter.recording) (start rawFilter.recording 0 0 1 ((), []) 0 1)
        [.readDone 0 .success (List.replicate 128 65), .run] = some τ ∧
      τ.seen = List.replicate 128 65 := by
  obtain ⟨σ, hσ, hdelivered⟩ := Option.map_eq_some_iff.mp (show
    (Transition.exec (step rawFilter) (start rawFilter 0 0 1 () 0 1)
      [.readDone 0 .success (List.replicate 128 65), .run]).map delivered =
        some (List.replicate 128 65) by decide +kernel)
  obtain ⟨τ, hτ, -, hiff⟩ := filter_sees_received_iff hσ
  exact ⟨τ, hτ, (hiff.mpr (by decide +kernel)).trans hdelivered⟩

/-- The socket delivers one byte, and the filter is shown 127 zeros behind it. -/
theorem filter_sees_padding :
    ∃ τ, Transition.exec (step rawFilter.recording) (start rawFilter.recording 0 0 1 ((), []) 0 1)
        [.readDone 0 .success [65], .run] = some τ ∧
      τ.delivered = [65] ∧ τ.seen = 65 :: List.replicate 127 0 :=
  ⟨_, rfl, by decide +kernel, by decide +kernel⟩

end Solo
end EddyServer
