import EddyServer.Solo.Receiving

/-!
# Tearing the socket down

The drain ends with the end of the stream, with an error, or after five seconds. `handle_safe_close`
cancels the timer before it closes the socket, but a timer that has expired cannot be cancelled any
more: its callback waits in the queue and calls `cancel` on the socket that has been closed
meanwhile, which throws.
-/

namespace EddyServer

/-- The task is a completion with which `handle_safe_close` closes the socket. -/
def Task.shuts : Task → Bool
  | .handleSafeClose error data => data.length == 0 && error != .operationAborted
  | _ => false

namespace TCPSession

variable {Φ : Type} {F : MessageFilterInterface Φ}

/-- What `task` does to the timer and whether it closes the socket. -/
inductive Times (s : TCPSession Φ) (task : Task) (r : TCPSession Φ × List Effect) : Prop
  | same : .queueRemove ∉ r.2 → r.1.outstandingWaits = s.outstandingWaits →
      r.1.socket.isOpen = s.socket.isOpen → task.isExpiry = false → task.shuts = false →
      Times s task r
  /-- `hanlde_close` starts the wait. -/
  | arms : .queueRemove ∈ r.2 → r.1.outstandingWaits = 1 →
      r.1.socket.isOpen = s.socket.isOpen → task.isExpiry = false → task.shuts = false →
      Times s task r
  /-- `handle_safe_close` cancels the wait, if there is one, and closes the socket. -/
  | shuts : .queueRemove ∉ r.2 → r.1.outstandingWaits = 0 → r.1.socket.isOpen = false →
      task.isExpiry = false → task.shuts = true → Times s task r
  /-- The timer closes the socket. -/
  | expires : .queueRemove ∉ r.2 → r.1.outstandingWaits = s.outstandingWaits →
      r.1.socket.isOpen = false → task.isExpiry = true → task.shuts = false → Times s task r

theorem hanldeClose_times {s u : TCPSession Φ} (found : Option Conn) {task : Task}
    (htimer : u.closeTimer = s.closeTimer) (hopen : u.socket.isOpen = s.socket.isOpen)
    (hexpiry : task.isExpiry = false) (hshuts : task.shuts = false) :
    Times s task (u.hanldeClose found) := by
  have hwaits : u.outstandingWaits = s.outstandingWaits := by
    rw [outstandingWaits, htimer, outstandingWaits]
  unfold hanldeClose
  split_ifs
  · exact .same (by simp) hwaits hopen hexpiry hshuts
  · cases found with
    | none => exact .same (by simp) hwaits hopen hexpiry hshuts
    | some entry => exact .arms (by simp) rfl hopen hexpiry hshuts

theorem close_times (s : TCPSession Φ) (cause : CloseCause) (found : Option Conn) {task : Task}
    (hexpiry : task.isExpiry = false) (hshuts : task.shuts = false) :
    Times s task (s.close cause found) := by
  unfold close
  split_ifs
  · exact .same (by simp) rfl rfl hexpiry hshuts
  · exact hanldeClose_times found rfl rfl hexpiry hshuts

theorem startRead_times (s : TCPSession Φ) :
    (s.startRead F).closeTimer = s.closeTimer ∧
      (s.startRead F).socket.isOpen = s.socket.isOpen := by
  unfold startRead
  dsimp only
  split_ifs <;> exact ⟨rfl, rfl⟩

theorem Runs.times {now : Nat} {s : TCPSession Φ} {found : Option Conn} {task : Task}
    {r : TCPSession Φ × List Effect} (h : Runs F now s found task r) : Times s task r := by
  cases h with
  | handleRead error data =>
      unfold TCPSession.handleRead
      dsimp only
      split_ifs
      · exact hanldeClose_times found rfl rfl rfl rfl
      · rw [readMessages_eq]
        dsimp only
        refine .same ?_ ?_ (startRead_times _).2 rfl rfl
        · split_ifs <;> simp
        · rw [outstandingWaits, (startRead_times _).1]
          rfl
  | hanldeWrite error =>
      unfold TCPSession.hanldeWrite
      dsimp only
      split_ifs
      · exact hanldeClose_times found rfl rfl rfl rfl
      · exact .same (by simp) rfl rfl rfl rfl
      · exact .same (by simp) rfl rfl rfl rfl
  | handleSafeClose error data =>
      unfold TCPSession.handleSafeClose
      split_ifs with hdata herror
      · exact .shuts (by simp) rfl rfl rfl (by simp [Task.shuts, hdata, herror])
      · exact .same (by simp) rfl rfl rfl (by simpa [Task.shuts, hdata] using herror)
      · exact .same (by simp) rfl rfl rfl (by
          simp [Task.shuts, show data ≠ [] by simpa using hdata])
  | closeTimer error t ht =>
      unfold closeTimerExpired at ht
      split_ifs at ht with herror
      · cases ht
        exact .expires (by simp) rfl rfl (by simpa [Task.isExpiry] using herror) rfl
      · cases ht
        exact .same (by simp) rfl rfl (by simpa [Task.isExpiry] using herror) rfl
  | close => exact close_times s _ found rfl rfl
  | closeSession id => exact close_times s _ found rfl rfl
  | packMessageList =>
      unfold TCPSession.packMessageList
      split_ifs <;> exact .same (by simp) rfl rfl rfl rfl

theorem postMessageList_times {s t : TCPSession Φ} {messages : List NetMessage}
    (h : s.postMessageList F messages = some t) :
    t.closeTimer = s.closeTimer ∧ t.socket.isOpen = s.socket.isOpen := by
  unfold postMessageList at h
  dsimp only at h
  split_ifs at h <;> cases h <;> exact ⟨rfl, rfl⟩

end TCPSession

namespace Solo

variable {Φ : Type} {F : MessageFilterInterface Φ}

/-- If the step is `handle_safe_close` and closes the socket, the timer can still be cancelled: no
expiry waits for its callback. -/
def CancelsInTime (σ : Solo Φ) (a : Act) : Prop :=
  ∀ task ∈ σ.runs a, task.shuts = true → σ.completions.countP Task.isExpiry = 0

instance CancelsInTime.decidable (σ : Solo Φ) (a : Act) : Decidable (CancelsInTime σ a) :=
  match h : σ.runs a with
  | none => isTrue (by simp [CancelsInTime, h])
  | some task =>
    decidable_of_iff (task.shuts = true → σ.completions.countP Task.isExpiry = 0)
      (by simp [CancelsInTime, h])

/-- Once the socket is closed no callback of the timer is left that would do anything. -/
def TimerSpent (σ : Solo Φ) : Prop :=
  σ.session.socket.isOpen = false → σ.completions.countP Task.isExpiry = 0

/-- The waits of the timer that are outstanding, or have expired and have their callback queued. -/
def waitsOf (σ : Solo Φ) : Nat :=
  σ.session.outstandingWaits + σ.completions.countP Task.isExpiry

/-- The timer waits once, after the session has left its queue, and does not outlive the socket. -/
structure Timed (σ : Solo Φ) : Prop where
  before : σ.queued = true → σ.waitsOf = 0 ∧ σ.session.socket.isOpen = true
  le_one : σ.waitsOf ≤ 1
  shut : σ.session.socket.isOpen = false → σ.waitsOf = 0

theorem Timed.spent {σ : Solo Φ} (h : Timed σ) : TimerSpent σ := fun hopen =>
  (Nat.add_eq_zero_iff.mp (h.shut hopen)).2

theorem counts_isExpiry : Counts Task.isExpiry := by
  intro task htask
  cases task <;> first | rfl | cases htask

theorem Timed.start (conn : Conn) (clock : Nat) (ioThread : ThreadIx) (filter : Φ)
    (keepAliveTime : Nat) (id : TCPSessionID) :
    Timed (start F conn clock ioThread filter keepAliveTime id) := by
  obtain ⟨htimer, hopen⟩ := TCPSession.startRead_times (F := F)
    { TCPSession.new ioThread filter keepAliveTime with
      closed := false, sessionId := id, lastActivityTime := clock }
  have hwaits : (Solo.start F conn clock ioThread filter keepAliveTime id).waitsOf = 0 := by
    show (if _ = Timer.waiting then 1 else 0) + 0 = 0
    rw [if_neg (by
      intro hwaiting
      cases htimer.symm.trans hwaiting)]
  exact ⟨fun _ => ⟨hwaits, hopen⟩, by omega, fun _ => hwaits⟩

/-- What a function of the session does to the count of the timer's waits. -/
theorem waits_of_runs {σ : Solo Φ} {a : Act} {task : Task} {r : TCPSession Φ × List Effect}
    (htask : σ.runs a = some task)
    (hruns : TCPSession.Runs F σ.clock σ.session σ.found task r) :
    ((σ.taken a).onSession r).waitsOf + (if task.isExpiry then 1 else 0) +
      σ.session.outstandingWaits = σ.waitsOf + r.1.outstandingWaits := by
  have htaken := taken_of_runs htask
  have hafter := after_of_move (σ := σ.taken a) (htaken.found ▸ hruns.move)
  have hcount := htaken.count counts_isExpiry
  rw [← hafter.count (p := Task.isExpiry) rfl] at hcount
  unfold waitsOf
  rw [hafter.session]
  omega

theorem Timed.step {σ σ' : Solo Φ} {a : Act} (h : Timed σ) (hundrained : Undrained σ)
    (hev : Event F σ a σ') (hok : CancelsInTime σ a) : Timed σ' := by
  have hbefore := h.before
  have hle := h.le_one
  have hshut := h.shut
  cases hev with
  | move _ task r htask hruns =>
      have htaken := taken_of_runs htask
      have hafter := after_of_move (σ := σ.taken a) (htaken.found ▸ hruns.move)
      have hwaitsOf := waits_of_runs htask hruns
      have hsession := hafter.session
      have hqueued := hafter.queued
      rw [htaken.queued] at hqueued
      generalize (σ.taken a).onSession r = υ at hwaitsOf hsession hqueued ⊢
      cases hruns.times with
      | same hstays hwaits hopen hexpiry _ =>
          rw [if_neg (by simp [hexpiry])] at hwaitsOf
          refine ⟨fun hq => ?_, by omega, fun hclosed => ?_⟩
          · obtain ⟨hzero, hwasOpen⟩ := hbefore (hqueued.mp hq).1
            exact ⟨by omega, by rw [hsession, hopen, hwasOpen]⟩
          · rw [hsession, hopen] at hclosed
            have hzero := hshut hclosed
            omega
      | arms hremove hwaits hopen hexpiry _ =>
          rw [if_neg (by simp [hexpiry])] at hwaitsOf
          have hq : σ.queued = true := queued_of_found (hruns.mem_iff.mp hremove).2.2
          obtain ⟨hzero, hwasOpen⟩ := hbefore hq
          refine ⟨fun hq' => absurd hremove (hqueued.mp hq').2, by omega, fun hclosed => ?_⟩
          rw [hsession, hopen, hwasOpen] at hclosed
          cases hclosed
      | shuts hstays hwaits hopen hexpiry hkind =>
          rw [if_neg (by simp [hexpiry])] at hwaitsOf
          have hnone := hok task htask hkind
          have hzero : υ.waitsOf = 0 := by
            have hall : σ.waitsOf = σ.session.outstandingWaits + σ.completions.countP Task.isExpiry :=
              rfl
            omega
          refine ⟨fun hq => ?_, by omega, fun _ => hzero⟩
          -- nothing drains the socket before the session leaves its queue
          have hdrain : task.isDrain = true := by
            cases task <;> first | rfl | cases hkind
          have hcount := htaken.count counts_isDrain
          rw [if_pos hdrain] at hcount
          have hnodrain := hundrained (hqueued.mp hq).1
          unfold drainsOf at hnodrain
          omega
      | expires hstays hwaits hopen hexpiry _ =>
          rw [if_pos hexpiry] at hwaitsOf
          refine ⟨fun hq => ?_, by omega, fun _ => by omega⟩
          have hzero := (hbefore (hqueued.mp hq).1).1
          omega
  | post messages s hposts =>
      obtain ⟨htimer, hopen⟩ := TCPSession.postMessageList_times hposts.run
      have hwaits : ∀ bytes, ({ σ with session := s, encoded := bytes } : Solo Φ).waitsOf =
          σ.waitsOf := by
        intro bytes
        unfold waitsOf TCPSession.outstandingWaits
        rw [htimer]
      refine ⟨fun hq => ⟨?_, hopen.trans (hbefore hq).2⟩, (hwaits _).trans_le hle, fun hclosed => ?_⟩
      · exact (hwaits _).trans (hbefore hq).1
      · exact (hwaits _).trans (hshut (hopen.symm.trans hclosed))
  | complete _ task s _ hs =>
      have hwaits : (σ.complete s task).waitsOf = σ.waitsOf := by
        have hcount := hs.waits
        show s.outstandingWaits + (σ.completions ++ [task]).countP Task.isExpiry = σ.waitsOf
        rw [List.countP_append, List.countP_singleton]
        unfold waitsOf
        omega
      refine ⟨fun hq => ⟨hwaits.trans (hbefore hq).1, hs.isOpen.trans (hbefore hq).2⟩,
        hwaits.trans_le hle, fun hclosed => hwaits.trans (hshut (hs.isOpen.symm.trans hclosed))⟩
  | deliver => exact ⟨h.before, h.le_one, h.shut⟩
  | tick n => exact ⟨h.before, h.le_one, h.shut⟩

/-- A socket that is closed too early leaves the callback behind. -/
theorem cancelsInTime_of_spent {σ σ' : Solo Φ} {a : Act} (hev : Event F σ a σ')
    (h : TimerSpent σ') : CancelsInTime σ a := by
  intro task htask hkind
  cases hev with
  | move _ task' r htask' hruns =>
      obtain rfl : task = task' := Option.some.inj (htask.symm.trans htask')
      have htaken := taken_of_runs htask
      have hafter := after_of_move (σ := σ.taken a) (htaken.found ▸ hruns.move)
      have hcount := htaken.count counts_isExpiry
      rw [← hafter.count (p := Task.isExpiry) rfl] at hcount
      unfold TimerSpent at h
      rw [hafter.session] at h
      cases hruns.times with
      | shuts _ _ hopen hexpiry _ =>
          rw [if_neg (by simp [hexpiry]), h hopen] at hcount
          exact hcount.symm
      | same _ _ _ _ hnot => exact absurd (hnot.symm.trans hkind) (by decide)
      | arms _ _ _ _ hnot => exact absurd (hnot.symm.trans hkind) (by decide)
      | expires _ _ _ _ hnot => exact absurd (hnot.symm.trans hkind) (by decide)
  | complete _ _ _ hnone _ => cases hnone.symm.trans htask
  | post messages s hposts => cases htask
  | deliver => cases htask
  | tick n => cases htask

/-! ## Runs -/

/-- **The teardown is safe** as long as `handle_safe_close` never closes the socket while an expiry
of the timer waits for its callback: the callback finds the socket open whenever it acts. A step
that breaks this rule leaves a callback behind that will act on a closed socket, and no other step
does. -/
theorem teardown_safe_iff {conn : Conn} {clock : Nat} {ioThread : ThreadIx} {filter : Φ}
    {keepAliveTime : Nat} {id : TCPSessionID} {σ : Solo Φ}
    (hrun : Transition.Run (step F) CancelsInTime
      (start F conn clock ioThread filter keepAliveTime id) σ) :
    (∀ error rest, σ.completions = .closeTimer error :: rest → error ≠ .operationAborted →
      σ.session.socket.isOpen = true) ∧
      ∀ a σ', step F σ a = some σ' → (TimerSpent σ' ↔ CancelsInTime σ a) := by
  obtain ⟨hundrained, htimed⟩ : Undrained σ ∧ Timed σ := by
    refine hrun.invariant (I := fun σ => Undrained σ ∧ Timed σ) (fun hi hok hstep => ?_)
      ⟨.start conn clock ioThread filter keepAliveTime id,
        .start conn clock ioThread filter keepAliveTime id⟩
    have hev := event_of_step hstep
    exact ⟨hi.1.step hev, hi.2.step hi.1 hev hok⟩
  refine ⟨fun error rest hhead herror => ?_, fun a σ' hstep => ?_⟩
  · by_contra hclosed
    have hzero := htimed.spent (by simpa using hclosed)
    rw [hhead, List.countP_cons_of_pos (by simpa [Task.isExpiry] using herror)] at hzero
    omega
  · have hev := event_of_step hstep
    constructor
    · exact cancelsInTime_of_spent hev
    · intro hok
      exact (htimed.step hundrained hev hok).spent

/-- The condition met: the timer expires while the drain waits for the peer. -/
theorem teardown_safe_iff_expired :
    ∃ σ, ran [.readDone 0 .eof [], .run, .timerDone] = some σ ∧
      σ.completions = [.closeTimer .success] ∧ σ.session.socket.isOpen = true := by
  obtain ⟨σ, hσ, hhead⟩ := Option.map_eq_some_iff.mp (show
    (ran [.readDone 0 .eof [], .run, .timerDone]).map (fun σ => σ.completions) =
      some [.closeTimer .success] by decide +kernel)
  have hrun : Transition.Run (step (messageFilter .little .zeros)) CancelsInTime
      (Solo.start (messageFilter .little .zeros) 0 0 1 (.new 0) 0 1) σ :=
    Transition.run_of_exec hσ (by decide +kernel)
  exact ⟨σ, hσ, hhead, (teardown_safe_iff hrun).1 .success [] hhead (by decide)⟩

/-- The timer expires after the end of the stream has been read and before `handle_safe_close` runs:
the callback calls `cancel` on a closed socket, which throws. -/
theorem timer_cancels_closed_socket :
    ∃ σ, ran [.close, .readDone 1 .eof [], .timerDone, .run] = some σ ∧
      σ.completions = [.closeTimer .success] ∧ σ.session.socket.isOpen = false ∧
      σ.session.closeTimerExpired .success = none := by
  exact ⟨_, rfl, by decide +kernel, by decide +kernel, rfl⟩

/-! ## Letting the socket go -/

/-- The socket stays open while the session is in its queue. When the session has left, either the
socket is closed or the timer will close it: one wait is outstanding, or its callback is queued. -/
structure Guarded (σ : Solo Φ) : Prop where
  before : σ.queued = true → σ.waitsOf = 0 ∧ σ.session.socket.isOpen = true
  after : σ.queued = false → σ.session.socket.isOpen = true → σ.waitsOf = 1

theorem Guarded.start (conn : Conn) (clock : Nat) (ioThread : ThreadIx) (filter : Φ)
    (keepAliveTime : Nat) (id : TCPSessionID) :
    Guarded (start F conn clock ioThread filter keepAliveTime id) where
  before := (Timed.start conn clock ioThread filter keepAliveTime id).before
  after hq := by
    have hinit : (Solo.start F conn clock ioThread filter keepAliveTime id).queued = true := rfl
    rw [hinit] at hq
    cases hq

theorem Guarded.congr {σ σ' : Solo Φ} (h : Guarded σ) (hqueued : σ'.queued = σ.queued)
    (hwaits : σ'.waitsOf = σ.waitsOf)
    (hopen : σ'.session.socket.isOpen = σ.session.socket.isOpen) : Guarded σ' where
  before := by rw [hqueued, hwaits, hopen]; exact h.before
  after := by rw [hqueued, hwaits, hopen]; exact h.after

theorem Guarded.step {σ σ' : Solo Φ} {a : Act} (h : Guarded σ) (hundrained : Undrained σ)
    (hev : Event F σ a σ') : Guarded σ' := by
  cases hev with
  | move _ task r htask hruns =>
      have htaken := taken_of_runs htask
      have hafter := after_of_move (σ := σ.taken a) (htaken.found ▸ hruns.move)
      have hwaitsOf := waits_of_runs htask hruns
      have hsession := hafter.session
      have hqueued := hafter.queued
      rw [htaken.queued] at hqueued
      generalize (σ.taken a).onSession r = υ at hwaitsOf hsession hqueued ⊢
      have hleft : .queueRemove ∉ r.2 → υ.queued = false → σ.queued = false := by
        intro hstays hq
        by_contra hin
        exact absurd (hqueued.mpr ⟨by simpa using hin, hstays⟩) (by simp [hq])
      cases hruns.times with
      | same hstays hwaits hopen hexpiry _ =>
          rw [if_neg (by simp [hexpiry])] at hwaitsOf
          refine ⟨fun hq => ?_, fun hq hisOpen => ?_⟩
          · obtain ⟨hzero, hwasOpen⟩ := h.before (hqueued.mp hq).1
            exact ⟨by omega, by rw [hsession, hopen, hwasOpen]⟩
          · rw [hsession, hopen] at hisOpen
            have hone := h.after (hleft hstays hq) hisOpen
            omega
      | arms hremove hwaits hopen hexpiry _ =>
          rw [if_neg (by simp [hexpiry])] at hwaitsOf
          obtain ⟨hzero, -⟩ := h.before (queued_of_found (hruns.mem_iff.mp hremove).2.2)
          have hsum : σ.waitsOf = σ.session.outstandingWaits +
              σ.completions.countP Task.isExpiry := rfl
          have hone : υ.waitsOf = 1 := by omega
          exact ⟨fun hq => absurd hremove (hqueued.mp hq).2, fun _ _ => hone⟩
      | shuts hstays hwaits hopen hexpiry hkind =>
          refine ⟨fun hq => ?_, fun _ hisOpen => ?_⟩
          · -- nothing drains the socket of a session in its queue
            have hdrain : task.isDrain = true := by
              cases task <;> first | rfl | cases hkind
            have hcount := htaken.count counts_isDrain
            rw [if_pos hdrain] at hcount
            have hnodrain := hundrained (hqueued.mp hq).1
            unfold drainsOf at hnodrain
            omega
          · rw [hsession, hopen] at hisOpen
            cases hisOpen
      | expires hstays hwaits hopen hexpiry _ =>
          rw [if_pos hexpiry] at hwaitsOf
          refine ⟨fun hq => ?_, fun _ hisOpen => ?_⟩
          · have hzero := (h.before (hqueued.mp hq).1).1
            omega
          · rw [hsession, hopen] at hisOpen
            cases hisOpen
  | post messages s hposts =>
      obtain ⟨htimer, hopen⟩ := TCPSession.postMessageList_times hposts.run
      refine h.congr rfl ?_ hopen
      unfold waitsOf TCPSession.outstandingWaits
      dsimp only
      rw [htimer]
  | complete _ task s _ hs =>
      refine h.congr rfl ?_ hs.isOpen
      have hcount := hs.waits
      show s.outstandingWaits + (σ.completions ++ [task]).countP Task.isExpiry = σ.waitsOf
      rw [List.countP_append, List.countP_singleton]
      unfold waitsOf
      omega
  | deliver => exact ⟨h.before, h.after⟩
  | tick n => exact ⟨h.before, h.after⟩

end Solo
end EddyServer
