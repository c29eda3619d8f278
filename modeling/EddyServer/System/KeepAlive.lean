import EddyServer.System.Reads

/-!
# Keep-alive

`check_keep_alive` of a thread looks at the time of each session's last activity and posts a `close`
for a session that has been idle too long. By the time the `close` runs, a read that was queued
before it may have completed a message: neither the read nor `close` looks at the other.
-/

namespace EddyServer
namespace TCPSession

variable {Φ : Type} (F : MessageFilterInterface Φ)

/-! ## The time of the last activity -/

/-- The task is a successful read of an open session that completes a message. -/
def completesMessage (s : TCPSession Φ) : Task → Bool
  | .handleRead .success data =>
    !s.closed && !(F.read s.msgFilter (overwrite s.bufferReceiving 0 data)
      s.messagesReceived).messages.isEmpty
  | _ => false

/-- As far as the keep-alive check is concerned `t` is `s`, or it has been closed. -/
structure Rests (s t : TCPSession Φ) : Prop where
  keepAliveTime : t.keepAliveTime = s.keepAliveTime
  lastActivityTime : t.lastActivityTime = s.lastActivityTime
  isOpen : t.closed = false → s.closed = false

variable {F}

theorem Rests.refl (s : TCPSession Φ) : Rests s s := ⟨rfl, rfl, fun h => h⟩

theorem Rests.trans {s t u : TCPSession Φ} (h : Rests s t) (h' : Rests t u) : Rests s u :=
  ⟨h'.keepAliveTime.trans h.keepAliveTime, h'.lastActivityTime.trans h.lastActivityTime,
    fun hu => h.isOpen (h'.isOpen hu)⟩

theorem hanldeClose_rests (s : TCPSession Φ) (found : Option Conn) :
    Rests s (s.hanldeClose found).1 := by
  unfold hanldeClose
  split_ifs
  · exact .refl s
  · cases found with
    | none => exact .refl s
    | some entry => exact ⟨rfl, rfl, fun h => h⟩

theorem closing_rests (s : TCPSession Φ) (cause : CloseCause) (found : Option Conn) :
    Rests s ((s.markClosed cause).hanldeClose found).1 := by
  have hmark : Rests s (s.markClosed cause) := ⟨rfl, rfl, fun h => by cases h⟩
  exact hmark.trans (hanldeClose_rests _ found)

theorem close_rests (s : TCPSession Φ) (cause : CloseCause) (found : Option Conn) :
    Rests s (s.close cause found).1 := by
  unfold close
  split_ifs
  · exact .refl s
  · exact closing_rests s cause found

theorem hanldeWrite_rests (s : TCPSession Φ) (found : Option Conn) (error : ErrorCode) :
    Rests s (s.hanldeWrite found error).1 := by
  -- the count of writes does not matter here
  have hcount : Rests s { s with numWriteHandlers := s.numWriteHandlers - 1 } :=
    ⟨rfl, rfl, fun h => h⟩
  unfold hanldeWrite
  dsimp only
  split_ifs
  · exact hcount.trans (closing_rests _ _ found)
  · exact ⟨rfl, rfl, fun h => h⟩
  · exact ⟨rfl, rfl, fun h => h⟩

theorem handleSafeClose_rests (s : TCPSession Φ) (error : ErrorCode) (data : List UInt8) :
    Rests s (s.handleSafeClose error data).1 := by
  unfold handleSafeClose
  split_ifs <;> exact ⟨rfl, rfl, fun h => h⟩

theorem closeTimerExpired_rests {s t : TCPSession Φ} {error : ErrorCode}
    (h : s.closeTimerExpired error = some t) : Rests s t := by
  unfold closeTimerExpired at h
  split_ifs at h <;> cases h <;> exact ⟨rfl, rfl, fun h => h⟩

theorem packMessageList_rests (s : TCPSession Φ) : Rests s s.packMessageList.1 := by
  unfold packMessageList
  split_ifs <;> exact ⟨rfl, rfl, fun h => h⟩

theorem postMessageList_rests {s t : TCPSession Φ} {messages : List NetMessage}
    (h : s.postMessageList F messages = some t) : Rests s t := by
  unfold postMessageList at h
  split_ifs at h with hclosed
  · cases h
    exact .refl s
  · dsimp only at h
    split_ifs at h <;> cases h <;> exact ⟨rfl, rfl, fun h => h⟩

theorem startRead_rests (s : TCPSession Φ) : Rests s (s.startRead F) := by
  obtain ⟨f, n, b, reads, heq⟩ := startRead_eq F s
  rw [heq]
  exact ⟨rfl, rfl, fun h => h⟩

/-- A read that completes no message leaves the time alone. -/
theorem handleRead_rests {s : TCPSession Φ} {now : Nat} {found : Option Conn} {error : ErrorCode}
    {data : List UInt8} (h : s.completesMessage F (.handleRead error data) = false) :
    Rests s (s.handleRead F now found error data).1 := by
  have hcount : Rests s { s with numReadHandlers := s.numReadHandlers - 1 } :=
    ⟨rfl, rfl, fun h => h⟩
  unfold handleRead
  dsimp only
  split_ifs with hend
  · exact hcount.trans (closing_rests _ _ found)
  · obtain ⟨herror, hclosed⟩ := not_or.mp hend
    obtain rfl : error = .success := not_not.mp herror
    -- the filter has found no message, so `read_messages` leaves the time alone
    have hnone : (F.read s.msgFilter (overwrite s.bufferReceiving 0 data)
        s.messagesReceived).messages = [] := by
      simpa [completesMessage, hclosed] using h
    refine Rests.trans ?_ (startRead_rests _)
    unfold readMessages
    dsimp only
    rw [hnone, List.append_nil, if_neg (by simp)]
    exact ⟨rfl, rfl, fun h => h⟩

/-- A read that completes a message, and finds no other, sets the time. -/
theorem handleRead_refreshes {s : TCPSession Φ} {now : Nat} {found : Option Conn}
    {error : ErrorCode} {data : List UInt8}
    (h : s.completesMessage F (.handleRead error data) = true) (hnone : s.messagesReceived = []) :
    (s.handleRead F now found error data).1.lastActivityTime = now := by
  cases error with
  | success =>
      simp only [completesMessage, Bool.and_eq_true, Bool.not_eq_true'] at h
      unfold handleRead
      dsimp only
      rw [if_neg (by simp [h.1])]
      rw [(startRead_rests _).lastActivityTime]
      unfold readMessages
      dsimp only
      -- the list was empty and now holds a message: this is where the time is set
      rw [if_pos (by rw [hnone] at h ⊢; simp [h.2])]
  | _ => cases h

end TCPSession

namespace System

variable {Φ : Type} {F : MessageFilterInterface Φ}

/-! ## What a step leaves of the times -/

/-- Nothing has been opened or checked, and no session but `e` has been active. -/
structure Passes (e : Option Conn) (σ σ' : System Φ) : Prop where
  ungated : Ungated σ σ'
  clock : σ'.clock = σ.clock
  sessions : ∀ d, e ≠ some d → TCPSession.Rests (σ.sessions d) (σ'.sessions d)

theorem Passes.refl (e : Option Conn) (σ : System Φ) : Passes e σ σ :=
  ⟨ungated_of_same rfl (fun _ => rfl) rfl rfl, rfl, fun _ _ => .refl _⟩

theorem Passes.trans {e : Option Conn} {σ τ υ : System Φ} (h : Passes e σ τ) (h' : Passes e τ υ) :
    Passes e σ υ where
  ungated := by
    refine ⟨h'.ungated.accepted.trans h.ungated.accepted, fun c =>
      (h'.ungated.ioThread c).trans (h.ungated.ioThread c), fun t k c hc =>
      h.ungated.entries t k c (h'.ungated.entries t k c hc), fun t => ?_⟩
    obtain ⟨more, heq, hmore⟩ := h.ungated.tasks t
    obtain ⟨more', heq', hmore'⟩ := h'.ungated.tasks t
    refine ⟨more ++ more', by rw [heq', heq, List.append_assoc], fun c task hmem => ?_⟩
    exact (List.mem_append.mp hmem).elim (hmore c task) (hmore' c task)
  clock := h'.clock.trans h.clock
  sessions d hd := (h.sessions d hd).trans (h'.sessions d hd)

/-- A session has been replaced by one that rests. -/
theorem passes_update (σ : System Φ) {e : Option Conn} {c : Conn} {s : TCPSession Φ}
    (hio : s.ioThread = (σ.sessions c).ioThread) (h : e ≠ some c → TCPSession.Rests (σ.sessions c) s) :
    Passes e σ { σ with sessions := Function.update σ.sessions c s } := by
  refine ⟨ungated_of_same rfl (update_field (·.ioThread) hio) rfl rfl, rfl, fun d hd => ?_⟩
  by_cases hdc : d = c
  · subst hdc
    dsimp only
    rw [Function.update_self]
    exact h hd
  · dsimp only
    rw [Function.update_of_ne hdc]
    exact .refl _

theorem passes_onSession {σ : System Φ} {e : Option Conn} {c : Conn} {found : Option Conn}
    {task : Task} {r : TCPSession Φ × List Effect}
    (hmove : TCPSession.Move (σ.sessions c) found task r)
    (h : e ≠ some c → TCPSession.Rests (σ.sessions c) r.1) : Passes e σ (σ.onSession c r) := by
  have hungated := ungated_onSession (σ := σ) (c := c) hmove hmove.ioThread
  rw [onSession_eq] at hungated ⊢
  exact ⟨hungated, rfl, (passes_update σ hmove.ioThread h).sessions⟩

theorem Calls.passes {cbs : List (Conn × Callback)} {σ σ' : System Φ} (h : Calls cbs σ σ')
    (e : Option Conn) : Passes e σ σ' := by
  have hungated := h.ungated
  obtain ⟨_, _, rfl⟩ := h.same
  exact ⟨hungated, rfl, fun _ _ => .refl _⟩

theorem passes_postMessageList {σ σ' : System Φ} {d : Conn} {messages : List NetMessage}
    (h : σ.postMessageList F d messages = some σ') (e : Option Conn) : Passes e σ σ' := by
  obtain ⟨s, hs, rfl⟩ := Option.map_eq_some_iff.mp h
  exact passes_update σ (TCPSession.postMessageList_posts F hs).ioThread fun _ =>
    TCPSession.postMessageList_rests hs

theorem passes_post (σ : System Φ) (e : Option Conn) (t : ThreadIx) (c : Conn) {task : Task}
    (hgate : task.isGate = false) : Passes e σ (σ.post t (.on c task)) := by
  rw [post_eq]
  refine ⟨⟨rfl, fun _ => rfl, fun _ _ _ h => h, fun u => ⟨_, rfl, fun d task' hmem => ?_⟩⟩, rfl,
    fun _ _ => .refl _⟩
  split_ifs at hmem
  · cases List.mem_singleton.mp hmem
    exact hgate
  · cases hmem

/-- The session whose read completes a message when the task is run for connection `c`. -/
def reader (F : MessageFilterInterface Φ) (σ : System Φ) (c : Conn) (task : Task) : Option Conn :=
  if (σ.sessions c).completesMessage F task then some c else none

theorem reader_ne {σ : System Φ} {c : Conn} {task : Task} (h : σ.reader F c task ≠ some c) :
    (σ.sessions c).completesMessage F task = false := by
  unfold reader at h
  split_ifs at h with hcompletes
  · exact absurd rfl h
  · simpa using hcompletes

theorem passes_onSessionClosed (σ : System Φ) (c : Conn) (id : TCPSessionID) (script : Script)
    (e : Option Conn) : Passes e σ (σ.onSessionClosed c id script) := by
  have hput : ∀ τ : System Φ, Passes e σ τ →
      Passes e σ (if id = 0 then τ else { τ with idGenerator := τ.idGenerator.put id }) := by
    intro τ hτ
    split_ifs
    · exact hτ
    · exact hτ.trans ⟨ungated_of_same rfl (fun _ => rfl) rfl rfl, rfl, fun _ _ => .refl _⟩
  rw [onSessionClosed]
  apply hput
  split
  · exact .refl _ _
  · rename_i h _
    have hcalls := (calls_callback σ h (.onClosed c) script).passes e
    generalize σ.callback h (.onClosed c) script = τ at hcalls ⊢
    obtain ⟨threadLoad, hload⟩ := changeLoad_eq (τ.unregister h id) (σ.handlers h).threadId
      fun load => if load > 0 then load - 1 else load
    rw [hload]
    exact hcalls.trans ⟨ungated_of_same rfl (fun _ => rfl) rfl rfl, rfl, fun _ _ => .refl _⟩

theorem passes_exec {σ σ' : System Φ} {t : ThreadIx} {c : Conn} {scripts : List Script}
    {task : Task} (hinit : ∀ k, task ≠ .init k) (h : exec F σ t c scripts task = some σ') :
    Passes (σ.reader F c task) σ σ' := by
  cases task with
  -- `init` sets the time, and is treated apart
  | init k => exact absurd rfl (hinit k)
  | handleRead error data =>
      cases h
      exact passes_onSession (TCPSession.move_handleRead F _ _ _ error data) fun hne =>
        TCPSession.handleRead_rests (reader_ne hne)
  | hanldeWrite error =>
      cases h
      exact passes_onSession (TCPSession.move_hanldeWrite _ _ error) fun _ =>
        TCPSession.hanldeWrite_rests ..
  | handleSafeClose error data =>
      cases h
      exact passes_onSession (TCPSession.move_handleSafeClose _ none error data) fun _ =>
        TCPSession.handleSafeClose_rests ..
  | closeTimer error =>
      obtain ⟨s, hs, rfl⟩ := Option.map_eq_some_iff.mp h
      exact passes_onSession (TCPSession.move_closeTimerExpired none hs) fun _ =>
        TCPSession.closeTimerExpired_rests hs
  | close =>
      cases h
      have hmove : TCPSession.Move (σ.sessions c) (σ.found c) .close
          ((σ.sessions c).close .keepAlive (σ.found c)) :=
        TCPSession.move_close _ rfl rfl rfl _
      exact passes_onSession hmove fun _ => TCPSession.close_rests ..
  | sessionPackMessageList =>
      cases h
      exact passes_onSession (TCPSession.move_packMessageList _ none) fun _ =>
        TCPSession.packMessageList_rests _
  | sessionSendMessageListDirectly =>
      cases h
      rw [sessionSendMessageListDirectly]
      split
      · exact .refl _ _
      · refine ((calls_deliver ..).passes _).trans (passes_update _ rfl fun _ => ?_)
        exact ⟨rfl, rfl, fun hopen => hopen⟩
  | sendMessageListToHandler id messages =>
      cases h
      rw [sendMessageListToHandler]
      split
      · exact .refl _ _
      · exact (calls_deliver ..).passes _
  | onSessionClosed id =>
      cases h
      exact passes_onSessionClosed σ c id (scripts.headD []) _
  | handlerPackMessageList =>
      cases h
      exact (calls_onHandler (handlerMove_packMessageList _ _)).passes _
  | handlerSendMessageListDirectly =>
      rw [exec, handlerSendMessageListDirectly] at h
      split at h
      · cases h
        exact .refl _ _
      · obtain ⟨τ, hτ, rfl⟩ := Option.map_eq_some_iff.mp h
        have hpasses := passes_postMessageList hτ (σ.reader F c .handlerSendMessageListDirectly)
        exact hpasses.trans ⟨ungated_of_same rfl (fun _ => rfl) rfl rfl, rfl, fun _ _ => .refl _⟩
  | sendMessageListToSession id messages =>
      rw [exec, sendMessageListToSession] at h
      split at h
      · cases h
        exact .refl _ _
      · exact passes_postMessageList h _
  | closeSession id =>
      cases h
      rw [closeSession]
      split
      · exact .refl _ _
      · rename_i d hd
        have hmove : TCPSession.Move (σ.sessions d) (σ.found d) (.closeSession id)
            ((σ.sessions d).close .closeSession (σ.found d)) :=
          TCPSession.move_close _ rfl rfl rfl _
        exact passes_onSession hmove fun _ => TCPSession.close_rests ..

/-- A read that completes a message, and finds no other, sets the time of its session. -/
theorem exec_refreshes {σ σ' : System Φ} {t : ThreadIx} {c d : Conn} {scripts : List Script}
    {task : Task} (hreader : σ.reader F c task = some d) (hnone : (σ.sessions d).messagesReceived = [])
    (h : exec F σ t c scripts task = some σ') : (σ'.sessions d).lastActivityTime = σ.clock := by
  unfold reader at hreader
  split_ifs at hreader with hcompletes
  cases hreader
  cases task with
  | handleRead error data =>
      cases h
      rw [onSession_eq]
      dsimp only
      rw [Function.update_self]
      exact TCPSession.handleRead_refreshes hcompletes hnone
  | _ => cases hcompletes

theorem passes_complete {σ : System Φ} {c : Conn} {s : TCPSession Φ} {task : Task}
    (hcompletes : TCPSession.Completes (σ.sessions c) task s) (hne : task ≠ .close) :
    Passes none σ (σ.complete c s task) := by
  have hgate : task.isGate = false := by
    have hcompletion := hcompletes.isCompletion
    cases task with
    | init id => cases hcompletion
    | close => exact absurd rfl hne
    | _ => rfl
  have hrests : s.ioThread = (σ.sessions c).ioThread ∧ TCPSession.Rests (σ.sessions c) s := by
    obtain ⟨k, timer, rfl⟩ := hcompletes.same
    exact ⟨rfl, rfl, rfl, fun hopen => hopen⟩
  have hupdate := passes_update (e := none) σ hrests.1 fun _ => hrests.2
  exact hupdate.trans (passes_post _ none s.ioThread c hgate)

/-- `async_accept` has completed. -/
theorem passes_accept (σ : System Φ) (u : ThreadIx) (filter : Φ) (error : ErrorCode) :
    Passes none σ (({ σ with accepting := none } : System Φ).post mainThread
      (.handleAccept u filter error)) := by
  rw [post_eq]
  refine ⟨⟨rfl, fun _ => rfl, fun _ _ _ hd => hd, fun v => ⟨_, rfl, fun d task hmem => ?_⟩⟩, rfl,
    fun _ _ => .refl _⟩
  split_ifs at hmem
  · cases List.mem_singleton.mp hmem
  · cases hmem

/-- The session whose read completes a message in a step. -/
def reading (F : MessageFilterInterface Φ) (σ : System Φ) : Act Φ → Option Conn
  | .run t _ _ _ =>
    match σ.tasks t with
    | .on c task :: _ => σ.reader F c task
    | _ => none
  | _ => none

/-- The session is open, and the read is at the head of its queue. -/
theorem OneRead.of_reading {σ : System Φ} (h : OneRead σ) {a : Act Φ} {c : Conn}
    (hreading : σ.reading F a = some c) :
    (σ.sessions c).closed = false ∧ ∃ job rest, σ.tasks (σ.sessions c).ioThread = job :: rest ∧
      job.readBy c = true := by
  unfold reading at hreading
  split at hreading
  · rename_i t _ _ _
    split at hreading
    · rename_i _ task rest ht
      unfold reader at hreading
      split_ifs at hreading with hcompletes
      cases hreading
      cases task with
      | handleRead error data =>
          have hio := h.home t c _ (by rw [ht]; exact List.mem_cons_self) rfl
          refine ⟨?_, _, rest, hio ▸ ht, by simp [Job.readBy, Task.isRead]⟩
          cases error with
          | success =>
              rw [TCPSession.completesMessage, Bool.and_eq_true, Bool.not_eq_true'] at hcompletes
              exact hcompletes.1
          | _ => cases hcompletes
      | _ => cases hcompletes
    · cases hreading
  · cases hreading

end System

/-! ## Runs -/

/-- A server, and when each session last handled a read that completed a message. -/
structure Watched (Φ : Type) where
  server : System Φ
  lastMessage : Conn → Option Nat

namespace Watched

variable {Φ : Type} (F : MessageFilterInterface Φ)

/-- The record after session `e` has handled such a read. -/
def note (ω : Watched Φ) : Option Conn → Conn → Option Nat
  | none => ω.lastMessage
  | some c => Function.update ω.lastMessage c (some ω.server.clock)

def step (ω : Watched Φ) (a : System.Act Φ) : Option (Watched Φ) :=
  (System.step F ω.server a).map fun σ => ⟨σ, ω.note (ω.server.reading F a)⟩

def start (threads keepAliveTime : Nat) (filter : Φ) : Watched Φ :=
  ⟨.start threads keepAliveTime filter, fun _ => none⟩

/-- A read that completes a message finds no `close` of the keep-alive check queued for its session.
If the session is on the main thread and its handler is not registered, so that nobody empties
`messages_received_`, it finds no other message either. -/
def Refreshes (ω : Watched Φ) (a : System.Act Φ) : Prop :=
  ∀ c ∈ ω.server.reading F a,
    (∀ job ∈ ω.server.tasks (ω.server.sessions c).ioThread, job.checks c = false) ∧
      (¬ System.Heard ω.server c → (ω.server.sessions c).messagesReceived = [])

instance (ω : Watched Φ) (a : System.Act Φ) : Decidable (Refreshes F ω a) :=
  inferInstanceAs (Decidable (∀ c ∈ ω.server.reading F a, _ ∧ _))

variable {F}

/-- The times, and what is due. -/
structure Watches (ω : Watched Φ) : Prop where
  openings : ω.server.Openings
  activity_le : ∀ c, (ω.server.sessions c).lastActivityTime ≤ ω.server.clock
  message_le : ∀ c time, ω.lastMessage c = some time → time ≤ ω.server.clock
  /-- The time of the last activity of an open session is that of its last message, or later. -/
  fresh : ∀ c time, (ω.server.sessions c).closed = false → ω.lastMessage c = some time →
    time ≤ (ω.server.sessions c).lastActivityTime
  /-- An open session for which a `close` is queued has been idle long enough. -/
  due : ∀ t c, .on c .close ∈ ω.server.tasks t → (ω.server.sessions c).closed = false →
    (ω.server.sessions c).lastActivityTime + (ω.server.sessions c).keepAliveTime * 10 ^ 9 ≤
      ω.server.clock

theorem Watches.start (threads keepAliveTime : Nat) (filter : Φ) :
    Watches (start threads keepAliveTime filter) where
  openings := .start threads keepAliveTime filter
  activity_le _ := Nat.le_refl _
  message_le _ _ h := by cases h
  fresh _ _ _ h := by cases h
  due _ _ h := by cases h

theorem Watches.popped {ω : Watched Φ} (h : Watches ω) {t : ThreadIx} {job : Job Φ}
    {rest : List (Job Φ)} (ht : ω.server.tasks t = job :: rest) :
    Watches ⟨ω.server.popped t rest, ω.lastMessage⟩ where
  openings := h.openings.popped ht
  activity_le := h.activity_le
  message_le := h.message_le
  fresh := h.fresh
  due u c hmem := h.due u c (System.mem_popped ht hmem)

theorem note_eq (ω : Watched Φ) (e : Option Conn) (c : Conn) :
    ω.note e c = if e = some c then some ω.server.clock else ω.lastMessage c := by
  cases e with
  | none => rfl
  | some d =>
      rw [note, Function.update_apply]
      by_cases hd : d = c
      · subst hd
        rw [if_pos rfl, if_pos rfl]
      · rw [if_neg (Ne.symm hd), if_neg fun heq => hd (Option.some.inj heq)]

/-- Sessions have rested, but for one whose time has been set. -/
theorem Watches.passes {ω : Watched Φ} (h : Watches ω) {e : Option Conn} {σ : System Φ}
    (hp : System.Passes e ω.server σ)
    (hactive : ∀ c, e = some c → (σ.sessions c).lastActivityTime = ω.server.clock ∧
      ∀ t, .on c .close ∉ ω.server.tasks t) : Watches ⟨σ, ω.note e⟩ := by
  have hclock : σ.clock = ω.server.clock := hp.clock
  refine ⟨h.openings.ungated hp.ungated, fun c => ?_, fun c time hc => ?_, fun c time hopen hc => ?_,
    fun t c hmem hopen => ?_⟩
  · rw [hclock]
    by_cases he : e = some c
    · exact (hactive c he).1.le
    · rw [(hp.sessions c he).lastActivityTime]
      exact h.activity_le c
  · rw [hclock]
    replace hc : ω.note e c = some time := hc
    rw [note_eq] at hc
    split_ifs at hc with he
    · exact (Option.some.inj hc).ge
    · exact h.message_le c time hc
  · replace hc : ω.note e c = some time := hc
    rw [note_eq] at hc
    split_ifs at hc with he
    · rw [(hactive c he).1]
      exact (Option.some.inj hc).ge
    · rw [(hp.sessions c he).lastActivityTime]
      exact h.fresh c time ((hp.sessions c he).isOpen hopen) hc
  · have hold := hp.ungated.mem hmem rfl
    rw [hclock]
    by_cases he : e = some c
    · -- no `close` is queued for the session that has been active
      exact absurd hold ((hactive c he).2 t)
    · rw [(hp.sessions c he).lastActivityTime, (hp.sessions c he).keepAliveTime]
      exact h.due t c hold ((hp.sessions c he).isOpen hopen)

/-- A session runs `init`. -/
theorem Watches.opens {ω : Watched Φ} (h : Watches ω) {t : ThreadIx} {c : Conn} {k : TCPSessionID}
    {rest : List (Job Φ)} (ht : ω.server.tasks t = .on c (.init k) :: rest) :
    Watches ⟨(ω.server.popped t rest).onSession c
      ((ω.server.sessions c).init F ω.server.clock k), ω.lastMessage⟩ := by
  have hopens := TCPSession.init_opens F ω.server.clock (ω.server.sessions c) k
  have hopenings := h.openings.opens ht hopens
  have hactivity : ((ω.server.sessions c).init F ω.server.clock k).1.lastActivityTime =
      ω.server.clock := (TCPSession.startRead_rests _).lastActivityTime
  -- a session is not checked before it runs `init`
  have hlast : ∀ u, .on c .close ∉ ω.server.tasks u :=
    (h.openings.apart t c k (by rw [ht]; exact List.mem_cons_self)).2
  rw [System.onSession_of_adds hopens.effects] at hopenings ⊢
  generalize TCPSession.init F ω.server.clock (ω.server.sessions c) k = r at hactivity hopenings ⊢
  have hsessions : ∀ d, d ≠ c → Function.update (ω.server.popped t rest).sessions c r.1 d =
      ω.server.sessions d := fun d hd => Function.update_of_ne hd _ _
  refine ⟨hopenings, fun d => ?_, h.message_le, fun d time hopen hd => ?_, fun u d hmem hopen => ?_⟩
  all_goals dsimp only at *
  all_goals by_cases hdc : d = c
  · subst hdc
    rw [Function.update_self]
    exact hactivity.le
  · rw [hsessions d hdc]
    exact h.activity_le d
  · subst hdc
    rw [Function.update_self, hactivity]
    exact h.message_le d time hd
  · rw [hsessions d hdc] at hopen ⊢
    exact h.fresh d time hopen hd
  · subst hdc
    exact absurd (System.mem_popped ht hmem) (hlast u)
  · rw [hsessions d hdc] at hopen ⊢
    exact h.due u d (System.mem_popped ht hmem) hopen

/-- A new session is closed until it runs `init`. -/
theorem Watches.register {ω : Watched Φ} (h : Watches ω) (u : ThreadIx) (filter : Φ)
    (keepAliveTime : Nat) (k : TCPSessionID) (generator : IDGenerator 32) :
    Watches ⟨ω.server.register (.new u filter keepAliveTime) k generator, ω.lastMessage⟩ := by
  have hopenings := h.openings.register (.new u filter keepAliveTime) k generator
  rw [System.register, System.post_eq] at hopenings ⊢
  have hsessions : ∀ d, d ≠ ω.server.accepted → Function.update ω.server.sessions ω.server.accepted
      (.new u filter keepAliveTime) d = ω.server.sessions d := fun d hd => Function.update_of_ne hd _ _
  refine ⟨hopenings, fun d => ?_, h.message_le, fun d time hopen hd => ?_, fun v d hmem hopen => ?_⟩
  all_goals dsimp only at *
  all_goals by_cases hdc : d = ω.server.accepted
  · rw [hdc, Function.update_self]
    exact Nat.zero_le _
  · rw [hsessions d hdc]
    exact h.activity_le d
  · rw [hdc, Function.update_self] at hopen
    cases hopen
  · rw [hsessions d hdc] at hopen ⊢
    exact h.fresh d time hopen hd
  · rw [hdc, Function.update_self] at hopen
    cases hopen
  · rw [hsessions d hdc] at hopen ⊢
    refine h.due v d ?_ hopen
    rcases List.mem_append.mp hmem with hold | hnew
    · exact hold
    · split_ifs at hnew
      · cases List.mem_singleton.mp hnew
      · cases hnew

theorem Watches.reload {σ : System Φ} {lastMessage : Conn → Option Nat}
    (h : Watches ⟨σ, lastMessage⟩) (threadLoad : List Nat) (accepting : Option (ThreadIx × Φ)) :
    Watches ⟨{ σ with threadLoad := threadLoad, accepting := accepting }, lastMessage⟩ :=
  h.passes (e := none) ⟨System.ungated_of_same rfl (fun _ => rfl) rfl rfl, rfl, fun _ _ => .refl _⟩
    fun c hc => by cases hc

/-- `handle_accept` has run. -/
theorem Watches.handleAccept {ω : Watched Φ} (h : Watches ω) {u : ThreadIx} {filter nextFilter : Φ}
    {error : ErrorCode} {first : TCPSessionID} {script : Script} {σ : System Φ}
    (haccept : ω.server.handleAccept u filter error first script nextFilter = some σ) :
    Watches ⟨σ, ω.lastMessage⟩ := by
  unfold System.handleAccept at haccept
  split_ifs at haccept
  · cases haccept
    exact h
  · obtain ⟨⟨k, generator⟩, -, rfl⟩ := Option.map_eq_some_iff.mp haccept
    obtain ⟨τ, hcalls, heq⟩ := System.onSessionConnected_eq ω.server
      (.new u filter ω.server.keepAliveTime) k generator script
    dsimp only
    rw [heq]
    have hregistered := h.register u filter ω.server.keepAliveTime k generator
    exact (hregistered.passes (hcalls.passes none) fun c hc => by cases hc).reload _ _

/-- The check posts a `close` for a session that has been idle long enough. -/
theorem Watches.checked {ω : Watched Φ} (h : Watches ω) {t : ThreadIx} {k : TCPSessionID} {c : Conn}
    (hentry : ω.server.getSession t k = some c)
    (hcheck : (ω.server.sessions c).checkKeepAlive ω.server.clock = false) :
    Watches ⟨ω.server.post t (.on c .close), ω.lastMessage⟩ := by
  obtain ⟨hlt, hio⟩ := h.openings.entry t k c hentry
  -- the check compares times, so the session has been idle for `keep_alive_time` now
  have hidle : (ω.server.sessions c).lastActivityTime +
      (ω.server.sessions c).keepAliveTime * 10 ^ 9 ≤ ω.server.clock := by
    have hle := h.activity_le c
    simp only [TCPSession.checkKeepAlive, Bool.or_eq_false_iff, decide_eq_false_iff_not] at hcheck
    omega
  rw [System.post_eq]
  have hmem : ∀ {u d task}, .on d task ∈
      (ω.server.tasks u ++ if t = u then [.on c .close] else [] : List (Job Φ)) →
      .on d task ∈ ω.server.tasks u ∨ d = c ∧ task = .close ∧ t = u := by
    intro u d task hjob
    rcases List.mem_append.mp hjob with hold | hjob
    · exact .inl hold
    · split_ifs at hjob with hu
      · cases List.mem_singleton.mp hjob
        exact .inr ⟨rfl, rfl, hu⟩
      · cases hjob
  refine ⟨⟨fun u d task hjob hgate => ?_, h.openings.entry, fun u d hjob => ?_, fun d => ?_,
    fun u d k' hjob => ?_⟩, h.activity_le, h.message_le, h.fresh, fun u d hjob hopen => ?_⟩
  · rcases hmem hjob with hold | ⟨rfl, -⟩
    · exact h.openings.job u d task hold hgate
    · exact hlt
  · rcases hmem hjob with hold | ⟨rfl, -, rfl⟩
    · exact h.openings.home u d hold
    · exact hio
  · obtain ⟨u, hone, hnone⟩ := h.openings.once d
    have hsame : ∀ v, ((ω.server.tasks v ++ if t = v then [.on c .close] else [] :
        List (Job Φ))).countP (Job.opens d) = (ω.server.tasks v).countP (Job.opens d) := by
      intro v
      split_ifs <;> simp [Job.opens]
    exact ⟨u, by dsimp only; rwa [hsame], fun v hne => by dsimp only; rw [hsame]; exact hnone v hne⟩
  · rcases hmem hjob with hold | ⟨-, hinit, -⟩
    · obtain ⟨hnoentry, hnoclose⟩ := h.openings.apart u d k' hold
      refine ⟨hnoentry, fun v hv => ?_⟩
      rcases hmem hv with hv' | ⟨rfl, -, -⟩
      · exact hnoclose v hv'
      · exact hnoentry t k hentry
    · cases hinit
  · rcases hmem hjob with hold | ⟨rfl, -, -⟩
    · exact h.due u d hold hopen
    · exact hidle

/-- A read that completes a message, and finds no other and no `close`, makes its session fresh. -/
theorem Watches.step {ω ω' : Watched Φ} {a : System.Act Φ} (h : Watches ω)
    (hok : ∀ c, ω.server.reading F a = some c → (ω.server.sessions c).messagesReceived = [] ∧
      ∀ job ∈ ω.server.tasks (ω.server.sessions c).ioThread, job.checks c = false)
    (hstep : step F ω a = some ω') : Watches ω' := by
  obtain ⟨σ, hσ, rfl⟩ := Option.map_eq_some_iff.mp hstep
  have hrest : ∀ {τ}, ω.server.reading F a = none → System.Passes none ω.server τ →
      Watches ⟨τ, ω.note (ω.server.reading F a)⟩ := by
    intro τ hnone hp
    rw [hnone]
    exact h.passes hp fun c hc => by cases hc
  cases System.taken_of_step hσ with
  | task t c task rest scripts first filter ht hexec =>
      have hreading : ω.server.reading F (.run t scripts first filter) =
          ω.server.reader F c task := by
        rw [System.reading, ht]
      -- `init` sets the time of its session; any other task can do so only by a read
      by_cases hinit : ∃ k, task = .init k
      · obtain ⟨k, rfl⟩ := hinit
        cases hexec
        rw [hreading]
        exact h.opens ht
      · have hp := System.passes_exec (fun k hk => hinit ⟨k, hk⟩) hexec
        rw [hreading]
        refine (h.popped ht).passes hp fun d hd => ?_
        obtain ⟨hnone, hnoclose⟩ := hok d (hreading.trans hd)
        refine ⟨System.exec_refreshes hd hnone hexec, fun u hu => ?_⟩
        have hmem := System.mem_popped ht hu
        rw [h.openings.home u d hmem] at hmem
        have hchecks := hnoclose _ hmem
        simp [Job.checks] at hchecks
  | handleAccept t u filter nextFilter error rest scripts first ht _ haccept =>
      rw [System.reading, ht]
      exact (h.popped ht).handleAccept haccept
  | accept u filter error _ => exact hrest rfl (System.passes_accept _ u filter error)
  | complete a c task s hrun hcompletes hne _ =>
      have hnone : ω.server.reading F a = none := by
        cases a with
        | run t scripts first filter => exact absurd rfl (hrun t scripts first filter)
        | _ => rfl
      exact hrest hnone (System.passes_complete hcompletes hne)
  | spares t id => exact h
  | checks t id c hentry hidle => exact h.checked hentry hidle
  | logic script => exact hrest rfl ((System.calls_runScript _ script).passes none)
  | tick n =>
      exact ⟨h.openings.ungated (System.ungated_of_same rfl (fun _ => rfl) rfl rfl),
        fun c => (h.activity_le c).trans (Nat.le_add_right _ _),
        fun c time hc => (h.message_le c time hc).trans (Nat.le_add_right _ _), h.fresh,
        fun t c hmem hopen => (h.due t c hmem hopen).trans (Nat.le_add_right _ _)⟩

structure Keeping (ω : Watched Φ) : Prop where
  watches : Watches ω
  oneRead : System.OneRead ω.server
  flushes : ∀ c, System.Flushes ω.server c

theorem Keeping.start (threads keepAliveTime : Nat) (filter : Φ) :
    Keeping (start threads keepAliveTime filter) where
  watches := .start threads keepAliveTime filter
  oneRead := .start threads keepAliveTime filter
  flushes := .start threads keepAliveTime filter

theorem Keeping.step {ω ω' : Watched Φ} {a : System.Act Φ} (h : Keeping ω)
    (hok : Refreshes F ω a) (hstep : step F ω a = some ω') : Keeping ω' := by
  obtain ⟨σ, hσ, rfl⟩ := Option.map_eq_some_iff.mp hstep
  have hev := System.event_of_step hσ
  refine ⟨h.watches.step (fun c hc => ?_) hstep, h.oneRead.step h.watches.openings hev,
    fun c => (h.flushes c).step h.oneRead hev⟩
  obtain ⟨hnoclose, hunheard⟩ := hok c hc
  obtain ⟨hopen, job, rest, ht, hread⟩ := h.oneRead.of_reading hc
  refine ⟨?_, hnoclose⟩
  by_cases hheard : System.Heard ω.server c
  · exact (h.flushes c).nil_of_read ht hread hopen hheard
  · exact hunheard hheard

/-- If every read that completes a message finds no `close` queued for its session, then the
keep-alive check closes no session that has handled such a read within the keep-alive time. -/
theorem keep_alive_spares_active {threads keepAliveTime : Nat} {filter : Φ} {ω : Watched Φ}
    (hrun : Transition.Run (step F) (Refreshes F) (start threads keepAliveTime filter) ω) :
    ∀ t c rest, ω.server.tasks t = .on c .close :: rest → (ω.server.sessions c).closed = false →
      ∀ time, ω.lastMessage c = some time →
        time + (ω.server.sessions c).keepAliveTime * 10 ^ 9 ≤ ω.server.clock := by
  intro t c rest ht hopen time hmessage
  have hkeeping : Keeping ω :=
    hrun.invariant (fun h hok hstep => h.step hok hstep) (.start threads keepAliveTime filter)
  have hfresh := hkeeping.watches.fresh c time hopen hmessage
  have hdue := hkeeping.watches.due t c (by rw [ht]; exact List.mem_cons_self) hopen
  omega

/-! ## A read between the check and the close -/

/-- A server with one worker and a keep-alive time of a second, after a connection has been accepted
and the length of its first message has been read. -/
def opened : List (System.Act MessageFilter) :=
  [.acceptDone .success, .run 0 [] 0 (.new 0), .run 1 [] 0 (.new 0),
    .readDone 0 0 .success [0, 1], .run 1 [] 0 (.new 0)]

def ran (labels : List (System.Act MessageFilter)) : Option (Watched MessageFilter) :=
  Transition.exec (step (messageFilter .little .zeros)) (start 2 1 (.new 0)) (opened ++ labels)

/-- What the theorem reads of the first connection and the worker. -/
structure View where
  clock : Nat
  lastMessage : Option Nat
  closed : Bool
  keepAliveTime : Nat
  head : Option Bool
  deriving DecidableEq

def view (ω : Watched MessageFilter) : View :=
  { clock := ω.server.clock
    lastMessage := ω.lastMessage 0
    closed := (ω.server.sessions 0).closed
    keepAliveTime := (ω.server.sessions 0).keepAliveTime
    head := (ω.server.tasks 1).head?.map (Job.checks 0) }

theorem exists_head {jobs : List (Job MessageFilter)} {c : Conn}
    (h : jobs.head?.map (Job.checks c) = some true) : ∃ rest, jobs = .on c .close :: rest := by
  cases jobs with
  | nil => cases h
  | cons job rest =>
      have hchecks : job.checks c = true := Option.some.inj h
      rcases job with ⟨d, task⟩ | _
      · cases task <;> first
          | cases hchecks
          | exact ⟨rest, by rw [show d = c from by simpa [Job.checks] using hchecks]⟩
      · cases hchecks

/-- The session has been idle for a second. -/
theorem keep_alive_spares_active_idle :
    ∃ ω rest, ran [.readDone 0 0 .success [7], .run 1 [] 0 (.new 0), .run 1 [] 0 (.new 0),
        .tick (10 ^ 9), .keepAlive 1 1] = some ω ∧
      (ω.server.tasks 1 = .on 0 .close :: rest ∧ (ω.server.sessions 0).closed = false ∧
        ω.lastMessage 0 = some 0) ∧
      0 + (ω.server.sessions 0).keepAliveTime * 10 ^ 9 ≤ ω.server.clock := by
  obtain ⟨ω, hω, hview⟩ := Option.map_eq_some_iff.mp (show
    (ran [.readDone 0 0 .success [7], .run 1 [] 0 (.new 0), .run 1 [] 0 (.new 0), .tick (10 ^ 9),
      .keepAlive 1 1]).map view = some ⟨10 ^ 9, some 0, false, 1, some true⟩ by decide +kernel)
  have hrun : Transition.Run (step (messageFilter .little .zeros))
      (Refreshes (messageFilter .little .zeros)) (start 2 1 (.new 0)) ω :=
    Transition.run_of_exec hω (by decide +kernel)
  obtain ⟨rest, htasks⟩ := exists_head (congrArg View.head hview)
  have hopen : (ω.server.sessions 0).closed = false := congrArg View.closed hview
  have hmessage : ω.lastMessage 0 = some 0 := congrArg View.lastMessage hview
  exact ⟨ω, rest, hω, ⟨htasks, hopen, hmessage⟩,
    keep_alive_spares_active hrun 1 0 rest htasks hopen 0 hmessage⟩

/-- The read that completes the message was queued when the check posted the `close`. -/
theorem active_session_closed :
    ∃ ω rest, Transition.Reach (step (messageFilter .little .zeros)) (start 2 1 (.new 0)) ω ∧
      ω.server.tasks 1 = .on 0 .close :: rest ∧ (ω.server.sessions 0).closed = false ∧
      ∃ time, ω.lastMessage 0 = some time ∧
        ¬ time + (ω.server.sessions 0).keepAliveTime * 10 ^ 9 ≤ ω.server.clock := by
  obtain ⟨ω, hω, hview⟩ := Option.map_eq_some_iff.mp (show
    (ran [.tick (10 ^ 9), .readDone 0 0 .success [7], .keepAlive 1 1, .run 1 [] 0 (.new 0)]).map
      view = some ⟨10 ^ 9, some (10 ^ 9), false, 1, some true⟩ by decide +kernel)
  obtain ⟨rest, htasks⟩ := exists_head (congrArg View.head hview)
  have hclock : ω.server.clock = 10 ^ 9 := congrArg View.clock hview
  have htime : (ω.server.sessions 0).keepAliveTime = 1 := congrArg View.keepAliveTime hview
  refine ⟨ω, rest, Transition.reach_of_exec hω, htasks, congrArg View.closed hview, 10 ^ 9,
    congrArg View.lastMessage hview, ?_⟩
  rw [hclock, htime]
  decide

end Watched
end EddyServer
