import EddyServer.System.Closing
import EddyServer.System.Openings

/-!
# Reads of the sessions

Whatever ids are drawn, no session has more than one `handle_read` on its way, and a session that
has received messages has its flush queued in front of the next one. A flush on a worker empties
`messages_received_`; one on the main thread does so if the session's handler is registered. A
`handle_read` of such a session finds the list empty.
-/

namespace EddyServer

theorem Job.readBy_flushTask {Φ : Type} (c d : Conn) (t : ThreadIx) :
    (Job.on d (TCPSession.flushTask t) : Job Φ).readBy c = false := by
  rw [Job.readBy, TCPSession.isRead_flushTask, Bool.and_false]

namespace System

variable {Φ : Type} {F : MessageFilterInterface Φ}

/-! ## One read at a time -/

/-- Session `c` has not run `init`. -/
def Unopened (σ : System Φ) (c : Conn) : Prop :=
  σ.accepted ≤ c ∨ ∃ t k, .on c (.init k) ∈ σ.tasks t

structure OneRead (σ : System Φ) : Prop where
  home : ∀ t c task, .on c task ∈ σ.tasks t → task.isRead = true → t = (σ.sessions c).ioThread
  le_one : ∀ c, σ.readsOf c ≤ 1
  unopened : ∀ c, Unopened σ c → σ.readsOf c = 0

theorem OneRead.start (threads keepAliveTime : Nat) (filter : Φ) :
    OneRead (start threads keepAliveTime filter) where
  home _ _ _ h := by simp at h
  le_one _ := Nat.zero_le _
  unopened _ _ := rfl

/-- No connection has been accepted, and the jobs that have been posted are no `init`, and no reads
but on the session's own thread. -/
structure Grows (σ σ' : System Φ) : Prop where
  accepted : σ'.accepted = σ.accepted
  ioThread : ∀ c, (σ'.sessions c).ioThread = (σ.sessions c).ioThread
  jobs : ∀ t c task, .on c task ∈ σ'.tasks t → .on c task ∈ σ.tasks t ∨
    (task.isRead = true → t = (σ.sessions c).ioThread) ∧ ∀ k, task ≠ .init k

theorem Grows.unopened {σ σ' : System Φ} (h : Grows σ σ') {c : Conn} (hc : Unopened σ' c) :
    Unopened σ c := by
  rcases hc with hle | ⟨t, k, hmem⟩
  · exact .inl (h.accepted ▸ hle)
  · exact .inr ⟨t, k, (h.jobs t c _ hmem).resolve_right fun hnew => hnew.2 k rfl⟩

theorem Grows.trans {σ τ υ : System Φ} (h : Grows σ τ) (h' : Grows τ υ) : Grows σ υ where
  accepted := h'.accepted.trans h.accepted
  ioThread c := (h'.ioThread c).trans (h.ioThread c)
  jobs t c task hmem := by
    rcases h'.jobs t c task hmem with hold | hnew
    · exact h.jobs t c task hold
    · rw [h.ioThread] at hnew
      exact .inr hnew

theorem Grows.popped {σ : System Φ} {t : ThreadIx} {job : Job Φ} {rest : List (Job Φ)}
    (ht : σ.tasks t = job :: rest) : Grows σ (σ.popped t rest) :=
  ⟨rfl, fun _ => rfl, fun _ _ _ hmem => .inl (mem_popped ht hmem)⟩

theorem grows_of_same {σ σ' : System Φ} (haccepted : σ'.accepted = σ.accepted)
    (hio : ∀ c, (σ'.sessions c).ioThread = (σ.sessions c).ioThread) (htasks : σ'.tasks = σ.tasks) :
    Grows σ σ' :=
  ⟨haccepted, hio, fun _ _ _ hmem => .inl (htasks ▸ hmem)⟩

theorem Calls.grows {cbs : List (Conn × Callback)} {σ σ' : System Φ} (h : Calls cbs σ σ') :
    Grows σ σ' := by
  refine ⟨h.keeps.accepted, h.keeps.ioThread, fun t c task hmem => ?_⟩
  obtain ⟨more, heq, hmore⟩ := h.tasks t
  rw [heq] at hmem
  refine (List.mem_append.mp hmem).imp_right fun hnew => ?_
  obtain ⟨d, task', hjob, ⟨-, -, rfl | rfl⟩ | ⟨-, ⟨messages, rfl⟩ | rfl⟩⟩ := hmore _ hnew <;>
    cases hjob <;> simp [Task.isRead]

theorem grows_onSession {σ : System Φ} {c : Conn} {s : TCPSession Φ} {found : Option Conn}
    {task : Task} {r : TCPSession Φ × List Effect} (h : TCPSession.Move s found task r)
    (hio : r.1.ioThread = (σ.sessions c).ioThread) : Grows σ (σ.onSession c r) := by
  rw [onSession_eq]
  refine ⟨rfl, update_field (·.ioThread) hio, fun t d task' hmem => ?_⟩
  refine (List.mem_append.mp hmem).imp_right fun hnew => ?_
  obtain ⟨task'', hpost, heq⟩ := List.mem_map.mp hnew
  cases heq
  have hfrom := Link.move_posts h hpost
  refine ⟨fun hread => ?_, fun k hinit => ?_⟩
  · rw [(isRead_of_fromSession hfrom).1] at hread
    cases hread
  · rw [hinit] at hfrom
    cases hfrom

theorem OneRead.grows {σ σ' : System Φ} (h : OneRead σ) (hg : Grows σ σ')
    (hreads : ∀ c, σ'.readsOf c ≤ σ.readsOf c) : OneRead σ' where
  home t c task hmem hread := by
    rw [hg.ioThread]
    rcases hg.jobs t c task hmem with hold | hnew
    · exact h.home t c task hold hread
    · exact hnew.1 hread
  le_one c := (hreads c).trans (h.le_one c)
  unopened c hc := Nat.eq_zero_of_le_zero ((hreads c).trans (h.unopened c (hg.unopened hc)).le)

/-- Reads are neither started nor completed. -/
theorem readsOf_le {σ σ' : System Φ} {c : Conn}
    (hio : (σ'.sessions c).ioThread = (σ.sessions c).ioThread)
    (hout : (σ'.sessions c).outstandingReads = (σ.sessions c).outstandingReads)
    (hcount : ∀ t, (σ'.tasks t).countP (Job.readBy c) ≤ (σ.tasks t).countP (Job.readBy c)) :
    σ'.readsOf c ≤ σ.readsOf c := by
  unfold readsOf
  rw [hio, hout]
  exact Nat.add_le_add_left (hcount _) _

theorem Calls.readsOf_le {cbs : List (Conn × Callback)} {σ σ' : System Φ} (h : Calls cbs σ σ')
    (c : Conn) : σ'.readsOf c ≤ σ.readsOf c := by
  have hsessions : σ'.sessions = σ.sessions := by
    obtain ⟨_, _, rfl⟩ := h.same
    rfl
  refine System.readsOf_le (by rw [hsessions]) (by rw [hsessions]) fun t => ?_
  obtain ⟨more, heq, hmore⟩ := h.tasks t
  rw [heq]
  refine (countP_append_of_false fun job hjob => ?_).le
  obtain ⟨d, task, rfl, ⟨-, -, rfl | rfl⟩ | ⟨-, ⟨messages, rfl⟩ | rfl⟩⟩ := hmore _ hjob <;>
    exact Bool.and_false _

theorem readsOf_popped_le {σ : System Φ} {t : ThreadIx} {job : Job Φ} {rest : List (Job Φ)}
    (ht : σ.tasks t = job :: rest) (c : Conn) : (σ.popped t rest).readsOf c ≤ σ.readsOf c :=
  readsOf_le rfl rfl fun u => countP_popped_le ht u _

theorem OneRead.popped {σ : System Φ} (h : OneRead σ) {t : ThreadIx} {job : Job Φ}
    {rest : List (Job Φ)} (ht : σ.tasks t = job :: rest) : OneRead (σ.popped t rest) :=
  h.grows (.popped ht) (readsOf_popped_le ht)

theorem OneRead.calls {cbs : List (Conn × Callback)} {σ σ' : System Φ} (h : OneRead σ)
    (hcalls : Calls cbs σ σ') : OneRead σ' :=
  h.grows hcalls.grows hcalls.readsOf_le

/-- Sessions have kept their reads, and nothing has been posted. -/
theorem OneRead.same {σ σ' : System Φ} (h : OneRead σ) (haccepted : σ'.accepted = σ.accepted)
    (hio : ∀ c, (σ'.sessions c).ioThread = (σ.sessions c).ioThread)
    (hout : ∀ c, (σ'.sessions c).outstandingReads = (σ.sessions c).outstandingReads)
    (htasks : σ'.tasks = σ.tasks) : OneRead σ' :=
  h.grows (grows_of_same haccepted hio htasks) fun c =>
    readsOf_le (hio c) (hout c) fun t => by rw [htasks]

/-- `init` starts the first read of its session. -/
theorem OneRead.opens {σ : System Φ} (h : OneRead σ) (hopenings : Openings σ) {t : ThreadIx}
    {c : Conn} {k : TCPSessionID} {rest : List (Job Φ)} {r : TCPSession Φ × List Effect}
    (ht : σ.tasks t = .on c (.init k) :: rest) (hr : TCPSession.Opens (σ.sessions c) k r) :
    OneRead ((σ.popped t rest).onSession c r) := by
  have hmem : (.on c (.init k) : Job Φ) ∈ σ.tasks t := by rw [ht]; exact List.mem_cons_self
  have hnone := h.unopened c (.inr ⟨t, k, hmem⟩)
  have hp := h.popped ht
  have hlast := hopenings.last ht
  have hlt := hopenings.job t c _ hmem rfl
  have hzero := readsOf_popped_le ht c
  rw [onSession_of_adds hr.effects]
  have hio := update_field (S := σ.sessions) (·.ioThread) hr.ioThread
  have hother : ∀ d, d ≠ c → Function.update σ.sessions c r.1 d = σ.sessions d :=
    fun d hd => Function.update_of_ne hd _ _
  refine ⟨fun u d task hjob hread => ?_, fun d => ?_, fun d hd => ?_⟩
  · exact (hp.home u d task hjob hread).trans (hio d).symm
  · have hle := hp.le_one d
    unfold readsOf at hle hzero hnone ⊢
    change (Function.update σ.sessions c r.1 d).outstandingReads +
      ((σ.popped t rest).tasks (Function.update σ.sessions c r.1 d).ioThread).countP _ ≤ 1
    rw [hio]
    rcases eq_or_ne d c with rfl | hdc
    · rw [Function.update_self]
      have hreads := hr.reads_le
      change (σ.sessions d).outstandingReads +
        ((σ.popped t rest).tasks (σ.sessions d).ioThread).countP _ ≤ _ at hzero
      omega
    · rw [hother d hdc]
      exact hle
  · have hdc : d ≠ c := by
      rintro rfl
      rcases hd with hle | ⟨u, k', hjob⟩
      · exact absurd hle (Nat.not_le.mpr hlt)
      · exact hlast u k' hjob
    unfold readsOf
    change (Function.update σ.sessions c r.1 d).outstandingReads +
      ((σ.popped t rest).tasks (Function.update σ.sessions c r.1 d).ioThread).countP _ = 0
    rw [hother d hdc]
    exact hp.unopened d hd

/-- A new connection has started nothing. -/
theorem OneRead.register {σ : System Φ} (h : OneRead σ) {s : TCPSession Φ} (hs : s.Pristine)
    (k : TCPSessionID) (generator : IDGenerator 32) : OneRead (σ.register s k generator) := by
  obtain ⟨filter, keepAliveTime, hnew⟩ := hs
  -- no read is queued for a number that has not been given out
  have hnone : ∀ t task, .on σ.accepted task ∈ σ.tasks t → task.isRead = false := by
    intro t task hmem
    by_contra hread
    rw [Bool.not_eq_false] at hread
    have hzero := h.unopened σ.accepted (.inl (Nat.le_refl _))
    have hpos : 0 < (σ.tasks (σ.sessions σ.accepted).ioThread).countP (Job.readBy σ.accepted) :=
      List.countP_pos_iff.mpr ⟨_, h.home t _ task hmem hread ▸ hmem, by simp [Job.readBy, hread]⟩
    unfold readsOf at hzero
    omega
  have hreads : ∀ c, (σ.register s k generator).readsOf c =
      if c = σ.accepted then 0 else σ.readsOf c := by
    intro c
    unfold readsOf
    rw [countP_tasks_register (Bool.and_false _)]
    split_ifs with hc
    · subst hc
      rw [session_register, hnew]
      refine Nat.add_eq_zero_iff.mpr ⟨rfl, List.countP_eq_zero.mpr fun job hjob htrue => ?_⟩
      rcases job with ⟨c, task⟩ | _
      · obtain ⟨hc, hread⟩ := Bool.and_eq_true_iff.mp htrue
        obtain rfl : c = σ.accepted := beq_iff_eq.mp hc
        rw [hnone _ task hjob] at hread
        cases hread
      · cases htrue
    · rw [session_register_of_ne hc]
  refine ⟨fun t c task hjob hread => ?_, fun c => ?_, fun c hc => ?_⟩
  · rcases mem_tasks_register hjob with hold | ⟨-, hinit⟩
    · rcases eq_or_ne c σ.accepted with rfl | hc
      · rw [hnone t task hold] at hread
        cases hread
      · rw [session_register_of_ne hc]
        exact h.home t c task hold hread
    · cases hinit
      cases hread
  · rw [hreads]
    split_ifs
    · exact Nat.zero_le _
    · exact h.le_one c
  · rw [hreads]
    split_ifs with hacc
    · rfl
    · refine h.unopened c ?_
      rcases hc with hle | ⟨t, k', hjob⟩
      · exact .inl (Nat.le_of_succ_le hle)
      · rcases mem_tasks_register hjob with hold | ⟨-, hinit⟩
        · exact .inr ⟨t, k', hold⟩
        · cases hinit
          exact absurd rfl hacc

theorem grows_complete {σ : System Φ} {t : ThreadIx} {c : Conn} {task : Task} {s : TCPSession Φ}
    (hs : TCPSession.Completes (σ.sessions c) task s)
    (ht : task.isRead = true → t = (σ.sessions c).ioThread) :
    Grows σ (({ σ with sessions := Function.update σ.sessions c s } : System Φ).post t
      (.on c task)) := by
  obtain ⟨socket, timer, hsame⟩ := hs.same
  rw [post_eq]
  refine ⟨rfl, update_field (·.ioThread) (by rw [hsame]), fun u d task' hmem => ?_⟩
  refine (List.mem_append.mp hmem).imp_right fun hnew => ?_
  split_ifs at hnew with htu
  · cases List.mem_singleton.mp hnew
    refine ⟨fun hread => htu ▸ ht hread, fun k hinit => ?_⟩
    have hcompletion := hs.isCompletion
    rw [hinit] at hcompletion
    cases hcompletion
  · cases hnew

/-- A read that completes leaves the socket and enters the queue. -/
theorem OneRead.complete {σ : System Φ} (h : OneRead σ) {t : ThreadIx} {c : Conn} {task : Task}
    {s : TCPSession Φ} (hs : TCPSession.Completes (σ.sessions c) task s)
    (ht : task.isRead = true → t = (σ.sessions c).ioThread) :
    OneRead (({ σ with sessions := Function.update σ.sessions c s } : System Φ).post t
      (.on c task)) := by
  have hg := grows_complete hs ht
  refine h.grows hg fun d => ?_
  have hcount := countP_completed (σ := σ) (p := Job.readBy) TCPSession.outstandingReads
    (fun _ => rfl) ht hs.reads d
  unfold readsOf
  rw [hg.ioThread, post_eq]
  exact hcount.le

theorem grows_accept (σ : System Φ) (t : ThreadIx) (filter : Φ) (error : ErrorCode) :
    Grows σ (({ σ with accepting := none } : System Φ).post mainThread
      (.handleAccept t filter error)) := by
  rw [post_eq]
  refine ⟨rfl, fun _ => rfl, fun u c task hmem => ?_⟩
  refine .inl ((List.mem_append.mp hmem).resolve_right fun hnew => ?_)
  split_ifs at hnew <;> simp at hnew

/-- Completions and checks come on the session's own thread; a check is no read. -/
theorem ioThread_of_isRead {σ : System Φ} {t : ThreadIx} {c : Conn} {task : Task}
    (hout : t = (σ.sessions c).ioThread ∧ Outstanding (σ.sessions c) ∨
      task = .close ∧ ∃ id, σ.getSession t id = some c) (hread : task.isRead = true) :
    t = (σ.sessions c).ioThread := by
  rcases hout with ⟨ht, -⟩ | ⟨rfl, -⟩
  · exact ht
  · cases hread

theorem OneRead.step {σ σ' : System Φ} {a : Act Φ} (h : OneRead σ) (hopenings : Openings σ)
    (hev : Event F σ a σ') : OneRead σ' := by
  cases hev with
  | move t c d task rest r ht _ hd hmove =>
      have hhome : task.isRead = true → t = (σ.sessions c).ioThread :=
        h.home t c task (by rw [ht]; exact List.mem_cons_self)
      exact h.grows ((Grows.popped ht).trans (grows_onSession hmove hmove.ioThread))
        (readsOf_move_le ht hd hmove hhome)
  | opens t c k rest r ht _ hr => exact h.opens hopenings ht hr
  | posts t c d task rest messages s buffer ht _ hposts =>
      exact (h.popped ht).same rfl (update_field (·.ioThread) hposts.ioThread)
        (update_field (·.outstandingReads) hposts.outstandingReads) rfl
  | plain t c task rest ht _ _ hcalls => exact (h.popped ht).calls hcalls
  | deliver t c d id messages rest ht _ hcalls => exact (h.popped ht).calls hcalls
  | @deliverDirectly τ t c d rest ht _ hcalls =>
      have hemptied : ({ τ.sessions c with messagesReceived := [] } : TCPSession Φ).outstandingReads =
          (τ.sessions c).outstandingReads := rfl
      exact ((h.popped ht).calls hcalls).same rfl (update_field (·.ioThread) rfl)
        (update_field (·.outstandingReads) hemptied) rfl
  | closed t c d k rest threadLoad ht _ hcalls =>
      exact ((h.popped ht).calls hcalls).same rfl (fun _ => rfl) (fun _ => rfl) rfl
  | unknown t c k rest generator ht =>
      exact (h.popped ht).same rfl (fun _ => rfl) (fun _ => rfl) rfl
  | connect t u filter first k rest generator threadLoad accepting ht _ _ _ hcalls =>
      have hregistered := (h.popped ht).register
        (s := .new u filter σ.keepAliveTime) ⟨filter, σ.keepAliveTime, rfl⟩ k generator
      exact (hregistered.calls hcalls).same rfl (fun _ => rfl) (fun _ => rfl) rfl
  | complete t c task s hs hout => exact h.complete hs (ioThread_of_isRead hout)
  | accept t filter error =>
      refine h.grows (grows_accept σ t filter error) fun c => ?_
      rw [post_eq]
      refine readsOf_le rfl rfl fun u => (countP_append_of_false fun job hjob => ?_).le
      split_ifs at hjob
      · rw [List.mem_singleton.mp hjob]
        rfl
      · cases hjob
  | refuse t u filter error rest ht => exact h.popped ht
  | logic hcalls => exact h.calls hcalls
  | tick clock => exact h.same rfl (fun _ => rfl) (fun _ => rfl) rfl

/-! ## The flush comes before the next read -/

/-- The job that passes on what session `c` has received. -/
def flush (σ : System Φ) (c : Conn) : Job Φ :=
  .on c (TCPSession.flushTask (σ.sessions c).ioThread)

/-- The flush of session `c` is queued on its thread, in front of every `handle_read`. -/
def FlushFirst (σ : System Φ) (c : Conn) : Prop :=
  ∃ before after, σ.tasks (σ.sessions c).ioThread = before ++ σ.flush c :: after ∧
    ∀ job ∈ before, job.readBy c = false

/-- The flush of session `c` passes its messages on: it does not look for a handler, or it finds the
session's. -/
def Heard (σ : System Φ) (c : Conn) : Prop :=
  (σ.sessions c).ioThread = mainThread →
    σ.getSessionHandler (σ.sessions c).sessionId = some c

instance (σ : System Φ) (c : Conn) : Decidable (Heard σ c) :=
  inferInstanceAs (Decidable (_ → _))

/-- The received messages of session `c` are flushed before the next read is handled. -/
structure Flushes (σ : System Φ) (c : Conn) : Prop where
  unopened : Unopened σ c → (σ.sessions c).messagesReceived = []
  first : (σ.sessions c).closed = false → Heard σ c → (σ.sessions c).messagesReceived ≠ [] →
    FlushFirst σ c

theorem Flushes.nil {σ : System Φ} {c : Conn} (h : (σ.sessions c).messagesReceived = []) :
    Flushes σ c :=
  ⟨fun _ => h, fun _ _ hne => absurd h hne⟩

theorem Flushes.start (threads keepAliveTime : Nat) (filter : Φ) (c : Conn) :
    Flushes (start threads keepAliveTime filter) c := .nil rfl

/-- A `handle_read` finds nothing that has not been flushed. -/
theorem Flushes.nil_of_read {σ : System Φ} {c : Conn} (h : Flushes σ c) {job : Job Φ}
    {rest : List (Job Φ)} (ht : σ.tasks (σ.sessions c).ioThread = job :: rest)
    (hread : job.readBy c = true) (hopen : (σ.sessions c).closed = false) (hheard : Heard σ c) :
    (σ.sessions c).messagesReceived = [] := by
  by_contra hne
  obtain ⟨before, after, hqueue, hbefore⟩ := h.first hopen hheard hne
  rw [ht] at hqueue
  cases before with
  | nil =>
      obtain ⟨rfl, -⟩ := List.cons.inj hqueue
      rw [flush, Job.readBy_flushTask] at hread
      cases hread
  | cons job' before =>
      obtain ⟨rfl, -⟩ := List.cons.inj hqueue
      rw [hbefore job List.mem_cons_self] at hread
      cases hread

theorem FlushFirst.append {σ σ' : System Φ} {c : Conn} (h : FlushFirst σ c)
    (hio : (σ'.sessions c).ioThread = (σ.sessions c).ioThread)
    (htasks : ∃ more, σ'.tasks (σ.sessions c).ioThread =
      σ.tasks (σ.sessions c).ioThread ++ more) : FlushFirst σ' c := by
  obtain ⟨before, after, hqueue, hbefore⟩ := h
  obtain ⟨more, hmore⟩ := htasks
  refine ⟨before, after ++ more, ?_, hbefore⟩
  rw [hio, hmore, hqueue, flush, flush, hio, List.append_assoc, List.cons_append]

/-- Taking a job that is not the flush leaves the flush where it is. -/
theorem FlushFirst.popped {σ : System Φ} {c : Conn} (h : FlushFirst σ c) {t : ThreadIx}
    {job : Job Φ} {rest : List (Job Φ)} (ht : σ.tasks t = job :: rest) (hne : job ≠ σ.flush c) :
    FlushFirst (σ.popped t rest) c := by
  obtain ⟨before, after, hqueue, hbefore⟩ := h
  by_cases hio : (σ.sessions c).ioThread = t
  · rw [hio, ht] at hqueue
    cases before with
    | nil => exact absurd (List.cons.inj hqueue).1 hne
    | cons job' before =>
        obtain ⟨-, hrest⟩ := List.cons.inj hqueue
        refine ⟨before, after, ?_, fun x hx => hbefore x (List.mem_cons_of_mem _ hx)⟩
        change Function.update σ.tasks t rest (σ.sessions c).ioThread = _
        rw [hio, Function.update_self, hrest]
        rfl
  · refine ⟨before, after, ?_, hbefore⟩
    change Function.update σ.tasks t rest (σ.sessions c).ioThread = _
    rw [Function.update_of_ne hio, hqueue]
    rfl

theorem Flushes.popped {σ : System Φ} {c : Conn} (h : Flushes σ c) {t : ThreadIx} {job : Job Φ}
    {rest : List (Job Φ)} (ht : σ.tasks t = job :: rest) (hne : job ≠ σ.flush c) :
    Flushes (σ.popped t rest) c :=
  ⟨fun hc => h.unopened ((Grows.popped ht).unopened hc), fun hopen hheard hreceived =>
    (h.first hopen hheard hreceived).popped ht hne⟩

/-- Jobs have been posted, and session `c` still has what it has received. -/
theorem Flushes.grows {σ σ' : System Φ} {c : Conn} (h : Flushes σ c) (hg : Grows σ σ')
    (hreceived : (σ'.sessions c).messagesReceived = (σ.sessions c).messagesReceived)
    (hclosed : (σ'.sessions c).closed = false → (σ.sessions c).closed = false)
    (hheard : Heard σ' c → Heard σ c)
    (htasks : ∀ t, ∃ more, σ'.tasks t = σ.tasks t ++ more) : Flushes σ' c := by
  refine ⟨fun hc => ?_, fun hopen hh hne => ?_⟩
  · rw [hreceived]
    exact h.unopened (hg.unopened hc)
  · rw [hreceived] at hne
    exact (h.first (hclosed hopen) (hheard hh) hne).append (hg.ioThread c) (htasks _)

/-- Session `c` is as it was. -/
theorem Flushes.same {σ σ' : System Φ} {c : Conn} (h : Flushes σ c) (hg : Grows σ σ')
    (hsession : σ'.sessions c = σ.sessions c)
    (hmap : ∀ k, σ'.getSessionHandler k = some c → σ.getSessionHandler k = some c)
    (htasks : ∀ t, ∃ more, σ'.tasks t = σ.tasks t ++ more) : Flushes σ' c := by
  refine h.grows hg (by rw [hsession]) (by rw [hsession]; exact fun hopen => hopen) ?_ htasks
  unfold Heard
  rw [hsession]
  exact fun hheard hmain => hmap _ (hheard hmain)

/-- Session `e` has been given another filter, other operations or another output. -/
theorem Flushes.replace {σ τ : System Φ} {c e : Conn} {s : TCPSession Φ} (h : Flushes σ c)
    (hg : Grows σ τ) (hsessions : τ.sessions = Function.update σ.sessions e s)
    (hmap : τ.sessionHandlerMap = σ.sessionHandlerMap)
    (hio : s.ioThread = (σ.sessions e).ioThread) (hid : s.sessionId = (σ.sessions e).sessionId)
    (hreceived : s.messagesReceived = (σ.sessions e).messagesReceived)
    (hclosed : s.closed = (σ.sessions e).closed)
    (htasks : ∀ t, ∃ more, τ.tasks t = σ.tasks t ++ more) : Flushes τ c := by
  have hfield : ∀ {α : Type} (f : TCPSession Φ → α), f s = f (σ.sessions e) →
      f (τ.sessions c) = f (σ.sessions c) := fun f hf => by
    rw [hsessions]
    exact update_field f hf c
  refine h.grows hg (hfield (·.messagesReceived) hreceived)
    (fun hopen => (hfield (·.closed) hclosed).symm.trans hopen) (fun hheard => ?_) htasks
  unfold Heard getSessionHandler at hheard
  rwa [hmap, hfield (·.ioThread) hio, hfield (·.sessionId) hid] at hheard

theorem Flushes.calls {cbs : List (Conn × Callback)} {σ σ' : System Φ} {c : Conn}
    (h : Flushes σ c) (hcalls : Calls cbs σ σ') : Flushes σ' c := by
  refine h.same hcalls.grows ?_ (fun k hk => ?_) fun t => (hcalls.tasks t).imp fun _ hmore => hmore.1
  · obtain ⟨_, _, rfl⟩ := hcalls.same
    rfl
  · rwa [getSessionHandler, hcalls.keeps.sessionHandlerMap] at hk

/-- A new session has received nothing. -/
theorem Flushes.register {σ : System Φ} {c : Conn} (h : Flushes σ c) {s : TCPSession Φ}
    (hs : s.Pristine) (k : TCPSessionID) (generator : IDGenerator 32) :
    Flushes (σ.register s k generator) c := by
  obtain ⟨filter, keepAliveTime, hnew⟩ := hs
  rcases eq_or_ne c σ.accepted with rfl | hc
  · refine .nil ?_
    rw [session_register, hnew]
    rfl
  · have hsession : (σ.register s k generator).sessions c = σ.sessions c :=
      session_register_of_ne hc
    refine ⟨fun hun => ?_, fun hopen hh hne => ?_⟩
    · rw [hsession]
      refine h.unopened ?_
      rcases hun with hle | ⟨t, k', hmem⟩
      · exact .inl (Nat.le_of_succ_le hle)
      · refine .inr ⟨t, k', (mem_tasks_register hmem).resolve_right ?_⟩
        rintro ⟨-, hinit⟩
        cases hinit
        exact hc rfl
    · rw [hsession] at hopen hne
      refine (h.first hopen (fun hmain => ?_) hne).append (by rw [hsession]) ⟨_, tasks_register _⟩
      have hfind := hh (by rw [hsession]; exact hmain)
      rw [hsession] at hfind
      exact (Table.find_of_find_add hfind).resolve_right fun hnew => hc hnew.2

theorem ne_flush {σ : System Φ} {c d : Conn} {task : Task} (h : task.isFlush = false) :
    .on d task ≠ σ.flush c := by
  intro heq
  cases heq
  exact TCPSession.ne_flushTask h _ rfl

theorem ne_flush_of_ne {σ : System Φ} {c d : Conn} {task : Task} (h : d ≠ c) :
    .on d task ≠ σ.flush c := by
  intro heq
  cases heq
  exact h rfl

/-- Of the tasks of a session only `PackMessageList` is a flush. -/
theorem isFlush_of_ofSession {task : Task} (hsession : task.ofSession = true)
    (hpack : task ≠ .sessionPackMessageList) : task.isFlush = false := by
  cases task <;> first | rfl | exact absurd rfl hpack | cases hsession

/-- A function of session `c` has run. -/
theorem Flushes.move {σ : System Φ} {t : ThreadIx} {c d : Conn} {task : Task}
    {rest : List (Job Φ)} {r : TCPSession Φ × List Effect} (h : Flushes σ c) (hone : OneRead σ)
    (ht : σ.tasks t = .on d task :: rest) (hsession : task.ofSession = true)
    (hd : c = d ∨ σ.target t d task = some c)
    (hmove : TCPSession.Move (σ.sessions c) (σ.found c) task r) :
    Flushes ((σ.popped t rest).onSession c r) c := by
  have hg : Grows (σ.popped t rest) ((σ.popped t rest).onSession c r) :=
    grows_onSession hmove hmove.ioThread
  have hself : ((σ.popped t rest).onSession c r).sessions c = r.1 := by
    rw [onSession_eq]
    exact Function.update_self ..
  have htasks : ∀ u, ((σ.popped t rest).onSession c r).tasks u =
      (σ.popped t rest).tasks u ++ jobsTo c u r.2 := fun u => by rw [onSession_eq]
  have hheard : Heard ((σ.popped t rest).onSession c r) c → Heard σ c := by
    unfold Heard
    rw [hself, hmove.ioThread, hmove.sessionId, onSession_eq]
    exact fun hh => hh
  have hclosed : r.1.closed = false → (σ.sessions c).closed = false := by
    intro hopen
    by_contra hc
    rw [Bool.not_eq_false] at hc
    exact absurd ((hmove.stays hc).symm.trans hopen) (by decide)
  -- another function than the flush: the messages are as they were
  have hquiet : r.1.messagesReceived = (σ.sessions c).messagesReceived →
      task ≠ .sessionPackMessageList → Flushes ((σ.popped t rest).onSession c r) c :=
    fun hsame hpack => (h.popped ht (ne_flush (isFlush_of_ofSession hsession hpack))).grows hg
      (by rw [hself]; exact hsame) (by rw [hself]; exact hclosed) hheard fun u => ⟨_, htasks u⟩
  have hread : task.isRead = true → c = d ∧ t = (σ.sessions c).ioThread := by
    intro hread
    have hcd := eq_of_isRead_or_isWrite hd (.inl hread)
    exact ⟨hcd, hcd ▸ hone.home t d task (by rw [ht]; exact List.mem_cons_self) hread⟩
  -- a session that handles a read has run `init`
  have hopened : task.isRead = true → ¬ Unopened ((σ.popped t rest).onSession c r) c := by
    intro hr hc
    obtain ⟨rfl, rfl⟩ := hread hr
    have hzero := hone.unopened c ((Grows.popped ht).unopened (hg.unopened hc))
    unfold readsOf at hzero
    rw [ht, List.countP_cons_of_pos (by simp [Job.readBy, hr])] at hzero
    omega
  cases hmove.outcome with
  | quiet hq hpack =>
      by_cases htask : task = .sessionPackMessageList
      · refine .nil ?_
        rw [hself, hq.messagesReceived, hpack htask]
      · exact hquiet hq.messagesReceived htask
  | timer hq hne => exact hquiet hq.messagesReceived hne
  | deregister entry _ hend hreceived =>
      refine ⟨fun hc => ?_, fun hopen => ?_⟩
      · rw [hself, hreceived]
        exact h.unopened ((Grows.popped ht).unopened (hg.unopened hc))
      · rw [hself, hend] at hopen
        cases hopen
  | receive new hr hreceives hnil =>
      refine ⟨fun hc => absurd hc (hopened hr), fun _ hh hne => ?_⟩
      obtain ⟨rfl, rfl⟩ := hread hr
      have hempty := h.nil_of_read ht (by simp [Job.readBy, hr]) hreceives.wasOpen (hheard hh)
      rw [hself, hreceives.messagesReceived, hempty, hnil hempty] at hne
      exact absurd rfl hne
  | first new hr hreceives hnil hnew heffects =>
      -- the read that has been taken was the only one, so the flush is in front of the next
      refine ⟨fun hc => absurd hc (hopened hr), fun _ _ _ => ⟨rest, [], ?_, ?_⟩⟩
      · obtain ⟨rfl, rfl⟩ := hread hr
        rw [flush, hself, hmove.ioThread, htasks, heffects]
        simp [System.popped, jobsTo, Link.postsTo]
      · obtain ⟨rfl, rfl⟩ := hread hr
        have hle := hone.le_one c
        unfold readsOf at hle
        rw [ht, List.countP_cons_of_pos (by simp [Job.readBy, hr])] at hle
        have hzero : rest.countP (Job.readBy c) = 0 := by omega
        intro job hjob
        simpa using List.countP_eq_zero.mp hzero job hjob
  | deliver _ _ hnil => exact .nil (by rw [hself, hnil])

/-- A function of another session has run. -/
theorem Flushes.moveOther {σ : System Φ} {t : ThreadIx} {c d e : Conn} {task : Task}
    {rest : List (Job Φ)} {r : TCPSession Φ × List Effect} (h : Flushes σ c)
    (ht : σ.tasks t = .on d task :: rest) (hsession : task.ofSession = true)
    (he : e = d ∨ σ.target t d task = some e) (hec : e ≠ c)
    (hmove : TCPSession.Move (σ.sessions e) (σ.found e) task r) :
    Flushes ((σ.popped t rest).onSession e r) c := by
  have hne : .on d task ≠ σ.flush c := by
    rcases he with rfl | htarget
    · exact ne_flush_of_ne hec
    · refine ne_flush (isFlush_of_ofSession hsession ?_)
      rintro rfl
      cases htarget
  refine (h.popped ht hne).same (grows_onSession hmove hmove.ioThread) ?_ (fun k hk => ?_) fun u => ?_
  · rw [onSession_eq]
    exact Function.update_of_ne hec.symm _ _
  · rw [onSession_eq] at hk
    exact hk
  · rw [onSession_eq]
    exact ⟨_, rfl⟩

/-- A task that does not change the session has run. If it was the flush, it has found no handler,
so that the session has lost its own. -/
theorem Flushes.plain {σ σ' : System Φ} {t : ThreadIx} {c d : Conn} {task : Task}
    {rest : List (Job Φ)} (h : Flushes σ c) (ht : σ.tasks t = .on d task :: rest)
    (hcalls : Calls [] (σ.popped t rest) σ')
    (hflush : .on d task = σ.flush c → (σ.sessions c).ioThread = mainThread ∧
      σ.getSessionHandler (σ.sessions c).sessionId = none) : Flushes σ' c := by
  by_cases heq : .on d task = σ.flush c
  · obtain ⟨hmain, hnone⟩ := hflush heq
    have hsession : σ'.sessions c = σ.sessions c := by
      obtain ⟨_, _, rfl⟩ := hcalls.same
      rfl
    refine ⟨fun hc => ?_, fun _ hh => ?_⟩
    · rw [hsession]
      exact h.unopened ((Grows.popped ht).unopened (hcalls.grows.unopened hc))
    · have hfind := hh (by rw [hsession]; exact hmain)
      rw [hsession, getSessionHandler, hcalls.keeps.sessionHandlerMap] at hfind
      cases hnone.symm.trans hfind
  · exact (h.popped ht heq).calls hcalls

theorem Flushes.step {σ σ' : System Φ} {a : Act Φ} {c : Conn} (h : Flushes σ c) (hone : OneRead σ)
    (hev : Event F σ a σ') : Flushes σ' c := by
  have hother : ∀ {S : Conn → TCPSession Φ} {d : Conn} {s : TCPSession Φ}, d ≠ c →
      Function.update S d s c = S c := fun hd => Function.update_of_ne (Ne.symm hd) _ _
  have hnothing : ∀ {tasks : ThreadIx → List (Job Φ)} (t : ThreadIx),
      ∃ more, tasks t = tasks t ++ more := fun t => ⟨[], (List.append_nil _).symm⟩
  -- a task that is no flush of the session
  have hpopped : ∀ {t d task rest}, σ.tasks t = .on d task :: rest →
      task.isFlush = false → Flushes (σ.popped t rest) c := fun ht hflush =>
    h.popped ht (ne_flush hflush)
  cases hev with
  | move t d e task rest r ht hsession he hmove =>
      rcases eq_or_ne e c with rfl | hec
      · exact h.move hone ht hsession he hmove
      · exact h.moveOther ht hsession he hec hmove
  | opens t d k rest r ht _ hr =>
      rw [onSession_of_adds hr.effects]
      rcases eq_or_ne d c with rfl | hdc
      · have hnil := h.unopened (.inr ⟨t, k, by rw [ht]; exact List.mem_cons_self⟩)
        refine .nil ?_
        dsimp only
        rw [Function.update_self, hr.messagesReceived, hnil]
      · exact (h.popped ht (ne_flush_of_ne hdc)).same
          (grows_of_same rfl (update_field (·.ioThread) hr.ioThread) rfl) (hother hdc)
          (fun _ hk => hk) hnothing
  | posts t d e task rest messages s buffer ht he hposts =>
      have hquiet : task.isFlush = false := by cases task <;> first | rfl | cases he
      exact (hpopped ht hquiet).replace
        (grows_of_same rfl (update_field (·.ioThread) hposts.ioThread) rfl) rfl rfl hposts.ioThread
        hposts.sessionId hposts.quiet.messagesReceived hposts.closed hnothing
  | plain t d task rest ht _ _ hcalls hflush =>
      refine h.plain ht hcalls fun heq => ?_
      cases heq
      exact hflush _ rfl
  | deliver t d e id messages rest ht _ hcalls => exact (hpopped ht rfl).calls hcalls
  | @deliverDirectly τ t d e rest ht _ hcalls =>
      rcases eq_or_ne d c with rfl | hdc
      · refine .nil ?_
        dsimp only
        rw [Function.update_self]
      · exact ((h.popped ht (ne_flush_of_ne hdc)).calls hcalls).same
          (grows_of_same rfl (update_field (·.ioThread) rfl) rfl) (hother hdc) (fun _ hk => hk) hnothing
  | closed t d e k rest threadLoad ht _ hcalls =>
      refine ((hpopped ht rfl).calls hcalls).same
        (grows_of_same rfl (fun _ => rfl) rfl) rfl (fun k' hk' => ?_) hnothing
      have hfind := Table.find_erase.symm.trans hk'
      split_ifs at hfind
      exact hfind
  | unknown t d k rest generator ht =>
      exact (hpopped ht rfl).same (grows_of_same rfl (fun _ => rfl) rfl) rfl
        (fun _ hk => hk) hnothing
  | connect t u filter first k rest generator threadLoad accepting ht _ _ _ hcalls =>
      have hregistered := (h.popped ht (by simp [flush])).register
        (s := .new u filter σ.keepAliveTime) ⟨filter, σ.keepAliveTime, rfl⟩ k generator
      exact (hregistered.calls hcalls).same (grows_of_same rfl (fun _ => rfl) rfl) rfl
        (fun _ hk => hk) hnothing
  | complete t d task s hs hout =>
      obtain ⟨socket, timer, hsame⟩ := hs.same
      have hg := grows_complete hs (ioThread_of_isRead hout)
      rw [post_eq] at hg ⊢
      exact h.replace hg rfl rfl (by rw [hsame]) (by rw [hsame]) (by rw [hsame]) (by rw [hsame])
        fun u => ⟨_, rfl⟩
  | accept t filter error =>
      have hg := grows_accept σ t filter error
      rw [post_eq] at hg ⊢
      exact h.same hg rfl (fun _ hk => hk) fun u => ⟨_, rfl⟩
  | refuse t u filter error rest ht => exact h.popped ht (by simp [flush])
  | logic hcalls => exact h.calls hcalls
  | tick clock =>
      exact h.same (grows_of_same rfl (fun _ => rfl) rfl) rfl (fun _ hk => hk) hnothing

end System
end EddyServer
