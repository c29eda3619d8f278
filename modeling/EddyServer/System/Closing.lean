import EddyServer.System.Known
import EddyServer.System.Scene

/-!
# Who closes whom

`hanlde_close` looks for a queue entry under the session's id and takes whatever it finds. It finds
its own entry as long as a session that has left its queue does not come back: it is closed and has
no write outstanding, so only a `handle_read` that was outstanding when it left can call
`hanlde_close` again. That does nothing unless by then another session has entered the queue of the
same thread under the same id.
-/

namespace EddyServer

/-- The task is no completion of a read or a write, and no `on_session_closed`. -/
def Task.endsNothing : Task → Bool
  | .handleRead .. | .hanldeWrite _ | .onSessionClosed _ => false
  | _ => true

namespace Job

variable {Φ : Type}

/-- The job is a completion of `handle_read` of session `c`. -/
def readBy (c : Conn) : Job Φ → Bool
  | .on d task => d == c && task.isRead
  | .handleAccept .. => false

/-- The job is a completion of `hanlde_write` of session `c`. -/
def writeBy (c : Conn) : Job Φ → Bool
  | .on d task => d == c && task.isWrite
  | .handleAccept .. => false

end Job

namespace System

variable {Φ : Type} {F : MessageFilterInterface Φ}

/-! ## The invariant -/

/-- The calls of `handle_read` that are still to come for the reads session `c` has started. -/
def readsOf (σ : System Φ) (c : Conn) : Nat :=
  (σ.sessions c).outstandingReads +
    (σ.tasks (σ.sessions c).ioThread).countP (Job.readBy c)

/-- The calls of `hanlde_write` that are still to come. -/
def writesOf (σ : System Φ) (c : Conn) : Nat :=
  (σ.sessions c).outstandingWrites +
    (σ.tasks (σ.sessions c).ioThread).countP (Job.writeBy c)

/-- Session `c` is in its queue; or it is closed, has no write outstanding, and has a read
outstanding only if nobody is in the queue under its id. -/
def Owner (σ : System Φ) (c : Conn) : Prop :=
  σ.found c = some c ∨
    (σ.sessions c).closed = true ∧ σ.writesOf c = 0 ∧ (σ.found c ≠ none → σ.readsOf c = 0)

structure Owned (σ : System Φ) : Prop where
  home : ∀ t c task, .on c task ∈ σ.tasks t → task.isRead = true ∨ task.isWrite = true →
    t = (σ.sessions c).ioThread
  counted : ∀ c, (σ.sessions c).numWriteHandlers = σ.writesOf c
  owner : ∀ c, Owner σ c
  removed : ∀ c, ∀ e ∈ (σ.sessions c).trace.removed, e = c
  closing : ∀ t c k, .on c (.onSessionClosed k) ∈ σ.tasks t → σ.getSessionHandler k = some c
  onClosed : ∀ h c, .onClosed c ∈ (σ.handlers h).callbacks → c = h

/-- When a session runs `init`, no other session of its thread that had the same id has a read
outstanding. -/
def OpensAlone (σ : System Φ) (a : Act Φ) : Prop :=
  ∀ c k, σ.opening a = some (c, k) → ∀ d ≠ c, (σ.sessions d).ioThread = (σ.sessions c).ioThread →
    (σ.sessions d).sessionId = k → σ.readsOf d = 0

theorem Owned.start (threads keepAliveTime : Nat) (filter : Φ) :
    Owned (start threads keepAliveTime filter) where
  home _ _ _ h := by simp at h
  counted c := rfl
  owner c := .inr ⟨rfl, rfl, fun _ => rfl⟩
  removed c e h := by cases h
  closing _ _ _ h := by simp at h
  onClosed h c hc := by cases hc

/-! ## Steps that start and complete nothing -/

/-- As far as closing is concerned, `t` is `s`. -/
structure SameEnds (s t : TCPSession Φ) : Prop where
  ioThread : t.ioThread = s.ioThread
  sessionId : t.sessionId = s.sessionId
  closed : t.closed = s.closed
  numWriteHandlers : t.numWriteHandlers = s.numWriteHandlers
  outstandingReads : t.outstandingReads = s.outstandingReads
  outstandingWrites : t.outstandingWrites = s.outstandingWrites
  removed : t.trace.removed = s.trace.removed

theorem SameEnds.refl (s : TCPSession Φ) : SameEnds s s := ⟨rfl, rfl, rfl, rfl, rfl, rfl, rfl⟩

theorem countP_popped_of_false {σ : System Φ} {t : ThreadIx} {job : Job Φ} {rest : List (Job Φ)}
    (ht : σ.tasks t = job :: rest) {p : Job Φ → Bool} (hp : p job = false) (u : ThreadIx) :
    ((σ.popped t rest).tasks u).countP p = (σ.tasks u).countP p := by
  by_cases hu : u = t
  · subst hu
    rw [ht, List.countP_cons_of_neg (by simp [hp])]
    simp [popped]
  · simp [popped, Function.update_of_ne hu]

/-- Taking a job that is no completion of a read or a write. -/
theorem Owned.popped {σ : System Φ} (h : Owned σ) {t : ThreadIx} {job : Job Φ}
    {rest : List (Job Φ)} (ht : σ.tasks t = job :: rest) (hread : ∀ c, job.readBy c = false)
    (hwrite : ∀ c, job.writeBy c = false) : Owned (σ.popped t rest) := by
  have hreads : ∀ c, (σ.popped t rest).readsOf c = σ.readsOf c := fun c => by
    unfold readsOf
    rw [countP_popped_of_false ht (hread c)]
    rfl
  have hwrites : ∀ c, (σ.popped t rest).writesOf c = σ.writesOf c := fun c => by
    unfold writesOf
    rw [countP_popped_of_false ht (hwrite c)]
    rfl
  refine ⟨fun u c task hjob => h.home u c task (mem_popped ht hjob), fun c => ?_, fun c => ?_,
    h.removed, fun u c k hjob => h.closing u c k (mem_popped ht hjob), h.onClosed⟩
  · rw [hwrites]
    exact h.counted c
  · unfold Owner
    rw [hreads, hwrites]
    exact h.owner c

/-- Sessions have ended nothing, and handlers have been told about their own sessions only. -/
theorem Owned.frame {σ σ' : System Φ} (h : Owned σ)
    (hmap : σ'.sessionHandlerMap = σ.sessionHandlerMap) (hqueue : σ'.sessionQueue = σ.sessionQueue)
    (hsessions : ∀ c, SameEnds (σ.sessions c) (σ'.sessions c))
    (htasks : ∀ t, ∃ more, σ'.tasks t = σ.tasks t ++ more ∧
      ∀ c task, .on c task ∈ more → task.endsNothing = true)
    (honClosed : ∀ e c, .onClosed c ∈ (σ'.handlers e).callbacks →
      .onClosed c ∈ (σ.handlers e).callbacks ∨ c = e) : Owned σ' := by
  -- What is queued anew ends nothing, so the counts of such calls stay.
  have hfalse : ∀ {p : Job Φ → Bool}, (∀ c task, p (.on c task) = true → task.endsNothing = false) →
      (∀ u f e, p (.handleAccept u f e) = false) → ∀ t, (σ'.tasks t).countP p = (σ.tasks t).countP p := by
    intro p hp haccept t
    obtain ⟨more, heq, hmore⟩ := htasks t
    rw [heq]
    refine countP_append_of_false fun job hjob => ?_
    rcases job with ⟨c, task⟩ | ⟨u, f, e⟩
    · by_contra htrue
      rw [Bool.not_eq_false] at htrue
      have := hp c task htrue
      rw [hmore c task hjob] at this
      cases this
    · exact haccept u f e
  have hmem : ∀ {t c task}, .on c task ∈ σ'.tasks t → task.endsNothing = false →
      .on c task ∈ σ.tasks t := by
    intro t c task hjob hends
    obtain ⟨more, heq, hmore⟩ := htasks t
    rw [heq] at hjob
    rcases List.mem_append.mp hjob with hold | hnew
    · exact hold
    · rw [hmore c task hnew] at hends
      cases hends
  have hreads : ∀ c, σ'.readsOf c = σ.readsOf c := fun c => by
    unfold readsOf
    rw [(hsessions c).outstandingReads, (hsessions c).ioThread, hfalse _ fun _ _ _ => rfl]
    intro d task htrue
    cases task <;> first | rfl | simp [Job.readBy, Task.isRead] at htrue
  have hwrites : ∀ c, σ'.writesOf c = σ.writesOf c := fun c => by
    unfold writesOf
    rw [(hsessions c).outstandingWrites, (hsessions c).ioThread, hfalse _ fun _ _ _ => rfl]
    intro d task htrue
    cases task <;> first | rfl | simp [Job.writeBy, Task.isWrite] at htrue
  have hfound : ∀ c, σ'.found c = σ.found c := fun c => by
    unfold found getSession
    rw [hqueue, (hsessions c).ioThread, (hsessions c).sessionId]
  refine ⟨fun t c task hjob hends => ?_, fun c => ?_, fun c => ?_, fun c => ?_, fun t c k hjob => ?_,
    fun e c hc => ?_⟩
  · rw [(hsessions c).ioThread]
    refine h.home t c task (hmem hjob ?_) hends
    cases task <;> first | rfl | simp [Task.isRead, Task.isWrite] at hends
  · rw [hwrites, (hsessions c).numWriteHandlers]
    exact h.counted c
  · unfold Owner
    rw [hfound, hreads, hwrites, (hsessions c).closed]
    exact h.owner c
  · rw [(hsessions c).removed]
    exact h.removed c
  · rw [getSessionHandler, hmap]
    exact h.closing t c k (hmem hjob rfl)
  · rcases honClosed e c hc with hold | hown
    · exact h.onClosed e c hold
    · exact hown

theorem Owned.calls {cbs : List (Conn × Callback)} {σ σ' : System Φ} (h : Owned σ)
    (hcalls : Calls cbs σ σ') (hown : ∀ e c, (e, .onClosed c) ∈ cbs → c = e) : Owned σ' := by
  refine h.frame hcalls.keeps.sessionHandlerMap hcalls.keeps.sessionQueue (fun c => ?_) (fun t => ?_)
    fun e c hc => ?_
  · obtain ⟨_, _, rfl⟩ := hcalls.same
    exact .refl _
  · obtain ⟨more, heq, hmore⟩ := hcalls.tasks t
    refine ⟨more, heq, fun d task hjob => ?_⟩
    obtain ⟨c, task', heq', ⟨-, -, rfl | rfl⟩ | ⟨-, ⟨messages, rfl⟩ | rfl⟩⟩ := hmore _ hjob <;>
      cases heq' <;> rfl
  · rw [hcalls.callbacks] at hc
    rcases List.mem_append.mp hc with hold | hnew
    · exact .inl hold
    · obtain ⟨⟨e', cb⟩, hcb, rfl⟩ := List.mem_map.mp hnew
      obtain ⟨hmem, he⟩ := List.mem_filter.mp hcb
      obtain rfl : e' = e := by simpa using he
      exact .inr (hown e' c hmem)

/-! ## Sessions -/

/-- Taking the head of a queue takes one call of its kind, in its home queue. -/
theorem countP_popped {σ : System Φ} {t u : ThreadIx} {c d : Conn} {task : Task}
    {rest : List (Job Φ)} (ht : σ.tasks t = .on c task :: rest) {q : Task → Bool}
    {p : Job Φ → Bool} (hp : p (.on c task) = (c == d && q task))
    (hhome : q task = true → c = d ∧ t = u) :
    ((σ.popped t rest).tasks u).countP p + (if q task then 1 else 0) = (σ.tasks u).countP p := by
  cases hkind : q task with
  | true =>
      obtain ⟨rfl, rfl⟩ := hhome hkind
      rw [ht, List.countP_cons_of_pos (by rw [hp, hkind, beq_self_eq_true]; rfl)]
      simp [System.popped]
  | false =>
      rw [countP_popped_of_false ht (by rw [hp, hkind, Bool.and_false])]
      simp

theorem isRead_of_fromSession {task : Task} (h : task.fromSession = true) :
    task.isRead = false ∧ task.isWrite = false := by
  cases task <;> first | exact ⟨rfl, rfl⟩ | cases h

/-- A function of session `d` has run: of the calls of a kind that are queued it has used up the one
that has run it, if that was of the kind, and has added none. -/
theorem countP_moved {σ : System Φ} {t : ThreadIx} {c d : Conn} {task : Task}
    {rest : List (Job Φ)} {r : TCPSession Φ × List Effect} (ht : σ.tasks t = .on c task :: rest)
    (hmove : TCPSession.Move (σ.sessions d) (σ.found d) task r) {q : Task → Bool}
    {p : Conn → Job Φ → Bool} (hp : ∀ e c' task', p e (.on c' task') = (c' == e && q task'))
    (hkind : ∀ task' : Task, task'.fromSession = true → q task' = false)
    (hhome : q task = true → d = c ∧ t = (σ.sessions c).ioThread) (e : Conn) :
    (((σ.popped t rest).onSession d r).tasks (σ.sessions e).ioThread).countP (p e) +
        (if e = d ∧ q task = true then 1 else 0) =
      (σ.tasks (σ.sessions e).ioThread).countP (p e) := by
  have hposted : (((σ.popped t rest).onSession d r).tasks (σ.sessions e).ioThread).countP (p e) =
      ((σ.popped t rest).tasks (σ.sessions e).ioThread).countP (p e) := by
    rw [onSession_eq]
    refine countP_append_of_false fun job hjob => ?_
    obtain ⟨task', hpost, rfl⟩ := List.mem_map.mp hjob
    rw [hp, hkind task' (Link.move_posts hmove hpost), Bool.and_false]
  rw [hposted]
  rcases eq_or_ne e d with rfl | hed
  · simp only [true_and]
    refine countP_popped ht (hp e c task) fun hk => ?_
    obtain ⟨rfl, hu⟩ := hhome hk
    exact ⟨rfl, hu⟩
  · -- the call that has run was not one of `e`
    rw [if_neg (by simp [hed]), Nat.add_zero]
    refine countP_popped_of_false ht ?_ _
    rw [hp]
    by_contra htrue
    rw [Bool.not_eq_false, Bool.and_eq_true] at htrue
    obtain ⟨rfl, -⟩ := hhome htrue.2
    exact hed (beq_iff_eq.mp htrue.1).symm

/-- A completion of a read or a write acts on the session that started the operation. -/
theorem eq_of_isRead_or_isWrite {σ : System Φ} {t : ThreadIx} {c d : Conn} {task : Task}
    (hd : d = c ∨ σ.target t c task = some d)
    (hends : task.isRead = true ∨ task.isWrite = true) : d = c := by
  refine hd.resolve_right fun htarget => ?_
  cases task <;> first | cases htarget | simp [Task.isRead, Task.isWrite] at hends

/-- No read is added to those that are to come. -/
theorem readsOf_move_le {σ : System Φ} {t : ThreadIx} {c d : Conn} {task : Task}
    {rest : List (Job Φ)} {r : TCPSession Φ × List Effect} (ht : σ.tasks t = .on c task :: rest)
    (hd : d = c ∨ σ.target t c task = some d)
    (hmove : TCPSession.Move (σ.sessions d) (σ.found d) task r)
    (hhome : task.isRead = true → t = (σ.sessions c).ioThread) (e : Conn) :
    ((σ.popped t rest).onSession d r).readsOf e ≤ σ.readsOf e := by
  have hcount := countP_moved ht hmove (q := Task.isRead) (p := Job.readBy) (fun _ _ _ => rfl)
    (fun task' hfrom => (isRead_of_fromSession hfrom).1)
    (fun hread => ⟨eq_of_isRead_or_isWrite hd (.inl hread), hhome hread⟩) e
  have hle := hmove.reads_le
  unfold readsOf
  rw [onSession_eq] at hcount ⊢
  dsimp only at hcount ⊢
  rcases eq_or_ne e d with rfl | hed
  · rw [Function.update_self, hmove.ioThread]
    simp only [true_and] at hcount
    omega
  · rw [Function.update_of_ne hed, show (σ.popped t rest).sessions e = σ.sessions e from rfl]
    omega

/-- A function of session `d` has run: no call is added to those that are to come, and the calls of
`hanlde_write` stay counted. -/
theorem Owned.move_counts {σ : System Φ} (h : Owned σ) {t : ThreadIx} {c d : Conn} {task : Task}
    {rest : List (Job Φ)} {r : TCPSession Φ × List Effect} (ht : σ.tasks t = .on c task :: rest)
    (hd : d = c ∨ σ.target t c task = some d)
    (hmove : TCPSession.Move (σ.sessions d) (σ.found d) task r) (e : Conn) :
    ((σ.popped t rest).onSession d r).readsOf e ≤ σ.readsOf e ∧
      ((σ.popped t rest).onSession d r).writesOf e ≤ σ.writesOf e ∧
      (((σ.popped t rest).onSession d r).sessions e).numWriteHandlers =
        ((σ.popped t rest).onSession d r).writesOf e := by
  have hmem : (.on c task : Job Φ) ∈ σ.tasks t := by rw [ht]; exact List.mem_cons_self
  have hhome : task.isRead = true ∨ task.isWrite = true → t = (σ.sessions c).ioThread :=
    h.home t c task hmem
  have hcount := countP_moved ht hmove (q := Task.isWrite) (p := Job.writeBy) (fun _ _ _ => rfl)
    (fun task' hfrom => (isRead_of_fromSession hfrom).2)
    (fun hwrite => ⟨eq_of_isRead_or_isWrite hd (.inr hwrite), hhome (.inr hwrite)⟩) e
  refine ⟨readsOf_move_le ht hd hmove (fun hread => hhome (.inl hread)) e, ?_⟩
  have hcounted := h.counted e
  unfold writesOf at *
  rw [onSession_eq] at hcount ⊢
  dsimp only at hcount ⊢
  rcases eq_or_ne e d with rfl | hed
  · have hle := hmove.writeCount_le
    have hwriteCount := hmove.writeCount
    rw [Function.update_self, hmove.ioThread]
    simp only [true_and] at hcount
    refine ⟨by omega, ?_⟩
    split_ifs at hwriteCount hcount <;> omega
  · rw [if_neg fun hed' => hed hed'.1, Nat.add_zero] at hcount
    rw [Function.update_of_ne hed, show (σ.popped t rest).sessions e = σ.sessions e from rfl, hcount]
    exact ⟨Nat.le_refl _, hcounted⟩

/-- A session takes an entry out of its queue when it says so, and is closed then. -/
theorem move_removed {s : TCPSession Φ} {found : Option Conn} {task : Task}
    {r : TCPSession Φ × List Effect} (h : TCPSession.Move s found task r) :
    r.1.trace.removed = s.trace.removed ∧ .queueRemove ∉ r.2 ∨
      r.1.closed = true ∧ .queueRemove ∈ r.2 ∧
        ∃ entry, found = some entry ∧ r.1.trace.removed = s.trace.removed ++ [entry] := by
  cases h.outcome with
  | quiet hq _ heffects => exact .inl ⟨hq.removed, by simp [heffects]⟩
  | timer hq _ heffects => exact .inl ⟨hq.removed, by simp [heffects]⟩
  | deregister entry hfound hclosed _ _ hremoved heffects =>
      exact .inr ⟨hclosed, by simp [heffects], entry, hfound, hremoved⟩
  | receive _ _ hr _ heffects => exact .inl ⟨hr.removed, by simp [heffects]⟩
  | first _ _ hr _ _ heffects => exact .inl ⟨hr.removed, by simp [heffects]⟩
  | deliver _ _ _ _ hremoved heffects => exact .inl ⟨hremoved, by simp [heffects]⟩

/-- A session that takes an entry out of its queue takes its own. -/
theorem Owned.leaves {σ : System Φ} (h : Owned σ) {t : ThreadIx} {c d entry : Conn} {task : Task}
    {rest : List (Job Φ)} {r : TCPSession Φ × List Effect} (ht : σ.tasks t = .on c task :: rest)
    (hd : d = c ∨ σ.target t c task = some d)
    (hmove : TCPSession.Move (σ.sessions d) (σ.found d) task r) (hleaves : .queueRemove ∈ r.2)
    (hfound : σ.found d = some entry) : entry = d := by
  rcases h.owner d with hown | ⟨hclosed, hwrites, hreads⟩
  · exact Option.some.inj (hfound.symm.trans hown)
  -- otherwise a read or a write of the closed session has just completed
  have hmem : (.on c task : Job Φ) ∈ σ.tasks t := by rw [ht]; exact List.mem_cons_self
  have hends : task.isRead = true ∨ task.isWrite = true →
      d = c ∧ (.on d task : Job Φ) ∈ σ.tasks (σ.sessions d).ioThread := by
    intro hends
    have hdc : d = c := hd.resolve_right fun htarget => by
      cases task <;> first | cases htarget | simp [Task.isRead, Task.isWrite] at hends
    subst hdc
    rw [← h.home t d task hmem hends]
    exact ⟨rfl, hmem⟩
  rcases (hmove.leaves hleaves).2 with hread | hwrite | hopen
  · obtain ⟨rfl, hjob⟩ := hends (.inl hread)
    have hzero := hreads (by rw [hfound]; exact Option.some_ne_none _)
    have hpos : 0 < (σ.tasks (σ.sessions d).ioThread).countP (Job.readBy d) :=
      List.countP_pos_iff.mpr ⟨_, hjob, by simp [Job.readBy, hread]⟩
    unfold readsOf at hzero
    omega
  · obtain ⟨rfl, hjob⟩ := hends (.inr hwrite)
    have hpos : 0 < (σ.tasks (σ.sessions d).ioThread).countP (Job.writeBy d) :=
      List.countP_pos_iff.mpr ⟨_, hjob, by simp [Job.writeBy, hwrite]⟩
    unfold writesOf at hwrites
    omega
  · rw [hclosed] at hopen
    cases hopen

theorem Owned.move {σ : System Φ} (h : Owned σ) (hreg : Registry σ) {t : ThreadIx} {c d : Conn}
    {task : Task} {rest : List (Job Φ)} {r : TCPSession Φ × List Effect}
    (ht : σ.tasks t = .on c task :: rest) (hd : d = c ∨ σ.target t c task = some d)
    (hmove : TCPSession.Move (σ.sessions d) (σ.found d) task r) :
    Owned ((σ.popped t rest).onSession d r) := by
  have hcounts := h.move_counts ht hd hmove
  have hself : ((σ.popped t rest).onSession d r).sessions d = r.1 := by
    rw [onSession_eq]
    exact Function.update_self ..
  have hother : ∀ e ≠ d, ((σ.popped t rest).onSession d r).sessions e = σ.sessions e := by
    intro e he
    rw [onSession_eq]
    exact Function.update_of_ne he _ _
  have hio : ∀ e, (((σ.popped t rest).onSession d r).sessions e).ioThread =
      (σ.sessions e).ioThread := by
    rw [onSession_eq]
    exact update_field (·.ioThread) hmove.ioThread
  have hjobs : ∀ {u job}, job ∈ ((σ.popped t rest).onSession d r).tasks u →
      job ∈ σ.tasks u ∨ ∃ task', .post u task' ∈ r.2 ∧ task'.fromSession = true ∧
        job = .on d task' := by
    intro u job hjob
    rw [onSession_eq] at hjob
    refine (List.mem_append.mp hjob).imp (mem_popped ht) fun hnew => ?_
    obtain ⟨task', hpost, rfl⟩ := List.mem_map.mp hnew
    exact ⟨task', by simpa using mem_jobsTo.mp hnew, Link.move_posts hmove hpost, rfl⟩
  refine ⟨fun u e task' hjob hends => ?_, fun e => (hcounts e).2.2, fun e => ?_, fun e e' he' => ?_,
    fun u e k hjob => ?_, by rw [onSession_eq]; exact h.onClosed⟩
  · rw [hio]
    rcases hjobs hjob with hold | ⟨task'', -, hfrom, heq⟩
    · exact h.home u e task' hold hends
    · cases heq
      obtain ⟨hr, hw⟩ := isRead_of_fromSession hfrom
      rw [hr, hw] at hends
      rcases hends with hends | hends <;> cases hends
  · have hclosed : (σ.sessions e).closed = true →
        (((σ.popped t rest).onSession d r).sessions e).closed = true := by
      rcases eq_or_ne e d with rfl | hed
      · rw [hself]
        exact hmove.stays
      · rw [hother e hed]
        exact fun hc => hc
    -- A session that had been closed for good stays so.
    have hgone : (((σ.popped t rest).onSession d r).found e ≠ none → σ.found e ≠ none) →
        (σ.sessions e).closed = true ∧ σ.writesOf e = 0 ∧ (σ.found e ≠ none → σ.readsOf e = 0) →
        Owner ((σ.popped t rest).onSession d r) e := by
      rintro hfound ⟨hc, hw, hr⟩
      obtain ⟨hreads, hwrites, -⟩ := hcounts e
      exact .inr ⟨hclosed hc, by omega, fun hne => by
        have := hr (hfound hne)
        omega⟩
    -- Unless the session leaves its queue, every lookup gives what it gave.
    rcases move_effects hmove d with hposts | ⟨entry, hfound, hr⟩
    · have hsame : ((σ.popped t rest).onSession d r).found e = σ.found e := by
        unfold found
        rw [hio, onSession_of_posts fun e he => (hposts e he).imp fun _ h => h.imp fun _ h => h.1]
        exact congrArg _ (update_field (S := σ.sessions) (·.sessionId) hmove.sessionId e)
      rcases h.owner e with hown | hgone'
      · exact .inl (hsame.trans hown)
      · exact hgone (by rw [hsame]; exact fun hne => hne) hgone'
    · have hleaves : .queueRemove ∈ r.2 := by simp [hr]
      rw [h.leaves ht hd hmove hleaves hfound] at hfound
      have hfound' : ((σ.popped t rest).onSession d r).found e =
          if (σ.sessions e).ioThread = (σ.sessions d).ioThread ∧
            (σ.sessions e).sessionId = (σ.sessions d).sessionId then none else σ.found e := by
        have hid : (((σ.popped t rest).onSession d r).sessions e).sessionId =
            (σ.sessions e).sessionId := by
          rw [onSession_eq]
          exact update_field (·.sessionId) hmove.sessionId e
        rw [System.found, getSession_of_leaves hr, hio, hid, hmove.ioThread, hmove.sessionId]
        rfl
      rcases eq_or_ne e d with rfl | hed
      · have hclosed' : r.1.closed = true := by
          rcases move_removed hmove with ⟨-, hnot⟩ | ⟨hc, -⟩
          · exact absurd hleaves hnot
          · exact hc
        have hnum := (hcounts e).2.2
        have hle := (hmove.leaves hleaves).1
        rw [hself] at hnum
        refine .inr ⟨by rw [hself]; exact hclosed', by omega, fun hne => absurd ?_ hne⟩
        rw [hfound', if_pos ⟨rfl, rfl⟩]
      · rcases h.owner e with hown | hgone'
        · left
          rw [hfound', if_neg]
          · exact hown
          · rintro ⟨hthread, hid⟩
            -- An owner of the same entry would be `d` itself.
            have hsame : σ.found e = σ.found d := by rw [found, found, hthread, hid]
            exact hed (Option.some.inj (hown.symm.trans (hsame.trans hfound)))
        · refine hgone (fun hne => ?_) hgone'
          rw [hfound'] at hne
          split_ifs at hne
          · exact absurd rfl hne
          · exact hne
  · rcases eq_or_ne e d with rfl | hed
    · rw [hself] at he'
      rcases move_removed hmove with ⟨hsame, -⟩ | ⟨-, hleaves, entry, hfound, hremoved⟩
      · rw [hsame] at he'
        exact h.removed e e' he'
      · rw [hremoved] at he'
        rcases List.mem_append.mp he' with hold | hnew
        · exact h.removed e e' hold
        · rw [List.mem_singleton.mp hnew]
          exact h.leaves ht hd hmove hleaves hfound
    · rw [hother e hed] at he'
      exact h.removed e e' he'
  · rw [onSession_eq]
    rcases hjobs hjob with hold | ⟨task', hpost, -, heq⟩
    · exact h.closing u e k hold
    · cases heq
      rcases move_effects hmove d with hposts | ⟨entry, hfound, hr⟩
      · obtain ⟨u', task', heq, hplain⟩ := hposts _ hpost
        cases heq
        cases hplain
      · rw [h.leaves ht hd hmove (by simp [hr]) hfound] at hfound
        rw [hr] at hpost
        rcases TCPSession.mem_leaving hpost with heq | heq | heq <;> cases heq
        exact (hreg.entry _ _ _ hfound).1

/-- Session `c` has run `init`, and no other session that had the id has a read outstanding. -/
theorem Owned.opens {σ : System Φ} (h : Owned σ) {c : Conn} {k : TCPSessionID}
    {r : TCPSession Φ × List Effect} (hr : TCPSession.Opens (σ.sessions c) k r)
    (hnone : σ.getSession (σ.sessions c).ioThread k = none)
    (halone : ∀ d ≠ c, (σ.sessions d).ioThread = (σ.sessions c).ioThread →
      (σ.sessions d).sessionId = k → σ.readsOf d = 0) : Owned (σ.onSession c r) := by
  have hsame := onSession_of_adds (σ := σ) (c := c) hr.effects
  have hself : (σ.onSession c r).sessions c = r.1 := by
    rw [hsame]
    exact Function.update_self ..
  have hother : ∀ e ≠ c, (σ.onSession c r).sessions e = σ.sessions e := by
    intro e he
    rw [hsame]
    exact Function.update_of_ne he _ _
  have hfield : ∀ {α : Type} (f : TCPSession Φ → α), f r.1 = f (σ.sessions c) →
      ∀ e, f ((σ.onSession c r).sessions e) = f (σ.sessions e) := by
    intro α f hf
    rw [hsame]
    exact update_field f hf
  have hio := hfield (·.ioThread) hr.ioThread
  have hwrites : ∀ e, (σ.onSession c r).writesOf e = σ.writesOf e := by
    intro e
    rw [writesOf, hio, hfield (·.outstandingWrites) hr.outstandingWrites, hsame, writesOf]
  have hfound : ∀ e, (σ.onSession c r).found e =
      if (σ.sessions e).ioThread = (σ.sessions c).ioThread ∧
        ((σ.onSession c r).sessions e).sessionId = k then some c
      else σ.getSession (σ.sessions e).ioThread ((σ.onSession c r).sessions e).sessionId := by
    intro e
    rw [found, getSession_of_adds hr.effects (by rw [hr.ioThread, hr.sessionId]; exact hnone), hio,
      hr.ioThread, hr.sessionId]
  refine ⟨fun t e task hjob => ?_, fun e => ?_, fun e => ?_, fun e => ?_, ?_, ?_⟩
  · rw [hio]
    rw [hsame] at hjob
    exact h.home t e task hjob
  · rw [hwrites, hfield (·.numWriteHandlers) hr.numWriteHandlers]
    exact h.counted e
  · rcases eq_or_ne e c with rfl | hec
    · left
      rw [hfound, hself, hr.sessionId, if_pos ⟨rfl, rfl⟩]
    · unfold Owner
      rw [hwrites, hfound, readsOf, hother e hec]
      rcases h.owner e with hown | ⟨hclosed, hzero, hreads⟩
      · left
        rw [if_neg]
        · exact hown
        · rintro ⟨hthread, hid⟩
          rw [found, hthread, hid, hnone] at hown
          cases hown
      · refine .inr ⟨hclosed, hzero, fun hne => ?_⟩
        rw [hsame]
        split_ifs at hne with hkey
        · exact halone e hec hkey.1 hkey.2
        · exact hreads hne
  · rw [hfield (·.trace.removed) (by rw [hr.trace])]
    exact h.removed e
  · rw [hsame]
    exact h.closing
  · rw [hsame]
    exact h.onClosed

/-- Session `d`, which is in its queue, has been given a batch. -/
theorem Owned.posts {σ : System Φ} (h : Owned σ) {d : Conn} (hfound : σ.found d = some d)
    {messages : List NetMessage} {s : TCPSession Φ}
    (hposts : TCPSession.Posts F (σ.sessions d) messages s) (handlers : Conn → TCPSessionHandler)
    (hcallbacks : ∀ e, (handlers e).callbacks = (σ.handlers e).callbacks) :
    Owned { σ with sessions := Function.update σ.sessions d s, handlers := handlers } := by
  have hio := update_field (S := σ.sessions) (·.ioThread) hposts.ioThread
  have hid := update_field (S := σ.sessions) (·.sessionId) hposts.sessionId
  refine ⟨fun t e task hjob => ?_, fun e => ?_, fun e => ?_, fun e => ?_, h.closing, fun e c hc => ?_⟩
  · dsimp only at hio ⊢
    rw [hio]
    exact h.home t e task hjob
  · have hcounted := h.counted e
    unfold writesOf at hcounted ⊢
    dsimp only at hio ⊢
    rw [hio]
    rcases eq_or_ne e d with rfl | hed
    · have hcount := hposts.writeCount
      rw [Function.update_self]
      omega
    · rw [Function.update_of_ne hed]
      exact hcounted
  · have hsame : ∀ e, System.found { σ with
        sessions := Function.update σ.sessions d s, handlers := handlers } e = σ.found e := by
      intro e
      unfold found getSession
      dsimp only at hio hid ⊢
      rw [hio, hid]
    rcases eq_or_ne e d with rfl | hed
    · exact .inl ((hsame e).trans hfound)
    · have howner := h.owner e
      unfold Owner readsOf writesOf at howner ⊢
      rw [hsame]
      dsimp only
      rw [Function.update_of_ne hed]
      exact howner
  · dsimp only
    rw [update_field (·.trace.removed) hposts.quiet.removed]
    exact h.removed e
  · rw [hcallbacks] at hc
    exact h.onClosed e c hc

/-- A completion leaves the socket and enters the queue of the session's thread. -/
theorem countP_completed {σ : System Φ} {t : ThreadIx} {c : Conn} {task : Task} {s : TCPSession Φ}
    {q : Task → Bool} {p : Conn → Job Φ → Bool} (f : TCPSession Φ → Nat)
    (hp : ∀ e, p e (.on c task) = (c == e && q task))
    (ht : q task = true → t = (σ.sessions c).ioThread)
    (hf : f s + (if q task then 1 else 0) = f (σ.sessions c)) (e : Conn) :
    f (Function.update σ.sessions c s e) + List.countP (p e) (σ.tasks (σ.sessions e).ioThread ++
        if t = (σ.sessions e).ioThread then [.on c task] else []) =
      f (σ.sessions e) + (σ.tasks (σ.sessions e).ioThread).countP (p e) := by
  by_cases hmine : p e (.on c task) = true
  · obtain ⟨hce, hq⟩ := Bool.and_eq_true_iff.mp ((hp e).symm.trans hmine)
    obtain rfl : c = e := by simpa using hce
    rw [if_pos hq] at hf
    rw [Function.update_self, if_pos (ht hq), List.countP_append, List.countP_singleton,
      if_pos hmine]
    omega
  · rw [countP_append_of_false]
    · rcases eq_or_ne e c with rfl | hec
      · have hq : q task = false := by simpa [hp] using hmine
        rw [hq, if_neg (by decide)] at hf
        rw [Function.update_self, ← hf, Nat.add_zero]
      · rw [Function.update_of_ne hec]
    · intro job hjob
      split_ifs at hjob
      · rw [List.mem_singleton.mp hjob]
        simpa using hmine
      · cases hjob

/-- An operation of session `c` has completed. -/
theorem Owned.complete {σ : System Φ} (h : Owned σ) {t : ThreadIx} {c : Conn} {task : Task}
    {s : TCPSession Φ} (hs : TCPSession.Completes (σ.sessions c) task s)
    (ht : task.isRead = true ∨ task.isWrite = true → t = (σ.sessions c).ioThread) :
    Owned (({ σ with sessions := Function.update σ.sessions c s } : System Φ).post t
      (.on c task)) := by
  obtain ⟨socket, timer, hsame⟩ := hs.same
  set τ := ({ σ with sessions := Function.update σ.sessions c s } : System Φ).post t (.on c task)
    with hτ
  have hsessions : τ.sessions = Function.update σ.sessions c s := rfl
  have htasks : ∀ u, τ.tasks u = σ.tasks u ++ if t = u then [.on c task] else [] := fun u => by
    rw [hτ, post_eq]
  have hfield : ∀ {α : Type} (f : TCPSession Φ → α), f s = f (σ.sessions c) →
      ∀ e, f (τ.sessions e) = f (σ.sessions e) := fun f hf => update_field f hf
  have hio := hfield (·.ioThread) (by rw [hsame])
  have hid := hfield (·.sessionId) (by rw [hsame])
  have hreads : ∀ e, τ.readsOf e = σ.readsOf e := fun e => by
    rw [readsOf, hio, htasks, hsessions]
    exact countP_completed (p := Job.readBy) TCPSession.outstandingReads
      (fun _ => rfl) (fun hk => ht (.inl hk)) hs.reads e
  have hwrites : ∀ e, τ.writesOf e = σ.writesOf e := fun e => by
    rw [writesOf, hio, htasks, hsessions]
    exact countP_completed (p := Job.writeBy) TCPSession.outstandingWrites
      (fun _ => rfl) (fun hk => ht (.inr hk)) hs.writes e
  have hfound : ∀ e, τ.found e = σ.found e := fun e => by
    rw [found, hio, hid]
    rfl
  have hmem : ∀ {u job}, job ∈ τ.tasks u → job ∈ σ.tasks u ∨ t = u ∧ job = .on c task := by
    intro u job hjob
    rw [htasks] at hjob
    refine (List.mem_append.mp hjob).imp_right fun hnew => ?_
    split_ifs at hnew with htu
    · exact ⟨htu, List.mem_singleton.mp hnew⟩
    · cases hnew
  refine ⟨fun u e task' hjob hends => ?_, fun e => ?_, fun e => ?_, fun e => ?_, fun u e k hjob => ?_,
    h.onClosed⟩
  · rw [hio]
    rcases hmem hjob with hold | ⟨rfl, hnew⟩
    · exact h.home u e task' hold hends
    · cases hnew
      exact ht hends
  · rw [hwrites, hfield (·.numWriteHandlers) (by rw [hsame])]
    exact h.counted e
  · unfold Owner
    rw [hreads, hwrites, hfound, hfield (·.closed) (by rw [hsame])]
    exact h.owner e
  · rw [hfield (·.trace.removed) (by rw [hsame])]
    exact h.removed e
  · rcases hmem hjob with hold | ⟨-, hnew⟩
    · exact h.closing u e k hold
    · cases hnew
      cases hs.isCompletion

/-! ## Steps -/

/-- A new connection enters the map. -/
theorem Owned.register {σ : System Φ} (h : Owned σ) (hknown : Known σ)
    {k : TCPSessionID} (hfresh : σ.getSessionHandler k = none) {s : TCPSession Φ}
    (hs : s.Pristine) (generator : IDGenerator 32) : Owned (σ.register s k generator) := by
  set τ := σ.register s k generator with hτ
  obtain ⟨filter, keepAliveTime, hnew⟩ := hs
  have hself : τ.sessions σ.accepted = s := session_register
  have hother : ∀ c ≠ σ.accepted, τ.sessions c = σ.sessions c :=
    fun c hc => session_register_of_ne hc
  have hcount : ∀ {p : Job Φ → Bool}, p (.on σ.accepted (.init k)) = false →
      ∀ t, (τ.tasks t).countP p = (σ.tasks t).countP p := countP_tasks_register
  -- nothing is queued for a connection that has not been accepted
  have hnone : ∀ {p : Job Φ → Bool} (_ : ∀ job, p job = true → ∃ task, job = .on σ.accepted task)
      (t : ThreadIx), (σ.tasks t).countP p = 0 := by
    intro p hp t
    rw [List.countP_eq_zero]
    intro job hjob htrue
    obtain ⟨task, rfl⟩ := hp job htrue
    exact absurd (hknown.job t _ task hjob) (Nat.lt_irrefl _)
  have hfound : ∀ c, c ≠ σ.accepted → τ.found c = σ.found c := fun c hc => by
    rw [found, hother c hc]
    rfl
  have hreads : ∀ c, c ≠ σ.accepted → τ.readsOf c = σ.readsOf c := fun c hc => by
    rw [readsOf, hother c hc, hcount (by simp [Job.readBy, Task.isRead]), readsOf]
  have hwrites : ∀ c, c ≠ σ.accepted → τ.writesOf c = σ.writesOf c := fun c hc => by
    rw [writesOf, hother c hc, hcount (by simp [Job.writeBy, Task.isWrite]), writesOf]
  have hnoReads : τ.readsOf σ.accepted = 0 := by
    rw [readsOf, hself, hcount (by simp [Job.readBy, Task.isRead]), hnone, hnew]
    · rfl
    · intro job htrue
      rcases job with ⟨c, task⟩ | _
      · obtain rfl : c = σ.accepted := beq_iff_eq.mp (Bool.and_eq_true_iff.mp htrue).1
        exact ⟨task, rfl⟩
      · cases htrue
  have hnoWrites : τ.writesOf σ.accepted = 0 := by
    rw [writesOf, hself, hcount (by simp [Job.writeBy, Task.isWrite]), hnone, hnew]
    · rfl
    · intro job htrue
      rcases job with ⟨c, task⟩ | _
      · obtain rfl : c = σ.accepted := beq_iff_eq.mp (Bool.and_eq_true_iff.mp htrue).1
        exact ⟨task, rfl⟩
      · cases htrue
  refine ⟨fun u c task hjob hends => ?_, fun c => ?_, fun c => ?_, fun c e he => ?_,
    fun u c k' hjob => ?_, fun e c hc => ?_⟩
  · rcases mem_tasks_register hjob with hold | ⟨-, hinit⟩
    · rw [hother c (Nat.ne_of_lt (hknown.job u c task hold))]
      exact h.home u c task hold hends
    · cases hinit
      rcases hends with hends | hends <;> cases hends
  · rcases eq_or_ne c σ.accepted with rfl | hc
    · rw [hnoWrites, hself, hnew]
      rfl
    · rw [hwrites c hc, hother c hc]
      exact h.counted c
  · rcases eq_or_ne c σ.accepted with rfl | hc
    · exact .inr ⟨by rw [hself, hnew]; rfl, hnoWrites, fun _ => hnoReads⟩
    · unfold Owner
      rw [hfound c hc, hreads c hc, hwrites c hc, hother c hc]
      exact h.owner c
  · rcases eq_or_ne c σ.accepted with rfl | hc
    · rw [hself, hnew] at he
      cases he
    · rw [hother c hc] at he
      exact h.removed c e he
  · rcases mem_tasks_register hjob with hold | ⟨-, hinit⟩
    · have hmap := h.closing u c k' hold
      have hne : k' ≠ k := by
        rintro rfl
        exact absurd (hmap.symm.trans hfresh) (Option.some_ne_none _)
      exact (getSessionHandler_register hfresh k').trans ((if_neg hne).trans hmap)
    · cases hinit
  · rcases eq_or_ne e σ.accepted with rfl | he
    · rw [handler_register] at hc
      cases hc
    · rw [handler_register_of_ne he] at hc
      exact h.onClosed e c hc

/-- A handler leaves the map. -/
theorem Owned.unregister {σ : System Φ} (h : Owned σ) (hreg : Registry σ) {d : Conn}
    {k : TCPSessionID} (hclosing : (σ.tasks mainThread).countP (Job.isClosing k) = 0) :
    Owned (σ.unregister d k) := by
  refine ⟨h.home, h.counted, h.owner, h.removed, fun t c k' hjob => ?_, fun e c hc => ?_⟩
  · have hne : k' ≠ k := by
      rintro rfl
      rw [List.countP_eq_zero] at hclosing
      exact hclosing _ ((hreg.closing t c k' hjob).1 ▸ hjob) (by simp [Job.isClosing])
    exact Table.find_erase.trans ((if_neg hne).trans (h.closing t c k' hjob))
  · change .onClosed c ∈ (Function.update σ.handlers d _ e).callbacks at hc
    rcases eq_or_ne e d with rfl | he
    · rw [Function.update_self] at hc
      exact h.onClosed e c hc
    · rw [Function.update_of_ne he] at hc
      exact h.onClosed e c hc

/-- Nothing has changed that closing looks at. -/
theorem Owned.same {σ σ' : System Φ} (h : Owned σ)
    (hmap : σ'.sessionHandlerMap = σ.sessionHandlerMap) (hqueue : σ'.sessionQueue = σ.sessionQueue)
    (hsessions : ∀ c, SameEnds (σ.sessions c) (σ'.sessions c)) (htasks : σ'.tasks = σ.tasks)
    (hhandlers : σ'.handlers = σ.handlers) : Owned σ' :=
  h.frame hmap hqueue hsessions (fun t => ⟨[], by rw [htasks, List.append_nil], by simp⟩)
    fun e c hc => .inl (hhandlers ▸ hc)

/-- A session that is found through a queue is in it. -/
theorem Registry.found_of_target {σ : System Φ} (h : Registry σ) {t : ThreadIx} {c d : Conn}
    {task : Task} (hd : σ.target t c task = some d) : σ.found d = some d := by
  have hentry : ∀ {u k}, σ.getSession u k = some d → σ.found d = some d := by
    intro u k hu
    obtain ⟨-, hio, hid⟩ := h.entry u k d hu
    rw [found, ← hio, hid]
    exact hu
  cases task with
  | sendMessageListToSession id messages => exact hentry hd
  | closeSession id => exact hentry hd
  | handlerSendMessageListDirectly =>
      obtain ⟨u, -, hu⟩ := Option.bind_eq_some_iff.mp hd
      exact hentry hu
  | _ => cases hd

theorem Owned.step {σ σ' : System Φ} {a : Act Φ} (h : Owned σ) (hreg : Registry σ)
    (hknown : Known σ) (hev : Event F σ a σ') (hfresh : Fresh σ a) (halone : OpensAlone σ a) :
    Owned σ' := by
  -- only completions of reads and writes are counted
  have hp : ∀ {t c task rest}, σ.tasks t = .on c task :: rest → task.isRead = false →
      task.isWrite = false → Owned (σ.popped t rest) := fun ht hr hw =>
    h.popped ht (fun c => by simp [Job.readBy, hr]) fun c => by simp [Job.writeBy, hw]
  have hpAccept : ∀ {t u filter error rest}, σ.tasks t = .handleAccept u filter error :: rest →
      Owned (σ.popped t rest) := fun ht => h.popped ht (fun _ => rfl) fun _ => rfl
  cases hev with
  | move t c d task rest r ht _ hd hmove => exact h.move hreg ht hd hmove
  | opens t c k rest r ht hopening hr =>
      obtain ⟨-, hnone, -⟩ := hreg.at_init ht
      obtain ⟨-, hio⟩ := hreg.opening t c k (by rw [ht]; exact List.mem_cons_self)
      refine (hp ht rfl rfl).opens hr (hio ▸ hnone) fun d hd hthread hid => ?_
      have hzero := halone c k hopening d hd hthread hid
      unfold readsOf at hzero ⊢
      rwa [countP_popped_of_false ht (by simp [Job.readBy, Task.isRead])]
  | posts t c d task rest messages s buffer ht hd hposts =>
      have hkind : task.isRead = false ∧ task.isWrite = false := by
        cases task <;> first | exact ⟨rfl, rfl⟩ | cases hd
      refine (hp ht hkind.1 hkind.2).posts (hreg.found_of_target hd) hposts _ fun e => ?_
      rcases eq_or_ne e c with rfl | he
      · rw [Function.update_self]
        rfl
      · rw [Function.update_of_ne he]
        rfl
  | plain t c task rest ht _ hcompletion hcalls =>
      have hkind : task.isRead = false ∧ task.isWrite = false := by
        cases task <;> first | exact ⟨rfl, rfl⟩ | cases hcompletion
      exact (hp ht hkind.1 hkind.2).calls hcalls fun _ _ hmem => by cases hmem
  | deliver t c e k messages rest ht _ hcalls =>
      exact (hp ht rfl rfl).calls hcalls fun e' d hmem => by simp at hmem
  | deliverDirectly t c e rest ht _ hcalls =>
      refine ((hp ht rfl rfl).calls hcalls fun e' d hmem => by simp at hmem).same rfl rfl
        (fun d => ?_) rfl rfl
      dsimp only
      rcases eq_or_ne d c with rfl | hd
      · rw [Function.update_self]
        exact ⟨rfl, rfl, rfl, rfl, rfl, rfl, rfl⟩
      · rw [Function.update_of_ne hd]
        exact .refl _
  | @closed τ t c e k rest threadLoad ht hmap hcalls =>
      have hmem : (.on c (.onSessionClosed k) : Job Φ) ∈ σ.tasks t := by
        rw [ht]
        exact List.mem_cons_self
      obtain rfl : c = e := Option.some.inj ((h.closing t c k hmem).symm.trans hmap)
      obtain ⟨-, -, hclosing⟩ := hreg.at_closing ht hmap
      obtain ⟨rfl, -⟩ := hreg.closing t c k hmem
      have hτ : Owned τ := (hp ht rfl rfl).calls hcalls fun e d hcb => by
        cases List.mem_singleton.mp hcb
        rfl
      refine (hτ.unregister ((hreg.popped ht).keeps hcalls.keeps) ?_).same rfl rfl
        (fun _ => .refl _) rfl rfl
      rw [hcalls.keeps.countP _ fun job hjob => job.isClosing_of_isPlain hjob k]
      simpa [System.popped] using hclosing
  | unknown t c k rest generator ht hnone =>
      have hmap := h.closing t c k (by rw [ht]; exact List.mem_cons_self)
      exact absurd (hmap.symm.trans hnone) (Option.some_ne_none _)
  | connect t u filter first k rest generator threadLoad accepting ht hdrawn _ _ hcalls =>
      have hconn := (hpAccept ht).register (hknown.popped ht) (hfresh k hdrawn)
        (s := .new u filter σ.keepAliveTime) ⟨filter, σ.keepAliveTime, rfl⟩ generator
      exact (hconn.calls hcalls fun e d hmem => by simp at hmem).same rfl rfl (fun _ => .refl _)
        rfl rfl
  | complete t c task s hs hout =>
      refine h.complete hs fun hends => ?_
      rcases hout with ⟨rfl, -⟩ | ⟨rfl, -⟩
      · rfl
      · rcases hends with hends | hends <;> cases hends
  | accept t filter error =>
      rw [post_eq]
      refine h.frame rfl rfl (fun _ => .refl _) (fun u => ⟨_, rfl, fun c task hjob => ?_⟩)
        fun _ _ hc => .inl hc
      split_ifs at hjob <;> simp at hjob
  | refuse t u filter error rest ht => exact hpAccept ht
  | logic hcalls => exact h.calls hcalls fun _ _ hmem => by cases hmem
  | tick clock => exact h.same rfl rfl (fun _ => .refl _) rfl rfl

/-! ## Runs -/

/-- What holds in every run that draws only ids that are not registered, and opens a session only
when no old session of its thread still reads under its id. -/
structure Closing (σ : System Φ) : Prop where
  registry : Registry σ
  known : Known σ
  owned : Owned σ

theorem Closing.start (threads keepAliveTime : Nat) (filter : Φ) :
    Closing (start threads keepAliveTime filter) :=
  ⟨.start threads keepAliveTime filter, .start threads keepAliveTime filter,
    .start threads keepAliveTime filter⟩

/-- The condition on a step. -/
def ClosesApart (σ : System Φ) (a : Act Φ) : Prop := Fresh σ a ∧ OpensAlone σ a

theorem Closing.step {σ σ' : System Φ} {a : Act Φ} (h : Closing σ) (hok : ClosesApart σ a)
    (hstep : step F σ a = some σ') : Closing σ' :=
  have hev := event_of_step hstep
  ⟨h.registry.step hev hok.1, h.known.step h.registry hev,
    h.owned.step h.registry h.known hev hok.1 hok.2⟩

/-- In such a run `hanlde_close` of a session removes the session's own entry, the
`on_session_closed` it posts finds the session's own handler, and no handler is told that another
session is closed. -/
theorem close_takes_own {threads keepAliveTime : Nat} {filter : Φ} {σ : System Φ}
    (hrun : Transition.Run (System.step F) ClosesApart (System.start threads keepAliveTime filter) σ) :
    (∀ c, ∀ e ∈ (σ.sessions c).trace.removed, e = c) ∧
      (∀ t c k, .on c (.onSessionClosed k) ∈ σ.tasks t → σ.getSessionHandler k = some c) ∧
      ∀ h c, .onClosed c ∈ (σ.handlers h).callbacks → c = h := by
  have hclosing : Closing σ :=
    hrun.invariant (fun hi hok hstep => hi.step hok hstep) (.start threads keepAliveTime filter)
  exact ⟨hclosing.owned.removed, hclosing.owned.closing, hclosing.owned.onClosed⟩

/-- A condition on a step that can be checked: only the sessions of accepted connections matter. -/
def OpensAloneBelow (σ : System Φ) (a : Act Φ) : Prop :=
  ∀ p ∈ σ.opening a, p.2 ≠ 0 ∧ ∀ d < σ.accepted, d ≠ p.1 →
    (σ.sessions d).ioThread = (σ.sessions p.1).ioThread → (σ.sessions d).sessionId = p.2 →
      σ.readsOf d = 0

instance (σ : System Φ) (a : Act Φ) : Decidable (OpensAloneBelow σ a) :=
  match h : σ.opening a with
  | none => isTrue fun p hp => by rw [h] at hp; cases hp
  | some p =>
    decidable_of_iff (p.2 ≠ 0 ∧ ∀ d < σ.accepted, d ≠ p.1 →
        (σ.sessions d).ioThread = (σ.sessions p.1).ioThread → (σ.sessions d).sessionId = p.2 →
          σ.readsOf d = 0)
      ⟨fun hp q hq => by rw [h] at hq; cases hq; exact hp, fun hall => hall p h⟩

theorem Known.opensAlone {σ : System Φ} (h : Known σ) {a : Act Φ} (ha : OpensAloneBelow σ a) :
    OpensAlone σ a := by
  intro c k hopening d hd hthread hid
  obtain ⟨hk, hbelow⟩ := ha (c, k) hopening
  by_cases hlt : d < σ.accepted
  · exact hbelow d hlt hd hthread hid
  · obtain ⟨filter, keepAliveTime, hnew⟩ := h.session d (Nat.le_of_not_lt hlt)
    rw [hnew] at hid
    exact absurd hid.symm hk

/-- A connection that is closed by its handler. -/
theorem close_takes_own_of_close :
    ∃ σ, ran [.acceptDone .success, .run 0 [[(0, .close)]] 0 (.new 0), .run 1 [] 0 (.new 0),
        .run 1 [] 0 (.new 0), .run 0 [] 0 (.new 0)] = some σ ∧
      ((σ.sessions 0).trace.removed = [0] ∧ (σ.handlers 0).callbacks = [.onConnected, .onClosed 0]) ∧
      ((∀ c, ∀ e ∈ (σ.sessions c).trace.removed, e = c) ∧
        (∀ t c k, .on c (.onSessionClosed k) ∈ σ.tasks t → σ.getSessionHandler k = some c) ∧
        ∀ h c, .onClosed c ∈ (σ.handlers h).callbacks → c = h) := by
  obtain ⟨σ, hσ, hview⟩ := Option.map_eq_some_iff.mp (show
    (ran [.acceptDone .success, .run 0 [[(0, .close)]] 0 (.new 0), .run 1 [] 0 (.new 0),
      .run 1 [] 0 (.new 0), .run 0 [] 0 (.new 0)]).map (fun σ =>
        ((σ.sessions 0).trace.removed, (σ.handlers 0).callbacks)) =
      some ([0], [.onConnected, .onClosed 0]) by decide +kernel)
  have hrun : Transition.Run (System.step _) ClosesApart (System.start 2 0 (.new 0)) σ :=
    Transition.run_of_exec_of_invariant (I := Closing)
      (P := fun σ a => Fresh σ a ∧ OpensAloneBelow σ a)
      (fun hi hok hstep => hi.step hok hstep) (fun hi ha => ⟨ha.1, hi.known.opensAlone ha.2⟩)
      (.start _ _ _) hσ (by decide +kernel)
  exact ⟨σ, hσ, Prod.mk.inj hview, close_takes_own hrun⟩

namespace Scene

/-- Connection 0 is closed while its `handle_read` is outstanding, and 4095 more connections come
and go. The next one draws id 1 again; then the read of connection 0 completes, and its
`hanlde_close` takes the entry of connection 4096. -/
theorem late_read_closes_another :
    ∃ σ, Transition.Reach (step codec) (start 2 0 (.new 0)) σ ∧
      4096 ∈ (σ.sessions 0).trace.removed ∧ .onClosed 0 ∈ (σ.handlers 4096).callbacks ∧
      (σ.sessions 4096).closed = false ∧ 1 ∈ σ.idGenerator.pools := by
  obtain ⟨s, hreach, hidle, hcount⟩ := exists_idle 4096 (Nat.le_refl _)
  obtain ⟨k, hk, hfirst⟩ := hidle.sessions 0 (by omega)
  obtain rfl : k = 1 := BitVec.eq_of_toNat_eq hk
  have hmem : (1 : TCPSessionID) ∈ s.idGenerator.pools := by
    have hcovers := (hidle.accounts.covers (k := 1)).mpr
      ⟨by decide, by rw [hidle.next, hcount]; decide⟩
    exact hcovers.resolve_left (by simp)
  -- the pool is full, so `get` may take 1 from it
  have hget : s.idGenerator.get 1 =
      some (1, { s.idGenerator with pools := s.idGenerator.pools.erase 1 }) := by
    rw [IDGenerator.get, if_pos (by rw [hidle.pooled, hidle.threshold, hcount])]
  let s₁ : Scene :=
    { s with accepting := false, main := s.main ++ [.handleAccept 1 (.new 0) .success] }
  let s₂ : Scene :=
    { ({ s₁ with main := [] } : Scene).connected 1
        { s.idGenerator with pools := s.idGenerator.pools.erase 1 } with
      load := 1
      accepting := true }
  let s₃ : Scene :=
    { s₂ with
      sessions := Function.update s₂.sessions s.accepted (opened 1)
      worker := []
      entries := s₂.entries.add 1 s.accepted }
  let x := readTaken (left 1 0)
  let s₄ : Scene :=
    { s₃ with
      sessions := Function.update s₃.sessions 0 x
      worker := s₃.worker ++ [.on 0 (.handleRead .eof [])] }
  let y := (x.handleRead codec 0 (some s.accepted) .eof []).1
  let s₅ : Scene :=
    { s₄ with
      sessions := Function.update s₄.sessions 0 y
      main := s₄.main ++ [.on 0 (.onSessionClosed 1)]
      worker := [.on 0 (.closeTimer .operationAborted)]
      entries := s₄.entries.erase 1 }
  let s₆ : Scene :=
    { s₅ with
      handlers := Function.update s₅.handlers s.accepted
        (workerHandler 0 [.onConnected, .onClosed 0] [])
      main := []
      registered := s₅.registered.erase 1
      load := 0
      idGenerator := s₅.idGenerator.put 1 }
  have h₁ : step codec s.system (.acceptDone .success) = some s₁.system :=
    accept_step s hidle.accepting
  have h₂ : step codec s₁.system (.run 0 [[]] 1 (.new 0)) = some s₂.system :=
    connect_step_open s₁ (congrArg (· ++ _) hidle.main) (fun _ => hmem) hget hidle.load
  have h₃ : step codec s₂.system (.run 1 [] 0 (.new 0)) = some s₃.system :=
    init_step s₂ (congrArg (· ++ _) hidle.worker) (Function.update_self ..) 0
  have hzero : (0 : Conn) ≠ s.accepted := by
    rw [hcount]
    decide
  have hold : s₃.sessions 0 = left 1 0 := by
    change Function.update (Function.update s.sessions _ _) _ _ 0 = _
    rw [Function.update_of_ne hzero, Function.update_of_ne hzero, hfirst]
  have h₄ : step codec s₃.system (.readDone 0 0 .eof []) = some s₄.system :=
    read_step s₃ 0 .eof [] hold rfl rfl rfl
  have hnone : s.entries.find 1 = none := by
    rw [hidle.entries]
    exact Table.find_empty 1
  have h₅ : step codec s₄.system (.run 1 [] 0 (.new 0)) = some s₅.system := by
    have hfound : s₄.entries.find 1 = some s.accepted := (Table.find_add hnone).trans (if_pos rfl)
    have hx : s₄.sessions 0 = x := Function.update_self 0 x s₃.sessions
    rw [handleRead_step s₄ rfl hx rfl hfound]
    exact congrArg some (Scene.onSession_leaves_again { s₄ with worker := [] } 0 (x := y) rfl)
  have hregistered : s.registered.find 1 = none := by
    rw [hidle.registered]
    exact Table.find_empty 1
  have h₆ : step codec s₅.system (.run 0 [] 0 (.new 0)) = some s₆.system :=
    closed_step s₅ rfl ((Table.find_add hregistered).trans (if_pos rfl)) (Function.update_self ..)
      rfl (by decide) 0
  refine ⟨s₆.system, step_trans (step_trans (step_trans (step_trans (step_trans (step_trans hreach
    h₁) h₂) h₃) h₄) h₅) h₆, ?_, ?_, ?_, ?_⟩
  · change 4096 ∈ (Function.update s₄.sessions 0 y 0).trace.removed
    rw [Function.update_self, ← hcount]
    exact List.mem_append_right _ List.mem_cons_self
  · change _ ∈ (Function.update s₅.handlers s.accepted _ 4096).callbacks
    rw [hcount, Function.update_self]
    exact List.mem_cons_of_mem _ List.mem_cons_self
  · have hother : s₆.sessions 4096 = s₃.sessions 4096 := by
      change Function.update (Function.update s₃.sessions 0 x) 0 y 4096 = _
      rw [Function.update_of_ne (by decide), Function.update_of_ne (by decide)]
    have hopened : s₃.sessions 4096 = opened 1 := by
      rw [← hcount]
      exact Function.update_self ..
    change (s₆.sessions 4096).closed = false
    rw [hother, hopened]
    rfl
  · exact Finset.mem_insert_self _ _

end Scene

end System
end EddyServer
