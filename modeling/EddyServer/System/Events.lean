import EddyServer.System.Basic
import EddyServer.Link.Events

/-!
# What a step of the server can do

`Calls` is what application code does in a callback or between tasks; `Event` lists the kinds of
steps. The invariants of the server are derived from them.
-/

namespace EddyServer

/-- The task does not change what is registered. -/
def Task.isPlain : Task → Bool
  | .init _ | .onSessionClosed _ => false
  | _ => true

namespace System

variable {Φ : Type} {F : MessageFilterInterface Φ}

/-! ## Effects -/

/-- The jobs that a list of effects of connection `c` posts to thread `t`. -/
def jobsTo (c : Conn) (t : ThreadIx) (effects : List Effect) : List (Job Φ) :=
  (Link.postsTo t effects).map (.on c)

/-- A queue of sessions after the effects of connection `c`, whose session has this id. -/
def entriesAfter (c : Conn) (id : TCPSessionID) :
    Table TCPSessionID Conn → List Effect → Table TCPSessionID Conn
  | entries, [] => entries
  | entries, .post _ _ :: effects => entriesAfter c id entries effects
  | entries, .queueAdd :: effects => entriesAfter c id (entries.add id c) effects
  | entries, .queueRemove :: effects => entriesAfter c id (entries.erase id) effects

theorem post_eq (σ : System Φ) (t : ThreadIx) (job : Job Φ) :
    σ.post t job = { σ with tasks := fun u => σ.tasks u ++ if t = u then [job] else [] } := by
  unfold post
  congr 1
  funext u
  by_cases h : t = u
  · subst h
    simp
  · simp [h, Function.update_of_ne (Ne.symm h)]

theorem foldl_effect (c : Conn) (σ : System Φ) (effects : List Effect) :
    effects.foldl (effect c) σ =
      { σ with
        tasks := fun t => σ.tasks t ++ jobsTo c t effects
        sessionQueue := Function.update σ.sessionQueue (σ.sessions c).ioThread
          (entriesAfter c (σ.sessions c).sessionId (σ.sessionQueue (σ.sessions c).ioThread)
            effects) } := by
  induction effects generalizing σ with
  | nil => simp [jobsTo, Link.postsTo, entriesAfter]
  | cons e effects ih =>
      rw [List.foldl_cons, ih]
      cases e with
      | queueAdd => simp [effect, jobsTo, Link.postsTo, entriesAfter]
      | queueRemove => simp [effect, jobsTo, Link.postsTo, entriesAfter]
      | post u task =>
          simp only [effect, post_eq, entriesAfter]
          congr 1
          funext t
          by_cases h : u = t <;> simp [jobsTo, Link.postsTo, h]

theorem onSession_eq (σ : System Φ) (c : Conn) (r : TCPSession Φ × List Effect) :
    σ.onSession c r =
      { σ with
        sessions := Function.update σ.sessions c r.1
        tasks := fun t => σ.tasks t ++ jobsTo c t r.2
        sessionQueue := Function.update σ.sessionQueue r.1.ioThread
          (entriesAfter c r.1.sessionId (σ.sessionQueue r.1.ioThread) r.2) } := by
  rw [onSession, foldl_effect]
  simp

theorem entriesAfter_of_posts (c : Conn) (id : TCPSessionID) (entries : Table TCPSessionID Conn)
    {effects : List Effect} (h : ∀ e ∈ effects, ∃ t task, e = .post t task) :
    entriesAfter c id entries effects = entries := by
  induction effects with
  | nil => rfl
  | cons e effects ih =>
      obtain ⟨t, task, rfl⟩ := h e List.mem_cons_self
      exact ih fun e he => h e (List.mem_cons_of_mem _ he)

theorem mem_jobsTo {c : Conn} {t : ThreadIx} {effects : List Effect} {job : Job Φ} :
    job ∈ jobsTo c t effects ↔ ∃ task, .post t task ∈ effects ∧ job = .on c task := by
  induction effects with
  | nil => simp [jobsTo, Link.postsTo]
  | cons e effects ih =>
      cases e with
      | queueAdd => simpa [jobsTo, Link.postsTo] using ih
      | queueRemove => simpa [jobsTo, Link.postsTo] using ih
      | post u task =>
          by_cases hu : u = t
          · subst hu
            simp only [jobsTo, Link.postsTo, if_pos, List.map_cons, List.mem_cons] at ih ⊢
            rw [ih]
            constructor
            · rintro (rfl | ⟨task', hmem, rfl⟩)
              · exact ⟨task, .inl rfl, rfl⟩
              · exact ⟨task', .inr hmem, rfl⟩
            · rintro ⟨task', heq | hmem, rfl⟩
              · cases heq
                exact .inl rfl
              · exact .inr ⟨task', hmem, rfl⟩
          · simp only [jobsTo, Link.postsTo, if_neg hu] at ih ⊢
            rw [ih]
            simp [Ne.symm hu]

/-- A function of session `c` that only posts. -/
theorem onSession_of_posts {σ : System Φ} {c : Conn} {r : TCPSession Φ × List Effect}
    (h : ∀ e ∈ r.2, ∃ t task, e = .post t task) :
    σ.onSession c r =
      { σ with
        sessions := Function.update σ.sessions c r.1
        tasks := fun t => σ.tasks t ++ jobsTo c t r.2 } := by
  rw [onSession_eq, entriesAfter_of_posts c _ _ h, Function.update_eq_self]

theorem entriesAfter_leaving (c : Conn) (id : TCPSessionID) (entries : Table TCPSessionID Conn)
    (s : TCPSession Φ) : entriesAfter c id entries s.leaving = entries.erase id := by
  rcases s.cancelTimer_cases with hnil | hone
  · simp [TCPSession.leaving, hnil, entriesAfter]
  · simp [TCPSession.leaving, hone, entriesAfter]

/-- A session that leaves its queue posts its close, and a cancelled wait that is no such job. -/
theorem mem_jobsTo_leaving {c : Conn} {t : ThreadIx} {s : TCPSession Φ} {job : Job Φ}
    (h : job ∈ jobsTo c t s.leaving) :
    t = mainThread ∧ job = .on c (.onSessionClosed s.sessionId) ∨
      job = .on c (.closeTimer .operationAborted) := by
  obtain ⟨task, hmem, rfl⟩ := List.mem_map.mp h
  rcases Link.mem_postsTo_leaving hmem with ⟨ht, rfl⟩ | ⟨-, rfl⟩
  · exact .inl ⟨ht, rfl⟩
  · exact .inr rfl

theorem countP_jobsTo_leaving (c : Conn) (t : ThreadIx) (s : TCPSession Φ) {p : Job Φ → Bool}
    (hp : p (.on c (.closeTimer .operationAborted)) = false) :
    (jobsTo c t s.leaving).countP p =
      if mainThread = t ∧ p (.on c (.onSessionClosed s.sessionId)) = true then 1 else 0 := by
  obtain ⟨aborted, haborted, hposts⟩ := Link.postsTo_leaving s t
  have hzero : (aborted.map (Job.on c)).countP p = 0 := by
    refine List.countP_eq_zero.mpr fun job hjob htrue => ?_
    obtain ⟨task, hmem, rfl⟩ := List.mem_map.mp hjob
    rw [(haborted task hmem).2, hp] at htrue
    cases htrue
  rw [jobsTo, hposts, List.map_append, List.countP_append, hzero]
  by_cases ht : mainThread = t
  · simp [ht, List.countP_singleton]
  · simp [ht]

/-- A function of session `c` that takes it out of its queue. -/
theorem onSession_of_leaves {σ : System Φ} {c : Conn} {r : TCPSession Φ × List Effect}
    {s : TCPSession Φ} (h : r.2 = s.leaving) :
    σ.onSession c r =
      { σ with
        sessions := Function.update σ.sessions c r.1
        tasks := fun t => σ.tasks t ++ jobsTo c t s.leaving
        sessionQueue := Function.update σ.sessionQueue r.1.ioThread
          ((σ.sessionQueue r.1.ioThread).erase r.1.sessionId) } := by
  rw [onSession_eq, h, entriesAfter_leaving]

/-- A function of session `c` that adds it to its queue. -/
theorem onSession_of_adds {σ : System Φ} {c : Conn} {r : TCPSession Φ × List Effect}
    (h : r.2 = [.queueAdd]) :
    σ.onSession c r =
      { σ with
        sessions := Function.update σ.sessions c r.1
        sessionQueue := Function.update σ.sessionQueue r.1.ioThread
          ((σ.sessionQueue r.1.ioThread).add r.1.sessionId c) } := by
  rw [onSession_eq, h]
  simp [entriesAfter, jobsTo, Link.postsTo]

theorem getSession_of_leaves {σ : System Φ} {c : Conn} {r : TCPSession Φ × List Effect}
    {s : TCPSession Φ} (h : r.2 = s.leaving) (t : ThreadIx) (k' : TCPSessionID) :
    (σ.onSession c r).getSession t k' =
      if t = r.1.ioThread ∧ k' = r.1.sessionId then none else σ.getSession t k' := by
  rw [onSession_of_leaves h]
  exact Table.find_update_erase

theorem getSession_of_adds {σ : System Φ} {c : Conn} {r : TCPSession Φ × List Effect}
    (h : r.2 = [.queueAdd]) (hnone : σ.getSession r.1.ioThread r.1.sessionId = none)
    (t : ThreadIx) (k : TCPSessionID) :
    (σ.onSession c r).getSession t k =
      if t = r.1.ioThread ∧ k = r.1.sessionId then some c else σ.getSession t k := by
  rw [onSession_of_adds h]
  exact Table.find_update_add hnone

/-- Thread `t` has taken a task and left `rest`. -/
def popped (σ : System Φ) (t : ThreadIx) (rest : List (Job Φ)) : System Φ :=
  { σ with tasks := Function.update σ.tasks t rest }

/-! ## A new connection -/

theorem countP_append_of_false {p : Job Φ → Bool} {jobs more : List (Job Φ)}
    (h : ∀ job ∈ more, p job = false) : (jobs ++ more).countP p = jobs.countP p := by
  have hzero : more.countP p = 0 := by
    rw [List.countP_eq_zero]
    intro job hjob htrue
    rw [h job hjob] at htrue
    cases htrue
  rw [List.countP_append, hzero, Nat.add_zero]

section Register

variable {σ : System Φ} {s : TCPSession Φ} {k : TCPSessionID} {generator : IDGenerator 32}

theorem session_register : (σ.register s k generator).sessions σ.accepted = s :=
  Function.update_self ..

theorem session_register_of_ne {c : Conn} (hc : c ≠ σ.accepted) :
    (σ.register s k generator).sessions c = σ.sessions c :=
  Function.update_of_ne hc _ _

theorem handler_register : (σ.register s k generator).handlers σ.accepted =
    TCPSessionHandler.new.init k (threadId s.ioThread) :=
  Function.update_self ..

theorem handler_register_of_ne {c : Conn} (hc : c ≠ σ.accepted) :
    (σ.register s k generator).handlers c = σ.handlers c :=
  Function.update_of_ne hc _ _

theorem getSessionHandler_register (hfresh : σ.getSessionHandler k = none) (k' : TCPSessionID) :
    (σ.register s k generator).getSessionHandler k' =
      if k' = k then some σ.accepted else σ.getSessionHandler k' :=
  Table.find_add hfresh

theorem tasks_register (t : ThreadIx) : (σ.register s k generator).tasks t =
    σ.tasks t ++ if s.ioThread = t then [.on σ.accepted (.init k)] else [] := by
  rw [register, post_eq]

/-- The registration posts `init` to the thread of the session, and nothing else. -/
theorem mem_tasks_register {t : ThreadIx} {job : Job Φ}
    (hjob : job ∈ (σ.register s k generator).tasks t) :
    job ∈ σ.tasks t ∨ s.ioThread = t ∧ job = .on σ.accepted (.init k) := by
  rw [tasks_register] at hjob
  refine (List.mem_append.mp hjob).imp_right fun hnew => ?_
  split_ifs at hnew with ht
  · exact ⟨ht, List.mem_singleton.mp hnew⟩
  · cases hnew

theorem countP_tasks_register {p : Job Φ → Bool} (hp : p (.on σ.accepted (.init k)) = false)
    (t : ThreadIx) : ((σ.register s k generator).tasks t).countP p = (σ.tasks t).countP p := by
  rw [tasks_register]
  refine countP_append_of_false fun job hjob => ?_
  split_ifs at hjob
  · rw [List.mem_singleton.mp hjob, hp]
  · cases hjob

end Register

/-! ## Calls of the application -/

/-- The tasks that functions of handler `h` post: flushes of its buffer to the main thread, batches
and close requests to the thread of its session. -/
def HandlerTask (threads : Nat) (h : TCPSessionHandler) (t : ThreadIx) (task : Task) : Prop :=
  t = mainThread ∧ h.isClosed = false ∧
      (task = .handlerPackMessageList ∨ task = .handlerSendMessageListDirectly) ∨
    getThread threads h.threadId = some t ∧
      ((∃ messages, task = .sendMessageListToSession h.sessionId messages) ∨
        task = .closeSession h.sessionId)

/-- What running a function of handler `h` can make of it. -/
structure HandlerMove (threads : Nat) (h : TCPSessionHandler)
    (r : TCPSessionHandler × List Effect) : Prop where
  sessionId : r.1.sessionId = h.sessionId
  threadId : r.1.threadId = h.threadId
  callbacks : r.1.callbacks = h.callbacks
  posts : ∀ e ∈ r.2, ∃ t task, e = .post t task ∧ HandlerTask threads h t task

theorem handlerMove_packMessageList (threads : Nat) (h : TCPSessionHandler) :
    HandlerMove threads h (h.packMessageList (getThread threads)) := by
  unfold TCPSessionHandler.packMessageList
  split_ifs
  · exact ⟨rfl, rfl, rfl, nofun⟩
  · cases hget : getThread threads h.threadId with
    | none => exact ⟨rfl, rfl, rfl, nofun⟩
    | some t =>
        refine ⟨rfl, rfl, rfl, fun e he => ?_⟩
        cases List.mem_singleton.mp he
        exact ⟨t, _, rfl, .inr ⟨hget, .inl ⟨_, rfl⟩⟩⟩

theorem handlerMove_send (threads : Nat) (h : TCPSessionHandler) (m : NetMessage) :
    HandlerMove threads h (h.send m) := by
  unfold TCPSessionHandler.send
  split_ifs with hclosed
  · exact ⟨rfl, rfl, rfl, nofun⟩
  · exact ⟨rfl, rfl, rfl, nofun⟩
  · refine ⟨rfl, rfl, rfl, fun e he => ?_⟩
    cases List.mem_singleton.mp he
    exact ⟨_, _, rfl, .inl ⟨rfl, by simpa using hclosed, .inr rfl⟩⟩
  · refine ⟨rfl, rfl, rfl, fun e he => ?_⟩
    cases List.mem_singleton.mp he
    exact ⟨_, _, rfl, .inl ⟨rfl, by simpa using hclosed, .inl rfl⟩⟩
  · exact ⟨rfl, rfl, rfl, nofun⟩

theorem handlerMove_close (threads : Nat) (h : TCPSessionHandler) :
    HandlerMove threads h (h.close (getThread threads)) := by
  have hpack := handlerMove_packMessageList threads h
  unfold TCPSessionHandler.close
  split_ifs
  · exact ⟨rfl, rfl, rfl, nofun⟩
  · cases hget : getThread threads h.threadId with
    | none => exact hpack
    | some t =>
        refine ⟨hpack.sessionId, hpack.threadId, hpack.callbacks, fun e he => ?_⟩
        rcases List.mem_append.mp he with hp | hc
        · exact hpack.posts e hp
        · cases List.mem_singleton.mp hc
          exact ⟨t, _, rfl, .inr ⟨hget, .inr rfl⟩⟩

theorem handlerMove_call (threads : Nat) (h : TCPSessionHandler) (c : Call) :
    HandlerMove threads h (h.call (getThread threads) c) := by
  -- the record of calls is not looked at
  obtain ⟨calls, hcalls⟩ : ∃ calls, (if h.isClosed then h else { h with calls := h.calls ++ [c] }) =
      { h with calls := calls } := by
    split_ifs
    · exact ⟨h.calls, rfl⟩
    · exact ⟨h.calls ++ [c], rfl⟩
  unfold TCPSessionHandler.call
  rw [hcalls]
  cases c with
  | send m =>
      have hm := handlerMove_send threads { h with calls := calls } m
      exact ⟨hm.sessionId, hm.threadId, hm.callbacks, hm.posts⟩
  | close =>
      have hm := handlerMove_close threads { h with calls := calls }
      exact ⟨hm.sessionId, hm.threadId, hm.callbacks, hm.posts⟩

/-- The jobs that functions of handlers post. -/
def CallJob (σ : System Φ) (t : ThreadIx) (job : Job Φ) : Prop :=
  ∃ h task, job = .on h task ∧ HandlerTask σ.threads (σ.handlers h) t task

/-- Handlers have received the callbacks `cbs`, and application code has called handlers any number
of times: nothing changes but the buffers and records of handlers, and only jobs of calls are
posted. -/
structure Calls (cbs : List (Conn × Callback)) (σ σ' : System Φ) : Prop where
  same : ∃ handlers tasks, σ' = { σ with handlers := handlers, tasks := tasks }
  sessionId : ∀ h, (σ'.handlers h).sessionId = (σ.handlers h).sessionId
  threadId : ∀ h, (σ'.handlers h).threadId = (σ.handlers h).threadId
  callbacks : ∀ h, (σ'.handlers h).callbacks =
    (σ.handlers h).callbacks ++ (cbs.filter fun cb => cb.1 == h).map Prod.snd
  tasks : ∀ t, ∃ more, σ'.tasks t = σ.tasks t ++ more ∧ ∀ job ∈ more, CallJob σ t job

theorem Calls.refl (σ : System Φ) : Calls [] σ σ :=
  ⟨⟨σ.handlers, σ.tasks, rfl⟩, fun _ => rfl, fun _ => rfl, by simp, fun _ => ⟨[], by simp, by simp⟩⟩

theorem CallJob.back {σ τ : System Φ} {t : ThreadIx} {job : Job Φ} (h : CallJob τ t job)
    (hthreads : τ.threads = σ.threads)
    (hsessionId : ∀ h, (τ.handlers h).sessionId = (σ.handlers h).sessionId)
    (hthreadId : ∀ h, (τ.handlers h).threadId = (σ.handlers h).threadId) : CallJob σ t job := by
  obtain ⟨h, task, rfl, hjob⟩ := h
  refine ⟨h, task, rfl, ?_⟩
  unfold HandlerTask TCPSessionHandler.isClosed at hjob ⊢
  rwa [hthreads, hsessionId, hthreadId] at hjob

theorem Calls.trans {cbs cbs' : List (Conn × Callback)} {σ τ υ : System Φ} (h : Calls cbs σ τ)
    (h' : Calls cbs' τ υ) : Calls (cbs ++ cbs') σ υ where
  same := by
    obtain ⟨_, _, rfl⟩ := h.same
    obtain ⟨handlers, tasks, rfl⟩ := h'.same
    exact ⟨handlers, tasks, rfl⟩
  sessionId c := (h'.sessionId c).trans (h.sessionId c)
  threadId c := (h'.threadId c).trans (h.threadId c)
  callbacks c := by
    rw [h'.callbacks, h.callbacks, List.filter_append, List.map_append, List.append_assoc]
  tasks t := by
    obtain ⟨more, heq, hmore⟩ := h.tasks t
    obtain ⟨more', heq', hmore'⟩ := h'.tasks t
    refine ⟨more ++ more', by rw [heq', heq, List.append_assoc], fun job hjob => ?_⟩
    rcases List.mem_append.mp hjob with hm | hm
    · exact hmore job hm
    · have hthreads : τ.threads = σ.threads := by
        obtain ⟨_, _, rfl⟩ := h.same
        rfl
      exact (hmore' job hm).back hthreads h.sessionId h.threadId

theorem calls_onHandler {σ : System Φ} {c : Conn} {r : TCPSessionHandler × List Effect}
    (h : HandlerMove σ.threads (σ.handlers c) r) : Calls [] σ (σ.onHandler c r) := by
  have hentries : ∀ (d : Conn) id entries, entriesAfter d id entries r.2 = entries :=
    fun d id entries => entriesAfter_of_posts d id entries fun e he =>
      (h.posts e he).imp fun t ht => ht.imp fun task htask => htask.1
  have heq : σ.onHandler c r =
      { σ with
        handlers := Function.update σ.handlers c r.1
        tasks := fun t => σ.tasks t ++ jobsTo c t r.2 } := by
    rw [onHandler, foldl_effect, hentries, Function.update_eq_self]
  rw [heq]
  refine ⟨⟨_, _, rfl⟩, fun d => ?_, fun d => ?_, fun d => ?_, fun t => ⟨_, rfl, fun job hjob => ?_⟩⟩
  · by_cases hd : d = c
    · subst hd; simpa using h.sessionId
    · simp [Function.update_of_ne hd]
  · by_cases hd : d = c
    · subst hd; simpa using h.threadId
    · simp [Function.update_of_ne hd]
  · by_cases hd : d = c
    · subst hd; simpa using h.callbacks
    · simp [Function.update_of_ne hd]
  · obtain ⟨task, hmem, rfl⟩ := mem_jobsTo.mp hjob
    obtain ⟨u, task', heq, hcall⟩ := h.posts _ hmem
    cases heq
    exact ⟨c, task, rfl, hcall⟩

theorem calls_runScript (σ : System Φ) (script : Script) : Calls [] σ (σ.runScript script) := by
  induction script generalizing σ with
  | nil => exact .refl σ
  | cons c script ih => exact (calls_onHandler (handlerMove_call _ _ c.2)).trans (ih (σ.call c))

theorem calls_callback (σ : System Φ) (h : Conn) (cb : Callback) (script : Script) :
    Calls [(h, cb)] σ (σ.callback h cb script) := by
  have hcb : Calls [(h, cb)] σ
      { σ with
        handlers := Function.update σ.handlers h
          { σ.handlers h with callbacks := (σ.handlers h).callbacks ++ [cb] } } := by
    refine ⟨⟨_, _, rfl⟩, fun d => ?_, fun d => ?_, fun d => ?_, fun t => ⟨[], by simp, by simp⟩⟩ <;>
      by_cases hd : d = h
    · subst hd; simp
    · simp [Function.update_of_ne hd]
    · subst hd; simp
    · simp [Function.update_of_ne hd]
    · subst hd; simp
    · simp [Function.update_of_ne hd, Ne.symm hd]
  exact hcb.trans (calls_runScript _ script)

theorem calls_deliver (σ : System Φ) (h c : Conn) (messages : List NetMessage)
    (scripts : List Script) :
    Calls (messages.map fun m => (h, .onMessage c m)) σ (σ.deliver h c messages scripts) := by
  induction messages generalizing σ scripts with
  | nil => exact .refl σ
  | cons m messages ih =>
      exact (calls_callback σ h (.onMessage c m) (scripts.headD [])).trans (ih _ scripts.tail)

/-! ## Kinds of steps -/

/-- The id that a step draws for a new connection. -/
def drawn (σ : System Φ) : Act Φ → Option TCPSessionID
  | .run t _ first _ =>
    match σ.tasks t with
    | .handleAccept _ _ .success :: _ =>
      if σ.idGenerator.Offers first then (σ.idGenerator.get first).map Prod.fst else none
    | _ => none
  | _ => none

/-- The session that a step lets run `init`, and the id it is given. -/
def opening (σ : System Φ) : Act Φ → Option (Conn × TCPSessionID)
  | .run t _ _ _ =>
    match σ.tasks t with
    | .on c (.init id) :: _ => some (c, id)
    | _ => none
  | _ => none

theorem get_of_drawn {σ : System Φ} {a : Act Φ} {id : TCPSessionID} (h : σ.drawn a = some id) :
    ∃ first generator, σ.idGenerator.Offers first ∧
      σ.idGenerator.get first = some (id, generator) := by
  unfold drawn at h
  split at h
  · split at h
    · split_ifs at h with hoffers
      obtain ⟨⟨k, generator⟩, hget, rfl⟩ := Option.map_eq_some_iff.mp h
      exact ⟨_, generator, hoffers, hget⟩
    · cases h
  · cases h

/-- An operation of the session is outstanding. -/
def Outstanding (s : TCPSession Φ) : Prop :=
  s.socket.reads ≠ [] ∨ s.socket.writing ≠ [] ∨ s.closeTimer = .waiting

/-- The kinds of steps. -/
inductive Event (F : MessageFilterInterface Φ) (σ : System Φ) (a : Act Φ) : System Φ → Prop
  /-- A function of session `d` has run. -/
  | move (t : ThreadIx) (c d : Conn) (task : Task) (rest : List (Job Φ))
      (r : TCPSession Φ × List Effect) : σ.tasks t = .on c task :: rest → task.ofSession = true →
      (d = c ∨ σ.target t c task = some d) →
      TCPSession.Move (σ.sessions d) (σ.found d) task r →
      Event F σ a ((σ.popped t rest).onSession d r)
  /-- Session `c` has run `init`. -/
  | opens (t : ThreadIx) (c : Conn) (id : TCPSessionID) (rest : List (Job Φ))
      (r : TCPSession Φ × List Effect) : σ.tasks t = .on c (.init id) :: rest →
      σ.opening a = some (c, id) → TCPSession.Opens (σ.sessions c) id r →
      Event F σ a ((σ.popped t rest).onSession c r)
  /-- Session `d` has been given a batch of handler `c`. -/
  | posts (t : ThreadIx) (c d : Conn) (task : Task) (rest : List (Job Φ))
      (messages : List NetMessage) (s : TCPSession Φ) (buffer : List NetMessage) :
      σ.tasks t = .on c task :: rest → σ.target t c task = some d →
      TCPSession.Posts F (σ.sessions d) messages s →
      Event F σ a
        { σ.popped t rest with
          sessions := Function.update σ.sessions d s
          handlers := Function.update σ.handlers c
            { σ.handlers c with messagesToBeSent := buffer } }
  /-- A task has done nothing but what calls do. If it is a flush of what session `c` has received,
  the session is on the main thread and has no handler. -/
  | plain {σ' : System Φ} (t : ThreadIx) (c : Conn) (task : Task) (rest : List (Job Φ)) :
      σ.tasks t = .on c task :: rest → task.isPlain = true → task.isCompletion = false →
      Calls [] (σ.popped t rest) σ' →
      (∀ u, task = TCPSession.flushTask u →
        u = mainThread ∧ σ.getSessionHandler (σ.sessions c).sessionId = none) →
      Event F σ a σ'
  /-- Handler `h` has received a batch of session `c`. -/
  | deliver {σ' : System Φ} (t : ThreadIx) (c h : Conn) (id : TCPSessionID)
      (messages : List NetMessage) (rest : List (Job Φ)) :
      σ.tasks t = .on c (.sendMessageListToHandler id messages) :: rest →
      σ.getSessionHandler id = some h →
      Calls (messages.map fun m => (h, .onMessage c m)) (σ.popped t rest) σ' → Event F σ a σ'
  /-- Handler `h` has received what session `c` on the main thread has read. -/
  | deliverDirectly {τ : System Φ} (t : ThreadIx) (c h : Conn) (rest : List (Job Φ)) :
      σ.tasks t = .on c .sessionSendMessageListDirectly :: rest →
      σ.getSessionHandler (σ.sessions c).sessionId = some h →
      Calls ((σ.sessions c).messagesReceived.map fun m => (h, .onMessage c m)) (σ.popped t rest) τ →
      Event F σ a
        { τ with
          sessions := Function.update τ.sessions c { τ.sessions c with messagesReceived := [] } }
  /-- `on_session_closed` has disposed of handler `h`. -/
  | closed {τ : System Φ} (t : ThreadIx) (c h : Conn) (id : TCPSessionID) (rest : List (Job Φ))
      (threadLoad : List Nat) : σ.tasks t = .on c (.onSessionClosed id) :: rest →
      σ.getSessionHandler id = some h → Calls [(h, .onClosed c)] (σ.popped t rest) τ →
      Event F σ a
        { τ.unregister h id with
          threadLoad := threadLoad
          idGenerator := if id = 0 then τ.idGenerator else τ.idGenerator.put id }
  /-- `on_session_closed` has found no handler. -/
  | unknown (t : ThreadIx) (c : Conn) (id : TCPSessionID) (rest : List (Job Φ))
      (generator : IDGenerator 32) : σ.tasks t = .on c (.onSessionClosed id) :: rest →
      σ.getSessionHandler id = none →
      Event F σ a { σ.popped t rest with idGenerator := generator }
  /-- A connection has been accepted. -/
  | connect {τ : System Φ} (t u : ThreadIx) (filter : Φ) (first id : TCPSessionID)
      (rest : List (Job Φ)) (generator : IDGenerator 32) (threadLoad : List Nat)
      (accepting : Option (ThreadIx × Φ)) : σ.tasks t = .handleAccept u filter .success :: rest →
      σ.drawn a = some id → σ.idGenerator.Offers first →
      σ.idGenerator.get first = some (id, generator) →
      Calls [(σ.accepted, .onConnected)]
        ((σ.popped t rest).register (.new u filter σ.keepAliveTime) id generator) τ →
      Event F σ a { τ with threadLoad := threadLoad, accepting := accepting }
  /-- An operation has completed, or a check is due. -/
  | complete (t : ThreadIx) (c : Conn) (task : Task) (s : TCPSession Φ) :
      TCPSession.Completes (σ.sessions c) task s →
      (t = (σ.sessions c).ioThread ∧ Outstanding (σ.sessions c) ∨
        task = .close ∧ ∃ id, σ.getSession t id = some c) →
      Event F σ a (({ σ with sessions := Function.update σ.sessions c s } : System Φ).post t
        (.on c task))
  /-- `async_accept` has completed. -/
  | accept (t : ThreadIx) (filter : Φ) (error : ErrorCode) :
      Event F σ a (({ σ with accepting := none } : System Φ).post mainThread
        (.handleAccept t filter error))
  /-- `handle_accept` has been given an error. -/
  | refuse (t u : ThreadIx) (filter : Φ) (error : ErrorCode) (rest : List (Job Φ)) :
      σ.tasks t = .handleAccept u filter error :: rest → Event F σ a (σ.popped t rest)
  /-- Application code has run on the main thread. -/
  | logic {σ' : System Φ} : Calls [] σ σ' → Event F σ a σ'
  | tick (clock : Nat) : Event F σ a { σ with clock := clock }

theorem changeLoad_eq (σ : System Φ) (tid : IOThreadID) (f : Nat → Nat) :
    ∃ threadLoad, σ.changeLoad tid f = { σ with threadLoad := threadLoad } := by
  unfold changeLoad
  split_ifs
  · exact ⟨_, rfl⟩
  · exact ⟨σ.threadLoad, rfl⟩

/-- What `on_session_connected` does after it has registered the handler: a callback, and the load
of the session's thread. -/
theorem onSessionConnected_eq (σ : System Φ) (session : TCPSession Φ) (id : TCPSessionID)
    (generator : IDGenerator 32) (script : Script) :
    ∃ τ, Calls [(σ.accepted, .onConnected)] (σ.register session id generator) τ ∧
      σ.onSessionConnected session id generator script =
        { τ with threadLoad := σ.threadLoad.modify session.ioThread (· + 1) } := by
  have hcalls := calls_callback (σ.register session id generator) σ.accepted .onConnected script
  refine ⟨_, hcalls, ?_⟩
  rw [onSessionConnected]
  generalize callback _ _ _ _ = τ at hcalls ⊢
  have hthread : (τ.handlers σ.accepted).threadId = threadId session.ioThread := by
    rw [hcalls.threadId, register, post]
    simp [TCPSessionHandler.init]
  have hload : τ.threadLoad = σ.threadLoad := by
    obtain ⟨_, _, rfl⟩ := hcalls.same
    rfl
  have hpos : threadId session.ioThread > 0 := Nat.succ_pos _
  rw [changeLoad, hthread, if_pos hpos, hload]
  rfl

/-- A task that is taken from a queue. -/
theorem event_of_exec {σ σ' : System Φ} {t : ThreadIx} {c : Conn} {task : Task}
    {rest : List (Job Φ)} {scripts : List Script} (ht : σ.tasks t = .on c task :: rest)
    (h : exec F (σ.popped t rest) t c scripts task = some σ') (first : TCPSessionID) (filter : Φ) :
    Event F σ (.run t scripts first filter) σ' := by
  have hother : ∀ {task' : Task}, task'.isFlush = false → ∀ u, task' = TCPSession.flushTask u →
      u = mainThread ∧ σ.getSessionHandler (σ.sessions c).sessionId = none :=
    fun hflush u hu => absurd hu (TCPSession.ne_flushTask hflush u)
  cases task with
  | init id =>
      cases h
      exact .opens t c id rest _ ht (by simp [opening, ht]) (TCPSession.init_opens F _ _ id)
  | handleRead error data =>
      cases h
      exact .move t c c _ rest _ ht rfl (.inl rfl) (TCPSession.move_handleRead F _ _ _ error data)
  | hanldeWrite error =>
      cases h
      exact .move t c c _ rest _ ht rfl (.inl rfl) (TCPSession.move_hanldeWrite _ _ error)
  | handleSafeClose error data =>
      cases h
      exact .move t c c _ rest _ ht rfl (.inl rfl) (TCPSession.move_handleSafeClose _ _ error data)
  | closeTimer error =>
      obtain ⟨s, hs, rfl⟩ := Option.map_eq_some_iff.mp h
      exact .move t c c _ rest _ ht rfl (.inl rfl) (TCPSession.move_closeTimerExpired _ hs)
  | close =>
      cases h
      exact .move t c c _ rest _ ht rfl (.inl rfl) (TCPSession.move_close _ rfl rfl rfl _)
  | sessionPackMessageList =>
      cases h
      exact .move t c c _ rest _ ht rfl (.inl rfl) (TCPSession.move_packMessageList _ _)
  | sessionSendMessageListDirectly =>
      cases h
      unfold sessionSendMessageListDirectly
      cases hh : (σ.popped t rest).getSessionHandler ((σ.popped t rest).sessions c).sessionId with
      | none =>
          refine .plain t c _ rest ht rfl rfl (.refl _) fun u hu => ⟨?_, hh⟩
          unfold TCPSession.flushTask at hu
          split_ifs at hu with hmain
          exact threadId_inj.mp hmain
      -- The list is cleared after the callbacks.
      | some h => exact .deliverDirectly t c h rest ht hh (calls_deliver _ h c _ scripts)
  | sendMessageListToHandler id messages =>
      cases h
      unfold sendMessageListToHandler
      cases hh : (σ.popped t rest).getSessionHandler id with
      | none =>
          exact .plain t c _ rest ht rfl rfl (.refl _) (hother rfl)
      | some h => exact .deliver t c h id messages rest ht hh (calls_deliver _ h c messages scripts)
  | onSessionClosed id =>
      cases h
      unfold onSessionClosed
      cases hh : (σ.popped t rest).getSessionHandler id with
      | none =>
          -- No handler under the id: it is put back all the same.
          dsimp only
          split_ifs
          · exact .unknown t c id rest _ ht hh
          · exact .unknown t c id rest _ ht hh
      | some h =>
          have hcalls := calls_callback (σ.popped t rest) h (.onClosed c) (scripts.headD [])
          dsimp only
          -- The load is that of the thread the handler had before the callback.
          generalize (σ.popped t rest).callback h (.onClosed c) (scripts.headD []) = τ at hcalls ⊢
          obtain ⟨threadLoad, hload⟩ := changeLoad_eq (τ.unregister h id)
            ((σ.popped t rest).handlers h).threadId fun load => if load > 0 then load - 1 else load
          have hev := Event.closed (F := F) (a := Act.run t scripts first filter) t c h id rest
            threadLoad ht hh hcalls
          rw [hload]
          split_ifs at hev ⊢ <;> exact hev
  | handlerPackMessageList =>
      cases h
      exact .plain t c _ rest ht rfl rfl (calls_onHandler (handlerMove_packMessageList _ _))
        (hother rfl)
  | handlerSendMessageListDirectly =>
      change handlerSendMessageListDirectly F (σ.popped t rest) t c = some σ' at h
      unfold handlerSendMessageListDirectly at h
      cases hd : (σ.popped t rest).target t c .handlerSendMessageListDirectly with
      | none =>
          rw [hd] at h
          cases h
          exact .plain t c _ rest ht rfl rfl (.refl _) (hother rfl)
      | some d =>
          rw [hd] at h
          obtain ⟨τ, hτ, rfl⟩ := Option.map_eq_some_iff.mp h
          obtain ⟨s, hs, rfl⟩ := Option.map_eq_some_iff.mp hτ
          exact .posts t c d _ rest _ s [] ht hd (TCPSession.postMessageList_posts F hs)
  | sendMessageListToSession id messages =>
      change sendMessageListToSession F (σ.popped t rest) t c id messages = some σ' at h
      unfold sendMessageListToSession at h
      cases hd : (σ.popped t rest).target t c (.sendMessageListToSession id messages) with
      | none =>
          rw [hd] at h
          cases h
          exact .plain t c _ rest ht rfl rfl (.refl _) (hother rfl)
      | some d =>
          rw [hd] at h
          obtain ⟨s, hs, rfl⟩ := Option.map_eq_some_iff.mp h
          have hev := Event.posts (F := F) (a := Act.run t scripts first filter) t c d _ rest _ s
            (σ.handlers c).messagesToBeSent ht hd (TCPSession.postMessageList_posts F hs)
          -- The handler keeps its buffer: this task brings its own batch.
          have hsame : Function.update σ.handlers c
              { σ.handlers c with messagesToBeSent := (σ.handlers c).messagesToBeSent } =
                σ.handlers := Function.update_eq_self c σ.handlers
          rwa [hsame] at hev
  | closeSession id =>
      cases h
      unfold closeSession
      cases hd : (σ.popped t rest).target t c (.closeSession id) with
      | none =>
          exact .plain t c _ rest ht rfl rfl (.refl _) (hother rfl)
      | some d =>
          exact .move t c d _ rest _ ht rfl (.inr hd) (TCPSession.move_close _ rfl rfl rfl _)

theorem event_of_handleAccept {σ σ' : System Φ} {t u : ThreadIx} {scripts : List Script}
    {first : TCPSessionID} {filter nextFilter : Φ} {error : ErrorCode} {rest : List (Job Φ)}
    (ht : σ.tasks t = .handleAccept u filter error :: rest) (hoffers : σ.idGenerator.Offers first)
    (h : handleAccept (σ.popped t rest) u filter error first (scripts.headD []) nextFilter =
      some σ') : Event F σ (.run t scripts first nextFilter) σ' := by
  unfold handleAccept at h
  split_ifs at h with herror
  · cases h
    exact .refuse t u filter error rest ht
  · obtain rfl : error = .success := not_not.mp herror
    obtain ⟨⟨id, generator⟩, hget, rfl⟩ := Option.map_eq_some_iff.mp h
    have hget' : σ.idGenerator.get first = some (id, generator) := hget
    have hdrawn : σ.drawn (.run t scripts first nextFilter) = some id := by
      simp [drawn, ht, hget', hoffers]
    obtain ⟨τ, hcalls, heq⟩ := onSessionConnected_eq (σ.popped t rest)
      (.new u filter σ.keepAliveTime) id generator (scripts.headD [])
    dsimp only
    rw [show (σ.popped t rest).onSessionConnected
      (.new u filter (σ.popped t rest).keepAliveTime) id generator (scripts.headD []) = _ from heq]
    exact .connect (τ := τ) t u filter first id rest generator _ _ ht hdrawn hoffers hget' hcalls

/-- The kinds of steps, before it is looked into what a task does. -/
inductive Taken (F : MessageFilterInterface Φ) (σ : System Φ) : Act Φ → System Φ → Prop
  /-- A thread has run the first task of its queue. -/
  | task {σ' : System Φ} (t : ThreadIx) (c : Conn) (task : Task) (rest : List (Job Φ))
      (scripts : List Script) (first : TCPSessionID) (filter : Φ) : σ.tasks t = .on c task :: rest →
      exec F (σ.popped t rest) t c scripts task = some σ' →
      Taken F σ (.run t scripts first filter) σ'
  | handleAccept {σ' : System Φ} (t u : ThreadIx) (filter nextFilter : Φ) (error : ErrorCode)
      (rest : List (Job Φ)) (scripts : List Script) (first : TCPSessionID) :
      σ.tasks t = .handleAccept u filter error :: rest → σ.idGenerator.Offers first →
      handleAccept (σ.popped t rest) u filter error first (scripts.headD []) nextFilter = some σ' →
      Taken F σ (.run t scripts first nextFilter) σ'
  /-- `async_accept` has completed. -/
  | accept (u : ThreadIx) (filter : Φ) (error : ErrorCode) : σ.accepting = some (u, filter) →
      Taken F σ (.acceptDone error) (({ σ with accepting := none } : System Φ).post mainThread
        (.handleAccept u filter error))
  /-- An operation of session `c` has completed. -/
  | complete (a : Act Φ) (c : Conn) (task : Task) (s : TCPSession Φ) : (∀ t ss k f, a ≠ .run t ss k f) →
      TCPSession.Completes (σ.sessions c) task s → task ≠ .close → Outstanding (σ.sessions c) →
      Taken F σ a (σ.complete c s task)
  /-- The check finds the session active. -/
  | spares (t : ThreadIx) (id : TCPSessionID) : Taken F σ (.keepAlive t id) σ
  /-- The check finds that the session has been idle too long. -/
  | checks (t : ThreadIx) (id : TCPSessionID) (c : Conn) : σ.getSession t id = some c →
      (σ.sessions c).checkKeepAlive σ.clock = false →
      Taken F σ (.keepAlive t id) (σ.post t (.on c .close))
  | logic (script : Script) : Taken F σ (.logic script) (σ.runScript script)
  | tick (n : Nat) : Taken F σ (.tick n) { σ with clock := σ.clock + n }

theorem completion_ne_close (op : ReadOp) (error : ErrorCode) (data : List UInt8) :
    op.completion error data ≠ .close := by
  unfold ReadOp.completion
  cases op.handler <;> simp

theorem taken_of_step {σ σ' : System Φ} {a : Act Φ} (h : step F σ a = some σ') :
    Taken F σ a σ' := by
  unfold step at h
  cases a with
  | run t scripts first filter =>
      dsimp only at h
      cases ht : σ.tasks t with
      | nil =>
          rw [ht] at h
          cases h
      | cons job rest =>
          rw [ht] at h
          cases job with
          | on c task => exact .task t c task rest scripts first filter ht h
          | handleAccept u filter' error =>
              dsimp only at h
              split_ifs at h with hoffers
              exact .handleAccept t u filter' filter error rest scripts first ht hoffers h
  | acceptDone error =>
      dsimp only at h
      cases ha : σ.accepting with
      | none =>
          rw [ha] at h
          cases h
      | some session =>
          rw [ha] at h
          cases h
          exact .accept session.1 session.2 error ha
  | readDone c i error data =>
      dsimp only at h
      cases hop : (σ.sessions c).socket.reads[i]? with
      | none =>
          rw [hop] at h
          cases h
      | some op =>
          rw [hop] at h
          dsimp only at h
          split_ifs at h
          cases h
          -- A read at this position is outstanding, so there are reads.
          refine .complete _ c _ _ (by simp) (TCPSession.completes_read hop error data)
            (completion_ne_close op error data) (.inl ?_)
          intro hnil
          rw [hnil] at hop
          cases hop
  | writeDone c error =>
      dsimp only at h
      cases hw : (σ.sessions c).socket.writing with
      | nil =>
          rw [hw] at h
          cases h
      | cons range writing =>
          rw [hw] at h
          cases h
          exact .complete _ c _ _ (by simp) (TCPSession.completes_write hw error) (by simp)
            (.inr (.inl (by simp [hw])))
  | timerDone c =>
      dsimp only at h
      split_ifs at h with htimer
      cases h
      exact .complete _ c _ _ (by simp) (TCPSession.completes_timer htimer) (by simp)
        (.inr (.inr htimer))
  | keepAlive t id =>
      dsimp only at h
      cases hfound : σ.getSession t id with
      | none =>
          rw [hfound] at h
          cases h
      | some c =>
          rw [hfound] at h
          dsimp only at h
          split_ifs at h with hactive
          · cases h
            exact .spares t id
          · cases h
            exact .checks t id c hfound (by simpa using hactive)
  | logic script =>
      cases h
      exact .logic script
  | tick n =>
      cases h
      exact .tick n

theorem event_of_step {σ σ' : System Φ} {a : Act Φ} (h : step F σ a = some σ') :
    Event F σ a σ' := by
  cases taken_of_step h with
  | task t c task rest scripts first filter ht hexec => exact event_of_exec ht hexec first filter
  | handleAccept t u filter nextFilter error rest scripts first ht hoffers haccept =>
      exact event_of_handleAccept ht hoffers haccept
  | accept u filter error _ => exact .accept u filter error
  | complete a c task s _ hcompletes _ houtstanding =>
      have hio : s.ioThread = (σ.sessions c).ioThread := by
        obtain ⟨k, timer, rfl⟩ := hcompletes.same
        rfl
      exact .complete s.ioThread c task s hcompletes (.inl ⟨hio, houtstanding⟩)
  | spares t id => exact .tick σ.clock
  | checks t id c hfound _ =>
      have hsame : { σ with sessions := Function.update σ.sessions c (σ.sessions c) } = σ := by
        rw [Function.update_eq_self]
      have hev := Event.complete (F := F) (a := Act.keepAlive t id) (σ := σ) t c .close
        (σ.sessions c) (TCPSession.completes_close _) (.inr ⟨rfl, id, hfound⟩)
      rwa [hsame] at hev
  | logic script => exact .logic (calls_runScript σ script)
  | tick n => exact .tick _

end System
end EddyServer
