import EddyServer.System.Registry

/-!
# Outbound isolation

A task that a handler posts carries the id under which the handler was registered. By the time it
runs the id may belong to another connection. It cannot find that connection's session, because the
session enters its queue with `init`, and `init` is behind every task that was posted to the thread
under the old registration.
-/

namespace EddyServer

/-- The connection that has posted the job, and the id under which the job looks for a session. -/
def Job.address {Φ : Type} : Job Φ → Option (Conn × TCPSessionID)
  | .on c (.sendMessageListToSession id _) => some (c, id)
  | .on c (.closeSession id) => some (c, id)
  | _ => none

namespace System

variable {Φ : Type} {F : MessageFilterInterface Φ}

/-! ## The invariant -/

structure Addressed (σ : System Φ) : Prop where
  zero : σ.getSessionHandler 0 = none
  /-- A handler knows its id while it is in the map. -/
  sessionId : ∀ k c, k ≠ 0 → (σ.getSessionHandler k = some c ↔ (σ.handlers c).sessionId = k)
  /-- Behind `init` there are only tasks of its own handler. -/
  behind : ∀ t, (σ.tasks t).Pairwise fun job job' => ∀ c h k, job = .on c (.init k) →
    job'.address = some (h, k) → h = c
  /-- When the session is in its queue, there are only tasks of its own handler. -/
  arrived : ∀ t c h k, σ.getSession t k = some c → ∀ job ∈ σ.tasks t, job.address = some (h, k) →
    h = c

theorem Addressed.start (threads keepAliveTime : Nat) (filter : Φ) :
    Addressed (start threads keepAliveTime filter) where
  zero := by simp
  sessionId k c hk := by
    simp only [getSessionHandler_start]
    exact ⟨nofun, fun h => absurd h.symm hk⟩
  behind t := by simp
  arrived _ _ _ _ h := by simp at h

/-- The id of an entry, or of a session that is about to enter, belongs to one handler. -/
theorem Addressed.unique {σ : System Φ} (h : Addressed σ) {k : TCPSessionID} {c d : Conn}
    (hmap : σ.getSessionHandler k = some c) (hid : (σ.handlers d).sessionId = k) : d = c := by
  have hk : k ≠ 0 := by
    rintro rfl
    exact absurd (h.zero.symm.trans hmap) nofun
  exact Option.some.inj (((h.sessionId k d hk).mpr hid).symm.trans hmap)

/-! ## Steps that register nothing -/

/-- A job of a handler that is posted now, or any job but `init`. -/
def Harmless (σ : System Φ) (job : Job Φ) : Prop :=
  (∀ k, job.isInit k = false) ∧
    ∀ c k, job.address = some (c, k) → (σ.handlers c).sessionId = k

/-- Nothing that is addressed has changed; an entry may have left a queue. -/
structure Frame (σ σ' : System Φ) : Prop where
  map : σ'.sessionHandlerMap = σ.sessionHandlerMap
  sessionId : ∀ c, (σ'.handlers c).sessionId = (σ.handlers c).sessionId
  entries : ∀ t k c, σ'.getSession t k = some c → σ.getSession t k = some c
  tasks : ∀ t, ∃ more, σ'.tasks t = σ.tasks t ++ more ∧ ∀ job ∈ more, σ.Harmless job

theorem Addressed.frame {σ σ' : System Φ} (h : Addressed σ) (hreg : Registry σ)
    (hf : Frame σ σ') : Addressed σ' := by
  have hmap : ∀ k, σ'.getSessionHandler k = σ.getSessionHandler k := fun k => by
    rw [getSessionHandler, hf.map, getSessionHandler]
  refine ⟨by rw [hmap]; exact h.zero, fun k c => by rw [hmap, hf.sessionId]; exact h.sessionId k c,
    fun t => ?_, fun t c d k hentry job hjob haddr => ?_⟩
  · obtain ⟨more, heq, hmore⟩ := hf.tasks t
    rw [heq, List.pairwise_append]
    refine ⟨h.behind t, ?_, fun job hjob job' hjob' c d k hinit haddr => ?_⟩
    · refine List.Pairwise.imp_of_mem (R := fun _ _ => True) ?_
        (List.pairwise_of_forall fun _ _ => trivial)
      intro job job' hjob _ _ c d k hinit
      have hnot := (hmore job hjob).1 k
      rw [hinit, Job.isInit, beq_self_eq_true] at hnot
      cases hnot
    · subst hinit
      exact h.unique (hreg.opening t c k hjob).1 ((hmore job' hjob').2 d k haddr)
  · obtain ⟨more, heq, hmore⟩ := hf.tasks t
    have hentry' := hf.entries t k c hentry
    rw [heq] at hjob
    rcases List.mem_append.mp hjob with hold | hnew
    · exact h.arrived t c d k hentry' job hold haddr
    · exact h.unique (hreg.entry t k c hentry').1 ((hmore job hnew).2 d k haddr)

theorem Addressed.popped {σ : System Φ} (h : Addressed σ) {t : ThreadIx} {job : Job Φ}
    {rest : List (Job Φ)} (ht : σ.tasks t = job :: rest) : Addressed (σ.popped t rest) where
  zero := h.zero
  sessionId := h.sessionId
  behind u := by
    have hu := h.behind u
    by_cases hut : u = t
    · subst hut
      rw [ht] at hu
      simpa [System.popped] using (List.pairwise_cons.mp hu).2
    · simpa [System.popped, Function.update_of_ne hut] using hu
  arrived u c d k hentry job' hjob := h.arrived u c d k hentry job' (mem_popped ht hjob)

theorem harmless_of_other (σ : System Φ) {c : Conn} {task : Task}
    (hinit : ∀ k, (.on c task : Job Φ).isInit k = false) (hhandler : task.fromHandler = false) :
    σ.Harmless (.on c task) := by
  refine ⟨hinit, fun d k haddr => ?_⟩
  cases task with
  | sendMessageListToSession id messages => cases hhandler
  | closeSession id => cases hhandler
  | _ => cases haddr

/-- A new connection enters the map. -/
theorem Addressed.register {σ : System Φ} (h : Addressed σ) (hreg : Registry σ) {k : TCPSessionID}
    (hk : k ≠ 0) (hfresh : σ.getSessionHandler k = none) (s : TCPSession Φ)
    (generator : IDGenerator 32) : Addressed (σ.register s k generator) := by
  have hfind : ∀ k', (σ.register s k generator).getSessionHandler k' =
      if k' = k then some σ.accepted else σ.getSessionHandler k' :=
    getSessionHandler_register hfresh
  have hhandler : ((σ.register s k generator).handlers σ.accepted).sessionId = k := by
    rw [handler_register]
    rfl
  refine ⟨?_, fun k' c hk' => ?_, fun t => ?_, fun t c d k' hentry job hjob haddr => ?_⟩
  · rw [hfind, if_neg (Ne.symm hk)]
    exact h.zero
  · rw [hfind]
    -- Only the new handler has the new id: the map did not know it.
    by_cases hc : c = σ.accepted
    · subst hc
      rw [hhandler]
      split_ifs with hkk
      · exact iff_of_true rfl hkk.symm
      · refine iff_of_false (fun hmap => ?_) (Ne.symm hkk)
        exact absurd (hreg.mapped k' _ hmap) (Nat.lt_irrefl _)
    · rw [handler_register_of_ne hc, ← h.sessionId k' c hk']
      split_ifs with hkk
      · subst hkk
        rw [hfresh]
        exact iff_of_false (fun heq => hc (Option.some.inj heq).symm) (by simp)
      · rfl
  · rw [tasks_register, List.pairwise_append]
    refine ⟨h.behind t, ?_, fun _ _ job' hjob' _ d k' _ haddr => ?_⟩
    · split_ifs <;> simp
    · split_ifs at hjob'
      · rw [List.mem_singleton.mp hjob'] at haddr
        cases haddr
      · cases hjob'
  · rcases mem_tasks_register hjob with hold | ⟨-, rfl⟩
    · exact h.arrived t c d k' hentry job hold haddr
    · cases haddr

theorem CallJob.harmless {σ : System Φ} {t : ThreadIx} {job : Job Φ} (h : CallJob σ t job) :
    σ.Harmless job := by
  obtain ⟨c, task, rfl, ⟨-, -, rfl | rfl⟩ | ⟨-, ⟨messages, rfl⟩ | rfl⟩⟩ := h <;>
    refine ⟨fun _ => rfl, fun c' k haddr => ?_⟩ <;> cases haddr <;> rfl

theorem Calls.frame {cbs : List (Conn × Callback)} {σ σ' : System Φ} (h : Calls cbs σ σ') :
    Frame σ σ' where
  map := h.keeps.sessionHandlerMap
  sessionId := h.sessionId
  entries t k c := by
    rw [getSession, h.keeps.sessionQueue]
    exact fun hc => hc
  tasks t := by
    obtain ⟨more, heq, hmore⟩ := h.tasks t
    exact ⟨more, heq, fun job hjob => (hmore job hjob).harmless⟩

/-! ## Steps -/

theorem Addressed.step {σ σ' : System Φ} {a : Act Φ} (h : Addressed σ) (hreg : Registry σ)
    (hev : Event F σ a σ') (hfresh : Fresh σ a) (hzero : ∀ id, σ.drawn a = some id → id ≠ 0) :
    Addressed σ' := by
  cases hev with
  | move t c d task rest r ht _ _ hmove =>
      have hp := h.popped ht
      have hregp := hreg.popped ht
      -- What a session posts is no opening and is not addressed to a session.
      have hharmless : ∀ u, ∀ job ∈ jobsTo d u r.2, (σ.popped t rest).Harmless job := by
        intro u job hjob
        obtain ⟨task', hmem, rfl⟩ := List.mem_map.mp hjob
        have hfrom := Link.move_posts hmove hmem
        refine harmless_of_other _ ?_ ?_ <;> cases task' <;>
          first | rfl | exact fun _ => rfl | cases hfrom
      refine hp.frame hregp ?_
      have hsame := onSession_eq (σ.popped t rest) d r
      refine ⟨by rw [hsame], fun _ => by rw [hsame], fun u k e hentry => ?_,
        fun u => ⟨jobsTo d u r.2, by rw [hsame], hharmless u⟩⟩
      rcases move_effects hmove d with hposts | ⟨entry, -, hr⟩
      · rw [onSession_of_posts fun e he => (hposts e he).imp fun _ h => h.imp fun _ h => h.1]
          at hentry
        exact hentry
      · rw [getSession_of_leaves hr] at hentry
        split_ifs at hentry
        exact hentry
  | opens t c k rest r ht _ hr =>
      have hp := h.popped ht
      obtain ⟨-, hnone, -⟩ := hreg.at_init ht
      obtain ⟨hmap, hio⟩ := hreg.opening t c k (by rw [ht]; exact List.mem_cons_self)
      have hbehind := h.behind t
      rw [ht, List.pairwise_cons] at hbehind
      have hfind := getSession_of_adds (σ := σ.popped t rest) (c := c) hr.effects
        (by rw [hr.ioThread, hr.sessionId, ← hio]; exact hnone)
      have hsame := onSession_of_adds (σ := σ.popped t rest) (c := c) hr.effects
      refine ⟨by rw [hsame]; exact hp.zero, by rw [hsame]; exact hp.sessionId,
        by rw [hsame]; exact hp.behind, fun u e d k' hentry job hjob haddr => ?_⟩
      rw [hfind, hr.ioThread, hr.sessionId, ← hio] at hentry
      rw [hsame] at hjob
      -- The new entry: all jobs for it stand behind its `init`, in the rest of the queue.
      split_ifs at hentry with hnew
      · obtain ⟨rfl, rfl⟩ := hnew
        cases hentry
        have hmem : job ∈ rest := by simpa [System.popped] using hjob
        exact hbehind.1 job hmem c d k' rfl haddr
      · exact hp.arrived u e d k' hentry job hjob haddr
  | posts t c d task rest messages s buffer ht _ hposts =>
      refine (h.popped ht).frame (hreg.popped ht)
        ⟨rfl, fun e => ?_, fun _ _ _ hentry => hentry, fun t => ⟨[], by simp, by simp⟩⟩
      by_cases he : e = c
      · subst he
        simp [System.popped]
      · simp [System.popped, Function.update_of_ne he]
  | plain t c task rest ht _ _ hcalls => exact (h.popped ht).frame (hreg.popped ht) hcalls.frame
  | deliver t c d id messages rest ht _ hcalls =>
      exact (h.popped ht).frame (hreg.popped ht) hcalls.frame
  | @deliverDirectly τ t c d rest ht _ hcalls =>
      have hτ := (h.popped ht).frame (hreg.popped ht) hcalls.frame
      exact ⟨hτ.zero, hτ.sessionId, hτ.behind, hτ.arrived⟩
  | @closed τ t c d k rest threadLoad ht hmap hcalls =>
      have hτ := (h.popped ht).frame (hreg.popped ht) hcalls.frame
      have hregτ := (hreg.popped ht).keeps hcalls.keeps
      have hmapτ : τ.getSessionHandler k = some d := by
        rw [getSessionHandler, hcalls.keeps.sessionHandlerMap]
        exact hmap
      have hfind : ∀ k', (τ.unregister d k).getSessionHandler k' =
          if k' = k then none else τ.getSessionHandler k' := fun k' => Table.find_erase
      refine ⟨?_, fun k' e hk' => ?_, hτ.behind, hτ.arrived⟩
      · change (τ.unregister d k).getSessionHandler 0 = none
        rw [hfind, hτ.zero, ite_self]
      · change (τ.unregister d k).getSessionHandler k' = some e ↔
          (Function.update τ.handlers d (τ.handlers d).dispose e).sessionId = k'
        rw [hfind]
        -- Handler `d` has been disposed of and its id is 0; no other handler had the id.
        by_cases he : e = d
        · subst he
          rw [Function.update_self]
          refine ⟨fun hk => ?_, fun hzero' => absurd hzero'.symm hk'⟩
          split_ifs at hk with hkk
          exact absurd (hregτ.once k' k e hk hmapτ) hkk
        · rw [Function.update_of_ne he, ← hτ.sessionId k' e hk']
          split_ifs with hkk
          · subst hkk
            rw [hmapτ]
            exact iff_of_false (by simp) fun heq => he (Option.some.inj heq).symm
          · rfl
  | unknown t c k rest generator ht hnone =>
      have hp := h.popped ht
      exact ⟨hp.zero, hp.sessionId, hp.behind, hp.arrived⟩
  | connect t u filter first k rest generator threadLoad accepting ht hdrawn _ _ hcalls =>
      have hregp := hreg.popped ht
      have hconn := (h.popped ht).register hregp (hzero k hdrawn) (hfresh k hdrawn)
        (.new u filter σ.keepAliveTime) generator
      have hτ := hconn.frame (hregp.register (hfresh k hdrawn) _ generator) hcalls.frame
      exact ⟨hτ.zero, hτ.sessionId, hτ.behind, hτ.arrived⟩
  | complete t c task s hs _ =>
      rw [post_eq]
      refine h.frame hreg ⟨rfl, fun _ => rfl, fun _ _ _ hentry => hentry, fun u => ⟨_, rfl, ?_⟩⟩
      intro job hjob
      split_ifs at hjob
      · rw [List.mem_singleton.mp hjob]
        have hcompletion := hs.isCompletion
        refine harmless_of_other σ ?_ ?_ <;> cases task <;>
          first | rfl | exact fun _ => rfl | cases hcompletion
      · cases hjob
  | accept t filter error =>
      rw [post_eq]
      refine h.frame hreg ⟨rfl, fun _ => rfl, fun _ _ _ hentry => hentry, fun u => ⟨_, rfl, ?_⟩⟩
      intro job hjob
      split_ifs at hjob
      · rw [List.mem_singleton.mp hjob]
        exact ⟨fun _ => rfl, fun _ _ haddr => by cases haddr⟩
      · cases hjob
  | refuse t u filter error rest ht => exact h.popped ht
  | logic hcalls => exact h.frame hreg hcalls.frame
  | tick clock => exact ⟨h.zero, h.sessionId, h.behind, h.arrived⟩

/-! ## The id generator -/

/-- The generator keeps account of the map. -/
structure Pooled (σ : System Φ) : Prop where
  accounts : σ.idGenerator.Accounts σ.sessionHandlerMap
  threshold : σ.idGenerator.threshold = 4096

theorem Pooled.start (threads keepAliveTime : Nat) (filter : Φ) :
    Pooled (start threads keepAliveTime filter) :=
  ⟨.new (by decide), rfl⟩

/-- At most 2³¹ sessions are registered. -/
def FewSessions (σ : System Φ) : Prop := σ.sessionHandlerMap.size ≤ 2 ^ 31

instance (σ : System Φ) : Decidable (FewSessions σ) :=
  inferInstanceAs (Decidable (_ ≤ _))

theorem Pooled.drawn {σ : System Φ} (h : Pooled σ) (hfew : FewSessions σ) {first k : TCPSessionID}
    {generator : IDGenerator 32} (hoffers : σ.idGenerator.Offers first)
    (hget : σ.idGenerator.get first = some (k, generator)) :
    σ.getSessionHandler k = none ∧ k ≠ 0 ∧
      ∀ c, generator.Accounts (σ.sessionHandlerMap.add k c) := by
  have hroom : σ.sessionHandlerMap.size + σ.idGenerator.threshold + 1 < 2 ^ 32 := by
    have hle : σ.sessionHandlerMap.size ≤ 2 ^ 31 := hfew
    rw [h.threshold]
    omega
  obtain ⟨hnone, hpos, hacc⟩ := h.accounts.get hoffers hroom hget
  refine ⟨hnone, ?_, hacc⟩
  rintro rfl
  exact absurd hpos (by decide)

theorem Pooled.same {σ σ' : System Φ} (h : Pooled σ) (hgenerator : σ'.idGenerator = σ.idGenerator)
    (hmap : σ'.sessionHandlerMap = σ.sessionHandlerMap) : Pooled σ' := by
  refine ⟨?_, ?_⟩
  · rw [hgenerator, hmap]
    exact h.accounts
  · rw [hgenerator]
    exact h.threshold

theorem Calls.pooled {cbs : List (Conn × Callback)} {σ σ' : System Φ} (hcalls : Calls cbs σ σ')
    (h : Pooled σ) : Pooled σ' := by
  obtain ⟨_, _, rfl⟩ := hcalls.same
  exact h.same rfl rfl

theorem Pooled.onSession {σ : System Φ} (h : Pooled σ) (c : Conn)
    (r : TCPSession Φ × List Effect) : Pooled (σ.onSession c r) := by
  rw [onSession_eq]
  exact h.same rfl rfl

theorem Pooled.step {σ σ' : System Φ} {a : Act Φ} (h : Pooled σ) (hreg : Registry σ)
    (hev : Event F σ a σ') (hfew : FewSessions σ) : Pooled σ' := by
  have hp : ∀ t rest, Pooled (σ.popped t rest) := fun t rest => h.same rfl rfl
  cases hev with
  | move t c d task rest r ht _ _ hmove => exact (hp t rest).onSession d r
  | opens t c k rest r ht _ hr => exact (hp t rest).onSession c r
  | posts t c d task rest messages s buffer ht _ hposts => exact h.same rfl rfl
  | plain t c task rest ht _ _ hcalls => exact hcalls.pooled (hp t rest)
  | deliver t c d id messages rest ht _ hcalls => exact hcalls.pooled (hp t rest)
  | deliverDirectly t c d rest ht _ hcalls => exact (hcalls.pooled (hp t rest)).same rfl rfl
  | @closed τ t c d k rest threadLoad ht hmap hcalls =>
      have hτ := hcalls.pooled (hp t rest)
      have hmapτ : τ.sessionHandlerMap.find k = some d := by
        rw [hcalls.keeps.sessionHandlerMap]
        exact hmap
      have hk : k ≠ 0 := by
        rintro rfl
        exact absurd (hτ.accounts.used _ _ hmapτ).1 (by decide)
      rw [if_neg hk]
      exact ⟨hτ.accounts.put hmapτ, hτ.threshold⟩
  | unknown t c k rest generator ht hnone =>
      obtain ⟨-, d, hd⟩ := hreg.closing t c k (by rw [ht]; exact List.mem_cons_self)
      exact absurd (hd.symm.trans hnone) nofun
  | connect t u filter first k rest generator threadLoad accepting ht hdrawn hoffers hget hcalls =>
      obtain ⟨-, -, hacc⟩ := h.drawn hfew hoffers hget
      have hconn : Pooled ((σ.popped t rest).register (.new u filter σ.keepAliveTime) k generator) :=
        ⟨hacc σ.accepted, (IDGenerator.get_threshold hget).trans h.threshold⟩
      exact (hcalls.pooled hconn).same rfl rfl
  | complete t c task s hs _ => exact h.same rfl rfl
  | accept t filter error => exact h.same rfl rfl
  | refuse t u filter error rest ht => exact hp t rest
  | logic hcalls => exact hcalls.pooled h
  | tick clock => exact h.same rfl rfl

/-! ## Runs -/

/-- What holds in every run with few sessions. -/
structure Isolated (σ : System Φ) : Prop where
  registry : Registry σ
  addressed : Addressed σ
  pooled : Pooled σ

theorem Isolated.start (threads keepAliveTime : Nat) (filter : Φ) :
    Isolated (start threads keepAliveTime filter) :=
  ⟨.start threads keepAliveTime filter, .start threads keepAliveTime filter,
    .start threads keepAliveTime filter⟩

theorem Isolated.step {σ σ' : System Φ} {a : Act Φ} (h : Isolated σ) (hfew : FewSessions σ)
    (hstep : step F σ a = some σ') : Isolated σ' := by
  have hev := event_of_step hstep
  -- the generator never draws an id that is registered
  have hdrawn : ∀ id, σ.drawn a = some id → σ.getSessionHandler id = none ∧ id ≠ 0 := by
    intro id hid
    obtain ⟨first, generator, hoffers, hget⟩ := get_of_drawn hid
    obtain ⟨hnone, hne, -⟩ := h.pooled.drawn hfew hoffers hget
    exact ⟨hnone, hne⟩
  exact ⟨h.registry.step hev fun id hid => (hdrawn id hid).1,
    h.addressed.step h.registry hev (fun id hid => (hdrawn id hid).1) fun id hid =>
      (hdrawn id hid).2,
    h.pooled.step h.registry hev hfew⟩

/-- The session that a task at the head of its queue finds is the one of its handler. -/
theorem Isolated.target {σ : System Φ} (h : Isolated σ) {t : ThreadIx} {c d : Conn} {task : Task}
    {rest : List (Job Φ)} (ht : σ.tasks t = .on c task :: rest)
    (hd : σ.target t c task = some d) : d = c := by
  have hmem : (.on c task : Job Φ) ∈ σ.tasks t := by rw [ht]; exact List.mem_cons_self
  cases task with
  | sendMessageListToSession id messages =>
      exact (h.addressed.arrived t d c id hd _ hmem rfl).symm
  | closeSession id => exact (h.addressed.arrived t d c id hd _ hmem rfl).symm
  | handlerSendMessageListDirectly =>
      obtain ⟨u, -, hu⟩ := Option.bind_eq_some_iff.mp hd
      exact (h.addressed.unique (h.registry.entry u _ d hu).1 rfl).symm
  | _ => cases hd

/-- A task that finds a session changes no other session. -/
theorem sessions_of_target {σ σ' : System Φ} {t : ThreadIx} {c d : Conn} {task : Task}
    {scripts : List Script} (hd : σ.target t c task = some d)
    (hexec : exec F σ t c scripts task = some σ') {e : Conn} (he : e ≠ d) :
    σ'.sessions e = σ.sessions e := by
  have hpost : ∀ {τ : System Φ} {messages : List NetMessage},
      σ.postMessageList F d messages = some τ → τ.sessions e = σ.sessions e := by
    intro τ messages hτ
    obtain ⟨s, -, rfl⟩ := Option.map_eq_some_iff.mp hτ
    exact Function.update_of_ne he _ _
  cases task with
  | sendMessageListToSession id messages =>
      rw [exec, sendMessageListToSession, hd] at hexec
      exact hpost hexec
  | closeSession id =>
      rw [exec, closeSession, hd] at hexec
      cases hexec
      dsimp only
      rw [onSession_eq]
      exact Function.update_of_ne he _ _
  | handlerSendMessageListDirectly =>
      rw [exec, handlerSendMessageListDirectly, hd] at hexec
      obtain ⟨τ, hτ, rfl⟩ := Option.map_eq_some_iff.mp hexec
      exact (hpost hτ :)
  | _ => cases hd

/-- Whenever a task of a handler finds a session to send to or to close, it is the session with
which the handler was registered, and running the task changes no other session. -/
theorem outbound_isolated {threads keepAliveTime : Nat} {filter : Φ} {σ : System Φ}
    (hrun : Transition.Run (System.step F) (fun σ _ => FewSessions σ)
      (System.start threads keepAliveTime filter) σ)
    {t : ThreadIx} {c d : Conn} {task : Task} {rest : List (Job Φ)}
    (ht : σ.tasks t = .on c task :: rest) (hd : σ.target t c task = some d) :
    d = c ∧ ∀ scripts first filter σ',
      System.step F σ (.run t scripts first filter) = some σ' →
      ∀ e ≠ c, σ'.sessions e = σ.sessions e := by
  have hiso : Isolated σ :=
    hrun.invariant (fun hi hfew hstep => hi.step hfew hstep) (.start threads keepAliveTime filter)
  obtain rfl := hiso.target ht hd
  refine ⟨rfl, fun scripts first filter σ' hstep e he => ?_⟩
  have hexec : exec F (σ.popped t rest) t d scripts task = some σ' := by
    rw [System.step, ht] at hstep
    exact hstep
  exact sessions_of_target (σ := σ.popped t rest) hd hexec he

/-- What the job at the head of a queue is, and which session it finds. -/
def next (σ : System Φ) (t : ThreadIx) : Option (Conn × Task × Option Conn) :=
  match σ.tasks t with
  | .on c task :: _ => some (c, task, σ.target t c task)
  | _ => none

theorem tasks_of_next {σ : System Φ} {t : ThreadIx} {c : Conn} {task : Task} {found : Option Conn}
    (h : σ.next t = some (c, task, found)) :
    ∃ rest, σ.tasks t = .on c task :: rest ∧ σ.target t c task = found := by
  unfold next at h
  split at h
  · cases h
    exact ⟨_, ‹_›, rfl⟩
  · cases h

/-- A close request that finds its session. -/
theorem outbound_isolated_close :
    ∃ σ, ran [.acceptDone .success, .run 0 [[(0, .close)]] 0 (.new 0), .run 1 [] 0 (.new 0)] =
        some σ ∧
      σ.next 1 = some (0, .closeSession 1, some 0) ∧ (0 : Conn) = 0 := by
  obtain ⟨σ, hσ, hnext⟩ := Option.map_eq_some_iff.mp (show
    (ran [.acceptDone .success, .run 0 [[(0, .close)]] 0 (.new 0), .run 1 [] 0 (.new 0)]).map
      (next · 1) = some (some (0, .closeSession 1, some 0)) by decide +kernel)
  obtain ⟨rest, htasks, htarget⟩ := tasks_of_next hnext
  exact ⟨σ, hσ, hnext,
    (outbound_isolated (Transition.run_of_exec hσ (by decide +kernel)) htasks htarget).1⟩

end System
end EddyServer
