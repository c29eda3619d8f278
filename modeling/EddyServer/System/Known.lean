import EddyServer.System.Registry

/-!
# Connections that have not been accepted

The sessions and handlers of a server are total functions of the connection. Those of connections
that have not been accepted yet are as their constructors make them, and nothing is queued for them.
-/

namespace EddyServer
namespace System

variable {Φ : Type} {F : MessageFilterInterface Φ}

/-- A connection does nothing before it is accepted. -/
structure Known (σ : System Φ) : Prop where
  job : ∀ t c task, .on c task ∈ σ.tasks t → c < σ.accepted
  session : ∀ c, σ.accepted ≤ c → (σ.sessions c).Pristine
  sessionId : ∀ c, σ.accepted ≤ c → (σ.handlers c).sessionId = 0
  threadId : ∀ c, σ.accepted ≤ c → (σ.handlers c).threadId = 0

theorem Known.start (threads keepAliveTime : Nat) (filter : Φ) :
    Known (start threads keepAliveTime filter) :=
  ⟨fun _ _ _ h => by simp at h, fun _ _ => ⟨filter, keepAliveTime, rfl⟩, fun _ _ => rfl,
    fun _ _ => rfl⟩

theorem Known.popped {σ : System Φ} (h : Known σ) {t : ThreadIx} {job : Job Φ}
    {rest : List (Job Φ)} (ht : σ.tasks t = job :: rest) : Known (σ.popped t rest) :=
  ⟨fun u c task hjob => h.job u c task (mem_popped ht hjob), h.session, h.sessionId, h.threadId⟩

/-- The server has changed where known connections are concerned. -/
structure Touches (σ σ' : System Φ) : Prop where
  accepted : σ'.accepted = σ.accepted
  session : ∀ c, σ.accepted ≤ c → σ'.sessions c = σ.sessions c
  sessionId : ∀ c, σ.accepted ≤ c → (σ'.handlers c).sessionId = (σ.handlers c).sessionId
  threadId : ∀ c, σ.accepted ≤ c → (σ'.handlers c).threadId = (σ.handlers c).threadId
  tasks : ∀ t, ∃ more, σ'.tasks t = σ.tasks t ++ more ∧
    ∀ c task, .on c task ∈ more → c < σ.accepted

theorem Known.touches {σ σ' : System Φ} (h : Known σ) (ht : Touches σ σ') : Known σ' := by
  refine ⟨fun t c task hjob => ?_, fun c hc => ?_, fun c hc => ?_, fun c hc => ?_⟩
  · rw [ht.accepted]
    obtain ⟨more, heq, hmore⟩ := ht.tasks t
    rw [heq] at hjob
    rcases List.mem_append.mp hjob with hold | hnew
    · exact h.job t c task hold
    · exact hmore c task hnew
  all_goals rw [ht.accepted] at hc
  · rw [ht.session c hc]
    exact h.session c hc
  · rw [ht.sessionId c hc]
    exact h.sessionId c hc
  · rw [ht.threadId c hc]
    exact h.threadId c hc

theorem getThread_zero (threads : Nat) : getThread threads 0 = none := by
  simp [getThread, threadId]

/-- Only known handlers post. -/
theorem Known.callJob {σ : System Φ} (h : Known σ) {t : ThreadIx} {c : Conn} {task : Task}
    (hjob : CallJob σ t (.on c task)) : c < σ.accepted := by
  obtain ⟨d, task', heq, htask⟩ := hjob
  cases heq
  by_contra hge
  have hc : σ.accepted ≤ c := Nat.le_of_not_lt hge
  rcases htask with ⟨-, hopen, -⟩ | ⟨hget, -⟩
  · simp [TCPSessionHandler.isClosed, h.sessionId c hc] at hopen
  · rw [h.threadId c hc, getThread_zero] at hget
    cases hget

theorem Known.calls {cbs : List (Conn × Callback)} {σ σ' : System Φ} (h : Known σ)
    (hcalls : Calls cbs σ σ') : Known σ' := by
  refine h.touches ⟨hcalls.keeps.accepted, fun c _ => ?_, fun c _ => hcalls.sessionId c,
    fun c _ => hcalls.threadId c, fun t => ?_⟩
  · obtain ⟨_, _, rfl⟩ := hcalls.same
    rfl
  · obtain ⟨more, heq, hmore⟩ := hcalls.tasks t
    exact ⟨more, heq, fun c task hjob => h.callJob (hmore _ hjob)⟩

/-- Session `c`, which is known, has run a function. -/
theorem Known.onSession {σ : System Φ} (h : Known σ) {c : Conn} (hc : c < σ.accepted)
    (r : TCPSession Φ × List Effect) : Known (σ.onSession c r) := by
  rw [onSession_eq]
  refine h.touches ⟨rfl, fun d hd => Function.update_of_ne (Nat.ne_of_gt (Nat.lt_of_lt_of_le hc hd)) _ _,
    fun _ _ => rfl, fun _ _ => rfl, fun t => ⟨_, rfl, fun d task hjob => ?_⟩⟩
  obtain ⟨task', -, heq⟩ := mem_jobsTo.mp hjob
  cases heq
  exact hc

theorem Known.register {σ : System Φ} (h : Known σ) (s : TCPSession Φ) (k : TCPSessionID)
    (generator : IDGenerator 32) : Known (σ.register s k generator) := by
  have hold : ∀ {c}, σ.accepted + 1 ≤ c → c ≠ σ.accepted ∧ σ.accepted ≤ c := by omega
  refine ⟨fun t c task hjob => ?_, fun c hc => ?_, fun c hc => ?_, fun c hc => ?_⟩
  · rcases mem_tasks_register hjob with hjob | ⟨-, hinit⟩
    · exact Nat.lt_succ_of_lt (h.job t c task hjob)
    · cases hinit
      exact Nat.lt_succ_self _
  all_goals obtain ⟨hne, hle⟩ := hold hc
  · rw [session_register_of_ne hne]
    exact h.session c hle
  · rw [handler_register_of_ne hne]
    exact h.sessionId c hle
  · rw [handler_register_of_ne hne]
    exact h.threadId c hle

theorem Known.step {σ σ' : System Φ} {a : Act Φ} (h : Known σ) (hreg : Registry σ)
    (hev : Event F σ a σ') : Known σ' := by
  -- A session that is looked up under an id has been registered.
  have htarget : ∀ {t c d task}, σ.target t c task = some d → d < σ.accepted := by
    intro t c d task hd
    have hentry : ∀ {u k}, σ.getSession u k = some d → d < σ.accepted := fun hu =>
      hreg.mapped _ d (hreg.entry _ _ d hu).1
    cases task with
    | sendMessageListToSession id messages => exact hentry hd
    | closeSession id => exact hentry hd
    | handlerSendMessageListDirectly =>
        obtain ⟨u, -, hu⟩ := Option.bind_eq_some_iff.mp hd
        exact hentry hu
    | _ => cases hd
  have hhead : ∀ {t c task rest}, σ.tasks t = .on c task :: rest → c < σ.accepted :=
    fun ht => h.job _ _ _ (by rw [ht]; exact List.mem_cons_self)
  have hne : ∀ {c d}, c < σ.accepted → σ.accepted ≤ d → d ≠ c := fun hc hd =>
    Nat.ne_of_gt (Nat.lt_of_lt_of_le hc hd)
  cases hev with
  | move t c d task rest r ht _ hd _ =>
      refine (h.popped ht).onSession ?_ r
      rcases hd with rfl | hd
      · exact hhead ht
      · exact htarget hd
  | opens t c k rest r ht _ _ => exact (h.popped ht).onSession (hhead ht) r
  | posts t c d task rest messages s buffer ht hd _ =>
      refine (h.popped ht).touches ⟨rfl, fun e he => ?_, fun e he => ?_, fun e he => ?_,
        fun t => ⟨[], by simp, by simp⟩⟩
      · exact Function.update_of_ne (hne (htarget hd) he) _ _
      · dsimp only
        rw [Function.update_of_ne (hne (hhead ht) he)]
        rfl
      · dsimp only
        rw [Function.update_of_ne (hne (hhead ht) he)]
        rfl
  | plain t c task rest ht _ _ hcalls => exact (h.popped ht).calls hcalls
  | deliver t c d id messages rest ht _ hcalls => exact (h.popped ht).calls hcalls
  | deliverDirectly t c d rest ht _ hcalls =>
      refine ((h.popped ht).calls hcalls).touches ⟨rfl, fun e he => ?_, fun _ _ => rfl,
        fun _ _ => rfl, fun t => ⟨[], by simp, by simp⟩⟩
      rw [hcalls.keeps.accepted] at he
      exact Function.update_of_ne (hne (hhead ht) he) _ _
  | @closed τ t c d k rest threadLoad ht hmap hcalls =>
      refine ((h.popped ht).calls hcalls).touches ⟨rfl, fun _ _ => rfl, fun e he => ?_,
        fun e he => ?_, fun t => ⟨[], by simp [unregister], by simp⟩⟩ <;>
        rw [hcalls.keeps.accepted] at he
      · exact congrArg _ (Function.update_of_ne (hne (hreg.mapped k d hmap) he) _ _)
      · exact congrArg _ (Function.update_of_ne (hne (hreg.mapped k d hmap) he) _ _)
  | unknown t c k rest generator ht hnone =>
      exact (h.popped ht).touches ⟨rfl, fun _ _ => rfl, fun _ _ => rfl, fun _ _ => rfl,
        fun t => ⟨[], by simp, by simp⟩⟩
  | connect t u filter first k rest generator threadLoad accepting ht hdrawn _ _ hcalls =>
      have hconn := (h.popped ht).register (.new u filter σ.keepAliveTime) k generator
      exact (hconn.calls hcalls).touches ⟨rfl, fun _ _ => rfl, fun _ _ => rfl, fun _ _ => rfl,
        fun t => ⟨[], by simp, by simp⟩⟩
  | complete t c task s hs hout =>
      -- A session that is still to be accepted has started no operation.
      have hc : c < σ.accepted := by
        rcases hout with ⟨-, hout⟩ | ⟨-, id, hentry⟩
        · by_contra hge
          obtain ⟨filter, keepAliveTime, hnew⟩ := h.session c (Nat.le_of_not_lt hge)
          rw [hnew] at hout
          simp [Outstanding, TCPSession.new, Socket.new] at hout
        · exact hreg.mapped id c (hreg.entry t id c hentry).1
      rw [post_eq]
      refine h.touches ⟨rfl, fun e he => Function.update_of_ne (hne hc he) _ _, fun _ _ => rfl,
        fun _ _ => rfl, fun u => ⟨_, rfl, fun e task' hjob => ?_⟩⟩
      split_ifs at hjob
      · cases List.mem_singleton.mp hjob
        exact hc
      · cases hjob
  | accept t filter error =>
      rw [post_eq]
      refine h.touches ⟨rfl, fun _ _ => rfl, fun _ _ => rfl, fun _ _ => rfl, fun u => ⟨_, rfl, ?_⟩⟩
      intro c task hjob
      split_ifs at hjob <;> simp at hjob
  | refuse t u filter error rest ht => exact h.popped ht
  | logic hcalls => exact h.calls hcalls
  | tick clock =>
      exact h.touches ⟨rfl, fun _ _ => rfl, fun _ _ => rfl, fun _ _ => rfl,
        fun t => ⟨[], by simp, by simp⟩⟩

end System
end EddyServer
