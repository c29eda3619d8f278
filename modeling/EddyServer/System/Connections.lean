import EddyServer.MessageFilter.Codec
import EddyServer.System.Accounting
import EddyServer.System.Balance
import EddyServer.System.Projection

/-!
# Every connection is a link

A connection begins when it is accepted: from then on the server is to it what the surroundings of a
link are to the link. Its thread is one of the manager's threads, because the acceptor has chosen it
among them.
-/

namespace EddyServer

namespace System

variable {Φ : Type} {F : MessageFilterInterface Φ}

/-! ## The threads of sessions -/

theorem getMinLoadThread_lt {loads : List Nat} (hpos : 0 < loads.length) :
    getMinLoadThread loads < loads.length := by
  by_cases hmain : getMinLoadThread loads = mainThread
  · rw [hmain]
    exact hpos
  · have hlen : loads.length ≠ 1 := fun hone => hmain (by rw [getMinLoadThread, if_pos hone])
    exact (lastBelow_getMinLoadThread (by omega) hmain).2.1

/-- Sessions that are to be accepted live on threads of the manager, and have filters of the kind
that the application makes. -/
structure Placed (okF : Φ → Prop) (σ : System Φ) : Prop where
  pos : 0 < σ.threads
  length : σ.threadLoad.length = σ.threads
  accepting : ∀ u filter, σ.accepting = some (u, filter) → u < σ.threads ∧ okF filter
  queued : ∀ t u filter error, .handleAccept u filter error ∈ σ.tasks t →
    u < σ.threads ∧ okF filter

section
variable {okF : Φ → Prop}

theorem Placed.start {threads : Nat} (hpos : 0 < threads) (keepAliveTime : Nat) {filter : Φ}
    (hfilter : okF filter) : Placed okF (start threads keepAliveTime filter) where
  pos := hpos
  length := List.length_replicate
  accepting u filter' h := by
    cases h
    have hlt := @getMinLoadThread_lt (List.replicate threads 0) (by simpa using hpos)
    rw [List.length_replicate] at hlt
    exact ⟨hlt, hfilter⟩
  queued _ _ _ _ h := by simp at h

theorem Placed.same {σ σ' : System Φ} (h : Placed okF σ) (hsame : SameLoads σ σ') :
    Placed okF σ' where
  pos := by rw [hsame.threads]; exact h.pos
  length := by rw [hsame.threadLoad, hsame.threads, h.length]
  accepting u filter haccepting := by
    rw [hsame.accepting] at haccepting
    rw [hsame.threads]
    exact h.accepting u filter haccepting
  queued t u filter error hmem := by
    rw [hsame.threads]
    exact h.queued t u filter error (hsame.queued t u filter error hmem)

/-- `on_session_closed` changes loads, but not their number. -/
theorem Placed.onSessionClosed {σ : System Φ} (h : Placed okF σ) (c : Conn) (id : TCPSessionID)
    (script : Script) : Placed okF (σ.onSessionClosed c id script) := by
  have hput : ∀ {τ : System Φ}, Placed okF τ →
      Placed okF (if id = 0 then τ else { τ with idGenerator := τ.idGenerator.put id }) := by
    intro τ hτ
    split_ifs
    · exact hτ
    · exact ⟨hτ.pos, hτ.length, hτ.accepting, hτ.queued⟩
  rw [System.onSessionClosed]
  refine hput ?_
  cases hk : σ.getSessionHandler id with
  | none => exact h
  | some e =>
      have hτ := h.same (calls_callback σ e (.onClosed c) script).sameLoads
      dsimp only
      generalize σ.callback e (.onClosed c) script = τ at hτ ⊢
      have hlength := length_changeLoad (τ.unregister e id) (σ.handlers e).threadId
        fun load => if load > 0 then load - 1 else load
      obtain ⟨threadLoad, hload⟩ := changeLoad_eq (τ.unregister e id) (σ.handlers e).threadId
        fun load => if load > 0 then load - 1 else load
      rw [hload] at hlength ⊢
      exact ⟨hτ.pos, hlength.trans hτ.length, hτ.accepting, hτ.queued⟩

/-- The thread that has been chosen goes from the acceptor to the task, and another is chosen. -/
theorem Placed.loadStep {σ σ' : System Φ} (h : Placed okF σ) (hload : LoadStep σ σ')
    (hnext : ∀ u filter, σ'.accepting = some (u, filter) →
      σ.accepting = some (u, filter) ∨ okF filter) : Placed okF σ' := by
  cases hload with
  | same hsame => exact h.same hsame
  | accept u filter error haccepting hsame =>
      have hposted : Placed okF (({ σ with accepting := none } : System Φ).post mainThread
          (.handleAccept u filter error)) := by
        refine ⟨h.pos, h.length, (fun _ _ hnone => by cases hnone),
          fun t v filter' error' hmem => ?_⟩
        rw [post_eq] at hmem
        rcases List.mem_append.mp hmem with hold | hnew
        · exact h.queued t v filter' error' hold
        · split_ifs at hnew
          · cases List.mem_singleton.mp hnew
            exact h.accepting u filter haccepting
          · cases hnew
      exact hposted.same hsame
  | connect t u filter nextFilter rest ht hsame =>
      have hlength : (σ.threadLoad.modify u (· + 1)).length = σ.threads := by
        rw [List.length_modify, h.length]
      have hchosen : Placed okF
          { σ with
            accepted := σ.accepted + 1
            threadLoad := σ.threadLoad.modify u (· + 1)
            accepting := some (getMinLoadThread (σ.threadLoad.modify u (· + 1)), nextFilter) } := by
        refine ⟨h.pos, hlength, fun v filter' hv => ?_, h.queued⟩
        have hfilter : okF filter' := by
          rcases hnext v filter' (hsame.accepting.trans hv) with hold | hnew
          · exact (h.accepting v filter' hold).2
          · exact hnew
        cases hv
        have hlt := @getMinLoadThread_lt (σ.threadLoad.modify u (· + 1))
          (by rw [hlength]; exact h.pos)
        rw [hlength] at hlt
        exact ⟨hlt, hfilter⟩
      exact hchosen.same hsame

theorem accepting_of_handleAccept {σ σ' : System Φ} {u : ThreadIx} {filter nextFilter : Φ}
    {error : ErrorCode} {first : TCPSessionID} {script : Script}
    (h : handleAccept σ u filter error first script nextFilter = some σ') :
    σ'.accepting = σ.accepting ∨ ∃ v, σ'.accepting = some (v, nextFilter) := by
  unfold handleAccept at h
  split_ifs at h
  · cases h
    exact .inl rfl
  · obtain ⟨⟨id, generator⟩, -, rfl⟩ := Option.map_eq_some_iff.mp h
    exact .inr ⟨_, rfl⟩

/-- The filter of the next session is of the kind that the application makes. -/
def Offers (okF : Φ → Prop) : Act Φ → Prop
  | .run _ _ _ filter => okF filter
  | _ => True

theorem Placed.step {σ σ' : System Φ} {a : Act Φ} (h : Placed okF σ) (hoffers : Offers okF a)
    (hstep : System.step F σ a = some σ') : Placed okF σ' := by
  cases taken_of_step hstep with
  | task t c task rest scripts first filter ht hexec =>
      have hpopped : Placed okF (σ.popped t rest) := h.same ((SameLoads.refl _).of_popped ht)
      by_cases hclosed : ∃ id, task = .onSessionClosed id
      · obtain ⟨id, rfl⟩ := hclosed
        cases hexec
        exact hpopped.onSessionClosed c id _
      · exact hpopped.same (sameLoads_exec (fun id hid => hclosed ⟨id, hid⟩) hexec)
  | handleAccept t u filter nextFilter error rest scripts first ht _ haccept =>
      refine h.loadStep (loadStep_of_handleAccept ht haccept) fun v filter' hv => ?_
      rcases accepting_of_handleAccept haccept with hsame | ⟨v', hnew⟩
      · exact .inl (hsame.symm.trans hv)
      · rw [hnew] at hv
        cases hv
        exact .inr hoffers
  | accept u filter error haccepting =>
      exact h.loadStep (.accept u filter error haccepting (.refl _)) fun _ _ hv => nomatch hv
  | complete a c task s _ _ _ _ => exact h.same (sameLoads_complete ..)
  | spares t id => exact h
  | checks t id c _ _ => exact h.same (sameLoads_post ..)
  | logic script => exact h.same (calls_runScript σ script).sameLoads
  | tick n => exact h.same ⟨rfl, rfl, rfl, rfl, fun _ _ _ _ hmem => hmem⟩

end

/-! ## How a connection begins -/

/-- The calls made in `on_connected` when a step accepts a connection. -/
def greeting : Act Φ → Script
  | .run _ scripts _ _ => scripts.headD []
  | _ => []

/-- A step keeps what the server has been constructed with, and accepts one connection at most. -/
theorem step_settings {σ σ' : System Φ} {a : Act Φ} (hstep : System.step F σ a = some σ') :
    σ'.threads = σ.threads ∧ σ'.keepAliveTime = σ.keepAliveTime ∧
      (σ'.accepted = σ.accepted ∨ ∃ id, σ.drawn a = some id) := by
  have hcalls : ∀ {cbs : List (Conn × Callback)} {τ υ : System Φ}, Calls cbs τ υ →
      υ.threads = τ.threads ∧ υ.keepAliveTime = τ.keepAliveTime ∧ υ.accepted = τ.accepted := by
    intro cbs τ υ h
    obtain ⟨_, _, rfl⟩ := h.same
    exact ⟨rfl, rfl, rfl⟩
  cases event_of_step hstep with
  | move t c d task rest r _ _ _ _ =>
      rw [onSession_eq]
      exact ⟨rfl, rfl, .inl rfl⟩
  | opens t c id rest r _ _ _ =>
      rw [onSession_eq]
      exact ⟨rfl, rfl, .inl rfl⟩
  | posts => exact ⟨rfl, rfl, .inl rfl⟩
  | plain t c task rest _ _ _ h =>
      obtain ⟨hthreads, hkeep, haccepted⟩ := hcalls h
      exact ⟨hthreads, hkeep, .inl haccepted⟩
  | deliver t c d id messages rest _ _ h =>
      obtain ⟨hthreads, hkeep, haccepted⟩ := hcalls h
      exact ⟨hthreads, hkeep, .inl haccepted⟩
  | deliverDirectly t c d rest _ _ h =>
      obtain ⟨hthreads, hkeep, haccepted⟩ := hcalls h
      exact ⟨hthreads, hkeep, .inl haccepted⟩
  | closed t c d id rest threadLoad _ _ h =>
      obtain ⟨hthreads, hkeep, haccepted⟩ := hcalls h
      exact ⟨hthreads, hkeep, .inl haccepted⟩
  | unknown => exact ⟨rfl, rfl, .inl rfl⟩
  | connect t u filter first id rest generator threadLoad accepting _ hdrawn _ _ h =>
      obtain ⟨hthreads, hkeep, -⟩ := hcalls h
      exact ⟨hthreads, hkeep, .inr ⟨id, hdrawn⟩⟩
  | complete => exact ⟨rfl, rfl, .inl rfl⟩
  | accept => exact ⟨rfl, rfl, .inl rfl⟩
  | refuse => exact ⟨rfl, rfl, .inl rfl⟩
  | logic h =>
      obtain ⟨hthreads, hkeep, haccepted⟩ := hcalls h
      exact ⟨hthreads, hkeep, .inl haccepted⟩
  | tick => exact ⟨rfl, rfl, .inl rfl⟩

/-- There is no entry without an id. -/
theorem Separate.getSession_zero {σ : System Φ} (h : Separate σ) (u : ThreadIx) :
    σ.getSession u 0 = none := by
  cases hentry : σ.getSession u 0 with
  | none => rfl
  | some d => exact absurd (h.addressed.zero.symm.trans (h.registry.entry u 0 d hentry).1) nofun

/-- The new connection, when `on_connected` is about to be called. -/
theorem link_new {σ : System Φ} (hknown : Known σ) {u : ThreadIx} (hzero : σ.getSession u 0 = none)
    {k : TCPSessionID} (hk : k ≠ 0) (hfresh : σ.getSessionHandler k = none) (filter : Φ)
    (keepAliveTime : Nat) (generator : IDGenerator 32) :
    (σ.register (.new u filter keepAliveTime) k generator).link σ.accepted =
      ({ Link.start σ.accepted σ.threads u filter keepAliveTime with
        clock := σ.clock } : Link Φ).opened k := by
  set τ := σ.register (.new u filter keepAliveTime) k generator with hτ
  have hsession : τ.sessions σ.accepted = .new u filter keepAliveTime := session_register
  have hhandler : τ.handlers σ.accepted = TCPSessionHandler.new.init k (threadId u) :=
    handler_register
  have hidOf : τ.idOf σ.accepted = k := by
    rw [idOf, hhandler]
    exact if_neg hk
  have hmapped : τ.getSessionHandler k = some σ.accepted := by
    rw [hτ, getSessionHandler_register hfresh, if_pos rfl]
  have hfound : τ.found σ.accepted = none := by
    rw [System.found, hsession]
    exact hzero
  have hnone : ∀ t, (σ.tasks t).filterMap (Job.taskOf σ.accepted) = [] := fun t => by
    rw [List.filterMap_eq_nil_iff]
    intro job hjob
    cases job with
    | on d task =>
        exact if_neg (Nat.ne_of_lt (hknown.job t d task hjob))
    | handleAccept => rfl
  have htasks : ∀ t, (τ.tasks t).filterMap (Job.taskOf σ.accepted) =
      if u = t then [.init k] else [] := fun t => by
    rw [hτ, register, post_eq]
    dsimp only
    rw [List.filterMap_append, hnone]
    by_cases hu : u = t
    · subst hu
      simp [TCPSession.new, Job.taskOf]
    · simp [TCPSession.new, hu]
  unfold link
  simp only [hidOf, hmapped, hfound, htasks, hsession, hhandler]
  rw [Link.opened, Link.post_eq]
  simp [Link.start, hτ, register, post, TCPSession.new]
  rfl

theorem exec_begins (conn : Conn) (threads : Nat) (u : ThreadIx) (filter : Φ)
    (keepAliveTime clock : Nat) {id : TCPSessionID} (hid : id ≠ 0) (script : List Call) :
    Transition.exec (Link.step F) (.start conn threads u filter keepAliveTime)
        [.tick clock, .connect id script] =
      some ((({ Link.start conn threads u filter keepAliveTime with
        clock := clock } : Link Φ).opened id).callback .onConnected script) := by
  have htick : Link.step F (.start conn threads u filter keepAliveTime) (.tick clock) =
      some { Link.start conn threads u filter keepAliveTime with clock := clock } := by
    simp [Link.step, Link.start]
  have hconnect : Link.step F { Link.start conn threads u filter keepAliveTime with
      clock := clock } (.connect id script) =
        some ((({ Link.start conn threads u filter keepAliveTime with
          clock := clock } : Link Φ).opened id).callback .onConnected script) := by
    have hguard : ¬ ((Link.start conn threads u filter keepAliveTime).registered = true ∨ id = 0) := by
      exact not_or.mpr ⟨by simp [Link.start], hid⟩
    exact if_neg hguard
  rw [Transition.exec_cons htick, Transition.exec_cons hconnect]
  rfl

theorem accepted_onSessionConnected (σ : System Φ) (s : TCPSession Φ) (k : TCPSessionID)
    (generator : IDGenerator 32) (script : Script) :
    (σ.onSessionConnected s k generator script).accepted = σ.accepted + 1 := by
  obtain ⟨τ, hcalls, heq⟩ := onSessionConnected_eq σ s k generator script
  exact (congrArg System.accepted heq).trans hcalls.keeps.accepted

/-- A connection is registered under a new id. -/
theorem link_connected {σ : System Φ} (hknown : Known σ) {u : ThreadIx}
    (hzero : σ.getSession u 0 = none) {k : TCPSessionID} (hk : k ≠ 0)
    (hfresh : σ.getSessionHandler k = none) (filter : Φ) (keepAliveTime : Nat)
    (generator : IDGenerator 32) (script : Script) :
    Transition.exec (Link.step F) (.start σ.accepted σ.threads u filter keepAliveTime)
        [.tick σ.clock, .connect k (Script.on σ.accepted script)] =
      some ((σ.onSessionConnected (.new u filter keepAliveTime) k generator script).link
        σ.accepted) := by
  have hcallback := link_callback (σ.register (.new u filter keepAliveTime) k generator) σ.accepted
    .onConnected script σ.accepted
  rw [if_pos rfl, link_new hknown hzero hk hfresh filter keepAliveTime generator] at hcallback
  rw [exec_begins _ _ _ _ _ _ hk]
  exact congrArg some (hcallback.symm.trans (link_onSessionConnected ..).symm)

/-- **A connection begins as a link begins.** -/
theorem Separate.begins {okF : Φ → Prop} {σ σ' : System Φ} {a : Act Φ} (h : Separate σ)
    (hplaced : Placed okF σ) (ha : DrawsApart σ a) (hstep : System.step F σ a = some σ')
    {id : TCPSessionID} (hid : σ.drawn a = some id) :
    σ'.accepted = σ.accepted + 1 ∧ ∃ u filter, (u < σ.threads ∧ okF filter) ∧
      Transition.exec (Link.step F) (.start σ.accepted σ.threads u filter σ.keepAliveTime)
        [.tick σ.clock, .connect id (Script.on σ.accepted (greeting a))] =
          some (σ'.link σ.accepted) := by
  obtain ⟨hfresh, -⟩ := ha.settled id hid
  have hid0 := ha.nonzero id hid
  cases taken_of_step hstep with
  | handleAccept t u filter nextFilter error rest scripts first ht hoffers haccept =>
      obtain ⟨rfl, generator, hget⟩ : error = .success ∧ ∃ generator,
          σ.idGenerator.get first = some (id, generator) := by
        unfold drawn at hid
        dsimp only at hid
        rw [ht] at hid
        cases error <;> dsimp only at hid <;> try cases hid
        rw [if_pos hoffers] at hid
        obtain ⟨⟨k, generator⟩, hget, rfl⟩ := Option.map_eq_some_iff.mp hid
        exact ⟨rfl, generator, hget⟩
      unfold System.handleAccept at haccept
      rw [if_neg (by decide), show (σ.popped t rest).idGenerator.get first = _ from hget] at haccept
      cases haccept
      refine ⟨accepted_onSessionConnected (σ.popped t rest) ..,
        u, filter, hplaced.queued t u filter .success (by rw [ht]; exact List.mem_cons_self), ?_⟩
      exact link_connected (h.known.popped ht)
        (show (σ.popped t rest).getSession u 0 = none from h.getSession_zero u) hid0
        (show (σ.popped t rest).getSessionHandler id = none from hfresh) filter σ.keepAliveTime
        generator (scripts.headD [])
  | task t c task rest scripts first filter ht _ =>
      unfold drawn at hid
      dsimp only at hid
      rw [ht] at hid
      cases hid
  | accept => cases hid
  | complete a c task s hrun _ _ _ =>
      cases a <;> first | cases hid | exact absurd rfl (hrun _ _ _ _)
  | spares => cases hid
  | checks => cases hid
  | logic => cases hid
  | tick => cases hid

/-! ## Runs -/

/-- The condition `okL` on the steps of a link, for every link of the server: of the connections
that are there, and of one that begins. The filters of the sessions to come meet `okF`. -/
structure Projects (okL : Link Φ → Link.Act → Prop) (okF : Φ → Prop) (σ : System Φ) (a : Act Φ) :
    Prop where
  project : ∀ c < σ.accepted, okL (σ.link c) (σ.project c a)
  begins : ∀ ℓ id, σ.drawn a = some id → ℓ.registered = false →
    okL ℓ (.tick σ.clock) ∧ okL ℓ (.connect id (Script.on σ.accepted (greeting a)))
  offers : Offers okF a

section
variable {okL : Link Φ → Link.Act → Prop} {okF : Φ → Prop}

/-- Connection `c` has had a life of its own. -/
def Lives (F : MessageFilterInterface Φ) (okL : Link Φ → Link.Act → Prop) (okF : Φ → Prop)
    (σ : System Φ) (c : Conn) : Prop :=
  ∃ u filter, (u < σ.threads ∧ okF filter) ∧
    Transition.Run (Link.step F) okL (.start c σ.threads u filter σ.keepAliveTime) (σ.link c)

theorem Lives.toLifecycle {σ : System Φ} {c : Conn} (h : Lives F okL okF σ c) :
    Link.Lifecycle (σ.link c) := by
  obtain ⟨u, filter, ⟨hu, -⟩, hrun⟩ := h
  exact hrun.invariant (fun hl _ hstep => hl.step hstep) (.start hu c filter σ.keepAliveTime)

/-- What holds of the server and of all its connections. -/
structure Parted (F : MessageFilterInterface Φ) (okL : Link Φ → Link.Act → Prop) (okF : Φ → Prop)
    (σ : System Φ) : Prop where
  separate : Separate σ
  placed : Placed okF σ
  lives : ∀ c < σ.accepted, Lives F okL okF σ c

theorem Parted.start {threads : Nat} (hpos : 0 < threads) (keepAliveTime : Nat) {filter : Φ}
    (hfilter : okF filter) : Parted F okL okF (start threads keepAliveTime filter) where
  separate := .start threads keepAliveTime filter
  placed := .start hpos keepAliveTime hfilter
  lives c hc := absurd hc (Nat.not_lt_zero c)

theorem Parted.step {σ σ' : System Φ} {a : Act Φ} (h : Parted F okL okF σ) (ha : DrawsApart σ a)
    (hok : Projects okL okF σ a) (hstep : System.step F σ a = some σ') :
    Parted F okL okF σ' := by
  obtain ⟨hthreads, hkeep, haccepted⟩ := step_settings hstep
  have hold : ∀ c < σ.accepted, Lives F okL okF σ' c := by
    intro c hc
    obtain ⟨u, filter, hu, hrun⟩ := h.lives c hc
    refine ⟨u, filter, hthreads ▸ hu, ?_⟩
    rw [hthreads, hkeep]
    exact hrun.tail (hok.project c hc) (h.separate.step_link ha
      (fun d hd => (h.lives d hd).toLifecycle) hstep hc)
  refine ⟨h.separate.step ha hstep, h.placed.step hok.offers hstep, fun c hc => ?_⟩
  rcases haccepted with hsame | ⟨id, hid⟩
  · exact hold c (hsame ▸ hc)
  · obtain ⟨hnew, u, filter, hu, hexec⟩ := h.separate.begins h.placed ha hstep hid
    rcases Nat.lt_succ_iff_lt_or_eq.mp (hnew ▸ hc) with hlt | rfl
    · exact hold c hlt
    · refine ⟨u, filter, hthreads ▸ hu, ?_⟩
      rw [hthreads, hkeep]
      refine Transition.run_of_exec hexec ⟨(hok.begins _ id hid rfl).1, fun ℓ hℓ => ?_⟩
      cases hℓ
      exact ⟨(hok.begins _ id hid rfl).2, fun _ _ => trivial⟩

/-- A condition on the steps that is one on the links because of what holds of the server. -/
theorem Parted.of_steps {ok : System Φ → Act Φ → Prop} {threads : Nat} (hpos : 0 < threads)
    {keepAliveTime : Nat} {filter : Φ} (hfilter : okF filter) {σ : System Φ}
    (hok : ∀ {σ a}, Parted F okL okF σ → ok σ a → Projects okL okF σ a)
    (hrun : Transition.Run (System.step F) (fun σ a => DrawsApart σ a ∧ ok σ a)
      (System.start threads keepAliveTime filter) σ) : Parted F okL okF σ :=
  hrun.invariant (fun h ha hstep => h.step ha.1 (hok h ha.2) hstep)
    (.start hpos keepAliveTime hfilter)

theorem run_settings {ok : System Φ → Act Φ → Prop} {σ σ' : System Φ}
    (hrun : Transition.Run (System.step F) ok σ σ') :
    σ'.threads = σ.threads ∧ σ'.keepAliveTime = σ.keepAliveTime :=
  hrun.invariant (I := fun τ => τ.threads = σ.threads ∧ τ.keepAliveTime = σ.keepAliveTime)
    (fun h _ hstep =>
      have hsame := step_settings hstep
      ⟨hsame.1.trans h.1, hsame.2.1.trans h.2⟩) ⟨rfl, rfl⟩

theorem Lives.of_settings {σ : System Φ} {c : Conn} (h : Lives F okL okF σ c)
    {threads keepAliveTime : Nat}
    (hsame : σ.threads = threads ∧ σ.keepAliveTime = keepAliveTime) :
    ∃ u filter, (u < threads ∧ okF filter) ∧
      Transition.Run (Link.step F) okL (.start c threads u filter keepAliveTime) (σ.link c) := by
  obtain ⟨rfl, rfl⟩ := hsame
  exact h

/-! ## Before the pool of ids is full -/

/-- If the step draws an id, the pool is not full yet, and the counter has not come to its end. -/
def Young (σ : System Φ) (a : Act Φ) : Prop :=
  σ.drawn a ≠ none →
    σ.idGenerator.pools.card < σ.idGenerator.threshold ∧ σ.accepted + 2 < 2 ^ 32

instance (σ : System Φ) (a : Act Φ) : Decidable (Young σ a) :=
  inferInstanceAs (Decidable (_ → _))

/-- Connections are numbered and given ids in the same order. -/
structure Numbered (σ : System Φ) : Prop where
  max : σ.idGenerator.max = BitVec.allOnes 32
  next : σ.idGenerator.next.toNat = σ.accepted + 1
  idOf : ∀ c : Nat, c < σ.accepted → (σ.idOf c).toNat = c + 1

theorem Numbered.start (threads keepAliveTime : Nat) (filter : Φ) :
    Numbered (start threads keepAliveTime filter) where
  max := rfl
  next := rfl
  idOf c hc := absurd hc (Nat.not_lt_zero c)

/-- Every id that is in use or on its way is that of its own connection. -/
theorem Numbered.drawsApart {σ : System Φ} {a : Act Φ}
    (h : Numbered σ) (hparted : Parted F okL okF σ) (hyoung : Young σ a) : DrawsApart σ a := by
  have hlife : ∀ c < σ.accepted, Link.Lifecycle (σ.link c) := fun c hc =>
    (hparted.lives c hc).toLifecycle
  have hregistry := hparted.separate.registry
  have hknown := hparted.separate.known
  have hsame : ∀ {x n m : Nat}, x = n + 1 → x = m + 1 → n = m := by omega
  have hdrawn : ∀ k, σ.drawn a = some k → k.toNat = σ.accepted + 1 := by
    intro k hk
    obtain ⟨hpool, -⟩ := hyoung (by rw [hk]; simp)
    obtain ⟨first, generator, -, hget⟩ := get_of_drawn hk
    unfold IDGenerator.get at hget
    rw [if_neg (Nat.not_le.mpr hpool)] at hget
    split_ifs at hget
    cases hget
    exact h.next
  -- a session knows no id but its own
  have hsession : ∀ (d : Nat) k, k ≠ 0 → (σ.sessions d).sessionId = k →
      d < σ.accepted ∧ k.toNat = d + 1 := by
    intro d k hk hd
    have hlt : d < σ.accepted := by
      by_contra hge
      obtain ⟨filter, keepAliveTime, hnew⟩ := hknown.session d (Nat.le_of_not_lt hge)
      rw [hnew] at hd
      exact hk hd.symm
    rcases (hlife d hlt).sessionId with hzero | hid
    · exact absurd (hd.symm.trans hzero) hk
    · refine ⟨hlt, ?_⟩
      rw [← hd]
      exact (congrArg BitVec.toNat hid).trans (h.idOf d hlt)
  refine ⟨fun k hk => ?_, fun k hk => ?_, fun c k hopening d hd hio hdk => ?_⟩
  · have hnew := hdrawn k hk
    have hk0 : k ≠ 0 := by
      rintro rfl
      simp at hnew
    refine ⟨?_, fun d hd _ => ?_, fun t d messages hjob => ?_⟩
    · by_contra hne
      obtain ⟨c, hc⟩ := Option.ne_none_iff_exists'.mp hne
      have hlt := hregistry.mapped k c hc
      have hid := h.idOf c hlt
      rw [hparted.separate.idOf_eq hc] at hid
      exact absurd (hsame hid hnew) (Nat.ne_of_lt hlt)
    · obtain ⟨hlt, hid⟩ := hsession d k hk0 hd
      exact absurd (hsame hid hnew) (Nat.ne_of_lt hlt)
    · have hlt := hknown.job t d _ hjob
      have hmem : Task.sendMessageListToHandler k messages ∈ (σ.link d).tasks t :=
        List.mem_filterMap.mpr ⟨_, hjob, if_pos rfl⟩
      obtain ⟨-, hid, -⟩ := (hlife d hlt).taskOk_of_mem hmem fun _ => by simp
      have hidOf := h.idOf d hlt
      rw [show k = σ.idOf d from hid] at hnew
      exact absurd (hsame hidOf hnew) (Nat.ne_of_lt hlt)
  · have hnew := hdrawn k hk
    rintro rfl
    simp at hnew
  · obtain ⟨t, scripts, first, filter, rest, rfl, ht⟩ : ∃ t scripts first filter rest,
        a = .run t scripts first filter ∧ σ.tasks t = .on c (.init k) :: rest := by
      unfold opening at hopening
      split at hopening
      · split at hopening
        · cases hopening
          exact ⟨_, _, _, _, _, rfl, ‹_›⟩
        · cases hopening
      · cases hopening
    have hmap := (hregistry.opening t c k (by rw [ht]; exact List.mem_cons_self)).1
    obtain ⟨hk0, -⟩ := hparted.separate.handler_id hmap
    have hidc := h.idOf c (hregistry.mapped k c hmap)
    rw [hparted.separate.idOf_eq hmap] at hidc
    obtain ⟨-, hidd⟩ := hsession d k hk0 hdk
    exact absurd (hsame hidd hidc) hd

/-- A step that draws no id leaves the counter where it is. -/
theorem counter_of_event {σ σ' : System Φ} {a : Act Φ} (hreg : Registry σ) (hev : Event F σ a σ') :
    (σ'.accepted = σ.accepted ∧ σ'.idGenerator.next = σ.idGenerator.next ∧
        σ'.idGenerator.max = σ.idGenerator.max) ∨
      ∃ id first generator, σ.drawn a = some id ∧
        σ.idGenerator.get first = some (id, generator) ∧ σ'.accepted = σ.accepted + 1 ∧
        σ'.idGenerator = generator := by
  have hcalls : ∀ {cbs : List (Conn × Callback)} {τ υ : System Φ}, Calls cbs τ υ →
      υ.accepted = τ.accepted ∧ υ.idGenerator = τ.idGenerator := by
    intro cbs τ υ h
    obtain ⟨_, _, rfl⟩ := h.same
    exact ⟨rfl, rfl⟩
  cases hev with
  | move t c d task rest r _ _ _ _ =>
      rw [onSession_eq]
      exact .inl ⟨rfl, rfl, rfl⟩
  | opens t c id rest r _ _ _ =>
      rw [onSession_eq]
      exact .inl ⟨rfl, rfl, rfl⟩
  | posts => exact .inl ⟨rfl, rfl, rfl⟩
  | plain t c task rest _ _ _ h =>
      obtain ⟨haccepted, hgenerator⟩ := hcalls h
      rw [haccepted, hgenerator]
      exact .inl ⟨rfl, rfl, rfl⟩
  | deliver t c d id messages rest _ _ h =>
      obtain ⟨haccepted, hgenerator⟩ := hcalls h
      rw [haccepted, hgenerator]
      exact .inl ⟨rfl, rfl, rfl⟩
  | deliverDirectly t c d rest _ _ h =>
      obtain ⟨haccepted, hgenerator⟩ := hcalls h
      dsimp only
      rw [haccepted, hgenerator]
      exact .inl ⟨rfl, rfl, rfl⟩
  | closed t c d id rest threadLoad _ _ h =>
      obtain ⟨haccepted, hgenerator⟩ := hcalls h
      refine .inl ⟨haccepted, ?_, ?_⟩
      · dsimp only
        split_ifs <;> rw [hgenerator] <;> rfl
      · dsimp only
        split_ifs <;> rw [hgenerator] <;> rfl
  | unknown t c id rest generator ht hnone =>
      obtain ⟨-, d, hd⟩ := hreg.closing t c id (by rw [ht]; exact List.mem_cons_self)
      exact absurd (hd.symm.trans hnone) nofun
  | connect t u filter first id rest generator threadLoad accepting _ hdrawn _ hget h =>
      obtain ⟨haccepted, hgenerator⟩ := hcalls h
      exact .inr ⟨id, first, generator, hdrawn, hget, haccepted, hgenerator⟩
  | complete => exact .inl ⟨rfl, rfl, rfl⟩
  | accept => exact .inl ⟨rfl, rfl, rfl⟩
  | refuse => exact .inl ⟨rfl, rfl, rfl⟩
  | logic h =>
      obtain ⟨haccepted, hgenerator⟩ := hcalls h
      rw [haccepted, hgenerator]
      exact .inl ⟨rfl, rfl, rfl⟩
  | tick => exact .inl ⟨rfl, rfl, rfl⟩

theorem Numbered.step {σ σ' : System Φ} {a : Act Φ}
    (h : Numbered σ) (hparted : Parted F okL okF σ) (hyoung : Young σ a)
    (hstep : System.step F σ a = some σ') : Numbered σ' := by
  have ha := h.drawsApart hparted hyoung
  have hold : ∀ c : Nat, c < σ.accepted → (σ'.idOf c).toNat = c + 1 := by
    intro c hc
    have hlife := fun d hd => (hparted.lives d hd).toLifecycle
    have hlink := hparted.separate.step_link ha hlife hstep hc
    have hid : (σ'.link c).id = (σ.link c).id := (hlife c hc).step_id (by simpa [link] using hc) hlink
    exact (congrArg BitVec.toNat hid).trans (h.idOf c hc)
  rcases counter_of_event hparted.separate.registry (event_of_step hstep) with
    ⟨haccepted, hnext, hmax⟩ | ⟨id, first, generator, hdrawn, hget, haccepted, rfl⟩
  · exact ⟨hmax.trans h.max, by rw [hnext, haccepted, h.next], fun c hc => hold c (haccepted ▸ hc)⟩
  · obtain ⟨hpool, hroom⟩ := hyoung (by rw [hdrawn]; simp)
    have hnext := h.next
    unfold IDGenerator.get at hget
    rw [if_neg (Nat.not_le.mpr hpool)] at hget
    split_ifs at hget
    obtain ⟨rfl, hgenerator⟩ := Prod.mk.inj (Option.some.inj hget)
    obtain ⟨-, u, filter, hu, hexec⟩ := hparted.separate.begins hparted.placed ha hstep hdrawn
    rw [exec_begins _ _ _ _ _ _ (ha.nonzero _ hdrawn)] at hexec
    -- the id of the new link is the one that has been drawn
    have hid : (σ'.link σ.accepted).id = σ.idGenerator.next := by
      rw [← Option.some.inj hexec]
      exact (Link.calls_callback (.inr ⟨rfl, hu.1⟩) _ _).id
    have hsucc : (σ.idGenerator.next + 1#32).toNat = σ.idGenerator.next.toNat + 1 := by
      rw [BitVec.toNat_add_of_lt]
      · rfl
      · simp
        omega
    refine ⟨?_, ?_, fun c hc => ?_⟩
    · rw [← hgenerator]
      exact h.max
    · rw [← hgenerator, haccepted]
      exact hsucc.trans (congrArg (· + 1) hnext)
    · rw [haccepted] at hc
      rcases Nat.lt_succ_iff_lt_or_eq.mp hc with hlt | rfl
      · exact hold c hlt
      · exact (congrArg BitVec.toNat hid).trans hnext

/-- What holds in every run that draws an id only while the pool is not full. -/
theorem Numbered.of_run {threads : Nat} (hpos : 0 < threads) {keepAliveTime : Nat} {filter : Φ}
    (hfilter : okF filter) {σ : System Φ}
    (hrun : Transition.Run (System.step F) (fun σ a => Young σ a ∧ Projects okL okF σ a)
      (System.start threads keepAliveTime filter) σ) : Numbered σ ∧ Parted F okL okF σ :=
  hrun.invariant (I := fun τ => Numbered τ ∧ Parted F okL okF τ)
    (fun h ha hstep => ⟨h.1.step h.2 ha.1 hstep, h.2.step (h.1.drawsApart h.2 ha.1) ha.2 hstep⟩)
    ⟨.start threads keepAliveTime filter, .start hpos keepAliveTime hfilter⟩

/-- Such a run draws ids apart. -/
theorem drawsApart_of_young {ok : System Φ → Act Φ → Prop} {threads : Nat} (hpos : 0 < threads)
    {keepAliveTime : Nat} {filter : Φ} (hfilter : okF filter) {σ : System Φ}
    (hok : ∀ {σ a}, Parted F okL okF σ → ok σ a → Projects okL okF σ a)
    (hrun : Transition.Run (System.step F) (fun σ a => Young σ a ∧ ok σ a)
      (System.start threads keepAliveTime filter) σ) :
    Transition.Run (System.step F) (fun σ a => DrawsApart σ a ∧ ok σ a)
      (System.start threads keepAliveTime filter) σ :=
  hrun.mono_of_invariant (I := fun τ => Numbered τ ∧ Parted F okL okF τ)
    (fun h ha hstep => ⟨h.1.step h.2 ha.1 hstep,
      h.2.step (h.1.drawsApart h.2 ha.1) (hok h.2 ha.2) hstep⟩)
    (fun h ha => ⟨h.1.drawsApart h.2 ha.1, ha.2⟩)
    ⟨.start threads keepAliveTime filter, .start hpos keepAliveTime hfilter⟩

end

/-- No condition on the links. -/
theorem projects_anything {okF : Φ → Prop} (σ : System Φ) {a : Act Φ} (ha : Offers okF a) :
    Projects (Transition.Anything (Link Φ) Link.Act) okF σ a :=
  ⟨fun _ _ => trivial, fun _ _ _ _ => ⟨trivial, trivial⟩, ha⟩

/-- No condition on the filters. -/
theorem offers_anything (a : Act Φ) : Offers (fun _ : Φ => True) a := by
  cases a <;> trivial

/-- Nor on either. -/
theorem drawsApart_of_young_anything {ok : System Φ → Act Φ → Prop} {threads : Nat}
    (hpos : 0 < threads) {keepAliveTime : Nat} {filter : Φ} {σ : System Φ}
    (hrun : Transition.Run (System.step F) (fun σ a => Young σ a ∧ ok σ a)
      (System.start threads keepAliveTime filter) σ) :
    Transition.Run (System.step F) (fun σ a => DrawsApart σ a ∧ ok σ a)
      (System.start threads keepAliveTime filter) σ :=
  drawsApart_of_young hpos trivial
    (fun {τ a} _ _ => projects_anything τ (offers_anything a)) hrun

instance (okF : Φ → Prop) [DecidablePred okF] : (a : Act Φ) → Decidable (Offers okF a)
  | .run _ _ _ filter => inferInstanceAs (Decidable (okF filter))
  | .acceptDone _ | .readDone .. | .writeDone .. | .timerDone _ | .keepAlive .. | .logic _
  | .tick _ => isTrue trivial

/-- Two connections to one worker, and a message for the first. -/
def twoConnections : List (Act MessageFilter) :=
  [.acceptDone .success, .run 0 [] 0 (.new 0), .acceptDone .success, .run 0 [] 0 (.new 0),
    .run 1 [] 0 (.new 0), .run 1 [] 0 (.new 0), .readDone 0 0 .success [0, 1],
    .run 1 [] 0 (.new 0), .readDone 0 0 .success [65], .run 1 [] 0 (.new 0),
    .run 1 [] 0 (.new 0), .run 0 [] 0 (.new 0)]

theorem run_twoConnections : ∃ σ, ran twoConnections = some σ ∧ σ.accepted = 2 ∧
    (σ.handlers 0).callbacks.length = 2 ∧
    Transition.Run (System.step (messageFilter .little .zeros)) (fun σ a => Young σ a ∧
      Projects (Transition.Anything (Link MessageFilter) Link.Act) MessageFilter.AtBoundary σ a)
      (start 2 0 (.new 0)) σ := by
  obtain ⟨σ, hσ, hview⟩ := Option.map_eq_some_iff.mp (show
    (ran twoConnections).map (fun σ => (σ.accepted, (σ.handlers 0).callbacks.length)) =
      some (2, 2) by decide +kernel)
  obtain ⟨haccepted, hcallbacks⟩ := Prod.mk.inj hview
  have hyoung : Transition.Run (System.step (messageFilter .little .zeros))
      (fun σ a => Young σ a ∧ Offers MessageFilter.AtBoundary a) (start 2 0 (.new 0)) σ :=
    Transition.run_of_exec hσ (by decide +kernel)
  exact ⟨σ, hσ, haccepted, hcallbacks,
    hyoung.mono fun τ a ha => ⟨ha.1, projects_anything τ ha.2⟩⟩

/-! ## Every connection -/

/-- **Every connection of the server is a link.** In a run that draws ids apart, what has happened
to a connection is a run of a link that begins on its own, under any condition `okL` that the steps
of the server impose on those of its links, and with a filter of the kind that the server has been
given. -/
theorem connection_is_link {okL : Link Φ → Link.Act → Prop} {okF : Φ → Prop} {threads : Nat}
    (hpos : 0 < threads) {keepAliveTime : Nat} {filter : Φ} (hfilter : okF filter) {σ : System Φ}
    (hrun : Transition.Run (System.step F) (fun σ a => DrawsApart σ a ∧ Projects okL okF σ a)
      (System.start threads keepAliveTime filter) σ) {c : Conn} (hc : c < σ.accepted) :
    ∃ u filter', (u < threads ∧ okF filter') ∧
      Transition.Run (Link.step F) okL (.start c threads u filter' keepAliveTime) (σ.link c) :=
  ((Parted.of_steps hpos hfilter (fun _ ha => ha) hrun).lives c hc).of_settings (run_settings hrun)

/-- Connection 0, which has received a message, is a link of its own. -/
theorem connection_is_link_two : ∃ σ u filter', ran twoConnections = some σ ∧
    (σ.handlers 0).callbacks.length = 2 ∧ (u < 2 ∧ MessageFilter.AtBoundary filter') ∧
    Transition.Run (Link.step (messageFilter .little .zeros)) (Transition.Anything _ _)
      (.start 0 2 u filter' 0) (σ.link 0) := by
  obtain ⟨σ, hσ, haccepted, hcallbacks, hrun⟩ := run_twoConnections
  have hfirst : 0 < σ.accepted := by rw [haccepted]; decide
  obtain ⟨u, filter', hu, hlink⟩ :=
    connection_is_link Nat.two_pos (MessageFilter.atBoundary_new 0)
      (drawsApart_of_young Nat.two_pos (MessageFilter.atBoundary_new 0) (fun _ ha => ha) hrun) hfirst
  exact ⟨σ, u, filter', hσ, hcallbacks, hu, hlink⟩

/-- **The first connections.** Until the pool of returned ids is full for the first time when an id
is drawn, every connection of the server is a link, and connection `c` is given the id `c + 1`. -/
theorem first_connections_are_links {okL : Link Φ → Link.Act → Prop} {okF : Φ → Prop}
    {threads : Nat} (hpos : 0 < threads) {keepAliveTime : Nat} {filter : Φ}
    (hfilter : okF filter) {σ : System Φ}
    (hrun : Transition.Run (System.step F) (fun σ a => Young σ a ∧ Projects okL okF σ a)
      (System.start threads keepAliveTime filter) σ) {c : Nat} (hc : c < σ.accepted) :
    (σ.link c).id.toNat = c + 1 ∧ ∃ u filter', (u < threads ∧ okF filter') ∧
      Transition.Run (Link.step F) okL (.start c threads u filter' keepAliveTime) (σ.link c) := by
  obtain ⟨hnumbered, hparted⟩ := Numbered.of_run hpos hfilter hrun
  exact ⟨hnumbered.idOf c hc, (hparted.lives c hc).of_settings (run_settings hrun)⟩

/-- The second of two connections is a link with the id 2. -/
theorem first_connections_are_links_two : ∃ σ, ran twoConnections = some σ ∧
    (σ.link 1).id.toNat = 2 ∧ ∃ u filter', (u < 2 ∧ MessageFilter.AtBoundary filter') ∧
      Transition.Run (Link.step (messageFilter .little .zeros)) (Transition.Anything _ _)
        (.start 1 2 u filter' 0) (σ.link 1) := by
  obtain ⟨σ, hσ, haccepted, -, hrun⟩ := run_twoConnections
  have hsecond : 1 < σ.accepted := by rw [haccepted]; decide
  exact ⟨σ, hσ, first_connections_are_links Nat.two_pos (MessageFilter.atBoundary_new 0) hrun hsecond⟩

end System
end EddyServer
