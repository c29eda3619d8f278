import EddyServer.System.Clients
import EddyServer.System.Connections

/-!
# Connections of clients

A connection that a client makes is registered like one that is accepted. Its session has the
default keep-alive time, and it lives on the thread that had the smallest load when the client was
told to connect.
-/

namespace EddyServer
namespace System

variable {Φ : Type} {F : MessageFilterInterface Φ}

/-! ## A new connection -/

section
variable {σ : System Φ} {k : TCPSessionID} (u : ThreadIx) (filter : Φ) (keepAliveTime : Nat)
  (generator : IDGenerator 32) (script : Script)

/-- A connection is registered under an id that nothing refers to. -/
theorem Separate.connected (h : Separate σ) (hk : k ≠ 0) (hfresh : σ.getSessionHandler k = none)
    (hsettled : Settled σ k) :
    Separate (σ.onSessionConnected (.new u filter keepAliveTime) k generator script) := by
  obtain ⟨τ, hcalls, heq⟩ :=
    onSessionConnected_eq σ (.new u filter keepAliveTime) k generator script
  rw [heq]
  have hpristine : (TCPSession.new u filter keepAliveTime).Pristine := ⟨filter, keepAliveTime, rfl⟩
  have hregistry := h.registry.register hfresh (.new u filter keepAliveTime) generator
  have hknown := (h.known.register (.new u filter keepAliveTime) k generator).calls hcalls
  have haddressed := (h.addressed.register h.registry hk hfresh (.new u filter keepAliveTime)
    generator).frame hregistry hcalls.frame
  have hdelivered := (h.delivered.register h.known hfresh hsettled hpristine generator).forwards
    (hcalls.forwards fun e d m hmem => by simp at hmem)
  have howned := (h.owned.register h.known hfresh hpristine generator).calls hcalls
    fun e d hmem => by simp at hmem
  -- the loads are not part of any of it
  exact {
    registry := (hregistry.keeps hcalls.keeps).keeps
      ⟨rfl, rfl, rfl, fun _ => rfl, fun _ => rfl, fun t => ⟨[], by simp, by simp⟩⟩
    known := hknown.touches ⟨rfl, fun _ _ => rfl, fun _ _ => rfl, fun _ _ => rfl,
      fun t => ⟨[], by simp, by simp⟩⟩
    addressed := ⟨haddressed.zero, haddressed.sessionId, haddressed.behind, haddressed.arrived⟩
    delivered := hdelivered.forwards (forwards_frame rfl (fun _ => .refl _)
      (fun t => ⟨[], by simp, by simp⟩) fun _ _ _ hm => .inl hm)
    owned := howned.same rfl rfl (fun _ => .refl _) rfl rfl }

theorem Placed.connected {okF : Φ → Prop} (h : Placed okF σ) (s : TCPSession Φ) :
    Placed okF (σ.onSessionConnected s k generator script) := by
  obtain ⟨τ, hcalls, heq⟩ := onSessionConnected_eq σ s k generator script
  have hregistered : Placed okF (σ.register s k generator) := by
    refine ⟨h.pos, h.length, h.accepting, fun t v filter error hmem => ?_⟩
    rcases mem_tasks_register hmem with hold | ⟨-, hinit⟩
    · exact h.queued t v filter error hold
    · cases hinit
  have hτ := hregistered.same hcalls.sameLoads
  have hthreads : τ.threads = σ.threads := hcalls.sameLoads.threads
  have hlength : (σ.threadLoad.modify s.ioThread (· + 1)).length = τ.threads := by
    rw [List.length_modify, h.length, hthreads]
  rw [heq]
  exact ⟨hτ.pos, hlength, hτ.accepting, hτ.queued⟩

end
end System

namespace Clients

variable {Φ : Type} {F : MessageFilterInterface Φ}

/-! ## Steps -/

/-- The connection that a step makes for a client: thread and filter of the session, the first id of
the pool, and the calls made in `on_connected`. -/
def connects (κ : Clients Φ) : Act Φ → Option ((ThreadIx × Φ) × TCPSessionID × Script)
  | .handleAsyncConnect t first script =>
    match κ.connected t with
    | (filter, .success) :: _ => some ((t, filter), first, script)
    | _ => none
  | .connect filter .success first script =>
    some ((System.getMinLoadThread κ.server.threadLoad, filter), first, script)
  | _ => none

/-- The id that a step draws. -/
def drawn (κ : Clients Φ) (a : Act Φ) : Option TCPSessionID :=
  match a with
  | .server a => κ.server.drawn a
  | a => (κ.connects a).bind fun x =>
      if κ.server.idGenerator.Offers x.2.1 then (κ.server.idGenerator.get x.2.1).map Prod.fst
      else none

/-- The filters of sessions to come meet `okF`. -/
def Offers (okF : Φ → Prop) : Act Φ → Prop
  | .server a => System.Offers okF a
  | .asyncConnect filter => okF filter
  | .connect filter _ _ _ => okF filter
  | .connectDone _ _ | .handleAsyncConnect _ _ _ => True

instance (okF : Φ → Prop) [DecidablePred okF] : (a : Act Φ) → Decidable (Offers okF a)
  | .server a => inferInstanceAs (Decidable (System.Offers okF a))
  | .asyncConnect filter => inferInstanceAs (Decidable (okF filter))
  | .connect filter _ _ _ => inferInstanceAs (Decidable (okF filter))
  | .connectDone _ _ | .handleAsyncConnect _ _ _ => isTrue trivial

/-- What a step of the clients does: the server takes a step, a connection is made, or nothing that
the server sees. -/
inductive Takes (F : MessageFilterInterface Φ) (κ : Clients Φ) (a : Act Φ) (κ' : Clients Φ) : Prop
  | server (b : System.Act Φ) : a = .server b → System.step F κ.server b = some κ'.server →
      Takes F κ a κ'
  | connects (u : ThreadIx) (filter : Φ) (first id : TCPSessionID) (generator : IDGenerator 32)
      (script : Script) : κ.connects a = some ((u, filter), first, script) → κ.drawn a = some id →
      κ'.server = κ.server.onSessionConnected (.new u filter 0) id generator script →
      Takes F κ a κ'
  | waits : κ'.server = κ.server → Takes F κ a κ'

theorem takes_of_step {κ κ' : Clients Φ} {a : Act Φ} (h : step F κ a = some κ') :
    Takes F κ a κ' := by
  -- a connection is made, or it has failed
  have hconnect : ∀ {u filter error first script σ}, κ.server.idGenerator.Offers first →
      handleConnect κ.server u filter error first script = some σ → κ'.server = σ →
      (error = .success → κ.connects a = some ((u, filter), first, script)) →
      (∀ b, a ≠ .server b) → Takes F κ a κ' := by
    intro u filter error first script σ hoffers hσ hserver hconnects hother
    unfold handleConnect at hσ
    split_ifs at hσ with herror
    · cases hσ
      exact .waits hserver
    · obtain ⟨⟨id, generator⟩, hget, rfl⟩ := Option.map_eq_some_iff.mp hσ
      have hmade := hconnects (not_not.mp herror)
      refine .connects u filter first id generator script hmade ?_ hserver
      unfold drawn
      cases a with
      | server b => exact absurd rfl (hother b)
      | _ =>
          dsimp only
          rw [hmade, Option.bind_some, if_pos hoffers, hget]
          rfl
  cases a with
  | server b =>
      obtain ⟨σ, hσ, rfl⟩ := Option.map_eq_some_iff.mp h
      exact .server b rfl hσ
  | asyncConnect filter =>
      cases h
      exact .waits rfl
  | connectDone i error =>
      unfold step at h
      dsimp only at h
      split at h <;> cases h
      exact .waits rfl
  | handleAsyncConnect t first script =>
      unfold step at h
      dsimp only at h
      split at h
      · cases h
      · rename_i filter error rest hconnected
        split_ifs at h with hoffers
        obtain ⟨σ, hσ, rfl⟩ := Option.map_eq_some_iff.mp h
        refine hconnect hoffers hσ rfl (fun herror => ?_) nofun
        subst herror
        unfold connects
        dsimp only
        rw [hconnected]
  | connect filter error first script =>
      unfold step at h
      dsimp only at h
      split_ifs at h with hoffers
      obtain ⟨σ, hσ, rfl⟩ := Option.map_eq_some_iff.mp h
      refine hconnect hoffers hσ rfl (fun herror => ?_) nofun
      subst herror
      rfl

/-! ## The threads of sessions -/

theorem settings_onSessionConnected (σ : System Φ) (s : TCPSession Φ) (k : TCPSessionID)
    (generator : IDGenerator 32) (script : Script) :
    (σ.onSessionConnected s k generator script).threads = σ.threads ∧
      (σ.onSessionConnected s k generator script).keepAliveTime = σ.keepAliveTime := by
  obtain ⟨τ, hcalls, heq⟩ := System.onSessionConnected_eq σ s k generator script
  rw [heq]
  obtain ⟨_, _, rfl⟩ := hcalls.same
  exact ⟨rfl, rfl⟩

theorem Takes.settings {κ κ' : Clients Φ} {a : Act Φ} (h : Takes F κ a κ') :
    κ'.server.threads = κ.server.threads ∧ κ'.server.keepAliveTime = κ.server.keepAliveTime := by
  cases h with
  | server b _ hb =>
      obtain ⟨hthreads, hkeep, -⟩ := System.step_settings hb
      exact ⟨hthreads, hkeep⟩
  | connects u filter first id generator script _ _ hserver =>
      rw [hserver]
      exact settings_onSessionConnected ..
  | waits hserver =>
      rw [hserver]
      exact ⟨rfl, rfl⟩

section
variable {okL : Link Φ → Link.Act → Prop} {okF : Φ → Prop}

/-- The sessions of clients live on threads of the manager too. -/
structure Placed (okF : Φ → Prop) (κ : Clients Φ) : Prop where
  server : System.Placed okF κ.server
  connecting : ∀ u filter, (u, filter) ∈ κ.connecting → u < κ.server.threads ∧ okF filter
  connected : ∀ u filter error, (filter, error) ∈ κ.connected u →
    u < κ.server.threads ∧ okF filter

theorem Placed.start {threads : Nat} (hpos : 0 < threads) (keepAliveTime : Nat) {filter : Φ}
    (hfilter : okF filter) : Placed okF (start threads keepAliveTime filter) where
  server := .start hpos keepAliveTime hfilter
  connecting _ _ h := absurd h List.not_mem_nil
  connected _ _ _ h := absurd h List.not_mem_nil

theorem Placed.minLoad {κ : Clients Φ} (h : Placed okF κ) :
    System.getMinLoadThread κ.server.threadLoad < κ.server.threads := by
  have hlt := @System.getMinLoadThread_lt κ.server.threadLoad
    (by rw [h.server.length]; exact h.server.pos)
  rwa [h.server.length] at hlt

/-- Where a connection is made, its thread is one of the manager's. -/
theorem Placed.connects {κ : Clients Φ} {a : Act Φ} {u : ThreadIx} {filter : Φ}
    {first : TCPSessionID} {script : Script} (h : Placed okF κ) (hoffers : Offers okF a)
    (hconnects : κ.connects a = some ((u, filter), first, script)) :
    u < κ.server.threads ∧ okF filter := by
  cases a with
  | server b => cases hconnects
  | asyncConnect filter' => cases hconnects
  | connectDone i error => cases hconnects
  | handleAsyncConnect t first' script' =>
      unfold Clients.connects at hconnects
      dsimp only at hconnects
      split at hconnects
      · rename_i rest hqueue
        cases hconnects
        exact h.connected u filter .success (by rw [hqueue]; exact List.mem_cons_self)
      · cases hconnects
  | connect filter' error first' script' =>
      cases error with
      | success =>
          cases hconnects
          exact ⟨h.minLoad, hoffers⟩
      | _ => cases hconnects

/-- Sessions begin to connect with `async_connect` only, and stay on their threads. -/
theorem waiting_of_step {κ κ' : Clients Φ} {a : Act Φ} (h : Clients.step F κ a = some κ') :
    (∀ u filter, (u, filter) ∈ κ'.connecting → (u, filter) ∈ κ.connecting ∨
        u = System.getMinLoadThread κ.server.threadLoad ∧ a = .asyncConnect filter) ∧
      ∀ u filter error, (filter, error) ∈ κ'.connected u →
        (filter, error) ∈ κ.connected u ∨ (u, filter) ∈ κ.connecting := by
  cases a with
  | server b =>
      obtain ⟨σ, -, rfl⟩ := Option.map_eq_some_iff.mp h
      exact ⟨fun _ _ hmem => .inl hmem, fun _ _ _ hmem => .inl hmem⟩
  | asyncConnect filter' =>
      cases h
      refine ⟨fun u filter hmem => ?_, fun _ _ _ hmem => .inl hmem⟩
      rcases List.mem_append.mp hmem with hold | hnew
      · exact .inl hold
      · cases List.mem_singleton.mp hnew
        exact .inr ⟨rfl, rfl⟩
  | connectDone i error' =>
      unfold Clients.step at h
      dsimp only at h
      split at h
      · cases h
      · rename_i t filter' hget
        cases h
        refine ⟨fun u filter hmem => .inl (List.mem_of_mem_eraseIdx hmem),
          fun u filter error hmem => ?_⟩
        by_cases hu : u = t
        · subst hu
          dsimp only at hmem
          rw [Function.update_self] at hmem
          rcases List.mem_append.mp hmem with hold | hnew
          · exact .inl hold
          · cases List.mem_singleton.mp hnew
            exact .inr (List.mem_of_getElem? hget)
        · dsimp only at hmem
          rw [Function.update_of_ne hu] at hmem
          exact .inl hmem
  | handleAsyncConnect t first script =>
      unfold Clients.step at h
      dsimp only at h
      split at h
      · cases h
      · rename_i filter' error' rest hqueue
        split_ifs at h
        obtain ⟨σ, -, rfl⟩ := Option.map_eq_some_iff.mp h
        refine ⟨fun _ _ hmem => .inl hmem, fun u filter error hmem => .inl ?_⟩
        dsimp only at hmem
        by_cases hu : u = t
        · subst hu
          rw [Function.update_self] at hmem
          rw [hqueue]
          exact List.mem_cons_of_mem _ hmem
        · rwa [Function.update_of_ne hu] at hmem
  | connect filter' error' first script =>
      unfold Clients.step at h
      dsimp only at h
      split_ifs at h
      obtain ⟨σ, -, rfl⟩ := Option.map_eq_some_iff.mp h
      exact ⟨fun _ _ hmem => .inl hmem, fun _ _ _ hmem => .inl hmem⟩

theorem Placed.step {κ κ' : Clients Φ} {a : Act Φ} (h : Placed okF κ) (hoffers : Offers okF a)
    (hstep : Clients.step F κ a = some κ') : Placed okF κ' := by
  have htakes := takes_of_step hstep
  obtain ⟨hthreads, -⟩ := htakes.settings
  obtain ⟨hconnecting, hconnected⟩ := waiting_of_step hstep
  have hserver : System.Placed okF κ'.server := by
    cases htakes with
    | server b ha hb =>
        subst ha
        exact h.server.step hoffers hb
    | connects u filter first id generator script _ _ hserver =>
        rw [hserver]
        exact h.server.connected generator script _
    | waits hserver =>
        rw [hserver]
        exact h.server
  refine ⟨hserver, fun u filter hmem => ?_, fun u filter error hmem => ?_⟩
  · rw [hthreads]
    rcases hconnecting u filter hmem with hold | ⟨rfl, rfl⟩
    · exact h.connecting u filter hold
    · exact ⟨h.minLoad, hoffers⟩
  · rw [hthreads]
    rcases hconnected u filter error hmem with hold | hnew
    · exact h.connected u filter error hold
    · exact h.connecting u filter hnew

/-! ## Runs -/

/-- If the step draws an id, or opens a session, that id is no other connection's. -/
structure DrawsApart (κ : Clients Φ) (a : Act Φ) : Prop where
  settled : ∀ id, κ.drawn a = some id →
    κ.server.getSessionHandler id = none ∧ System.Settled κ.server id
  nonzero : ∀ id, κ.drawn a = some id → id ≠ 0
  opensAlone : ∀ b, a = .server b → System.OpensAlone κ.server b

/-- The calls made in `on_connected` when a step makes or accepts a connection. -/
def greeting (κ : Clients Φ) : Act Φ → Script
  | .server b => System.greeting b
  | a => match κ.connects a with
    | some (_, _, script) => script
    | none => []

/-- What a step is to connection `c`. -/
def project (κ : Clients Φ) (c : Conn) : Act Φ → Link.Act
  | .server b => κ.server.project c b
  | a => .logic (Script.on c (κ.greeting a))

/-- The condition `okL` on the steps of a link, for every connection, as for the server. -/
structure Projects (okL : Link Φ → Link.Act → Prop) (okF : Φ → Prop) (κ : Clients Φ) (a : Act Φ) :
    Prop where
  project : ∀ c < κ.server.accepted, okL (κ.server.link c) (κ.project c a)
  begins : ∀ ℓ id, κ.drawn a = some id → ℓ.registered = false →
    okL ℓ (.tick κ.server.clock) ∧
      okL ℓ (.connect id (Script.on κ.server.accepted (κ.greeting a)))
  offers : Offers okF a

/-- Connection `c` has had a life of its own, with the keep-alive time of the server or with the
default. -/
def Lives (F : MessageFilterInterface Φ) (okL : Link Φ → Link.Act → Prop) (okF : Φ → Prop)
    (σ : System Φ) (c : Conn) : Prop :=
  ∃ u filter keepAliveTime, ((u < σ.threads ∧ okF filter) ∧
      (keepAliveTime = σ.keepAliveTime ∨ keepAliveTime = 0)) ∧
    Transition.Run (Link.step F) okL (.start c σ.threads u filter keepAliveTime) (σ.link c)

theorem Lives.toLifecycle {σ : System Φ} {c : Conn} (h : Lives F okL okF σ c) :
    Link.Lifecycle (σ.link c) := by
  obtain ⟨u, filter, keepAliveTime, ⟨⟨hu, -⟩, -⟩, hrun⟩ := h
  exact hrun.invariant (fun hl _ hstep => hl.step hstep) (.start hu c filter keepAliveTime)

/-- What holds of the server, of its clients and of all connections. -/
structure Parted (F : MessageFilterInterface Φ) (okL : Link Φ → Link.Act → Prop) (okF : Φ → Prop)
    (κ : Clients Φ) : Prop where
  separate : System.Separate κ.server
  placed : Placed okF κ
  lives : ∀ c < κ.server.accepted, Lives F okL okF κ.server c

theorem Parted.start {threads : Nat} (hpos : 0 < threads) (keepAliveTime : Nat) {filter : Φ}
    (hfilter : okF filter) : Parted F okL okF (start threads keepAliveTime filter) where
  separate := .start threads keepAliveTime filter
  placed := .start hpos keepAliveTime hfilter
  lives c hc := absurd hc (Nat.not_lt_zero c)

/-- A connection goes on as a link goes on. -/
theorem Lives.tail {σ σ' : System Φ} {c : Conn} {a : Link.Act} (h : Lives F okL okF σ c)
    (hsettings : σ'.threads = σ.threads ∧ σ'.keepAliveTime = σ.keepAliveTime)
    (hok : okL (σ.link c) a) (hstep : Link.step F (σ.link c) a = some (σ'.link c)) :
    Lives F okL okF σ' c := by
  obtain ⟨u, filter, keepAliveTime, hplaced, hrun⟩ := h
  unfold Lives
  rw [hsettings.1, hsettings.2]
  exact ⟨u, filter, keepAliveTime, hplaced, hrun.tail hok hstep⟩

/-- A connection begins. -/
theorem Lives.begin {σ σ' : System Φ} {c : Conn} {u : ThreadIx} {filter : Φ} {keepAliveTime : Nat}
    {clock : Nat} {id : TCPSessionID} {script : List Call}
    (hsettings : σ'.threads = σ.threads ∧ σ'.keepAliveTime = σ.keepAliveTime)
    (hplaced : (u < σ.threads ∧ okF filter) ∧
      (keepAliveTime = σ.keepAliveTime ∨ keepAliveTime = 0))
    (hok : ∀ ℓ : Link Φ, ℓ.registered = false →
      okL ℓ (.tick clock) ∧ okL ℓ (.connect id script))
    (hexec : Transition.exec (Link.step F) (.start c σ.threads u filter keepAliveTime)
      [.tick clock, .connect id script] = some (σ'.link c)) : Lives F okL okF σ' c := by
  unfold Lives
  rw [hsettings.1, hsettings.2]
  refine ⟨u, filter, keepAliveTime, hplaced, Transition.run_of_exec hexec
    ⟨(hok _ rfl).1, fun ℓ hℓ => ?_⟩⟩
  cases hℓ
  exact ⟨(hok _ rfl).2, fun _ _ => trivial⟩

theorem Parted.step {κ κ' : Clients Φ} {a : Act Φ} (h : Parted F okL okF κ)
    (ha : DrawsApart κ a) (hok : Projects okL okF κ a) (hstep : Clients.step F κ a = some κ') :
    Parted F okL okF κ' := by
  have hplaced := h.placed.step hok.offers hstep
  have hsettings := (takes_of_step hstep).settings
  cases takes_of_step hstep with
  | server b hb hserver =>
      subst hb
      have hapart : System.DrawsApart κ.server b := ⟨ha.settled, ha.nonzero, ha.opensAlone b rfl⟩
      have hold : ∀ c < κ.server.accepted, Lives F okL okF κ'.server c := fun c hc =>
        (h.lives c hc).tail hsettings (hok.project c hc) (h.separate.step_link hapart
          (fun d hd => (h.lives d hd).toLifecycle) hserver hc)
      refine ⟨h.separate.step hapart hserver, hplaced, fun c hc => ?_⟩
      obtain ⟨-, -, hsame | ⟨id, hid⟩⟩ := System.step_settings hserver
      · exact hold c (hsame ▸ hc)
      · obtain ⟨hnew, u, filter, hu, hexec⟩ :=
          h.separate.begins h.placed.server hapart hserver hid
        rcases Nat.lt_succ_iff_lt_or_eq.mp (hnew ▸ hc) with hlt | rfl
        · exact hold c hlt
        · exact .begin hsettings ⟨hu, .inl rfl⟩ (fun ℓ hℓ => hok.begins ℓ id hid hℓ) hexec
  | connects u filter first id generator script hconnects hdrawn hserver =>
      obtain ⟨hfresh, hsettled⟩ := ha.settled id hdrawn
      have hid := ha.nonzero id hdrawn
      have hgreeting : κ.greeting a = script := by
        cases a with
        | server b => cases hconnects
        | _ => simp only [greeting, hconnects]
      have hproject : ∀ c, κ.project c a = .logic (Script.on c script) := by
        intro c
        rw [← hgreeting]
        cases a with
        | server b => cases hconnects
        | _ => rfl
      refine ⟨?_, hplaced, fun c hc => ?_⟩
      · rw [hserver]
        exact h.separate.connected u filter 0 generator script hid hfresh hsettled
      · rw [hserver, System.accepted_onSessionConnected] at hc
        rcases Nat.lt_succ_iff_lt_or_eq.mp hc with hlt | rfl
        · refine (h.lives c hlt).tail hsettings (hok.project c hlt) ?_
          rw [hproject, hserver]
          exact System.link_connected_of_lt hfresh _ generator script hlt
        · refine .begin hsettings ⟨h.placed.connects hok.offers hconnects, .inr rfl⟩
            (fun ℓ hℓ => hok.begins ℓ id hdrawn hℓ) ?_
          rw [hgreeting, hserver]
          exact System.link_connected h.separate.known (h.separate.getSession_zero u) hid hfresh
            filter 0 generator script
  | waits hserver =>
      refine ⟨hserver ▸ h.separate, hplaced, fun c hc => ?_⟩
      rw [hserver] at hc ⊢
      exact h.lives c hc

theorem run_settings {ok : Clients Φ → Act Φ → Prop} {κ κ' : Clients Φ}
    (hrun : Transition.Run (Clients.step F) ok κ κ') :
    κ'.server.threads = κ.server.threads ∧
      κ'.server.keepAliveTime = κ.server.keepAliveTime :=
  hrun.invariant (I := fun ϰ => ϰ.server.threads = κ.server.threads ∧
      ϰ.server.keepAliveTime = κ.server.keepAliveTime)
    (fun h _ hstep =>
      have hsame := (takes_of_step hstep).settings
      ⟨hsame.1.trans h.1, hsame.2.trans h.2⟩) ⟨rfl, rfl⟩

end

/-- **Every connection is a link, whoever makes it.** In a run of the server and its clients that
draws ids apart, with `connect` and `async_connect` at any time, what has happened to a connection
is a run of a link that begins on its own, on a thread of the manager, under any condition `okL`
that the steps impose on those of the links; its keep-alive time is that of the server, or the
default. -/
theorem connections_of_clients_are_links {okL : Link Φ → Link.Act → Prop} {okF : Φ → Prop}
    {threads : Nat} (hpos : 0 < threads) {keepAliveTime : Nat} {filter : Φ} (hfilter : okF filter)
    {κ : Clients Φ}
    (hrun : Transition.Run (Clients.step F) (fun κ a => DrawsApart κ a ∧ Projects okL okF κ a)
      (Clients.start threads keepAliveTime filter) κ) {c : Conn} (hc : c < κ.server.accepted) :
    ∃ u filter' keepAliveTime', ((u < threads ∧ okF filter') ∧
        (keepAliveTime' = keepAliveTime ∨ keepAliveTime' = 0)) ∧
      Transition.Run (Link.step F) okL (.start c threads u filter' keepAliveTime')
        (κ.server.link c) := by
  have hparted : Parted F okL okF κ := hrun.invariant
    (fun h ha hstep => h.step ha.1 ha.2 hstep) (.start hpos keepAliveTime hfilter)
  obtain ⟨hthreads, hkeep⟩ := run_settings hrun
  have hlives := hparted.lives c hc
  unfold Lives at hlives
  rw [hthreads, hkeep] at hlives
  exact hlives

/-- If the step draws an id it is the first one, and no session opens under an id that another one
reads under. -/
def DrawsFirst (κ : Clients Φ) (a : Act Φ) : Bool :=
  (match κ.drawn a with
    | none => true
    | some id =>
      decide (κ.server.accepted = 0 ∧ id ≠ 0 ∧ κ.server.getSessionHandler id = none)) &&
  match a with
    | .server b => decide (System.OpensAloneBelow κ.server b)
    | _ => true

theorem Parted.drawsApart {okL : Link Φ → Link.Act → Prop} {okF : Φ → Prop} {κ : Clients Φ}
    {a : Act Φ} (h : Parted F okL okF κ) (hfirst : DrawsFirst κ a = true) : DrawsApart κ a := by
  obtain ⟨hdraws, hopens⟩ := Bool.and_eq_true_iff.mp hfirst
  have hdrawn : ∀ id, κ.drawn a = some id →
      κ.server.accepted = 0 ∧ id ≠ 0 ∧ κ.server.getSessionHandler id = none := by
    intro id hid
    rw [hid] at hdraws
    exact of_decide_eq_true hdraws
  refine ⟨fun id hid => ?_, fun id hid => (hdrawn id hid).2.1, fun b hb => ?_⟩
  · obtain ⟨hnone, -, hfresh⟩ := hdrawn id hid
    exact ⟨hfresh, h.separate.known.settled hnone id⟩
  · subst hb
    exact h.separate.known.opensAlone (of_decide_eq_true hopens)

/-- A worker makes a connection for a client, and opens its session. -/
def oneClient : List (Act MessageFilter) :=
  [.asyncConnect (.new 0), .connectDone 0 .success, .handleAsyncConnect 1 0 [],
    .server (.run 1 [] 0 (.new 0))]

/-- It is a link that has begun on the worker, though the keep-alive time of the server is 60. -/
theorem connections_of_clients_are_links_one : ∃ κ u filter' keepAliveTime',
    Transition.exec (Clients.step (messageFilter .little .zeros)) (Clients.start 2 60 (.new 0))
      oneClient = some κ ∧
    ((κ.server.sessions 0).sessionId = 1 ∧ (κ.server.sessions 0).keepAliveTime = 0) ∧
    ((u < 2 ∧ MessageFilter.AtBoundary filter') ∧ (keepAliveTime' = 60 ∨ keepAliveTime' = 0)) ∧
    Transition.Run (Link.step (messageFilter .little .zeros)) (Transition.Anything _ _)
      (.start 0 2 u filter' keepAliveTime') (κ.server.link 0) := by
  obtain ⟨κ, hκ, hview⟩ := Option.map_eq_some_iff.mp (show
    (Transition.exec (Clients.step (messageFilter .little .zeros)) (Clients.start 2 60 (.new 0))
      oneClient).map (fun κ => (κ.server.accepted, (κ.server.sessions 0).sessionId,
        (κ.server.sessions 0).keepAliveTime)) = some (1, 1, 0) by decide +kernel)
  obtain ⟨haccepted, hsession⟩ := Prod.mk.inj hview
  have hprojects : ∀ {κ : Clients MessageFilter} {a : Act MessageFilter},
      Offers MessageFilter.AtBoundary a →
      Projects (Transition.Anything _ _) MessageFilter.AtBoundary κ a := fun hoffers =>
    ⟨fun _ _ => trivial, fun _ _ _ _ => ⟨trivial, trivial⟩, hoffers⟩
  have hrun : Transition.Run (Clients.step (messageFilter .little .zeros))
      (fun κ a => DrawsApart κ a ∧
        Projects (Transition.Anything _ _) MessageFilter.AtBoundary κ a)
      (Clients.start 2 60 (.new 0)) κ :=
    Transition.run_of_exec_of_invariant
      (I := Parted (messageFilter .little .zeros) (Transition.Anything _ _) MessageFilter.AtBoundary)
      (P := fun κ a => DrawsFirst κ a = true ∧ Offers MessageFilter.AtBoundary a)
      (fun hi ha hstep => hi.step ha.1 ha.2 hstep)
      (fun hi ha => ⟨hi.drawsApart ha.1, hprojects ha.2⟩)
      (.start Nat.two_pos 60 (MessageFilter.atBoundary_new 0)) hκ (by decide +kernel)
  obtain ⟨u, filter', keepAliveTime', hplaced, hlink⟩ := connections_of_clients_are_links Nat.two_pos
    (MessageFilter.atBoundary_new 0) hrun (by rw [haccepted]; exact Nat.one_pos)
  exact ⟨κ, u, filter', keepAliveTime', hκ, Prod.mk.inj hsession, hplaced, hlink⟩

end Clients
end EddyServer
