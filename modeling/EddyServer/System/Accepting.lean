import EddyServer.System.Registration

/-!
# Accepting again

`handle_accept` starts the next `async_accept` with its last statement. It does not come to that
statement when the completion carries an error, or when `on_session_connected` throws: the exception
leaves `run` of the main thread, and a program that catches it and calls `run` again has a server
that serves its sessions and hears of no new one.

The session that waits in `async_accept` is an object here, so sessions are numbered as they are
constructed. Between two completions the server does whatever it does.
-/

namespace EddyServer

/-- The acceptor of a server. -/
structure Accepting (Φ : Type) where
  manager : Registering Φ
  /-- The number of sessions that have been constructed. -/
  constructed : Nat
  /-- The sessions on whose sockets an `async_accept` is outstanding. -/
  outstanding : List Conn
  /-- The sessions that `on_session_connected` has returned for, in order. -/
  registered : List Conn

namespace Accepting

variable {Φ : Type} (F : MessageFilterInterface Φ)

/-- A session is constructed on the thread with the smallest load, with a filter that
`message_filter_creator_` has returned, and `async_accept` is started on its socket. -/
def asyncAccept (α : Accepting Φ) (filter : Φ) : Accepting Φ :=
  let σ := α.manager.server
  let session := TCPSession.new (System.getMinLoadThread σ.threadLoad) filter σ.keepAliveTime
  { α with
    manager := { α.manager with
      server := { σ with sessions := Function.update σ.sessions α.constructed session } }
    constructed := α.constructed + 1
    outstanding := α.outstanding ++ [α.constructed] }

/-- The manager when `session_handler_creator_` has made a handler for session `c`. -/
def withHandler (α : Accepting Φ) (c : Conn) : Registering Φ :=
  { α.manager with
    server := { α.manager.server with
      handlers := Function.update α.manager.server.handlers c .new } }

/-- `TCPServer::handle_accept` for session `c`; `endpoint`, `script` and `returns` are as for
`on_session_connected`. -/
def handleAccept (α : Accepting Φ) (c : Conn) (error : ErrorCode) (first : TCPSessionID)
    (endpoint : Bool) (script : Script) (returns : Bool) (nextFilter : Φ) : Accepting Φ :=
  -- Behind `assert(false)`, where only a release build arrives.
  if error ≠ .success then α
  else
    match (α.withHandler c).onSessionConnected c c first endpoint script returns with
    | (ρ, some _) => { α with manager := ρ }
    | (ρ, none) =>
      ({ α with manager := ρ, registered := α.registered ++ [c] } : Accepting Φ).asyncAccept
        nextFilter

/-- `TCPServer::TCPServer`, for a manager that has just been constructed. -/
def start (threads keepAliveTime : Nat) (filter : Φ) : Accepting Φ :=
  ({ manager := ⟨{ System.start threads keepAliveTime filter with accepting := none }, ∅⟩
     constructed := 0
     outstanding := []
     registered := [] } : Accepting Φ).asyncAccept filter

inductive Act (Φ : Type)
  /-- An `async_accept` completes, and its handler runs. -/
  | accept (c : Conn) (error : ErrorCode) (first : TCPSessionID) (endpoint : Bool)
    (script : Script) (returns : Bool) (nextFilter : Φ)
  /-- A step that has nothing to do with the acceptor. -/
  | other (a : System.Act Φ)

def step (α : Accepting Φ) : Act Φ → Option (Accepting Φ)
  | .accept c error first endpoint script returns nextFilter =>
    if c ∈ α.outstanding ∧ α.manager.server.idGenerator.Offers first then
      let α := { α with outstanding := α.outstanding.erase c }
      some (α.handleAccept c error first endpoint script returns nextFilter)
    else none
  | .other a =>
    (System.step F α.manager.server a).map fun σ =>
      { α with manager := { α.manager with server := σ } }

/-! ## The next `async_accept` -/

/-- One `async_accept` is outstanding, on the socket of a session that is not registered, and what
has been registered was registered once. -/
def Listening (α : Accepting Φ) : Prop :=
  (∃ c, α.outstanding = [c] ∧ c ∉ α.registered) ∧ α.registered.Nodup

/-- The completion has no error, and nothing in `on_session_connected` throws: there is an id, and
`remote_endpoint` and `on_connected` return. -/
def Succeeds (α : Accepting Φ) : Act Φ → Prop
  | .accept _ error _ endpoint _ returns _ =>
    error = .success ∧ ¬ α.manager.NoId ∧ endpoint = true ∧ returns = true
  | .other _ => True

instance (ρ : Registering Φ) : Decidable ρ.NoId := inferInstanceAs (Decidable (_ ∧ _))

instance (α : Accepting Φ) : ∀ a, Decidable (α.Succeeds a)
  | .accept .. => inferInstanceAs (Decidable (_ ∧ ¬ Registering.NoId _ ∧ _ ∧ _))
  | .other _ => isTrue trivial

/-- Every session has a number that was given out. -/
structure Numbered (α : Accepting Φ) : Prop where
  outstanding : ∀ c ∈ α.outstanding, c < α.constructed
  registered : ∀ c ∈ α.registered, c < α.constructed

variable {F} {α β : Accepting Φ} {c : Conn} {error : ErrorCode} {first : TCPSessionID}
  {endpoint returns : Bool} {script : Script} {nextFilter filter : Φ}

/-- `on_session_connected` returns exactly if there is an id and nothing throws. -/
theorem onSessionConnected_returns_iff {ρ : Registering Φ} {h : Conn} :
    (ρ.onSessionConnected c h first endpoint script returns).2 = none ↔
      ¬ ρ.NoId ∧ endpoint = true ∧ returns = true := by
  have hnone : ρ.server.idGenerator.get first = none ↔ ρ.NoId := Registering.get_eq_none_iff
  rw [← hnone]
  unfold Registering.onSessionConnected
  cases ρ.server.idGenerator.get first with
  | none => simp
  | some draw => cases endpoint <;> cases returns <;> simp

/-- A new handler does not change what the generator has. -/
theorem withHandler_returns_iff :
    ((α.withHandler c).onSessionConnected c c first endpoint script returns).2 = none ↔
      ¬ α.manager.NoId ∧ endpoint = true ∧ returns = true :=
  onSessionConnected_returns_iff

theorem handleAccept_eq (α : Accepting Φ) (c : Conn) (first : TCPSessionID) (script : Script)
    (nextFilter : Φ)
    (h : error = .success ∧ ¬ α.manager.NoId ∧ endpoint = true ∧ returns = true) :
    ∃ ρ, (α.withHandler c).onSessionConnected c c first endpoint script returns = (ρ, none) ∧
      α.handleAccept c error first endpoint script returns nextFilter =
        ({ α with manager := ρ, registered := α.registered ++ [c] } : Accepting Φ).asyncAccept
          nextFilter := by
  obtain ⟨rfl, hreturns⟩ := h
  have hnone : ((α.withHandler c).onSessionConnected c c first endpoint script returns).2 = none :=
    withHandler_returns_iff.mpr hreturns
  rw [handleAccept, if_neg (not_not.mpr rfl)]
  generalize (α.withHandler c).onSessionConnected c c first endpoint script returns = result
    at hnone ⊢
  obtain ⟨ρ, thrown⟩ := result
  obtain rfl : thrown = none := hnone
  exact ⟨ρ, rfl, rfl⟩

/-- **A completion that succeeds** registers its session and waits for the next one. -/
theorem handleAccept_succeeds (α : Accepting Φ) (c : Conn) (first : TCPSessionID)
    (script : Script) (nextFilter : Φ)
    (h : error = .success ∧ ¬ α.manager.NoId ∧ endpoint = true ∧ returns = true) :
    (α.handleAccept c error first endpoint script returns nextFilter).outstanding =
        α.outstanding ++ [α.constructed] ∧
      (α.handleAccept c error first endpoint script returns nextFilter).registered =
        α.registered ++ [c] ∧
      (α.handleAccept c error first endpoint script returns nextFilter).constructed =
        α.constructed + 1 := by
  obtain ⟨ρ, -, heq⟩ := handleAccept_eq α c first script nextFilter h
  rw [heq]
  exact ⟨rfl, rfl, rfl⟩

/-- What it does to the manager is what `on_session_connected` of a server does. -/
theorem connected_handleAccept (α : Accepting Φ) (c : Conn) (first : TCPSessionID)
    (script : Script) (nextFilter : Φ)
    (h : error = .success ∧ ¬ α.manager.NoId ∧ endpoint = true ∧ returns = true) :
    ∃ σ, (α.withHandler c).server.connected c c first script = some σ ∧
      (α.handleAccept c error first endpoint script returns nextFilter).manager.server =
        { σ with
          sessions := Function.update σ.sessions α.constructed
            (.new (System.getMinLoadThread σ.threadLoad) nextFilter σ.keepAliveTime) } := by
  obtain ⟨ρ, hreturns, heq⟩ := handleAccept_eq α c first script nextFilter h
  refine ⟨ρ.server, Registering.connected_of_returns hreturns, ?_⟩
  rw [heq]
  rfl

/-- **A completion that fails** leaves the acceptor as it is. -/
theorem handleAccept_fails (α : Accepting Φ) (c : Conn) (first : TCPSessionID)
    (script : Script) (nextFilter : Φ)
    (h : ¬ (error = .success ∧ ¬ α.manager.NoId ∧ endpoint = true ∧ returns = true)) :
    (α.handleAccept c error first endpoint script returns nextFilter).outstanding =
        α.outstanding ∧
      (α.handleAccept c error first endpoint script returns nextFilter).registered =
        α.registered := by
  unfold handleAccept
  by_cases herror : error = .success
  · subst herror
    rw [if_neg (not_not.mpr rfl)]
    have hsome :
        ((α.withHandler c).onSessionConnected c c first endpoint script returns).2 ≠ none :=
      fun hnone => h ⟨rfl, withHandler_returns_iff.mp hnone⟩
    generalize (α.withHandler c).onSessionConnected c c first endpoint script returns = result
      at hsome ⊢
    obtain ⟨ρ, thrown⟩ := result
    cases thrown with
    | none => exact absurd rfl hsome
    | some thrown => exact ⟨rfl, rfl⟩
  · rw [if_pos herror]
    exact ⟨rfl, rfl⟩

theorem listening_start (threads keepAliveTime : Nat) (filter : Φ) :
    (start threads keepAliveTime filter).Listening ∧
      (start threads keepAliveTime filter).Numbered :=
  ⟨⟨⟨0, rfl, List.not_mem_nil⟩, List.nodup_nil⟩, by simp [start, asyncAccept],
    by simp [start, asyncAccept]⟩

/-- **One step of a server that listens.** It goes on listening exactly if the step succeeds, and
otherwise there is no `async_accept` any more. -/
theorem Listening.step {a : Act Φ} (h : α.Listening) (hnumbered : α.Numbered)
    (hstep : step F α a = some β) :
    (α.Succeeds a → β.Listening ∧ β.Numbered) ∧ (¬ α.Succeeds a → β.outstanding = []) ∧
      β.registered.Nodup := by
  obtain ⟨⟨c, hc, hfresh⟩, hnodup⟩ := h
  cases a with
  | other a =>
      obtain ⟨σ, -, rfl⟩ := Option.map_eq_some_iff.mp hstep
      exact ⟨fun _ => ⟨⟨⟨c, hc, hfresh⟩, hnodup⟩, hnumbered.outstanding, hnumbered.registered⟩,
        fun hno => absurd trivial hno, hnodup⟩
  | accept d error first endpoint script returns nextFilter =>
      unfold Accepting.step at hstep
      dsimp only at hstep
      split_ifs at hstep with hcan
      cases hstep
      -- only the session that waits can be accepted
      obtain rfl : d = c := by
        have hmem := hcan.1
        rw [hc] at hmem
        exact List.mem_singleton.mp hmem
      have hlt : d < α.constructed :=
        hnumbered.outstanding d (by rw [hc]; exact List.mem_singleton_self d)
      have hnone : α.outstanding.erase d = [] := by simp [hc]
      rw [hnone]
      by_cases hsucceeds : α.Succeeds (.accept d error first endpoint script returns nextFilter)
      · obtain ⟨hout, hreg, hcount⟩ := handleAccept_succeeds { α with outstanding := [] } d first
          script nextFilter hsucceeds
        generalize Accepting.handleAccept _ d error first endpoint script returns nextFilter = β
          at hout hreg hcount ⊢
        dsimp only at hout hreg hcount
        have hnodup' : β.registered.Nodup := by
          rw [hreg]
          exact hnodup.append (List.nodup_singleton d) (List.disjoint_singleton.mpr hfresh)
        refine ⟨fun _ => ⟨⟨⟨α.constructed, hout, ?_⟩, hnodup'⟩, ?_, ?_⟩,
          fun hno => absurd hsucceeds hno, hnodup'⟩
        · -- the number is new
          rw [hreg, List.mem_append, List.mem_singleton]
          rintro (hold | hd)
          · exact Nat.lt_irrefl _ (hnumbered.registered _ hold)
          · exact Nat.ne_of_gt hlt hd
        · intro e he
          rw [hout] at he
          rw [hcount, List.mem_singleton.mp he]
          exact Nat.lt_succ_self _
        · intro e he
          rw [hreg, List.mem_append, List.mem_singleton] at he
          rw [hcount]
          rcases he with hold | rfl
          · exact Nat.lt_succ_of_lt (hnumbered.registered e hold)
          · exact Nat.lt_succ_of_lt hlt
      · obtain ⟨hout, hreg⟩ := handleAccept_fails { α with outstanding := [] } d first script
          nextFilter hsucceeds
        generalize Accepting.handleAccept _ d error first endpoint script returns nextFilter = β
          at hout hreg ⊢
        exact ⟨fun hyes => absurd hyes hsucceeds, fun _ => hout, by rw [hreg]; exact hnodup⟩

/-! ## Runs -/

/-- A server that does not listen never listens again. -/
theorem deaf_step {a : Act Φ} (hdeaf : α.outstanding = []) (hstep : step F α a = some β) :
    β.outstanding = [] ∧ β.registered = α.registered := by
  cases a with
  | accept c error first endpoint script returns nextFilter =>
      unfold Accepting.step at hstep
      dsimp only at hstep
      split_ifs at hstep with hcan
      have hmem := hcan.1
      rw [hdeaf] at hmem
      cases hmem
  | other a =>
      obtain ⟨σ, -, rfl⟩ := Option.map_eq_some_iff.mp hstep
      exact ⟨hdeaf, rfl⟩

theorem not_listening_of_deaf (hdeaf : α.outstanding = []) : ¬ α.Listening := by
  rintro ⟨⟨c, hc, -⟩, -⟩
  rw [hdeaf] at hc
  cases hc

theorem Listening.exec {labels : List (Act Φ)} (h : α.Listening) (hnumbered : α.Numbered)
    (hexec : Transition.exec (Accepting.step F) α labels = some β) :
    (β.Listening ↔ Transition.Allowed (Accepting.step F) Succeeds α labels) ∧
      (¬ β.Listening → β.outstanding = []) ∧ β.registered.Nodup := by
  induction labels generalizing α with
  | nil =>
      cases hexec
      exact ⟨iff_of_true h trivial, fun hno => absurd h hno, h.2⟩
  | cons a labels ih =>
      obtain ⟨γ, hγ, hrest⟩ := Option.bind_eq_some_iff.mp hexec
      obtain ⟨hgoes, hends, hnodup⟩ := h.step hnumbered hγ
      by_cases hsucceeds : α.Succeeds a
      · obtain ⟨hlistening, hnumbered'⟩ := hgoes hsucceeds
        obtain ⟨hiff, hothers⟩ := ih hlistening hnumbered' hrest
        refine ⟨hiff.trans ?_, hothers⟩
        constructor
        · intro hallowed
          refine ⟨hsucceeds, fun γ' hγ' => ?_⟩
          rw [Option.mem_def, hγ] at hγ'
          cases hγ'
          exact hallowed
        · intro hallowed
          exact hallowed.2 γ hγ
      · -- from here on there is no completion
        have hkept : β.outstanding = [] ∧ β.registered.Nodup := by
          refine (Transition.reach_of_exec hrest).invariant
            (I := fun α => α.outstanding = [] ∧ α.registered.Nodup)
            (fun {α a β} hi _ hst => ?_) ⟨hends hsucceeds, hnodup⟩
          obtain ⟨hdeaf, hsame⟩ := deaf_step hi.1 hst
          exact ⟨hdeaf, by rw [hsame]; exact hi.2⟩
        exact ⟨iff_of_false (not_listening_of_deaf hkept.1) fun hallowed => hsucceeds hallowed.1,
          fun _ => hkept.1, hkept.2⟩

/-- **A server listens exactly as long as its completions succeed.** After the first one that does
not there is no `async_accept` any more, however the run goes on. -/
theorem listening_iff {threads keepAliveTime : Nat} {filter : Φ} {labels : List (Act Φ)}
    (hexec : Transition.exec (step F) (start threads keepAliveTime filter) labels = some α) :
    (α.Listening ↔
        Transition.Allowed (step F) Succeeds (start threads keepAliveTime filter) labels) ∧
      (¬ α.Listening → α.outstanding = []) ∧ α.registered.Nodup :=
  have hstart := listening_start threads keepAliveTime filter
  hstart.1.exec hstart.2 hexec

/-- A server with a worker thread and the default filter, after the labels of a list. -/
def ran (labels : List (Act MessageFilter)) : Option (Accepting MessageFilter) :=
  Transition.exec (step (messageFilter .little .zeros)) (start 2 0 (.new 0)) labels

/-- Two connections, and the server listens for a third one. -/
theorem listening_iff_two_connections :
    ∃ α, ran [.accept 0 .success 0 true [] true (.new 0),
        .accept 1 .success 0 true [] true (.new 0)] = some α ∧
      α.registered = [0, 1] ∧ α.Listening := by
  have hexec : ran [.accept 0 .success 0 true [] true (.new 0),
      .accept 1 .success 0 true [] true (.new 0)] = some _ := rfl
  exact ⟨_, hexec, rfl, (listening_iff hexec).1.mpr (by decide +kernel)⟩

/-- A completion with an error, and a peer that has gone before `remote_endpoint` is called. -/
theorem server_goes_deaf :
    (∃ α, ran [.accept 0 .other 0 true [] true (.new 0)] = some α ∧ ¬ α.Listening) ∧
      ∃ α, ran [.accept 0 .success 0 true [] true (.new 0),
          .accept 1 .success 0 false [] true (.new 0)] = some α ∧
        α.registered = [0] ∧ ¬ α.Listening :=
  ⟨⟨_, rfl, not_listening_of_deaf rfl⟩, _, rfl, rfl, not_listening_of_deaf rfl⟩

end Accepting
end EddyServer
