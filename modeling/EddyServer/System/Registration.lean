import EddyServer.System.Accounting

/-!
# Registrations that fail

`on_session_connected` can end by an exception at three points: the generator has no id left,
`remote_endpoint` of the socket throws, or `on_connected` does. What has been done until then is not
undone.
-/

namespace EddyServer

/-- The part of `on_session_connected` that throws. -/
inductive Thrown
  | noId
  | remoteEndpoint
  | onConnected
  deriving DecidableEq, Repr

/-- A server, and the ids its generator has ever given out. -/
structure Registering (Φ : Type) where
  server : System Φ
  issued : Finset TCPSessionID

namespace Registering

variable {Φ : Type}

/-- The ids that have been given out and are neither registered nor back in the pool. -/
def lost (ρ : Registering Φ) : Finset TCPSessionID :=
  ρ.issued.filter fun k =>
    ρ.server.getSessionHandler k = none ∧ k ∉ ρ.server.idGenerator.pools

/-- `on_session_connected` for session `c` and handler `h`, with what it throws. `endpoint` says
whether `remote_endpoint` returns; `on_connected` makes the calls of a script and returns if
`returns`. -/
def onSessionConnected (ρ : Registering Φ) (c h : Conn) (first : TCPSessionID) (endpoint : Bool)
    (script : Script) (returns : Bool) : Registering Φ × Option Thrown :=
  match ρ.server.idGenerator.get first with
  | none => (ρ, some .noId)
  | some (id, generator) =>
    let σ := { ρ.server with idGenerator := generator }
    let issued := insert id ρ.issued
    if endpoint then
      let t := (σ.sessions c).ioThread
      let σ := { σ with
        handlers := Function.update σ.handlers h ((σ.handlers h).init id (threadId t))
        sessionHandlerMap := σ.sessionHandlerMap.add id h }
      let σ := (σ.post t (.on c (.init id))).callback h .onConnected script
      if returns then (⟨σ.changeLoad (σ.handlers h).threadId (· + 1), issued⟩, none)
      else (⟨σ, issued⟩, some .onConnected)
    else (⟨σ, issued⟩, some .remoteEndpoint)

/-- A call that returns is one of the manager's calls. -/
theorem connected_of_returns {ρ ρ' : Registering Φ} {c h : Conn} {first : TCPSessionID}
    {endpoint returns : Bool} {script : Script}
    (hreturns : ρ.onSessionConnected c h first endpoint script returns = (ρ', none)) :
    ρ.server.connected c h first script = some ρ'.server := by
  unfold onSessionConnected at hreturns
  cases hget : ρ.server.idGenerator.get first with
  | none =>
      rw [hget] at hreturns
      cases hreturns
  | some draw =>
      rw [hget] at hreturns
      dsimp only at hreturns
      split_ifs at hreturns <;> cases hreturns
      rw [System.connected, hget]
      rfl

/-! ## What a call that throws leaves -/

/-- The map, the loads and the lost ids are as they were, and no `init` has been posted. -/
structure Unchanged (ρ ρ' : Registering Φ) : Prop where
  sessionHandlerMap : ρ'.server.sessionHandlerMap = ρ.server.sessionHandlerMap
  threadLoad : ρ'.server.threadLoad = ρ.server.threadLoad
  lost : ρ'.lost = ρ.lost
  opening : ∀ t k, (ρ'.server.tasks t).countP (Job.isInit k) =
    (ρ.server.tasks t).countP (Job.isInit k)

/-- `get` returns false. -/
def NoId (ρ : Registering Φ) : Prop :=
  ρ.server.idGenerator.pools.card < ρ.server.idGenerator.threshold ∧
    ρ.server.idGenerator.max < ρ.server.idGenerator.next

/-- The id that comes next is in use already: the pool is full and its first id is registered, or
the counter has come back to an id that was given out or put into the pool before. -/
def Reissues (ρ : Registering Φ) (first : TCPSessionID) : Prop :=
  if ρ.server.idGenerator.pools.card ≥ ρ.server.idGenerator.threshold then
    ρ.server.getSessionHandler first ≠ none
  else
    ρ.server.getSessionHandler ρ.server.idGenerator.next ≠ none ∨
      ρ.server.idGenerator.next ∈ ρ.server.idGenerator.pools ∨
      ρ.server.idGenerator.next ∈ ρ.issued

theorem get_eq_none_iff {ρ : Registering Φ} {first : TCPSessionID} :
    ρ.server.idGenerator.get first = none ↔ ρ.NoId := by
  unfold IDGenerator.get NoId
  split_ifs with hpool hnext
  · exact iff_of_false (by simp) fun h => Nat.not_lt.mpr hpool h.1
  · exact iff_of_false (by simp) fun h => absurd hnext (by simpa using h.2)
  · exact iff_of_true rfl ⟨Nat.not_le.mp hpool, by simpa using hnext⟩

@[simp] theorem mem_lost {ρ : Registering Φ} {k : TCPSessionID} :
    k ∈ ρ.lost ↔ k ∈ ρ.issued ∧ ρ.server.getSessionHandler k = none ∧
      k ∉ ρ.server.idGenerator.pools := Finset.mem_filter

/-- Drawing an id and doing nothing else loses the id, unless it was in use already. -/
theorem lost_draw_iff {ρ : Registering Φ} {first id : TCPSessionID} {generator : IDGenerator 32}
    (hoffers : ρ.server.idGenerator.Offers first)
    (hget : ρ.server.idGenerator.get first = some (id, generator)) :
    lost ⟨{ ρ.server with idGenerator := generator }, insert id ρ.issued⟩ = ρ.lost ↔
      ρ.Reissues first := by
  -- what is lost afterwards, for any key
  have hmem : ∀ k, k ∈ lost ⟨{ ρ.server with idGenerator := generator }, insert id ρ.issued⟩ ↔
      (k = id ∨ k ∈ ρ.issued) ∧ ρ.server.getSessionHandler k = none ∧ k ∉ generator.pools := by
    intro k
    rw [mem_lost, Finset.mem_insert]
    rfl
  rw [Finset.ext_iff, Reissues]
  unfold IDGenerator.get at hget
  split_ifs at hget with hpool hnext <;> cases hget
  · rw [if_pos hpool]
    -- an id of the pool is lost unless it is registered
    constructor
    · intro hsame hnone
      have hlost := (hsame first).mp ((hmem first).mpr
        ⟨.inl rfl, hnone, Finset.notMem_erase first _⟩)
      exact (mem_lost.mp hlost).2.2 (hoffers hpool)
    · intro hregistered k
      rw [hmem, mem_lost, Finset.mem_erase]
      by_cases hk : k = first
      · subst hk
        exact iff_of_false (fun h => hregistered h.2.1) fun h => hregistered h.2.1
      · simp [hk]
  · rw [if_neg hpool]
    -- an id of the counter is lost unless it has been seen before
    constructor
    · intro hsame
      by_contra hfresh
      obtain ⟨hnone, hrest⟩ := not_or.mp hfresh
      obtain ⟨hpooled, hissued⟩ := not_or.mp hrest
      have hlost := (hsame _).mp ((hmem _).mpr ⟨.inl rfl, not_not.mp hnone, hpooled⟩)
      exact hissued (mem_lost.mp hlost).1
    · intro hused k
      rw [hmem, mem_lost]
      refine and_congr_left fun hfree => ⟨?_, .inr⟩
      rintro (rfl | hissued)
      · rcases hused with hregistered | hpooled | hissued
        · exact absurd hfree.1 hregistered
        · exact absurd hpooled hfree.2
        · exact hissued
      · exact hissued

/-- Once `init` has been posted the manager is not as it was. -/
theorem countP_init_lt {ρ ρ' : Registering Φ} {c h : Conn} {first : TCPSessionID}
    {endpoint returns : Bool} {script : Script}
    (hthrows : ρ.onSessionConnected c h first endpoint script returns = (ρ', some .onConnected)) :
    ∃ t k, (ρ.server.tasks t).countP (Job.isInit k) < (ρ'.server.tasks t).countP (Job.isInit k) := by
  unfold onSessionConnected at hthrows
  cases hget : ρ.server.idGenerator.get first with
  | none =>
      rw [hget] at hthrows
      cases hthrows
  | some draw =>
      obtain ⟨id, generator⟩ := draw
      rw [hget] at hthrows
      dsimp only at hthrows
      split_ifs at hthrows <;> cases hthrows
      refine ⟨(ρ.server.sessions c).ioThread, id, ?_⟩
      -- `init` is posted before `on_connected`, whose calls only append to queues
      generalize hposted : System.post _ _ _ = σ
      obtain ⟨more, hmore, -⟩ :=
        (System.calls_callback σ h .onConnected script).tasks (ρ.server.sessions c).ioThread
      have htasks : σ.tasks (ρ.server.sessions c).ioThread =
          ρ.server.tasks (ρ.server.sessions c).ioThread ++ [.on c (.init id)] := by
        rw [← hposted, System.post_eq]
        simp
      dsimp only
      rw [hmore, htasks, List.append_assoc, List.countP_append, List.countP_append,
        List.countP_cons_of_pos (by simp [Job.isInit])]
      omega

/-- A registration that fails leaves the manager unchanged exactly when the generator has no id, or
the socket throws after an id was drawn that was in use already. -/
theorem failed_registration_iff {ρ ρ' : Registering Φ} {c h : Conn} {first : TCPSessionID}
    {endpoint returns : Bool} {script : Script} {thrown : Thrown}
    (hoffers : ρ.server.idGenerator.Offers first)
    (hthrows : ρ.onSessionConnected c h first endpoint script returns = (ρ', some thrown)) :
    Unchanged ρ ρ' ↔ ρ.NoId ∨ endpoint = false ∧ ρ.Reissues first := by
  have hnone : ρ.server.idGenerator.get first = none ↔ ρ.NoId := get_eq_none_iff
  rw [← hnone]
  cases hget : ρ.server.idGenerator.get first with
  -- `get` returns false: thrown before anything is updated
  | none =>
      rw [onSessionConnected, hget] at hthrows
      cases hthrows
      exact iff_of_true ⟨rfl, rfl, rfl, fun _ _ => rfl⟩ (.inl rfl)
  | some draw =>
      obtain ⟨id, generator⟩ := draw
      cases endpoint with
      | false =>
          rw [onSessionConnected, hget] at hthrows
          cases hthrows
          rw [← lost_draw_iff hoffers hget]
          constructor
          · intro h
            exact .inr ⟨rfl, h.lost⟩
          · rintro (hnone | ⟨-, hlost⟩)
            · cases hnone
            · exact ⟨rfl, rfl, hlost, fun _ _ => rfl⟩
      | true =>
          have hthrown : thrown = .onConnected := by
            rw [onSessionConnected, hget] at hthrows
            dsimp only at hthrows
            rw [if_pos rfl] at hthrows
            split_ifs at hthrows <;> cases hthrows
            rfl
          subst hthrown
          obtain ⟨t, k, hlt⟩ := countP_init_lt hthrows
          refine iff_of_false (fun h => Nat.ne_of_gt hlt (h.opening t k)) ?_
          rintro (hnone | ⟨hendpoint, -⟩)
          · cases hnone
          · cases hendpoint

/-- A manager with a worker, before the first connection. -/
def start : Registering MessageFilter := ⟨System.start 2 0 (.new 0), ∅⟩

/-- The peer of the first connection has gone. -/
theorem failed_registration_iff_peer_gone :
    ∃ ρ', start.onSessionConnected 0 0 0 false [] true = (ρ', some .remoteEndpoint) ∧
      (Unchanged start ρ' ↔ start.NoId ∨ false = false ∧ start.Reissues 0) := by
  have hthrows : start.onSessionConnected 0 0 0 false [] true = (_, some .remoteEndpoint) := rfl
  exact ⟨_, hthrows, failed_registration_iff (by decide) hthrows⟩

/-- If `remote_endpoint` throws, id 1 is lost; if `on_connected` throws, the handler stays
registered with a load of zero, and `init` has been posted. -/
theorem half_registered :
    (∃ ρ', start.onSessionConnected 0 0 0 false [] true = (ρ', some .remoteEndpoint) ∧
      start.lost = ∅ ∧ ρ'.lost = {1} ∧ ¬ Unchanged start ρ') ∧
    ∃ ρ', start.onSessionConnected 0 0 0 true [] false = (ρ', some .onConnected) ∧
      ρ'.server.sessionHandlerMap.keys = [1] ∧ ρ'.server.threadLoad = [0, 0] ∧
      ¬ Unchanged start ρ' := by
  have hempty : start.lost = ∅ := by decide +kernel
  constructor
  · refine ⟨_, rfl, hempty, by decide +kernel, fun h => ?_⟩
    have hlost := h.lost
    rw [hempty] at hlost
    exact absurd hlost (by decide +kernel)
  · refine ⟨_, rfl, by decide +kernel, by decide +kernel, fun h => ?_⟩
    have hmap : _ = ([] : List TCPSessionID) := congrArg AList.keys h.sessionHandlerMap
    exact absurd hmap (by decide +kernel)

end Registering
end EddyServer
