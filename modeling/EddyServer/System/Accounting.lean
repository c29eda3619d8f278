import EddyServer.System.Outbound

/-!
# The manager's accounts

`on_session_connected` and `on_session_closed` of `IOServiceThreadManager`, called with any session
and any handler in any order. After every sequence of calls the map, the generator, the handlers and
the loads of the threads agree.
-/

namespace EddyServer
namespace System

variable {Φ : Type}

/-! ## Calls of the manager -/

inductive ManagerCall
  /-- `on_session_connected` for session `c` and handler `h`; `first` is the first id of the pool,
  and `on_connected` makes the calls of a script. -/
  | onSessionConnected (c h : Conn) (first : TCPSessionID) (script : Script)
  /-- `on_session_closed`, posted by session `c`; `on_closed` makes the calls of a script. -/
  | onSessionClosed (c : Conn) (id : TCPSessionID) (script : Script)

/-- `on_session_connected`. If no id is left it throws. -/
def connected (σ : System Φ) (c h : Conn) (first : TCPSessionID) (script : Script) :
    Option (System Φ) :=
  (σ.idGenerator.get first).map fun draw =>
    let t := (σ.sessions c).ioThread
    let σ := { σ with
      idGenerator := draw.2
      handlers := Function.update σ.handlers h ((σ.handlers h).init draw.1 (threadId t))
      sessionHandlerMap := σ.sessionHandlerMap.add draw.1 h }
    let σ := (σ.post t (.on c (.init draw.1))).callback h .onConnected script
    σ.changeLoad (σ.handlers h).threadId (· + 1)

/-- A call that returns. -/
def managerStep (σ : System Φ) : ManagerCall → Option (System Φ)
  | .onSessionConnected c h first script =>
    if σ.idGenerator.Offers first then σ.connected c h first script else none
  | .onSessionClosed c id script => some (σ.onSessionClosed c id script)

/-- What the callers see to: a connection is given a handler of its own, only registered ids are
closed, and there are never more than 2³¹ sessions. -/
def Within (σ : System Φ) : ManagerCall → Prop
  | .onSessionConnected _ h _ _ =>
    h ∉ σ.sessionHandlerMap.values ∧ σ.sessionHandlerMap.size < 2 ^ 31
  | .onSessionClosed _ id _ => id ∈ σ.sessionHandlerMap.keys

instance (σ : System Φ) : ∀ call, Decidable (Within σ call)
  | .onSessionConnected _ _ _ _ => inferInstanceAs (Decidable (_ ∧ _))
  | .onSessionClosed _ _ _ => inferInstanceAs (Decidable (_ ∈ _))

/-- The constructor of the manager has run. -/
structure Constructed (σ : System Φ) : Prop where
  threadLoad : σ.threadLoad = List.replicate σ.threads 0
  sessionHandlerMap : σ.sessionHandlerMap = ∅
  idGenerator : σ.idGenerator = .new 1

theorem constructed_start (threads keepAliveTime : Nat) (filter : Φ) :
    Constructed (start threads keepAliveTime filter) :=
  ⟨rfl, rfl, rfl⟩

/-- `handle_accept` makes a session and a handler and calls `on_session_connected` with them. -/
theorem handleAccept_eq (σ : System Φ) (u : ThreadIx) (filter nextFilter : Φ) (first : TCPSessionID)
    (script : Script) (hnew : σ.handlers σ.accepted = .new) :
    σ.handleAccept u filter .success first script nextFilter =
      ((({ σ with
          accepted := σ.accepted + 1
          sessions := Function.update σ.sessions σ.accepted
            (.new u filter σ.keepAliveTime) } : System Φ).connected
        σ.accepted σ.accepted first script).map fun τ =>
          { τ with accepting := some (getMinLoadThread τ.threadLoad, nextFilter) }) := by
  rw [handleAccept, connected, if_neg (by decide), Option.map_map]
  apply congrFun
  apply congrArg
  funext draw
  have hio : (Function.update σ.sessions σ.accepted (TCPSession.new u filter σ.keepAliveTime)
      σ.accepted).ioThread = u := by
    rw [Function.update_self]
    rfl
  simp only [Function.comp_apply, onSessionConnected, register, hio, hnew]
  rfl

/-! ## The invariant -/

/-- The number of registered handlers whose thread is `t`. -/
def registered (σ : System Φ) (t : ThreadIx) : Nat :=
  σ.sessionHandlerMap.values.countP fun h => (σ.handlers h).threadId = threadId t

structure Ledger (σ : System Φ) : Prop where
  pooled : Pooled σ
  bounded : σ.idGenerator.next.toNat ≤ 2 ^ 31 + 4096
  length : σ.threadLoad.length = σ.threads
  sessionId : ∀ id h, σ.getSessionHandler id = some h → (σ.handlers h).sessionId = id
  load : ∀ t < σ.threads, σ.threadLoad[t]? = some (σ.registered t)

theorem Constructed.ledger {σ : System Φ} (h : Constructed σ) : Ledger σ := by
  refine ⟨⟨?_, ?_⟩, ?_, ?_, fun id d hd => ?_, fun t ht => ?_⟩
  · rw [h.idGenerator, h.sessionHandlerMap]
    exact .new (by decide)
  · rw [h.idGenerator]
    rfl
  · rw [h.idGenerator]
    decide
  · rw [h.threadLoad, List.length_replicate]
  · rw [getSessionHandler, h.sessionHandlerMap, Table.find_empty] at hd
    cases hd
  · rw [h.threadLoad, registered, h.sessionHandlerMap]
    simp [ht]

theorem getElem?_changeLoad (σ : System Φ) (tid : IOThreadID) (f : Nat → Nat) (t : ThreadIx) :
    (σ.changeLoad tid f).threadLoad[t]? =
      if tid = threadId t then σ.threadLoad[t]?.map f else σ.threadLoad[t]? := by
  unfold changeLoad
  by_cases htid : tid = threadId t
  · subst htid
    rw [if_pos rfl, if_pos (show threadId t > 0 from Nat.succ_pos t)]
    exact List.getElem?_modify_eq f _ _
  · rw [if_neg htid]
    split_ifs with hpos
    · apply List.getElem?_modify_ne
      rintro rfl
      exact htid (Nat.sub_add_cancel hpos).symm
    · rfl

theorem length_changeLoad (σ : System Φ) (tid : IOThreadID) (f : Nat → Nat) :
    (σ.changeLoad tid f).threadLoad.length = σ.threadLoad.length := by
  unfold changeLoad
  split_ifs
  · exact List.length_modify f _ _
  · rfl

/-! ## Steps -/

/-- The load of a thread is changed along with the number of its handlers. -/
theorem load_changeLoad {σ : System Φ} {tid : IOThreadID} {f : Nat → Nat} {t : ThreadIx} {n n' : Nat}
    (hload : σ.threadLoad[t]? = some n) (hon : tid = threadId t → f n = n')
    (hoff : tid ≠ threadId t → n = n') : (σ.changeLoad tid f).threadLoad[t]? = some n' := by
  rw [getElem?_changeLoad, hload]
  split_ifs with htid
  · rw [Option.map_some, hon htid]
  · rw [hoff htid]

theorem Ledger.connected {σ σ' : System Φ} {c h : Conn} {first : TCPSessionID} {script : Script}
    (hl : Ledger σ) (hoffers : σ.idGenerator.Offers first)
    (hfresh : h ∉ σ.sessionHandlerMap.values) (hfew : σ.sessionHandlerMap.size < 2 ^ 31)
    (hcall : σ.connected c h first script = some σ') :
    Ledger σ' ∧ σ.idGenerator.next.toNat ≤ σ'.idGenerator.next.toNat := by
  obtain ⟨⟨k, generator⟩, hget, rfl⟩ := Option.map_eq_some_iff.mp hcall
  obtain ⟨hnone, -, hacc⟩ := hl.pooled.drawn (Nat.le_of_lt hfew) hoffers hget
  have hthreshold := (IDGenerator.get_threshold hget).trans hl.pooled.threshold
  have hnext := (hacc h).next_eq
  rw [Table.size_add hnone] at hnext
  dsimp only
  generalize hτ : (post _ _ _ : System Φ) = τ
  have hcalls := calls_callback τ h .onConnected script
  generalize τ.callback h .onConnected script = υ at hcalls ⊢
  -- the handlers after the callback
  have hid : ∀ d, (υ.handlers d).sessionId = if d = h then k else (σ.handlers d).sessionId := by
    intro d
    rw [hcalls.sessionId, ← hτ, post_eq]
    by_cases hd : d = h
    · subst hd
      simp [TCPSessionHandler.init]
    · simp [hd]
  have htid : ∀ d, (υ.handlers d).threadId =
      if d = h then threadId (σ.sessions c).ioThread else (σ.handlers d).threadId := by
    intro d
    rw [hcalls.threadId, ← hτ, post_eq]
    by_cases hd : d = h
    · subst hd
      simp [TCPSessionHandler.init]
    · simp [hd]
  have hmap : υ.sessionHandlerMap = σ.sessionHandlerMap.add k h := by
    rw [hcalls.keeps.sessionHandlerMap, ← hτ, post_eq]
  have hgenerator : υ.idGenerator = generator := by
    obtain ⟨_, _, heq⟩ := hcalls.same
    rw [heq, ← hτ, post_eq]
  have hloads : υ.threadLoad = σ.threadLoad ∧ υ.threads = σ.threads := by
    obtain ⟨_, _, heq⟩ := hcalls.same
    rw [heq, ← hτ, post_eq]
    exact ⟨rfl, rfl⟩
  have hcount : ∀ t, υ.registered t =
      σ.registered t + if (υ.handlers h).threadId = threadId t then 1 else 0 := by
    intro t
    rw [registered, hmap, Table.values_add hnone, List.countP_cons, registered]
    congr 1
    · apply List.countP_congr
      intro d hd
      have hne : d ≠ h := ne_of_mem_of_not_mem hd hfresh
      rw [htid, if_neg hne]
    · simp only [decide_eq_true_eq]
  have hload : ∀ t < υ.threads,
      (υ.changeLoad (υ.handlers h).threadId (· + 1)).threadLoad[t]? = some (υ.registered t) := by
    intro t ht
    rw [hloads.2] at ht
    refine load_changeLoad (by rw [hloads.1, hl.load t ht]) (fun hon => ?_) (fun hoff => ?_)
    · rw [hcount, if_pos hon]
    · rw [hcount, if_neg hoff]
      rfl
  have hlength := length_changeLoad υ (υ.handlers h).threadId (· + 1)
  obtain ⟨threadLoad, hchange⟩ := changeLoad_eq υ (υ.handlers h).threadId (· + 1)
  rw [hchange] at hload hlength ⊢
  have hbound : generator.next.toNat ≤ 2 ^ 31 + 4096 ∧
      σ.idGenerator.next.toNat ≤ generator.next.toNat := by
    have hbefore := hl.pooled.accounts.next_eq
    have hbounded := hl.bounded
    rcases IDGenerator.get_pools hget with hsame | ⟨hpools, hpool⟩
    · rw [hsame]
      exact ⟨hbounded, Nat.le_refl _⟩
    · rw [hl.pooled.threshold] at hpool
      rw [hpools] at hnext
      omega
  refine ⟨⟨⟨?_, ?_⟩, ?_, ?_, fun id d hd => ?_, hload⟩, ?_⟩
  · dsimp only
    rw [hgenerator, hmap]
    exact hacc h
  · dsimp only
    rw [hgenerator, hthreshold]
  · dsimp only
    rw [hgenerator]
    exact hbound.1
  · rw [hlength, hloads.1, hl.length]
    exact hloads.2.symm
  · have hfind : (σ.sessionHandlerMap.add k h).find id = some d := by
      rw [← hmap]
      exact hd
    rw [Table.find_add hnone] at hfind
    dsimp only
    rw [hid]
    split_ifs at hfind with hkk
    · cases hfind
      rw [if_pos rfl, hkk]
    · have hne : d ≠ h := ne_of_mem_of_not_mem (Table.mem_values.mpr ⟨id, hfind⟩) hfresh
      rw [if_neg hne]
      exact hl.sessionId id d hfind
  · dsimp only
    rw [hgenerator]
    exact hbound.2

theorem Ledger.closed {σ : System Φ} (hl : Ledger σ) {id : TCPSessionID}
    (hknown : id ∈ σ.sessionHandlerMap.keys) (c : Conn) (script : Script) :
    Ledger (σ.onSessionClosed c id script) ∧
      σ.idGenerator.next = (σ.onSessionClosed c id script).idGenerator.next := by
  obtain ⟨h, hh⟩ := Option.isSome_iff_exists.mp (AList.lookup_isSome.mpr hknown)
  have hfound : σ.getSessionHandler id = some h := hh
  have hid : id ≠ 0 := by
    rintro rfl
    exact absurd (hl.pooled.accounts.used _ _ hfound).1 (by decide)
  rw [onSessionClosed, hfound]
  dsimp only
  rw [if_neg hid]
  have hcalls := calls_callback σ h (.onClosed c) script
  generalize σ.callback h (.onClosed c) script = υ at hcalls ⊢
  have hmap : υ.sessionHandlerMap = σ.sessionHandlerMap := hcalls.keeps.sessionHandlerMap
  have hkeeps : υ.idGenerator = σ.idGenerator ∧ υ.threadLoad = σ.threadLoad ∧
      υ.threads = σ.threads := by
    obtain ⟨_, _, rfl⟩ := hcalls.same
    exact ⟨rfl, rfl, rfl⟩
  have htid : ∀ d, ((υ.unregister h id).handlers d).threadId = (σ.handlers d).threadId := by
    intro d
    rw [← hcalls.threadId d]
    by_cases hd : d = h
    · subst hd
      simp [System.unregister, TCPSessionHandler.dispose]
    · simp [System.unregister, hd]
  -- the handler that leaves was counted on its thread
  have hcount : ∀ t, σ.registered t =
      (υ.unregister h id).registered t + if (σ.handlers h).threadId = threadId t then 1 else 0 := by
    intro t
    have hperm := (Table.values_erase hfound).countP_eq
      fun d => decide ((σ.handlers d).threadId = threadId t)
    rw [List.countP_cons] at hperm
    simp only [decide_eq_true_eq] at hperm
    have hleft : (υ.unregister h id).sessionHandlerMap = σ.sessionHandlerMap.erase id := by
      rw [System.unregister, hmap]
    rw [registered, hperm, registered, hleft]
    congr 1
    apply List.countP_congr
    intro d hd
    rw [htid]
  let dec : Nat → Nat := fun load => if load > 0 then load - 1 else load
  have hload : ∀ t < υ.threads,
      ((υ.unregister h id).changeLoad (σ.handlers h).threadId dec).threadLoad[t]? =
        some ((υ.unregister h id).registered t) := by
    intro t ht
    rw [hkeeps.2.2] at ht
    have hbefore : (υ.unregister h id).threadLoad[t]? = some (σ.registered t) := by
      rw [← hl.load t ht, ← hkeeps.2.1]
      rfl
    refine load_changeLoad hbefore (fun hon => ?_) (fun hoff => ?_)
    · rw [hcount, if_pos hon]
      exact if_pos (Nat.succ_pos _)
    · rw [hcount, if_neg hoff]
      rfl
  have hlength := length_changeLoad (υ.unregister h id) (σ.handlers h).threadId dec
  obtain ⟨threadLoad, hchange⟩ := changeLoad_eq (υ.unregister h id) (σ.handlers h).threadId dec
  change Ledger { (υ.unregister h id).changeLoad (σ.handlers h).threadId dec with
      idGenerator := _ } ∧ _ = (IDGenerator.put _ id).next
  rw [hchange] at hload hlength ⊢
  refine ⟨⟨⟨?_, ?_⟩, ?_, ?_, fun k d hd => ?_, hload⟩, ?_⟩
  · dsimp only [System.unregister]
    rw [hkeeps.1, hmap]
    exact hl.pooled.accounts.put hfound
  · dsimp only [System.unregister]
    rw [hkeeps.1]
    exact hl.pooled.threshold
  · dsimp only [System.unregister]
    rw [hkeeps.1]
    exact hl.bounded
  · rw [hlength]
    exact (congrArg List.length hkeeps.2.1).trans (hl.length.trans hkeeps.2.2.symm)
  · have hfind : (σ.sessionHandlerMap.erase id).find k = some d := by
      rw [← hmap]
      exact hd
    rw [Table.find_erase] at hfind
    split_ifs at hfind with hkk
    have hk := hl.sessionId k d hfind
    -- another id has another handler
    have hne : d ≠ h := by
      rintro rfl
      exact hkk (hk.symm.trans (hl.sessionId id d hfound))
    dsimp only [System.unregister]
    rw [Function.update_of_ne hne, hcalls.sessionId, hk]
  · dsimp only [System.unregister]
    rw [hkeeps.1]
    rfl

theorem Ledger.step {σ σ' : System Φ} {call : ManagerCall} (hl : Ledger σ) (hok : Within σ call)
    (hstep : managerStep σ call = some σ') :
    Ledger σ' ∧ σ.idGenerator.next.toNat ≤ σ'.idGenerator.next.toNat := by
  cases call with
  | onSessionConnected c h first script =>
      unfold managerStep at hstep
      dsimp only at hstep
      split_ifs at hstep with hoffers
      exact hl.connected hoffers hok.1 hok.2 hstep
  | onSessionClosed c id script =>
      cases hstep
      obtain ⟨hl', hnext⟩ := hl.closed hok c script
      exact ⟨hl', Nat.le_of_eq (congrArg BitVec.toNat hnext)⟩

/-! ## Runs -/

/-- **The accounts of the manager.** After any sequence of calls no key of the map occurs twice, is
zero or lies in the pool; the keys and the pool are the ids below the counter, which never goes back
to its start; every key has a handler that knows it; and the load of every thread is the number of
handlers on it. -/
theorem registry_accounts {σ₀ σ : System Φ} (hnew : Constructed σ₀)
    (hrun : Transition.Run managerStep Within σ₀ σ) :
    σ.sessionHandlerMap.keys.Nodup ∧
      (∀ id ∈ σ.sessionHandlerMap.keys, id ≠ 0 ∧ id ∉ σ.idGenerator.pools) ∧
      (∀ id, id ∈ σ.sessionHandlerMap.keys ∨ id ∈ σ.idGenerator.pools ↔
        1 ≤ id.toNat ∧ id.toNat < σ.idGenerator.next.toNat) ∧
      (∀ call σ', Within σ call → managerStep σ call = some σ' →
        σ.idGenerator.next.toNat ≤ σ'.idGenerator.next.toNat ∧
          σ'.idGenerator.next.toNat ≤ 2 ^ 31 + 4096) ∧
      (∀ id h, σ.getSessionHandler id = some h → (σ.handlers h).sessionId = id) ∧
      σ.threadLoad.length = σ.threads ∧
      ∀ t < σ.threads, σ.threadLoad[t]? = some (σ.registered t) := by
  have hl : Ledger σ := hrun.invariant (fun hl hok hstep => (hl.step hok hstep).1) hnew.ledger
  refine ⟨AList.keys_nodup _, fun id hid => ?_, fun id => hl.pooled.accounts.covers,
    fun call σ' hok hstep => ?_, hl.sessionId, hl.length, hl.load⟩
  · obtain ⟨h, hh⟩ := Option.isSome_iff_exists.mp (AList.lookup_isSome.mpr hid)
    obtain ⟨hpos, -, hout⟩ := hl.pooled.accounts.used id h hh
    refine ⟨?_, hout⟩
    rintro rfl
    exact absurd hpos (by decide)
  · obtain ⟨hl', hle⟩ := hl.step hok hstep
    exact ⟨hle, hl'.bounded⟩

/-- A manager with three threads and a session on each of them. -/
def idle : System Unit :=
  { start 3 0 () with sessions := fun c => .new (c % 3) () 0 }

/-- Two connections; the first is closed, and its handler is used again for a third one. -/
theorem registry_accounts_handler_used_again :
    ∃ σ, Transition.exec managerStep idle [.onSessionConnected 1 1 0 [(1, .close)],
        .onSessionConnected 2 2 0 [], .onSessionClosed 1 1 [], .onSessionConnected 4 1 0 []] =
          some σ ∧
      (σ.threadLoad = [0, 1, 1] ∧ σ.sessionHandlerMap.keys = [3, 2] ∧ σ.idGenerator.pools = {1}) ∧
      ∀ t < σ.threads, σ.threadLoad[t]? = some (σ.registered t) := by
  obtain ⟨σ, hσ, hview⟩ := Option.map_eq_some_iff.mp (show
    (Transition.exec managerStep idle [.onSessionConnected 1 1 0 [(1, .close)],
      .onSessionConnected 2 2 0 [], .onSessionClosed 1 1 [], .onSessionConnected 4 1 0 []]).map
        (fun σ => (σ.threadLoad, σ.sessionHandlerMap.keys, σ.idGenerator.pools)) =
      some ([0, 1, 1], [3, 2], {1}) by decide +kernel)
  have hrun : Transition.Run managerStep Within idle σ :=
    Transition.run_of_exec hσ (by decide +kernel)
  obtain ⟨hload, hrest⟩ := Prod.mk.inj hview
  obtain ⟨-, -, -, -, -, -, hcounted⟩ := registry_accounts ⟨rfl, rfl, rfl⟩ hrun
  exact ⟨σ, hσ, ⟨hload, Prod.mk.inj hrest⟩, hcounted⟩

end System
end EddyServer
