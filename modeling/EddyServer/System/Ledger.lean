import EddyServer.System.Accounting
import EddyServer.System.Sessions

/-!
# The accounts of a server

A running server calls its manager as the manager expects: with a handler of its own for every
connection, and with registered ids when it closes one. So the accounts of the manager agree in
every state of the server, and they can be read off what the handlers have seen: the connections
that have an id are those whose handler has not been told of their close.
-/

namespace EddyServer
namespace System

variable {Φ : Type} {F : MessageFilterInterface Φ}

/-! ## Steps that leave the accounts alone -/

/-- The manager has not been called. -/
structure SameAccounts (σ σ' : System Φ) : Prop where
  threads : σ'.threads = σ.threads
  threadLoad : σ'.threadLoad = σ.threadLoad
  sessionHandlerMap : σ'.sessionHandlerMap = σ.sessionHandlerMap
  idGenerator : σ'.idGenerator = σ.idGenerator
  sessionId : ∀ d, (σ'.handlers d).sessionId = (σ.handlers d).sessionId
  threadId : ∀ d, (σ'.handlers d).threadId = (σ.handlers d).threadId

theorem SameAccounts.refl (σ : System Φ) : SameAccounts σ σ :=
  ⟨rfl, rfl, rfl, rfl, fun _ => rfl, fun _ => rfl⟩

theorem sameAccounts_onSession (σ : System Φ) (c : Conn) (r : TCPSession Φ × List Effect) :
    SameAccounts σ (σ.onSession c r) := by
  rw [onSession_eq]
  exact ⟨rfl, rfl, rfl, rfl, fun _ => rfl, fun _ => rfl⟩

theorem Calls.sameAccounts {cbs : List (Conn × Callback)} {σ σ' : System Φ}
    (h : Calls cbs σ σ') : SameAccounts σ σ' := by
  have hsessionId := h.sessionId
  have hthreadId := h.threadId
  obtain ⟨handlers, tasks, rfl⟩ := h.same
  exact ⟨rfl, rfl, rfl, rfl, hsessionId, hthreadId⟩

theorem sameAccounts_postMessageList {σ σ' : System Φ} {d : Conn} {messages : List NetMessage}
    (h : σ.postMessageList F d messages = some σ') : SameAccounts σ σ' := by
  obtain ⟨s, -, rfl⟩ := Option.map_eq_some_iff.mp h
  exact ⟨rfl, rfl, rfl, rfl, fun _ => rfl, fun _ => rfl⟩

/-- Of the posted tasks only `on_session_closed` calls the manager. -/
theorem sameAccounts_exec {σ σ' : System Φ} {t : ThreadIx} {c : Conn} {scripts : List Script}
    {task : Task} (hopen : ∀ id, task ≠ .onSessionClosed id)
    (h : exec F σ t c scripts task = some σ') : SameAccounts σ σ' := by
  cases task with
  | init id => cases h; exact sameAccounts_onSession ..
  | handleRead error data => cases h; exact sameAccounts_onSession ..
  | hanldeWrite error => cases h; exact sameAccounts_onSession ..
  | handleSafeClose error data => cases h; exact sameAccounts_onSession ..
  | closeTimer error =>
      obtain ⟨s, -, rfl⟩ := Option.map_eq_some_iff.mp h
      exact sameAccounts_onSession ..
  | close => cases h; exact sameAccounts_onSession ..
  | sessionPackMessageList => cases h; exact sameAccounts_onSession ..
  | sessionSendMessageListDirectly =>
      cases h
      rw [sessionSendMessageListDirectly]
      split
      · exact .refl _
      · rename_i k hk
        have hcalls := (calls_deliver σ k c (σ.sessions c).messagesReceived scripts).sameAccounts
        exact ⟨hcalls.threads, hcalls.threadLoad, hcalls.sessionHandlerMap, hcalls.idGenerator,
          hcalls.sessionId, hcalls.threadId⟩
  | sendMessageListToHandler id messages =>
      cases h
      rw [sendMessageListToHandler]
      split
      · exact .refl _
      · exact (calls_deliver ..).sameAccounts
  | onSessionClosed id => exact absurd rfl (hopen id)
  | handlerPackMessageList =>
      cases h
      exact (calls_onHandler (handlerMove_packMessageList _ _)).sameAccounts
  | handlerSendMessageListDirectly =>
      rw [exec, handlerSendMessageListDirectly] at h
      split at h
      · cases h
        exact .refl _
      · obtain ⟨τ, hτ, rfl⟩ := Option.map_eq_some_iff.mp h
        have hsame := sameAccounts_postMessageList hτ
        refine ⟨hsame.threads, hsame.threadLoad, hsame.sessionHandlerMap, hsame.idGenerator,
          fun d => (hsame.sessionId d).symm ▸ ?_, fun d => (hsame.threadId d).symm ▸ ?_⟩
        all_goals
          dsimp only
          by_cases hd : d = c
          · subst hd
            rw [Function.update_self]
          · rw [Function.update_of_ne hd]
  | sendMessageListToSession id messages =>
      rw [exec, sendMessageListToSession] at h
      split at h
      · cases h
        exact .refl _
      · exact sameAccounts_postMessageList h
  | closeSession id =>
      cases h
      rw [closeSession]
      split
      · exact .refl _
      · exact sameAccounts_onSession ..

theorem Ledger.same {σ σ' : System Φ} (h : Ledger σ) (hsame : SameAccounts σ σ') : Ledger σ' where
  pooled := h.pooled.same hsame.idGenerator hsame.sessionHandlerMap
  bounded := by
    rw [hsame.idGenerator]
    exact h.bounded
  length := by rw [hsame.threadLoad, hsame.threads, h.length]
  sessionId id d hd := by
    rw [hsame.sessionId]
    exact h.sessionId id d ((congrArg (·.find id) hsame.sessionHandlerMap).symm.trans hd)
  load t ht := by
    rw [hsame.threadLoad, h.load t (hsame.threads ▸ ht), registered, registered,
      hsame.sessionHandlerMap]
    simp only [hsame.threadId]

/-! ## Steps of the server -/

/-- If the step accepts a connection, there are fewer than 2³¹ sessions. -/
def Spares (σ : System Φ) (a : Act Φ) : Prop :=
  σ.drawn a ≠ none → σ.sessionHandlerMap.size < 2 ^ 31

instance (σ : System Φ) (a : Act Φ) : Decidable (Spares σ a) :=
  inferInstanceAs (Decidable (_ → _))

/-- `handle_accept` registers a new handler. -/
theorem Ledger.accept {σ σ' : System Φ} (h : Ledger σ) (hreg : Registry σ) (hknown : Known σ)
    {u : ThreadIx} {filter nextFilter : Φ} {first : TCPSessionID} {script : Script}
    (hoffers : σ.idGenerator.Offers first) (hfew : σ.sessionHandlerMap.size < 2 ^ 31)
    (haccept : σ.handleAccept u filter .success first script nextFilter = some σ') :
    Ledger σ' := by
  let τ : System Φ := { σ with handlers := Function.update σ.handlers σ.accepted .new }
  have hτ : τ.handleAccept u filter .success first script nextFilter = some σ' := by
    have hregister : ∀ session id generator,
        τ.register session id generator = σ.register session id generator := by
      intro session id generator
      unfold register
      simp only [τ, Function.update_idem]
    rw [← haccept]
    simp only [handleAccept, onSessionConnected, hregister]
    rfl
  rw [handleAccept_eq τ u filter nextFilter first script (Function.update_self ..)] at hτ
  obtain ⟨υ, hconnected, rfl⟩ := Option.map_eq_some_iff.mp hτ
  -- the handler of the new connection is as its constructor has made it
  have hbefore : Ledger { τ with
      accepted := τ.accepted + 1
      sessions := Function.update τ.sessions τ.accepted (.new u filter τ.keepAliveTime) } := by
    refine h.same ⟨rfl, rfl, rfl, rfl, fun d => ?_, fun d => ?_⟩
    all_goals
      by_cases hd : d = σ.accepted
      · subst hd
        simp only [τ, Function.update_self]
        first
        | exact (hknown.sessionId _ (Nat.le_refl _)).symm
        | exact (hknown.threadId _ (Nat.le_refl _)).symm
      · simp only [τ, Function.update_of_ne hd]
  have hfresh : σ.accepted ∉ σ.sessionHandlerMap.values := by
    intro hmem
    obtain ⟨id, hid⟩ := Table.mem_values.mp hmem
    exact Nat.lt_irrefl _ (hreg.mapped id _ hid)
  have hafter := (hbefore.connected hoffers hfresh hfew hconnected).1
  exact hafter.same ⟨rfl, rfl, rfl, rfl, fun _ => rfl, fun _ => rfl⟩

/-- The server closes what it has registered. -/
theorem Ledger.server_step {σ σ' : System Φ} {a : Act Φ} (h : Ledger σ) (hsep : Separate σ)
    (hspares : Spares σ a) (hstep : System.step F σ a = some σ') : Ledger σ' := by
  cases taken_of_step hstep with
  | task t c task rest scripts first filter ht hexec =>
      have hpopped : Ledger (σ.popped t rest) :=
        h.same ⟨rfl, rfl, rfl, rfl, fun _ => rfl, fun _ => rfl⟩
      by_cases hclosed : ∃ id, task = .onSessionClosed id
      · obtain ⟨id, rfl⟩ := hclosed
        have hown : σ.getSessionHandler id = some c :=
          hsep.owned.closing t c id (by rw [ht]; exact List.mem_cons_self)
        have hknown : id ∈ σ.sessionHandlerMap.keys :=
          AList.lookup_isSome.mp (Option.isSome_iff_exists.mpr ⟨c, hown⟩)
        cases hexec
        exact (hpopped.closed hknown c _).1
      · exact hpopped.same (sameAccounts_exec (fun id hid => hclosed ⟨id, hid⟩) hexec)
  | handleAccept t u filter nextFilter error rest scripts first ht hoffers haccept =>
      have hpopped : Ledger (σ.popped t rest) :=
        h.same ⟨rfl, rfl, rfl, rfl, fun _ => rfl, fun _ => rfl⟩
      by_cases herror : error = .success
      · subst herror
        refine hpopped.accept (hsep.registry.popped ht) (hsep.known.popped ht) hoffers
          (hspares ?_) haccept
        rw [handleAccept, if_neg (by decide)] at haccept
        obtain ⟨draw, hget, -⟩ := Option.map_eq_some_iff.mp haccept
        rw [drawn, ht]
        dsimp only
        rw [if_pos hoffers, show σ.idGenerator.get first = some draw from hget]
        exact Option.some_ne_none _
      · rw [handleAccept, if_pos herror] at haccept
        cases haccept
        exact hpopped
  | accept u filter error _ =>
      rw [post_eq]
      exact h.same ⟨rfl, rfl, rfl, rfl, fun _ => rfl, fun _ => rfl⟩
  | complete a c task s _ _ _ _ =>
      rw [complete, post_eq]
      exact h.same ⟨rfl, rfl, rfl, rfl, fun _ => rfl, fun _ => rfl⟩
  | spares t id => exact h
  | checks t id c _ _ =>
      rw [post_eq]
      exact h.same ⟨rfl, rfl, rfl, rfl, fun _ => rfl, fun _ => rfl⟩
  | logic script => exact h.same (calls_runScript σ script).sameAccounts
  | tick n => exact h.same ⟨rfl, rfl, rfl, rfl, fun _ => rfl, fun _ => rfl⟩

/-! ## What the handlers have seen -/

/-- The connections whose handler has not been told of their close. -/
def live (σ : System Φ) : List Conn :=
  (List.range σ.accepted).filter fun c => .onClosed c ∉ (σ.handlers c).callbacks

section
variable {okL : Link Φ → Link.Act → Prop} {okF : Φ → Prop} {ok : System Φ → Act Φ → Prop}
  {σ : System Φ}

/-- A connection has an id until its handler has been told of the close. -/
theorem Parted.mem_live (h : Parted F okL okF σ) {c : Conn} :
    c ∈ σ.live ↔ ∃ id, σ.getSessionHandler id = some c := by
  have hlive : c < σ.accepted →
      (.onClosed c ∉ (σ.handlers c).callbacks ↔ σ.getSessionHandler (σ.idOf c) = some c) := by
    intro hc
    obtain ⟨u, filter, ⟨hu, -⟩, hlink⟩ := h.lives c hc
    have hinbound : Link.InboundOk (σ.link c) :=
      hlink.invariant (fun hi _ hstep => hi.step hstep) (.start hu c filter σ.keepAliveTime)
    have hclosings : (σ.handlers c).callbacks.count (.onClosed c) =
        if (σ.link c).isDisposed then 1 else 0 := hinbound.protocol.closings
    rw [← List.count_eq_zero, hclosings, Link.isDisposed]
    simp [link, hc]
  rw [live, List.mem_filter, List.mem_range, decide_eq_true_eq]
  constructor
  · rintro ⟨hc, hcallbacks⟩
    exact ⟨_, (hlive hc).mp hcallbacks⟩
  · rintro ⟨id, hid⟩
    have hc : c < σ.accepted := h.separate.registry.mapped id c hid
    refine ⟨hc, (hlive hc).mpr ?_⟩
    rw [h.separate.idOf_eq hid]
    exact hid

/-- Each of them is registered once. -/
theorem Parted.values_perm (h : Parted F okL okF σ) :
    σ.sessionHandlerMap.values.Perm σ.live := by
  have hvalues : σ.sessionHandlerMap.values.Nodup := Table.nodup_values h.separate.registry.once
  refine (List.perm_ext_iff_of_nodup hvalues (List.nodup_range.filter _)).mpr fun c => ?_
  rw [Table.mem_values]
  exact h.mem_live.symm

/-- A handler is registered on the thread of its session. -/
theorem Parted.threadId (h : Parted F okL okF σ) {c : Conn} (hc : c < σ.accepted) :
    (σ.handlers c).threadId = EddyServer.threadId (σ.sessions c).ioThread := by
  rcases (h.lives c hc).toLifecycle.stage with hidle | hopening | hstarted
  · exact absurd hidle.registered (by simp [link, hc])
  · exact hopening.threadId
  · exact hstarted.threadId

theorem Parted.registered (h : Parted F okL okF σ) (t : ThreadIx) :
    σ.registered t = σ.live.countP fun c => (σ.sessions c).ioThread = t := by
  rw [System.registered, h.values_perm.countP_eq]
  refine List.countP_congr fun c hc => ?_
  have hlt : c < σ.accepted := List.mem_range.mp (List.mem_filter.mp hc).1
  rw [h.threadId hlt]
  simp [EddyServer.threadId]

/-- What holds in every run that keeps account of its ids. -/
theorem Ledger.of_run {threads : Nat} (hpos : 0 < threads) {keepAliveTime : Nat} {filter : Φ}
    (hfilter : okF filter) (hok : ∀ {σ a}, ok σ a → Projects okL okF σ a)
    (hrun : Transition.Run (System.step F) (fun σ a => (DrawsApart σ a ∧ Spares σ a) ∧ ok σ a)
      (System.start threads keepAliveTime filter) σ) : Ledger σ ∧ Parted F okL okF σ :=
  hrun.invariant (I := fun τ => Ledger τ ∧ Parted F okL okF τ)
    (fun h ha hstep =>
      ⟨h.1.server_step h.2.separate ha.1.2 hstep, h.2.step ha.1.1 (hok ha.2) hstep⟩)
    ⟨(constructed_start threads keepAliveTime filter).ledger, .start hpos keepAliveTime hfilter⟩

end

/-- **The accounts of the server.** In every run that draws ids apart and never accepts a connection
when 2³¹ are open: a connection is registered, under an id that is not 0 and not in the pool, until
its handler has been told of the close; the ids below the counter are those of open connections and
those in the pool; and the load of a thread is the number of open connections on it. -/
theorem accounts_follow_handlers {threads : Nat} (hpos : 0 < threads) {keepAliveTime : Nat}
    {filter : Φ} {σ : System Φ}
    (hrun : Transition.Run (System.step F) (fun σ a => DrawsApart σ a ∧ Spares σ a)
      (System.start threads keepAliveTime filter) σ) :
    (∀ c, c ∈ σ.live ↔ ∃ id, (id ≠ 0 ∧ id ∉ σ.idGenerator.pools) ∧
        σ.getSessionHandler id = some c) ∧
      (∀ id, (∃ c ∈ σ.live, σ.getSessionHandler id = some c) ∨ id ∈ σ.idGenerator.pools ↔
        1 ≤ id.toNat ∧ id.toNat < σ.idGenerator.next.toNat) ∧
      ∀ t < threads,
        σ.threadLoad[t]? = some (σ.live.countP fun c => (σ.sessions c).ioThread = t) := by
  have hall : Transition.Run (System.step F)
      (fun σ a => (DrawsApart σ a ∧ Spares σ a) ∧ Transition.Anything (System Φ) (Act Φ) σ a)
      (System.start threads keepAliveTime filter) σ :=
    hrun.mono fun _ _ ha => ⟨ha, trivial⟩
  obtain ⟨hledger, hparted⟩ := Ledger.of_run hpos trivial
    (fun {τ a} _ => projects_anything τ (offers_anything a)) hall
  have haccounts := hledger.pooled.accounts
  refine ⟨fun c => ?_, fun id => ?_, fun t ht => ?_⟩
  · rw [hparted.mem_live]
    refine exists_congr fun id => ⟨fun hid => ⟨⟨?_, (haccounts.used id c hid).2.2⟩, hid⟩, And.right⟩
    exact (hparted.separate.handler_id hid).1
  · -- a key of the map is the id of an open connection
    have hkey : (∃ c ∈ σ.live, σ.getSessionHandler id = some c) ↔
        id ∈ σ.sessionHandlerMap.keys := by
      rw [← AList.mem_keys, ← AList.lookup_isSome, Option.isSome_iff_exists]
      exact exists_congr fun c => ⟨And.right, fun hid => ⟨hparted.mem_live.mpr ⟨id, hid⟩, hid⟩⟩
    rw [hkey]
    exact haccounts.covers
  · obtain ⟨hthreads, -⟩ := run_settings hrun
    rw [hledger.load t (hthreads.symm ▸ ht), hparted.registered]

/-- Of two connections the first has been closed: its id is in the pool, and the second is all of
the load of its thread. -/
theorem accounts_follow_handlers_first : ∃ σ, ran firstClosed = some σ ∧
    (σ.live = [1] ∧ σ.idGenerator.pools = {1}) ∧
    ((∃ c ∈ σ.live, σ.getSessionHandler 2 = some c) ∨ 2 ∈ σ.idGenerator.pools ↔
      1 ≤ (2 : TCPSessionID).toNat ∧ (2 : TCPSessionID).toNat < σ.idGenerator.next.toNat) ∧
    σ.threadLoad[1]? = some (σ.live.countP fun c => (σ.sessions c).ioThread = 1) := by
  obtain ⟨σ, hσ, hview⟩ := Option.map_eq_some_iff.mp (show
    (ran firstClosed).map (fun σ => (σ.live, σ.idGenerator.pools)) = some ([1], {1})
      by decide +kernel)
  have hyoung : Transition.Run (System.step (messageFilter .little .zeros))
      (fun σ a => Young σ a ∧ Spares σ a) (start 2 0 (.new 0)) σ :=
    Transition.run_of_exec hσ (by decide +kernel)
  have hrun := drawsApart_of_young_anything Nat.two_pos hyoung
  obtain ⟨-, hbelow, hload⟩ := accounts_follow_handlers Nat.two_pos hrun
  exact ⟨σ, hσ, Prod.mk.inj hview, hbelow 2, hload 1 (by decide)⟩

end System
end EddyServer
