import EddyServer.System.Known
import EddyServer.System.Scene

/-!
# Inbound isolation

What a session reads reaches the main thread under the session's id only. It goes to the right
handler as long as nobody else is registered under that id while messages are on their way: in the
session, behind a flush that is queued, or in a batch. A session that is closed with a flush pending
breaks this when its id is drawn again before the batch has arrived.
-/

namespace EddyServer

/-- The job passes on what session `c` has received. -/
def Job.flushes {Φ : Type} (c : Conn) : Job Φ → Bool
  | .on d .sessionPackMessageList | .on d .sessionSendMessageListDirectly => d == c
  | _ => false

/-- The task has messages to pass on. -/
def Task.forwards : Task → Bool
  | .sessionPackMessageList | .sessionSendMessageListDirectly => true
  | .sendMessageListToHandler .. => true
  | _ => false

namespace System

variable {Φ : Type} {F : MessageFilterInterface Φ}

/-! ## Messages on their way -/

/-- Session `d` may still send messages to the main thread: it is open, or a flush is pending. -/
def Sending (σ : System Φ) (d : Conn) : Prop :=
  (σ.sessions d).closed = false ∨
    (σ.sessions d).messagesReceived ≠ [] ∧ ∃ t, ∃ job ∈ σ.tasks t, job.flushes d = true

/-- No message is on its way under id `k`. -/
structure Settled (σ : System Φ) (k : TCPSessionID) : Prop where
  sessions : ∀ d, (σ.sessions d).sessionId = k → ¬ Sending σ d
  batches : ∀ t d messages, .on d (.sendMessageListToHandler k messages) ∉ σ.tasks t

/-- The id that a step draws is not registered, and no message is on its way under it. -/
def DrawsSettled (σ : System Φ) (a : Act Φ) : Prop :=
  ∀ k, σ.drawn a = some k → σ.getSessionHandler k = none ∧ Settled σ k

/-! ## The invariant -/

/-- Whoever is registered under `k` is connection `c`. -/
def Only (σ : System Φ) (k : TCPSessionID) (c : Conn) : Prop :=
  ∀ h, σ.getSessionHandler k = some h → h = c

structure Delivered (σ : System Φ) : Prop where
  received : ∀ d, ∀ m ∈ (σ.sessions d).messagesReceived, m ∈ (σ.sessions d).trace.decoded
  sending : ∀ d, Sending σ d → Only σ (σ.sessions d).sessionId d
  batch : ∀ t d k messages, .on d (.sendMessageListToHandler k messages) ∈ σ.tasks t →
    Only σ k d ∧ ∀ m ∈ messages, m ∈ (σ.sessions d).trace.decoded
  own : ∀ h d m, .onMessage d m ∈ (σ.handlers h).callbacks →
    d = h ∧ m ∈ (σ.sessions d).trace.decoded

theorem Delivered.start (threads keepAliveTime : Nat) (filter : Φ) :
    Delivered (start threads keepAliveTime filter) where
  received d m h := by cases h
  sending d h := by
    rcases h with h | ⟨h, -⟩
    · cases h
    · exact absurd rfl h
  batch _ _ _ _ h := by simp at h
  own h d m hm := by cases hm

/-- What a step may change of the messages on their way when it registers nothing. -/
structure Forwards (σ σ' : System Φ) : Prop where
  registered : ∀ k h, σ'.getSessionHandler k = some h → σ.getSessionHandler k = some h
  sessionId : ∀ d, (σ'.sessions d).sessionId = (σ.sessions d).sessionId
  decoded : ∀ d, ∀ m ∈ (σ.sessions d).trace.decoded, m ∈ (σ'.sessions d).trace.decoded
  received : ∀ d, ∀ m ∈ (σ'.sessions d).messagesReceived,
    m ∈ (σ.sessions d).messagesReceived ∨ m ∈ (σ'.sessions d).trace.decoded
  sending : ∀ d, Sending σ' d → Sending σ d
  batch : ∀ t d k messages, .on d (.sendMessageListToHandler k messages) ∈ σ'.tasks t →
    .on d (.sendMessageListToHandler k messages) ∈ σ.tasks t ∨
      Sending σ d ∧ k = (σ.sessions d).sessionId ∧ messages = (σ.sessions d).messagesReceived
  own : ∀ h d m, .onMessage d m ∈ (σ'.handlers h).callbacks →
    .onMessage d m ∈ (σ.handlers h).callbacks ∨ d = h ∧ m ∈ (σ.sessions d).trace.decoded

theorem Delivered.forwards {σ σ' : System Φ} (h : Delivered σ) (hf : Forwards σ σ') :
    Delivered σ' := by
  have honly : ∀ {k c}, Only σ k c → Only σ' k c := fun hk e he => hk e (hf.registered _ e he)
  refine ⟨fun d m hm => ?_, fun d hd => ?_, fun t d k messages hjob => ?_, fun e d m hm => ?_⟩
  · rcases hf.received d m hm with hold | hnew
    · exact hf.decoded d m (h.received d m hold)
    · exact hnew
  · rw [hf.sessionId]
    exact honly (h.sending d (hf.sending d hd))
  · rcases hf.batch t d k messages hjob with hold | ⟨hsend, rfl, rfl⟩
    · obtain ⟨hk, hm⟩ := h.batch t d k messages hold
      exact ⟨honly hk, fun m hmem => hf.decoded d m (hm m hmem)⟩
    · exact ⟨honly (h.sending d hsend), fun m hmem => hf.decoded d m (h.received d m hmem)⟩
  · rcases hf.own e d m hm with hold | ⟨rfl, hnew⟩
    · obtain ⟨rfl, hdec⟩ := h.own e d m hold
      exact ⟨rfl, hf.decoded d m hdec⟩
    · exact ⟨rfl, hf.decoded d m hnew⟩

/-! ## Steps that forward messages -/

theorem Forwards.popped {σ : System Φ} {t : ThreadIx} {job : Job Φ} {rest : List (Job Φ)}
    (ht : σ.tasks t = job :: rest) : Forwards σ (σ.popped t rest) where
  registered _ _ h := h
  sessionId _ := rfl
  decoded _ _ h := h
  received _ _ h := .inl h
  sending d h := by
    rcases h with h | ⟨h, u, job', hjob, hflush⟩
    · exact .inl h
    · exact .inr ⟨h, u, job', mem_popped ht hjob, hflush⟩
  batch _ _ _ _ h := .inl (mem_popped ht h)
  own _ _ _ h := .inl h

/-- As far as messages on their way are concerned, `t` is `s`. -/
structure SameMail (s t : TCPSession Φ) : Prop where
  sessionId : t.sessionId = s.sessionId
  closed : t.closed = s.closed
  messagesReceived : t.messagesReceived = s.messagesReceived
  decoded : t.trace.decoded = s.trace.decoded

theorem SameMail.refl (s : TCPSession Φ) : SameMail s s := ⟨rfl, rfl, rfl, rfl⟩

theorem sameMail_update {sessions : Conn → TCPSession Φ} {c : Conn} {s : TCPSession Φ}
    (h : SameMail (sessions c) s) (d : Conn) :
    SameMail (sessions d) (Function.update sessions c s d) := by
  by_cases hd : d = c
  · subst hd
    rwa [Function.update_self]
  · rw [Function.update_of_ne hd]
    exact .refl _

/-- No session and no message on its way has changed; handlers may have received messages of their
own. -/
theorem forwards_frame {σ σ' : System Φ} (hmap : σ'.sessionHandlerMap = σ.sessionHandlerMap)
    (hsessions : ∀ d, SameMail (σ.sessions d) (σ'.sessions d))
    (htasks : ∀ t, ∃ more, σ'.tasks t = σ.tasks t ++ more ∧
      ∀ d task, .on d task ∈ more → task.forwards = false)
    (hown : ∀ h d m, .onMessage d m ∈ (σ'.handlers h).callbacks →
      .onMessage d m ∈ (σ.handlers h).callbacks ∨ d = h ∧ m ∈ (σ.sessions d).trace.decoded) :
    Forwards σ σ' := by
  have hmem : ∀ {t d task}, .on d task ∈ σ'.tasks t → task.forwards = true →
      .on d task ∈ σ.tasks t := by
    intro t d task hjob hforwards
    obtain ⟨more, heq, hmore⟩ := htasks t
    rw [heq] at hjob
    rcases List.mem_append.mp hjob with hold | hnew
    · exact hold
    · rw [hmore d task hnew] at hforwards
      cases hforwards
  refine ⟨fun k h => ?_, fun d => (hsessions d).sessionId, fun d m hm => ?_, fun d m hm => ?_,
    fun d hd => ?_, fun t d k messages hjob => .inl (hmem hjob rfl), hown⟩
  · rw [getSessionHandler, hmap, getSessionHandler]
    exact fun hk => hk
  · rwa [(hsessions d).decoded]
  · rw [(hsessions d).messagesReceived] at hm
    exact .inl hm
  · unfold Sending at hd ⊢
    rw [(hsessions d).closed, (hsessions d).messagesReceived] at hd
    rcases hd with hopen | ⟨hne, t, job, hjob, hflush⟩
    · exact .inl hopen
    · refine .inr ⟨hne, t, job, ?_, hflush⟩
      rcases job with ⟨e, task⟩ | _
      · refine hmem hjob ?_
        cases task <;> first | rfl | cases hflush
      · cases hflush

theorem Calls.forwards {cbs : List (Conn × Callback)} {σ σ' : System Φ} (h : Calls cbs σ σ')
    (hown : ∀ e d m, (e, .onMessage d m) ∈ cbs → d = e ∧ m ∈ (σ.sessions d).trace.decoded) :
    Forwards σ σ' := by
  refine forwards_frame h.keeps.sessionHandlerMap (fun d => ?_) (fun t => ?_) fun e d m hm => ?_
  · obtain ⟨_, _, rfl⟩ := h.same
    exact .refl _
  · obtain ⟨more, heq, hmore⟩ := h.tasks t
    refine ⟨more, heq, fun d task hjob => ?_⟩
    obtain ⟨c, task', heq', ⟨-, -, rfl | rfl⟩ | ⟨-, ⟨messages, rfl⟩ | rfl⟩⟩ := hmore _ hjob <;>
      cases heq' <;> rfl
  · rw [h.callbacks] at hm
    rcases List.mem_append.mp hm with hold | hnew
    · exact .inl hold
    · obtain ⟨⟨e', cb⟩, hcb, rfl⟩ := List.mem_map.mp hnew
      obtain ⟨hmem, he⟩ := List.mem_filter.mp hcb
      obtain rfl : e' = e := by simpa using he
      exact .inr (hown e' d m hmem)

/-- What a function of a session does with messages: it keeps them, an open session adds to them, or
it passes all of them on. -/
theorem move_mail {s : TCPSession Φ} {found : Option Conn} {task : Task}
    {r : TCPSession Φ × List Effect} (h : TCPSession.Move s found task r) :
    (∀ m ∈ s.trace.decoded, m ∈ r.1.trace.decoded) ∧
      (∀ m ∈ r.1.messagesReceived, m ∈ s.messagesReceived ∨ m ∈ r.1.trace.decoded) ∧
      (r.1.messagesReceived ≠ [] → s.closed = false ∨ s.messagesReceived ≠ [] ∧
        ∀ t task', .post t task' ∈ r.2 → task'.forwards = false) ∧
      ∀ t k messages, .post t (.sendMessageListToHandler k messages) ∈ r.2 →
        task = .sessionPackMessageList ∧ s.messagesReceived ≠ [] ∧ k = s.sessionId ∧
          messages = s.messagesReceived := by
  cases h.outcome with
  | quiet hq _ heffects =>
      rw [hq.decoded, hq.messagesReceived, heffects]
      exact ⟨fun _ hm => hm, fun _ hm => .inl hm, fun hne => .inr ⟨hne, nofun⟩, nofun⟩
  | timer hq _ heffects =>
      rw [hq.decoded, hq.messagesReceived, heffects]
      refine ⟨fun _ hm => hm, fun _ hm => .inl hm, fun hne => .inr ⟨hne, fun t task' hmem => ?_⟩,
        fun t k messages hmem => ?_⟩ <;> cases List.mem_singleton.mp hmem
      rfl
  | deregister _ _ _ hreceived hdecoded _ heffects =>
      rw [hdecoded, hreceived, heffects]
      refine ⟨fun _ hm => hm, fun _ hm => .inl hm, fun hne => .inr ⟨hne, fun t task' hmem => ?_⟩,
        fun t k messages hmem => ?_⟩
      · rcases TCPSession.mem_leaving hmem with hpost | hremove | hpost <;> cases ‹_› <;> rfl
      · rcases TCPSession.mem_leaving hmem with hpost | hremove | hpost <;> cases ‹_›
  | receive new _ hr _ heffects =>
      rw [hr.decoded, hr.messagesReceived, heffects]
      exact ⟨fun m hm => List.mem_append_left new hm,
        fun m hm => (List.mem_append.mp hm).imp_right (List.mem_append_right _),
        fun _ => .inl hr.wasOpen, nofun⟩
  | first new _ hr _ _ heffects =>
      rw [hr.decoded, hr.messagesReceived, heffects]
      refine ⟨fun m hm => List.mem_append_left new hm,
        fun m hm => (List.mem_append.mp hm).imp_right (List.mem_append_right _),
        fun _ => .inl hr.wasOpen, fun t k messages hmem => ?_⟩
      have hflush := (Effect.post.inj (List.mem_singleton.mp hmem)).2
      unfold TCPSession.flushTask at hflush
      split_ifs at hflush
  | deliver htask hne hreceived hdecoded _ heffects =>
      rw [hdecoded, hreceived, heffects]
      refine ⟨fun _ hm => hm, nofun, fun h => absurd rfl h, fun t k messages hmem => ?_⟩
      cases List.mem_singleton.mp hmem
      exact ⟨htask, hne, rfl, rfl⟩

/-- A function of session `d` has run. -/
theorem forwards_move {σ : System Φ} {t : ThreadIx} {c d : Conn} {task : Task}
    {rest : List (Job Φ)} {r : TCPSession Φ × List Effect} (ht : σ.tasks t = .on c task :: rest)
    (hd : d = c ∨ σ.target t c task = some d)
    (hmove : TCPSession.Move (σ.sessions d) (σ.found d) task r) :
    Forwards σ ((σ.popped t rest).onSession d r) := by
  obtain ⟨hdecoded, hreceived, hsending, hbatch⟩ := move_mail hmove
  have hjobs : ∀ {u job}, job ∈ ((σ.popped t rest).onSession d r).tasks u →
      job ∈ σ.tasks u ∨ ∃ task', .post u task' ∈ r.2 ∧ job = .on d task' := by
    intro u job hjob
    rw [onSession_eq] at hjob
    exact (List.mem_append.mp hjob).imp (mem_popped ht) mem_jobsTo.mp
  have hself : ((σ.popped t rest).onSession d r).sessions d = r.1 := by
    rw [onSession_eq]
    exact Function.update_self ..
  have hother : ∀ e ≠ d, ((σ.popped t rest).onSession d r).sessions e = σ.sessions e := by
    intro e he
    rw [onSession_eq]
    exact Function.update_of_ne he _ _
  refine ⟨fun k h hk => ?_, fun e => ?_, fun e m hm => ?_, fun e m hm => ?_, fun e he => ?_,
    fun u e k messages hjob => ?_, fun h e m hm => ?_⟩
  · rw [onSession_eq] at hk
    exact hk
  · rcases eq_or_ne e d with rfl | hed
    · rw [hself, hmove.sessionId]
    · rw [hother e hed]
  · rcases eq_or_ne e d with rfl | hed
    · rw [hself]
      exact hdecoded m hm
    · rw [hother e hed]
      exact hm
  · rcases eq_or_ne e d with rfl | hed
    · rw [hself] at hm ⊢
      exact hreceived m hm
    · rw [hother e hed] at hm
      exact .inl hm
  · -- a flush that is pending now was pending before, or has been posted by an open session
    unfold Sending at he ⊢
    rcases eq_or_ne e d with rfl | hed
    · rw [hself] at he
      rcases he with hopen | ⟨hne, u, job, hjob, hflush⟩
      · left
        by_contra hclosed
        rw [Bool.not_eq_false] at hclosed
        rw [hmove.stays hclosed] at hopen
        cases hopen
      · rcases hsending hne with hopen | ⟨hne', hposts⟩
        · exact .inl hopen
        · refine .inr ⟨hne', u, job, ?_, hflush⟩
          rcases hjobs hjob with hold | ⟨task', hpost, rfl⟩
          · exact hold
          · have hnot := hposts u task' hpost
            cases task' <;> first | cases hflush | cases hnot
    · rw [hother e hed] at he
      refine he.imp_right fun ⟨hne, u, job, hjob, hflush⟩ => ⟨hne, u, job, ?_, hflush⟩
      rcases hjobs hjob with hold | ⟨task', -, rfl⟩
      · exact hold
      · have hde : d = e := by
          cases task' <;> first | cases hflush | simpa [Job.flushes] using hflush
        exact absurd hde.symm hed
  · rcases hjobs hjob with hold | ⟨task', hpost, heq⟩
    · exact .inl hold
    · cases heq
      obtain ⟨rfl, hne, hk, hmessages⟩ := hbatch u k messages hpost
      obtain rfl : d = c := hd.resolve_right nofun
      exact .inr ⟨.inr ⟨hne, t, _, by rw [ht]; exact List.mem_cons_self, by simp [Job.flushes]⟩, hk,
        hmessages⟩
  · rw [onSession_eq] at hm
    exact .inl hm

/-! ## Steps -/

/-- A new connection enters the map under an id without messages on their way. -/
theorem Delivered.register {σ : System Φ} (h : Delivered σ) (hknown : Known σ) {k : TCPSessionID}
    (hfresh : σ.getSessionHandler k = none) (hsettled : Settled σ k) {s : TCPSession Φ}
    (hs : s.Pristine) (generator : IDGenerator 32) : Delivered (σ.register s k generator) := by
  have hfind : ∀ k', (σ.register s k generator).getSessionHandler k' =
      if k' = k then some σ.accepted else σ.getSessionHandler k' :=
    getSessionHandler_register hfresh
  have hself : (σ.register s k generator).sessions σ.accepted = s := session_register
  have hother : ∀ c ≠ σ.accepted, (σ.register s k generator).sessions c = σ.sessions c :=
    fun c hc => session_register_of_ne hc
  have hjobs : ∀ {t c task}, .on c task ∈ (σ.register s k generator).tasks t →
      task.forwards = true → .on c task ∈ σ.tasks t := by
    intro t c task hjob hforwards
    rcases mem_tasks_register hjob with hold | ⟨-, hinit⟩
    · exact hold
    · cases hinit
      cases hforwards
  -- What was on its way to another id still goes there alone.
  have honly : ∀ {k' c}, k' ≠ k → Only σ k' c → Only (σ.register s k generator) k' c := by
    intro k' c hk' hc e he
    rw [hfind, if_neg hk'] at he
    exact hc e he
  obtain ⟨filter, keepAliveTime, hnew⟩ := hs
  refine ⟨fun d m hm => ?_, fun d hd => ?_, fun t d k' messages hjob => ?_, fun e d m hm => ?_⟩
  · rcases eq_or_ne d σ.accepted with rfl | hne
    · rw [hself, hnew] at hm
      cases hm
    · rw [hother d hne] at hm ⊢
      exact h.received d m hm
  · rcases eq_or_ne d σ.accepted with rfl | hne
    · -- The new session has received nothing.
      unfold Sending at hd
      rw [hself, hnew] at hd
      rcases hd with hopen | ⟨hreceived, -⟩
      · cases hopen
      · exact absurd rfl hreceived
    · have hsending : Sending σ d := by
        unfold Sending at hd
        rw [hother d hne] at hd
        refine hd.imp_right ?_
        rintro ⟨hreceived, t, job, hjob, hflush⟩
        refine ⟨hreceived, t, job, ?_, hflush⟩
        rcases job with ⟨c, task⟩ | _
        · refine hjobs hjob ?_
          cases task <;> first | rfl | cases hflush
        · cases hflush
      rw [hother d hne]
      exact honly (fun hk => hsettled.sessions d hk hsending) (h.sending d hsending)
  · have hold := hjobs hjob rfl
    have hne : d ≠ σ.accepted := Nat.ne_of_lt (hknown.job t d _ hold)
    -- A batch under the new id would be one that is not settled.
    have hk' : k' ≠ k := by
      rintro rfl
      exact hsettled.batches t d messages hold
    obtain ⟨hkd, hm⟩ := h.batch t d k' messages hold
    rw [hother d hne]
    exact ⟨honly hk' hkd, hm⟩
  · rcases eq_or_ne e σ.accepted with rfl | hne
    · rw [handler_register] at hm
      cases hm
    · rw [handler_register_of_ne hne] at hm
      obtain ⟨rfl, hdec⟩ := h.own e d m hm
      rw [hother d hne]
      exact ⟨rfl, hdec⟩

/-- Session `c`, which is registered under `k`, has run `init`. -/
theorem Delivered.opens {σ : System Φ} (h : Delivered σ) {c : Conn} {k : TCPSessionID}
    (hmap : σ.getSessionHandler k = some c) {r : TCPSession Φ × List Effect}
    (hr : TCPSession.Opens (σ.sessions c) k r) : Delivered (σ.onSession c r) := by
  rw [onSession_of_adds hr.effects]
  have hdecoded := update_field (S := σ.sessions) (c := c) (·.trace.decoded)
    (s := r.1) (by rw [hr.trace])
  have hreceived := update_field (S := σ.sessions) (c := c) (·.messagesReceived)
    (s := r.1) hr.messagesReceived
  refine ⟨fun d m hm => ?_, fun d hd => ?_, fun t d k' messages hjob => ?_, fun e d m hm => ?_⟩
  · dsimp only at hm hdecoded hreceived ⊢
    rw [hreceived] at hm
    rw [hdecoded]
    exact h.received d m hm
  · rcases eq_or_ne d c with rfl | hne
    · dsimp only
      rw [Function.update_self, hr.sessionId]
      exact fun e he => Option.some.inj (he.symm.trans hmap)
    · unfold Sending at hd
      dsimp only at hd ⊢
      rw [Function.update_of_ne hne] at hd ⊢
      exact h.sending d hd
  · dsimp only at hdecoded ⊢
    rw [hdecoded]
    exact h.batch t d k' messages hjob
  · dsimp only at hdecoded ⊢
    rw [hdecoded]
    exact h.own e d m hm

/-- What session `c` has received has been passed on. -/
theorem Delivered.emptied {σ : System Φ} (h : Delivered σ) (c : Conn) :
    Delivered { σ with
      sessions := Function.update σ.sessions c { σ.sessions c with messagesReceived := [] } } := by
  have hsame : ∀ d, (Function.update σ.sessions c { σ.sessions c with messagesReceived := [] } d).trace =
      (σ.sessions d).trace := update_field (·.trace) rfl
  refine h.forwards ⟨fun _ _ hk => hk, update_field (·.sessionId) rfl, fun d m hm => ?_,
    fun d m hm => ?_, fun d hd => ?_, fun _ _ _ _ hjob => .inl hjob, fun _ _ _ hm => .inl hm⟩
  · rwa [hsame]
  · rcases eq_or_ne d c with rfl | hne
    · simp at hm
    · dsimp only at hm
      rw [Function.update_of_ne hne] at hm
      exact .inl hm
  · unfold Sending at hd ⊢
    rcases eq_or_ne d c with rfl | hne
    · exact .inl (by simpa using hd)
    · dsimp only at hd
      rwa [Function.update_of_ne hne] at hd

theorem Delivered.step {σ σ' : System Φ} {a : Act Φ} (h : Delivered σ) (hreg : Registry σ)
    (hknown : Known σ) (hev : Event F σ a σ') (hok : DrawsSettled σ a) : Delivered σ' := by
  have hp : ∀ {t job rest}, σ.tasks t = job :: rest → Delivered (σ.popped t rest) :=
    fun ht => h.forwards (.popped ht)
  cases hev with
  | move t c d task rest r ht _ hd hmove => exact h.forwards (forwards_move ht hd hmove)
  | opens t c k rest r ht _ hr =>
      exact (hp ht).opens (hreg.opening t c k (by rw [ht]; exact List.mem_cons_self)).1 hr
  | posts t c d task rest messages s buffer ht _ hposts =>
      refine (hp ht).forwards (forwards_frame rfl (fun e => ?_) (fun t => ⟨[], by simp, by simp⟩)
        fun e d' m hm => .inl ?_)
      · exact sameMail_update ⟨hposts.sessionId, hposts.closed, hposts.quiet.messagesReceived,
          hposts.quiet.decoded⟩ e
      · dsimp only at hm
        rcases eq_or_ne e c with rfl | he
        · rwa [Function.update_self] at hm
        · rwa [Function.update_of_ne he] at hm
  | plain t c task rest ht _ _ hcalls => exact (hp ht).forwards (hcalls.forwards nofun)
  | deliver t c e k messages rest ht hmap hcalls =>
      -- Whoever is found under the id of the batch is the connection that has sent it.
      obtain ⟨honly, hm⟩ := h.batch t c k messages (by rw [ht]; exact List.mem_cons_self)
      refine (hp ht).forwards (hcalls.forwards fun e' d m hmem => ?_)
      obtain ⟨m', hm', heq⟩ := List.mem_map.mp hmem
      cases heq
      exact ⟨(honly e hmap).symm, hm m hm'⟩
  | @deliverDirectly τ t c e rest ht hmap hcalls =>
      refine ((hp ht).forwards (hcalls.forwards fun e' d m hmem => ?_)).emptied c
      obtain ⟨m', hm', heq⟩ := List.mem_map.mp hmem
      cases heq
      -- The flush itself shows that session `c` is still passing messages on.
      have hsending : Sending σ c := .inr ⟨List.ne_nil_of_mem hm', t, _,
        by rw [ht]; exact List.mem_cons_self, by simp [Job.flushes]⟩
      exact ⟨(h.sending c hsending e hmap).symm, h.received c m hm'⟩
  | @closed τ t c e k rest threadLoad ht hmap hcalls =>
      have hτ := (hp ht).forwards (hcalls.forwards fun e' d m hmem => by simp at hmem)
      refine hτ.forwards ⟨fun k' d hd => ?_, fun _ => rfl, fun _ _ hm => hm, fun _ _ hm => .inl hm,
        fun _ hd => hd, fun _ _ _ _ hjob => .inl hjob, fun e' d m hm => .inl ?_⟩
      · change (τ.sessionHandlerMap.erase k).find k' = some d at hd
        rw [Table.find_erase] at hd
        split_ifs at hd
        exact hd
      · change .onMessage d m ∈ (Function.update τ.handlers e _ e').callbacks at hm
        rcases eq_or_ne e' e with rfl | he
        · rw [Function.update_self] at hm
          exact hm
        · rw [Function.update_of_ne he] at hm
          exact hm
  | unknown t c k rest generator ht hnone =>
      exact (hp ht).forwards (forwards_frame rfl (fun _ => .refl _) (fun t => ⟨[], by simp, by simp⟩)
        fun _ _ _ hm => .inl hm)
  | connect t u filter first k rest generator threadLoad accepting ht hdrawn _ _ hcalls =>
      -- The new id has nothing on its way, and running this task does not change that.
      obtain ⟨hfresh, hsettled⟩ := hok k hdrawn
      have hsettled' : Settled (σ.popped t rest) k :=
        ⟨fun d hd hsending => hsettled.sessions d hd ((Forwards.popped ht).sending d hsending),
          fun t' d messages hjob => hsettled.batches t' d messages (mem_popped ht hjob)⟩
      have hconn := (hp ht).register (hknown.popped ht) hfresh hsettled' (s := .new u filter
        σ.keepAliveTime) ⟨filter, σ.keepAliveTime, rfl⟩ generator
      exact (hconn.forwards (hcalls.forwards fun e d m hmem => by simp at hmem)).forwards
        (forwards_frame rfl (fun _ => .refl _) (fun t => ⟨[], by simp, by simp⟩)
          fun _ _ _ hm => .inl hm)
  | complete t c task s hs hout =>
      rw [post_eq]
      obtain ⟨socket, timer, rfl⟩ := hs.same
      refine h.forwards (forwards_frame rfl (sameMail_update ⟨rfl, rfl, rfl, rfl⟩)
        (fun u => ⟨_, rfl, fun d task' hjob => ?_⟩) fun _ _ _ hm => .inl hm)
      split_ifs at hjob
      · cases List.mem_singleton.mp hjob
        have hcompletion := hs.isCompletion
        cases task <;> first | rfl | cases hcompletion
      · cases hjob
  | accept t filter error =>
      rw [post_eq]
      refine h.forwards (forwards_frame rfl (fun _ => .refl _) (fun u => ⟨_, rfl, ?_⟩)
        fun _ _ _ hm => .inl hm)
      intro d task hjob
      split_ifs at hjob <;> simp at hjob
  | refuse t u filter error rest ht => exact hp ht
  | logic hcalls => exact h.forwards (hcalls.forwards nofun)
  | tick clock =>
      exact h.forwards (forwards_frame rfl (fun _ => .refl _) (fun t => ⟨[], by simp, by simp⟩)
        fun _ _ _ hm => .inl hm)

/-! ## Runs -/

/-- What holds in every run that draws settled ids only. -/
structure Receiving (σ : System Φ) : Prop where
  registry : Registry σ
  known : Known σ
  delivered : Delivered σ

theorem Receiving.start (threads keepAliveTime : Nat) (filter : Φ) :
    Receiving (start threads keepAliveTime filter) :=
  ⟨.start threads keepAliveTime filter, .start threads keepAliveTime filter,
    .start threads keepAliveTime filter⟩

theorem Receiving.step {σ σ' : System Φ} {a : Act Φ} (h : Receiving σ) (hok : DrawsSettled σ a)
    (hstep : step F σ a = some σ') : Receiving σ' :=
  have hev := event_of_step hstep
  ⟨h.registry.step hev fun k hk => (hok k hk).1, h.known.step h.registry hev,
    h.delivered.step h.registry h.known hev hok⟩

/-- In a run that draws an id only when it is not registered and no message is on its way under it,
every message a handler receives has been decoded by the handler's own session. -/
theorem inbound_isolated {threads keepAliveTime : Nat} {filter : Φ} {σ : System Φ}
    (hrun : Transition.Run (System.step F) DrawsSettled (System.start threads keepAliveTime filter) σ)
    {h c : Conn} {m : NetMessage} (hm : .onMessage c m ∈ (σ.handlers h).callbacks) :
    c = h ∧ m ∈ (σ.sessions h).trace.decoded := by
  have hreceiving : Receiving σ :=
    hrun.invariant (fun hi hok hstep => hi.step hok hstep) (.start threads keepAliveTime filter)
  obtain ⟨rfl, hdecoded⟩ := hreceiving.delivered.own h c m hm
  exact ⟨rfl, hdecoded⟩

/-- Nothing is on its way before the first connection is accepted. -/
theorem Known.settled {σ : System Φ} (h : Known σ) (hnone : σ.accepted = 0) (k : TCPSessionID) :
    Settled σ k := by
  refine ⟨fun d _ hsending => ?_, fun t c messages hjob => ?_⟩
  · obtain ⟨filter, keepAliveTime, hnew⟩ := h.session d (by omega)
    unfold Sending at hsending
    rw [hnew] at hsending
    rcases hsending with hopen | ⟨hreceived, -⟩
    · cases hopen
    · exact hreceived rfl
  · have hlt := h.job t c _ hjob
    omega

/-- A message of one byte that reaches the handler of its connection. -/
theorem inbound_isolated_one_message :
    ∃ σ m, ran [.acceptDone .success, .run 0 [] 0 (.new 0), .run 1 [] 0 (.new 0),
        .readDone 0 0 .success [0, 1], .run 1 [] 0 (.new 0), .readDone 0 0 .success [65],
        .run 1 [] 0 (.new 0), .run 1 [] 0 (.new 0), .run 0 [] 0 (.new 0)] = some σ ∧
      .onMessage 0 m ∈ (σ.handlers 0).callbacks ∧
      ((0 : Conn) = 0 ∧ m ∈ (σ.sessions 0).trace.decoded) := by
  obtain ⟨σ, hσ, hview⟩ := Option.map_eq_some_iff.mp (show
    (ran [.acceptDone .success, .run 0 [] 0 (.new 0), .run 1 [] 0 (.new 0),
      .readDone 0 0 .success [0, 1], .run 1 [] 0 (.new 0), .readDone 0 0 .success [65],
      .run 1 [] 0 (.new 0), .run 1 [] 0 (.new 0), .run 0 [] 0 (.new 0)]).map (fun σ =>
        (σ.handlers 0).callbacks) =
      some [.onConnected, .onMessage 0
        { isDynmic := false, readerPos := 0, writerPos := 1, dynamicData := none,
          staticData := 65 :: List.replicate 127 0 }] by
        decide +kernel)
  have hrun : Transition.Run (System.step _) DrawsSettled (System.start 2 0 (.new 0)) σ :=
    Transition.run_of_exec_of_invariant (I := Receiving)
      (P := fun σ a => Fresh σ a ∧ (σ.drawn a = none ∨ σ.accepted = 0))
      (fun hi hok hstep => hi.step hok hstep)
      (fun hi ha k hk => ⟨ha.1 k hk, hi.known.settled (ha.2.resolve_left fun h => by
        rw [h] at hk; cases hk) k⟩)
      (.start _ _ _) hσ (by decide +kernel)
  have hm := hview ▸ List.mem_cons_of_mem _ (List.mem_singleton.mpr rfl)
  exact ⟨σ, _, hσ, hm, inbound_isolated hrun hm⟩

namespace Scene

/-- A session with id 4096 that has read a header that announces one byte. -/
def headed : TCPSession MessageFilter :=
  ((readTaken (opened 4096)).handleRead codec 0 (some 4095) .success [0, 1]).1

/-- And then the byte. -/
def filled : TCPSession MessageFilter :=
  ((readTaken headed).handleRead codec 0 (some 4095) .success [65]).1

/-- It is closed before it has passed the message on. -/
def cut : TCPSession MessageFilter := (filled.close .closeSession (some 4095)).1

theorem handleRead_headed :
    (readTaken (opened 4096)).handleRead codec 0 (some 4095) .success [0, 1] = (headed, []) := by
  have heffects :
      ((readTaken (opened 4096)).handleRead codec 0 (some 4095) .success [0, 1]).2 = [] := by
    decide +kernel
  exact Prod.ext rfl heffects

theorem handleRead_filled :
    (readTaken headed).handleRead codec 0 (some 4095) .success [65] =
      (filled, [.post 1 .sessionPackMessageList]) := by
  have heffects : ((readTaken headed).handleRead codec 0 (some 4095) .success [65]).2 =
      [.post 1 .sessionPackMessageList] := by
    decide +kernel
  exact Prod.ext rfl heffects

theorem close_cut :
    filled.close .closeSession (some 4095) =
      (cut, [.post mainThread (.onSessionClosed cut.sessionId), .queueRemove]) := by
  have heffects : (filled.close .closeSession (some 4095)).2 =
      [.post mainThread (.onSessionClosed cut.sessionId), .queueRemove] := by
    decide +kernel
  exact Prod.ext rfl heffects

theorem packMessageList_cut :
    cut.packMessageList = (cut.packMessageList.1,
      [.post mainThread (.sendMessageListToHandler 4096 [oneByteMessage 65])]) := by
  have heffects : cut.packMessageList.2 =
      [.post mainThread (.sendMessageListToHandler 4096 [oneByteMessage 65])] := by
    decide +kernel
  exact Prod.ext rfl heffects

/-- Connection 4095, the last before the pool is full, has been closed and deregistered, and its
`PackMessageList` is still queued. -/
structure Unflushed (s : Scene) : Prop where
  accepted : s.accepted = 4096
  session : s.sessions 4095 = cut
  main : s.main = []
  worker : s.worker = [.on 4095 .sessionPackMessageList]
  registered : s.registered.find 4096 = none
  load : s.load = 0
  accepting : s.accepting = true
  pooled : 4096 ∈ s.idGenerator.pools
  full : s.idGenerator.pools.card ≥ s.idGenerator.threshold

theorem exists_unflushed :
    ∃ s : Scene, Transition.Reach (step codec) (start 2 0 (.new 0)) s.system ∧ Unflushed s := by
  obtain ⟨s, hreach, hidle, hcount⟩ := exists_idle 4095 (by decide)
  obtain ⟨hoffers, hget⟩ := get_of_few hidle (by omega) 0
  have hnext : s.idGenerator.next = 4096 :=
    BitVec.eq_of_toNat_eq (by rw [hidle.next, hcount]; rfl)
  rw [hnext] at hget
  have hentries : s.entries.find 4096 = none := by
    rw [hidle.entries]
    exact Table.find_empty _
  have hregistered : s.registered.find 4096 = none := by
    rw [hidle.registered]
    exact Table.find_empty _
  have hroom : (∅ : Table TCPSessionID Conn).size + s.idGenerator.threshold + 1 < 2 ^ 32 := by
    rw [hidle.threshold, Table.size_empty]
    decide
  obtain ⟨-, -, hacc⟩ := hidle.accounts.get hoffers hroom hget
  generalize hg : ({ s.idGenerator with next := 4096 + 1#32 } : IDGenerator 32) = generator at *
  -- the connection is accepted, and its message read
  let s₁ : Scene :=
    { s with accepting := false, main := s.main ++ [.handleAccept 1 (.new 0) .success] }
  let s₂ : Scene :=
    { ({ s₁ with main := [] } : Scene).connected 4096 generator with
      load := 1
      accepting := true }
  let s₃ : Scene :=
    { s₂ with
      sessions := Function.update s₂.sessions s.accepted (opened 4096)
      worker := []
      entries := s₂.entries.add 4096 s.accepted }
  let s₄ : Scene :=
    { s₃ with
      sessions := Function.update s₃.sessions s.accepted (readTaken (opened 4096))
      worker := [.on s.accepted (.handleRead .success [0, 1])] }
  let s₅ : Scene :=
    { s₄ with sessions := Function.update s₄.sessions s.accepted headed, worker := [] }
  let s₆ : Scene :=
    { s₅ with
      sessions := Function.update s₅.sessions s.accepted (readTaken headed)
      worker := [.on s.accepted (.handleRead .success [65])] }
  -- its handler is told to close, so that `CloseSession` is queued before the flush of the message
  let s₇ : Scene :=
    { s₆ with
      handlers := Function.update s₆.handlers s.accepted
        (workerHandler 4096 [.onConnected] [.close])
      worker := [.on s.accepted (.handleRead .success [65]), .on s.accepted (.closeSession 4096)] }
  let s₈ : Scene :=
    { s₇ with
      sessions := Function.update s₇.sessions s.accepted filled
      worker := [.on s.accepted (.closeSession 4096), .on s.accepted .sessionPackMessageList] }
  let s₉ : Scene :=
    { s₈ with
      sessions := Function.update s₈.sessions s.accepted cut
      main := s₈.main ++ [.on s.accepted (.onSessionClosed 4096)]
      worker := [.on s.accepted .sessionPackMessageList]
      entries := s₈.entries.erase 4096 }
  let s₁₀ : Scene :=
    { s₉ with
      handlers := Function.update s₉.handlers s.accepted
        (workerHandler 0 [.onConnected, .onClosed s.accepted] [.close])
      main := []
      registered := s₉.registered.erase 4096
      load := 0
      idGenerator := generator.put 4096 }
  have h₁ : step codec s.system (.acceptDone .success) = some s₁.system :=
    accept_step s hidle.accepting
  have h₂ : step codec s₁.system (.run 0 [[]] 0 (.new 0)) = some s₂.system :=
    connect_step_open s₁ (congrArg (· ++ _) hidle.main) hoffers hget hidle.load
  have h₃ : step codec s₂.system (.run 1 [] 0 (.new 0)) = some s₃.system :=
    init_step s₂ (congrArg (· ++ _) hidle.worker) (Function.update_self ..) 0
  have h₄ : step codec s₃.system (.readDone s.accepted 0 .success [0, 1]) = some s₄.system :=
    read_step s₃ s.accepted .success [0, 1] (Function.update_self ..) rfl rfl rfl
  have hfound : s₃.entries.find 4096 = some s.accepted :=
    (Table.find_add hentries).trans (if_pos rfl)
  have h₅ : step codec s₄.system (.run 1 [] 0 (.new 0)) = some s₅.system := by
    have hsession : s₄.sessions s.accepted = readTaken (opened 4096) := Function.update_self ..
    rw [handleRead_step s₄ rfl hsession rfl hfound, hcount, handleRead_headed]
    exact congrArg some (by rw [← hcount]; rfl)
  have h₆ : step codec s₅.system (.readDone s.accepted 0 .success [65]) = some s₆.system := by
    have hop : headed.socket.reads[0]? = some ⟨.handleRead, true, 1⟩ := by decide +kernel
    exact read_step s₅ s.accepted .success [65] (Function.update_self ..) hop rfl
      (by decide +kernel)
  have hopen : s₆.handlers s.accepted = workerHandler 4096 [.onConnected] [] :=
    Function.update_self ..
  have h₇ : step codec s₆.system (.logic [(s.accepted, .close)]) = some s₇.system :=
    congrArg some (Scene.call_close s₆ (by decide) hopen)
  have h₈ : step codec s₇.system (.run 1 [] 0 (.new 0)) = some s₈.system := by
    have hsession : s₇.sessions s.accepted = readTaken headed := Function.update_self ..
    have hthread : (readTaken headed).ioThread = 1 := by decide +kernel
    have hid : (readTaken headed).sessionId = 4096 := by decide +kernel
    have hfilled : (readTaken headed).handleRead codec 0 (some s.accepted) .success [65] =
        (filled, [.post 1 .sessionPackMessageList]) := by
      rw [hcount]
      exact handleRead_filled
    rw [handleRead_step s₇ rfl hsession hthread (hid ▸ hfound), hfilled]
    exact congrArg some (Scene.onSession_posts
      { s₇ with worker := [.on s.accepted (.closeSession 4096)] } _ _ _)
  have h₉ : step codec s₈.system (.run 1 [] 0 (.new 0)) = some s₉.system := by
    have hcut : filled.close .closeSession (some s.accepted) =
        (cut, [.post mainThread (.onSessionClosed cut.sessionId), .queueRemove]) := by
      rw [hcount]
      exact close_cut
    exact close_step s₈ rfl hfound (Function.update_self ..) (by decide +kernel)
      (by decide +kernel) hcut (by decide +kernel) (by decide +kernel) 0
  have hclosing : s₉.handlers s.accepted = workerHandler 4096 [.onConnected] [.close] :=
    Function.update_self ..
  have h₁₀ : step codec s₉.system (.run 0 [] 0 (.new 0)) = some s₁₀.system :=
    closed_step s₉ rfl ((Table.find_add hregistered).trans (if_pos rfl)) hclosing rfl (by decide) 0
  have hread := step_trans (step_trans (step_trans (step_trans (step_trans (step_trans hreach
    h₁) h₂) h₃) h₄) h₅) h₆
  have hclosed := step_trans (step_trans (step_trans (step_trans hread h₇) h₈) h₉) h₁₀
  have hpooled : (4096 : TCPSessionID) ∈ (generator.put 4096).pools := Finset.mem_insert_self _ _
  have hfull : (generator.put 4096).pools.card = 4096 := by
    have heq := (accounts_put (hacc s.accepted)).next_eq
    have hcounter : (generator.put 4096).next.toNat = 4097 := by
      rw [← hg]
      rfl
    rw [hcounter, Table.size_empty] at heq
    omega
  have hthreshold : (generator.put 4096).threshold = 4096 :=
    (IDGenerator.get_threshold hget).trans hidle.threshold
  have hcut : s₁₀.sessions 4095 = cut := by
    rw [← hcount]
    exact Function.update_self ..
  refine ⟨s₁₀, hclosed, congrArg (· + 1) hcount, hcut, rfl, ?_, ?_, rfl, rfl, hpooled, ?_⟩
  · rw [← hcount]
  · exact Table.find_erase.trans (if_pos rfl)
  · exact (hthreshold.trans hfull.symm).le

/-- The next connection is given id 4096 again, and the message of connection 4095 with it: its
handler is registered under 4096 when the batch arrives. -/
theorem late_batch_reaches_another :
    ∃ σ, Transition.Reach (step codec) (start 2 0 (.new 0)) σ ∧
      .onMessage 4095 (oneByteMessage 65) ∈ (σ.handlers 4096).callbacks ∧
      (σ.sessions 4096).trace.decoded = [] := by
  obtain ⟨s, hreach, hs⟩ := exists_unflushed
  have hget : s.idGenerator.get 4096 =
      some (4096, { s.idGenerator with pools := s.idGenerator.pools.erase 4096 }) := by
    rw [IDGenerator.get, if_pos hs.full]
  let s₁ : Scene :=
    { s with accepting := false, main := s.main ++ [.handleAccept 1 (.new 0) .success] }
  let s₂ : Scene :=
    { ({ s₁ with main := [] } : Scene).connected 4096
        { s.idGenerator with pools := s.idGenerator.pools.erase 4096 } with
      load := 1
      accepting := true }
  let s₃ : Scene :=
    { s₂ with
      sessions := Function.update s₂.sessions 4095 cut.packMessageList.1
      main := [.on 4095 (.sendMessageListToHandler 4096 [oneByteMessage 65])]
      worker := [.on s.accepted (.init 4096)] }
  let s₄ : Scene :=
    { s₃ with
      handlers := Function.update s₃.handlers s.accepted
        { s₃.handlers s.accepted with
          callbacks := (s₃.handlers s.accepted).callbacks ++ [.onMessage 4095 (oneByteMessage 65)] }
      main := [] }
  have hother : 4095 ≠ s.accepted := by
    rw [hs.accepted]
    decide
  have h₁ : step codec s.system (.acceptDone .success) = some s₁.system :=
    accept_step s hs.accepting
  have h₂ : step codec s₁.system (.run 0 [[]] 4096 (.new 0)) = some s₂.system :=
    connect_step_open s₁ (congrArg (· ++ _) hs.main) (fun _ => hs.pooled) hget hs.load
  have h₃ : step codec s₂.system (.run 1 [] 0 (.new 0)) = some s₃.system := by
    have hsession : s₂.sessions 4095 = cut := (Function.update_of_ne hother ..).trans hs.session
    have hworker : s₂.worker = [.on 4095 .sessionPackMessageList, .on s.accepted (.init 4096)] :=
      congrArg (· ++ _) hs.worker
    rw [packMessageList_step s₂ hworker hsession, packMessageList_cut]
    exact congrArg some (Scene.onSession_forwards
      { s₂ with worker := [.on s.accepted (.init 4096)] } _ _ _)
  have h₄ : step codec s₃.system (.run 0 [] 0 (.new 0)) = some s₄.system :=
    deliver_step s₃ rfl ((Table.find_add hs.registered).trans (if_pos rfl)) 0
  refine ⟨s₄.system, step_trans (step_trans (step_trans (step_trans hreach h₁) h₂) h₃) h₄, ?_, ?_⟩
  · change _ ∈ (Function.update s₃.handlers s.accepted _ 4096).callbacks
    rw [hs.accepted, Function.update_self]
    exact List.mem_append_right _ (List.mem_singleton.mpr rfl)
  · have hnew : s₃.sessions s.accepted = .new 1 (.new 0) 0 := by
      change Function.update s₂.sessions 4095 _ s.accepted = _
      rw [Function.update_of_ne hother.symm]
      exact Function.update_self ..
    rw [hs.accepted] at hnew
    change (s₃.sessions 4096).trace.decoded = []
    rw [hnew]
    rfl

end Scene

end System
end EddyServer
