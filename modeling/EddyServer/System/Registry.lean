import EddyServer.System.Events

/-!
# Who is registered

From the moment an id is drawn until it is put back, `session_handler_map_` has an entry for it, and
exactly one of three things can happen next: `init` is on its way to the session's thread, the
session's queue has an entry, or `on_session_closed` is on its way to the main thread. `Registry` is
the part of this that needs nothing but that a drawn id is not registered.
-/

namespace EddyServer

namespace Job

variable {Φ : Type}

/-- The job does not change what is registered. -/
def isPlain : Job Φ → Bool
  | .on _ task => task.isPlain
  | .handleAccept .. => true

def isInit (k : TCPSessionID) : Job Φ → Bool
  | .on _ (.init id) => id == k
  | _ => false

def isClosing (k : TCPSessionID) : Job Φ → Bool
  | .on _ (.onSessionClosed id) => id == k
  | _ => false

theorem isInit_of_isPlain {job : Job Φ} (h : job.isPlain = true) (k : TCPSessionID) :
    job.isInit k = false := by
  rcases job with ⟨c, task⟩ | _
  · cases task <;> first | rfl | cases h
  · rfl

theorem isClosing_of_isPlain {job : Job Φ} (h : job.isPlain = true) (k : TCPSessionID) :
    job.isClosing k = false := by
  rcases job with ⟨c, task⟩ | _
  · cases task <;> first | rfl | cases h
  · rfl

end Job

namespace System

variable {Φ : Type} {F : MessageFilterInterface Φ}

/-! ## The invariant -/

/-- What can happen next to id `k`, whose session lives on thread `t`. -/
def tickets (σ : System Φ) (k : TCPSessionID) (t : ThreadIx) : Nat :=
  (σ.tasks t).countP (Job.isInit k) + (if (σ.getSession t k).isSome then 1 else 0) +
    (σ.tasks mainThread).countP (Job.isClosing k)

structure Registry (σ : System Φ) : Prop where
  mapped : ∀ k c, σ.getSessionHandler k = some c → c < σ.accepted
  once : ∀ k k' c, σ.getSessionHandler k = some c → σ.getSessionHandler k' = some c → k = k'
  opening : ∀ t c k, .on c (.init k) ∈ σ.tasks t →
    σ.getSessionHandler k = some c ∧ t = (σ.sessions c).ioThread
  entry : ∀ t k c, σ.getSession t k = some c →
    σ.getSessionHandler k = some c ∧ t = (σ.sessions c).ioThread ∧ (σ.sessions c).sessionId = k
  closing : ∀ t c k, .on c (.onSessionClosed k) ∈ σ.tasks t →
    t = mainThread ∧ ∃ d, σ.getSessionHandler k = some d
  single : ∀ k c, σ.getSessionHandler k = some c → σ.tickets k (σ.sessions c).ioThread ≤ 1

theorem Registry.start (threads keepAliveTime : Nat) (filter : Φ) :
    Registry (start threads keepAliveTime filter) where
  mapped _ _ h := by simp at h
  once _ _ _ h := by simp at h
  opening _ _ _ h := by simp at h
  entry _ _ _ h := by simp at h
  closing _ _ _ h := by simp at h
  single _ _ h := by simp at h

/-! ## What one ticket excludes -/

section
variable {σ : System Φ} {t : ThreadIx} {c d : Conn} {k : TCPSessionID} {rest : List (Job Φ)}

/-- While `init` is on its way nothing else is. -/
theorem Registry.at_init (h : Registry σ) (ht : σ.tasks t = .on c (.init k) :: rest) :
    rest.countP (Job.isInit k) = 0 ∧ σ.getSession t k = none ∧
      (σ.tasks mainThread).countP (Job.isClosing k) = 0 := by
  obtain ⟨hmap, rfl⟩ := h.opening t c k (by rw [ht]; exact List.mem_cons_self)
  have hone := h.single k c hmap
  rw [tickets, ht, List.countP_cons_of_pos (by simp [Job.isInit])] at hone
  refine ⟨by omega, ?_, by omega⟩
  rw [← Option.not_isSome_iff_eq_none]
  intro hsome
  rw [if_pos hsome] at hone
  omega

/-- While the session is in its queue nothing is on its way. -/
theorem Registry.at_entry (h : Registry σ) (hentry : σ.getSession t k = some d) :
    (σ.tasks t).countP (Job.isInit k) = 0 ∧
      (σ.tasks mainThread).countP (Job.isClosing k) = 0 := by
  obtain ⟨hmap, rfl, -⟩ := h.entry t k d hentry
  have hone := h.single k d hmap
  rw [tickets, hentry] at hone
  simp at hone
  omega

/-- When `on_session_closed` runs nothing else is left. -/
theorem Registry.at_closing (h : Registry σ) (ht : σ.tasks t = .on c (.onSessionClosed k) :: rest)
    (hmap : σ.getSessionHandler k = some d) :
    (σ.tasks (σ.sessions d).ioThread).countP (Job.isInit k) = 0 ∧
      σ.getSession (σ.sessions d).ioThread k = none ∧ rest.countP (Job.isClosing k) = 0 := by
  obtain ⟨rfl, -⟩ := h.closing t c k (by rw [ht]; exact List.mem_cons_self)
  have hone := h.single k d hmap
  have hpos : (σ.tasks mainThread).countP (Job.isClosing k) =
      rest.countP (Job.isClosing k) + 1 := by
    rw [ht, List.countP_cons_of_pos (by simp [Job.isClosing])]
  rw [tickets, hpos] at hone
  refine ⟨by omega, ?_, by omega⟩
  rw [← Option.not_isSome_iff_eq_none]
  intro hsome
  rw [if_pos hsome] at hone
  omega

end

/-! ## Steps that register nothing -/

/-- Nothing that is registered has changed, and the jobs that were posted will not change it. -/
structure Keeps (σ σ' : System Φ) : Prop where
  accepted : σ'.accepted = σ.accepted
  sessionHandlerMap : σ'.sessionHandlerMap = σ.sessionHandlerMap
  sessionQueue : σ'.sessionQueue = σ.sessionQueue
  ioThread : ∀ c, (σ'.sessions c).ioThread = (σ.sessions c).ioThread
  sessionId : ∀ c, (σ'.sessions c).sessionId = (σ.sessions c).sessionId
  tasks : ∀ t, ∃ more, σ'.tasks t = σ.tasks t ++ more ∧ ∀ job ∈ more, job.isPlain = true

theorem Keeps.mem {σ σ' : System Φ} (h : Keeps σ σ') {t : ThreadIx} {job : Job Φ}
    (hmem : job ∈ σ'.tasks t) (hjob : job.isPlain = false) : job ∈ σ.tasks t := by
  obtain ⟨more, heq, hmore⟩ := h.tasks t
  rw [heq] at hmem
  rcases List.mem_append.mp hmem with hold | hnew
  · exact hold
  · rw [hmore job hnew] at hjob
    cases hjob

theorem Keeps.countP {σ σ' : System Φ} (h : Keeps σ σ') (t : ThreadIx) {p : Job Φ → Bool}
    (hp : ∀ job : Job Φ, job.isPlain = true → p job = false) :
    (σ'.tasks t).countP p = (σ.tasks t).countP p := by
  obtain ⟨more, heq, hmore⟩ := h.tasks t
  have hzero : more.countP p = 0 := by
    rw [List.countP_eq_zero]
    intro job hmem htrue
    rw [hp job (hmore job hmem)] at htrue
    cases htrue
  rw [heq, List.countP_append, hzero, Nat.add_zero]

theorem Keeps.tickets {σ σ' : System Φ} (h : Keeps σ σ') (k : TCPSessionID) (t : ThreadIx) :
    σ'.tickets k t = σ.tickets k t := by
  unfold System.tickets getSession
  rw [h.countP t fun job hjob => job.isInit_of_isPlain hjob k,
    h.countP mainThread fun job hjob => job.isClosing_of_isPlain hjob k, h.sessionQueue]

theorem Registry.keeps {σ σ' : System Φ} (h : Registry σ) (hk : Keeps σ σ') : Registry σ' := by
  have hmap : ∀ k, σ'.getSessionHandler k = σ.getSessionHandler k := fun k => by
    rw [getSessionHandler, hk.sessionHandlerMap, getSessionHandler]
  have hqueue : ∀ t k, σ'.getSession t k = σ.getSession t k := fun t k => by
    rw [getSession, hk.sessionQueue, getSession]
  refine ⟨fun k c => ?_, fun k k' c => ?_, fun t c k hmem => ?_, fun t k c => ?_,
    fun t c k hmem => ?_, fun k c => ?_⟩
  · rw [hmap, hk.accepted]
    exact h.mapped k c
  · rw [hmap, hmap]
    exact h.once k k' c
  · rw [hmap, hk.ioThread]
    exact h.opening t c k (hk.mem hmem rfl)
  · rw [hmap, hqueue, hk.ioThread, hk.sessionId]
    exact h.entry t k c
  · rw [hmap]
    exact h.closing t c k (hk.mem hmem rfl)
  · rw [hmap, hk.ioThread, hk.tickets]
    exact h.single k c

theorem mem_popped {σ : System Φ} {t u : ThreadIx} {job job' : Job Φ} {rest : List (Job Φ)}
    (ht : σ.tasks t = job :: rest) (h : job' ∈ (σ.popped t rest).tasks u) :
    job' ∈ σ.tasks u := by
  by_cases hu : u = t
  · subst hu
    rw [ht]
    exact List.mem_cons_of_mem _ (by simpa [popped] using h)
  · simpa [popped, Function.update_of_ne hu] using h

theorem countP_popped_le {σ : System Φ} {t : ThreadIx} {job : Job Φ} {rest : List (Job Φ)}
    (ht : σ.tasks t = job :: rest) (u : ThreadIx) (p : Job Φ → Bool) :
    ((σ.popped t rest).tasks u).countP p ≤ (σ.tasks u).countP p := by
  by_cases hu : u = t
  · subst hu
    rw [ht, List.countP_cons]
    simp [popped]
  · simp [popped, Function.update_of_ne hu]

theorem Registry.popped {σ : System Φ} (h : Registry σ) {t : ThreadIx} {job : Job Φ}
    {rest : List (Job Φ)} (ht : σ.tasks t = job :: rest) : Registry (σ.popped t rest) where
  mapped := h.mapped
  once := h.once
  opening u c k hmem := h.opening u c k (mem_popped ht hmem)
  entry := h.entry
  closing u c k hmem := h.closing u c k (mem_popped ht hmem)
  single k c hmap := by
    have hone := h.single k c hmap
    have hinit := countP_popped_le ht (σ.sessions c).ioThread (Job.isInit k)
    have hclosing := countP_popped_le ht mainThread (Job.isClosing k)
    unfold tickets at hone ⊢
    have hqueue : (σ.popped t rest).getSession = σ.getSession := rfl
    rw [hqueue]
    exact Nat.le_trans (Nat.add_le_add (Nat.add_le_add_right hinit _) hclosing) hone

/-! ## Sessions -/

/-- What a task of a session does elsewhere: it posts plain jobs, or takes an entry out of its
queue. -/
theorem move_effects {s : TCPSession Φ} {found : Option Conn} {task : Task}
    {r : TCPSession Φ × List Effect} (h : TCPSession.Move s found task r) (c : Conn) :
    (∀ e ∈ r.2, ∃ t task', e = .post t task' ∧ (Job.on c task' : Job Φ).isPlain = true) ∨
      ∃ entry, found = some entry ∧ r.2 = s.leaving := by
  cases h.outcome with
  | quiet _ _ heffects => rw [heffects]; exact .inl nofun
  | timer _ _ heffects =>
      rw [heffects]
      exact .inl fun e he => ⟨_, _, List.mem_singleton.mp he, rfl⟩
  | deregister entry hfound _ _ _ _ heffects => exact .inr ⟨entry, hfound, heffects⟩
  | receive _ _ _ _ heffects => rw [heffects]; exact .inl nofun
  | first _ _ _ _ _ heffects =>
      rw [heffects]
      refine .inl fun e he => ⟨_, _, List.mem_singleton.mp he, ?_⟩
      unfold TCPSession.flushTask
      split_ifs <;> rfl
  | deliver _ _ _ _ _ heffects =>
      rw [heffects]
      exact .inl fun e he => ⟨_, _, List.mem_singleton.mp he, rfl⟩

theorem update_field {α : Type*} (f : TCPSession Φ → α) {S : Conn → TCPSession Φ}
    {c : Conn} {s : TCPSession Φ} (h : f s = f (S c)) (d : Conn) :
    f (Function.update S c s d) = f (S d) := by
  by_cases hd : d = c
  · subst hd
    rw [Function.update_self, h]
  · rw [Function.update_of_ne hd]

theorem keeps_onSession {σ : System Φ} {c : Conn} {r : TCPSession Φ × List Effect}
    (hio : r.1.ioThread = (σ.sessions c).ioThread)
    (hid : r.1.sessionId = (σ.sessions c).sessionId)
    (hposts : ∀ e ∈ r.2, ∃ t task, e = .post t task ∧ (Job.on c task : Job Φ).isPlain = true) :
    Keeps σ (σ.onSession c r) := by
  rw [onSession_of_posts fun e he => (hposts e he).imp fun _ h => h.imp fun _ h => h.1]
  refine ⟨rfl, rfl, rfl, update_field (·.ioThread) hio, update_field (·.sessionId) hid,
    fun t => ⟨_, rfl, fun job hjob => ?_⟩⟩
  obtain ⟨task, hmem, rfl⟩ := mem_jobsTo.mp hjob
  obtain ⟨u, task', heq, hplain⟩ := hposts _ hmem
  cases heq
  exact hplain

/-- The session takes an entry out of its queue. -/
theorem Registry.leaves {σ : System Φ} (h : Registry σ) {c entry : Conn}
    {r : TCPSession Φ × List Effect} (hio : r.1.ioThread = (σ.sessions c).ioThread)
    (hid : r.1.sessionId = (σ.sessions c).sessionId) (hfound : σ.found c = some entry)
    (hr : r.2 = (σ.sessions c).leaving) : Registry (σ.onSession c r) := by
  rw [onSession_of_leaves hr, hio, hid]
  unfold found at hfound
  set k := (σ.sessions c).sessionId with hk
  set u := (σ.sessions c).ioThread with hu
  obtain ⟨hmap, hentry, -⟩ := h.entry u k entry hfound
  obtain ⟨hinit, hclosing⟩ := h.at_entry hfound
  have hios := update_field (S := σ.sessions) (·.ioThread) hio
  have hids := update_field (S := σ.sessions) (·.sessionId) hid
  have hmem : ∀ t (job : Job Φ), job ∈ σ.tasks t ++ jobsTo c t (σ.sessions c).leaving →
      job ∈ σ.tasks t ∨ t = mainThread ∧ job = .on c (.onSessionClosed k) ∨
        job = .on c (.closeTimer .operationAborted) :=
    fun t job hjob => (List.mem_append.mp hjob).imp_right mem_jobsTo_leaving
  refine ⟨h.mapped, h.once, fun t d k' hjob => ?_, fun t k' d hd => ?_, fun t d k' hjob => ?_,
    fun k' d hd => ?_⟩
  · dsimp only
    rw [hios]
    rcases hmem t _ hjob with hold | ⟨-, hnew⟩ | hnew
    · exact h.opening t d k' hold
    · cases hnew
    · cases hnew
  · dsimp only
    rw [hios, hids]
    unfold getSession at hd
    rw [Table.find_update_erase] at hd
    split_ifs at hd
    exact h.entry t k' d hd
  · rcases hmem t _ hjob with hold | ⟨ht, hnew⟩ | hnew
    · exact h.closing t d k' hold
    · cases hnew
      exact ⟨ht, entry, hmap⟩
    · cases hnew
  · dsimp only
    rw [hios]
    have hone := h.single k' d hd
    have hnoinit : ∀ t, (jobsTo c t (σ.sessions c).leaving).countP (Job.isInit k') = 0 :=
      fun t => (countP_jobsTo_leaving c t _ rfl).trans (if_neg (by simp [Job.isInit]))
    unfold tickets getSession at hone ⊢
    dsimp only
    rw [List.countP_append, hnoinit, Nat.add_zero, List.countP_append,
      countP_jobsTo_leaving c mainThread _ rfl, ← hk, Table.find_update_erase]
    -- Under its own id the ticket of the entry becomes that of the notice.
    by_cases hkk : k' = k
    · subst hkk
      obtain rfl : d = entry := Option.some.inj (hd.symm.trans hmap)
      rw [← hentry, hinit, hclosing]
      simp [Job.isClosing]
    · simpa [Job.isClosing, hkk, Ne.symm hkk] using hone

/-- The session adds itself to its queue. -/
theorem Registry.opens {σ : System Φ} (h : Registry σ) {c : Conn} {k : TCPSessionID}
    {r : TCPSession Φ × List Effect} (hr : TCPSession.Opens (σ.sessions c) k r)
    (hmap : σ.getSessionHandler k = some c)
    (hinit : (σ.tasks (σ.sessions c).ioThread).countP (Job.isInit k) = 0)
    (hnone : σ.getSession (σ.sessions c).ioThread k = none)
    (hclosing : (σ.tasks mainThread).countP (Job.isClosing k) = 0) :
    Registry (σ.onSession c r) := by
  rw [onSession_of_adds hr.effects, hr.ioThread, hr.sessionId]
  have hios := update_field (S := σ.sessions) (·.ioThread) hr.ioThread
  have hfind : ∀ t k', (Function.update σ.sessionQueue (σ.sessions c).ioThread
      ((σ.sessionQueue (σ.sessions c).ioThread).add k c) t).find k' =
        if t = (σ.sessions c).ioThread ∧ k' = k then some c else (σ.sessionQueue t).find k' :=
    fun t k' => Table.find_update_add hnone
  refine ⟨h.mapped, h.once, fun t d k' hjob => ?_, fun t k' d hd => ?_, h.closing,
    fun k' d hd => ?_⟩
  · dsimp only
    rw [hios]
    exact h.opening t d k' hjob
  · dsimp only
    rw [hios]
    unfold getSession at hd
    rw [hfind] at hd
    split_ifs at hd with hnew
    · obtain ⟨rfl, rfl⟩ := hnew
      cases hd
      exact ⟨hmap, rfl, by rw [Function.update_self, hr.sessionId]⟩
    · obtain ⟨hmap', hio', hid'⟩ := h.entry t k' d hd
      have hne : d ≠ c := by
        rintro rfl
        exact hnew ⟨hio', h.once k' k d hmap' hmap⟩
      rw [Function.update_of_ne hne]
      exact ⟨hmap', hio', hid'⟩
  · dsimp only
    rw [hios]
    have hone := h.single k' d hd
    unfold tickets getSession at hone ⊢
    dsimp only
    rw [hfind]
    -- Under its own id the ticket of the task `init` becomes that of the entry.
    by_cases hkk : k' = k
    · subst hkk
      obtain rfl : d = c := Option.some.inj (hd.symm.trans hmap)
      rw [hinit, hclosing]
      simp
    · simpa [hkk] using hone

/-! ## The manager -/

/-- A handler leaves the map. -/
theorem Registry.unregister {σ : System Φ} (h : Registry σ) {d : Conn} {k : TCPSessionID}
    (hmap : σ.getSessionHandler k = some d)
    (hinit : (σ.tasks (σ.sessions d).ioThread).countP (Job.isInit k) = 0)
    (hnone : σ.getSession (σ.sessions d).ioThread k = none)
    (hclosing : (σ.tasks mainThread).countP (Job.isClosing k) = 0) :
    Registry (σ.unregister d k) := by
  have hfind : ∀ k', (σ.unregister d k).getSessionHandler k' =
      if k' = k then none else σ.getSessionHandler k' := fun k' => Table.find_erase
  have hkeep : ∀ {k' c}, (σ.unregister d k).getSessionHandler k' = some c →
      k' ≠ k ∧ σ.getSessionHandler k' = some c := by
    intro k' c hk'
    rw [hfind] at hk'
    split_ifs at hk' with hne
    exact ⟨hne, hk'⟩
  refine ⟨fun k' c hk' => h.mapped k' c (hkeep hk').2,
    fun k₁ k₂ c h₁ h₂ => h.once k₁ k₂ c (hkeep h₁).2 (hkeep h₂).2, fun t c k' hjob => ?_,
    fun t k' c hentry => ?_, fun t c k' hjob => ?_, fun k' c hk' => h.single k' c (hkeep hk').2⟩
  · obtain ⟨hmap', hio⟩ := h.opening t c k' hjob
    rw [hfind, if_neg]
    · exact ⟨hmap', hio⟩
    · rintro rfl
      -- An `init` for this id would be a ticket, and there is none.
      obtain rfl := Option.some.inj (hmap'.symm.trans hmap)
      rw [List.countP_eq_zero] at hinit
      exact hinit _ (hio ▸ hjob) (by simp [Job.isInit])
  · obtain ⟨hmap', hio, hid⟩ := h.entry t k' c hentry
    rw [hfind, if_neg]
    · exact ⟨hmap', hio, hid⟩
    · rintro rfl
      obtain rfl := Option.some.inj (hmap'.symm.trans hmap)
      rw [← hio] at hnone
      exact absurd (hnone.symm.trans hentry) nofun
  · obtain ⟨ht, e, he⟩ := h.closing t c k' hjob
    refine ⟨ht, e, ?_⟩
    rw [hfind, if_neg]
    · exact he
    · rintro rfl
      rw [List.countP_eq_zero] at hclosing
      exact hclosing _ (ht ▸ hjob) (by simp [Job.isClosing])

/-- An unregistered id has no ticket. -/
theorem Registry.no_tickets {σ : System Φ} (h : Registry σ) {k : TCPSessionID}
    (hmap : σ.getSessionHandler k = none) (t : ThreadIx) : σ.tickets k t = 0 := by
  -- Every ticket belongs to an id in the map.
  have hinit : (σ.tasks t).countP (Job.isInit k) = 0 := by
    rw [List.countP_eq_zero]
    intro job hjob htrue
    rcases job with ⟨c, task⟩ | _
    · cases task with
      | init id =>
          obtain rfl : id = k := by simpa [Job.isInit] using htrue
          exact absurd ((h.opening t c id hjob).1.symm.trans hmap) nofun
      | _ => cases htrue
    · cases htrue
  have hclosing : (σ.tasks mainThread).countP (Job.isClosing k) = 0 := by
    rw [List.countP_eq_zero]
    intro job hjob htrue
    rcases job with ⟨c, task⟩ | _
    · cases task with
      | onSessionClosed id =>
          obtain rfl : id = k := by simpa [Job.isClosing] using htrue
          obtain ⟨-, d, hd⟩ := h.closing mainThread c id hjob
          exact absurd (hd.symm.trans hmap) nofun
      | _ => cases htrue
    · cases htrue
  have hnone : σ.getSession t k = none := by
    by_contra hne
    obtain ⟨c, hc⟩ := Option.ne_none_iff_exists'.mp hne
    exact absurd ((h.entry t k c hc).1.symm.trans hmap) nofun
  simp [tickets, hinit, hclosing, hnone]

/-- A new connection enters the map under an id that is not registered. -/
theorem Registry.register {σ : System Φ} (h : Registry σ) {k : TCPSessionID}
    (hfresh : σ.getSessionHandler k = none) (s : TCPSession Φ) (generator : IDGenerator 32) :
    Registry (σ.register s k generator) := by
  have hfind : ∀ k', (σ.register s k generator).getSessionHandler k' =
      if k' = k then some σ.accepted else σ.getSessionHandler k' :=
    getSessionHandler_register hfresh
  -- what was registered is as it was
  have hold : ∀ {k' c}, σ.getSessionHandler k' = some c → k' ≠ k ∧
      (σ.register s k generator).getSessionHandler k' = some c ∧
      (σ.register s k generator).sessions c = σ.sessions c := by
    intro k' c hk'
    have hne : k' ≠ k := by
      rintro rfl
      rw [hfresh] at hk'
      cases hk'
    exact ⟨hne, by rw [hfind, if_neg hne, hk'],
      session_register_of_ne (h.mapped k' c hk').ne⟩
  refine ⟨fun k' c hk' => ?_, fun k₁ k₂ c h₁ h₂ => ?_, fun t c k' hjob => ?_,
    fun t k' c hentry => ?_, fun t c k' hjob => ?_, fun k' c hk' => ?_⟩
  · change c < σ.accepted + 1
    rw [hfind] at hk'
    split_ifs at hk'
    · cases hk'
      exact Nat.lt_succ_self _
    · exact Nat.lt_succ_of_lt (h.mapped k' c hk')
  · rw [hfind] at h₁ h₂
    split_ifs at h₁ h₂ with hk₁ hk₂ hk₂
    · rw [hk₁, hk₂]
    · cases h₁
      exact absurd (h.mapped k₂ _ h₂) (Nat.lt_irrefl _)
    · cases h₂
      exact absurd (h.mapped k₁ _ h₁) (Nat.lt_irrefl _)
    · exact h.once k₁ k₂ c h₁ h₂
  · rcases mem_tasks_register hjob with hjob | ⟨ht, hinit⟩
    · obtain ⟨hmap, hio⟩ := h.opening t c k' hjob
      obtain ⟨-, hmap', hsame⟩ := hold hmap
      exact ⟨hmap', by rw [hsame, hio]⟩
    · cases hinit
      exact ⟨by rw [hfind, if_pos rfl], by rw [session_register, ht]⟩
  · obtain ⟨hmap, hio, hid⟩ := h.entry t k' c hentry
    obtain ⟨-, hmap', hsame⟩ := hold hmap
    exact ⟨hmap', by rw [hsame, hio], by rw [hsame, hid]⟩
  · rcases mem_tasks_register hjob with hjob | ⟨-, hinit⟩
    · obtain ⟨ht, d, hd⟩ := h.closing t c k' hjob
      exact ⟨ht, d, (hold hd).2.1⟩
    · cases hinit
  · have hclosing : ∀ t, ((σ.register s k generator).tasks t).countP (Job.isClosing k') =
        (σ.tasks t).countP (Job.isClosing k') := countP_tasks_register rfl
    have hqueue : (σ.register s k generator).getSession = σ.getSession := rfl
    rw [tickets, hclosing, hqueue]
    by_cases hkk : k' = k
    · subst hkk
      rw [hfind, if_pos rfl] at hk'
      cases hk'
      have hzero := h.no_tickets hfresh s.ioThread
      rw [session_register, tasks_register, if_pos rfl, List.countP_append, List.countP_singleton,
        if_pos (by simp [Job.isInit])]
      unfold tickets at hzero
      omega
    · rw [hfind, if_neg hkk] at hk'
      have hone := h.single k' c hk'
      rw [(hold hk').2.2, countP_tasks_register (by simp [Job.isInit, Ne.symm hkk])]
      exact hone

/-! ## Steps -/

/-- The id that a step draws is not registered. -/
def Fresh (σ : System Φ) (a : Act Φ) : Prop :=
  ∀ id, σ.drawn a = some id → σ.getSessionHandler id = none

instance (σ : System Φ) (a : Act Φ) : Decidable (Fresh σ a) :=
  match h : σ.drawn a with
  | none => isTrue fun id hid => by rw [h] at hid; cases hid
  | some id =>
    decidable_of_iff (σ.getSessionHandler id = none)
      ⟨fun hnone k hk => by rw [h] at hk; cases hk; exact hnone, fun hall => hall id h⟩

theorem Calls.keeps {cbs : List (Conn × Callback)} {σ σ' : System Φ} (h : Calls cbs σ σ') :
    Keeps σ σ' := by
  have htasks := h.tasks
  obtain ⟨handlers, tasks, rfl⟩ := h.same
  refine ⟨rfl, rfl, rfl, fun _ => rfl, fun _ => rfl, fun t => ?_⟩
  obtain ⟨more, heq, hmore⟩ := htasks t
  refine ⟨more, heq, fun job hjob => ?_⟩
  obtain ⟨c, task, rfl, ⟨-, -, rfl | rfl⟩ | ⟨-, ⟨messages, rfl⟩ | rfl⟩⟩ := hmore job hjob <;> rfl

theorem keeps_completes {σ : System Φ} {t : ThreadIx} {c : Conn} {task : Task}
    {s : TCPSession Φ} (h : TCPSession.Completes (σ.sessions c) task s) :
    Keeps σ (({ σ with sessions := Function.update σ.sessions c s } : System Φ).post t
      (.on c task)) := by
  rw [post_eq]
  obtain ⟨k, timer, rfl⟩ := h.same
  refine ⟨rfl, rfl, rfl, update_field (·.ioThread) rfl, update_field (·.sessionId) rfl,
    fun u => ⟨_, rfl, fun job hjob => ?_⟩⟩
  split_ifs at hjob
  · rw [List.mem_singleton.mp hjob]
    have hcompletion := h.isCompletion
    cases task <;> first | rfl | cases hcompletion
  · cases hjob

theorem Registry.step {σ σ' : System Φ} {a : Act Φ} (h : Registry σ) (hev : Event F σ a σ')
    (hfresh : Fresh σ a) : Registry σ' := by
  cases hev with
  | move t c d task rest r ht _ _ hmove =>
      have hp := h.popped ht
      rcases move_effects hmove d with hposts | ⟨entry, hfound, hr⟩
      · exact hp.keeps (keeps_onSession hmove.ioThread hmove.sessionId hposts)
      · exact hp.leaves hmove.ioThread hmove.sessionId hfound hr
  | opens t c k rest r ht _ hr =>
      obtain ⟨hrest, hnone, hclosing⟩ := h.at_init ht
      obtain ⟨hmap, hio⟩ := h.opening t c k (by rw [ht]; exact List.mem_cons_self)
      refine (h.popped ht).opens hr hmap ?_ (hio ▸ hnone) ?_
      · change ((σ.popped t rest).tasks (σ.sessions c).ioThread).countP _ = 0
        rw [← hio]
        simpa [System.popped] using hrest
      · exact Nat.eq_zero_of_le_zero (hclosing ▸ countP_popped_le ht mainThread _)
  | posts t c d task rest messages s buffer ht _ hposts =>
      exact (h.popped ht).keeps ⟨rfl, rfl, rfl, update_field (·.ioThread) hposts.ioThread,
        update_field (·.sessionId) hposts.sessionId, fun t => ⟨[], by simp, by simp⟩⟩
  | plain t c task rest ht _ _ hcalls => exact (h.popped ht).keeps hcalls.keeps
  | deliver t c d id messages rest ht _ hcalls => exact (h.popped ht).keeps hcalls.keeps
  | deliverDirectly t c d rest ht _ hcalls =>
      refine ((h.popped ht).keeps hcalls.keeps).keeps ⟨rfl, rfl, rfl,
        update_field (·.ioThread) rfl, update_field (·.sessionId) rfl,
        fun t => ⟨[], by simp, by simp⟩⟩
  | @closed τ t c d k rest threadLoad ht hmap hcalls =>
      obtain ⟨hinit, hnone, hclosing⟩ := h.at_closing ht hmap
      obtain ⟨rfl, -⟩ := h.closing t c k (by rw [ht]; exact List.mem_cons_self)
      have hkeeps := hcalls.keeps
      have hio : (τ.sessions d).ioThread = (σ.sessions d).ioThread := hkeeps.ioThread d
      have hreg : Registry (τ.unregister d k) := by
        refine ((h.popped ht).keeps hkeeps).unregister ?_ ?_ ?_ ?_
        · rw [getSessionHandler, hkeeps.sessionHandlerMap]
          exact hmap
        · rw [hio, hkeeps.countP _ fun job hjob => job.isInit_of_isPlain hjob k]
          exact Nat.eq_zero_of_le_zero (hinit ▸ countP_popped_le ht _ _)
        · rw [getSession, hio, hkeeps.sessionQueue]
          exact hnone
        · rw [hkeeps.countP _ fun job hjob => job.isClosing_of_isPlain hjob k]
          simpa [System.popped] using hclosing
      exact hreg.keeps ⟨rfl, rfl, rfl, fun _ => rfl, fun _ => rfl, fun t => ⟨[], by simp, by simp⟩⟩
  | unknown t c k rest generator ht hnone =>
      obtain ⟨-, d, hd⟩ := h.closing t c k (by rw [ht]; exact List.mem_cons_self)
      exact absurd (hd.symm.trans hnone) nofun
  | @connect τ t u filter first k rest generator threadLoad accepting ht hdrawn _ _ hcalls =>
      have hreg := (h.popped ht).register (hfresh k hdrawn) (.new u filter σ.keepAliveTime) generator
      exact (hreg.keeps hcalls.keeps).keeps
        ⟨rfl, rfl, rfl, fun _ => rfl, fun _ => rfl, fun t => ⟨[], by simp, by simp⟩⟩
  | complete t c task s hs _ => exact h.keeps (keeps_completes hs)
  | accept t filter error =>
      rw [post_eq]
      refine h.keeps ⟨rfl, rfl, rfl, fun _ => rfl, fun _ => rfl, fun u => ⟨_, rfl, ?_⟩⟩
      intro job hjob
      split_ifs at hjob
      · rw [List.mem_singleton.mp hjob]
        rfl
      · cases hjob
  | refuse t u filter error rest ht => exact h.popped ht
  | logic hcalls => exact h.keeps hcalls.keeps
  | tick clock =>
      exact h.keeps ⟨rfl, rfl, rfl, fun _ => rfl, fun _ => rfl, fun t => ⟨[], by simp, by simp⟩⟩

end System
end EddyServer
