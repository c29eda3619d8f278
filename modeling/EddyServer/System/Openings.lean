import EddyServer.System.Registry

/-!
# A session runs `init` once

Each session has one `init` in the queues until it has run it; before that it is in no
`TCPSessionQueue` and is not checked. This holds whatever ids are drawn.
-/

namespace EddyServer

/-- The task is `init`, or a `close` of the keep-alive check. -/
def Task.isGate : Task → Bool
  | .init _ | .close => true
  | _ => false

/-- The job is a `close` of session `c` for the keep-alive check. -/
def Job.checks {Φ : Type} (c : Conn) : Job Φ → Bool
  | .on d .close => d == c
  | _ => false

/-- The job is an `init` of session `c`. -/
def Job.opens {Φ : Type} (c : Conn) : Job Φ → Bool
  | .on d (.init _) => d == c
  | _ => false

namespace System

variable {Φ : Type} {F : MessageFilterInterface Φ}

/-- There is one `init` for each session, and the session has no entry and is not checked before.
What is checked is queued on the session's own thread. -/
structure Openings (σ : System Φ) : Prop where
  job : ∀ t c task, .on c task ∈ σ.tasks t → task.isGate = true → c < σ.accepted
  entry : ∀ t k c, σ.getSession t k = some c → c < σ.accepted ∧ t = (σ.sessions c).ioThread
  home : ∀ t c, .on c .close ∈ σ.tasks t → t = (σ.sessions c).ioThread
  once : ∀ c, ∃ t, (σ.tasks t).countP (Job.opens c) ≤ 1 ∧
    ∀ u, u ≠ t → (σ.tasks u).countP (Job.opens c) = 0
  apart : ∀ t c k, .on c (.init k) ∈ σ.tasks t →
    (∀ u k', σ.getSession u k' ≠ some c) ∧ ∀ u, .on c .close ∉ σ.tasks u

theorem Openings.start (threads keepAliveTime : Nat) (filter : Φ) :
    Openings (start threads keepAliveTime filter) where
  job _ _ _ h := by simp at h
  entry _ _ _ h := by simp at h
  home _ _ h := by simp at h
  once _ := ⟨mainThread, Nat.zero_le _, fun _ _ => rfl⟩
  apart _ _ _ h := by simp at h

/-- No `init` and no `close` has been posted, and no session has entered a queue. -/
structure Ungated (σ σ' : System Φ) : Prop where
  accepted : σ'.accepted = σ.accepted
  ioThread : ∀ c, (σ'.sessions c).ioThread = (σ.sessions c).ioThread
  entries : ∀ t k c, σ'.getSession t k = some c → σ.getSession t k = some c
  tasks : ∀ t, ∃ more, σ'.tasks t = σ.tasks t ++ more ∧
    ∀ c task, .on c task ∈ more → task.isGate = false

theorem Ungated.mem {σ σ' : System Φ} (h : Ungated σ σ') {t : ThreadIx} {c : Conn} {task : Task}
    (hmem : .on c task ∈ σ'.tasks t) (hgate : task.isGate = true) : .on c task ∈ σ.tasks t := by
  obtain ⟨more, heq, hmore⟩ := h.tasks t
  rw [heq] at hmem
  rcases List.mem_append.mp hmem with hold | hnew
  · exact hold
  · rw [hmore c task hnew] at hgate
    cases hgate

theorem Ungated.countP {σ σ' : System Φ} (h : Ungated σ σ') (t : ThreadIx) (c : Conn) :
    (σ'.tasks t).countP (Job.opens c) = (σ.tasks t).countP (Job.opens c) := by
  obtain ⟨more, heq, hmore⟩ := h.tasks t
  have hzero : more.countP (Job.opens c) = 0 := by
    rw [List.countP_eq_zero]
    intro job hjob htrue
    rcases job with ⟨d, task⟩ | _
    · have hgate := hmore d task hjob
      cases task <;> first | cases htrue | cases hgate
    · cases htrue
  rw [heq, List.countP_append, hzero, Nat.add_zero]

theorem Openings.ungated {σ σ' : System Φ} (h : Openings σ) (hu : Ungated σ σ') : Openings σ' where
  job t c task hmem hgate := by
    rw [hu.accepted]
    exact h.job t c task (hu.mem hmem hgate) hgate
  entry t k c hentry := by
    rw [hu.accepted, hu.ioThread]
    exact h.entry t k c (hu.entries t k c hentry)
  home t c hmem := by
    rw [hu.ioThread]
    exact h.home t c (hu.mem hmem rfl)
  once c := by
    obtain ⟨t, hone, hnone⟩ := h.once c
    refine ⟨t, by rwa [hu.countP], fun u hne => ?_⟩
    rw [hu.countP]
    exact hnone u hne
  apart t c k hmem := by
    obtain ⟨hentry, hclose⟩ := h.apart t c k (hu.mem hmem rfl)
    exact ⟨fun u k' hk' => hentry u k' (hu.entries u k' c hk'),
      fun u hu' => hclose u (hu.mem hu' rfl)⟩

theorem Openings.popped {σ : System Φ} (h : Openings σ) {t : ThreadIx} {job : Job Φ}
    {rest : List (Job Φ)} (ht : σ.tasks t = job :: rest) : Openings (σ.popped t rest) where
  job u c task hmem hgate := h.job u c task (mem_popped ht hmem) hgate
  entry := h.entry
  home u c hmem := h.home u c (mem_popped ht hmem)
  once c := by
    obtain ⟨u, hone, hnone⟩ := h.once c
    refine ⟨u, (countP_popped_le ht u _).trans hone, fun v hne => ?_⟩
    exact Nat.eq_zero_of_le_zero ((countP_popped_le ht v _).trans (hnone v hne).le)
  apart u c k hmem := by
    obtain ⟨hentry, hclose⟩ := h.apart u c k (mem_popped ht hmem)
    exact ⟨hentry, fun v hv => hclose v (mem_popped ht hv)⟩

/-- Once `init` of a session has been taken there is no other. -/
theorem Openings.last {σ : System Φ} (h : Openings σ) {t : ThreadIx} {c : Conn} {k : TCPSessionID}
    {rest : List (Job Φ)} (ht : σ.tasks t = .on c (.init k) :: rest) (u : ThreadIx)
    (k' : TCPSessionID) : .on c (.init k') ∉ (σ.popped t rest).tasks u := by
  intro hmem
  obtain ⟨v, hone, hnone⟩ := h.once c
  have hpos : 0 < (σ.tasks t).countP (Job.opens c) :=
    List.countP_pos_iff.mpr ⟨.on c (.init k), by rw [ht]; exact List.mem_cons_self,
      by simp [Job.opens]⟩
  -- the queue that holds one `init` of the session is the one that has just given it
  obtain rfl : t = v := by
    by_contra hne
    exact Nat.ne_of_gt hpos (hnone t hne)
  have hpos' : 0 < ((σ.popped t rest).tasks u).countP (Job.opens c) :=
    List.countP_pos_iff.mpr ⟨_, hmem, by simp [Job.opens]⟩
  by_cases hu : u = t
  · subst hu
    rw [ht, List.countP_cons_of_pos (by simp [Job.opens])] at hone
    simp only [System.popped, Function.update_self] at hpos'
    omega
  · have hle := countP_popped_le ht u (Job.opens c)
    rw [hnone u hu] at hle
    omega

/-- What a session posts is no `init` and no `close`. -/
theorem not_isGate_of_move {s : TCPSession Φ} {found : Option Conn} {task task' : Task}
    {r : TCPSession Φ × List Effect} (h : TCPSession.Move s found task r) {t : ThreadIx}
    (hmem : .post t task' ∈ r.2) : task'.isGate = false := by
  cases h.outcome with
  | quiet _ _ heffects =>
      rw [heffects] at hmem
      cases hmem
  | timer _ _ heffects =>
      rw [heffects] at hmem
      cases List.mem_singleton.mp hmem
      rfl
  | deregister _ _ _ _ _ _ heffects =>
      rw [heffects] at hmem
      rcases TCPSession.mem_leaving hmem with hpost | hremove | hpost
      · cases hpost
        rfl
      · cases hremove
      · cases hpost
        rfl
  | receive _ _ _ _ heffects =>
      rw [heffects] at hmem
      cases hmem
  | first _ _ _ _ _ heffects =>
      rw [heffects] at hmem
      cases List.mem_singleton.mp hmem
      unfold TCPSession.flushTask
      split_ifs <;> rfl
  | deliver _ _ _ _ _ heffects =>
      rw [heffects] at hmem
      cases List.mem_singleton.mp hmem
      rfl

theorem ungated_onSession {σ : System Φ} {c : Conn} {s : TCPSession Φ} {found : Option Conn}
    {task : Task} {r : TCPSession Φ × List Effect} (h : TCPSession.Move s found task r)
    (hioThread : r.1.ioThread = (σ.sessions c).ioThread) : Ungated σ (σ.onSession c r) where
  accepted := by rw [onSession_eq]
  ioThread d := by
    rw [onSession_eq]
    exact update_field (·.ioThread) hioThread d
  entries t k d hentry := by
    rcases move_effects h c with hposts | ⟨entry, -, heffects⟩
    · rw [onSession_of_posts fun e he => (hposts e he).imp fun _ h => h.imp fun _ h => h.1] at hentry
      exact hentry
    · rw [getSession_of_leaves heffects] at hentry
      split_ifs at hentry
      exact hentry
  tasks t := by
    rw [onSession_eq]
    refine ⟨_, rfl, fun d task' hmem => ?_⟩
    obtain ⟨task'', hpost, heq⟩ := mem_jobsTo.mp hmem
    cases heq
    exact not_isGate_of_move h hpost

theorem Calls.ungated {cbs : List (Conn × Callback)} {σ σ' : System Φ} (h : Calls cbs σ σ') :
    Ungated σ σ' := by
  refine ⟨h.keeps.accepted, h.keeps.ioThread, fun t k c hentry => ?_, fun t => ?_⟩
  · rwa [getSession, h.keeps.sessionQueue] at hentry
  · obtain ⟨more, heq, hmore⟩ := h.tasks t
    refine ⟨more, heq, fun c task hmem => ?_⟩
    obtain ⟨d, task', hjob, hcall⟩ := hmore _ hmem
    cases hjob
    obtain ⟨-, -, rfl | rfl⟩ | ⟨-, ⟨messages, rfl⟩ | rfl⟩ := hcall <;> rfl

theorem ungated_of_same {σ σ' : System Φ} (haccepted : σ'.accepted = σ.accepted)
    (hio : ∀ c, (σ'.sessions c).ioThread = (σ.sessions c).ioThread)
    (hqueue : σ'.sessionQueue = σ.sessionQueue) (htasks : σ'.tasks = σ.tasks) : Ungated σ σ' := by
  refine ⟨haccepted, hio, fun t k c hentry => ?_, fun t => ⟨[], by rw [htasks]; simp, ?_⟩⟩
  · rwa [getSession, hqueue] at hentry
  · intro c task hmem
    cases hmem

/-- The session enters its queue. -/
theorem Openings.opens {σ : System Φ} (h : Openings σ) {t : ThreadIx} {c : Conn}
    {k : TCPSessionID} {rest : List (Job Φ)} {r : TCPSession Φ × List Effect}
    (ht : σ.tasks t = .on c (.init k) :: rest)
    (hr : TCPSession.Opens (σ.sessions c) k r) : Openings ((σ.popped t rest).onSession c r) := by
  have hp := h.popped ht
  have hlast := h.last ht
  have hc : c < σ.accepted := h.job t c _ (by rw [ht]; exact List.mem_cons_self) rfl
  have hios : ∀ d, (Function.update σ.sessions c r.1 d).ioThread = (σ.sessions d).ioThread :=
    update_field (·.ioThread) hr.ioThread
  rw [onSession_of_adds hr.effects]
  -- the only new entry is that of the session, in the queue of its own thread
  have hentries : ∀ u k' d,
      (Function.update (σ.popped t rest).sessionQueue r.1.ioThread
        (((σ.popped t rest).sessionQueue r.1.ioThread).add r.1.sessionId c) u).find k' = some d →
      (σ.popped t rest).getSession u k' = some d ∨ d = c ∧ u = (σ.sessions c).ioThread := by
    intro u k' d hd
    by_cases hu : u = r.1.ioThread
    · subst hu
      rw [Function.update_self] at hd
      exact (Table.find_of_find_add hd).imp_right fun hnew => ⟨hnew.2, hr.ioThread⟩
    · rw [Function.update_of_ne hu] at hd
      exact .inl hd
  refine ⟨hp.job, fun u k' d hd => ?_, fun u d hmem => ?_, hp.once,
    fun u d k' hmem => ⟨fun v k'' hd => ?_, ?_⟩⟩
  · dsimp only
    rw [show Function.update (σ.popped t rest).sessions c r.1 d = Function.update σ.sessions c r.1 d
      from rfl, hios]
    rcases hentries u k' d hd with hold | ⟨rfl, hu⟩
    · exact hp.entry u k' d hold
    · exact ⟨hc, hu⟩
  · dsimp only
    rw [show Function.update (σ.popped t rest).sessions c r.1 d = Function.update σ.sessions c r.1 d
      from rfl, hios]
    exact hp.home u d hmem
  · rcases hentries v k'' d hd with hold | ⟨rfl, -⟩
    · exact (hp.apart u d k' hmem).1 v k'' hold
    · exact hlast u k' hmem
  · exact (hp.apart u d k' hmem).2

/-- `init` of a new session is posted. -/
theorem Openings.register {σ : System Φ} (h : Openings σ) (s : TCPSession Φ) (k : TCPSessionID)
    (generator : IDGenerator 32) : Openings (σ.register s k generator) := by
  -- nothing is queued under a number that has not been given out
  have hnew : ∀ u, (σ.tasks u).countP (Job.opens σ.accepted) = 0 := by
    intro u
    rw [List.countP_eq_zero]
    intro job hjob htrue
    rcases job with ⟨d, task⟩ | _
    · cases task with
      | init k' =>
          obtain rfl : d = σ.accepted := by simpa [Job.opens] using htrue
          exact Nat.lt_irrefl _ (h.job u _ _ hjob rfl)
      | _ => cases htrue
    · cases htrue
  have hios : ∀ {d}, d < σ.accepted → (σ.register s k generator).sessions d = σ.sessions d :=
    fun hd => session_register_of_ne hd.ne
  refine ⟨fun u d task hjob hgate => ?_, fun u k' d hd => ?_, fun u d hjob => ?_, fun d => ?_,
    fun u d k' hjob => ?_⟩
  · rcases mem_tasks_register hjob with hold | ⟨-, hinit⟩
    · exact Nat.lt_succ_of_lt (h.job u d task hold hgate)
    · cases hinit
      exact Nat.lt_succ_self _
  · obtain ⟨hlt, hio⟩ := h.entry u k' d hd
    exact ⟨Nat.lt_succ_of_lt hlt, by rw [hios hlt, hio]⟩
  · rcases mem_tasks_register hjob with hold | ⟨-, hinit⟩
    · rw [hios (h.job u d _ hold rfl)]
      exact h.home u d hold
    · cases hinit
  · by_cases hd : d = σ.accepted
    · subst hd
      refine ⟨s.ioThread, ?_, fun u hne => ?_⟩
      · rw [tasks_register, List.countP_append, hnew, if_pos rfl]
        simp [Job.opens]
      · rw [tasks_register, List.countP_append, hnew, if_neg (Ne.symm hne)]
        rfl
    · obtain ⟨u, hone, hnone⟩ := h.once d
      have hsame : ∀ v, ((σ.register s k generator).tasks v).countP (Job.opens d) =
          (σ.tasks v).countP (Job.opens d) :=
        countP_tasks_register (by simp [Job.opens, Ne.symm hd])
      exact ⟨u, by rwa [hsame], fun v hne => by rw [hsame]; exact hnone v hne⟩
  · rcases mem_tasks_register hjob with hold | ⟨-, hinit⟩
    · obtain ⟨hentry, hclose⟩ := h.apart u d k' hold
      refine ⟨hentry, fun v hv => ?_⟩
      rcases mem_tasks_register hv with hold' | ⟨-, hinit⟩
      · exact hclose v hold'
      · cases hinit
    · cases hinit
      refine ⟨fun v k'' hd => Nat.lt_irrefl _ (h.entry v k'' _ hd).1, fun v hv => ?_⟩
      rcases mem_tasks_register hv with hold' | ⟨-, hinit⟩
      · exact Nat.lt_irrefl _ (h.job v _ _ hold' rfl)
      · cases hinit

end System
end EddyServer
