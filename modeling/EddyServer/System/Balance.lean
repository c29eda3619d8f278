import EddyServer.System.Registry

/-!
# Choosing a thread for the next session

`get_min_load_thread` looks through the loads of the workers for a smaller one than
`min_load_value`, and never lowers that value. What it finds is the last worker, whatever its load.
-/

namespace EddyServer

/-- The job is an `on_session_closed`. -/
def Job.closes {Φ : Type} : Job Φ → Bool
  | .on _ (.onSessionClosed _) => true
  | _ => false

namespace System

/-! ## One choice -/

/-- The thread is a worker, and no worker has a smaller load. -/
def LeastLoaded (loads : List Nat) (t : Nat) : Prop :=
  t ≠ mainThread ∧ t < loads.length ∧
    ∀ u, u ≠ mainThread → u < loads.length → loads.getD t 0 ≤ loads.getD u 0

/-- The thread is the last worker whose load is less than the largest value of `size_t`. -/
def LastBelow (loads : List Nat) (t : Nat) : Prop :=
  t ≠ mainThread ∧ t < loads.length ∧ loads.getD t 0 < 2 ^ 64 - 1 ∧
    ∀ u, t < u → u < loads.length → 2 ^ 64 - 1 ≤ loads.getD u 0

theorem LastBelow.unique {loads : List Nat} {t u : Nat} (ht : LastBelow loads t)
    (hu : LastBelow loads u) : t = u := by
  obtain ⟨-, htlen, htload, htlast⟩ := ht
  obtain ⟨-, hulen, huload, hulast⟩ := hu
  rcases Nat.lt_trichotomy t u with hlt | heq | hgt
  · have := htlast u hlt hulen
    omega
  · exact heq
  · have := hulast t hgt htlen
    omega

/-- The loop over the first `n` threads finds the last worker among them whose load is below the
initial value, or leaves the main thread. -/
theorem foldl_min_load (loads : List Nat) (n : Nat) :
    ∃ found : Nat, (List.range n).foldl (fun index i =>
        if i ≠ mainThread ∧ loads.getD i 0 < 2 ^ 64 - 1 then i else index) mainThread = found ∧
      (found = mainThread ∨ found < n ∧ loads.getD found 0 < 2 ^ 64 - 1) ∧
      ∀ u : Nat, found < u → u < n → 2 ^ 64 - 1 ≤ loads.getD u 0 := by
  induction n with
  | zero => exact ⟨mainThread, rfl, .inl rfl, fun u _ hu => absurd hu (Nat.not_lt_zero u)⟩
  | succ n ih =>
      obtain ⟨found, hfound, hbelow, hlast⟩ := ih
      -- the comparison is with the initial value, so the loop takes every worker below it
      rw [List.range_succ, List.foldl_concat, hfound]
      by_cases htake : n ≠ mainThread ∧ loads.getD n 0 < 2 ^ 64 - 1
      · rw [if_pos htake]
        exact ⟨n, rfl, .inr ⟨Nat.lt_succ_self n, htake.2⟩, fun u hu hun => by omega⟩
      · rw [if_neg htake]
        refine ⟨found, rfl, hbelow.imp_right fun h => ⟨by omega, h.2⟩, fun u hu hun => ?_⟩
        rcases Nat.lt_succ_iff_lt_or_eq.mp hun with hlt | rfl
        · exact hlast u hu hlt
        · -- the last index was passed over, and it is not the main thread's
          have hne : u ≠ mainThread := by
            intro heq
            subst heq
            exact Nat.not_lt_zero _ hu
          exact Nat.not_lt.mp fun hload => htake ⟨hne, hload⟩

/-- With two threads at least the choice is the last worker below the initial value, if any worker
is. -/
theorem lastBelow_getMinLoadThread {loads : List Nat} (hlen : 2 ≤ loads.length)
    (hworker : getMinLoadThread loads ≠ mainThread) : LastBelow loads (getMinLoadThread loads) := by
  obtain ⟨found, hfound, hbelow, hlast⟩ := foldl_min_load loads loads.length
  have hchoice : getMinLoadThread loads = found := by
    rw [getMinLoadThread, if_neg (by omega), hfound]
  rw [hchoice] at hworker ⊢
  obtain ⟨hlt, hload⟩ := hbelow.resolve_left hworker
  exact ⟨hworker, hlt, hload, hlast⟩

theorem getMinLoadThread_of_lastBelow {loads : List Nat} {r : Nat} (h : LastBelow loads r) :
    getMinLoadThread loads = r := by
  obtain ⟨hr, hrlen, hload, -⟩ := id h
  have hpos : 0 < r := Nat.pos_of_ne_zero hr
  obtain ⟨found, hfound, -, hlast⟩ := foldl_min_load loads loads.length
  have hchoice : getMinLoadThread loads = found := by
    rw [getMinLoadThread, if_neg (by omega), hfound]
  -- a main thread as the result would mean that no worker is below the initial value
  have hworker : getMinLoadThread loads ≠ mainThread := by
    intro heq
    rw [hchoice] at heq
    have := hlast r (by rw [heq]; exact hpos) hrlen
    omega
  exact (lastBelow_getMinLoadThread (by omega) hworker).unique h

/-- The choice is a least loaded worker exactly when the last worker below the initial value is. -/
theorem leastLoaded_getMinLoadThread {loads : List Nat} (hlen : 2 ≤ loads.length) :
    LeastLoaded loads (getMinLoadThread loads) ↔ ∃ r, LastBelow loads r ∧ LeastLoaded loads r := by
  constructor
  · intro h
    exact ⟨_, lastBelow_getMinLoadThread hlen h.1, h⟩
  · rintro ⟨r, hlast, hleast⟩
    rwa [getMinLoadThread_of_lastBelow hlast]

/-! ## Runs without closes -/

variable {Φ : Type} {F : MessageFilterInterface Φ}

/-- The step does not run `on_session_closed`. -/
def NoClose (σ : System Φ) : Act Φ → Prop
  | .run t _ _ _ => ∀ job ∈ (σ.tasks t).head?, job.closes = false
  | _ => True

instance (σ : System Φ) : ∀ a, Decidable (NoClose σ a)
  | .run t _ _ _ => inferInstanceAs (Decidable (∀ job ∈ (σ.tasks t).head?, job.closes = false))
  | .acceptDone _ | .readDone .. | .writeDone .. | .timerDone _ | .keepAlive .. | .logic _ | .tick _ =>
    isTrue trivial

/-- The loads of two workers never differ by more than one. -/
def Balanced (σ : System Φ) : Prop :=
  ∀ t u : Nat, t ≠ mainThread → u ≠ mainThread → t < σ.threads → u < σ.threads →
    σ.threadLoad.getD t 0 ≤ σ.threadLoad.getD u 0 + 1

/-- No connection has been accepted, and the acceptor is where it was. -/
structure SameLoads (σ σ' : System Φ) : Prop where
  threads : σ'.threads = σ.threads
  accepted : σ'.accepted = σ.accepted
  threadLoad : σ'.threadLoad = σ.threadLoad
  accepting : σ'.accepting = σ.accepting
  queued : ∀ t u filter error, .handleAccept u filter error ∈ σ'.tasks t →
    .handleAccept u filter error ∈ σ.tasks t

theorem SameLoads.refl (σ : System Φ) : SameLoads σ σ := ⟨rfl, rfl, rfl, rfl, fun _ _ _ _ h => h⟩

/-- The task has been taken from a queue before. -/
theorem SameLoads.of_popped {σ σ' : System Φ} {t : ThreadIx} {job : Job Φ} {rest : List (Job Φ)}
    (ht : σ.tasks t = job :: rest) (h : SameLoads (σ.popped t rest) σ') : SameLoads σ σ' :=
  ⟨h.threads, h.accepted, h.threadLoad, h.accepting,
    fun v u filter error hmem => mem_popped ht (h.queued v u filter error hmem)⟩

theorem sameLoads_onSession (σ : System Φ) (c : Conn) (r : TCPSession Φ × List Effect) :
    SameLoads σ (σ.onSession c r) := by
  rw [onSession_eq]
  refine ⟨rfl, rfl, rfl, rfl, fun t u filter error hmem => ?_⟩
  rcases List.mem_append.mp hmem with hold | hnew
  · exact hold
  · obtain ⟨task, -, heq⟩ := mem_jobsTo.mp hnew
    cases heq

theorem sameLoads_post (σ : System Φ) (t : ThreadIx) (c : Conn) (task : Task) :
    SameLoads σ (σ.post t (.on c task)) := by
  rw [post_eq]
  refine ⟨rfl, rfl, rfl, rfl, fun v u filter error hmem => ?_⟩
  rcases List.mem_append.mp hmem with hold | hnew
  · exact hold
  · split_ifs at hnew
    · cases List.mem_singleton.mp hnew
    · cases hnew

theorem sameLoads_complete (σ : System Φ) (c : Conn) (s : TCPSession Φ) (task : Task) :
    SameLoads σ (σ.complete c s task) := by
  have hpost := sameLoads_post { σ with sessions := Function.update σ.sessions c s } s.ioThread c task
  exact ⟨hpost.threads, hpost.accepted, hpost.threadLoad, hpost.accepting, hpost.queued⟩

theorem Calls.sameLoads {cbs : List (Conn × Callback)} {σ σ' : System Φ} (h : Calls cbs σ σ') :
    SameLoads σ σ' := by
  have htasks := h.tasks
  obtain ⟨handlers, tasks, rfl⟩ := h.same
  refine ⟨rfl, rfl, rfl, rfl, fun t u filter error hmem => ?_⟩
  obtain ⟨more, heq, hmore⟩ := htasks t
  rw [heq] at hmem
  rcases List.mem_append.mp hmem with hold | hnew
  · exact hold
  · obtain ⟨d, task, hjob, -⟩ := hmore _ hnew
    cases hjob

theorem sameLoads_postMessageList {σ σ' : System Φ} {d : Conn} {messages : List NetMessage}
    (h : σ.postMessageList F d messages = some σ') : SameLoads σ σ' := by
  obtain ⟨s, -, rfl⟩ := Option.map_eq_some_iff.mp h
  exact ⟨rfl, rfl, rfl, rfl, fun _ _ _ _ hmem => hmem⟩

/-- Of the posted tasks only `on_session_closed` changes a load. -/
theorem sameLoads_exec {σ σ' : System Φ} {t : ThreadIx} {c : Conn} {scripts : List Script}
    {task : Task} (hopen : ∀ id, task ≠ .onSessionClosed id)
    (h : exec F σ t c scripts task = some σ') : SameLoads σ σ' := by
  cases task with
  | init id => cases h; exact sameLoads_onSession ..
  | handleRead error data => cases h; exact sameLoads_onSession ..
  | hanldeWrite error => cases h; exact sameLoads_onSession ..
  | handleSafeClose error data => cases h; exact sameLoads_onSession ..
  | closeTimer error =>
      obtain ⟨s, -, rfl⟩ := Option.map_eq_some_iff.mp h
      exact sameLoads_onSession ..
  | close => cases h; exact sameLoads_onSession ..
  | sessionPackMessageList => cases h; exact sameLoads_onSession ..
  | sessionSendMessageListDirectly =>
      cases h
      rw [sessionSendMessageListDirectly]
      split
      · exact .refl _
      · rename_i k hk
        have hcalls := (calls_deliver σ k c (σ.sessions c).messagesReceived scripts).sameLoads
        exact ⟨hcalls.threads, hcalls.accepted, hcalls.threadLoad, hcalls.accepting, hcalls.queued⟩
  | sendMessageListToHandler id messages =>
      cases h
      rw [sendMessageListToHandler]
      split
      · exact .refl _
      · exact (calls_deliver ..).sameLoads
  | onSessionClosed id => exact absurd rfl (hopen id)
  | handlerPackMessageList =>
      cases h
      exact (calls_onHandler (handlerMove_packMessageList _ _)).sameLoads
  | handlerSendMessageListDirectly =>
      rw [exec, handlerSendMessageListDirectly] at h
      split at h
      · cases h
        exact .refl _
      · obtain ⟨τ, hτ, rfl⟩ := Option.map_eq_some_iff.mp h
        have hsame := sameLoads_postMessageList hτ
        exact ⟨hsame.threads, hsame.accepted, hsame.threadLoad, hsame.accepting, hsame.queued⟩
  | sendMessageListToSession id messages =>
      rw [exec, sendMessageListToSession] at h
      split at h
      · cases h
        exact .refl _
      · exact sameLoads_postMessageList h
  | closeSession id =>
      cases h
      rw [closeSession]
      split
      · exact .refl _
      · exact sameLoads_onSession ..

/-- What a step that closes nothing does to the loads and the acceptor. -/
inductive LoadStep (σ σ' : System Φ) : Prop
  | same : SameLoads σ σ' → LoadStep σ σ'
  /-- `async_accept` has completed. -/
  | accept (u : ThreadIx) (filter : Φ) (error : ErrorCode) : σ.accepting = some (u, filter) →
      SameLoads (({ σ with accepting := none } : System Φ).post mainThread
        (.handleAccept u filter error)) σ' → LoadStep σ σ'
  /-- A connection has been accepted, and the thread of the next one chosen. -/
  | connect (t u : ThreadIx) (filter nextFilter : Φ) (rest : List (Job Φ)) :
      σ.tasks t = .handleAccept u filter .success :: rest →
      SameLoads
        { σ with
          accepted := σ.accepted + 1
          threadLoad := σ.threadLoad.modify u (· + 1)
          accepting := some (getMinLoadThread (σ.threadLoad.modify u (· + 1)), nextFilter) } σ' →
      LoadStep σ σ'

theorem loadStep_of_handleAccept {σ σ' : System Φ} {t u : ThreadIx} {filter nextFilter : Φ}
    {first : TCPSessionID} {script : Script} {error : ErrorCode} {rest : List (Job Φ)}
    (ht : σ.tasks t = .handleAccept u filter error :: rest)
    (h : handleAccept (σ.popped t rest) u filter error first script nextFilter = some σ') :
    LoadStep σ σ' := by
  unfold handleAccept at h
  split_ifs at h with herror
  · cases h
    exact .same ((SameLoads.refl _).of_popped ht)
  · obtain rfl : error = .success := not_not.mp herror
    obtain ⟨⟨id, generator⟩, -, rfl⟩ := Option.map_eq_some_iff.mp h
    obtain ⟨τ, hcalls, heq⟩ := onSessionConnected_eq (σ.popped t rest)
      (.new u filter σ.keepAliveTime) id generator script
    dsimp only
    rw [show (σ.popped t rest).onSessionConnected
      (.new u filter (σ.popped t rest).keepAliveTime) id generator script = _ from heq]
    have hsame := hcalls.sameLoads
    refine .connect t u filter nextFilter rest ht ⟨hsame.threads, hsame.accepted, rfl, rfl, ?_⟩
    -- what the registration posts is `init`, and what the callback posts is no `handle_accept`
    intro v u' filter' error hmem
    rcases mem_tasks_register (hsame.queued v u' filter' error hmem) with hold | ⟨-, hinit⟩
    · exact mem_popped ht hold
    · cases hinit

theorem loadStep_of_step {σ σ' : System Φ} {a : Act Φ} (hopen : NoClose σ a)
    (h : step F σ a = some σ') : LoadStep σ σ' := by
  cases taken_of_step h with
  | task t c task rest scripts first filter ht hexec =>
      have hplain : ∀ id, task ≠ .onSessionClosed id := by
        rintro id rfl
        have hcloses := hopen (.on c (.onSessionClosed id)) (by rw [ht]; rfl)
        cases hcloses
      exact .same ((sameLoads_exec hplain hexec).of_popped ht)
  | handleAccept t u filter nextFilter error rest scripts first ht _ haccept =>
      exact loadStep_of_handleAccept ht haccept
  | accept u filter error haccepting => exact .accept u filter error haccepting (.refl _)
  | complete a c task s _ _ _ _ => exact .same (sameLoads_complete ..)
  | spares t id => exact .same (.refl _)
  | checks t id c _ _ => exact .same (sameLoads_post ..)
  | logic script => exact .same (calls_runScript σ script).sameLoads
  | tick n => exact .same ⟨rfl, rfl, rfl, rfl, fun _ _ _ _ hmem => hmem⟩

/-! ## Every session goes to the last worker -/

/-- All sessions are the last worker's, and so is the one that waits to be accepted. -/
structure OnLast (σ : System Φ) : Prop where
  length : σ.threadLoad.length = σ.threads
  load : ∀ t : Nat, t < σ.threads →
    σ.threadLoad.getD t 0 = if t + 1 = σ.threads then σ.accepted else 0
  accepting : ∀ (u : Nat) filter, σ.accepting = some (u, filter) → u + 1 = σ.threads
  queued : ∀ t (u : Nat) filter error, .handleAccept u filter error ∈ σ.tasks t → u + 1 = σ.threads

theorem getMinLoadThread_onLast {loads : List Nat} {n : Nat} (htwo : 2 ≤ loads.length)
    (hload : ∀ t : Nat, t < loads.length →
      loads.getD t 0 = if t + 1 = loads.length then n else 0) (hn : n < 2 ^ 64 - 1) :
    getMinLoadThread loads + 1 = loads.length := by
  have hlast : LastBelow loads (loads.length - 1) := by
    refine ⟨?_, by omega, ?_, fun u hu hulen => by omega⟩
    · show loads.length - 1 ≠ 0
      omega
    · rw [hload _ (by omega), if_pos (by omega)]
      exact hn
  rw [getMinLoadThread_of_lastBelow hlast]
  exact Nat.sub_add_cancel (by omega)

theorem OnLast.start {threads : Nat} (htwo : 2 ≤ threads) (keepAliveTime : Nat) (filter : Φ) :
    OnLast (start threads keepAliveTime filter) where
  length := List.length_replicate
  load t ht := by
    show (List.replicate threads 0).getD t 0 = if t + 1 = threads then 0 else 0
    have ht' : t < threads := ht
    rw [List.getD_replicate 0 ht', ite_self]
  accepting u filter' h := by
    have hchoice : getMinLoadThread (List.replicate threads 0) = u :=
      congrArg Prod.fst (Option.some.inj h)
    have hlen : (List.replicate threads 0).length = threads := List.length_replicate
    have hlast : getMinLoadThread (List.replicate threads 0) + 1 = _ :=
      getMinLoadThread_onLast (n := 0) (by rwa [hlen])
        (fun t ht => by rw [List.getD_replicate 0 (hlen ▸ ht), ite_self]) (by decide)
    rw [← hchoice, hlast, hlen]
    rfl
  queued _ _ _ _ h := by cases h

theorem OnLast.same {σ σ' : System Φ} (h : OnLast σ) (hsame : SameLoads σ σ') : OnLast σ' where
  length := by rw [hsame.threadLoad, hsame.threads, h.length]
  load t ht := by
    rw [hsame.threads] at ht ⊢
    rw [hsame.threadLoad, hsame.accepted, h.load t ht]
  accepting u filter haccepting := by
    rw [hsame.accepting] at haccepting
    rw [hsame.threads, h.accepting u filter haccepting]
  queued t u filter error hmem := by
    rw [hsame.threads, h.queued t u filter error (hsame.queued t u filter error hmem)]

theorem OnLast.step {σ σ' : System Φ} (h : OnLast σ) (htwo : 2 ≤ σ.threads)
    (hbound : σ'.accepted < 2 ^ 64 - 1) (hstep : LoadStep σ σ') : OnLast σ' := by
  cases hstep with
  | same hsame => exact h.same hsame
  | accept u filter error haccepting hsame =>
      refine OnLast.same ?_ hsame
      refine ⟨h.length, h.load, ?_, ?_⟩
      · intro u' filter' hnone
        cases hnone
      · intro t u' filter' error' hmem
        rw [post_eq] at hmem
        rcases List.mem_append.mp hmem with hold | hnew
        · exact h.queued t u' filter' error' hold
        · split_ifs at hnew
          · cases List.mem_singleton.mp hnew
            exact h.accepting u filter haccepting
          · cases hnew
  | connect t u filter nextFilter rest ht hsame =>
      have hlast : u + 1 = σ.threads :=
        h.queued t u filter .success (by rw [ht]; exact List.mem_cons_self)
      have hlength : (σ.threadLoad.modify u (· + 1)).length = σ.threads := by
        rw [List.length_modify, h.length]
      -- the load that grows is that of the last worker
      have hload : ∀ v : Nat, v < σ.threads → (σ.threadLoad.modify u (· + 1)).getD v 0 =
          if v + 1 = σ.threads then σ.accepted + 1 else 0 := by
        intro v hv
        have hget : σ.threadLoad[v]? = some (if v + 1 = σ.threads then σ.accepted else 0) := by
          have hv' : v < σ.threadLoad.length := by rwa [h.length]
          rw [← h.load v hv, List.getD_eq_getElem _ _ hv', List.getElem?_eq_getElem hv']
        rw [List.getD_eq_getElem?_getD, List.getElem?_modify, hget]
        by_cases hv' : v + 1 = σ.threads
        · obtain rfl : v = u := Nat.succ.inj (hv'.trans hlast.symm)
          simp [hv']
        · have hne : u ≠ v := by
            rintro rfl
            exact hv' hlast
          simp [hv', hne]
      -- all other workers are idle, and still the last one is chosen
      have hchoice := getMinLoadThread_onLast (n := σ.accepted + 1) (by rwa [hlength])
        (by rwa [hlength]) (lt_of_eq_of_lt hsame.accepted.symm hbound)
      refine OnLast.same ?_ hsame
      refine ⟨hlength, hload, ?_, h.queued⟩
      intro u' filter' haccepting
      cases haccepting
      rw [hchoice, hlength]

/-- Then the loads are balanced only while there is nothing to balance. -/
theorem OnLast.balanced_iff {σ : System Φ} (h : OnLast σ) (htwo : 2 ≤ σ.threads) :
    Balanced σ ↔ σ.threads = 2 ∨ σ.accepted ≤ 1 := by
  constructor
  · intro hbalanced
    by_contra hmore
    obtain ⟨hthree, hsecond⟩ := not_or.mp hmore
    -- worker 1 has no session, and the last worker has all of them
    have hle := hbalanced (σ.threads - 1) 1 (by show σ.threads - 1 ≠ 0; omega) (by decide)
      (by omega) (by omega)
    rw [h.load _ (by omega), if_pos (by omega), h.load 1 (by omega), if_neg (by omega)] at hle
    omega
  · intro hfew t u ht hu htlt hult
    have htpos : t ≠ 0 := ht
    have hupos : u ≠ 0 := hu
    rw [h.load t htlt, h.load u hult]
    split_ifs <;> omega

theorem onLast_of_run {threads keepAliveTime : Nat} {filter : Φ} {σ : System Φ}
    (htwo : 2 ≤ threads)
    (hrun : Transition.Run (step F) NoClose (start threads keepAliveTime filter) σ) :
    σ.threads = threads ∧ (σ.accepted < 2 ^ 64 - 1 → OnLast σ) := by
  apply hrun.invariant
    (I := fun υ => υ.threads = threads ∧ (υ.accepted < 2 ^ 64 - 1 → OnLast υ)) _
    ⟨rfl, fun _ => OnLast.start htwo keepAliveTime filter⟩
  rintro τ a υ ⟨hthreads, hlast⟩ hopen hstep
  have hload := loadStep_of_step hopen hstep
  have hframe : υ.threads = τ.threads ∧ τ.accepted ≤ υ.accepted := by
    cases hload with
    | same hsame => exact ⟨hsame.threads, hsame.accepted.ge⟩
    | accept _ _ _ _ hsame => exact ⟨hsame.threads, hsame.accepted.ge⟩
    | connect _ _ _ _ _ _ hsame =>
        exact ⟨hsame.threads, (Nat.le_succ _).trans hsame.accepted.ge⟩
  refine ⟨hframe.1.trans hthreads, fun hbound => ?_⟩
  exact (hlast (hframe.2.trans_lt hbound)).step (by rwa [hthreads]) hbound hload

/-- `get_min_load_thread` returns a least loaded worker exactly when the last worker below the
initial value is one. While nothing is closed the loads stay balanced when there is a single worker
or one connection at most; the second connection of two workers unbalances them. -/
theorem min_load_thread_iff (F : MessageFilterInterface Φ) :
    (∀ loads : List Nat, 2 ≤ loads.length →
      (LeastLoaded loads (getMinLoadThread loads) ↔
        ∃ r, LastBelow loads r ∧ LeastLoaded loads r)) ∧
    ∀ {threads keepAliveTime : Nat} {filter : Φ} {σ : System Φ}, 2 ≤ threads →
      Transition.Run (step F) NoClose (start threads keepAliveTime filter) σ →
      (threads = 2 ∨ σ.accepted ≤ 1 → Balanced σ) ∧
      (σ.accepted < 2 ^ 64 - 1 → Balanced σ → threads = 2 ∨ σ.accepted ≤ 1) := by
  refine ⟨fun loads hlen => leastLoaded_getMinLoadThread hlen, ?_⟩
  intro threads keepAliveTime filter σ htwo hrun
  obtain ⟨hthreads, hlast⟩ := onLast_of_run htwo hrun
  constructor
  · rintro (rfl | hfew)
    · -- a single worker is compared with itself
      intro t u ht hu htlt hult
      have htpos : t ≠ 0 := ht
      have hupos : u ≠ 0 := hu
      obtain rfl : t = u := by omega
      exact Nat.le_succ _
    · exact ((hlast (by omega)).balanced_iff (by omega)).mpr (.inr hfew)
  · intro hbound hbalanced
    rw [← hthreads]
    exact ((hlast hbound).balanced_iff (by omega)).mp hbalanced

/-- A server with two workers after two connections. -/
def twoAccepted : Option (System MessageFilter) :=
  Transition.exec (step (messageFilter .little .zeros)) (start 3 0 (.new 0))
    [.acceptDone .success, .run 0 [] 0 (.new 0), .acceptDone .success, .run 0 [] 0 (.new 0)]

/-- With one connection the loads are balanced. -/
theorem min_load_thread_one_connection :
    LeastLoaded [0, 1, 0] (getMinLoadThread [0, 1, 0]) ∧
      ∃ σ, Transition.exec (step (messageFilter .little .zeros)) (start 3 0 (.new 0))
          [.acceptDone .success, .run 0 [] 0 (.new 0)] = some σ ∧ Balanced σ := by
  obtain ⟨σ, hσ, hview⟩ := Option.map_eq_some_iff.mp (show
    (Transition.exec (step (messageFilter .little .zeros)) (start 3 0 (.new 0))
      [.acceptDone .success, .run 0 [] 0 (.new 0)]).map (fun σ => σ.accepted) = some 1
    by decide +kernel)
  have hrun : Transition.Run (step (messageFilter .little .zeros)) NoClose (start 3 0 (.new 0)) σ :=
    Transition.run_of_exec hσ (by decide +kernel)
  obtain ⟨hchoice, hruns⟩ := min_load_thread_iff (messageFilter .little .zeros)
  refine ⟨(hchoice [0, 1, 0] (by decide)).mpr ⟨2, ?_, ?_⟩, σ, hσ, ?_⟩
  · exact ⟨by decide, by decide, by decide, fun u hu hulen => absurd hulen (by simp; omega)⟩
  · refine ⟨by decide, by decide, fun u _ _ => ?_⟩
    exact Nat.zero_le _
  · exact (hruns (by decide) hrun).1 (.inr (le_of_eq hview))

/-- The second worker is chosen with a load of one, and both connections go to it. -/
theorem last_worker_takes_all :
    ¬ LeastLoaded [0, 0, 1] (getMinLoadThread [0, 0, 1]) ∧
      ∃ σ, Transition.Run (step (messageFilter .little .zeros)) NoClose (start 3 0 (.new 0)) σ ∧
        σ.threadLoad = [0, 0, 2] ∧ ¬ Balanced σ := by
  constructor
  · rintro ⟨-, -, hleast⟩
    have hle := hleast 1 (by decide) (by decide)
    exact absurd hle (by decide)
  · obtain ⟨σ, hσ, hview⟩ := Option.map_eq_some_iff.mp (show
      twoAccepted.map (fun σ => (σ.threads, σ.threadLoad)) = some (3, [0, 0, 2])
      by decide +kernel)
    obtain ⟨hthreads, hload⟩ := Prod.mk.inj hview
    refine ⟨σ, Transition.run_of_exec hσ (by decide +kernel), hload, fun hbalanced => ?_⟩
    have hle := hbalanced 2 1 (by decide) (by decide) (by rw [hthreads]; decide)
      (by rw [hthreads]; decide)
    rw [hload] at hle
    exact absurd hle (by decide)

end System
end EddyServer
