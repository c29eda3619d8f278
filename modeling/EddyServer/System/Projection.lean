import EddyServer.Link.Lifecycle
import EddyServer.System.Closing
import EddyServer.System.Inbound
import EddyServer.System.Outbound

/-!
# One connection of the server

`σ.link c` is what the server `σ` holds of connection `c`: its session, its handler, its entries
and its jobs. `σ.project c a` is what a step `a` of the server is to that connection. As long as an
id is drawn only when nothing of its last owner is left that could be taken for the new one's, every
step of the server is, to each of its connections, a step of a link on its own.
-/

namespace EddyServer

/-- The task of a job that connection `c` has posted. -/
def Job.taskOf {Φ : Type} (c : Conn) : Job Φ → Option Task
  | .on d task => if d = c then some task else none
  | .handleAccept .. => none

/-- The calls of a script on handler `c`. -/
def Script.on (c : Conn) (script : Script) : List Call :=
  script.filterMap fun call => if call.1 = c then some call.2 else none

namespace Script

@[simp] theorem on_nil (c : Conn) : on c [] = [] := rfl

@[simp] theorem on_cons (c : Conn) (call : Conn × Call) (script : Script) :
    on c (call :: script) = if call.1 = c then call.2 :: on c script else on c script := by
  unfold on
  rw [List.filterMap_cons]
  split_ifs <;> rfl

@[simp] theorem on_append (c : Conn) (script script' : Script) :
    on c (script ++ script') = on c script ++ on c script' :=
  List.filterMap_append

end Script

/-- A flush that finds nothing to pass on does nothing. -/
theorem Link.sessionSendMessageListDirectly_nil {Φ : Type} {ℓ : Link Φ}
    (h : ℓ.session.messagesReceived = []) (scripts : List (List Call)) :
    ℓ.sessionSendMessageListDirectly scripts = ℓ := by
  have hsame : { ℓ.session with messagesReceived := [] } = ℓ.session := by
    rw [← h]
  unfold sessionSendMessageListDirectly
  split_ifs
  · rw [h]
    simp only [deliver, hsame]
  · rfl

namespace System

variable {Φ : Type} {F : MessageFilterInterface Φ}

/-! ## What a connection is to the server -/

/-- The id drawn for connection `c`. A handler forgets it when it is disposed of. -/
def idOf (σ : System Φ) (c : Conn) : TCPSessionID :=
  if (σ.handlers c).sessionId = 0 then (σ.sessions c).sessionId else (σ.handlers c).sessionId

def link (σ : System Φ) (c : Conn) : Link Φ :=
  { conn := c
    threads := σ.threads
    clock := σ.clock
    session := σ.sessions c
    handler := σ.handlers c
    registered := decide (c < σ.accepted)
    id := σ.idOf c
    queued := decide (σ.found c = some c)
    mapped := decide (σ.getSessionHandler (σ.idOf c) = some c)
    tasks := fun t => (σ.tasks t).filterMap (Job.taskOf c) }

/-- The calls that application code makes while a job runs. -/
def played (σ : System Φ) (scripts : List Script) : Job Φ → Script
  | .on d .sessionSendMessageListDirectly =>
    match σ.getSessionHandler (σ.sessions d).sessionId with
    | none => []
    | some _ => (scripts.take (σ.sessions d).messagesReceived.length).flatten
  | .on _ (.sendMessageListToHandler id messages) =>
    match σ.getSessionHandler id with
    | none => []
    | some _ => (scripts.take messages.length).flatten
  | .on _ (.onSessionClosed id) =>
    match σ.getSessionHandler id with
    | none => []
    | some _ => scripts.headD []
  | .handleAccept _ _ .success => scripts.headD []
  | _ => []

/-- What a step is to connection `c`, which has been accepted: a step of its own, or calls that
application code makes elsewhere. -/
def project (σ : System Φ) (c : Conn) : Act Φ → Link.Act
  | .run t scripts _ _ =>
    match σ.tasks t with
    | [] => .logic []
    | job :: _ =>
      match job.taskOf c with
      | some _ => .run t (scripts.map (Script.on c))
      | none => .logic (Script.on c (σ.played scripts job))
  | .acceptDone _ => .logic []
  | .readDone d i error data => if d = c then .readDone i error data else .logic []
  | .writeDone d error => if d = c then .writeDone error else .logic []
  | .timerDone d => if d = c then .timerDone else .logic []
  | .keepAlive t id => if σ.getSession t id = some c then .keepAlive else .logic []
  | .logic script => .logic (Script.on c script)
  | .tick nanoseconds => .tick nanoseconds

/-! ## Jobs and calls -/

theorem filterMap_jobsTo (c d : Conn) (t : ThreadIx) (effects : List Effect) :
    (jobsTo d t effects : List (Job Φ)).filterMap (Job.taskOf c) =
      if d = c then Link.postsTo t effects else [] := by
  unfold jobsTo
  rw [List.filterMap_map]
  split_ifs with hd
  · rw [List.filterMap_congr (g := some) fun task _ => by simp [Job.taskOf, hd], List.filterMap_some]
  · rw [List.filterMap_eq_nil_iff]
    intro task _
    simp [Job.taskOf, hd]

theorem link_post (σ : System Φ) (t : ThreadIx) (d : Conn) (task : Task) (c : Conn) :
    (σ.post t (.on d task)).link c =
      if d = c then (σ.link c).post t task else σ.link c := by
  have htasks : ∀ u, ((σ.tasks u ++ if t = u then [Job.on d task] else []).filterMap (Job.taskOf c)) =
      (σ.link c).tasks u ++ if d = c ∧ t = u then [task] else [] := by
    intro u
    rw [List.filterMap_append]
    by_cases hu : t = u <;> by_cases hd : d = c <;> simp [hu, hd, Job.taskOf, link]
  have hlink : (σ.post t (.on d task)).link c =
      { σ.link c with tasks := fun u => (σ.link c).tasks u ++ if d = c ∧ t = u then [task] else [] } := by
    rw [post_eq]
    exact congrArg (fun tasks => { σ.link c with tasks := tasks }) (funext htasks)
  rw [hlink]
  split_ifs with hd
  · rw [Link.post_eq]
    simp [hd]
  · simp [hd]

theorem queuedAfter_of_posts (queued : Bool) {effects : List Effect}
    (h : ∀ e ∈ effects, ∃ t task, e = .post t task) : Link.queuedAfter queued effects = queued := by
  induction effects with
  | nil => rfl
  | cons e effects ih =>
      obtain ⟨t, task, rfl⟩ := h e List.mem_cons_self
      exact ih fun e he => h e (List.mem_cons_of_mem _ he)

/-- A function of handler `d` is, to connection `d`, a function of its handler. -/
theorem link_onHandler {σ : System Φ} {d : Conn} {r : TCPSessionHandler × List Effect}
    (h : HandlerMove σ.threads (σ.handlers d) r) (c : Conn) :
    (σ.onHandler d r).link c = if d = c then (σ.link c).onHandler r else σ.link c := by
  have hposts : ∀ e ∈ r.2, ∃ t task, e = .post t task := fun e he =>
    (h.posts e he).imp fun t ht => ht.imp fun task htask => htask.1
  have heq : σ.onHandler d r =
      { σ with
        handlers := Function.update σ.handlers d r.1
        tasks := fun t => σ.tasks t ++ jobsTo d t r.2 } := by
    rw [onHandler, foldl_effect, entriesAfter_of_posts d _ _ hposts, Function.update_eq_self]
  rw [heq]
  have hid : ((Function.update σ.handlers d r.1) c).sessionId = (σ.handlers c).sessionId := by
    by_cases hd : c = d
    · subst hd
      rw [Function.update_self, h.sessionId]
    · rw [Function.update_of_ne hd]
  unfold link idOf
  simp only [hid, List.filterMap_append, filterMap_jobsTo]
  by_cases hd : d = c
  · subst hd
    rw [if_pos rfl, Link.onHandler_eq, queuedAfter_of_posts _ hposts]
    simp only [Function.update_self, if_pos]
    rfl
  · simp only [Function.update_of_ne (Ne.symm hd), if_neg hd, List.append_nil]
    rfl

theorem link_call (σ : System Φ) (call : Conn × Call) (c : Conn) :
    (σ.call call).link c = (σ.link c).runScript (Script.on c [call]) := by
  rw [System.call, link_onHandler (handlerMove_call _ _ call.2), Script.on_cons]
  split_ifs with hd
  · subst hd
    rfl
  · rfl

theorem link_runScript (σ : System Φ) (script : Script) (c : Conn) :
    (σ.runScript script).link c = (σ.link c).runScript (Script.on c script) := by
  induction script generalizing σ with
  | nil => rfl
  | cons call script ih =>
      have happ : Script.on c (call :: script) = Script.on c [call] ++ Script.on c script :=
        Script.on_append c [call] script
      have hrest : (σ.runScript (call :: script)).link c =
          ((σ.call call).runScript script).link c := rfl
      rw [hrest, ih, link_call, happ, Link.runScript, Link.runScript, Link.runScript,
        List.foldl_append]

/-- A callback of handler `h`, whose code calls any handlers. -/
theorem link_callback (σ : System Φ) (h : Conn) (cb : Callback) (script : Script) (c : Conn) :
    (σ.callback h cb script).link c =
      if h = c then (σ.link c).callback cb (Script.on c script)
      else (σ.link c).runScript (Script.on c script) := by
  rw [System.callback, link_runScript]
  split_ifs with hh
  · subst hh
    rw [Link.callback]
    congr 1
    unfold link idOf
    simp only [Function.update_self]
    rfl
  · congr 1
    unfold link idOf
    simp only [Function.update_of_ne (Ne.symm hh)]
    rfl

theorem link_deliver (σ : System Φ) (h : Conn) (messages : List NetMessage)
    (scripts : List Script) (c : Conn) :
    (σ.deliver h h messages scripts).link c =
      if h = c then (σ.link c).deliver messages (scripts.map (Script.on c))
      else (σ.link c).runScript (Script.on c (scripts.take messages.length).flatten) := by
  induction messages generalizing σ scripts with
  | nil => split_ifs <;> rfl
  | cons m messages ih =>
      rw [System.deliver, ih, link_callback]
      have hhead : Script.on c (scripts.headD []) = (scripts.map (Script.on c)).headD [] := by
        cases scripts <;> rfl
      have htail : scripts.tail.map (Script.on c) = (scripts.map (Script.on c)).tail := by
        cases scripts <;> rfl
      split_ifs with hh
      · subst hh
        rw [hhead, htail]
        rfl
      · cases scripts with
        | nil => simp [Link.runScript]
        | cons script scripts => simp [Link.runScript, List.foldl_append]

/-! ## Lookups -/

/-- What holds of the server as long as ids are drawn apart. -/
structure Separate (σ : System Φ) : Prop where
  registry : Registry σ
  known : Known σ
  addressed : Addressed σ
  delivered : Delivered σ
  owned : Owned σ

section
variable {σ : System Φ} {t : ThreadIx} {c : Conn} {id : TCPSessionID} {task : Task}
  {rest : List (Job Φ)}

theorem Separate.handler_id (h : Separate σ) (hmap : σ.getSessionHandler id = some c) :
    id ≠ 0 ∧ (σ.handlers c).sessionId = id := by
  have hid : id ≠ 0 := by
    rintro rfl
    exact absurd (h.addressed.zero.symm.trans hmap) nofun
  exact ⟨hid, (h.addressed.sessionId id c hid).mp hmap⟩

/-- A connection that is found under an id has that id. -/
theorem Separate.idOf_eq (h : Separate σ) (hmap : σ.getSessionHandler id = some c) :
    σ.idOf c = id := by
  obtain ⟨hid, heq⟩ := h.handler_id hmap
  rw [idOf, if_neg (by rwa [heq]), heq]

theorem Separate.inMap (h : Separate σ) :
    (σ.link c).inMap id = true ↔ σ.getSessionHandler id = some c := by
  unfold Link.inMap link
  simp only [Bool.and_eq_true, decide_eq_true_eq, beq_iff_eq]
  constructor
  · rintro ⟨hmap, rfl⟩
    exact hmap
  · intro hmap
    rw [h.idOf_eq hmap]
    exact ⟨hmap, rfl⟩

theorem Separate.not_inMap (h : Separate σ) (hnone : σ.getSessionHandler id = none) :
    (σ.link c).inMap id = false := by
  rw [← Bool.not_eq_true, h.inMap, hnone]
  exact nofun

theorem Separate.inQueue (h : Separate σ) :
    (σ.link c).inQueue t id = true ↔ σ.getSession t id = some c := by
  unfold Link.inQueue link found
  simp only [Bool.and_eq_true, decide_eq_true_eq, beq_iff_eq]
  constructor
  · rintro ⟨⟨hentry, rfl⟩, rfl⟩
    exact hentry
  · intro hentry
    obtain ⟨-, rfl, rfl⟩ := h.registry.entry t id c hentry
    exact ⟨⟨hentry, rfl⟩, rfl⟩

/-- A task of handler `c` finds session `c`, or none. -/
theorem Separate.target (h : Separate σ) (ht : σ.tasks t = .on c task :: rest) {d : Conn}
    (hd : σ.target t c task = some d) : d = c := by
  have hmem : (.on c task : Job Φ) ∈ σ.tasks t := by rw [ht]; exact List.mem_cons_self
  cases task with
  | sendMessageListToSession id messages => exact (h.addressed.arrived t d c id hd _ hmem rfl).symm
  | closeSession id => exact (h.addressed.arrived t d c id hd _ hmem rfl).symm
  | handlerSendMessageListDirectly =>
      obtain ⟨u, -, hu⟩ := Option.bind_eq_some_iff.mp hd
      exact (h.addressed.unique (h.registry.entry _ _ _ hu).1 rfl).symm
  | _ => cases hd

/-- What a task that closes session `c` finds in the queue is the session, or nothing. -/
theorem Separate.found_link (h : Separate σ) (ht : σ.tasks t = .on c task :: rest)
    (hends : task.isRead = true ∨ task.isWrite = true ∨ (σ.sessions c).closed = false) :
    (σ.link c).found = σ.found c := by
  have hcases : σ.found c = some c ∨ σ.found c = none := by
    rcases h.owned.owner c with hown | ⟨hclosed, hwrites, hreads⟩
    · exact .inl hown
    -- The session is closed: it has a completion to come, and this one is among them.
    have hmem : (.on c task : Job Φ) ∈ σ.tasks t := by rw [ht]; exact List.mem_cons_self
    rcases hends with hread | hwrite | hopen
    · have hhome := h.owned.home t c task hmem (.inl hread)
      have hpos : 0 < (σ.tasks (σ.sessions c).ioThread).countP (Job.readBy c) :=
        List.countP_pos_iff.mpr ⟨_, hhome ▸ hmem, by simp [Job.readBy, hread]⟩
      refine .inr (by_contra fun hsome => ?_)
      have hzero := hreads hsome
      unfold readsOf at hzero
      omega
    · have hhome := h.owned.home t c task hmem (.inr hwrite)
      have hpos : 0 < (σ.tasks (σ.sessions c).ioThread).countP (Job.writeBy c) :=
        List.countP_pos_iff.mpr ⟨_, hhome ▸ hmem, by simp [Job.writeBy, hwrite]⟩
      unfold writesOf at hwrites
      omega
    · rw [hclosed] at hopen
      cases hopen
  unfold Link.found link
  rcases hcases with hown | hnone
  · simp [hown]
  · simp [hnone]

end

/-! ## Functions of the session -/

theorem link_popped (σ : System Φ) (t : ThreadIx) (rest : List (Job Φ)) (c : Conn) :
    (σ.popped t rest).link c = (σ.link c).popped t (rest.filterMap (Job.taskOf c)) := by
  have htasks : (fun u => ((σ.popped t rest).tasks u).filterMap (Job.taskOf c)) =
      Function.update (fun u => (σ.tasks u).filterMap (Job.taskOf c)) t
        (rest.filterMap (Job.taskOf c)) := by
    funext u
    by_cases hu : u = t
    · subst hu
      simp [popped]
    · simp [popped, Function.update_of_ne hu]
  exact congrArg (fun tasks => { σ.link c with tasks := tasks }) htasks

/-- Session `d` has run a function that keeps its id and its thread and does not add it to a
queue; an entry that it takes out is its own. -/
theorem link_move {σ : System Φ} {d : Conn} {task : Task} {r : TCPSession Φ × List Effect}
    (hmove : TCPSession.Move (σ.sessions d) (σ.found d) task r)
    (hown : ∀ e, σ.found d = some e → .queueRemove ∈ r.2 → e = d) (c : Conn) :
    (σ.onSession d r).link c = if d = c then (σ.link c).onSession r else σ.link c := by
  have hsame : ∀ {e}, e ≠ d → (σ.onSession d r).sessions e = σ.sessions e := fun he => by
    rw [onSession_eq]
    exact Function.update_of_ne he _ _
  have hself : (σ.onSession d r).sessions d = r.1 := by
    rw [onSession_eq]
    exact Function.update_self ..
  have hid : ((σ.onSession d r).sessions c).sessionId = (σ.sessions c).sessionId := by
    by_cases hc : c = d
    · subst hc
      rw [hself, hmove.sessionId]
    · rw [hsame hc]
  have hio : ((σ.onSession d r).sessions c).ioThread = (σ.sessions c).ioThread := by
    by_cases hc : c = d
    · subst hc
      rw [hself, hmove.ioThread]
    · rw [hsame hc]
  have hidOf : (σ.onSession d r).idOf c = σ.idOf c := by
    unfold idOf
    rw [hid, onSession_eq]
  have htasks : ∀ t, ((σ.onSession d r).tasks t).filterMap (Job.taskOf c) =
      (σ.link c).tasks t ++ if d = c then Link.postsTo t r.2 else [] := fun t => by
    rw [onSession_eq]
    dsimp only
    rw [List.filterMap_append, filterMap_jobsTo]
    rfl
  have hqueued : decide ((σ.onSession d r).found c = some c) =
      if d = c then Link.queuedAfter (σ.link c).queued r.2 else (σ.link c).queued := by
    unfold System.found
    rw [hid, hio]
    rcases move_effects hmove d with hposts | ⟨entry, hfound, hr⟩
    · have hposts' : ∀ e ∈ r.2, ∃ t task, e = .post t task := fun e he =>
        (hposts e he).imp fun _ h => h.imp fun _ h => h.1
      rw [queuedAfter_of_posts _ hposts', ite_self, onSession_of_posts hposts']
      rfl
    · obtain rfl : entry = d := hown entry hfound (by simp [hr])
      rw [getSession_of_leaves hr, hmove.ioThread, hmove.sessionId, hr, Link.queuedAfter_leaving]
      by_cases hc : entry = c
      · subst hc
        simp
      · rw [if_neg hc]
        -- the entry that has gone was not that of `c`
        split_ifs with hgone
        · have hfoundc : σ.found c = some entry := by
            rw [System.found, hgone.1, hgone.2]
            exact hfound
          simp [link, hfoundc, hc]
        · rfl
  have hlink : (σ.onSession d r).link c =
      { σ.link c with
        session := (σ.onSession d r).sessions c
        tasks := fun t => (σ.link c).tasks t ++ if d = c then Link.postsTo t r.2 else []
        queued := if d = c then Link.queuedAfter (σ.link c).queued r.2
          else (σ.link c).queued } := by
    rw [← hqueued, ← funext htasks]
    unfold link
    rw [hidOf]
    simp only [onSession_eq]
    rfl
  rw [hlink]
  split_ifs with hd
  · subst hd
    rw [Link.onSession_eq, hself]
  · rw [hsame (Ne.symm hd)]
    simp [link]

/-- Session `d`, which is registered under `k`, has run `init`. -/
theorem link_opens {σ : System Φ} {d : Conn} {k : TCPSessionID} {r : TCPSession Φ × List Effect}
    (hr : TCPSession.Opens (σ.sessions d) k r) (hid : (σ.handlers d).sessionId = k) (hk : k ≠ 0)
    (hnone : σ.getSession (σ.sessions d).ioThread k = none) (c : Conn) :
    (σ.onSession d r).link c = if d = c then (σ.link c).onSession r else σ.link c := by
  have hfind := getSession_of_adds (σ := σ) (c := d) hr.effects (by
    rw [hr.ioThread, hr.sessionId]
    exact hnone)
  rw [hr.ioThread, hr.sessionId] at hfind
  have hsame := onSession_of_adds (σ := σ) (c := d) hr.effects
  have hsessions : (σ.onSession d r).sessions = Function.update σ.sessions d r.1 := by rw [hsame]
  have hidOf : (σ.onSession d r).idOf c = σ.idOf c := by
    unfold idOf
    rw [hsessions, show (σ.onSession d r).handlers = σ.handlers by rw [hsame]]
    by_cases hc : c = d
    · subst hc
      rw [if_neg (by rwa [hid]), if_neg (by rwa [hid])]
    · rw [Function.update_of_ne hc]
  have hqueued : decide ((σ.onSession d r).found c = some c) =
      if d = c then true else (σ.link c).queued := by
    unfold System.found
    rw [hfind, hsessions]
    by_cases hc : d = c
    · subst hc
      simp [hr.ioThread, hr.sessionId]
    · rw [Function.update_of_ne (Ne.symm hc), if_neg hc]
      split_ifs with hnew
      · have hfound : σ.found c = none := by
          rw [System.found, hnew.1, hnew.2]
          exact hnone
        simp [link, hfound, hc]
      · rfl
  have hlink : (σ.onSession d r).link c =
      { σ.link c with
        session := Function.update σ.sessions d r.1 c
        queued := if d = c then true else (σ.link c).queued } := by
    rw [← hqueued]
    unfold link
    rw [hidOf]
    simp only [hsame]
    rfl
  rw [hlink]
  split_ifs with hd
  · subst hd
    rw [Link.onSession_eq, hr.effects, Function.update_self]
    simp [Link.postsTo, Link.queuedAfter]
  · rw [Function.update_of_ne (Ne.symm hd)]
    rfl

/-- Session `d` has changed and is still where it was. -/
theorem link_withSession (σ : System Φ) {d : Conn} {s : TCPSession Φ}
    (hio : s.ioThread = (σ.sessions d).ioThread) (hid : s.sessionId = (σ.sessions d).sessionId)
    (c : Conn) :
    ({ σ with sessions := Function.update σ.sessions d s } : System Φ).link c =
      if d = c then { σ.link c with session := s } else σ.link c := by
  have hios := update_field (S := σ.sessions) (·.ioThread) hio
  have hids := update_field (S := σ.sessions) (·.sessionId) hid
  unfold link idOf System.found
  simp only [hios, hids]
  by_cases hd : d = c
  · subst hd
    rw [if_pos rfl, Function.update_self]
    rfl
  · rw [if_neg hd, Function.update_of_ne (Ne.symm hd)]
    rfl

/-- The buffer of handler `d` has been emptied. -/
theorem link_emptied (σ : System Φ) (d c : Conn) :
    ({ σ with
        handlers := Function.update σ.handlers d
          { σ.handlers d with messagesToBeSent := [] } } : System Φ).link c =
      if d = c then
        { σ.link c with handler := { (σ.link c).handler with messagesToBeSent := [] } }
      else σ.link c := by
  unfold link idOf System.found
  by_cases hd : d = c
  · subst hd
    rw [if_pos rfl]
    simp only [Function.update_self]
    rfl
  · rw [if_neg hd]
    simp only [Function.update_of_ne (Ne.symm hd)]
    rfl

/-! ## Tasks -/

/-- A task of a session that is looked up nowhere but in its own queue. -/
theorem Separate.move {σ : System Φ} (h : Separate σ) {t : ThreadIx} {c d : Conn} {task : Task}
    {rest : List (Job Φ)} {r : TCPSession Φ × List Effect} (ht : σ.tasks t = .on c task :: rest)
    (hd : d = c ∨ σ.target t c task = some d)
    (hmove : TCPSession.Move (σ.sessions d) (σ.found d) task r) (e : Conn) :
    ((σ.popped t rest).onSession d r).link e =
      if d = e then ((σ.popped t rest).link e).onSession r else (σ.popped t rest).link e :=
  link_move (σ := σ.popped t rest) hmove
    (fun _ hentry hleaves => h.owned.leaves ht hd hmove hleaves hentry) e

/-- A batch goes to the handler of the session that has sent it. -/
theorem Separate.only {σ : System Φ} (h : Separate σ) {t : ThreadIx} {c e : Conn}
    {id : TCPSessionID} {messages : List NetMessage} {rest : List (Job Φ)}
    (ht : σ.tasks t = .on c (.sendMessageListToHandler id messages) :: rest)
    (he : σ.getSessionHandler id = some e) : e = c :=
  (h.delivered.batch t c id messages (by rw [ht]; exact List.mem_cons_self)).1 e he

/-- What a session on the main thread passes on goes to its own handler. -/
theorem Separate.only_directly {σ : System Φ} (h : Separate σ) {t : ThreadIx} {c e : Conn}
    {rest : List (Job Φ)} (ht : σ.tasks t = .on c .sessionSendMessageListDirectly :: rest)
    (he : σ.getSessionHandler (σ.sessions c).sessionId = some e) :
    e = c ∨ (σ.sessions c).messagesReceived = [] := by
  by_cases hnil : (σ.sessions c).messagesReceived = []
  · exact .inr hnil
  · exact .inl (h.delivered.sending c (.inr ⟨hnil, t, .on c .sessionSendMessageListDirectly,
      by rw [ht]; exact List.mem_cons_self, by simp [Job.flushes]⟩) e he)

theorem link_received (σ : System Φ) (c e : Conn) :
    ({ σ with
        sessions := Function.update σ.sessions c
          { σ.sessions c with messagesReceived := [] } } : System Φ).link e =
      if c = e then
        { σ.link e with session := { (σ.link e).session with messagesReceived := [] } }
      else σ.link e := by
  rw [link_withSession σ (s := { σ.sessions c with messagesReceived := [] }) rfl rfl e]
  split_ifs with hc
  · subst hc
    rfl
  · rfl

/-- Whose task it is: connection `c` runs it; the others see the calls that are made meanwhile. -/
def Sees (F : MessageFilterInterface Φ) (σ : System Φ) (t : ThreadIx) (c : Conn)
    (scripts : List Script) (task : Task) (σ' : System Φ) : Prop :=
  Link.exec F (σ.link c) t (scripts.map (Script.on c)) task = some (σ'.link c) ∧
    ∀ e ≠ c, σ'.link e = (σ.link e).runScript (Script.on e (σ.played scripts (.on c task)))

theorem Separate.sees_onSession {σ : System Φ} (h : Separate σ) {t : ThreadIx} {c : Conn}
    {task : Task} {rest : List (Job Φ)} {r : TCPSession Φ × List Effect} {scripts : List Script}
    (ht : σ.tasks t = .on c task :: rest)
    (hmove : TCPSession.Move (σ.sessions c) (σ.found c) task r)
    (hexec : Link.exec F ((σ.popped t rest).link c) t (scripts.map (Script.on c)) task =
      some (((σ.popped t rest).link c).onSession r))
    (hplayed : (σ.popped t rest).played scripts (.on c task) = []) :
    Sees F (σ.popped t rest) t c scripts task ((σ.popped t rest).onSession c r) := by
  refine ⟨?_, fun e he => ?_⟩
  · rw [hexec, h.move ht (.inl rfl) hmove, if_pos rfl]
  · rw [hplayed, h.move ht (.inl rfl) hmove, if_neg (Ne.symm he)]
    rfl

/-- Session `c` is given a batch under its own entry. -/
theorem link_posts {σ : System Φ} {d : Conn} {messages : List NetMessage}
    {s : TCPSession Φ} (hs : (σ.sessions d).postMessageList F messages = some s) (e : Conn) :
    ({ σ with sessions := Function.update σ.sessions d s } : System Φ).link e =
      if d = e then { σ.link e with session := s } else σ.link e :=
  have hposts := TCPSession.postMessageList_posts F hs
  link_withSession σ hposts.ioThread hposts.sessionId e

/-- Handler `c`, which is registered under the id of its session, has left the map. -/
theorem link_unregister {σ : System Φ} {c : Conn} {k : TCPSessionID}
    (hmap : σ.getSessionHandler k = some c) (hid : (σ.sessions c).sessionId = k)
    (hhandler : (σ.handlers c).sessionId = k) (e : Conn) :
    (σ.unregister c k).link e =
      if c = e then
        { σ.link e with handler := (σ.link e).handler.dispose, mapped := false }
      else σ.link e := by
  have hfind : ∀ k', (σ.unregister c k).getSessionHandler k' =
      if k' = k then none else σ.getSessionHandler k' := fun k' => Table.find_erase
  by_cases he : c = e
  · subst he
    have hidOf : σ.idOf c = k := by
      unfold idOf
      split_ifs
      · exact hid
      · exact hhandler
    have hidOf' : (σ.unregister c k).idOf c = k := by
      simp [idOf, unregister, TCPSessionHandler.dispose, hid]
    rw [if_pos rfl]
    unfold link
    rw [hidOf', hidOf, hfind, if_pos rfl]
    simp only [unregister, Function.update_self, System.found, getSession, reduceCtorEq,
      decide_false]
    rfl
  · have hidOf : (σ.unregister c k).idOf e = σ.idOf e := by
      simp [idOf, unregister, Function.update_of_ne (Ne.symm he)]
    have hmapped : ((σ.unregister c k).getSessionHandler (σ.idOf e) = some e) =
        (σ.getSessionHandler (σ.idOf e) = some e) := by
      rw [hfind]
      split_ifs with hk
      · rw [hk, hmap]
        simp [he]
      · rfl
    rw [if_neg he]
    unfold link
    simp only [hidOf, hmapped]
    simp only [unregister, Function.update_of_ne (Ne.symm he), System.found, getSession]
    rfl

/-- `init` of connection `c`. -/
theorem Separate.sees_init {σ : System Φ} (h : Separate σ) {t : ThreadIx} {c : Conn}
    {k : TCPSessionID} {rest : List (Job Φ)} (ht : σ.tasks t = .on c (.init k) :: rest)
    (scripts : List Script) :
    Sees F (σ.popped t rest) t c scripts (.init k)
      ((σ.popped t rest).onSession c ((σ.sessions c).init F σ.clock k)) := by
  obtain ⟨hreg, hio⟩ := h.registry.opening t c k (by rw [ht]; exact List.mem_cons_self)
  obtain ⟨hk, hid⟩ := h.handler_id hreg
  obtain ⟨-, hnone, -⟩ := h.registry.at_init ht
  have hlink := link_opens (σ := σ.popped t rest)
    (TCPSession.init_opens F σ.clock (σ.sessions c) k) hid hk (hio ▸ hnone)
  refine ⟨?_, fun e he => ?_⟩
  · rw [hlink, if_pos rfl]
    rfl
  · rw [hlink, if_neg (Ne.symm he)]
    rfl

/-- A flush that finds nothing to pass on does nothing. -/
theorem sessionSendMessageListDirectly_nil {σ : System Φ} {c : Conn}
    (h : (σ.sessions c).messagesReceived = []) (scripts : List Script) :
    σ.sessionSendMessageListDirectly c scripts = σ := by
  have hsame : { σ.sessions c with messagesReceived := [] } = σ.sessions c := by
    rw [← h]
  unfold sessionSendMessageListDirectly
  split
  · rfl
  · rw [h]
    simp only [deliver, hsame, Function.update_eq_self]

/-- The session passes what it has received to its own handler, or to nobody. -/
theorem Separate.sees_sessionSendMessageListDirectly {σ : System Φ} (h : Separate σ)
    {t : ThreadIx} {c : Conn} {rest : List (Job Φ)}
    (ht : σ.tasks t = .on c .sessionSendMessageListDirectly :: rest) (scripts : List Script) :
    Sees F (σ.popped t rest) t c scripts .sessionSendMessageListDirectly
      ((σ.popped t rest).sessionSendMessageListDirectly c scripts) := by
  cases he : σ.getSessionHandler (σ.sessions c).sessionId with
  | none =>
      have hnone : (σ.popped t rest).sessionSendMessageListDirectly c scripts = σ.popped t rest := by
        rw [sessionSendMessageListDirectly,
          show (σ.popped t rest).getSessionHandler ((σ.popped t rest).sessions c).sessionId = none
            from he]
      rw [hnone]
      refine ⟨?_, fun e _ => ?_⟩
      · change some (Link.sessionSendMessageListDirectly _ _) = _
        rw [Link.sessionSendMessageListDirectly, if_neg]
        rw [Bool.not_eq_true]
        exact h.not_inMap he
      · rw [played, show (σ.popped t rest).getSessionHandler
          ((σ.popped t rest).sessions c).sessionId = none from he]
        rfl
  | some e =>
      rcases h.only_directly ht he with rfl | hnil
      · have hdeliver := link_deliver (σ.popped t rest) e
          ((σ.popped t rest).sessions e).messagesReceived scripts
        rw [sessionSendMessageListDirectly,
          show (σ.popped t rest).getSessionHandler ((σ.popped t rest).sessions e).sessionId = some e
            from he]
        refine ⟨?_, fun d hd => ?_⟩
        · have hin : Link.sessionSendMessageListDirectly ((σ.popped t rest).link e)
              (scripts.map (Script.on e)) = _ := if_pos (h.inMap.mpr he)
          rw [link_received, if_pos rfl, hdeliver, if_pos rfl]
          exact congrArg some hin
        · rw [link_received, if_neg (Ne.symm hd), played,
            show (σ.popped t rest).getSessionHandler ((σ.popped t rest).sessions e).sessionId =
              some e from he]
          exact (hdeliver d).trans (if_neg (Ne.symm hd))
      -- Nothing is passed on: the flush comes after another one.
      · rw [sessionSendMessageListDirectly_nil (σ := σ.popped t rest) hnil]
        refine ⟨congrArg some (Link.sessionSendMessageListDirectly_nil hnil _), fun d _ => ?_⟩
        rw [played, show (σ.popped t rest).getSessionHandler
          ((σ.popped t rest).sessions c).sessionId = some e from he,
          show ((σ.popped t rest).sessions c).messagesReceived = [] from hnil]
        rfl

/-- A batch goes to the handler of connection `c`, or to nobody. -/
theorem Separate.sees_sendMessageListToHandler {σ : System Φ} (h : Separate σ) {t : ThreadIx}
    {c : Conn} {id : TCPSessionID} {messages : List NetMessage} {rest : List (Job Φ)}
    (ht : σ.tasks t = .on c (.sendMessageListToHandler id messages) :: rest)
    (scripts : List Script) :
    Sees F (σ.popped t rest) t c scripts (.sendMessageListToHandler id messages)
      ((σ.popped t rest).sendMessageListToHandler c id messages scripts) := by
  cases he : σ.getSessionHandler id with
  | none =>
      have hnone : (σ.popped t rest).sendMessageListToHandler c id messages scripts =
          σ.popped t rest := by
        rw [sendMessageListToHandler, show (σ.popped t rest).getSessionHandler id = none from he]
      rw [hnone]
      refine ⟨?_, fun e _ => ?_⟩
      · change some (Link.sendMessageListToHandler _ _ _ _) = _
        rw [Link.sendMessageListToHandler, if_neg]
        rw [Bool.not_eq_true]
        exact h.not_inMap he
      · rw [played, show (σ.popped t rest).getSessionHandler id = none from he]
        rfl
  | some e =>
      obtain rfl : e = c := h.only ht he
      have hdeliver := link_deliver (σ.popped t rest) e messages scripts
      rw [sendMessageListToHandler, show (σ.popped t rest).getSessionHandler id = some e from he]
      refine ⟨?_, fun d hd => ?_⟩
      · change some (Link.sendMessageListToHandler _ _ _ _) = _
        have hmapped : ((σ.popped t rest).link e).inMap id = true := h.inMap.mpr he
        rw [Link.sendMessageListToHandler, if_pos hmapped]
        exact congrArg some ((hdeliver e).trans (if_pos rfl)).symm
      · rw [played, show (σ.popped t rest).getSessionHandler id = some e from he]
        exact (hdeliver d).trans (if_neg (Ne.symm hd))

/-- The handler of connection `c`, which is registered, is told and leaves the map. -/
theorem Separate.sees_onSessionClosed {σ : System Φ} (h : Separate σ) {t : ThreadIx} {c : Conn}
    {k : TCPSessionID} {rest : List (Job Φ)} (hlife : Link.Lifecycle (σ.link c))
    (ht : σ.tasks t = .on c (.onSessionClosed k) :: rest) (scripts : List Script) :
    Sees F (σ.popped t rest) t c scripts (.onSessionClosed k)
      ((σ.popped t rest).onSessionClosed c k (scripts.headD [])) := by
  have hreg := h.owned.closing t c k (by rw [ht]; exact List.mem_cons_self)
  obtain ⟨hk, hhandler⟩ := h.handler_id hreg
  have hsession : (σ.sessions c).sessionId = k := by
    have htask : (σ.link c).tasks t = .onSessionClosed k :: rest.filterMap (Job.taskOf c) := by
      simp [link, ht, Job.taskOf]
    obtain ⟨-, hid, -, hclosed⟩ := (hlife.popped htask fun _ => by simp).taskOk
    exact (hlife.started_of_closed hclosed).sessionId.trans hid.symm
  have hcallback := link_callback (σ.popped t rest) c (.onClosed c) (scripts.headD [])
  have hcalls := calls_callback (σ.popped t rest) c (.onClosed c) (scripts.headD [])
  have hscript : (scripts.map (Script.on c)).headD [] = Script.on c (scripts.headD []) := by
    cases scripts <;> rfl
  -- the load and the pool are no part of a link
  have hlink : ∀ e, ((σ.popped t rest).onSessionClosed c k (scripts.headD [])).link e =
      (((σ.popped t rest).callback c (.onClosed c) (scripts.headD [])).unregister c k).link e := by
    intro e
    rw [System.onSessionClosed, show (σ.popped t rest).getSessionHandler k = some c from hreg]
    dsimp only
    obtain ⟨threadLoad, hload⟩ := changeLoad_eq (((σ.popped t rest).callback c (.onClosed c)
      (scripts.headD [])).unregister c k) ((σ.popped t rest).handlers c).threadId
        fun load => if load > 0 then load - 1 else load
    rw [hload, if_neg hk]
    rfl
  have hmap : ((σ.popped t rest).callback c (.onClosed c)
      (scripts.headD [])).getSessionHandler k = some c := by
    rw [getSessionHandler, hcalls.keeps.sessionHandlerMap]
    exact hreg
  have hunregister := link_unregister hmap
    ((hcalls.keeps.sessionId c).trans hsession) ((hcalls.sessionId c).trans hhandler)
  refine ⟨?_, fun e he => ?_⟩
  · have hin : Link.onSessionClosed ((σ.popped t rest).link c) k
        ((scripts.map (Script.on c)).headD []) = _ := if_pos (h.inMap.mpr hreg)
    rw [hlink, hunregister, if_pos rfl, hcallback, if_pos rfl, ← hscript]
    exact congrArg some hin
  · rw [hlink, hunregister, if_neg (Ne.symm he), hcallback, if_neg (Ne.symm he)]
    simp only [played]
    rw [show (σ.popped t rest).getSessionHandler k = some c from hreg]

/-- The handler on the main thread finds the session of connection `c`, or none. -/
theorem Separate.sees_handlerSendMessageListDirectly {σ σ' : System Φ} (h : Separate σ)
    {t : ThreadIx} {c : Conn} {rest : List (Job Φ)} {scripts : List Script}
    (ht : σ.tasks t = .on c .handlerSendMessageListDirectly :: rest)
    (hex : (σ.popped t rest).handlerSendMessageListDirectly F t c = some σ') :
    Sees F (σ.popped t rest) t c scripts .handlerSendMessageListDirectly σ' := by
  unfold System.handlerSendMessageListDirectly at hex
  cases hd : (σ.popped t rest).target t c .handlerSendMessageListDirectly with
  | none =>
      rw [hd] at hex
      cases hex
      refine ⟨?_, fun e _ => rfl⟩
      change Link.handlerSendMessageListDirectly F ((σ.popped t rest).link c) = _
      unfold Link.handlerSendMessageListDirectly
      cases hget : getThread ((σ.popped t rest).link c).threads
          ((σ.popped t rest).link c).handler.threadId with
      | none => rfl
      | some u =>
          refine if_neg fun hin => ?_
          have htarget : (σ.popped t rest).target t c .handlerSendMessageListDirectly =
              some c := Option.bind_eq_some_iff.mpr ⟨u, hget, h.inQueue.mp hin⟩
          exact absurd (hd.symm.trans htarget) nofun
  | some d =>
      rw [hd] at hex
      obtain rfl : d = c := h.target ht hd
      obtain ⟨u, hget, hentry⟩ := Option.bind_eq_some_iff.mp hd
      obtain ⟨τ, hτ, rfl⟩ := Option.map_eq_some_iff.mp hex
      obtain ⟨s, hs, rfl⟩ := Option.map_eq_some_iff.mp hτ
      have hlink := link_emptied ({ σ.popped t rest with
        sessions := Function.update (σ.popped t rest).sessions d s } : System Φ) d
      have hposts := link_posts hs
      refine ⟨?_, fun e he => ?_⟩
      · have hin : Link.handlerSendMessageListDirectly F ((σ.popped t rest).link d) =
            some { (σ.popped t rest).link d with
              session := s
              handler := { (σ.popped t rest).handlers d with messagesToBeSent := [] } } := by
          unfold Link.handlerSendMessageListDirectly
          rw [show getThread ((σ.popped t rest).link d).threads
            ((σ.popped t rest).link d).handler.threadId = some u from hget]
          refine (if_pos (h.inQueue.mpr hentry)).trans ?_
          exact Option.map_eq_some_iff.mpr ⟨s, hs, rfl⟩
        refine hin.trans (congrArg some ?_)
        refine (((hlink d).trans (if_pos rfl)).trans ?_).symm
        rw [(hposts d).trans (if_pos rfl)]
        rfl
      · exact ((hlink e).trans (if_neg (Ne.symm he))).trans
          ((hposts e).trans (if_neg (Ne.symm he)))

/-- A batch finds the session of connection `c`, or none. -/
theorem Separate.sees_sendMessageListToSession {σ σ' : System Φ} (h : Separate σ) {t : ThreadIx}
    {c : Conn} {id : TCPSessionID} {messages : List NetMessage} {rest : List (Job Φ)}
    {scripts : List Script} (ht : σ.tasks t = .on c (.sendMessageListToSession id messages) :: rest)
    (hex : (σ.popped t rest).sendMessageListToSession F t c id messages = some σ') :
    Sees F (σ.popped t rest) t c scripts (.sendMessageListToSession id messages) σ' := by
  unfold System.sendMessageListToSession at hex
  cases hd : (σ.popped t rest).target t c (.sendMessageListToSession id messages) with
  | none =>
      rw [hd] at hex
      cases hex
      refine ⟨if_neg fun hin => ?_, fun e _ => rfl⟩
      exact absurd (hd.symm.trans (h.inQueue.mp hin)) nofun
  | some d =>
      rw [hd] at hex
      obtain rfl : d = c := h.target ht hd
      obtain ⟨s, hs, rfl⟩ := Option.map_eq_some_iff.mp hex
      have hlink := link_posts hs
      refine ⟨?_, fun e he => (hlink e).trans (if_neg (Ne.symm he))⟩
      rw [hlink, if_pos rfl]
      refine (if_pos (h.inQueue.mpr hd)).trans ?_
      exact Option.map_eq_some_iff.mpr ⟨s, hs, rfl⟩

/-- `CloseSession` finds the session of connection `c`, or none. -/
theorem Separate.sees_closeSession {σ : System Φ} (h : Separate σ) {t : ThreadIx} {c : Conn}
    {id : TCPSessionID} {rest : List (Job Φ)} (ht : σ.tasks t = .on c (.closeSession id) :: rest)
    (scripts : List Script) :
    Sees F (σ.popped t rest) t c scripts (.closeSession id)
      ((σ.popped t rest).closeSession t c id) := by
  unfold System.closeSession
  cases hd : (σ.popped t rest).target t c (.closeSession id) with
  | none =>
      refine ⟨congrArg some (if_neg fun hin => ?_), fun e _ => rfl⟩
      exact absurd (hd.symm.trans (h.inQueue.mp hin)) nofun
  | some d =>
      obtain rfl : d = c := h.target ht hd
      have hentry : (σ.popped t rest).found d = some d :=
        h.registry.found_of_target (show σ.target t d (.closeSession id) = some d from hd)
      refine h.sees_onSession ht (TCPSession.move_close _ rfl rfl rfl _) ?_ rfl
      refine congrArg some ((if_pos (h.inQueue.mpr hd)).trans ?_)
      have hlinkFound : ((σ.popped t rest).link d).found = (σ.popped t rest).found d := by
        simp [Link.found, link, hentry]
      rw [hlinkFound]
      rfl

/-- The keep-alive check's `close`: a session that is closed already is left alone, whatever is
found. -/
theorem Separate.sees_close {σ : System Φ} (h : Separate σ) {t : ThreadIx} {c : Conn}
    {rest : List (Job Φ)} (ht : σ.tasks t = .on c .close :: rest) (scripts : List Script) :
    Sees F (σ.popped t rest) t c scripts .close ((σ.popped t rest).onSession c
      ((σ.sessions c).close .keepAlive (σ.found c))) := by
  refine h.sees_onSession ht (TCPSession.move_close _ rfl rfl rfl _) ?_ rfl
  change some (Link.onSession _ ((σ.sessions c).close _ _)) = _
  cases hclosed : (σ.sessions c).closed with
  | true =>
      have hnothing : ∀ found, (σ.sessions c).close .keepAlive found = (σ.sessions c, []) :=
        fun found => by rw [TCPSession.close, if_pos hclosed]
      rw [hnothing, hnothing]
  | false =>
      rw [show ((σ.popped t rest).link c).found = σ.found c from
        h.found_link ht (.inr (.inr hclosed))]

/-- **A task of connection `c` is a task of link `c`**, and no more than calls to every other. -/
theorem Separate.exec {σ σ' : System Φ} (h : Separate σ) {t : ThreadIx} {c : Conn} {task : Task}
    {rest : List (Job Φ)} {scripts : List Script} (hlife : Link.Lifecycle (σ.link c))
    (ht : σ.tasks t = .on c task :: rest)
    (hex : System.exec F (σ.popped t rest) t c scripts task = some σ') :
    Sees F (σ.popped t rest) t c scripts task σ' := by
  have hfound : (task.isRead = true ∨ task.isWrite = true ∨ (σ.sessions c).closed = false) →
      ((σ.popped t rest).link c).found = σ.found c := h.found_link ht
  cases task with
  | init k =>
      cases hex
      exact h.sees_init ht scripts
  | handleRead error data =>
      cases hex
      refine h.sees_onSession ht (TCPSession.move_handleRead F _ _ _ error data) ?_ rfl
      change some (Link.onSession _ (TCPSession.handleRead F _ _ _ error data)) = _
      rw [hfound (.inl rfl)]
      rfl
  | hanldeWrite error =>
      cases hex
      refine h.sees_onSession ht (TCPSession.move_hanldeWrite _ _ error) ?_ rfl
      change some (Link.onSession _ (TCPSession.hanldeWrite _ _ error)) = _
      rw [hfound (.inr (.inl rfl))]
      rfl
  | handleSafeClose error data =>
      cases hex
      exact h.sees_onSession ht (TCPSession.move_handleSafeClose _ _ error data) rfl rfl
  | closeTimer error =>
      obtain ⟨s, hs, rfl⟩ := Option.map_eq_some_iff.mp hex
      refine h.sees_onSession ht (TCPSession.move_closeTimerExpired _ hs) ?_ rfl
      change Option.map _ (TCPSession.closeTimerExpired (σ.sessions c) error) = _
      rw [show (σ.sessions c).closeTimerExpired error = some s from hs]
      rfl
  | close =>
      cases hex
      exact h.sees_close ht scripts
  | sessionPackMessageList =>
      cases hex
      exact h.sees_onSession ht (TCPSession.move_packMessageList _ _) rfl rfl
  | sessionSendMessageListDirectly =>
      cases hex
      exact h.sees_sessionSendMessageListDirectly ht scripts
  | sendMessageListToHandler id messages =>
      cases hex
      exact h.sees_sendMessageListToHandler ht scripts
  | onSessionClosed k =>
      cases hex
      exact h.sees_onSessionClosed hlife ht scripts
  | handlerPackMessageList =>
      cases hex
      have hlink := link_onHandler (σ := σ.popped t rest) (d := c)
        (handlerMove_packMessageList _ _)
      exact ⟨congrArg some ((hlink c).trans (if_pos rfl)).symm,
        fun e he => (hlink e).trans (if_neg (Ne.symm he))⟩
  | handlerSendMessageListDirectly => exact h.sees_handlerSendMessageListDirectly ht hex
  | sendMessageListToSession id messages => exact h.sees_sendMessageListToSession ht hex
  | closeSession id =>
      cases hex
      exact h.sees_closeSession ht scripts

/-! ## Steps -/

/-- The id that a step draws is not 0, and nothing is left of it that could be taken for the new
connection's: it is not registered, no message is on its way under it, and when the new session
opens, no old session of its thread still reads under its id. -/
structure DrawsApart (σ : System Φ) (a : Act Φ) : Prop where
  settled : DrawsSettled σ a
  nonzero : ∀ id, σ.drawn a = some id → id ≠ 0
  opensAlone : OpensAlone σ a

theorem Separate.start (threads keepAliveTime : Nat) (filter : Φ) :
    Separate (start threads keepAliveTime filter) where
  registry := .start threads keepAliveTime filter
  known := .start threads keepAliveTime filter
  addressed := .start threads keepAliveTime filter
  delivered := .start threads keepAliveTime filter
  owned := .start threads keepAliveTime filter

theorem Separate.step {σ σ' : System Φ} {a : Act Φ} (h : Separate σ) (ha : DrawsApart σ a)
    (hstep : System.step F σ a = some σ') : Separate σ' :=
  have hev := event_of_step hstep
  have hfresh : Fresh σ a := fun k hk => (ha.settled k hk).1
  { registry := h.registry.step hev hfresh
    known := h.known.step h.registry hev
    addressed := h.addressed.step h.registry hev hfresh ha.nonzero
    delivered := h.delivered.step h.registry h.known hev ha.settled
    owned := h.owned.step h.registry h.known hev hfresh ha.opensAlone }

theorem link_complete (σ : System Φ) (d : Conn) (k : Socket) (timer : Timer) (task : Task)
    (c : Conn) :
    (σ.complete d { σ.sessions d with socket := k, closeTimer := timer } task).link c =
      if d = c then
        ({ σ.link c with
          session := { (σ.link c).session with socket := k, closeTimer := timer } } : Link Φ).post
            (σ.link c).session.ioThread task
      else σ.link c := by
  rw [complete, link_post,
    link_withSession σ (s := { σ.sessions d with socket := k, closeTimer := timer }) rfl rfl]
  split_ifs with hd
  · subst hd
    rfl
  · rfl

/-- A job of another connection, or of the acceptor, has been taken. -/
theorem link_popped_other {σ : System Φ} {t : ThreadIx} {job : Job Φ} {rest : List (Job Φ)}
    {c : Conn} (ht : σ.tasks t = job :: rest) (hother : job.taskOf c = none) :
    (σ.popped t rest).link c = σ.link c := by
  have htasks : (σ.link c).tasks t = rest.filterMap (Job.taskOf c) := by
    simp [link, ht, hother]
  rw [link_popped, ← htasks, Link.popped, Function.update_eq_self]

/-- A new connection is nothing to those that are there. -/
theorem link_register {σ : System Φ} {k : TCPSessionID} (hfresh : σ.getSessionHandler k = none)
    (s : TCPSession Φ) (generator : IDGenerator 32) {c : Conn} (hc : c < σ.accepted) :
    (σ.register s k generator).link c = σ.link c := by
  have hne : c ≠ σ.accepted := Nat.ne_of_lt hc
  have hfind : ∀ k', (σ.register s k generator).getSessionHandler k' =
      if k' = k then some σ.accepted else σ.getSessionHandler k' :=
    getSessionHandler_register hfresh
  have hsessions : (σ.register s k generator).sessions c = σ.sessions c :=
    session_register_of_ne hne
  have hhandlers : (σ.register s k generator).handlers c = σ.handlers c :=
    handler_register_of_ne hne
  have hidOf : (σ.register s k generator).idOf c = σ.idOf c := by
    unfold idOf
    rw [hsessions, hhandlers]
  have hmapped : ((σ.register s k generator).getSessionHandler (σ.idOf c) = some c) =
      (σ.getSessionHandler (σ.idOf c) = some c) := by
    rw [hfind]
    split_ifs with hk
    · rw [hk, hfresh]
      simp [Ne.symm hne]
    · rfl
  have hregistered : (c < (σ.register s k generator).accepted) = (c < σ.accepted) :=
    eq_true (Nat.lt_succ_of_lt hc) |>.trans (eq_true hc).symm
  have htasks : ∀ t, ((σ.register s k generator).tasks t).filterMap (Job.taskOf c) =
      (σ.tasks t).filterMap (Job.taskOf c) := fun t => by
    rw [tasks_register, List.filterMap_append]
    split_ifs <;> simp [Job.taskOf, Ne.symm hne]
  unfold link System.found
  simp only [hsessions, hhandlers, hidOf, hmapped, hregistered, htasks]
  rfl

theorem link_onSessionConnected (σ : System Φ) (session : TCPSession Φ) (id : TCPSessionID)
    (generator : IDGenerator 32) (script : Script) (c : Conn) :
    (σ.onSessionConnected session id generator script).link c =
      ((σ.register session id generator).callback σ.accepted .onConnected script).link c := by
  rw [onSessionConnected]
  obtain ⟨threadLoad, hload⟩ := changeLoad_eq
    ((σ.register session id generator).callback σ.accepted .onConnected script)
    (((σ.register session id generator).callback σ.accepted .onConnected script).handlers
      σ.accepted).threadId (· + 1)
  rw [hload]
  rfl

/-- For a connection that is there, the calls made in `on_connected` come from outside. -/
theorem link_connected_of_lt {σ : System Φ} {k : TCPSessionID}
    (hfresh : σ.getSessionHandler k = none) (s : TCPSession Φ) (generator : IDGenerator 32)
    (script : Script) {c : Conn} (hc : c < σ.accepted) :
    Link.step F (σ.link c) (.logic (Script.on c script)) =
      some ((σ.onSessionConnected s k generator script).link c) := by
  have hcallback := link_callback (σ.register s k generator) σ.accepted .onConnected script c
  rw [if_neg (Nat.ne_of_gt hc), link_register hfresh s generator hc] at hcallback
  exact congrArg some (hcallback.symm.trans (link_onSessionConnected ..).symm)

/-- A task of connection `d` has run. -/
theorem Separate.link_task {σ σ' : System Φ} (h : Separate σ) {t : ThreadIx} {d : Conn}
    {task : Task} {rest : List (Job Φ)} {scripts : List Script}
    (hlife : Link.Lifecycle (σ.link d)) (ht : σ.tasks t = .on d task :: rest)
    (hex : System.exec F (σ.popped t rest) t d scripts task = some σ') (first : TCPSessionID)
    (filter : Φ) (c : Conn) :
    Link.step F (σ.link c) (σ.project c (.run t scripts first filter)) = some (σ'.link c) := by
  obtain ⟨hown, hother⟩ := h.exec hlife ht hex
  by_cases hdc : d = c
  · subst hdc
    have htask : (σ.link d).tasks t = task :: rest.filterMap (Job.taskOf d) := by
      simp [link, ht, Job.taskOf]
    have hproject : σ.project d (.run t scripts first filter) =
        .run t (scripts.map (Script.on d)) := by
      simp [project, ht, Job.taskOf]
    rw [hproject, Link.step_run htask, ← link_popped]
    exact hown
  · have hjob : (Job.on d task : Job Φ).taskOf c = none := if_neg hdc
    have hproject : σ.project c (.run t scripts first filter) =
        .logic (Script.on c (σ.played scripts (.on d task))) := by
      simp [project, ht, hjob]
    have hsame := hother c (Ne.symm hdc)
    rw [link_popped_other ht hjob] at hsame
    rw [hproject]
    exact congrArg some hsame.symm

/-- `handle_accept` has run: to connection `c`, which is there, the calls in `on_connected` of the
new one come from outside. -/
theorem link_handleAccept {σ σ' : System Φ} {t u : ThreadIx} {filter nextFilter : Φ}
    {error : ErrorCode} {rest : List (Job Φ)} {scripts : List Script} {first : TCPSessionID}
    (ha : DrawsApart σ (.run t scripts first nextFilter))
    (ht : σ.tasks t = .handleAccept u filter error :: rest) (hoffers : σ.idGenerator.Offers first)
    (haccept : handleAccept (σ.popped t rest) u filter error first (scripts.headD []) nextFilter =
      some σ') {c : Conn} (hc : c < σ.accepted) :
    Link.step F (σ.link c) (σ.project c (.run t scripts first nextFilter)) = some (σ'.link c) := by
  have hjob : (Job.handleAccept u filter error : Job Φ).taskOf c = none := rfl
  have hproject : σ.project c (.run t scripts first nextFilter) =
      .logic (Script.on c (σ.played scripts (.handleAccept u filter error))) := by
    simp [project, ht, hjob]
  rw [hproject]
  refine congrArg some ?_
  unfold handleAccept at haccept
  split_ifs at haccept with herror
  · cases haccept
    rw [link_popped_other ht hjob]
    cases error <;> first | rfl | exact absurd rfl herror
  · obtain rfl : error = .success := not_not.mp herror
    obtain ⟨⟨k, generator⟩, hget, rfl⟩ := Option.map_eq_some_iff.mp haccept
    have hget' : σ.idGenerator.get first = some (k, generator) := hget
    have hdrawn : σ.drawn (.run t scripts first nextFilter) = some k := by
      simp [drawn, ht, hget', hoffers]
    have hconnected := link_connected_of_lt (F := F)
      (show (σ.popped t rest).getSessionHandler k = none from (ha.settled k hdrawn).1)
      (.new u filter σ.keepAliveTime) generator (scripts.headD []) hc
    rw [link_popped_other ht hjob] at hconnected
    exact Option.some.inj hconnected

/-- The keep-alive check of thread `t` has visited an entry. -/
theorem Separate.link_keepAlive {σ σ' : System Φ} (h : Separate σ) {t : ThreadIx}
    {id : TCPSessionID} (hstep : System.step F σ (.keepAlive t id) = some σ') (c : Conn) :
    Link.step F (σ.link c) (σ.project c (.keepAlive t id)) = some (σ'.link c) := by
  unfold System.step at hstep
  dsimp only at hstep
  cases hentry : σ.getSession t id with
  | none =>
      rw [hentry] at hstep
      cases hstep
  | some d =>
      rw [hentry] at hstep
      cases hstep
      obtain ⟨-, rfl, rfl⟩ := h.registry.entry t id d hentry
      rw [project, hentry]
      by_cases hd : d = c
      · subst hd
        have hfound : σ.found d = some d := hentry
        rw [if_pos rfl]
        cases hactive : (σ.sessions d).checkKeepAlive σ.clock with
        | true => simp [Link.step, link, hfound, hactive]
        | false =>
            have hpost := link_post σ (σ.sessions d).ioThread d .close d
            rw [if_pos rfl] at hpost
            simp only [Bool.false_eq_true, if_false]
            rw [hpost]
            simp [Link.step, link, hfound, hactive]
      · have hpost := link_post σ (σ.sessions d).ioThread d .close c
        rw [if_neg hd] at hpost
        rw [if_neg fun heq => hd (Option.some.inj heq)]
        refine congrArg some ?_
        split_ifs
        · rfl
        · exact hpost.symm

/-- **A step of the server is a step of each of its links.** -/
theorem Separate.step_link {σ σ' : System Φ} {a : Act Φ} (h : Separate σ) (ha : DrawsApart σ a)
    (hlife : ∀ d < σ.accepted, Link.Lifecycle (σ.link d)) (hstep : System.step F σ a = some σ')
    {c : Conn} (hc : c < σ.accepted) :
    Link.step F (σ.link c) (σ.project c a) = some (σ'.link c) := by
  cases a with
  | run t scripts first filter =>
      cases taken_of_step hstep with
      | task _ d task rest _ _ _ ht hex =>
          have hd : d < σ.accepted := h.known.job t d task (by rw [ht]; exact List.mem_cons_self)
          exact h.link_task (hlife d hd) ht hex first filter c
      | handleAccept _ u filter' _ error rest _ _ ht hoffers haccept =>
          exact link_handleAccept ha ht hoffers haccept hc
      | complete _ _ _ _ hne => exact absurd rfl (hne _ _ _ _)
  | acceptDone error =>
      unfold System.step at hstep
      dsimp only at hstep
      cases haccepting : σ.accepting with
      | none =>
          rw [haccepting] at hstep
          cases hstep
      | some next =>
          rw [haccepting] at hstep
          cases hstep
          have htasks : ∀ t, ((σ.tasks t ++ if mainThread = t then
              [Job.handleAccept next.1 next.2 error] else []).filterMap (Job.taskOf c)) =
                (σ.tasks t).filterMap (Job.taskOf c) := fun t => by
            rw [List.filterMap_append]
            split_ifs <;> simp [Job.taskOf]
          refine congrArg some ?_
          rw [post_eq]
          exact congrArg (fun tasks => { σ.link c with tasks := tasks }) (funext htasks).symm
  | readDone d i error data =>
      unfold System.step at hstep
      dsimp only at hstep
      cases hop : (σ.sessions d).socket.reads[i]? with
      | none =>
          rw [hop] at hstep
          cases hstep
      | some op =>
          rw [hop] at hstep
          dsimp only at hstep
          split_ifs at hstep with hallows
          cases hstep
          refine Eq.trans ?_ (congrArg some (link_complete σ d _ _ _ c)).symm
          rw [project]
          split_ifs with hd
          · subst hd
            unfold Link.step
            dsimp only
            rw [show (σ.link d).session.socket.reads[i]? = some op from hop]
            exact if_pos hallows
          · rfl
  | writeDone d error =>
      unfold System.step at hstep
      dsimp only at hstep
      cases hw : (σ.sessions d).socket.writing with
      | nil =>
          rw [hw] at hstep
          cases hstep
      | cons range writing =>
          rw [hw] at hstep
          cases hstep
          refine Eq.trans ?_ (congrArg some (link_complete σ d _ _ _ c)).symm
          rw [project]
          split_ifs with hd
          · subst hd
            unfold Link.step
            dsimp only
            rw [show (σ.link d).session.socket.writing = range :: writing from hw]
            rfl
          · rfl
  | timerDone d =>
      unfold System.step at hstep
      dsimp only at hstep
      split_ifs at hstep with htimer
      cases hstep
      refine Eq.trans ?_ (congrArg some (link_complete σ d _ _ _ c)).symm
      rw [project]
      split_ifs with hd
      · subst hd
        exact if_pos htimer
      · rfl
  | keepAlive t id => exact h.link_keepAlive hstep c
  | logic script =>
      cases hstep
      exact congrArg some (link_runScript σ script c).symm
  | tick n =>
      cases hstep
      rfl

end System
end EddyServer
