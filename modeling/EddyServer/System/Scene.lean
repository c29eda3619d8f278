import EddyServer.System.Registry

/-!
# Scenes

A `Scene` is a server with one worker and the default filter, as long as nothing is written and no
time passes. Its steps are computed one by one: a connection is accepted, a session opens, reads, is
closed and deregistered. `exists_idle` runs any number of connections, up to a full pool, through
that, so that what happens when an id is drawn again can be looked at.
-/

namespace EddyServer
namespace System

/-- The default filter on a little-endian host. -/
abbrev codec : MessageFilterInterface MessageFilter := messageFilter .little .zeros

/-- What a step of such a server changes. -/
structure Scene where
  accepted : Nat
  sessions : Conn → TCPSession MessageFilter
  handlers : Conn → TCPSessionHandler
  /-- The tasks of the two threads. -/
  main : List (Job MessageFilter)
  worker : List (Job MessageFilter)
  /-- The worker's `TCPSessionQueue`. -/
  entries : Table TCPSessionID Conn
  registered : Table TCPSessionID Conn
  /-- The load of the worker. -/
  load : Nat
  idGenerator : IDGenerator 32
  accepting : Bool

namespace Scene

/-- The queues of a main thread and a worker. -/
def queues (main worker : List (Job MessageFilter)) : ThreadIx → List (Job MessageFilter) :=
  fun t => if t = 0 then main else if t = 1 then worker else []

def system (s : Scene) : System MessageFilter :=
  { threads := 2
    clock := 0
    keepAliveTime := 0
    accepted := s.accepted
    sessions := s.sessions
    handlers := s.handlers
    tasks := queues s.main s.worker
    sessionQueue := fun t => if t = 1 then s.entries else ∅
    sessionHandlerMap := s.registered
    threadLoad := [0, s.load]
    idGenerator := s.idGenerator
    accepting := if s.accepting then some (1, .new 0) else none }

theorem queues_zero (main worker more) :
    Function.update (queues main worker) 0 more = queues more worker := by
  funext t
  unfold queues
  by_cases h : t = 0
  · subst h; simp
  · simp [h]

theorem queues_one (main worker more) :
    Function.update (queues main worker) 1 more = queues main more := by
  funext t
  unfold queues
  by_cases h : t = 1
  · subst h; simp
  · simp [h]

theorem popped_main (s : Scene) (rest : List (Job MessageFilter)) :
    s.system.popped 0 rest = ({ s with main := rest } : Scene).system := by
  unfold System.popped Scene.system
  dsimp only
  rw [queues_zero]

theorem popped_worker (s : Scene) (rest : List (Job MessageFilter)) :
    s.system.popped 1 rest = ({ s with worker := rest } : Scene).system := by
  unfold System.popped Scene.system
  dsimp only
  rw [queues_one]

theorem post_main (s : Scene) (job : Job MessageFilter) :
    s.system.post mainThread job = ({ s with main := s.main ++ [job] } : Scene).system :=
  s.popped_main (s.main ++ [job])

theorem post_worker (s : Scene) (job : Job MessageFilter) :
    s.system.post 1 job = ({ s with worker := s.worker ++ [job] } : Scene).system :=
  s.popped_worker (s.worker ++ [job])

/-! ## The main thread -/

/-- `async_accept` completes. -/
theorem accept_step (s : Scene) (h : s.accepting = true) :
    step codec s.system (.acceptDone .success) =
      some ({ s with
        accepting := false
        main := s.main ++ [.handleAccept 1 (.new 0) .success] } : Scene).system := by
  have hwaits : s.system.accepting = some (1, .new 0) := by
    rw [Scene.system, h]
    rfl
  unfold step
  dsimp only
  rw [hwaits]
  exact congrArg some (Scene.post_main { s with accepting := false } _)

/-- A handler that is registered with a session of the worker. -/
def workerHandler (id : TCPSessionID) (callbacks : List Callback) (calls : List Call) :
    TCPSessionHandler :=
  { sessionId := id, threadId := 2, messagesToBeSent := [], callbacks := callbacks, calls := calls }

theorem workerHandler_close {id : TCPSessionID} (hid : id ≠ 0) (callbacks : List Callback)
    (calls : List Call) :
    (workerHandler id callbacks calls).call (getThread 2) .close =
      (workerHandler id callbacks (calls ++ [.close]), [.post 1 (.closeSession id)]) := by
  have hopen : ∀ calls, (workerHandler id callbacks calls).isClosed = false :=
    fun _ => beq_eq_false_iff_ne.mpr hid
  have hget : getThread 2 2 = some 1 := by decide
  unfold TCPSessionHandler.call
  rw [hopen, if_neg Bool.false_ne_true]
  change (workerHandler id callbacks (calls ++ [.close])).close (getThread 2) = _
  unfold TCPSessionHandler.close
  rw [hopen, if_neg Bool.false_ne_true]
  dsimp only [workerHandler]
  rw [hget]
  rfl

/-- Application code closes a connection of the worker. -/
theorem call_close (s : Scene) {c : Conn} {id : TCPSessionID} {callbacks : List Callback}
    {calls : List Call} (hid : id ≠ 0) (hh : s.handlers c = workerHandler id callbacks calls) :
    s.system.call (c, .close) =
      ({ s with
        handlers := Function.update s.handlers c (workerHandler id callbacks (calls ++ [.close]))
        worker := s.worker ++ [.on c (.closeSession id)] } : Scene).system := by
  have hh' : s.system.handlers c = workerHandler id callbacks calls := hh
  unfold System.call
  dsimp only
  rw [hh']
  change s.system.onHandler c ((workerHandler id callbacks calls).call (getThread 2) .close) = _
  rw [workerHandler_close hid]
  exact Scene.post_worker { s with
    handlers := Function.update s.handlers c (workerHandler id callbacks (calls ++ [.close])) } _

/-- The scene in which a connection of the worker has been registered and told so. -/
def connected (s : Scene) (id : TCPSessionID) (generator : IDGenerator 32) : Scene :=
  { s with
    accepted := s.accepted + 1
    sessions := Function.update s.sessions s.accepted (.new 1 (.new 0) 0)
    handlers := Function.update s.handlers s.accepted (workerHandler id [.onConnected] [])
    worker := s.worker ++ [.on s.accepted (.init id)]
    registered := s.registered.add id s.accepted
    idGenerator := generator }

theorem onConnected (s : Scene) (id : TCPSessionID) (generator : IDGenerator 32)
    (script : Script) :
    (s.system.register (.new 1 (.new 0) 0) id generator).callback s.accepted .onConnected script =
      (s.connected id generator).system.runScript script := by
  let registered : Scene :=
    { s.connected id generator with
      handlers := Function.update s.handlers s.accepted (workerHandler id [] []) }
  have hreg : s.system.register (.new 1 (.new 0) 0) id generator = registered.system :=
    Scene.post_worker { s with
      accepted := s.accepted + 1
      sessions := Function.update s.sessions s.accepted (.new 1 (.new 0) 0)
      handlers := Function.update s.handlers s.accepted (workerHandler id [] [])
      registered := s.registered.add id s.accepted
      idGenerator := generator } _
  rw [hreg, callback]
  congr 1
  unfold Scene.system Scene.connected
  dsimp only [registered]
  rw [Function.update_self, Function.update_idem]
  rfl

theorem counted (s : Scene) (hload : s.load = 0) :
    ({ s.system.changeLoad 2 (· + 1) with
      accepting := some (getMinLoadThread (s.system.changeLoad 2 (· + 1)).threadLoad, .new 0) } :
        System MessageFilter) =
      ({ s with load := 1, accepting := true } : Scene).system := by
  unfold changeLoad Scene.system
  rw [if_pos (by decide), hload]
  rfl

theorem connect_step (s : Scene) {first id : TCPSessionID} {generator : IDGenerator 32}
    {rest : List (Job MessageFilter)} {script : Script} {τ : Scene}
    (hmain : s.main = .handleAccept 1 (.new 0) .success :: rest)
    (hoffers : s.idGenerator.Offers first) (hget : s.idGenerator.get first = some (id, generator))
    (hscript : (({ s with main := rest } : Scene).connected id generator).system.runScript script =
      τ.system) (hthread : (τ.handlers s.accepted).threadId = 2) (hload : τ.load = 0) :
    step codec s.system (.run 0 [script] first (.new 0)) =
      some ({ τ with load := 1, accepting := true } : Scene).system := by
  have hhead : s.system.tasks 0 = .handleAccept 1 (.new 0) .success :: rest := hmain
  have hoffers' : s.system.idGenerator.Offers first := hoffers
  unfold step
  dsimp only
  rw [hhead]
  dsimp only
  rw [if_pos hoffers']
  change handleAccept (s.system.popped 0 rest) _ _ _ _ _ _ = _
  rw [Scene.popped_main]
  unfold handleAccept
  rw [if_neg (by decide)]
  change Option.map _ (s.idGenerator.get first) = _
  rw [hget, Option.map_some]
  congr 1
  have hon := Scene.onConnected { s with main := rest } id generator script
  rw [hscript] at hon
  have hlast : onSessionConnected ({ s with main := rest } : Scene).system (.new 1 (.new 0) 0) id
      generator script = τ.system.changeLoad 2 (· + 1) := by
    unfold onSessionConnected
    dsimp only
    have hhandler : (τ.system.handlers s.accepted).threadId = 2 := hthread
    rw [← hhandler, ← hon]
    rfl
  dsimp only
  change ({ onSessionConnected ({ s with main := rest } : Scene).system (.new 1 (.new 0) 0) id
      generator script with
    accepting := some (getMinLoadThread (onSessionConnected ({ s with main := rest } : Scene).system
      (.new 1 (.new 0) 0) id generator script).threadLoad, .new 0) } : System MessageFilter) = _
  rw [hlast]
  exact Scene.counted τ hload

/-- A connection is accepted. -/
theorem connect_step_open (s : Scene) {first id : TCPSessionID} {generator : IDGenerator 32}
    {rest : List (Job MessageFilter)}
    (hmain : s.main = .handleAccept 1 (.new 0) .success :: rest)
    (hoffers : s.idGenerator.Offers first) (hget : s.idGenerator.get first = some (id, generator))
    (hload : s.load = 0) :
    step codec s.system (.run 0 [[]] first (.new 0)) =
      some ({ ({ s with main := rest } : Scene).connected id generator with
        load := 1, accepting := true } : Scene).system :=
  connect_step s hmain hoffers hget rfl (by simp [Scene.connected, workerHandler]) hload

/-- A connection is accepted, and closed from `on_connected`. -/
theorem connect_step_close (s : Scene) {first id : TCPSessionID} {generator : IDGenerator 32}
    {rest : List (Job MessageFilter)}
    (hmain : s.main = .handleAccept 1 (.new 0) .success :: rest)
    (hoffers : s.idGenerator.Offers first) (hget : s.idGenerator.get first = some (id, generator))
    (hload : s.load = 0) (hid : id ≠ 0) :
    step codec s.system (.run 0 [[(s.accepted, .close)]] first (.new 0)) =
      some ({ ({ s with main := rest } : Scene).connected id generator with
        handlers := Function.update s.handlers s.accepted
          (workerHandler id [.onConnected] [.close])
        worker := s.worker ++ [.on s.accepted (.init id), .on s.accepted (.closeSession id)]
        load := 1, accepting := true } : Scene).system := by
  let closing : Scene :=
    { ({ s with main := rest } : Scene).connected id generator with
      handlers := Function.update s.handlers s.accepted (workerHandler id [.onConnected] [.close])
      worker := s.worker ++ [.on s.accepted (.init id), .on s.accepted (.closeSession id)] }
  refine connect_step (τ := closing) s hmain hoffers hget ?_ ?_ hload
  · have hcall := Scene.call_close (({ s with main := rest } : Scene).connected id generator)
      (c := s.accepted) hid (Function.update_self ..)
    change System.call _ _ = _
    rw [hcall]
    unfold Scene.connected
    dsimp only
    rw [Function.update_idem, List.append_assoc]
    rfl
  · change (Function.update s.handlers s.accepted _ s.accepted).threadId = 2
    rw [Function.update_self]
    rfl

theorem main_step (s : Scene) {c : Conn} {task : Task} {rest : List (Job MessageFilter)}
    (hmain : s.main = .on c task :: rest) (first : TCPSessionID) :
    step codec s.system (.run 0 [] first (.new 0)) =
      exec codec ({ s with main := rest } : Scene).system 0 c [] task := by
  have hhead : s.system.tasks 0 = .on c task :: rest := hmain
  unfold step
  dsimp only
  rw [hhead]
  exact congrArg (exec codec · 0 c [] task) (s.popped_main rest)

/-- `on_session_closed` finds a handler. -/
theorem closed_step (s : Scene) {c h : Conn} {id : TCPSessionID} {rest : List (Job MessageFilter)}
    {callbacks : List Callback} {calls : List Call}
    (hmain : s.main = .on c (.onSessionClosed id) :: rest) (hmap : s.registered.find id = some h)
    (hhandler : s.handlers h = workerHandler id callbacks calls) (hload : s.load = 1)
    (hid : id ≠ 0) (first : TCPSessionID) :
    step codec s.system (.run 0 [] first (.new 0)) =
      some ({ s with
        handlers := Function.update s.handlers h
          (workerHandler 0 (callbacks ++ [.onClosed c]) calls)
        main := rest
        registered := s.registered.erase id
        load := 0
        idGenerator := s.idGenerator.put id } : Scene).system := by
  rw [main_step s hmain, exec]
  have hmap' : ({ s with main := rest } : Scene).system.getSessionHandler id = some h := hmap
  have hhandler' : ({ s with main := rest } : Scene).system.handlers h =
      workerHandler id callbacks calls := hhandler
  rw [onSessionClosed, hmap']
  dsimp only
  rw [if_neg hid, hhandler']
  unfold callback
  rw [hhandler']
  unfold changeLoad
  rw [if_pos (show (workerHandler id callbacks calls).threadId > 0 from Nat.two_pos)]
  congr 1
  unfold System.unregister runScript Scene.system
  dsimp only [List.headD, List.foldl]
  rw [Function.update_self, Function.update_idem, hload]
  rfl

/-- A handler is given a batch of one message. -/
theorem deliver_step (s : Scene) {c h : Conn} {id : TCPSessionID} {m : NetMessage}
    {rest : List (Job MessageFilter)}
    (hmain : s.main = .on c (.sendMessageListToHandler id [m]) :: rest)
    (hmap : s.registered.find id = some h) (first : TCPSessionID) :
    step codec s.system (.run 0 [] first (.new 0)) =
      some ({ s with
        handlers := Function.update s.handlers h
          { s.handlers h with callbacks := (s.handlers h).callbacks ++ [.onMessage c m] }
        main := rest } : Scene).system := by
  rw [main_step s hmain, exec]
  have hmap' : ({ s with main := rest } : Scene).system.getSessionHandler id = some h := hmap
  rw [sendMessageListToHandler, hmap']
  rfl

/-! ## The worker -/

theorem worker_step (s : Scene) {c : Conn} {task : Task} {rest : List (Job MessageFilter)}
    (hworker : s.worker = .on c task :: rest) (first : TCPSessionID) :
    step codec s.system (.run 1 [] first (.new 0)) =
      exec codec ({ s with worker := rest } : Scene).system 1 c [] task := by
  have hhead : s.system.tasks 1 = .on c task :: rest := hworker
  unfold step
  dsimp only
  rw [hhead]
  exact congrArg (exec codec · 1 c [] task) (s.popped_worker rest)

theorem update_entries (s : Scene) (t : Table TCPSessionID Conn) :
    ({ s.system with sessionQueue := Function.update s.system.sessionQueue 1 t } :
      System MessageFilter) = ({ s with entries := t } : Scene).system := by
  unfold Scene.system
  dsimp only
  congr 1
  funext u
  by_cases hu : u = 1
  · subst hu
    simp
  · simp [hu]

theorem onSession_adds (s : Scene) (c : Conn) {x : TCPSession MessageFilter}
    (hthread : x.ioThread = 1) :
    s.system.onSession c (x, [.queueAdd]) =
      ({ s with
        sessions := Function.update s.sessions c x
        entries := s.entries.add x.sessionId c } : Scene).system := by
  rw [onSession_of_adds rfl]
  dsimp only
  rw [hthread]
  exact Scene.update_entries { s with sessions := Function.update s.sessions c x } _

theorem onSession_leaves (s : Scene) (c : Conn) {x : TCPSession MessageFilter}
    (hthread : x.ioThread = 1) :
    s.system.onSession c (x, [.post mainThread (.onSessionClosed x.sessionId), .queueRemove]) =
      ({ s with
        sessions := Function.update s.sessions c x
        main := s.main ++ [.on c (.onSessionClosed x.sessionId)]
        entries := s.entries.erase x.sessionId } : Scene).system := by
  have hpost := Scene.post_main { s with sessions := Function.update s.sessions c x }
    (.on c (.onSessionClosed x.sessionId))
  have hqueue := Scene.update_entries { s with
    sessions := Function.update s.sessions c x
    main := s.main ++ [.on c (.onSessionClosed x.sessionId)] } (s.entries.erase x.sessionId)
  rw [← hqueue, ← hpost]
  unfold onSession
  simp only [List.foldl_cons, List.foldl_nil, effect, post, Scene.system, Function.update_self,
    hthread]
  rfl

/-- The session leaves the queue once more while its timer waits. -/
theorem onSession_leaves_again (s : Scene) (c : Conn) {x : TCPSession MessageFilter}
    (hthread : x.ioThread = 1) :
    s.system.onSession c (x, [.post mainThread (.onSessionClosed x.sessionId), .queueRemove,
        .post 1 (.closeTimer .operationAborted)]) =
      ({ s with
        sessions := Function.update s.sessions c x
        main := s.main ++ [.on c (.onSessionClosed x.sessionId)]
        worker := s.worker ++ [.on c (.closeTimer .operationAborted)]
        entries := s.entries.erase x.sessionId } : Scene).system := by
  change (s.system.onSession c
    (x, [.post mainThread (.onSessionClosed x.sessionId), .queueRemove])).post 1 _ = _
  rw [onSession_leaves s c hthread]
  exact Scene.post_worker _ _

theorem onSession_posts (s : Scene) (c : Conn) (x : TCPSession MessageFilter) (task : Task) :
    s.system.onSession c (x, [.post 1 task]) =
      ({ s with
        sessions := Function.update s.sessions c x
        worker := s.worker ++ [.on c task] } : Scene).system :=
  Scene.post_worker { s with sessions := Function.update s.sessions c x } _

theorem onSession_forwards (s : Scene) (c : Conn) (x : TCPSession MessageFilter) (task : Task) :
    s.system.onSession c (x, [.post mainThread task]) =
      ({ s with
        sessions := Function.update s.sessions c x
        main := s.main ++ [.on c task] } : Scene).system :=
  Scene.post_main { s with sessions := Function.update s.sessions c x } _

/-- A session of the worker that has run `init` and waits for a header. -/
def opened (id : TCPSessionID) : TCPSession MessageFilter :=
  ((TCPSession.new 1 (.new 0) 0).init codec 0 id).1

/-- The session runs `init`. -/
theorem init_step (s : Scene) {c : Conn} {id : TCPSessionID} {rest : List (Job MessageFilter)}
    (hworker : s.worker = .on c (.init id) :: rest)
    (hsession : s.sessions c = .new 1 (.new 0) 0) (first : TCPSessionID) :
    step codec s.system (.run 1 [] first (.new 0)) =
      some ({ s with
        sessions := Function.update s.sessions c (opened id)
        worker := rest
        entries := s.entries.add id c } : Scene).system := by
  have hsession' : s.system.sessions c = .new 1 (.new 0) 0 := hsession
  rw [worker_step s hworker]
  change some (System.onSession _ c (TCPSession.init codec 0 (s.system.sessions c) id)) = _
  rw [hsession']
  exact congrArg some (Scene.onSession_adds { s with worker := rest } c (x := opened id) rfl)

/-- The session after `close`: it is out of the queue and drains its socket, and its `handle_read`
is still outstanding. -/
def left (id : TCPSessionID) (c : Conn) : TCPSession MessageFilter :=
  ((opened id).close .closeSession (some c)).1

/-- `CloseSession` finds a session that leaves the queue. -/
theorem close_step (s : Scene) {c d : Conn} {id : TCPSessionID} {rest : List (Job MessageFilter)}
    {x y : TCPSession MessageFilter}
    (hworker : s.worker = .on c (.closeSession id) :: rest) (hentry : s.entries.find id = some d)
    (hsession : s.sessions d = x) (hthread : x.ioThread = 1) (hid : x.sessionId = id)
    (hclose : x.close .closeSession (some d) =
      (y, [.post mainThread (.onSessionClosed y.sessionId), .queueRemove]))
    (hthread' : y.ioThread = 1) (hid' : y.sessionId = id) (first : TCPSessionID) :
    step codec s.system (.run 1 [] first (.new 0)) =
      some ({ s with
        sessions := Function.update s.sessions d y
        main := s.main ++ [.on d (.onSessionClosed id)]
        worker := rest
        entries := s.entries.erase id } : Scene).system := by
  rw [worker_step s hworker, exec]
  have htarget : ({ s with worker := rest } : Scene).system.target 1 c (.closeSession id) =
      some d := hentry
  have hsession' : ({ s with worker := rest } : Scene).system.sessions d = x := hsession
  have hfound : ({ s with worker := rest } : Scene).system.found d = some d := by
    rw [System.found, hsession', hthread, hid]
    exact hentry
  have hleaves := Scene.onSession_leaves { s with worker := rest } d hthread'
  rw [closeSession, htarget]
  dsimp only
  rw [hsession', hfound, hclose, hleaves, hid']

/-- The session whose first outstanding read has completed. -/
def readTaken (x : TCPSession MessageFilter) : TCPSession MessageFilter :=
  { x with socket := { x.socket with reads := x.socket.reads.eraseIdx 0 } }

/-- A read of a session of the worker completes. -/
theorem read_step (s : Scene) (c : Conn) (error : ErrorCode) (data : List UInt8) {op : ReadOp}
    {x : TCPSession MessageFilter} (hsession : s.sessions c = x)
    (hop : x.socket.reads[0]? = some op) (hallows : op.allows error data = true)
    (hthread : x.ioThread = 1) :
    step codec s.system (.readDone c 0 error data) =
      some ({ s with
        sessions := Function.update s.sessions c (readTaken x)
        worker := s.worker ++ [.on c (op.completion error data)] } : Scene).system := by
  have hsession' : s.system.sessions c = x := hsession
  unfold step
  dsimp only
  rw [hsession', hop]
  dsimp only
  rw [if_pos hallows]
  change some (System.post { s.system with
    sessions := Function.update s.system.sessions c (readTaken x) } (readTaken x).ioThread _) = _
  rw [show (readTaken x).ioThread = 1 from hthread]
  exact congrArg some (Scene.post_worker { s with
    sessions := Function.update s.sessions c (readTaken x) } _)

theorem handleRead_step (s : Scene) {c : Conn} {error : ErrorCode} {data : List UInt8}
    {rest : List (Job MessageFilter)} {x : TCPSession MessageFilter} {found : Option Conn}
    (hworker : s.worker = .on c (.handleRead error data) :: rest) (hsession : s.sessions c = x)
    (hthread : x.ioThread = 1) (hfound : s.entries.find x.sessionId = found)
    (first : TCPSessionID) :
    step codec s.system (.run 1 [] first (.new 0)) =
      some (({ s with worker := rest } : Scene).system.onSession c
        (x.handleRead codec 0 found error data)) := by
  rw [worker_step s hworker, exec]
  have hsession' : ({ s with worker := rest } : Scene).system.sessions c = x := hsession
  have hfound' : ({ s with worker := rest } : Scene).system.found c = found := by
    rw [System.found, hsession', hthread]
    exact hfound
  rw [hsession', hfound']
  rfl

theorem packMessageList_step (s : Scene) {c : Conn} {rest : List (Job MessageFilter)}
    {x : TCPSession MessageFilter} (hworker : s.worker = .on c .sessionPackMessageList :: rest)
    (hsession : s.sessions c = x) (first : TCPSessionID) :
    step codec s.system (.run 1 [] first (.new 0)) =
      some (({ s with worker := rest } : Scene).system.onSession c x.packMessageList) := by
  rw [worker_step s hworker, exec]
  have hsession' : ({ s with worker := rest } : Scene).system.sessions c = x := hsession
  rw [hsession']

/-! ## Connections that are closed at once -/

theorem step_trans {σ τ υ : System MessageFilter} {a : Act MessageFilter}
    (hrun : Transition.Reach (step codec) σ τ) (h : step codec τ a = some υ) :
    Transition.Reach (step codec) σ υ := .tail hrun trivial h

/-- Every connection so far has been closed, and its id is in the pool. -/
structure Idle (s : Scene) : Prop where
  main : s.main = []
  worker : s.worker = []
  entries : s.entries = ∅
  registered : s.registered = ∅
  load : s.load = 0
  accepting : s.accepting = true
  threshold : s.idGenerator.threshold = 4096
  accounts : s.idGenerator.Accounts (∅ : Table TCPSessionID Conn)
  pooled : s.idGenerator.pools.card = s.accepted
  sessions : ∀ c < s.accepted, ∃ id : TCPSessionID, id.toNat = c + 1 ∧ s.sessions c = left id c

theorem Idle.next {s : Scene} (h : Idle s) : s.idGenerator.next.toNat = s.accepted + 1 := by
  have heq := h.accounts.next_eq
  rw [h.pooled, Table.size_empty] at heq
  omega

theorem idle_start :
    ∃ s : Scene, s.system = start 2 0 (.new 0) ∧ Idle s ∧ s.accepted = 0 := by
  let s : Scene :=
    { accepted := 0
      sessions := fun _ => .new mainThread (.new 0) 0
      handlers := fun _ => .new
      main := []
      worker := []
      entries := ∅
      registered := ∅
      load := 0
      idGenerator := .new 1
      accepting := true }
  have htasks : queues [] [] = fun _ => [] := by
    funext t
    unfold queues
    split_ifs <;> rfl
  refine ⟨s, ?_, ⟨rfl, rfl, rfl, rfl, rfl, rfl, rfl, .new (by decide), rfl, fun c hc => ?_⟩, rfl⟩
  swap
  · exact absurd hc (Nat.not_lt_zero c)
  unfold Scene.system
  dsimp only [s]
  rw [htasks]
  unfold start
  congr 1
  funext t
  split_ifs <;> rfl

theorem get_of_few {s : Scene} (h : Idle s) (hfew : s.accepted < 4096) (first : TCPSessionID) :
    s.idGenerator.Offers first ∧ s.idGenerator.get first =
      some (s.idGenerator.next, { s.idGenerator with next := s.idGenerator.next + 1#32 }) := by
  have hroom : ¬ s.idGenerator.pools.card ≥ s.idGenerator.threshold := by
    rw [h.pooled, h.threshold]
    omega
  refine ⟨fun hfull => absurd hfull hroom, ?_⟩
  have hle : s.idGenerator.next ≤ s.idGenerator.max := by
    rw [h.accounts.max, BitVec.le_def, BitVec.toNat_allOnes]
    omega
  rw [IDGenerator.get, if_neg hroom, if_pos hle]

/-- The only id in use is put back. -/
theorem accounts_put {g : IDGenerator 32} {k : TCPSessionID} {v : Conn}
    (h : g.Accounts ((∅ : Table TCPSessionID Conn).add k v)) :
    (g.put k).Accounts (∅ : Table TCPSessionID Conn) := by
  have hnone : (∅ : Table TCPSessionID Conn).find k = none := Table.find_empty k
  have herased := h.put ((Table.find_add hnone).trans (if_pos rfl))
  rwa [Table.erase_add hnone] at herased

/-- A connection is accepted, closed from `on_connected`, and deregistered. -/
theorem Idle.cycle {s : Scene} (h : Idle s) (hfew : s.accepted < 4096) :
    ∃ s' : Scene, Transition.Reach (step codec) s.system s'.system ∧ Idle s' ∧
      s'.accepted = s.accepted + 1 := by
  obtain ⟨hoffers, hget⟩ := get_of_few h hfew 0
  have hnext := h.next
  have hid : s.idGenerator.next ≠ 0 := by
    intro hzero
    rw [hzero] at hnext
    exact absurd hnext (Nat.succ_ne_zero _).symm
  have hroom : (∅ : Table TCPSessionID Conn).size + s.idGenerator.threshold + 1 < 2 ^ 32 := by
    rw [h.threshold, Table.size_empty]
    decide
  obtain ⟨-, -, hacc⟩ := h.accounts.get hoffers hroom hget
  generalize hk : s.idGenerator.next = id at *
  generalize hg : ({ s.idGenerator with next := id + 1#32 } : IDGenerator 32) = generator at *
  have hentries : s.entries.find id = none := by
    rw [h.entries]
    exact Table.find_empty id
  have hregistered : s.registered.find id = none := by
    rw [h.registered]
    exact Table.find_empty id
  -- The acceptor reports a connection, whose session runs on the worker.
  let s₁ : Scene :=
    { s with accepting := false, main := s.main ++ [.handleAccept 1 (.new 0) .success] }
  -- `on_session_connected` runs, and `on_connected` closes the handler.
  let s₂ : Scene :=
    { ({ s₁ with main := [] } : Scene).connected id generator with
      handlers := Function.update s.handlers s.accepted (workerHandler id [.onConnected] [.close])
      worker := s.worker ++ [.on s.accepted (.init id), .on s.accepted (.closeSession id)]
      load := 1
      accepting := true }
  -- The worker runs `init`.
  let s₃ : Scene :=
    { s₂ with
      sessions := Function.update s₂.sessions s.accepted (opened id)
      worker := [.on s.accepted (.closeSession id)]
      entries := s₂.entries.add id s.accepted }
  -- The worker runs `CloseSession`: the session leaves its queue.
  let s₄ : Scene :=
    { s₃ with
      sessions := Function.update s₃.sessions s.accepted (left id s.accepted)
      main := s₃.main ++ [.on s.accepted (.onSessionClosed id)]
      worker := []
      entries := s₃.entries.erase id }
  -- The main thread runs `on_session_closed`, and the id goes back to the pool.
  let s₅ : Scene :=
    { s₄ with
      handlers := Function.update s₄.handlers s.accepted
        (workerHandler 0 [.onConnected, .onClosed s.accepted] [.close])
      main := []
      registered := s₄.registered.erase id
      load := 0
      idGenerator := generator.put id }
  have h₁ : step codec s.system (.acceptDone .success) = some s₁.system := accept_step s h.accepting
  have h₂ : step codec s₁.system (.run 0 [[(s.accepted, .close)]] 0 (.new 0)) = some s₂.system :=
    connect_step_close s₁ (congrArg (· ++ _) h.main) hoffers hget h.load hid
  have h₃ : step codec s₂.system (.run 1 [] 0 (.new 0)) = some s₃.system :=
    init_step s₂ (congrArg (· ++ _) h.worker) (Function.update_self ..) 0
  have h₄ : step codec s₃.system (.run 1 [] 0 (.new 0)) = some s₄.system :=
    close_step s₃ rfl ((Table.find_add hentries).trans (if_pos rfl)) (Function.update_self ..) rfl
      rfl rfl rfl rfl 0
  have h₅ : step codec s₄.system (.run 0 [] 0 (.new 0)) = some s₅.system :=
    closed_step s₄ rfl ((Table.find_add hregistered).trans (if_pos rfl)) (Function.update_self ..)
      rfl hid 0
  have hrun : Transition.Reach (step codec) s.system s₅.system :=
    step_trans (step_trans (step_trans (step_trans (step_trans (.refl _) h₁) h₂) h₃) h₄) h₅
  have hput := accounts_put (hacc s.accepted)
  refine ⟨s₅, hrun, ⟨rfl, rfl, ?_, ?_, rfl, rfl, ?_, hput, ?_, fun c hc => ?_⟩, rfl⟩
  · change (s.entries.add id s.accepted).erase id = ∅
    rw [Table.erase_add hentries, h.entries]
  · change (s.registered.add id s.accepted).erase id = ∅
    rw [Table.erase_add hregistered, h.registered]
  · exact (IDGenerator.get_threshold hget).trans h.threshold
  · have heq := hput.next_eq
    have hsucc : (generator.put id).next.toNat = s.accepted + 2 := by
      rw [← hg]
      change (id + 1#32).toNat = _
      rw [BitVec.toNat_add_of_lt (by rw [hnext]; change s.accepted + 1 + 1 < 2 ^ 32; omega), hnext]
      rfl
    rw [hsucc, Table.size_empty] at heq
    change (generator.put id).pools.card = s.accepted + 1
    omega
  · by_cases hlast : c = s.accepted
    · subst hlast
      exact ⟨id, hnext, Function.update_self ..⟩
    · obtain ⟨k, hk, hsession⟩ := h.sessions c (Nat.lt_of_le_of_ne (Nat.le_of_lt_succ hc) hlast)
      refine ⟨k, hk, ?_⟩
      change Function.update (Function.update (Function.update s.sessions _ _) _ _) _ _ c = _
      rw [Function.update_of_ne hlast, Function.update_of_ne hlast, Function.update_of_ne hlast,
        hsession]

theorem exists_idle (n : Nat) (hn : n ≤ 4096) :
    ∃ s : Scene, Transition.Reach (step codec) (start 2 0 (.new 0)) s.system ∧ Idle s ∧
      s.accepted = n := by
  -- By induction on the number of connections that have come and gone.
  induction n with
  | zero =>
      obtain ⟨s, hs, hidle, hzero⟩ := idle_start
      exact ⟨s, hs ▸ .refl _, hidle, hzero⟩
  | succ n ih =>
      obtain ⟨s, hrun, hidle, hcount⟩ := ih (by omega)
      obtain ⟨s', hcycle, hidle', hcount'⟩ := hidle.cycle (by omega)
      exact ⟨s', hrun.trans hcycle, hidle', by omega⟩

end Scene
end System
end EddyServer
