import EddyServer.System.Ledger
import EddyServer.System.Transport

/-!
# Assertions

The assertions of `tcp_session.cpp`, `io_service_thread_manager.cpp`, `tcp_server.cpp` and
`IDGenerator::put`, as conditions on the state in which a job is taken from its queue. With the
default filter none of them fails, except for the one in `handle_accept` that says that no
`async_accept` ever reports an error.
-/

namespace EddyServer

open MessageFilter
open NetMessage (Junk)

variable {Φ : Type}

namespace TCPSession

/-- The counter is not negative after the decrement, and `read` takes all that has been read. -/
def HandleReadAsserts (F : MessageFilterInterface Φ) (s : TCPSession Φ) (error : ErrorCode)
    (data : List UInt8) : Prop :=
  0 ≤ s.numReadHandlers - 1 ∧
    (error = .success → s.closed = false →
      (F.read s.msgFilter (overwrite s.bufferReceiving 0 data) s.messagesReceived).bytes =
        data.length)

def HanldeWriteAsserts (s : TCPSession Φ) : Prop := 0 ≤ s.numWriteHandlers - 1

end TCPSession

namespace System

variable {host : ByteOrder} {junk : Junk}

/-- `tid > 0 && tid <= thread_load_.size()`. -/
def IsThread (σ : System Φ) (tid : IOThreadID) : Prop := 0 < tid ∧ tid ≤ σ.threadLoad.length

/-- The assertions on the way of a job. The callbacks that a job runs before it comes to one change
neither the loads nor the pool. -/
def Asserts (F : MessageFilterInterface Φ) (σ : System Φ) : Job Φ → Prop
  | .on _ (.init id) => id ≠ 0
  | .on c (.handleRead error data) => (σ.sessions c).HandleReadAsserts F error data
  | .on c (.hanldeWrite _) => (σ.sessions c).HanldeWriteAsserts
  | .on _ (.onSessionClosed id) =>
    (id ≠ 0 ∧ ∀ h, σ.getSessionHandler id = some h → σ.IsThread (σ.handlers h).threadId ∧
      0 < σ.threadLoad.getD ((σ.handlers h).threadId - 1) 0) ∧ id ∉ σ.idGenerator.pools
  | .handleAccept u _ .success => σ.IsThread (threadId u)
  | .handleAccept .. => False
  | _ => True

/-! ## Sessions -/

section
variable {okL : Link MessageFilter → Link.Act → Prop} {σ : System MessageFilter} {t : ThreadIx}
  {c : Conn} {rest : List (Job MessageFilter)}

theorem Parted.handleRead_asserts (h : Parted (messageFilter host junk) okL AtBoundary σ)
    {error : ErrorCode} {data : List UInt8}
    (ht : σ.tasks t = .on c (.handleRead error data) :: rest) :
    (σ.sessions c).HandleReadAsserts (messageFilter host junk) error data := by
  have hmem : .on c (.handleRead error data) ∈ σ.tasks t := by rw [ht]; exact List.mem_cons_self
  have hio : t = (σ.sessions c).ioThread := h.separate.owned.home t c _ hmem (.inl rfl)
  have hlink : .handleRead error data ∈ (σ.link c).tasks (σ.link c).session.ioThread := by
    rw [show (σ.link c).session.ioThread = t from hio.symm]
    exact List.mem_of_mem_head? (head_link ht)
  obtain ⟨u, filter, ⟨hu, hboundary⟩, hrun⟩ := h.lives c (h.separate.known.job t c _ hmem)
  have hinbound : Link.InboundOk (σ.link c) :=
    hrun.invariant (fun hi _ hstep => hi.step hstep) (.start hu c filter σ.keepAliveTime)
  refine ⟨?_, ?_⟩
  · have hcounted : (σ.sessions c).numReadHandlers =
        ((σ.link c).session.outstandingReads + (σ.link c).queuedReads : Nat) := by
      exact_mod_cast hinbound.oneRead.counted
    have hqueued : 0 < (σ.link c).queuedReads := List.countP_pos_iff.mpr ⟨_, hlink, rfl⟩
    omega
  · rintro rfl hopen
    have hreceives := Link.Receives.of_run hu hboundary trivial
      (hrun.mono fun ℓ a _ => Link.carries_true ℓ a)
    have hlen : data.length = (σ.sessions c).msgFilter.bytesWannaRead :=
      hreceives.queued hopen data hlink
    have hbuffer : overwrite (σ.sessions c).bufferReceiving 0 data =
        data ++ (σ.sessions c).bufferReceiving.drop data.length := by simp [overwrite]
    show ((σ.sessions c).msgFilter.read host junk _).bytes = data.length
    rw [hbuffer, MessageFilter.read_append host junk hlen, hlen]
    exact (MessageFilter.read_spec host junk hlen).1

end

section
variable {F : MessageFilterInterface Φ} {okL : Link Φ → Link.Act → Prop} {okF : Φ → Prop}
  {σ : System Φ} {t : ThreadIx} {c : Conn} {rest : List (Job Φ)}

theorem Separate.hanldeWrite_asserts (h : Separate σ) {error : ErrorCode}
    (ht : σ.tasks t = .on c (.hanldeWrite error) :: rest) :
    (σ.sessions c).HanldeWriteAsserts := by
  have hmem : .on c (.hanldeWrite error) ∈ σ.tasks t := by rw [ht]; exact List.mem_cons_self
  have hio : t = (σ.sessions c).ioThread := h.owned.home t c _ hmem (.inr rfl)
  have hcounted := h.owned.counted c
  have hqueued : 0 < (σ.tasks (σ.sessions c).ioThread).countP (Job.writeBy c) := by
    refine List.countP_pos_iff.mpr ⟨_, hio ▸ hmem, ?_⟩
    simp [Job.writeBy, Task.isWrite]
  unfold writesOf at hcounted
  unfold TCPSession.HanldeWriteAsserts
  omega

/-! ## The manager -/

/-- A handler that is registered counts on its thread. -/
theorem Ledger.load_pos (hl : Ledger σ) (h : Parted F okL okF σ) {id : TCPSessionID}
    (hid : σ.getSessionHandler id = some c) : σ.IsThread (σ.handlers c).threadId ∧
      0 < σ.threadLoad.getD ((σ.handlers c).threadId - 1) 0 := by
  have hc : c < σ.accepted := h.separate.registry.mapped id c hid
  have hthread : (σ.sessions c).ioThread < σ.threads := (h.lives c hc).toLifecycle.ioThread_lt
  have hload := hl.load _ hthread
  have hpos : 0 < σ.registered (σ.sessions c).ioThread := by
    refine List.countP_pos_iff.mpr ⟨c, Table.mem_values.mpr ⟨id, hid⟩, ?_⟩
    rw [h.threadId hc]
    exact decide_eq_true rfl
  rw [h.threadId hc, IsThread, hl.length]
  refine ⟨⟨Nat.succ_pos _, hthread⟩, ?_⟩
  rw [show threadId (σ.sessions c).ioThread - 1 = (σ.sessions c).ioThread from
    Nat.add_sub_cancel .., List.getD_eq_getElem?_getD, hload]
  exact hpos

theorem Ledger.onSessionClosed_asserts (hl : Ledger σ) (h : Parted F okL okF σ)
    {id : TCPSessionID} (ht : σ.tasks t = .on c (.onSessionClosed id) :: rest) :
    Asserts F σ (.on c (.onSessionClosed id)) := by
  have hown : σ.getSessionHandler id = some c :=
    h.separate.owned.closing t c id (by rw [ht]; exact List.mem_cons_self)
  exact ⟨⟨(h.separate.handler_id hown).1, fun d hd => hl.load_pos h hd⟩,
    (hl.pooled.accounts.used id c hown).2.2⟩

theorem Placed.handleAccept_asserts (h : Placed okF σ) {u : ThreadIx} {filter : Φ}
    {error : ErrorCode} (ht : σ.tasks t = .handleAccept u filter error :: rest) :
    σ.IsThread (threadId u) := by
  have hu := (h.queued t u filter error (by rw [ht]; exact List.mem_cons_self)).1
  rw [IsThread, h.length]
  exact ⟨Nat.succ_pos u, hu⟩

end

/-- **No assertion fails**, whatever the peers send and the handlers do, in a run that draws ids
apart and never accepts a connection when 2³¹ are open, but for the one that `handle_accept` fails
exactly when `async_accept` has reported an error. -/
theorem asserts_hold_iff {threads : Nat} (hpos : 0 < threads) {keepAliveTime : Nat}
    {filter : MessageFilter} (hfilter : AtBoundary filter) {σ : System MessageFilter}
    (hrun : Transition.Run (System.step (messageFilter host junk))
      (fun σ a => (DrawsApart σ a ∧ Spares σ a) ∧ Offers AtBoundary a)
      (System.start threads keepAliveTime filter) σ)
    {t : ThreadIx} {job : Job MessageFilter} {rest : List (Job MessageFilter)}
    (ht : σ.tasks t = job :: rest) :
    Asserts (messageFilter host junk) σ job ↔
      ∀ u filter' error, job = .handleAccept u filter' error → error = .success := by
  obtain ⟨hledger, hparted⟩ := Ledger.of_run hpos hfilter
    (fun {τ a} ha => projects_anything τ ha) hrun
  cases job with
  | handleAccept u filter' error =>
      have hthread := hparted.placed.handleAccept_asserts ht
      cases error with
      | success => exact iff_of_true hthread (by rintro _ _ _ ⟨⟩; rfl)
      | _ => exact iff_of_false id fun hall => nomatch hall _ _ _ rfl
  | on c task =>
      refine iff_of_true ?_ nofun
      cases task with
      | init id =>
          have hopening := hparted.separate.registry.opening t c id
            (by rw [ht]; exact List.mem_cons_self)
          exact (hparted.separate.handler_id hopening.1).1
      | handleRead error data => exact hparted.handleRead_asserts ht
      | hanldeWrite error => exact hparted.separate.hanldeWrite_asserts ht
      | onSessionClosed id => exact hledger.onSessionClosed_asserts hparted ht
      | _ => trivial

/-- The assertions of `on_session_closed` hold when the peer of connection 0 has closed it. -/
theorem asserts_hold_iff_closed : ∃ σ job rest,
    ran (twoConnections ++ [.readDone 0 0 .eof [], .run 1 [] 0 (.new 0)]) = some σ ∧
    (σ.tasks mainThread = job :: rest ∧ job.closes = true) ∧
    (Asserts (messageFilter .little .zeros) σ job ↔
      ∀ u filter' error, job = .handleAccept u filter' error → error = .success) := by
  obtain ⟨σ, hσ, hview⟩ := Option.map_eq_some_iff.mp (show
    (ran (twoConnections ++ [.readDone 0 0 .eof [], .run 1 [] 0 (.new 0)])).map
      (fun σ => (σ.tasks mainThread).map Job.closes) = some [true] by decide +kernel)
  obtain ⟨job, rest, ht, hcloses, -⟩ := List.map_eq_cons_iff.mp hview
  have hyoung : Transition.Run (System.step (messageFilter .little .zeros))
      (fun σ a => Young σ a ∧ (Spares σ a ∧ Offers AtBoundary a)) (start 2 0 (.new 0)) σ :=
    Transition.run_of_exec hσ (by decide +kernel)
  have hrun := drawsApart_of_young Nat.two_pos (atBoundary_new 0)
    (fun {τ a} _ ha => projects_anything τ ha.2) hyoung
  exact ⟨σ, job, rest, hσ, ⟨ht, hcloses⟩, asserts_hold_iff Nat.two_pos (atBoundary_new 0)
    (hrun.mono fun _ _ ha => ⟨⟨ha.1, ha.2.1⟩, ha.2.2⟩) ht⟩

end System
end EddyServer
