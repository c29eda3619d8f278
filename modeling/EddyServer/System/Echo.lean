import EddyServer.System.Application

/-!
# The echo server

`examples/echo`: a handler that sends back every message it is given, and the default filter. Every
client gets back what it has sent, byte for byte, and nothing of what another has sent.
-/

namespace EddyServer

open Framing MessageFilter
open NetMessage (Junk)

/-- The callbacks of `SessionHandle`. -/
def echo : Callback → List Call
  | .onMessage _ message => [.send message]
  | .onConnected | .onClosed _ => []

theorem sends_echo {cbs : List Callback} (h : ∀ m ∈ delivered cbs, m.empty = false) :
    sends (cbs.flatMap echo) = delivered cbs := by
  induction cbs with
  | nil => rfl
  | cons cb cbs ih =>
      cases cb with
      | onMessage source m =>
          have hm : m.empty = false := h m List.mem_cons_self
          have hrest := ih fun m' hmem => h m' (List.mem_cons_of_mem _ hmem)
          show (if m.empty then sends (cbs.flatMap echo) else m :: sends (cbs.flatMap echo)) = _
          rw [hm, hrest]
          rfl
      | onConnected => exact ih h
      | onClosed source => exact ih h

theorem close_not_mem_echo (cbs : List Callback) : .close ∉ cbs.flatMap echo := by
  intro hmem
  obtain ⟨cb, -, hcall⟩ := List.mem_flatMap.mp hmem
  cases cb with
  | onMessage source m => cases List.mem_singleton.mp hcall
  | _ => cases hcall

namespace Link

variable {host : ByteOrder} {junk : Junk}

/-- What holds of a connection of the echo server. -/
structure Echoes (host : ByteOrder) (junk : Junk) (ℓ : Link MessageFilter) : Prop where
  inbound : InboundOk ℓ
  receives : Receives (fun _ => True) ℓ
  transmits : Transmits (messageFilter host junk) ℓ
  sends : sends ℓ.handler.calls = delivered ℓ.handler.callbacks
  noClose : .close ∉ ℓ.handler.calls

/-- The handler has sent what it has been given, and no more. -/
theorem Echoes.of_run {conn : Conn} {threads : Nat} {ioThread : ThreadIx}
    {filter : MessageFilter} {keepAliveTime : Nat} {ℓ : Link MessageFilter}
    (hio : ioThread < threads) (hfilter : AtBoundary filter)
    (hrun : Transition.Run (Link.step (messageFilter host junk))
      (fun ℓ a => Follows echo ℓ a ∧ Encodable host ℓ a)
      (.start conn threads ioThread filter keepAliveTime) ℓ) : Echoes host junk ℓ := by
  have hinbound : InboundOk ℓ :=
    hrun.invariant (fun hi _ hstep => hi.step hstep) (.start hio conn filter keepAliveTime)
  have hreceives := Receives.of_run hio hfilter trivial
    (hrun.mono fun ℓ a _ => carries_true ℓ a)
  have hdecoded : ∀ m ∈ delivered ℓ.handler.callbacks, m.WF ∧ m.empty = false := fun m hm =>
    have hm := hreceives.decoded m (hinbound.inOrder.prefix_sent.subset hm)
    ⟨hm.1, hm.2.1⟩
  have hcalls : ℓ.handler.calls = ℓ.handler.callbacks.flatMap echo :=
    Replied.of_run hio (fun _ _ ha => ha.1) hrun
  have hsends : EddyServer.sends ℓ.handler.calls = delivered ℓ.handler.callbacks := by
    rw [hcalls]
    exact sends_echo fun m hm => (hdecoded m hm).2
  have hnoClose : .close ∉ ℓ.handler.calls := by
    rw [hcalls]
    exact close_not_mem_echo _
  have hsound : Sound ℓ :=
    ⟨fun _ => sentBeforeClose_of_no_close hnoClose, fun m hm => (hdecoded m (hsends ▸ hm)).1⟩
  exact ⟨hinbound, hreceives, .of_run hio (hrun.mono fun _ _ ha => ha.2) hsound, hsends, hnoClose⟩

theorem Echoes.wf {ℓ : Link MessageFilter} (h : Echoes host junk ℓ) :
    ∀ m ∈ EddyServer.sends ℓ.handler.calls, m.WF := by
  intro m hm
  rw [h.sends] at hm
  exact h.receives.wf m (h.inbound.inOrder.prefix_sent.subset hm)

/-- What goes back are frames of what has come in. -/
theorem Echoes.handed {ℓ : Link MessageFilter} (h : Echoes host junk ℓ) :
    ℓ.session.socket.handed <+: ℓ.session.trace.delivered := by
  have hseen : delivered ℓ.handler.callbacks <+: ℓ.session.trace.decoded :=
    h.inbound.inOrder.prefix_sent
  refine (h.transmits.handed h.wf).trans ?_
  rw [sentBeforeClose_of_no_close h.noClose, h.sends, h.receives.framed]
  exact (frames_front networkHeader (hseen.map _)).trans (frames_of_consumed _ _ _)

/-- All of it has gone back but a header that still waits for its body. -/
theorem Echoes.handed_of_rest {ℓ : Link MessageFilter} (h : Echoes host junk ℓ)
    (hrest : AtRest ℓ) (hopen : ℓ.session.closed = false) :
    ℓ.session.socket.handed ++ ℓ.session.msgFilter.heldHeader host = ℓ.session.trace.delivered := by
  rw [h.transmits.handed_of_rest h.wf h.inbound.lifecycle hrest hopen,
    sentBeforeClose_of_no_close h.noClose, h.sends, h.inbound.delivered_of_rest hrest hopen,
    heldHeader_eq, h.receives.framed]
  rfl

/-- The echo server has not asked for the close. -/
theorem Echoes.closedBy {ℓ : Link MessageFilter} (h : Echoes host junk ℓ) :
    ℓ.session.trace.closedBy ≠ some .closeSession := by
  intro hby
  obtain ⟨-, -, hclose⟩ := (h.transmits.ordered (.inr hby)).posted
  exact h.noClose (hclose (by rw [hby]; exact Option.some_ne_none _)).1

end Link

namespace System

variable {host : ByteOrder} {junk : Junk}

/-- A step of the echo server. -/
def EchoStep (host : ByteOrder) (σ : System MessageFilter) (a : Act MessageFilter) : Prop :=
  Follows echo σ a ∧ Framed host σ a

instance (σ : System MessageFilter) (a : Act MessageFilter) : Decidable (EchoStep host σ a) :=
  inferInstanceAs (Decidable (_ ∧ _))

theorem EchoStep.projects {F : MessageFilterInterface MessageFilter} {σ : System MessageFilter}
    {a : Act MessageFilter} {okL : Link MessageFilter → Link.Act → Prop}
    (hparted : Parted F okL AtBoundary σ) (h : EchoStep host σ a) :
    Projects (fun ℓ a => Link.Follows echo ℓ a ∧ Link.Encodable host ℓ a) AtBoundary σ a :=
  ⟨fun c hc => ⟨hparted.separate.follows h.1 hc, h.2.1.project c⟩,
    fun _ _ hid _ => ⟨⟨trivial, trivial⟩, follows_greeting h.1 hid, trivial⟩, h.2.2⟩

theorem echoes {threads : Nat} (hpos : 0 < threads) {keepAliveTime : Nat}
    {filter : MessageFilter} (hfilter : AtBoundary filter) {σ : System MessageFilter}
    (hrun : Transition.Run (System.step (messageFilter host junk))
      (fun σ a => DrawsApart σ a ∧ EchoStep host σ a)
      (System.start threads keepAliveTime filter) σ) {c : Conn} (hc : c < σ.accepted) :
    Link.Echoes host junk (σ.link c) := by
  obtain ⟨u, filter', ⟨hu, hboundary⟩, hlink⟩ :=
    (Parted.of_steps hpos hfilter EchoStep.projects hrun).lives c hc
  exact .of_run hu hboundary hlink

/-- Two clients, one of which sends the letter A and has it sent back. -/
def oneEcho : List (Act MessageFilter) :=
  [.acceptDone .success, .run 0 [[]] 0 (.new 0), .acceptDone .success, .run 0 [[]] 0 (.new 0),
    .run 1 [] 0 (.new 0), .run 1 [] 0 (.new 0), .readDone 0 0 .success [0, 1],
    .run 1 [] 0 (.new 0), .readDone 0 0 .success [65], .run 1 [] 0 (.new 0),
    .run 1 [] 0 (.new 0), .run 0 [[(0, .send (oneByteMessage 65))]] 0 (.new 0), .run 0 [] 0 (.new 0),
    .run 1 [] 0 (.new 0), .writeDone 0 .success, .run 1 [] 0 (.new 0)]

theorem run_oneEcho : ∃ σ, ran oneEcho = some σ ∧ 0 < σ.accepted ∧
    ((σ.sessions 0).closed = false ∧ (∀ job ∈ σ.tasks mainThread, job.taskOf 0 = none) ∧
      (∀ job ∈ σ.tasks (σ.sessions 0).ioThread, job.taskOf 0 = none) ∧
      (σ.sessions 0).bufferSending = []) ∧
    (σ.sessions 0).socket.handed = [0, 1, 65] ∧
    Transition.Run (System.step (messageFilter .little .zeros))
      (fun σ a => DrawsApart σ a ∧ EchoStep .little σ a) (start 2 0 (.new 0)) σ := by
  obtain ⟨σ, hσ, hview⟩ := Option.map_eq_some_iff.mp (show
    (ran oneEcho).map (fun σ => ((σ.accepted, (σ.tasks mainThread).length,
      (σ.tasks (σ.sessions 0).ioThread).length), (σ.sessions 0).closed,
      (σ.sessions 0).bufferSending, (σ.sessions 0).socket.handed)) =
        some ((2, 0, 0), false, [], [0, 1, 65]) by decide +kernel)
  simp only [Prod.mk.injEq, List.length_eq_zero_iff] at hview
  obtain ⟨⟨haccepted, hmain, hio⟩, hopen, hidle, hhanded⟩ := hview
  have hyoung : Transition.Run (System.step (messageFilter .little .zeros))
      (fun σ a => Young σ a ∧ EchoStep .little σ a) (start 2 0 (.new 0)) σ :=
    Transition.run_of_exec hσ (by decide +kernel)
  refine ⟨σ, hσ, haccepted ▸ Nat.two_pos, ⟨hopen, ?_, ?_, hidle⟩, hhanded,
    drawsApart_of_young Nat.two_pos (atBoundary_new 0) EchoStep.projects hyoung⟩
  · rw [hmain]
    exact fun _ hjob => absurd hjob List.not_mem_nil
  · rw [hio]
    exact fun _ hjob => absurd hjob List.not_mem_nil

/-- **Nothing is kept back.** When no job of an open connection is queued and nothing is being sent,
all the bytes of its client have gone back, but for a header whose body has not come yet. -/
theorem echo_returns_all {threads : Nat} (hpos : 0 < threads) {keepAliveTime : Nat}
    {filter : MessageFilter} (hfilter : AtBoundary filter) {σ : System MessageFilter}
    (hrun : Transition.Run (System.step (messageFilter host junk))
      (fun σ a => DrawsApart σ a ∧ EchoStep host σ a)
      (System.start threads keepAliveTime filter) σ) {c : Conn} (hc : c < σ.accepted)
    (hopen : (σ.sessions c).closed = false)
    (hmain : ∀ job ∈ σ.tasks mainThread, job.taskOf c = none)
    (hio : ∀ job ∈ σ.tasks (σ.sessions c).ioThread, job.taskOf c = none)
    (hidle : (σ.sessions c).bufferSending = []) :
    (σ.sessions c).socket.handed ++ (σ.sessions c).msgFilter.heldHeader host =
      (σ.sessions c).trace.delivered := by
  have h := echoes hpos hfilter hrun hc
  exact h.handed_of_rest ⟨h.inbound.lifecycle.drained (List.filterMap_eq_nil_iff.mpr hmain)
    (List.filterMap_eq_nil_iff.mpr hio), hidle⟩ hopen

/-- They are all that it has sent. -/
theorem echo_returns_all_one : ∃ σ, ran oneEcho = some σ ∧
    (σ.sessions 0).socket.handed ++ (σ.sessions 0).msgFilter.heldHeader .little =
      (σ.sessions 0).trace.delivered := by
  obtain ⟨σ, hσ, hfirst, ⟨hopen, hmain, hio, hidle⟩, -, hrun⟩ := run_oneEcho
  exact ⟨σ, hσ, echo_returns_all Nat.two_pos (atBoundary_new 0) hrun hfirst hopen hmain hio hidle⟩

end System
end EddyServer
