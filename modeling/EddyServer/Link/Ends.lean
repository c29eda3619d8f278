import EddyServer.Link.Transport

/-!
# The two ends of a connection

The session that the server has accepted and the session of its client run the same code: each end
is a link, on a machine with a byte order of its own. Of the network it is only known that it brings
to one end, in order, what the other has handed to its socket.
-/

namespace EddyServer
namespace Link

open Framing MessageFilter
open NetMessage (Junk)

inductive Side
  | near
  | far
  deriving DecidableEq

def Side.other : Side → Side
  | .near => .far
  | .far => .near

theorem Side.eq_other {s t : Side} (h : t ≠ s) : t = s.other := by
  cases s <;> cases t <;> first | rfl | exact absurd rfl h

theorem Side.other_ne (s : Side) : s.other ≠ s := by cases s <;> decide

@[simp] theorem Side.other_other (s : Side) : s.other.other = s := by cases s <;> rfl

/-- What an end is constructed with: its thread is one of its manager's, and its filter expects a
header. -/
structure Setting where
  conn : Conn
  threads : Nat
  ioThread : ThreadIx
  filter : MessageFilter
  keepAliveTime : Nat
  ioThread_lt : ioThread < threads
  atBoundary : AtBoundary filter

def Setting.start (c : Setting) : Link MessageFilter :=
  .start c.conn c.threads c.ioThread c.filter c.keepAliveTime

abbrev Ends := Side → Link MessageFilter

namespace Ends

variable (host : Side → ByteOrder) (junk : Side → Junk) {settings : Side → Setting}

/-- One of the ends takes a step. -/
def step (ε : Ends) (a : Side × Act) : Option Ends :=
  (Link.step (messageFilter (host a.1) (junk a.1)) (ε a.1) a.2).map (Function.update ε a.1)

/-- A read brings what the other end has handed over next, and no batch is too long for an `int`. -/
def Network (ε : Ends) (a : Side × Act) : Prop :=
  Carries (· <+: (ε a.1.other).session.socket.handed) (ε a.1) a.2 ∧
    Encodable (host a.1) (ε a.1) a.2

instance (ε : Ends) (a : Side × Act) : Decidable (Network host ε a) :=
  inferInstanceAs (Decidable (_ ∧ _))

variable {host junk}

theorem step_cases {ε ε' : Ends} {a : Side × Act} (h : step host junk ε a = some ε') :
    ∃ ℓ, Link.step (messageFilter (host a.1) (junk a.1)) (ε a.1) a.2 = some ℓ ∧
      ε' a.1 = ℓ ∧ ε' a.1.other = ε a.1.other := by
  obtain ⟨ℓ, hℓ, rfl⟩ := Option.map_eq_some_iff.mp h
  exact ⟨ℓ, hℓ, Function.update_self .., Function.update_of_ne a.1.other_ne ..⟩

/-- What one end does is a run of a link. -/
theorem run_side {ε ε' : Ends} (hrun : Transition.Run (step host junk) (Network host) ε ε')
    (s : Side) :
    Transition.Run (Link.step (messageFilter (host s) (junk s))) (Encodable (host s))
      (ε s) (ε' s) := by
  obtain ⟨ℓ, hlink, rfl⟩ : ∃ ℓ, Transition.Run (Link.step (messageFilter (host s) (junk s)))
      (Encodable (host s)) (ε s) ℓ ∧ ℓ = ε' s := by
    refine hrun.simulate (R := fun ε ℓ => ℓ = ε s) rfl ?_
    rintro ε ⟨t, a⟩ ε' ℓ rfl hok hstep
    obtain ⟨ℓ', hℓ, hself, hother⟩ := step_cases hstep
    by_cases hs : t = s
    · subst hs
      exact ⟨ℓ', .tail (.refl _) hok.2 hℓ, hself.symm⟩
    · obtain rfl := Side.eq_other hs
      rw [Side.other_other] at hother
      exact ⟨ε s, .refl _, hother.symm⟩
  exact hlink

/-- What holds of both ends in every run. -/
structure Connected (host : Side → ByteOrder) (junk : Side → Junk) (settings : Side → Setting)
    (ε : Ends) : Prop where
  accompanied : ∀ s, Accompanied (messageFilter (host s) (junk s))
    (Solo.Carries (· <+: (ε s.other).session.socket.handed)) (settings s).conn
    (settings s).ioThread (settings s).filter (settings s).keepAliveTime (ε s)
  inbound : ∀ s, InboundOk (ε s)

theorem Connected.start : Connected host junk settings fun s => (settings s).start where
  accompanied s := .start _ _ (settings s).ioThread_lt
  inbound s := .start (settings s).ioThread_lt _ _ _

theorem Connected.step {ε ε' : Ends} {a : Side × Act} (h : Connected host junk settings ε)
    (hok : Network host ε a) (hstep : step host junk ε a = some ε') :
    Connected host junk settings ε' := by
  obtain ⟨s, a⟩ := a
  obtain ⟨ℓ, hℓ, hself, hother⟩ := step_cases hstep
  dsimp only at hℓ hself hother
  have hlife := (h.inbound s).lifecycle
  have hhanded : (ε s).session.socket.handed <+: (ε' s).session.socket.handed := by
    rw [hself]
    exact ((hlife.cases hℓ).session hlife).handed
  constructor
  · intro t
    by_cases ht : t = s
    · subst ht
      rw [hself, hother]
      refine (h.accompanied t).step (fun {σ b} halone hmirrors => ?_) hℓ
      rintro i data rfl
      obtain rfl : a = .readDone i .success data := hmirrors
      rw [halone.session]
      exact hok.1
    · -- more may be on its way to the other end than before
      obtain rfl := Side.eq_other ht
      have hacc := h.accompanied s.other
      rw [Side.other_other] at hacc ⊢
      rw [hother]
      refine hacc.mono fun σ b hcarries i data hb op hop hh => ?_
      exact (hcarries i data hb op hop hh).imp_right fun hfront => hfront.trans hhanded
  · intro t
    by_cases ht : t = s
    · subst ht
      rw [hself]
      exact (h.inbound t).step hℓ
    · obtain rfl := Side.eq_other ht
      rw [hother]
      exact h.inbound s.other

theorem Connected.of_run (settings : Side → Setting) {ε : Ends}
    (hrun : Transition.Run (Ends.step host junk) (Network host) (fun s => (settings s).start) ε) :
    Connected host junk settings ε :=
  hrun.invariant (fun h hok hstep => h.step hok hstep) .start

/-- What has been delivered to one end is the front part of what the other has handed over. -/
theorem Connected.receives {ε : Ends} (h : Connected host junk settings ε) (s : Side) :
    Receives (· <+: (ε s.other).session.socket.handed) (ε s) :=
  (h.accompanied s).receives (settings s).atBoundary List.nil_prefix

/-- The bodies that an end sends fit their headers, and none is empty. -/
theorem bodies_of_sends {ℓ : Link MessageFilter} (hwf : ∀ m ∈ sends ℓ.handler.calls, m.WF)
    (hshort : ∀ m ∈ sends ℓ.handler.calls, m.readable ≤ 65535) :
    ∀ b ∈ (sentBeforeClose ℓ.handler.calls).map NetMessage.content,
      b ≠ [] ∧ b.length < networkHeader.bound := by
  intro b hb
  obtain ⟨m, hm, rfl⟩ := List.mem_map.mp hb
  have hsends := (sentBeforeClose_isFront _).subset hm
  have hlen := (hwf m hsends).length_content
  refine ⟨List.ne_nil_of_length_pos ?_, ?_⟩
  · have hempty := not_empty_of_sends hsends
    rw [NetMessage.empty, beq_eq_false_iff_ne] at hempty
    omega
  · rw [hlen]
    exact Nat.lt_succ_of_le (hshort m hsends)

/-! ## A run -/

/-- A machine of either byte order. -/
def twoMachines : Side → ByteOrder
  | .near => .little
  | .far => .big

def worker : Setting := ⟨0, 2, 1, .new 0, 0, by decide, atBoundary_new 0⟩

def ranEnds (labels : List (Side × Act)) : Option Ends :=
  Transition.exec (Ends.step twoMachines fun _ => .zeros) (fun _ => worker.start) labels

/-- One end sends a message of one byte, and the other receives it. -/
def oneMessage : List (Side × Act) :=
  [(.near, .connect 1 [.send (oneByteMessage 65)]), (.near, .run 1 []), (.near, .run 0 []),
    (.near, .run 1 []), (.near, .writeDone .success), (.near, .run 1 []),
    (.far, .connect 1 []), (.far, .run 1 []), (.far, .readDone 0 .success [0, 1]),
    (.far, .run 1 []), (.far, .readDone 0 .success [65]), (.far, .run 1 []), (.far, .run 1 []),
    (.far, .run 0 [])]

/-- What a run has left of an end. -/
structure Remains where
  calls : List Call
  closed : Bool
  ioThread : ThreadIx
  mainQueue : List Task
  ioQueue : List Task
  bufferSending : List UInt8
  delivered : List UInt8
  handed : List UInt8
  deriving DecidableEq

def remains (ℓ : Link MessageFilter) : Remains :=
  { calls := ℓ.handler.calls
    closed := ℓ.session.closed
    ioThread := ℓ.session.ioThread
    mainQueue := ℓ.tasks mainThread
    ioQueue := ℓ.tasks ℓ.session.ioThread
    bufferSending := ℓ.session.bufferSending
    delivered := ℓ.session.trace.delivered
    handed := ℓ.session.socket.handed }

/-- An open end with nothing left to do. -/
structure Remained (ℓ : Link MessageFilter) (calls : List Call) (delivered handed : List UInt8) :
    Prop where
  calls : ℓ.handler.calls = calls
  ioThread : ℓ.session.ioThread = 1
  isOpen : ℓ.session.closed = false
  atRest : AtRest ℓ
  delivered : ℓ.session.trace.delivered = delivered
  handed : ℓ.session.socket.handed = handed

theorem remained {ℓ : Link MessageFilter} (hlife : Lifecycle ℓ) {calls : List Call}
    {delivered handed : List UInt8} (h : remains ℓ = ⟨calls, false, 1, [], [], [], delivered, handed⟩) :
    Remained ℓ calls delivered handed := by
  obtain ⟨hcalls, hopen, hio, hmain, hthread, hidle, hdelivered, hhanded⟩ := Remains.mk.inj h
  exact ⟨hcalls, hio, hopen, ⟨hlife.drained hmain hthread, hidle⟩, hdelivered, hhanded⟩

theorem run_oneMessage : ∃ ε, ranEnds oneMessage = some ε ∧
    Transition.Run (Ends.step twoMachines fun _ => .zeros) (Network twoMachines)
      (fun _ => worker.start) ε ∧
    Remained (ε .near) [.send (oneByteMessage 65)] [] [0, 1, 65] ∧
    Remained (ε .far) [] [0, 1, 65] [] := by
  obtain ⟨ε, hε, hview⟩ := Option.map_eq_some_iff.mp (show
    (ranEnds oneMessage).map (fun ε => (remains (ε .near), remains (ε .far))) =
      some (⟨[.send (oneByteMessage 65)], false, 1, [], [], [], [], [0, 1, 65]⟩,
        ⟨[], false, 1, [], [], [], [0, 1, 65], []⟩) by decide +kernel)
  obtain ⟨hnear, hfar⟩ := Prod.mk.inj hview
  have hrun : Transition.Run (Ends.step twoMachines fun _ => .zeros) (Network twoMachines)
      (fun _ => worker.start) ε := Transition.run_of_exec hε (by decide +kernel)
  have hlife := fun s => ((Connected.of_run (fun _ => worker) hrun).inbound s).lifecycle
  exact ⟨ε, hε, hrun, remained (hlife .near) hnear, remained (hlife .far) hfar⟩

theorem sound_of_oneMessage {ℓ : Link MessageFilter}
    (hcalls : ℓ.handler.calls = [.send (oneByteMessage 65)]) (hio : ℓ.session.ioThread = 1) :
    Sound ℓ ∧ ∀ m ∈ sends ℓ.handler.calls, m.readable ≤ 65535 := by
  refine ⟨⟨fun hmain => ?_, ?_⟩, ?_⟩
  · rw [hio] at hmain
    cases hmain
  · rw [hcalls]
    decide +kernel
  · rw [hcalls]
    decide +kernel

/-! ## What the ends exchange -/

/-- **What one end sends is what the other end sees.** In every run of two ends whatever their byte
orders, their threads and the interleaving, whoever closes and whatever the network has not brought
yet: the contents of the messages that the handler of one end has been given are the first of those
that the handler of the other has sent before its first `close`, each once and in order. -/
theorem messages_arrive_in_order (settings : Side → Setting) {ε : Ends}
    (hrun : Transition.Run (Ends.step host junk) (Network host) (fun s => (settings s).start) ε)
    (s : Side) (hsound : Sound (ε s))
    (hshort : ∀ m ∈ sends (ε s).handler.calls, m.readable ≤ 65535) :
    (delivered (ε s.other).handler.callbacks).map NetMessage.content <+:
      (sentBeforeClose (ε s).handler.calls).map NetMessage.content := by
  have hconnected := Connected.of_run settings hrun
  have htransmits := Transmits.of_run (settings s).ioThread_lt (run_side hrun s) hsound
  have hreceives := hconnected.receives s.other
  rw [Side.other_other] at hreceives
  exact hreceives.prefix_of_sent (hconnected.inbound s.other)
    (fun b hb => (bodies_of_sends hsound.wf hshort b hb).2)
    (hreceives.carried.trans (htransmits.handed hsound.wf))

/-- The far end has seen what the near end has sent. -/
theorem messages_arrive_in_order_one : ∃ ε, ranEnds oneMessage = some ε ∧
    (delivered (ε .far).handler.callbacks).map NetMessage.content <+:
      (sentBeforeClose (ε .near).handler.calls).map NetMessage.content := by
  obtain ⟨ε, hε, hrun, hnear, -⟩ := run_oneMessage
  obtain ⟨hsound, hshort⟩ := sound_of_oneMessage hnear.calls hnear.ioThread
  exact ⟨ε, hε, messages_arrive_in_order (fun _ => worker) hrun .near hsound hshort⟩

/-- **Nothing is missing at rest.** When both ends are open and at rest and the network has brought
all that one of them has handed over, the other has seen all that it has sent. -/
theorem messages_arrive (settings : Side → Setting) {ε : Ends}
    (hrun : Transition.Run (Ends.step host junk) (Network host) (fun s => (settings s).start) ε)
    (s : Side) (hsound : Sound (ε s))
    (hshort : ∀ m ∈ sends (ε s).handler.calls, m.readable ≤ 65535)
    (hopen : ∀ t, (ε t).session.closed = false) (hrest : ∀ t, AtRest (ε t))
    (hnetwork : (ε s.other).session.trace.delivered = (ε s).session.socket.handed) :
    (delivered (ε s.other).handler.callbacks).map NetMessage.content =
      (sentBeforeClose (ε s).handler.calls).map NetMessage.content := by
  have hconnected := Connected.of_run settings hrun
  have htransmits := Transmits.of_run (settings s).ioThread_lt (run_side hrun s) hsound
  have hreceives := hconnected.receives s.other
  rw [htransmits.handed_of_rest hsound.wf (hconnected.inbound s).lifecycle (hrest s) (hopen s),
    hreceives.framed] at hnetwork
  obtain ⟨-, hparsed⟩ := eq_of_consumed_frames networkHeader Nat.two_pos
    (fun b hb => (hreceives.short b hb).2) (bodies_of_sends hsound.wf hshort) hnetwork
  rw [(hconnected.inbound s.other).delivered_of_rest (hrest s.other) (hopen s.other)]
  exact hparsed

/-- The far end has seen the one message, and no more. -/
theorem messages_arrive_one : ∃ ε, ranEnds oneMessage = some ε ∧
    (delivered (ε .far).handler.callbacks).map NetMessage.content =
      (sentBeforeClose (ε .near).handler.calls).map NetMessage.content := by
  obtain ⟨ε, hε, hrun, hnear, hfar⟩ := run_oneMessage
  obtain ⟨hsound, hshort⟩ := sound_of_oneMessage hnear.calls hnear.ioThread
  refine ⟨ε, hε, messages_arrive (fun _ => worker) hrun .near hsound hshort
    (fun s => ?_) (fun s => ?_) (hfar.delivered.trans hnear.handed.symm)⟩
  · cases s with
    | near => exact hnear.isOpen
    | far => exact hfar.isOpen
  · cases s with
    | near => exact hnear.atRest
    | far => exact hfar.atRest

end Ends

end Link
end EddyServer
