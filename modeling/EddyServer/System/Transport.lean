import EddyServer.Link.Transport
import EddyServer.MessageFilter.Stream
import EddyServer.System.Connections

/-!
# What the connections of a server carry

With the default filter, whatever the peers send and whatever else happens to the server: every
connection cuts what its own peer has sent into messages and gives them to its own handler, and
hands the frames of what its own handler has sent to its own socket.
-/

namespace EddyServer
namespace System

open Framing MessageFilter
open NetMessage (Junk)

variable {Φ : Type} {host : ByteOrder} {junk : Junk}

/-- What a job passes to `post_message_list`. -/
def batch (σ : System Φ) : Job Φ → List NetMessage
  | .on c task => (σ.link c).batch task
  | .handleAccept .. => []

/-- The encoding of the batch that the step passes to a session is shorter than 2³¹ bytes. -/
def Encodable (host : ByteOrder) (σ : System Φ) : Act Φ → Prop
  | .run t _ _ _ => ∀ job ∈ (σ.tasks t).head?, (encode host (σ.batch job)).length < 2 ^ 31
  | _ => True

instance (host : ByteOrder) (σ : System Φ) : (a : Act Φ) → Decidable (Encodable host σ a)
  | .run t _ _ _ => inferInstanceAs (Decidable
      (∀ job ∈ (σ.tasks t).head?, (encode host (σ.batch job)).length < 2 ^ 31))
  | .acceptDone _ | .readDone .. | .writeDone .. | .timerDone _ | .keepAlive .. | .logic _
  | .tick _ => isTrue trivial

theorem eq_of_taskOf {job : Job Φ} {c : Conn} {task : Task} (h : job.taskOf c = some task) :
    job = .on c task := by
  cases job with
  | on d task' =>
      unfold Job.taskOf at h
      dsimp only at h
      split_ifs at h with hd
      cases h
      rw [hd]
  | handleAccept => cases h

/-- The next job of a thread, if it is one of connection `c`, is the next task of link `c`. -/
theorem head_link {σ : System Φ} {t : ThreadIx} {c : Conn} {task : Task} {rest : List (Job Φ)}
    (ht : σ.tasks t = .on c task :: rest) : ((σ.link c).tasks t).head? = some task := by
  simp [link, ht, Job.taskOf]

theorem Encodable.project {σ : System Φ} {a : Act Φ} (h : Encodable host σ a) (c : Conn) :
    Link.Encodable host (σ.link c) (σ.project c a) := by
  cases a with
  | run t scripts first filter =>
      unfold System.project
      dsimp only
      cases ht : σ.tasks t with
      | nil => trivial
      | cons job rest =>
          dsimp only
          cases htask : job.taskOf c with
          | none => trivial
          | some task =>
              obtain rfl := eq_of_taskOf htask
              intro task' htask'
              rw [head_link ht] at htask'
              obtain rfl := Option.some.inj htask'
              exact h (.on c task) (by rw [ht]; rfl)
  | acceptDone error => trivial
  | readDone d i error data => unfold System.project; dsimp only; split_ifs <;> trivial
  | writeDone d error => unfold System.project; dsimp only; split_ifs <;> trivial
  | timerDone d => unfold System.project; dsimp only; split_ifs <;> trivial
  | keepAlive t id => unfold System.project; dsimp only; split_ifs <;> trivial
  | logic script => trivial
  | tick n => trivial

/-- The steps of a server whose filters expect a header and whose batches fit an `int`. -/
def Framed (host : ByteOrder) (σ : System MessageFilter) (a : Act MessageFilter) : Prop :=
  Encodable host σ a ∧ Offers AtBoundary a

instance (host : ByteOrder) (σ : System MessageFilter) (a : Act MessageFilter) :
    Decidable (Framed host σ a) :=
  inferInstanceAs (Decidable (_ ∧ _))

theorem Framed.projects {σ : System MessageFilter} {a : Act MessageFilter} (h : Framed host σ a) :
    Projects (Link.Encodable host) AtBoundary σ a :=
  ⟨fun c _ => h.1.project c, fun _ _ _ _ => ⟨trivial, trivial⟩, h.2⟩

/-- **What the connections of the server carry.** In every run that draws ids apart, whatever the
peers send: a connection has decoded well-formed messages, none of them empty; encoded again, with
the header that waits for its body, they are what its peer has sent; its handler has been given the
first of them; and if its application is sound, the session has handed over the front part of the
encoding of what the handler has sent before its first `close`. -/
theorem connections_carry_frames {threads : Nat} (hpos : 0 < threads) {keepAliveTime : Nat}
    {filter : MessageFilter} (hfilter : AtBoundary filter) {σ : System MessageFilter}
    (hrun : Transition.Run (System.step (messageFilter host junk))
      (fun σ a => DrawsApart σ a ∧ Framed host σ a) (System.start threads keepAliveTime filter) σ)
    {c : Conn} (hc : c < σ.accepted) :
    (∀ m ∈ (σ.sessions c).trace.decoded, m.WF ∧ m.empty = false ∧ m.readable ≤ 65535) ∧
      encode host (σ.sessions c).trace.decoded ++ (σ.sessions c).msgFilter.heldHeader host =
        (σ.sessions c).trace.delivered ∧
      delivered (σ.handlers c).callbacks <+: (σ.sessions c).trace.decoded ∧
      (Link.Sound (σ.link c) → (σ.sessions c).socket.handed <+:
        encode host (sentBeforeClose (σ.handlers c).calls)) := by
  have hparted : Parted (messageFilter host junk) (Link.Encodable host) AtBoundary σ :=
    .of_steps hpos hfilter (fun _ ha => ha.projects) hrun
  obtain ⟨u, filter', ⟨hu, hboundary⟩, hlink⟩ := hparted.lives c hc
  have hreceives := Link.Receives.of_run hu hboundary trivial
    (hlink.mono fun ℓ a _ => Link.carries_true ℓ a)
  have hinbound : Link.InboundOk (σ.link c) :=
    hlink.invariant (fun hi _ hstep => hi.step hstep) (.start hu c filter' σ.keepAliveTime)
  refine ⟨hreceives.decoded, ?_, hinbound.inOrder.prefix_sent, fun hsound => ?_⟩
  · have hwf : ∀ m ∈ (σ.sessions c).trace.decoded, m.WF := hreceives.wf
    rw [encode_eq host hwf, heldHeader_eq]
    exact hreceives.framed.symm
  · have hwf : ∀ m ∈ sentBeforeClose (σ.handlers c).calls, m.WF := fun m hm =>
      hsound.wf m ((sentBeforeClose_isFront _).subset hm)
    rw [encode_eq host hwf]
    exact (Link.Transmits.of_run hu hlink hsound).handed hsound.wf

/-- Connection 0 has decoded the one message of its peer. -/
theorem connections_carry_frames_two : ∃ σ, ran twoConnections = some σ ∧
    encode .little (σ.sessions 0).trace.decoded ++ (σ.sessions 0).msgFilter.heldHeader .little =
      (σ.sessions 0).trace.delivered ∧
    delivered (σ.handlers 0).callbacks <+: (σ.sessions 0).trace.decoded := by
  obtain ⟨σ, hσ, haccepted, -⟩ := run_twoConnections
  have hyoung : Transition.Run (System.step (messageFilter .little .zeros))
      (fun σ a => Young σ a ∧ Framed .little σ a) (start 2 0 (.new 0)) σ :=
    Transition.run_of_exec hσ (by decide +kernel)
  have hrun := drawsApart_of_young Nat.two_pos (atBoundary_new 0) (fun _ ha => ha.projects) hyoung
  have hfirst : 0 < σ.accepted := by rw [haccepted]; decide
  obtain ⟨-, hbytes, hseen, -⟩ := connections_carry_frames Nat.two_pos (atBoundary_new 0) hrun hfirst
  exact ⟨σ, hσ, hbytes, hseen⟩

end System
end EddyServer
