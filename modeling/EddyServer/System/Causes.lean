import EddyServer.Link.Causes
import EddyServer.System.Ledger

/-!
# Why a connection is closed

The server does not drop a connection for what happens to others, nor for anything that a filter or
a handler does, other than calling `close`.
-/

namespace EddyServer
namespace System

variable {Φ : Type} {F : MessageFilterInterface Φ}

/-- Nothing happens to connection `c` that would close its session: what completes succeeds, and a
check finds it active. -/
def Favours (c : Conn) (σ : System Φ) : Act Φ → Prop
  | .readDone d _ error _ | .writeDone d error => d = c → error = .success
  | .keepAlive t id => σ.getSession t id = some c → (σ.sessions c).checkKeepAlive σ.clock = true
  | _ => True

instance (c : Conn) (σ : System Φ) : (a : Act Φ) → Decidable (Favours c σ a)
  | .readDone d _ error _ | .writeDone d error =>
    inferInstanceAs (Decidable (d = c → error = .success))
  | .keepAlive t id => inferInstanceAs (Decidable
      (σ.getSession t id = some c → (σ.sessions c).checkKeepAlive σ.clock = true))
  | .run .. | .acceptDone _ | .timerDone _ | .logic _ | .tick _ => isTrue trivial

/-- Link `c` is favoured, whatever happens to the others. -/
def FavoursLink (c : Conn) (ℓ : Link Φ) (a : Link.Act) : Prop := ℓ.conn = c → Link.Favours ℓ a

theorem Favours.project {c : Conn} {σ : System Φ} {a : Act Φ} (h : Favours c σ a) (d : Conn) :
    FavoursLink c (σ.link d) (σ.project d a) := by
  intro hd
  obtain rfl : d = c := hd
  cases a with
  | run t scripts first filter =>
      unfold System.project
      dsimp only
      cases σ.tasks t with
      | nil => trivial
      | cons job rest =>
          dsimp only
          cases job.taskOf d <;> trivial
  | acceptDone error => trivial
  | readDone e i error data =>
      unfold System.project
      dsimp only
      split_ifs with he
      · exact h he
      · trivial
  | writeDone e error =>
      unfold System.project
      dsimp only
      split_ifs with he
      · exact h he
      · trivial
  | timerDone e => unfold System.project; dsimp only; split_ifs <;> trivial
  | keepAlive t id =>
      unfold System.project
      dsimp only
      split_ifs with he
      · exact h he
      · trivial
  | logic script => trivial
  | tick n => trivial

/-- A link does not forget which connection it is. -/
theorem asked_of_run {c : Conn} {threads : Nat} {u : ThreadIx} {filter : Φ} {keepAliveTime : Nat}
    {ℓ : Link Φ} (hu : u < threads) (hrun : Transition.Run (Link.step F) (FavoursLink c)
      (.start c threads u filter keepAliveTime) ℓ) : Link.Lifecycle ℓ ∧ Link.Asked ℓ := by
  refine Link.Asked.of_run hu (hrun.mono_of_invariant
    (I := fun ℓ => Link.Lifecycle ℓ ∧ ℓ.conn = c) (fun h _ hstep => ?_) (fun h hok => hok h.2)
    ⟨.start hu c filter keepAliveTime, rfl⟩)
  exact ⟨h.1.step hstep, (Link.Step.evolves h.1 (h.1.cases hstep)).conn.trans h.2⟩

/-- **A connection is closed by its handler only**, in every run that draws ids apart, whatever
happens to other connections, as long as its own reads and writes succeed and every check finds it
active: if its session is closed, its handler has called `close`; and until then the map leads from
its id to the handler, which is not told of any close, and the session, once it has run `init`, is
open and in the queue of its thread. -/
theorem closed_by_handler_only {threads : Nat} (hpos : 0 < threads) {keepAliveTime : Nat}
    {filter : Φ} {σ : System Φ} {c : Conn}
    (hrun : Transition.Run (System.step F) (fun σ a => DrawsApart σ a ∧ Favours c σ a)
      (System.start threads keepAliveTime filter) σ) (hc : c < σ.accepted) :
    ((σ.sessions c).trace.closedBy ≠ none →
        (σ.sessions c).trace.closedBy = some .closeSession ∧ .close ∈ (σ.handlers c).calls) ∧
      (.close ∉ (σ.handlers c).calls →
        σ.getSessionHandler (σ.idOf c) = some c ∧ c ∈ σ.live ∧
        ((σ.sessions c).sessionId ≠ 0 →
          (σ.sessions c).closed = false ∧ σ.found c = some c)) := by
  have hparted : Parted F (FavoursLink c) (fun _ => True) σ :=
    .of_steps hpos trivial (fun {τ a} _ ha => ⟨fun d _ => ha.project d,
      fun _ _ _ _ => ⟨fun _ => trivial, fun _ => trivial⟩, offers_anything a⟩) hrun
  obtain ⟨u, filter', ⟨hu, -⟩, hlink⟩ := hparted.lives c hc
  obtain ⟨hlife, hasked⟩ := asked_of_run hu hlink
  refine ⟨hasked.closedBy, fun hcalls => ?_⟩
  have hopen : (σ.link c).session.trace.closedBy = none := by
    by_contra hne
    exact hcalls (hasked.closedBy hne).2
  have hmapped : (σ.link c).mapped = true := by
    rcases hlife.stage with hidle | hopening | hstarted
    · exact absurd hidle.registered (by simp [link, hc])
    · exact hopening.isMapped
    · exact hstarted.mapped_of_open hopen
  have hentry : σ.getSessionHandler (σ.idOf c) = some c := of_decide_eq_true hmapped
  refine ⟨hentry, hparted.mem_live.mpr ⟨_, hentry⟩, fun hid => ?_⟩
  have hstarted := hlife.started_of_sessionId hid
  have hclosed : (σ.sessions c).closed = (σ.sessions c).trace.closedBy.isSome := hstarted.marked
  refine ⟨?_, of_decide_eq_true (hstarted.queued_of_open hopen)⟩
  rw [hclosed, show (σ.sessions c).trace.closedBy = none from hopen]
  rfl

/-- The peer of connection 0 has gone, and connection 1 is open. -/
theorem closed_by_handler_only_second : ∃ σ, ran firstClosed = some σ ∧
    (σ.sessions 0).closed = true ∧ (σ.getSessionHandler (σ.idOf 1) = some 1 ∧ 1 ∈ σ.live) ∧
    (σ.sessions 1).closed = false ∧ σ.found 1 = some 1 := by
  obtain ⟨σ, hσ, hview⟩ := Option.map_eq_some_iff.mp (show
    (ran firstClosed).map (fun σ => (σ.accepted, (σ.sessions 0).closed, (σ.handlers 1).calls,
      (σ.sessions 1).sessionId)) = some (2, true, [], 2) by decide +kernel)
  simp only [Prod.mk.injEq] at hview
  obtain ⟨haccepted, hfirst, hcalls, hid⟩ := hview
  have hyoung : Transition.Run (System.step (messageFilter .little .zeros))
      (fun σ a => Young σ a ∧ Favours 1 σ a) (start 2 0 (.new 0)) σ :=
    Transition.run_of_exec hσ (by decide +kernel)
  have hrun := drawsApart_of_young_anything Nat.two_pos hyoung
  have hsecond : 1 < σ.accepted := by rw [haccepted]; decide
  obtain ⟨hentry, hlive, hserved⟩ := (closed_by_handler_only Nat.two_pos hrun hsecond).2
    (by rw [hcalls]; exact List.not_mem_nil)
  exact ⟨σ, hσ, hfirst, ⟨hentry, hlive⟩, hserved (by rw [hid]; decide)⟩

end System
end EddyServer
