import EddyServer.Link.Leaving
import EddyServer.System.Connections

/-!
# The sessions of the server

What holds of a session in its link holds of every session of the server: what its counters count,
when it is in the queue of its thread, when its handler is told of the close, and that nothing is
left of it in the end.
-/

namespace EddyServer
namespace System

variable {Φ : Type} {F : MessageFilterInterface Φ}

/-- What happens to a connection is a run of its link. -/
theorem Parted.run_link {okL : Link Φ → Link.Act → Prop} {okF : Φ → Prop} {σ σ' : System Φ}
    (h : Parted F okL okF σ)
    (hrun : Transition.Run (System.step F) (fun σ a => DrawsApart σ a ∧ Projects okL okF σ a) σ σ')
    {c : Conn} (hc : c < σ.accepted) :
    Transition.Run (Link.step F) okL (σ.link c) (σ'.link c) := by
  have hall := hrun.invariant
    (I := fun τ => Parted F okL okF τ ∧ σ.accepted ≤ τ.accepted ∧
      Transition.Run (Link.step F) okL (σ.link c) (τ.link c))
    (fun {τ a τ'} hi ha hstep => by
      obtain ⟨hparted, hle, hlink⟩ := hi
      have hlt : c < τ.accepted := Nat.lt_of_lt_of_le hc hle
      have haccepted : τ.accepted ≤ τ'.accepted := by
        rcases (step_settings hstep).2.2 with hsame | ⟨id, hid⟩
        · exact hsame.ge
        · have hnew := (hparted.separate.begins hparted.placed ha.1 hstep hid).1
          exact hnew ▸ Nat.le_succ _
      exact ⟨hparted.step ha.1 ha.2 hstep, hle.trans haccepted, hlink.tail (ha.2.project c hlt)
        (hparted.separate.step_link ha.1 (fun d hd => (hparted.lives d hd).toLifecycle) hstep hlt)⟩)
    ⟨h, Nat.le_refl _, .refl _⟩
  exact hall.2.2

/-- A run that draws ids apart, with no condition on the links and their filters. -/
theorem run_anything {σ σ' : System Φ} (hrun : Transition.Run (System.step F) DrawsApart σ σ') :
    Transition.Run (System.step F)
      (fun σ a => DrawsApart σ a ∧
        Projects (Transition.Anything (Link Φ) Link.Act) (fun _ => True) σ a) σ σ' :=
  hrun.mono fun τ a ha => ⟨ha, projects_anything τ (offers_anything a)⟩

/-- What is known of a connection whose session has run `init`. -/
theorem Parted.leaves {okF : Φ → Prop} {σ : System Φ}
    (h : Parted F (Transition.Anything _ _) okF σ) (hF : F.Appends) {c : Conn}
    (hc : c < σ.accepted) (hid : (σ.sessions c).sessionId ≠ 0) :
    ∃ u filter s, Link.Leaves F c u filter σ.keepAliveTime (σ.link c) ∧
      Link.Known (σ.link c) s := by
  obtain ⟨u, filter, ⟨hu, -⟩, hlink⟩ := h.lives c hc
  have hleaves := Link.Leaves.of_run hu hlink
  obtain ⟨s, hknown⟩ := hleaves.accompanied.known hF hid
  exact ⟨u, filter, s, hleaves, hknown⟩

theorem queued_link {σ : System Φ} {c : Conn} :
    (σ.link c).queued = false ↔ σ.found c ≠ some c :=
  decide_eq_false_iff_not

/-- Two connections, and the first is closed by its peer. -/
def firstClosed : List (Act MessageFilter) :=
  twoConnections ++
    [.readDone 0 0 .eof [], .run 1 [] 0 (.new 0), .run 0 [] 0 (.new 0), .readDone 0 0 .eof [],
      .run 1 [] 0 (.new 0), .run 1 [] 0 (.new 0)]

theorem run_firstClosed : ∃ σ, ran firstClosed = some σ ∧
    (σ.accepted = 2 ∧ (σ.sessions 0).sessionId = 1 ∧ (σ.sessions 0).closed = true) ∧
    (σ.tasks 0 = [] ∧ (σ.sessions 0).ioThread = 1 ∧ σ.tasks 1 = []) ∧
    ((σ.sessions 0).socket.writing = [] ∧ (σ.sessions 0).closeTimer ≠ .waiting) ∧
    Transition.Run (System.step (messageFilter .little .zeros)) DrawsApart
      (start 2 0 (.new 0)) σ := by
  obtain ⟨σ, hσ, hview⟩ := Option.map_eq_some_iff.mp (show
    (ran firstClosed).map (fun σ => ((σ.accepted, (σ.sessions 0).sessionId, (σ.sessions 0).closed),
      ((σ.tasks 0).length, (σ.sessions 0).ioThread, (σ.tasks 1).length),
      ((σ.sessions 0).socket.writing.length, decide ((σ.sessions 0).closeTimer ≠ .waiting)))) =
      some ((2, 1, true), (0, 1, 0), (0, true)) by decide +kernel)
  simp only [Prod.mk.injEq, List.length_eq_zero_iff, decide_eq_true_eq] at hview
  obtain ⟨hsession, htasks, hidle⟩ := hview
  have hyoung : Transition.Run (System.step (messageFilter .little .zeros)) Young
      (start 2 0 (.new 0)) σ := Transition.run_of_exec hσ (by decide +kernel)
  have hall : Transition.Run (System.step (messageFilter .little .zeros))
      (fun σ a => Young σ a ∧
        Projects (Transition.Anything (Link MessageFilter) Link.Act) (fun _ => True) σ a)
      (start 2 0 (.new 0)) σ :=
    hyoung.mono fun τ a ha => ⟨ha, projects_anything τ (offers_anything a)⟩
  exact ⟨σ, hσ, hsession, htasks, hidle,
    (drawsApart_of_young Nat.two_pos trivial (fun _ ha => ha) hall).mono fun _ _ ha => ha.1⟩

/-- **The life of every session of the server.** In a run that draws ids apart, from `init` on: the
counters count what is outstanding or waits to be handled, one read of `handle_read` and one write
at most; the session is in the queue of its thread until it is closed and has no write; its
`on_session_closed` waits, or its handler has seen `on_closed`, once, when it has left; `closed_`
stays set; and a session that has left does not come back and writes nothing more. -/
theorem sessions_live (hF : F.Appends) {threads : Nat} (hpos : 0 < threads) {keepAliveTime : Nat}
    {filter : Φ} {σ σ' : System Φ}
    (hrun : Transition.Run (System.step F) DrawsApart (System.start threads keepAliveTime filter) σ)
    (hrun' : Transition.Run (System.step F) DrawsApart σ σ') {c : Conn} (hc : c < σ.accepted)
    (hid : (σ.sessions c).sessionId ≠ 0) :
    ((σ.sessions c).numReadHandlers = (σ.link c).readsOf ∧ (σ.link c).readsOf ≤ 1) ∧
      ((σ.sessions c).numWriteHandlers = (σ.link c).writesOf ∧ (σ.link c).writesOf ≤ 1) ∧
      (σ.found c ≠ some c ↔ (σ.sessions c).closed = true ∧ (σ.link c).writesOf = 0) ∧
      ((σ.link c).notices + (σ.handlers c).callbacks.count (.onClosed c) =
        if σ.found c = some c then 0 else 1) ∧
      ((σ.sessions c).closed = true → (σ'.sessions c).closed = true) ∧
      (σ.found c ≠ some c → σ'.found c ≠ some c ∧ (σ'.link c).writesOf = 0 ∧
        (σ'.sessions c).socket.handed = (σ.sessions c).socket.handed) := by
  have hparted := Parted.of_steps hpos trivial (fun _ ha => ha) (run_anything hrun)
  obtain ⟨u, filter', s, hleaves, hknown⟩ := hparted.leaves hF hc hid
  obtain ⟨hclosed, hleft⟩ := hknown.stays hF hleaves.inbound.lifecycle
    (hparted.run_link (run_anything hrun') hc)
  rw [queued_link, queued_link] at hleft
  have hnotices := hleaves.notices hknown.started
  refine ⟨hknown.reads, hknown.writes, queued_link.symm.trans hknown.left, hnotices.trans ?_,
    hclosed, hleft⟩
  simp [link]

/-- When its peer has closed connection 0, nothing of it is outstanding on its counters. -/
theorem sessions_live_first : ∃ σ, ran firstClosed = some σ ∧
    (σ.sessions 0).numReadHandlers = (σ.link 0).readsOf ∧
    (σ.sessions 0).numWriteHandlers = (σ.link 0).writesOf ∧
    (σ.found 0 ≠ some 0 ↔ (σ.sessions 0).closed = true ∧ (σ.link 0).writesOf = 0) := by
  obtain ⟨σ, hσ, ⟨haccepted, hid, -⟩, -, -, hrun⟩ := run_firstClosed
  have hfirst : 0 < σ.accepted := by rw [haccepted]; decide
  have hinit : (σ.sessions 0).sessionId ≠ 0 := by rw [hid]; decide
  obtain ⟨⟨hreads, -⟩, ⟨hwrites, -⟩, hleft, -⟩ := sessions_live
    (messageFilter_appends .little .zeros) (by decide) hrun (.refl σ) hfirst hinit
  exact ⟨σ, hσ, hreads, hwrites, hleft⟩

/-- **Nothing is left of a closed connection** when no job of it is queued and neither a write nor
the timer is outstanding: it is in no queue and in no map, its socket is closed, and its handler has
seen `on_closed` once. -/
theorem nothing_left (hF : F.Appends) {threads : Nat} (hpos : 0 < threads) {keepAliveTime : Nat}
    {filter : Φ} {σ : System Φ}
    (hrun : Transition.Run (System.step F) DrawsApart (System.start threads keepAliveTime filter) σ)
    {c : Conn} (hc : c < σ.accepted) (hid : (σ.sessions c).sessionId ≠ 0)
    (hclosed : (σ.sessions c).closed = true)
    (hmain : ∀ job ∈ σ.tasks mainThread, job.taskOf c = none)
    (hio : ∀ job ∈ σ.tasks (σ.sessions c).ioThread, job.taskOf c = none)
    (hwriting : (σ.sessions c).socket.writing = [])
    (htimer : (σ.sessions c).closeTimer ≠ .waiting) :
    (∀ t id, σ.getSession t id ≠ some c) ∧ (∀ id, σ.getSessionHandler id ≠ some c) ∧
      (σ.sessions c).socket.isOpen = false ∧
      (σ.handlers c).callbacks.count (.onClosed c) = 1 := by
  have hparted := Parted.of_steps hpos trivial (fun _ ha => ha) (run_anything hrun)
  obtain ⟨u, filter', s, hleaves, hknown⟩ := hparted.leaves hF hc hid
  have htasks := hleaves.inbound.lifecycle.drained (List.filterMap_eq_nil_iff.mpr hmain)
    (List.filterMap_eq_nil_iff.mpr hio)
  obtain ⟨hqueued, hmapped, hopen, hcount⟩ :=
    hleaves.none_left hknown hclosed htasks hwriting htimer
  refine ⟨fun t id hentry => ?_, fun id hmap => ?_, hopen, hcount⟩
  · have hin := hparted.separate.inQueue.mpr hentry
    rw [Link.inQueue, hqueued] at hin
    cases hin
  · have hin := hparted.separate.inMap.mpr hmap
    rw [Link.inMap, hmapped] at hin
    cases hin

/-- Connection 0 has been closed by its peer, and nothing is left of it. -/
theorem nothing_left_first : ∃ σ, ran firstClosed = some σ ∧
    (∀ t id, σ.getSession t id ≠ some 0) ∧ (∀ id, σ.getSessionHandler id ≠ some 0) ∧
    (σ.sessions 0).socket.isOpen = false ∧ (σ.handlers 0).callbacks.count (.onClosed 0) = 1 := by
  obtain ⟨σ, hσ, ⟨haccepted, hid, hclosed⟩, ⟨hmain, hthread, hio⟩, ⟨hwriting, htimer⟩, hrun⟩ :=
    run_firstClosed
  have hfirst : 0 < σ.accepted := by rw [haccepted]; decide
  have hinit : (σ.sessions 0).sessionId ≠ 0 := by rw [hid]; decide
  refine ⟨σ, hσ, nothing_left (messageFilter_appends .little .zeros) (by decide) hrun hfirst hinit
    hclosed ?_ ?_ hwriting htimer⟩
  · rw [mainThread, hmain]
    nofun
  · rw [hthread, hio]
    nofun

end System
end EddyServer
