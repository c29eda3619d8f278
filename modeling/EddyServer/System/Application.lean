import EddyServer.Link.Application
import EddyServer.System.Transport

/-!
# The application of a server

Where the handlers of a server call nothing but themselves, each connection runs the application on
its own.
-/

namespace EddyServer
namespace System

variable {Φ : Type} {F : MessageFilterInterface Φ} {reply : Callback → List Call}

/-- The callbacks that a job runs, in order, each with the handler it is run on. -/
def callbacksOf (σ : System Φ) : Job Φ → List (Conn × Callback)
  | .on d .sessionSendMessageListDirectly =>
    match σ.getSessionHandler (σ.sessions d).sessionId with
    | none => []
    | some h => (σ.sessions d).messagesReceived.map fun m => (h, .onMessage d m)
  | .on d (.sendMessageListToHandler id messages) =>
    match σ.getSessionHandler id with
    | none => []
    | some h => messages.map fun m => (h, .onMessage d m)
  | .on d (.onSessionClosed id) =>
    match σ.getSessionHandler id with
    | none => []
    | some h => [(h, .onClosed d)]
  | .handleAccept _ _ .success => [(σ.accepted, .onConnected)]
  | _ => []

/-- What handler `p.1` calls on itself in the callback `p.2`. -/
def answer (reply : Callback → List Call) (p : Conn × Callback) : Script :=
  (reply p.2).map fun call => (p.1, call)

/-- The handlers make the calls of the application, and no other code calls one. -/
def Follows (reply : Callback → List Call) (σ : System Φ) : Act Φ → Prop
  | .run t scripts _ _ =>
    ∀ job ∈ (σ.tasks t).head?, scripts = (σ.callbacksOf job).map (answer reply)
  | .logic script => script = []
  | _ => True

instance (reply : Callback → List Call) (σ : System Φ) :
    (a : Act Φ) → Decidable (Follows reply σ a)
  | .run t scripts _ _ => inferInstanceAs (Decidable
      (∀ job ∈ (σ.tasks t).head?, scripts = (σ.callbacksOf job).map (answer reply)))
  | .logic script => inferInstanceAs (Decidable (script = []))
  | .acceptDone _ | .readDone .. | .writeDone .. | .timerDone _ | .keepAlive .. | .tick _ =>
    isTrue trivial

/-! ## The application of a connection -/

theorem on_answer (reply : Callback → List Call) (c d : Conn) (cb : Callback) :
    Script.on c (answer reply (d, cb)) = if d = c then reply cb else [] := by
  unfold answer Script.on
  split_ifs with hd
  · simp [List.filterMap_map, hd]
  · simp [List.filterMap_map, hd]

/-- The callbacks of a connection's job are those of its link's task. -/
theorem Separate.callbacksOf {σ : System Φ} (h : Separate σ) {t : ThreadIx} {c : Conn} {task : Task}
    {rest : List (Job Φ)} (ht : σ.tasks t = .on c task :: rest) :
    σ.callbacksOf (.on c task) = ((σ.link c).callbacksOf task).map fun cb => (c, cb) := by
  have hhead : (.on c task : Job Φ) ∈ σ.tasks t := by rw [ht]; exact List.mem_cons_self
  have hnone : ∀ {id}, σ.getSessionHandler id = none → (σ.link c).inMap id = false := by
    intro id hnone
    rw [← Bool.not_eq_true]
    intro hin
    exact absurd (hnone.symm.trans (h.inMap.mp hin)) nofun
  cases task with
  | sendMessageListToHandler id messages =>
      unfold System.callbacksOf Link.callbacksOf
      dsimp only
      cases he : σ.getSessionHandler id with
      | none =>
          rw [hnone he]
          rfl
      | some e =>
          obtain rfl := h.only ht he
          rw [if_pos (h.inMap.mpr he), List.map_map]
          rfl
  | sessionSendMessageListDirectly =>
      unfold System.callbacksOf Link.callbacksOf
      dsimp only
      cases he : σ.getSessionHandler (σ.sessions c).sessionId with
      | none =>
          rw [show (σ.link c).inMap (σ.link c).session.sessionId = false from hnone he]
          rfl
      | some e =>
          rcases h.only_directly ht he with rfl | hnil
          · rw [if_pos (show (σ.link e).inMap (σ.link e).session.sessionId = true from
              h.inMap.mpr he), List.map_map]
            rfl
          · rw [show (σ.link c).session.messagesReceived = [] from hnil, hnil]
            simp
  | onSessionClosed id =>
      have he := h.owned.closing t c id hhead
      unfold System.callbacksOf Link.callbacksOf
      dsimp only
      rw [he, if_pos (h.inMap.mpr he)]
      rfl
  | _ => rfl

/-- Nothing is played that calls connection `c`. -/
theorem on_played {σ : System Φ} {c : Conn} {scripts : List Script}
    (h : ∀ script ∈ scripts, Script.on c script = []) (job : Job Φ) :
    Script.on c (σ.played scripts job) = [] := by
  have hflatten : ∀ n, Script.on c (scripts.take n).flatten = [] := by
    intro n
    have htake : ∀ script ∈ scripts.take n, Script.on c script = [] := fun script hmem =>
      h script (List.mem_of_mem_take hmem)
    generalize scripts.take n = taken at htake
    induction taken with
    | nil => rfl
    | cons script taken ih =>
        rw [List.flatten_cons, Script.on_append, htake script List.mem_cons_self,
          ih fun s hs => htake s (List.mem_cons_of_mem _ hs)]
        rfl
  have hhead : Script.on c (scripts.headD []) = [] := by
    cases scripts with
    | nil => rfl
    | cons script rest => exact h script List.mem_cons_self
  unfold System.played
  split <;> first | exact hhead | rfl | skip
  all_goals split <;> first | exact hflatten _ | exact hhead | rfl

/-- **Each connection runs the application on its own.** -/
theorem Separate.follows {σ : System Φ} (h : Separate σ) {a : Act Φ} (hfollows : Follows reply σ a)
    {c : Conn} (hc : c < σ.accepted) : Link.Follows reply (σ.link c) (σ.project c a) := by
  cases a with
  | run t scripts first filter =>
      unfold project
      dsimp only
      cases ht : σ.tasks t with
      | nil => exact rfl
      | cons job rest =>
          obtain rfl : scripts = (σ.callbacksOf job).map (answer reply) :=
            hfollows job (by rw [ht]; rfl)
          dsimp only
          cases htask : job.taskOf c with
          | some task =>
              obtain rfl := eq_of_taskOf htask
              intro task' htask'
              rw [head_link ht] at htask'
              obtain rfl := Option.some.inj htask'
              rw [h.callbacksOf ht, List.map_map, List.map_map]
              refine List.map_congr_left fun cb _ => ?_
              exact (on_answer reply c c cb).trans (if_pos rfl)
          | none =>
              refine on_played (fun script hmem => ?_) job
              obtain ⟨⟨d, cb⟩, hcb, rfl⟩ := List.mem_map.mp hmem
              rw [on_answer, if_neg]
              rintro rfl
              cases job with
              | on e task =>
                  rw [h.callbacksOf ht] at hcb
                  obtain ⟨cb', -, heq⟩ := List.mem_map.mp hcb
                  obtain ⟨rfl, -⟩ := Prod.mk.inj heq
                  simp [Job.taskOf] at htask
              | handleAccept u filter' error =>
                  -- the new connection is not among those that have been accepted
                  cases error with
                  | success =>
                      obtain ⟨rfl, -⟩ := Prod.mk.inj (List.mem_singleton.mp hcb)
                      exact Nat.lt_irrefl _ hc
                  | _ => cases hcb
  | acceptDone error => exact rfl
  | readDone d i error data =>
      unfold project
      dsimp only
      split_ifs
      · trivial
      · exact rfl
  | writeDone d error =>
      unfold project
      dsimp only
      split_ifs
      · trivial
      · exact rfl
  | timerDone d =>
      unfold project
      dsimp only
      split_ifs
      · trivial
      · exact rfl
  | keepAlive t id =>
      unfold project
      dsimp only
      split_ifs
      · trivial
      · exact rfl
  | logic script =>
      obtain rfl : script = [] := hfollows
      exact rfl
  | tick n => trivial

/-- `on_connected` is the first callback of a connection. -/
theorem follows_greeting {σ : System Φ} {a : Act Φ} (hfollows : Follows reply σ a)
    {id : TCPSessionID} (hid : σ.drawn a = some id) :
    Script.on σ.accepted (greeting a) = reply .onConnected := by
  cases a with
  | run t scripts first filter =>
      unfold drawn at hid
      dsimp only at hid
      split at hid
      · rename_i u filter' rest ht
        obtain rfl : scripts = [answer reply (σ.accepted, .onConnected)] :=
          hfollows (.handleAccept u filter' .success) (by rw [ht]; rfl)
        exact (on_answer reply σ.accepted σ.accepted .onConnected).trans (if_pos rfl)
      · cases hid
  | _ => cases hid

end System
end EddyServer
