import EddyServer.Link.Transport

/-!
# Applications

An application is what its handlers do in their callbacks: `reply cb` is what a handler calls on
itself in the callback `cb`. Where no other code calls it, what a handler has called is what its
callbacks make of what has been decoded.
-/

namespace EddyServer
namespace Link

variable {Φ : Type} {F : MessageFilterInterface Φ} {reply : Callback → List Call}

/-- The callbacks that a task runs, in order. -/
def callbacksOf (ℓ : Link Φ) : Task → List Callback
  | .sessionSendMessageListDirectly =>
    if ℓ.inMap ℓ.session.sessionId then ℓ.session.messagesReceived.map (.onMessage ℓ.conn) else []
  | .sendMessageListToHandler id messages =>
    if ℓ.inMap id then messages.map (.onMessage ℓ.conn) else []
  | .onSessionClosed id => if ℓ.inMap id then [.onClosed ℓ.conn] else []
  | _ => []

/-- The handler makes the calls of the application, and no one else calls it. -/
def Follows (reply : Callback → List Call) (ℓ : Link Φ) : Act → Prop
  | .connect _ script => script = reply .onConnected
  | .run t scripts => ∀ task ∈ (ℓ.tasks t).head?, scripts = (ℓ.callbacksOf task).map reply
  | .logic script => script = []
  | _ => True

/-- The calls of the handler are what the application replies to its callbacks. -/
def Replied (reply : Callback → List Call) (ℓ : Link Φ) : Prop :=
  ℓ.handler.calls = ℓ.handler.callbacks.flatMap reply

/-! ## Calls -/

theorem call_calls {ℓ : Link Φ} (hopen : ℓ.handler.isClosed = false) (hc : Callable ℓ) (c : Call) :
    (ℓ.call c).handler.calls = ℓ.handler.calls ++ [c] := by
  obtain hclosed | ⟨hthread, hio⟩ := hc
  · exact absurd (hopen.symm.trans hclosed) (by decide)
  cases c with
  | send m =>
      cases hm : m.empty with
      | true => rw [call_send_empty hopen hm]
      | false => rw [call_send hopen hthread hm]
  | close => rw [call_close hopen hthread hio]

theorem runScript_calls {ℓ : Link Φ} (hopen : ℓ.handler.isClosed = false) (hc : Callable ℓ)
    (script : List Call) :
    (ℓ.runScript script).handler.calls = ℓ.handler.calls ++ script := by
  induction script generalizing ℓ with
  | nil => exact (List.append_nil _).symm
  | cons c script ih =>
      have hcalls := calls_call hc c
      have hopen' : (ℓ.call c).handler.isClosed = false := by
        rw [TCPSessionHandler.isClosed, hcalls.sessionId]
        exact hopen
      refine (ih hopen' (hcalls.callable hc)).trans ?_
      rw [call_calls hopen hc, List.append_assoc]
      rfl

theorem Replied.callback {ℓ : Link Φ} (h : Replied reply ℓ) (hopen : ℓ.handler.isClosed = false)
    (hc : Callable ℓ) (cb : Callback) : Replied reply (ℓ.callback cb (reply cb)) := by
  have hcallbacks := (calls_callback hc cb (reply cb)).callbacks
  unfold Replied at h ⊢
  rw [hcallbacks, List.flatMap_append, ← h, List.flatMap_singleton]
  exact runScript_calls
    (ℓ := { ℓ with handler := { ℓ.handler with callbacks := ℓ.handler.callbacks ++ [cb] } })
    hopen hc (reply cb)

theorem Replied.deliver {ℓ : Link Φ} (h : Replied reply ℓ) (hopen : ℓ.handler.isClosed = false)
    (hc : Callable ℓ) (messages : List NetMessage) :
    Replied reply (ℓ.deliver messages ((messages.map (.onMessage ℓ.conn)).map reply)) := by
  induction messages generalizing ℓ with
  | nil => exact h
  | cons m messages ih =>
      have hcalls := calls_callback hc (.onMessage ℓ.conn m) (reply (.onMessage ℓ.conn m))
      have hopen' : (ℓ.callback (.onMessage ℓ.conn m)
          (reply (.onMessage ℓ.conn m))).handler.isClosed = false := by
        rw [TCPSessionHandler.isClosed, hcalls.sessionId]
        exact hopen
      have hrest := ih (h.callback hopen hc _) hopen' (hcalls.callable hc)
      rw [hcalls.conn] at hrest
      exact hrest

theorem Replied.congr {ℓ ℓ' : Link Φ} (h : Replied reply ℓ) (hhandler : ℓ'.handler = ℓ.handler) :
    Replied reply ℓ' := by
  rw [Replied, hhandler]
  exact h

/-! ## Steps -/

theorem Registered.isOpen {ℓ : Link Φ} (h : Registered ℓ) (hmapped : ℓ.mapped = true) :
    ℓ.handler.isClosed = false := by
  rw [TCPSessionHandler.isClosed, h.mapped hmapped]
  simpa using h.id_ne

theorem mapped_of_inMap {ℓ : Link Φ} {id : TCPSessionID} (h : ℓ.inMap id = true) :
    ℓ.mapped = true :=
  (Bool.and_eq_true_iff.mp h).1

theorem Replied.step {ℓ ℓ' : Link Φ} {a : Act} (h : Replied reply ℓ) (hlife : Lifecycle ℓ)
    (hfollows : Follows reply ℓ a) (hstep : Step F ℓ a ℓ') : Replied reply ℓ' := by
  cases hstep with
  | connect id script hidle hopening =>
      obtain rfl : script = reply .onConnected := hfollows
      have hopened : Replied reply (ℓ.opened id) := by
        rw [Link.opened, post_eq]
        exact h
      exact hopened.callback (hopening.isOpen hopening.isMapped)
        (.inr ⟨hopening.threadId, hlife.ioThread_lt⟩) .onConnected
  | init rest r hop _ hopens =>
      rw [onSession_eq]
      exact h
  | complete task s _ hc => exact h.congr (by rw [post_eq])
  | logic script =>
      obtain rfl : script = [] := hfollows
      exact h
  | tick => exact h
  | run t task rest scripts ht hpopped hran hex =>
      have hcallable := hpopped.lifecycle.callable
      have hpop : Replied reply (ℓ.popped t rest) := h
      obtain rfl : scripts = (ℓ.callbacksOf task).map reply := hfollows task (by rw [ht]; rfl)
      cases hran with
      | move r _ _ _ hmove =>
          rw [onSession_eq]
          exact h
      | unqueued => exact h
      | unmapped => exact h
      | flush =>
          rw [← Option.some.inj hex]
          unfold Link.sessionSendMessageListDirectly
          split_ifs with hmap
          · have hdelivered := hpop.deliver (hpopped.registered.isOpen (mapped_of_inMap hmap))
              hcallable (ℓ.popped t rest).session.messagesReceived
            rw [callbacksOf, if_pos (show ℓ.inMap ℓ.session.sessionId = true from hmap)]
            exact hdelivered
          · exact hpop
      | deliver id messages =>
          rw [← Option.some.inj hex]
          unfold Link.sendMessageListToHandler
          split_ifs with hmap
          · rw [callbacksOf, if_pos (show ℓ.inMap id = true from hmap)]
            exact hpop.deliver (hpopped.registered.isOpen (mapped_of_inMap hmap)) hcallable messages
          · exact hpop
      | dispose id =>
          rw [← Option.some.inj hex]
          unfold Link.onSessionClosed
          split_ifs with hmap
          · rw [callbacksOf, if_pos (show ℓ.inMap id = true from hmap)]
            exact hpop.callback (hpopped.registered.isOpen (mapped_of_inMap hmap)) hcallable _
          · exact hpop
      | pack =>
          rw [onHandler_packMessageList hpopped.registered.threadId hpopped.lifecycle.ioThread_lt]
          exact h
      | post id messages s _ _ hposts => exact h
      | direct s _ _ hposts => exact h

theorem Replied.of_run {ok : Link Φ → Act → Prop} {conn : Conn} {threads : Nat}
    {ioThread : ThreadIx} {filter : Φ} {keepAliveTime : Nat} {ℓ : Link Φ}
    (hio : ioThread < threads) (hok : ∀ ℓ a, ok ℓ a → Follows reply ℓ a)
    (hrun : Transition.Run (Link.step F) ok
      (.start conn threads ioThread filter keepAliveTime) ℓ) : Replied reply ℓ := by
  have hboth := hrun.invariant (I := fun ℓ => Lifecycle ℓ ∧ Replied reply ℓ)
    (fun h ha hstep => ⟨h.1.step hstep, h.2.step h.1 (hok _ _ ha) (h.1.cases hstep)⟩)
    ⟨.start hio conn filter keepAliveTime, rfl⟩
  exact hboth.2

end Link
end EddyServer
