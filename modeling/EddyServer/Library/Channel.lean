import Mathlib
import EddyServer.Library.Transition

/-!
# Batched channels

A sender collects messages in a buffer and from time to time moves the whole buffer, as one batch,
onto a FIFO wire; or it hands the buffer to the receiver directly. A `close` packet on the wire
makes the receiver stop: what comes after it is dropped.

Three properties of such a channel are kept by its operations:

* `InOrder`: nothing is lost, repeated or reordered while the receiver is open;
* `UpToMark`: the receiver gets exactly what was sent before the first `close`, if the sender
  empties its buffer before it closes;
* `Complete`: a channel that has nothing left in its buffer and no batch behind a `close` delivers
  everything.
-/

/-- What travels on the wire. -/
inductive Packet (M : Type*)
  | batch (messages : List M)
  | close
  deriving DecidableEq

namespace Packet

variable {M : Type*}

/-- The messages of all batches. -/
def payload : List (Packet M) → List M
  | [] => []
  | .batch messages :: wire => messages ++ payload wire
  | .close :: wire => payload wire

/-- The messages of the batches before the first `close`. -/
def deliverable : List (Packet M) → List M
  | [] => []
  | .batch messages :: wire => messages ++ deliverable wire
  | .close :: _ => []

@[simp] theorem payload_append (v w : List (Packet M)) :
    payload (v ++ w) = payload v ++ payload w := by
  induction v with
  | nil => rfl
  | cons p v ih => cases p <;> simp [payload, ih]

theorem deliverable_append_close (w : List (Packet M)) :
    deliverable (w ++ [.close]) = deliverable w := by
  induction w with
  | nil => rfl
  | cons p w ih => cases p <;> simp [deliverable, ih]

/-- A batch behind a `close` is not delivered. -/
theorem deliverable_append_of_close {w : List (Packet M)} (h : .close ∈ w) (v : List (Packet M)) :
    deliverable (w ++ v) = deliverable w := by
  induction w with
  | nil => cases h
  | cons p w ih =>
      cases p with
      | close => rfl
      | batch messages =>
          have hw : .close ∈ w := by simpa using h
          simp [deliverable, ih hw]

theorem deliverable_of_no_close {w : List (Packet M)} (h : .close ∉ w) :
    deliverable w = payload w := by
  induction w with
  | nil => rfl
  | cons p w ih =>
      cases p with
      | close => simp at h
      | batch messages => simp [deliverable, payload, ih (by simpa using h)]

end Packet

structure Channel (M : Type*) where
  /-- Every message that was pushed. -/
  sent : List M
  buffer : List M
  wire : List (Packet M)
  /-- What the receiver took while it was open. -/
  received : List M
  isOpen : Bool
  /-- What had been sent when the sender closed for the first time. -/
  mark : Option (List M)

namespace Channel

open Packet

variable {M : Type*}

/-- What can happen to a channel. -/
inductive Op (M : Type*)
  | push (messages : List M)
  | flush
  | direct
  /-- The sender closes: it empties its buffer and puts a `close` behind. -/
  | close
  /-- Someone else puts a `close` on the wire. -/
  | hangUp
  | recv

/-- Move the buffer onto the wire, unless it is empty. -/
def flush (c : Channel M) : Channel M :=
  if c.buffer = [] then c else { c with buffer := [], wire := c.wire ++ [.batch c.buffer] }

def hangUp (c : Channel M) : Channel M := { c with wire := c.wire ++ [.close] }

/-- The receiver takes one packet. -/
def take (c : Channel M) : List (Packet M) → Channel M
  | [] => c
  | .batch messages :: wire =>
    { c with wire := wire, received := if c.isOpen then c.received ++ messages else c.received }
  | .close :: wire => { c with wire := wire, isOpen := false }

def step (c : Channel M) : Op M → Channel M
  | .push messages =>
    { c with sent := c.sent ++ messages, buffer := c.buffer ++ messages }
  | .flush => c.flush
  | .direct =>
    { c with
      buffer := []
      received := if c.isOpen then c.received ++ c.buffer else c.received }
  | .close => { c.flush.hangUp with mark := c.mark.or (some c.sent) }
  | .hangUp => c.hangUp
  | .recv => c.take c.wire

/-- `c` becomes `d` by operations that `ok` allows. -/
abbrev Leads (ok : Channel M → Op M → Prop) (c d : Channel M) : Prop :=
  Transition.Run (fun c op => some (c.step op)) ok c d

theorem Leads.one {ok : Channel M → Op M → Prop} {c : Channel M} (op : Op M) (h : ok c op) :
    Leads ok c (c.step op) := .tail (.refl c) h rfl

/-- What every allowed operation keeps, a sequence of them keeps. -/
theorem Leads.keeps {ok : Channel M → Op M → Prop} {c d : Channel M} {I : Channel M → Prop}
    (h : Leads ok c d) (hstep : ∀ {c} op, I c → ok c op → I (c.step op)) (hc : I c) : I d :=
  h.invariant (fun hi hok hst => by cases hst; exact hstep _ hi hok) hc

/-! ## Flushing -/

section
variable (c : Channel M)

@[simp] theorem flush_buffer : c.flush.buffer = [] := by
  unfold flush
  split_ifs with h
  · exact h
  · rfl

@[simp] theorem flush_sent : c.flush.sent = c.sent := by
  unfold flush
  split_ifs <;> rfl

@[simp] theorem flush_received : c.flush.received = c.received := by
  unfold flush
  split_ifs <;> rfl

@[simp] theorem flush_isOpen : c.flush.isOpen = c.isOpen := by
  unfold flush
  split_ifs <;> rfl

@[simp] theorem flush_mark : c.flush.mark = c.mark := by
  unfold flush
  split_ifs <;> rfl

theorem payload_flush : payload c.flush.wire = payload c.wire ++ c.buffer := by
  unfold flush
  split_ifs with h
  · rw [h, List.append_nil]
  · simp [payload]

theorem close_mem_flush : .close ∈ c.flush.wire ↔ .close ∈ c.wire := by
  unfold flush
  split_ifs <;> simp

end

/-! ## In order -/

/-- What was received is a prefix of what was sent; while the receiver is open, the rest is on the
wire and in the buffer. -/
structure InOrder (c : Channel M) : Prop where
  prefix_sent : c.received <+: c.sent
  whole : c.isOpen = true → c.received ++ payload c.wire ++ c.buffer = c.sent

/-- The buffer does not overtake a batch. -/
def NoOvertaking (c : Channel M) : Op M → Prop
  | .direct => c.isOpen = false ∨ c.buffer = [] ∨ payload c.wire = []
  | _ => True

theorem InOrder.flush {c : Channel M} (h : InOrder c) : InOrder c.flush := by
  refine ⟨by simpa using h.prefix_sent, fun ho => ?_⟩
  rw [flush_isOpen] at ho
  rw [flush_received, payload_flush, flush_buffer, flush_sent, List.append_nil,
    ← List.append_assoc]
  exact h.whole ho

theorem InOrder.hangUp {c : Channel M} (h : InOrder c) : InOrder c.hangUp := by
  refine ⟨h.prefix_sent, fun ho => ?_⟩
  show c.received ++ payload (c.wire ++ [.close]) ++ c.buffer = c.sent
  simpa [payload] using h.whole ho

theorem InOrder.step {c : Channel M} (h : InOrder c) (op : Op M) (hok : NoOvertaking c op) :
    InOrder (c.step op) := by
  cases op with
  | push messages =>
      refine ⟨h.prefix_sent.trans (List.prefix_append _ _), fun ho => ?_⟩
      show c.received ++ payload c.wire ++ (c.buffer ++ messages) = c.sent ++ messages
      rw [← List.append_assoc, h.whole ho]
  | flush => exact h.flush
  | direct =>
      cases ho : c.isOpen with
      | false =>
          refine ⟨?_, fun ho' => absurd (ho.symm.trans ho') (by decide)⟩
          simpa [Channel.step, ho] using h.prefix_sent
      | true =>
          have hwhole := h.whole ho
          have heq : c.received ++ c.buffer ++ payload c.wire = c.sent := by
            -- The buffer does not pass anything: it is empty, or nothing is on the wire.
            rcases hok with hc | hb | hw
            · exact absurd (ho.symm.trans hc) (by decide)
            · simpa [hb] using hwhole
            · simpa [hw] using hwhole
          refine ⟨?_, fun _ => ?_⟩
          · simp only [Channel.step, ho, if_true]
            exact ⟨_, heq⟩
          · simpa [Channel.step, ho] using heq
  | close => exact ⟨h.flush.hangUp.prefix_sent, h.flush.hangUp.whole⟩
  | hangUp => exact h.hangUp
  | recv =>
      show InOrder (c.take c.wire)
      cases hw : c.wire with
      | nil => exact h
      | cons p wire =>
          cases p with
          | close => exact ⟨h.prefix_sent, fun ho => nomatch ho⟩
          | batch messages =>
              cases ho : c.isOpen with
              | false =>
                  refine ⟨?_, fun ho' => absurd (ho.symm.trans ho') (by decide)⟩
                  simpa [take, ho] using h.prefix_sent
              | true =>
                  -- The batch that is received is the front of what was on the wire.
                  have hwhole : c.received ++ messages ++ (payload wire ++ c.buffer) = c.sent := by
                    simpa [hw, payload] using h.whole ho
                  refine ⟨?_, fun _ => ?_⟩
                  · simp only [take, ho, if_true]
                    exact ⟨_, hwhole⟩
                  · simpa [take, ho] using hwhole

/-! ## Up to the mark -/

/-- Before the first `close` nothing is lost. From then on the receiver gets what had been sent
before it: the rest of it is on the wire, in front of a `close`. -/
structure UpToMark (c : Channel M) : Prop where
  unmarked : c.mark = none →
    c.isOpen = true ∧ .close ∉ c.wire ∧ c.received ++ payload c.wire ++ c.buffer = c.sent
  marked : ∀ l, c.mark = some l → l <+: c.sent ∧
    (c.isOpen = true → .close ∈ c.wire ∧ c.received ++ deliverable c.wire = l) ∧
    (c.isOpen = false → c.received = l)

/-- Only the sender closes, and the buffer overtakes neither a batch nor a `close`. -/
def OwnClose (c : Channel M) : Op M → Prop
  | .direct => c.isOpen = false ∨ c.buffer = [] ∨ c.mark = none ∧ payload c.wire = []
  | .hangUp => False
  | _ => True

theorem UpToMark.received_prefix {c : Channel M} (h : UpToMark c) : c.received <+: c.sent := by
  cases hm : c.mark with
  | none =>
      obtain ⟨-, -, hsent⟩ := h.unmarked hm
      rw [← hsent, List.append_assoc]
      exact List.prefix_append _ _
  | some l =>
      obtain ⟨hl, ho, hc⟩ := h.marked l hm
      cases hopen : c.isOpen with
      | false => rw [hc hopen]; exact hl
      | true =>
          refine List.IsPrefix.trans ?_ hl
          rw [← (ho hopen).2]
          exact List.prefix_append _ _

theorem UpToMark.flush {c : Channel M} (h : UpToMark c) : UpToMark c.flush := by
  refine ⟨fun hm => ?_, fun l hm => ?_⟩
  · rw [flush_mark] at hm
    obtain ⟨ho, hw, hsent⟩ := h.unmarked hm
    refine ⟨by rwa [flush_isOpen], by rwa [close_mem_flush], ?_⟩
    rw [flush_received, payload_flush, flush_buffer, flush_sent, List.append_nil,
      ← List.append_assoc]
    exact hsent
  · rw [flush_mark] at hm
    obtain ⟨hl, ho, hc⟩ := h.marked l hm
    refine ⟨by rwa [flush_sent], fun hopen => ?_, fun hclosed => ?_⟩
    · rw [flush_isOpen] at hopen
      obtain ⟨hw, hsent⟩ := ho hopen
      refine ⟨(close_mem_flush c).mpr hw, ?_⟩
      rw [flush_received, ← hsent]
      unfold Channel.flush
      split_ifs
      · rfl
      · exact congrArg _ (deliverable_append_of_close hw _)
    · rw [flush_isOpen] at hclosed
      rw [flush_received]
      exact hc hclosed

/-- Closing on an empty buffer: what has been sent is on the wire, in front of the `close`. -/
theorem UpToMark.mark {c : Channel M} (h : UpToMark c) (hb : c.buffer = []) :
    UpToMark { c.hangUp with mark := c.mark.or (some c.sent) } := by
  refine ⟨fun hm => ?_, fun l hm => ?_⟩
  · exact absurd hm (by simp)
  · cases hc : c.mark with
    | none =>
        obtain ⟨ho, hw, hsent⟩ := h.unmarked hc
        have hl : c.sent = l := by simpa [hc] using hm
        refine ⟨hl ▸ List.prefix_refl _, fun _ => ⟨by simp [Channel.hangUp], ?_⟩, fun hclosed =>
          absurd (ho.symm.trans hclosed) (by decide)⟩
        show c.received ++ deliverable (c.wire ++ [.close]) = l
        rw [deliverable_append_close, deliverable_of_no_close hw, ← hl, ← hsent, hb,
          List.append_nil]
    | some l' =>
        have hl : l' = l := by simpa [hc] using hm
        obtain ⟨hpre, ho, hclosed⟩ := h.marked l (hl ▸ hc)
        refine ⟨hpre, fun hopen => ?_, hclosed⟩
        obtain ⟨hw, hsent⟩ := ho hopen
        refine ⟨List.mem_append_left _ hw, ?_⟩
        show c.received ++ deliverable (c.wire ++ [.close]) = l
        rw [deliverable_append_close]
        exact hsent

theorem UpToMark.step {c : Channel M} (h : UpToMark c) (op : Op M) (hok : OwnClose c op) :
    UpToMark (c.step op) := by
  cases op with
  | push messages =>
      refine ⟨fun hm => ?_, fun l hm => ?_⟩
      · obtain ⟨ho, hw, hsent⟩ := h.unmarked hm
        refine ⟨ho, hw, ?_⟩
        show c.received ++ payload c.wire ++ (c.buffer ++ messages) = c.sent ++ messages
        rw [← List.append_assoc, hsent]
      · obtain ⟨hl, hrest⟩ := h.marked l hm
        exact ⟨hl.trans (List.prefix_append _ _), hrest⟩
  | flush => exact h.flush
  | direct =>
      refine ⟨fun hm => ?_, fun l hm => ?_⟩
      · obtain ⟨ho, hw, hsent⟩ := h.unmarked hm
        refine ⟨ho, hw, ?_⟩
        rcases hok with hc | hb | ⟨-, hp⟩
        · exact absurd (ho.symm.trans hc) (by decide)
        · simpa [Channel.step, ho, hb] using hsent
        · simpa [Channel.step, ho, hp] using hsent
      · obtain ⟨hl, ho, hc⟩ := h.marked l hm
        refine ⟨hl, fun hopen => ?_, fun hclosed => ?_⟩
        · obtain ⟨hw, hsent⟩ := ho hopen
          refine ⟨hw, ?_⟩
          -- After the mark the buffer is empty, or the receiver is closed.
          rcases hok with hc | hb | ⟨hnone, -⟩
          · exact absurd (hc.symm.trans hopen) (by decide)
          · simpa [Channel.step, hb] using hsent
          · exact absurd (hnone.symm.trans hm) (by simp)
        · have hclosed' : c.isOpen = false := hclosed
          simpa [Channel.step, hclosed'] using hc hclosed'
  | close =>
      have hmark := h.flush.mark (flush_buffer c)
      rwa [flush_mark, flush_sent] at hmark
  | hangUp => exact hok.elim
  | recv =>
      show UpToMark (c.take c.wire)
      cases hw : c.wire with
      | nil => exact h
      | cons p wire =>
          cases p with
          | close =>
              refine ⟨fun hm => ?_, fun l hm => ?_⟩
              · exact absurd (h.unmarked hm).2.1 (by simp [hw])
              · obtain ⟨hl, ho, hc⟩ := h.marked l hm
                refine ⟨hl, fun hopen => (nomatch hopen), fun _ => ?_⟩
                cases hopen : c.isOpen with
                | false => exact hc hopen
                | true =>
                    -- The first `close` arrives: nothing that counts is behind it.
                    have hsent := (ho hopen).2
                    rw [hw] at hsent
                    simpa [take, deliverable] using hsent
          | batch messages =>
              refine ⟨fun hm => ?_, fun l hm => ?_⟩
              · obtain ⟨ho, hno, hsent⟩ := h.unmarked hm
                rw [hw] at hno hsent
                exact ⟨ho, by simpa [take] using hno, by simpa [take, ho, payload] using hsent⟩
              · obtain ⟨hl, ho, hc⟩ := h.marked l hm
                refine ⟨hl, fun hopen => ?_, fun hclosed => ?_⟩
                · have hopen' : c.isOpen = true := hopen
                  obtain ⟨hmem, hsent⟩ := ho hopen'
                  rw [hw] at hmem hsent
                  exact ⟨by simpa [take] using hmem,
                    by simpa [take, hopen', deliverable] using hsent⟩
                · have hclosed' : c.isOpen = false := hclosed
                  simpa [take, hclosed'] using hc hclosed'

/-! ## Nothing after the mark -/

/-- If nothing has been sent since the sender closed, its buffer is empty. -/
def Spent (c : Channel M) : Prop := ∀ l, c.mark = some l → c.sent = l → c.buffer = []

theorem Spent.step {c : Channel M} (h : Spent c) (hup : UpToMark c) (op : Op M) :
    Spent (c.step op) := by
  cases op with
  | push messages =>
      intro l hm hl
      have hl' : c.sent ++ messages = l := hl
      obtain ⟨more, hmore⟩ := (hup.marked l hm).1
      rw [← hmore, List.append_assoc] at hl'
      obtain ⟨rfl, rfl⟩ : more = [] ∧ messages = [] := by simpa using hl'
      have hsent : c.sent = l := by rw [← hmore, List.append_nil]
      show c.buffer ++ [] = []
      rw [h l hm hsent, List.append_nil]
  | flush => exact fun _ _ _ => flush_buffer c
  | direct => exact fun _ _ _ => rfl
  | close => exact fun _ _ _ => flush_buffer c
  | hangUp => exact h
  | recv =>
      show Spent (c.take c.wire)
      cases hw : c.wire with
      | nil => exact h
      | cons p wire => cases p <;> exact h

/-- A sender that does not flush has nothing on the wire until it closes. -/
def Unbatched (c : Channel M) : Prop := c.mark = none → c.wire = []

/-- The sender moves its buffer onto the wire only when it closes. -/
def NoFlush (_ : Channel M) : Op M → Prop
  | .flush | .hangUp => False
  | _ => True

theorem Unbatched.step {c : Channel M} (h : Unbatched c) (op : Op M) (hok : NoFlush c op) :
    Unbatched (c.step op) := by
  cases op with
  | push messages => exact h
  | flush => exact hok.elim
  | direct => exact h
  | close =>
      intro hm
      exact absurd hm (by simp [Channel.step])
  | hangUp => exact hok.elim
  | recv =>
      intro hm
      show (c.take c.wire).wire = []
      cases hw : c.wire with
      | nil => exact hw
      | cons p wire =>
          have hm' : c.mark = none := by
            rw [Channel.step, hw] at hm
            cases p <;> exact hm
          rw [h hm'] at hw
          cases hw

/-! ## Complete -/

/-- Nothing is left in the buffer and no batch is behind a `close`: everything that was sent has
been or will be received. -/
structure Complete (c : Channel M) : Prop where
  buffer : c.buffer = []
  wire : c.isOpen = true → deliverable c.wire = payload c.wire
  closed : c.isOpen = false → c.received = c.sent

/-- No message is pushed. -/
def NoPush (_ : Channel M) : Op M → Prop
  | .push _ => False
  | _ => True

theorem Complete.hangUp {c : Channel M} (h : Complete c) : Complete c.hangUp := by
  refine ⟨h.buffer, fun ho => ?_, h.closed⟩
  show deliverable (c.wire ++ [.close]) = payload (c.wire ++ [.close])
  rw [deliverable_append_close, h.wire ho]
  simp [payload]

theorem Complete.step {c : Channel M} (h : Complete c) (hord : InOrder c) (op : Op M)
    (hok : NoPush c op) : Complete (c.step op) := by
  have hflush : c.flush = c := if_pos h.buffer
  cases op with
  | push messages => exact hok.elim
  | flush =>
      rw [Channel.step, hflush]
      exact h
  | direct =>
      refine ⟨rfl, h.wire, fun hc => ?_⟩
      have hc' : c.isOpen = false := hc
      simpa [Channel.step, hc'] using h.closed hc'
  | close =>
      rw [Channel.step, hflush]
      exact ⟨h.hangUp.buffer, h.hangUp.wire, h.hangUp.closed⟩
  | hangUp => exact h.hangUp
  | recv =>
      show Complete (c.take c.wire)
      cases hw : c.wire with
      | nil => exact h
      | cons p wire =>
          cases p with
          | close =>
              refine ⟨h.buffer, fun ho => (nomatch ho), fun _ => ?_⟩
              cases ho : c.isOpen with
              | false => exact h.closed ho
              | true =>
                  have hnone : payload wire = [] := by
                    simpa [hw, deliverable, payload] using (h.wire ho).symm
                  simpa [hw, take, payload, hnone, h.buffer] using hord.whole ho
          | batch messages =>
              refine ⟨h.buffer, fun ho => ?_, fun hc => ?_⟩
              · simpa [hw, take, deliverable, payload] using h.wire ho
              · have hc' : c.isOpen = false := hc
                simpa [take, hc'] using h.closed hc'

end Channel
