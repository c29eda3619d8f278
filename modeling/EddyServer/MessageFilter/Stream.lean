import EddyServer.MessageFilter.Codec

/-!
# What the default filter makes of any stream

The bytes in front of a filter need not come from `write`: a peer can send any header. Whatever it
sends, what `write` makes of the messages received so far is what has been consumed, up to a header
that still waits for its body.
-/

namespace EddyServer
namespace MessageFilter

open NetMessage (Junk)

variable {host : ByteOrder} {junk : Junk}

/-- The two bytes of a header that has been read and whose body has not. -/
def heldHeader (host : ByteOrder) (f : MessageFilter) : List UInt8 :=
  if f.headerRead then host.toMemory (host.htons f.header) else []

theorem heldHeader_eq (host : ByteOrder) (f : MessageFilter) (out : List (List UInt8)) :
    Framing.frames networkHeader out ++ f.heldHeader host =
      Framing.consumed networkHeader f.pending out := by
  have hmemory : host.toMemory (host.htons f.header) = networkHeader.encode f.header.toNat := by
    rw [← toMemory_htons host, BitVec.ofNat_toNat, BitVec.setWidth_eq]
  cases h : f.headerRead with
  | false => simp [heldHeader, pending, h]
  | true => simp [heldHeader, pending, h, hmemory]

namespace Driver

/-- `read` makes well-formed messages, whatever the stream holds. -/
theorem step_wf {d d' : Driver} (h : d.step host junk = some d') (hd : ∀ m ∈ d.received, m.WF) :
    ∀ m ∈ d'.received, m.WF := by
  unfold step at h
  dsimp only at h
  split_ifs at h with hlt
  cases h
  have hlen : (d.rest.take d.filter.bytesWannaRead).length = d.filter.bytesWannaRead := by
    rw [List.length_take, Nat.min_eq_left (Nat.le_of_not_lt hlt)]
  obtain ⟨-, -, -, hwf⟩ := read_spec host junk hlen
  intro m hm
  rcases List.mem_append.mp hm with hm | hm
  · exact hd m hm
  · exact hwf m hm

theorem run_wf (k : Nat) {d : Driver} (hd : ∀ m ∈ d.received, m.WF) :
    ∀ m ∈ (d.run host junk k).received, m.WF := by
  induction k generalizing d with
  | zero => exact hd
  | succ k ih =>
      rw [run]
      cases h : d.step host junk with
      | none => exact hd
      | some d' => exact ih (step_wf h hd)

theorem view_step {d d' : Driver} (h : d.step host junk = some d') :
    d.view.step networkHeader = some d'.view := by
  rw [← map_view_step host junk, h, Option.map_some]

theorem exists_step_eq_none (d : Driver) : ∃ k, (d.run host junk k).step host junk = none := by
  obtain ⟨k, hk⟩ := Framing.Reader.exists_step_eq_none (H := networkHeader) Nat.two_pos d.view
  refine ⟨k, ?_⟩
  rw [← view_run, ← map_view_step host junk] at hk
  exact Option.map_eq_none_iff.mp hk

end Driver

/-- **Encoding undoes decoding.** In front of any stream of bytes and after any number of steps,
what `write` makes of the received messages, the header that still waits for its body and what has
not been consumed are the stream. Two steps in a row consume at least two bytes, and at some point
no further step can be taken. -/
theorem encode_undoes_decode (host : ByteOrder) (junk : Junk) (header : BitVec 16)
    (stream : List UInt8) :
    (∀ k (f : MessageFilter), let d := (Driver.start header stream).run host junk k
      (f.write host d.received).appended ++ d.filter.heldHeader host ++ d.rest = stream) ∧
    (∀ d d' d'' : Driver, d.step host junk = some d' → d'.step host junk = some d'' →
      d''.rest.length + 2 ≤ d.rest.length) ∧
    ∃ k, ((Driver.start header stream).run host junk k).step host junk = none := by
  refine ⟨fun k f => ?_, fun d d' d'' h h' => ?_, Driver.exists_step_eq_none _⟩
  · intro d
    have hwf : ∀ m ∈ d.received, m.WF := Driver.run_wf k fun m hm => absurd hm List.not_mem_nil
    have hview : d.view = (Driver.start header stream).view.run networkHeader k :=
      Driver.view_run k _
    have hconsumed := Framing.Reader.consumed_run (H := networkHeader) k
      (Driver.start header stream).view
    rw [← hview] at hconsumed
    rw [appended_write host f hwf, heldHeader_eq]
    exact hconsumed.trans (by simp [Driver.view, Driver.start, new, pending])
  · exact Framing.Reader.length_step_step (Driver.view_step h) (Driver.view_step h')

end MessageFilter
end EddyServer
