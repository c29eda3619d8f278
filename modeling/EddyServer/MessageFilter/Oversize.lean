import EddyServer.MessageFilter.Codec

/-!
# Where the header stops describing the body

Nothing between `TCPSessionHandler::send` and the wire limits the size of a message, and `write`
casts the size to 16 bits for the header while it appends the body in full. The header of a frame
therefore equals the number of body bytes behind it exactly for messages of at most 65535 bytes.
-/

namespace EddyServer
namespace MessageFilter

open NetMessage (Junk)

/-- Every frame that `write` appends for the list announces, to a peer, exactly the body bytes that
follow it. The frame of `m` starts where the frames of the messages before it end. -/
def FramesIntact (host peer : ByteOrder) (messages : List NetMessage) : Prop :=
  ∀ before m after, messages = before ++ m :: after →
    let frame := (encode host messages).drop (encode host before).length
    (peer.ntohs (peer.ofMemory frame)).toNat = m.content.length ∧
      (frame.drop headerSize).take m.content.length = m.content

/-- Every message of at most 65535 bytes comes out of a fresh filter of a peer, unchanged and at
its place in the list. -/
def ShortDecoded (host peer : ByteOrder) (junk : Junk) (header : BitVec 16)
    (messages : List NetMessage) : Prop :=
  ∀ before m after, messages = before ++ m :: after → m.readable ≤ 65535 →
    ∃ k, let d := (Driver.start header (encode host messages)).run peer junk k
      d.received.length = before.length + 1 ∧
        (d.received.map NetMessage.content).getLast? = some m.content

/-- A header decodes to the length modulo `2 ^ 16`, whatever follows it. -/
theorem decode_encode_append (n : Nat) (tail : List UInt8) :
    networkHeader.decode (networkHeader.encode n ++ tail) = n % 2 ^ 16 :=
  networkHeader.decode_encode n

/-- The stream from the frame of `m` on. -/
theorem drop_encode (host : ByteOrder) {before after : List NetMessage} {m : NetMessage}
    (hwf : ∀ m' ∈ before ++ m :: after, m'.WF) :
    (encode host (before ++ m :: after)).drop (encode host before).length =
      networkHeader.encode m.content.length ++
        (m.content ++ Framing.frames networkHeader (after.map NetMessage.content)) := by
  rw [encode_eq host hwf, encode_eq host fun m' hm' => hwf m' (List.mem_append_left _ hm'),
    List.map_append, Framing.frames_append, List.drop_left, List.map_cons, Framing.frames_cons,
    Framing.frame, List.append_assoc]

/-- The header a peer finds in front of a message is its size modulo `2 ^ 16`; the body behind the
header is always complete. -/
theorem frame_at (host peer : ByteOrder) {before after : List NetMessage} {m : NetMessage}
    (hwf : ∀ m' ∈ before ++ m :: after, m'.WF) :
    let frame := (encode host (before ++ m :: after)).drop (encode host before).length
    (peer.ntohs (peer.ofMemory frame)).toNat = m.content.length % 2 ^ 16 ∧
      (frame.drop headerSize).take m.content.length = m.content := by
  intro frame
  have hframe : frame = _ := drop_encode host hwf
  refine ⟨?_, ?_⟩
  · rw [toNat_ntohs, hframe, decode_encode_append]
  · have hwidth : headerSize = (networkHeader.encode m.content.length).length := rfl
    rw [hframe, hwidth, List.drop_left, List.take_left]

/-- The frames of a list are intact exactly when no message exceeds the header's range. -/
theorem framesIntact_iff (host peer : ByteOrder) {messages : List NetMessage}
    (hwf : ∀ m ∈ messages, m.WF) :
    FramesIntact host peer messages ↔ ∀ m ∈ messages, m.readable ≤ 65535 := by
  constructor
  · intro h m hm
    obtain ⟨before, after, rfl⟩ := List.append_of_mem hm
    have hheader := (h before m after rfl).1
    rw [(frame_at host peer hwf).1] at hheader
    rw [← (hwf m hm).length_content]
    omega
  · rintro h before m after rfl
    have hm : m ∈ before ++ m :: after := List.mem_append_right _ List.mem_cons_self
    have hshort := h m hm
    rw [← (hwf m hm).length_content] at hshort
    obtain ⟨hheader, hbody⟩ := frame_at host peer hwf
    exact ⟨by rw [hheader, Nat.mod_eq_of_lt (by omega)], hbody⟩

/-- Behind intact frames every message is decoded at its place. -/
theorem shortDecoded_of_short (host peer : ByteOrder) (junk : Junk) (header : BitVec 16)
    {messages : List NetMessage} (hwf : ∀ m ∈ messages, m.WF)
    (hshort : ∀ m ∈ messages, m.readable ≤ 65535) :
    ShortDecoded host peer junk header messages := by
  rintro before m after rfl -
  refine ⟨2 * ((before ++ [m]).map NetMessage.content).length, ?_⟩
  intro d
  have hbodies : ∀ b ∈ (before ++ [m]).map NetMessage.content, b.length < 2 ^ 16 := by
    intro b hb
    obtain ⟨m', hm', rfl⟩ := List.mem_map.mp hb
    have hmem : m' ∈ before ++ m :: after := by
      rw [List.append_cons]
      exact List.mem_append_left _ hm'
    rw [(hwf m' hmem).length_content]
    have := hshort m' hmem
    omega
  have hstream : encode host (before ++ m :: after) =
      Framing.frames networkHeader ((before ++ [m]).map NetMessage.content) ++
        Framing.frames networkHeader (after.map NetMessage.content) := by
    rw [encode_eq host hwf, ← Framing.frames_append, ← List.map_append, List.append_assoc]
    rfl
  have hd : d.received.map NetMessage.content = (before ++ [m]).map NetMessage.content := by
    have h := (Driver.run_frames peer junk hbodies header
      (Framing.frames networkHeader (after.map NetMessage.content))).1
    rwa [← hstream] at h
  refine ⟨?_, ?_⟩
  · have hlen := congrArg List.length hd
    simpa using hlen
  · rw [hd]; simp

/-- **A message never corrupts the framing of its neighbours** — for every list of well-formed
messages, exactly when none of them holds more than 65535 bytes. -/
theorem framing_intact_iff_short (host peer : ByteOrder) (junk : Junk) (header : BitVec 16)
    (messages : List NetMessage) (hwf : ∀ m ∈ messages, m.WF) :
    FramesIntact host peer messages ∧ ShortDecoded host peer junk header messages ↔
      ∀ m ∈ messages, m.readable ≤ 65535 :=
  ⟨fun h => (framesIntact_iff host peer hwf).mp h.1,
   fun h => ⟨(framesIntact_iff host peer hwf).mpr h,
     shortDecoded_of_short host peer junk header hwf h⟩⟩

/-! ### A message of 65536 bytes -/

/-- 65536 sevens in a vector. -/
def oversized : NetMessage :=
  { isDynmic := true
    readerPos := 0
    writerPos := 65536
    dynamicData := some (List.replicate 65536 7)
    staticData := List.replicate 128 0 }

theorem wf_oversized : oversized.WF where
  static_length := List.length_replicate
  present := fun _ => rfl
  reader_le := Nat.zero_le _
  writer_le := by
    rw [NetMessage.storage_dynamic (v := List.replicate 65536 7) rfl rfl, List.length_replicate]
    exact Nat.le_refl _
  storage_le := by
    rw [NetMessage.storage_dynamic (v := List.replicate 65536 7) rfl rfl, List.length_replicate]
    decide

/-- The two bytes in front of the 65536 announce an empty body. -/
theorem oversized_breaks_framing :
    ¬ (FramesIntact .little .little [oversized, oneByteMessage 1] ∧
      ShortDecoded .little .little ⟨List.replicate 128 0, rfl⟩ 0 [oversized, oneByteMessage 1]) := by
  rintro ⟨h, -⟩
  have hwf : ∀ m ∈ [oversized, oneByteMessage 1], m.WF := by
    intro m hm
    rcases List.mem_cons.mp hm with rfl | hm
    · exact wf_oversized
    · rw [List.mem_singleton.mp hm]; decide +kernel
  have hsize := (framesIntact_iff .little .little hwf).mp h oversized List.mem_cons_self
  rw [wf_oversized.readable_eq] at hsize
  exact absurd hsize (by decide)

/-- The condition met: two one-byte messages keep each other's framing. -/
theorem one_byte_messages_keep_framing :
    FramesIntact .little .big [oneByteMessage 1, oneByteMessage 2] ∧
      ShortDecoded .little .big ⟨List.replicate 128 0, rfl⟩ 0
        [oneByteMessage 1, oneByteMessage 2] :=
  (framing_intact_iff_short .little .big ⟨List.replicate 128 0, rfl⟩ 0
    [oneByteMessage 1, oneByteMessage 2] (by decide +kernel)).mpr (by decide +kernel)

end MessageFilter
end EddyServer
