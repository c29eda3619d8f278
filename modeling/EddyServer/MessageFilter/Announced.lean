import EddyServer.MessageFilter.Oversize
import EddyServer.TCPSession.Basic

/-!
# The size that is announced and the size that is written

`bytes_wanna_write` adds up in an `int`, because that is the type of the initial value it gives to
`std::accumulate`; `write` adds up in a `size_t`. The `int` comes back as a `size_t` with its sign.
The two agree below `2 ^ 31`, and again where the size itself looks like a negative `int`.
-/

namespace EddyServer
namespace MessageFilter

open NetMessage (Junk)

/-- The number of bytes that the list has when it is encoded. -/
def encodedSize (messages : List NetMessage) : Nat :=
  (messages.map fun m => headerSize + m.readable).sum

/-- A size that an `int` keeps when it is widened with its sign. -/
def Announceable (size : Nat) : Prop := size < 2 ^ 31 ∨ 2 ^ 64 - 2 ^ 31 ≤ size

instance (size : Nat) : Decidable (Announceable size) := inferInstanceAs (Decidable (_ ∨ _))

/-! ## What is announced -/

/-- The narrowing at every step adds up to one narrowing at the end. -/
theorem accumulate_eq (sum : BitVec 32) (message : NetMessage) :
    accumulate sum message = sum + BitVec.ofNat 32 (headerSize + message.readable) := by
  apply BitVec.eq_of_toNat_eq
  -- widening and narrowing again gives the `int` back
  have hsum : (sum.signExtend 64).toNat % 2 ^ 32 = sum.toNat := by
    rw [BitVec.toNat_signExtend, BitVec.toNat_setWidth]
    have hlt := sum.isLt
    split_ifs <;> omega
  simp only [accumulate, BitVec.toNat_setWidth, BitVec.toNat_add, BitVec.toNat_ofNat]
  omega

theorem foldl_accumulate (messages : List NetMessage) (sum : BitVec 32) :
    messages.foldl accumulate sum = sum + BitVec.ofNat 32 (encodedSize messages) := by
  induction messages generalizing sum with
  | nil => simp [encodedSize]
  | cons m messages ih =>
      rw [List.foldl_cons, ih, accumulate_eq, BitVec.add_assoc, ← BitVec.ofNat_add]
      rfl

theorem bytesWannaWrite_eq_signExtend (messages : List NetMessage) :
    bytesWannaWrite messages =
      ((BitVec.ofNat 32 (encodedSize messages)).signExtend 64).toNat := by
  cases messages with
  | nil => rfl
  | cons m messages =>
      rw [bytesWannaWrite, if_neg (by simp), foldl_accumulate, zero_add]

/-- What becomes of a size on its way through an `int`. -/
theorem toNat_signExtend_ofNat (size : Nat) :
    ((BitVec.ofNat 32 size).signExtend 64).toNat =
      if size % 2 ^ 32 < 2 ^ 31 then size % 2 ^ 32 else 2 ^ 64 - 2 ^ 32 + size % 2 ^ 32 := by
  rw [BitVec.toNat_signExtend, BitVec.toNat_setWidth, BitVec.toNat_ofNat, BitVec.msb_eq_decide,
    BitVec.toNat_ofNat]
  simp only [decide_eq_true_eq]
  split_ifs <;> omega

theorem bytesWannaWrite_eq_iff {messages : List NetMessage} (hsize : encodedSize messages < 2 ^ 64) :
    bytesWannaWrite messages = encodedSize messages ↔ Announceable (encodedSize messages) := by
  rw [bytesWannaWrite_eq_signExtend, toNat_signExtend_ofNat, Announceable]
  split_ifs <;> omega

/-! ## What is written -/

theorem foldl_writeOne_bytes (host : ByteOrder) {messages : List NetMessage}
    {acc : Nat × List UInt8} (h : acc.1 + encodedSize messages < 2 ^ 64) :
    (messages.foldl (writeOne host) acc).1 = acc.1 + encodedSize messages := by
  induction messages generalizing acc with
  | nil => rfl
  | cons m messages ih =>
      have hcons : encodedSize (m :: messages) =
          (headerSize + m.readable) + encodedSize messages := List.sum_cons
      rw [hcons] at h ⊢
      have hone : (writeOne host acc m).1 = acc.1 + (headerSize + m.readable) := by
        rw [writeOne, SizeT.add_eq (show headerSize + m.readable < 2 ^ 64 by omega),
          SizeT.add_eq (by omega)]
      rw [List.foldl_cons, ih (by rw [hone]; omega), hone, Nat.add_assoc]

theorem bytes_write (host : ByteOrder) (f : MessageFilter) {messages : List NetMessage}
    (hsize : encodedSize messages < 2 ^ 64) :
    (f.write host messages).bytes = encodedSize messages :=
  (foldl_writeOne_bytes host (by rwa [Nat.zero_add])).trans (Nat.zero_add _)

theorem length_frames {messages : List NetMessage} (hwf : ∀ m ∈ messages, m.WF) :
    (Framing.frames networkHeader (messages.map NetMessage.content)).length =
      encodedSize messages := by
  induction messages with
  | nil => rfl
  | cons m messages ih =>
      rw [List.map_cons, Framing.frames_cons, List.length_append, Framing.length_frame,
        (hwf m List.mem_cons_self).length_content,
        ih fun m' hm' => hwf m' (List.mem_cons_of_mem _ hm')]
      rfl

theorem length_appended (host : ByteOrder) (f : MessageFilter) {messages : List NetMessage}
    (hwf : ∀ m ∈ messages, m.WF) :
    (f.write host messages).appended.length = encodedSize messages := by
  rw [appended_write host f hwf, length_frames hwf]

/-! ## What `post_message_list` makes of it -/

/-- The write that an idle session starts covers the encoded bytes if they were announced. -/
theorem postMessageList_announced (host : ByteOrder) (junk : Junk)
    {s : TCPSession MessageFilter} {messages : List NetMessage} (hwf : ∀ m ∈ messages, m.WF)
    (hopen : s.closed = false) (hidle : s.bufferSending = []) (hempty : s.bufferToBeSent = [])
    (hsome : messages ≠ []) (hmax : encodedSize messages ≤ vectorMaxSize)
    (hannounced : bytesWannaWrite messages = encodedSize messages) :
    ∃ s', s.postMessageList (messageFilter host junk) messages = some s' ∧
      s'.socket.writing = s.socket.writing ++ [(s.msgFilter.write host messages).appended] := by
  have hlen := length_appended host s.msgFilter hwf
  -- the batch is not empty and every message has a header, so its size is not zero
  have hpos : bytesWannaWrite messages ≠ 0 := by
    obtain ⟨m, rest, rfl⟩ := List.exists_cons_of_ne_nil hsome
    have hcons : encodedSize (m :: rest) = (headerSize + m.readable) + encodedSize rest :=
      List.sum_cons
    rw [hannounced, hcons, headerSize]
    omega
  -- `reserve` does not throw
  have hroom : ¬ SizeT.add s.bufferToBeSent.length (bytesWannaWrite messages) > vectorMaxSize := by
    have hlt : encodedSize messages < 2 ^ 64 := by
      unfold vectorMaxSize at hmax
      omega
    rw [hempty, List.length_nil, hannounced, SizeT.add_eq (by rwa [Nat.zero_add])]
    omega
  have hfalse : ¬ (s.closed || messages.isEmpty) = true := by simp [hopen, hsome]
  unfold TCPSession.postMessageList messageFilter
  dsimp only
  rw [if_neg hfalse, if_neg hpos, if_neg hroom, hidle, if_pos List.isEmpty_nil]
  refine ⟨_, rfl, ?_⟩
  dsimp only [Socket.asyncWrite]
  rw [hempty, List.nil_append, hannounced, ← hlen, List.take_length]

/-- And only then: a smaller size cuts the write short or drops the batch, and a size that has come
back negative makes `reserve` throw. -/
theorem announced_of_postMessageList (host : ByteOrder) (junk : Junk)
    {s s' : TCPSession MessageFilter} {messages : List NetMessage} (hwf : ∀ m ∈ messages, m.WF)
    (hopen : s.closed = false) (hidle : s.bufferSending = []) (hempty : s.bufferToBeSent = [])
    (hsome : messages ≠ [])
    (h : s.postMessageList (messageFilter host junk) messages = some s')
    (hwriting : s'.socket.writing =
      s.socket.writing ++ [(s.msgFilter.write host messages).appended]) :
    bytesWannaWrite messages = encodedSize messages := by
  have hlen := length_appended host s.msgFilter hwf
  have hfalse : ¬ (s.closed || messages.isEmpty) = true := by simp [hopen, hsome]
  unfold TCPSession.postMessageList messageFilter at h
  dsimp only at h
  rw [if_neg hfalse, hidle, if_pos List.isEmpty_nil] at h
  split_ifs at h with hzero hroom
  · -- the batch is dropped
    cases h
    simp at hwriting
  · cases h
    dsimp only [Socket.asyncWrite] at hwriting
    have hrange := List.singleton_inj.mp (List.append_cancel_left hwriting)
    -- `async_write` was given the announced number of bytes and no more
    have hcut := congrArg List.length hrange
    rw [hempty, List.nil_append, List.length_take, hlen] at hcut
    -- a size that is at least what is written and passes `reserve` has lost nothing
    have hbound : bytesWannaWrite messages ≤ vectorMaxSize := by
      rw [hempty, List.length_nil] at hroom
      have hlt : bytesWannaWrite messages < 2 ^ 64 := by
        rw [bytesWannaWrite_eq_signExtend]
        exact BitVec.isLt _
      rw [SizeT.add_eq (by rwa [Nat.zero_add])] at hroom
      omega
    rw [bytesWannaWrite_eq_signExtend, toNat_signExtend_ofNat] at hcut hbound ⊢
    unfold vectorMaxSize at hbound
    split_ifs at hcut hbound ⊢ with hsign <;> omega

/-- **The announced size.** What `write` returns is the number of bytes it appends. What
`bytes_wanna_write` announces is that number, and an idle session hands all encoded bytes to
`async_write`, exactly when the number survives the way through an `int`. -/
theorem announced_eq_written_iff (host : ByteOrder) (junk : Junk) (f : MessageFilter)
    {messages : List NetMessage} (hwf : ∀ m ∈ messages, m.WF)
    (hsize : encodedSize messages < 2 ^ 64) :
    (f.write host messages).bytes = (f.write host messages).appended.length ∧
    (bytesWannaWrite messages = (f.write host messages).bytes ∧
        bytesWannaWrite messages = (f.write host messages).appended.length ↔
      Announceable (encodedSize messages)) ∧
    ∀ s : TCPSession MessageFilter, s.closed = false → s.bufferSending = [] →
      s.bufferToBeSent = [] → messages ≠ [] → encodedSize messages ≤ vectorMaxSize →
      ((∃ s', s.postMessageList (messageFilter host junk) messages = some s' ∧
          s'.socket.writing = s.socket.writing ++ [(s.msgFilter.write host messages).appended]) ↔
        Announceable (encodedSize messages)) := by
  have hbytes := bytes_write host f hsize
  have hlen := length_appended host f hwf
  refine ⟨hbytes.trans hlen.symm, ?_, fun s hopen hidle hempty hsome hmax => ?_⟩
  · rw [hbytes, hlen, and_self]
    exact bytesWannaWrite_eq_iff hsize
  · rw [← bytesWannaWrite_eq_iff hsize]
    constructor
    · rintro ⟨s', h, hwriting⟩
      exact announced_of_postMessageList host junk hwf hopen hidle hempty hsome h hwriting
    · exact postMessageList_announced host junk hwf hopen hidle hempty hsome hmax

/-! ## Two gigabytes -/

/-- 65534 sevens in a vector: a frame of `2 ^ 16` bytes. -/
def long : NetMessage :=
  { isDynmic := true
    readerPos := 0
    writerPos := 65534
    dynamicData := some (List.replicate 65534 7)
    staticData := List.replicate 128 0 }

theorem readable_long : long.readable = 65534 := rfl

/-- Half of `2 ^ 16` such messages are announced as a negative number. -/
theorem two_gigabytes_announced_wrongly :
    encodedSize (List.replicate (2 ^ 15) long) = 2 ^ 31 ∧
      ((new 0).write .little (List.replicate (2 ^ 15) long)).bytes = 2 ^ 31 ∧
      bytesWannaWrite (List.replicate (2 ^ 15) long) = 2 ^ 64 - 2 ^ 31 := by
  have hsize : encodedSize (List.replicate (2 ^ 15) long) = 2 ^ 31 := by
    rw [encodedSize, List.map_replicate, List.sum_replicate, readable_long]
    rfl
  refine ⟨hsize, ?_, ?_⟩
  · rw [bytes_write .little _ (by rw [hsize]; decide), hsize]
  · rw [bytesWannaWrite_eq_signExtend, hsize, toNat_signExtend_ofNat]
    decide

/-- A batch of one message of one byte, on a session that is open and idle. -/
theorem announced_eq_written_one_byte :
    let s : TCPSession MessageFilter := { TCPSession.new 1 (new 0) 0 with closed := false }
    (bytesWannaWrite [oneByteMessage 1] = ((new 0).write .big [oneByteMessage 1]).bytes ∧
      bytesWannaWrite [oneByteMessage 1] = ((new 0).write .big [oneByteMessage 1]).appended.length) ∧
    ∃ s', s.postMessageList (messageFilter .big .zeros) [oneByteMessage 1] = some s' ∧
      s'.socket.writing = [(s.msgFilter.write .big [oneByteMessage 1]).appended] := by
  intro s
  have hwf : ∀ m ∈ [oneByteMessage 1], m.WF := by decide +kernel
  have hsize : Announceable (encodedSize [oneByteMessage 1]) := by decide +kernel
  obtain ⟨-, hannounced, hposted⟩ :=
    announced_eq_written_iff .big .zeros (new 0) hwf (by decide +kernel)
  exact ⟨hannounced.mpr hsize,
    (hposted s rfl rfl rfl (List.cons_ne_nil _ _) (by decide +kernel)).mpr hsize⟩

end MessageFilter
end EddyServer
