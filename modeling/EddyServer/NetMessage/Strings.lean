import EddyServer.NetMessage.Operations

/-!
# Reading strings out of a message

`read_string` looks for a terminator, `read_lenght_and_string` trusts a length. Both come from the
peer. What a reader touches is recorded: it may lie outside the readable bytes, in what older
content has left in the storage, or outside the storage. What the memory behind the storage holds is
an argument; where it ends an access faults.
-/

namespace EddyServer

/-- The `uint32_t` at the start of a piece of memory. -/
def ByteOrder.ofMemory32 : ByteOrder → List UInt8 → BitVec 32
  | .little, mem => BitVec.ofNat 32 ((mem.getD 0 0).toNat + 2 ^ 8 * (mem.getD 1 0).toNat +
      2 ^ 16 * (mem.getD 2 0).toNat + 2 ^ 24 * (mem.getD 3 0).toNat)
  | .big, mem => BitVec.ofNat 32 (2 ^ 24 * (mem.getD 0 0).toNat + 2 ^ 16 * (mem.getD 1 0).toNat +
      2 ^ 8 * (mem.getD 2 0).toNat + (mem.getD 3 0).toNat)

/-- A range of the storage. -/
structure Range where
  first : Nat
  size : Nat
  deriving DecidableEq

/-- What a reader returns, what it has examined or copied, and the message it leaves. -/
structure StringRead where
  value : List UInt8
  touched : List Range
  message : NetMessage

namespace NetMessage

/-- The memory from `data()` on. -/
def memory (m : NetMessage) (beyond : List UInt8) : List UInt8 :=
  (m.storage ++ beyond).drop m.readerPos

/-- `resize` and `memcpy` into a string that has been cleared. -/
def copyInto (out src : List UInt8) : List UInt8 := overwrite (resize (resize out 0) src.length) 0 src

/-- `read_string(std::string *)`. The scan goes on until it meets a zero, and the zero is not taken
out. The result is `none` if the scan comes to the end of the memory. -/
def readStringInto (beyond : List UInt8) (m : NetMessage) (out : List UInt8) : Option StringRead :=
  ((m.memory beyond).findIdx? (· == 0)).map fun lenght =>
    let scanned : Range := { first := m.readerPos, size := lenght + 1 }
    if lenght > 0 then
      { value := copyInto out ((m.memory beyond).take lenght)
        touched := [scanned, { first := m.readerPos, size := lenght }]
        message := m.retrieve lenght }
    else { value := resize out 0, touched := [scanned], message := m }

/-- `read_string()`: the string that is returned starts empty. -/
def readString (beyond : List UInt8) (m : NetMessage) : Option StringRead :=
  m.readStringInto beyond []

/-- `read_lenght_and_string(std::string *)`. The length is taken out first, which moves both
positions to the start if nothing is left. The result is `none` if the copy comes to the end of the
memory. -/
def readLenghtAndStringInto (host : ByteOrder) (beyond : List UInt8) (m : NetMessage)
    (out : List UInt8) : Option StringRead :=
  let lenght := (host.ofMemory32 (m.memory beyond)).toNat
  let prefixed : Range := { first := m.readerPos, size := 4 }
  let m := m.retrieve 4
  if lenght > 0 then
    if (m.memory beyond).length < lenght then none
    else
      some
        { value := copyInto out ((m.memory beyond).take lenght)
          touched := [prefixed, { first := m.readerPos, size := lenght }]
          message := m.retrieve lenght }
  else some { value := resize out 0, touched := [prefixed], message := m }

/-- `read_lenght_and_string()`. -/
def readLenghtAndString (host : ByteOrder) (beyond : List UInt8) (m : NetMessage) :
    Option StringRead :=
  m.readLenghtAndStringInto host beyond []

/-! ## Staying inside -/

/-- The range lies in the readable bytes of the message. -/
def Covers (m : NetMessage) (r : Range) : Prop :=
  m.readerPos ≤ r.first ∧ r.first + r.size ≤ m.writerPos

instance (m : NetMessage) (r : Range) : Decidable (m.Covers r) :=
  inferInstanceAs (Decidable (_ ∧ _))

/-- The reader has touched readable bytes only, and has taken out `extra` bytes and the string. -/
def ReadsInside (m : NetMessage) (extra : Nat) (result : Option StringRead) : Prop :=
  ∃ r, result = some r ∧ (∀ range ∈ r.touched, m.Covers range) ∧
    r.message.readable + (extra + r.value.length) = m.readable

theorem length_copyInto (out src : List UInt8) : (copyInto out src).length = src.length := by
  unfold copyInto
  rw [length_overwrite]
  · exact length_resize _ _
  · rw [length_resize]
    omega

theorem WF.memory_eq {m : NetMessage} (hm : m.WF) (beyond : List UInt8) :
    m.memory beyond = m.storage.drop m.readerPos ++ beyond :=
  List.drop_append_of_le_length (hm.reader_le.trans hm.writer_le)

/-- The content is the readable part of the memory. -/
theorem WF.content_eq_take {m : NetMessage} (hm : m.WF) (beyond : List UInt8) :
    m.content = (m.memory beyond).take m.readable := by
  have hreader := hm.reader_le
  have hwriter := hm.writer_le
  rw [hm.memory_eq, List.take_append_of_le_length, content]
  rw [List.length_drop, hm.readable_eq]
  omega

/-- The first zero is among the first `n` bytes exactly if there is one. -/
theorem zero_mem_take_iff (bytes : List UInt8) (n : Nat) :
    0 ∈ bytes.take n ↔ ∃ k, bytes.findIdx? (· == 0) = some k ∧ k < n := by
  induction bytes generalizing n with
  | nil => simp
  | cons b bytes ih =>
      cases n with
      | zero => simp
      | succ n =>
          rw [List.take_succ_cons, List.mem_cons, List.findIdx?_cons]
          by_cases hb : b = 0
          · simp [hb]
          · have hne : ¬ (0 : UInt8) = b := fun h => hb h.symm
            simp [hb, hne, ih]

theorem WF.length_memory {m : NetMessage} (hm : m.WF) (beyond : List UInt8) :
    m.readable ≤ (m.memory beyond).length := by
  have hlen := hm.length_content
  rw [hm.content_eq_take beyond, List.length_take] at hlen
  omega

theorem WF.readable_retrieve {m : NetMessage} (hm : m.WF) {n : Nat} (hsize : n ≤ m.readable) :
    (m.retrieve n).WF ∧ (m.retrieve n).readable + n = m.readable := by
  obtain ⟨hwf, hcontent⟩ := retrieve_spec hm hsize
  refine ⟨hwf, ?_⟩
  rw [← hwf.length_content, hcontent, List.length_drop, hm.length_content]
  omega

/-- What is left behind a part of the readable bytes starts behind that part. -/
theorem WF.positions_retrieve {m : NetMessage} (hm : m.WF) {n : Nat} (hsize : n < m.readable) :
    (m.retrieve n).readerPos = m.readerPos + n ∧ (m.retrieve n).writerPos = m.writerPos := by
  have hwriter := hm.writer_le
  have hstorage := hm.storage_le
  have hread := hm.readable_eq
  unfold vectorMaxSize at hstorage
  unfold retrieve
  rw [if_pos hsize]
  exact ⟨SizeT.add_eq (by omega), rfl⟩

/-- The length prefix lies in the content. -/
theorem ofMemory32_take (host : ByteOrder) (bytes : List UInt8) {n : Nat} (hn : 4 ≤ n) :
    host.ofMemory32 (bytes.take n) = host.ofMemory32 bytes := by
  have hget : ∀ i, i < 4 → (bytes.take n).getD i 0 = bytes.getD i 0 := by
    intro i hi
    rw [List.getD_eq_getElem?_getD, List.getElem?_take_of_lt (by omega),
      ← List.getD_eq_getElem?_getD]
  unfold ByteOrder.ofMemory32
  cases host <;> dsimp only <;>
    rw [hget 0 (by decide), hget 1 (by decide), hget 2 (by decide), hget 3 (by decide)]

/-- A terminated string is read inside the message if its terminator is. -/
theorem readStringInto_inside_iff {m : NetMessage} (hm : m.WF) (beyond out : List UInt8) :
    m.ReadsInside 0 (m.readStringInto beyond out) ↔ 0 ∈ m.content := by
  have hread := hm.readable_eq
  have hreader := hm.reader_le
  rw [hm.content_eq_take beyond, zero_mem_take_iff]
  constructor
  · rintro ⟨r, hr, htouched, -⟩
    obtain ⟨k, hk, rfl⟩ := Option.map_eq_some_iff.mp hr
    refine ⟨k, hk, ?_⟩
    -- the scan has examined the terminator
    have hscanned : m.Covers { first := m.readerPos, size := k + 1 } := by
      apply htouched
      split_ifs <;> exact List.mem_cons_self
    have hle := hscanned.2
    dsimp only at hle
    omega
  · rintro ⟨k, hk, hlt⟩
    unfold readStringInto
    rw [hk]
    refine ⟨_, rfl, ?_, ?_⟩
    · intro range hrange
      dsimp only at hrange
      split_ifs at hrange
      · rcases List.mem_pair.mp hrange with rfl | rfl
        · exact ⟨Nat.le_refl _, by dsimp only; omega⟩
        · exact ⟨Nat.le_refl _, by dsimp only; omega⟩
      · rw [List.mem_singleton.mp hrange]
        exact ⟨Nat.le_refl _, by dsimp only; omega⟩
    · have hlen := hm.length_memory beyond
      dsimp only
      split_ifs with hpos
      · have hleft := (hm.readable_retrieve (Nat.le_of_lt hlt)).2
        dsimp only
        rw [length_copyInto, List.length_take]
        omega
      · dsimp only
        rw [length_resize]
        omega

/-- A counted string is read inside the message if that many bytes are left. -/
theorem readLenghtAndStringInto_inside_iff {host : ByteOrder} {m : NetMessage} (hm : m.WF)
    (hfour : 4 ≤ m.readable) (beyond out : List UInt8) :
    m.ReadsInside 4 (m.readLenghtAndStringInto host beyond out) ↔
      4 + (host.ofMemory32 m.content).toNat ≤ m.readable := by
  rw [hm.content_eq_take beyond, ofMemory32_take host _ hfour]
  obtain ⟨hwf, hleft⟩ := hm.readable_retrieve hfour
  unfold readLenghtAndStringInto
  dsimp only
  generalize (host.ofMemory32 (m.memory beyond)).toNat = lenght
  constructor
  · rintro ⟨r, hr, -, hcount⟩
    split_ifs at hr with hpos hshort
    · cases hr
      dsimp only at hcount
      rw [length_copyInto, List.length_take] at hcount
      omega
    · omega
  · intro hfits
    have hlen := hwf.length_memory beyond
    have hread := hm.readable_eq
    have hreader := hm.reader_le
    split_ifs with hpos hshort
    · omega
    · obtain ⟨hfirst, hlast⟩ := hm.positions_retrieve (n := 4) (by omega)
      have hrest := (hwf.readable_retrieve (n := lenght) (by omega)).2
      refine ⟨_, rfl, ?_, ?_⟩
      · intro range hrange
        rcases List.mem_pair.mp hrange with rfl | rfl
        · exact ⟨Nat.le_refl _, by dsimp only; omega⟩
        · exact ⟨by dsimp only; omega, by dsimp only; omega⟩
      · dsimp only
        rw [length_copyInto, List.length_take]
        omega
    · refine ⟨_, rfl, ?_, ?_⟩
      · intro range hrange
        rw [List.mem_singleton.mp hrange]
        exact ⟨Nat.le_refl _, by dsimp only; omega⟩
      · dsimp only
        rw [length_resize]
        omega

/-- **Typed reads of untrusted content.** Both overloads of `read_string` stay inside the readable
bytes and take out what they return exactly if the readable bytes contain a zero; both overloads of
`read_lenght_and_string` do exactly if as many bytes follow the length as it says. -/
theorem string_reads_inside_iff {m : NetMessage} (hm : m.WF) (host : ByteOrder)
    (beyond : List UInt8) :
    (0 < m.readable →
      (m.ReadsInside 0 (m.readString beyond) ↔ 0 ∈ m.content) ∧
        ∀ out, m.ReadsInside 0 (m.readStringInto beyond out) ↔ 0 ∈ m.content) ∧
      (4 ≤ m.readable →
        (m.ReadsInside 4 (m.readLenghtAndString host beyond) ↔
            4 + (host.ofMemory32 m.content).toNat ≤ m.readable) ∧
          ∀ out, m.ReadsInside 4 (m.readLenghtAndStringInto host beyond out) ↔
            4 + (host.ofMemory32 m.content).toNat ≤ m.readable) := by
  refine ⟨fun _ => ⟨?_, fun out => ?_⟩, fun hfour => ⟨?_, fun out => ?_⟩⟩
  · exact readStringInto_inside_iff hm beyond []
  · exact readStringInto_inside_iff hm beyond out
  · exact readLenghtAndStringInto_inside_iff hm hfour beyond []
  · exact readLenghtAndStringInto_inside_iff hm hfour beyond out

/-- A message that holds these bytes at the front of its inline array, with zeros behind them. -/
def inlined (bytes : List UInt8) : NetMessage :=
  { isDynmic := false
    readerPos := 0
    writerPos := bytes.length
    dynamicData := none
    staticData := overwrite (List.replicate 128 0) 0 bytes }

/-- The condition met: `A` with its terminator, and `A` behind the length 1. -/
theorem string_reads_inside_one_letter :
    (inlined [65, 0]).ReadsInside 0 ((inlined [65, 0]).readString []) ∧
      (inlined [1, 0, 0, 0, 65]).ReadsInside 4
        ((inlined [1, 0, 0, 0, 65]).readLenghtAndString .little []) :=
  ⟨((string_reads_inside_iff (m := inlined [65, 0]) (by decide +kernel) .little []).1
      (by decide)).1.mpr (by decide +kernel),
    ((string_reads_inside_iff (m := inlined [1, 0, 0, 0, 65]) (by decide +kernel) .little []).2
      (by decide)).1.mpr (by decide +kernel)⟩

/-- `A` without a terminator: a byte behind the readable one is examined. The length 1 with nothing
behind it: the positions go back to the start, and the length's own first byte is returned as the
string, so that five bytes have been read out of four. -/
theorem string_reads_leave_the_message :
    (¬ (inlined [65]).ReadsInside 0 ((inlined [65]).readString []) ∧
      ((inlined [65]).readString []).map StringRead.touched = some [⟨0, 2⟩, ⟨0, 1⟩]) ∧
      ¬ (inlined [1, 0, 0, 0]).ReadsInside 4 ((inlined [1, 0, 0, 0]).readLenghtAndString .little []) ∧
      ((inlined [1, 0, 0, 0]).readLenghtAndString .little []).map StringRead.value = some [1] := by
  have hwf : (inlined [65]).WF := by decide +kernel
  have hwf' : (inlined [1, 0, 0, 0]).WF := by decide +kernel
  refine ⟨⟨fun h => ?_, by decide +kernel⟩, fun h => ?_, by decide +kernel⟩
  · have hmem := (readStringInto_inside_iff hwf [] []).mp h
    revert hmem
    decide +kernel
  · have hfits := (readLenghtAndStringInto_inside_iff hwf' (by decide +kernel) [] []).mp h
    revert hfits
    decide +kernel

end NetMessage
end EddyServer
