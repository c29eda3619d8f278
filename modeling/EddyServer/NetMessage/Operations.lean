import EddyServer.MessageFilter.Basic
import EddyServer.NetMessage.Content

/-!
# The other operations of a `NetMessage`

Taking bytes out, typed reads and writes, reserving, and the five ways in which a message can be
made from another one or exchanged with it. Each has one lemma, which says what becomes of the
content; the representation invariant `WF` is kept by all of them.

The preconditions that the source asserts are hypotheses of these lemmas, not checks of the
functions.
-/

namespace EddyServer

namespace ByteOrder

/-- The four bytes of a `uint32_t` in memory. -/
def toMemory32 : ByteOrder → BitVec 32 → List UInt8
  | .little, x => [UInt8.ofNat x.toNat, UInt8.ofNat (x.toNat / 2 ^ 8),
      UInt8.ofNat (x.toNat / 2 ^ 16), UInt8.ofNat (x.toNat / 2 ^ 24)]
  | .big, x => [UInt8.ofNat (x.toNat / 2 ^ 24), UInt8.ofNat (x.toNat / 2 ^ 16),
      UInt8.ofNat (x.toNat / 2 ^ 8), UInt8.ofNat x.toNat]

end ByteOrder

namespace NetMessage

/-! ## Reading -/

def retrieveAll (m : NetMessage) : NetMessage := { m with readerPos := 0, writerPos := 0 }

def retrieve (m : NetMessage) (size : Nat) : NetMessage :=
  if m.readable > size then { m with readerPos := SizeT.add m.readerPos size } else m.retrieveAll

/-- `memcpy` from `data()`. -/
def peek (m : NetMessage) (size : Nat) : List UInt8 := (m.storage.drop m.readerPos).take size

/-- `read_pod` of a type of `size` bytes: the bytes of the value, and what is left. -/
def readPod (m : NetMessage) (size : Nat) : List UInt8 × NetMessage := (m.peek size, m.retrieve size)

def clear (m : NetMessage) : NetMessage :=
  { m with
    readerPos := 0
    writerPos := 0
    dynamicData := if m.isDynmic then m.dynamicData.map fun _ => [] else m.dynamicData }

/-! ## Room -/

/-- `reserve`. The capacity of a vector is not part of the model. -/
def reserve (m : NetMessage) (size : Nat) : Except NetMessage NetMessage :=
  if m.isDynmic = false ∧ size ≤ kDynamicThreshold then .ok m
  else
    let m := m.setDynamic
    if size > vectorMaxSize then .error m else .ok m

/-! ## Typed writing -/

def writePod (m : NetMessage) (value : List UInt8) : Except NetMessage NetMessage := m.write value

def writeString (m : NetMessage) (value : List UInt8) : Except NetMessage NetMessage :=
  if value.isEmpty then .ok m else m.write value

/-- The length is narrowed to 32 bits. -/
def writeLenghtAndString (host : ByteOrder) (m : NetMessage) (value : List UInt8) :
    Except NetMessage NetMessage :=
  match m.writePod (host.toMemory32 (BitVec.ofNat 32 value.length)) with
  | .error m => .error m
  | .ok m => m.writeString value

/-! ## Two messages -/

/-- The copy constructor. -/
def copy (junk : Junk) (other : NetMessage) : NetMessage :=
  if other.isDynmic = false then
    { isDynmic := false
      readerPos := other.readerPos
      writerPos := other.writerPos
      dynamicData := none
      staticData := other.staticData }
  else
    { isDynmic := true
      readerPos := other.readerPos
      writerPos := other.writerPos
      dynamicData := other.dynamicData
      staticData := junk }

/-- What a move leaves of its source. -/
def movedFrom (other : NetMessage) : NetMessage :=
  { other with
    isDynmic := false
    readerPos := 0
    writerPos := 0
    dynamicData := if other.isDynmic then none else other.dynamicData }

/-- The move constructor: the new message, and what is left of the source. -/
def move (junk : Junk) (other : NetMessage) : NetMessage × NetMessage :=
  (copy junk other, other.movedFrom)

/-- `operator=(const NetMessage &)`, for another message. A vector that the target has is kept by an
assignment from a static message. -/
def copyAssign (m rhs : NetMessage) : NetMessage :=
  if rhs.isDynmic = false then
    { m with
      isDynmic := false
      readerPos := rhs.readerPos
      writerPos := rhs.writerPos
      staticData := rhs.staticData }
  else
    { m with
      isDynmic := true
      readerPos := rhs.readerPos
      writerPos := rhs.writerPos
      dynamicData := rhs.dynamicData }

/-- `operator=(NetMessage &&)`, for another message: the target, and what is left of the source. -/
def moveAssign (m rhs : NetMessage) : NetMessage × NetMessage := (m.copyAssign rhs, rhs.movedFrom)

/-- `swap`, for another message. -/
def swap (m other : NetMessage) : NetMessage × NetMessage :=
  ({ isDynmic := other.isDynmic
     readerPos := other.readerPos
     writerPos := other.writerPos
     dynamicData := other.dynamicData
     staticData := other.staticData },
   { isDynmic := m.isDynmic
     readerPos := m.readerPos
     writerPos := m.writerPos
     dynamicData := m.dynamicData
     staticData := m.staticData })

/-! ## What they do to the content -/

variable {m : NetMessage}

/-- A message whose positions are both at the start holds nothing. -/
theorem content_of_empty (hr : m.readerPos = 0) (hw : m.writerPos = 0) : m.content = [] := by
  simp [content, readable, hr, hw, SizeT.sub]

theorem retrieveAll_spec (hm : m.WF) : m.retrieveAll.WF ∧ m.retrieveAll.content = [] :=
  ⟨⟨hm.static_length, hm.present, Nat.le_refl _, Nat.zero_le _, hm.storage_le⟩,
    content_of_empty rfl rfl⟩

/-- **`retrieve` drops from the front**; what has been read up to the end is given back. -/
theorem retrieve_spec {size : Nat} (hm : m.WF) (hsize : size ≤ m.readable) :
    (m.retrieve size).WF ∧ (m.retrieve size).content = m.content.drop size := by
  have hread := hm.readable_eq
  have hwriter := hm.writer_le
  have hstorage := hm.storage_le
  unfold retrieve
  split_ifs with hmore
  · have hadd : SizeT.add m.readerPos size = m.readerPos + size := by
      unfold vectorMaxSize at hstorage
      exact SizeT.add_eq (by omega)
    rw [hadd]
    have hwf : ({ m with readerPos := m.readerPos + size } : NetMessage).WF :=
      ⟨hm.static_length, hm.present, show m.readerPos + size ≤ m.writerPos by omega, hwriter,
        hstorage⟩
    refine ⟨hwf, ?_⟩
    rw [hwf.content_eq, hm.content_eq, List.drop_drop]
    rfl
  · -- nothing is left
    refine ⟨(retrieveAll_spec hm).1, ?_⟩
    rw [(retrieveAll_spec hm).2, List.drop_eq_nil_of_le]
    rw [hm.length_content]
    omega

theorem peek_eq {size : Nat} (hsize : size ≤ m.readable) :
    m.peek size = m.content.take size := by
  rw [peek, content, List.take_take, Nat.min_eq_left hsize]

theorem clear_spec (hm : m.WF) :
    m.clear.WF ∧ m.clear.content = [] ∧ m.clear.storage.length ≤ kDynamicThreshold := by
  have hlen : m.clear.storage.length ≤ kDynamicThreshold := by
    cases hd : m.isDynmic with
    | false =>
        have hstatic : m.clear.storage = m.staticData := storage_static hd
        rw [hstatic, hm.static_length]
    | true =>
        obtain ⟨v, hv⟩ := hm.exists_vector hd
        have hempty : m.clear.storage = [] := storage_dynamic hd (by simp [clear, hd, hv])
        rw [hempty]
        exact Nat.zero_le _
  refine ⟨⟨hm.static_length, fun hd => ?_, Nat.le_refl _, Nat.zero_le _, hlen.trans (by decide)⟩,
    content_of_empty rfl rfl, hlen⟩
  have hdyn : m.isDynmic = true := hd
  obtain ⟨v, hv⟩ := hm.exists_vector hdyn
  simp [clear, hdyn, hv]

/-- Making a message dynamic takes twice the room of the content. -/
theorem length_storage_setDynamic_le (hm : m.WF) :
    m.setDynamic.storage.length ≤ max m.storage.length (2 * m.readable) := by
  cases hd : m.isDynmic with
  | true => simp [setDynamic, hd]
  | false =>
      rw [storage_setDynamic hd, List.length_append, hm.length_content, List.length_replicate]
      omega

/-- Reserving changes nothing. -/
theorem reserve_spec {m' : NetMessage} {size : Nat} (hm : m.WF) (h : m.reserve size = .ok m') :
    m'.WF ∧ m'.content = m.content ∧
      m'.storage.length ≤ max m.storage.length (2 * m.readable) := by
  unfold reserve at h
  dsimp only at h
  split_ifs at h
  · cases h
    exact ⟨hm, rfl, Nat.le_max_left _ _⟩
  · cases h
    exact ⟨wf_setDynamic hm, content_setDynamic hm, length_storage_setDynamic_le hm⟩

theorem reserve_ok {size : Nat} (hsize : size ≤ vectorMaxSize) : ∃ m', m.reserve size = .ok m' := by
  unfold reserve
  dsimp only
  rw [if_neg (Nat.not_lt.mpr hsize)]
  split_ifs <;> exact ⟨_, rfl⟩

/-! ### Growing and writing, when they do not throw -/

theorem ensureWritableBytes_ok {m' : NetMessage} {size : Nat} (hm : m.WF) (hsize : size < 2 ^ 63)
    (h : m.ensureWritableBytes size = .ok m') :
    m'.WF ∧ m'.content = m.content ∧ m'.writerPos + size ≤ m'.storage.length ∧
      m'.storage.length ≤ max m.storage.length (m.writerPos + size) := by
  have hreader := hm.reader_le
  have hwriter := hm.writer_le
  have hstorage := hm.storage_le
  have hmax : vectorMaxSize < 2 ^ 63 := by decide
  unfold ensureWritableBytes makeSpace at h
  dsimp only at h
  split_ifs at h with hfits hgrow hthrows
  · -- the vector grows, from the inline array if there was none yet
    cases h
    have hle := writerPos_setDynamic_le hm
    rw [SizeT.add_eq (by omega)] at hthrows ⊢
    obtain ⟨hwf, hcontent, hlen⟩ := content_resize (n := m.setDynamic.writerPos + size)
      (wf_setDynamic hm) (isDynmic_setDynamic m) (by omega) (by omega)
    exact ⟨hwf, hcontent.trans (content_setDynamic hm), Nat.le_of_eq hlen.symm, by omega⟩
  · -- the room in front of the content is enough
    cases h
    have hlen := length_storage_compact hm
    rw [SizeT.add_eq (by rw [hm.writeable_eq, prependable]; omega), hm.writeable_eq,
      prependable] at hgrow
    refine ⟨wf_compact hm, content_compact hm, ?_, by omega⟩
    rw [(positions_compact m).2, hlen, hm.readable_eq]
    omega
  · cases h
    rw [hm.writeable_eq] at hfits
    exact ⟨hm, rfl, by omega, Nat.le_max_left _ _⟩

theorem storage_hasWritten (m : NetMessage) (size : Nat) : (m.hasWritten size).storage = m.storage :=
  rfl

/-- **`write` appends** whenever it does not throw. -/
theorem write_ok {m' : NetMessage} {data : List UInt8} (hm : m.WF) (hsize : data.length < 2 ^ 63)
    (h : m.write data = .ok m') :
    m'.WF ∧ m'.content = m.content ++ data ∧
      m'.storage.length ≤ m.storage.length + 2 * data.length := by
  have hwriter := hm.writer_le
  unfold write at h
  cases hr : m.ensureWritableBytes data.length with
  | error r =>
      rw [hr] at h
      cases h
  | ok r =>
      rw [hr] at h
      obtain ⟨hwf, hcontent, hroom, hlen⟩ := ensureWritableBytes_ok hm hsize hr
      rw [← hcontent]
      dsimp only at h
      split_ifs at h with hd hthrows
      · obtain ⟨v, hv⟩ := hwf.exists_vector hd
        rw [hv] at h hthrows
        rw [storage_dynamic hd hv] at hlen
        dsimp only [Option.getD_some] at h hthrows
        cases h
        have hfits : v.length + data.length ≤ vectorMaxSize := Nat.not_lt.mp hthrows
        obtain ⟨hwf', hcontent'⟩ := insert_spec hwf hd hv hfits
        refine ⟨hwf', hcontent', Nat.le_trans (Nat.le_of_eq ?_) (show v.length + data.length ≤ _ by omega)⟩
        have hst := storage_dynamic (m := { r with dynamicData := some _ }) hd
          (v := v.take r.writerPos ++ data ++ v.drop r.writerPos) rfl
        rw [storage_hasWritten, hst]
        simp only [List.length_append, List.length_take, List.length_drop]
        omega
      · have hstatic : r.isDynmic = false := by simpa using hd
        cases h
        obtain ⟨hwf', hcontent'⟩ := overwrite_spec hwf hstatic hroom
        refine ⟨hwf', hcontent', ?_⟩
        have hst := storage_static
          (m := { r with staticData := overwrite r.staticData r.writerPos data }) hstatic
        rw [storage_static hstatic, hwf.static_length] at hlen
        rw [storage_hasWritten, hst]
        exact (Nat.le_of_eq hwf'.static_length).trans (by omega)

/-- Nothing is thrown as long as the vector stays within its limit. -/
theorem write_succeeds {data : List UInt8} (hm : m.WF)
    (hsize : m.storage.length + 2 * data.length ≤ vectorMaxSize) : ∃ m', m.write data = .ok m' := by
  obtain ⟨m', hm', -⟩ := write_spec data hm hsize
  exact ⟨m', hm'⟩

theorem writeString_ok {m' : NetMessage} {value : List UInt8} (hm : m.WF)
    (hsize : value.length < 2 ^ 63) (h : m.writeString value = .ok m') :
    m'.WF ∧ m'.content = m.content ++ value ∧
      m'.storage.length ≤ m.storage.length + 2 * value.length := by
  unfold writeString at h
  split_ifs at h with hnil
  · cases h
    rw [List.isEmpty_iff.mp hnil, List.append_nil]
    exact ⟨hm, rfl, Nat.le_add_right _ _⟩
  · exact write_ok hm hsize h

theorem length_toMemory32 (host : ByteOrder) (x : BitVec 32) : (host.toMemory32 x).length = 4 := by
  cases host <;> rfl

theorem writeLenghtAndString_ok {host : ByteOrder} {m' : NetMessage} {value : List UInt8}
    (hm : m.WF) (hsize : value.length < 2 ^ 63) (h : writeLenghtAndString host m value = .ok m') :
    m'.WF ∧ m'.content =
        m.content ++ (host.toMemory32 (BitVec.ofNat 32 value.length) ++ value) ∧
      m'.storage.length ≤ m.storage.length + 2 * (4 + value.length) := by
  unfold writeLenghtAndString writePod at h
  cases hr : m.write (host.toMemory32 (BitVec.ofNat 32 value.length)) with
  | error r =>
      rw [hr] at h
      cases h
  | ok r =>
      rw [hr] at h
      obtain ⟨hwf, hcontent, hlen⟩ := write_ok hm (by rw [length_toMemory32]; decide) hr
      obtain ⟨hwf', hcontent', hlen'⟩ := writeString_ok hwf hsize h
      rw [length_toMemory32] at hlen
      refine ⟨hwf', ?_, by omega⟩
      rw [hcontent', hcontent, List.append_assoc]

/-! ### Two messages -/

/-- What is readable depends on the positions and the storage in use only. -/
theorem content_congr {m m' : NetMessage} (hst : m'.storage = m.storage)
    (hr : m'.readerPos = m.readerPos) (hw : m'.writerPos = m.writerPos) :
    m'.content = m.content := by
  unfold content readable
  rw [hst, hr, hw]

/-- A message that has taken over the storage and the positions of another one. -/
theorem takes_spec (m' : NetMessage) {m : NetMessage} (hm : m.WF)
    (hstatic : m'.staticData.length = kDynamicThreshold)
    (hd : m'.isDynmic = m.isDynmic) (hst : m'.storage = m.storage)
    (hvector : m.isDynmic = true → m'.dynamicData = m.dynamicData)
    (hr : m'.readerPos = m.readerPos) (hw : m'.writerPos = m.writerPos) :
    m'.WF ∧ m'.content = m.content := by
  refine ⟨⟨hstatic, fun h => ?_, ?_, ?_, ?_⟩, content_congr hst hr hw⟩
  · rw [hd] at h
    rw [hvector h]
    exact hm.present h
  · rw [hr, hw]
    exact hm.reader_le
  · rw [hw, hst]
    exact hm.writer_le
  · rw [hst]
    exact hm.storage_le

/-- **A copy** holds what the other message holds. -/
theorem copy_spec {other : NetMessage} (junk : Junk) (hother : other.WF) :
    (copy junk other).WF ∧ (copy junk other).content = other.content ∧
      (copy junk other).storage = other.storage := by
  cases hd : other.isDynmic with
  | false =>
      have hst : (copy junk other).storage = other.storage := by simp [copy, storage, hd]
      obtain ⟨hwf, hcontent⟩ := takes_spec (copy junk other) hother
        (by simpa [copy, hd] using hother.static_length) (by simp [copy, hd]) hst (by simp [hd])
        (by simp [copy, hd]) (by simp [copy, hd])
      exact ⟨hwf, hcontent, hst⟩
  | true =>
      have hst : (copy junk other).storage = other.storage := by simp [copy, storage, hd]
      obtain ⟨hwf, hcontent⟩ := takes_spec (copy junk other) hother
        (by simpa [copy, hd] using junk.property) (by simp [copy, hd]) hst
        (fun _ => by simp [copy, hd]) (by simp [copy, hd]) (by simp [copy, hd])
      exact ⟨hwf, hcontent, hst⟩

/-- **An assignment** makes the target hold what the other message holds, whatever it has held. -/
theorem copyAssign_spec {rhs : NetMessage} (hm : m.WF) (hrhs : rhs.WF) :
    (m.copyAssign rhs).WF ∧ (m.copyAssign rhs).content = rhs.content ∧
      (m.copyAssign rhs).storage = rhs.storage := by
  cases hd : rhs.isDynmic with
  | false =>
      have hst : (m.copyAssign rhs).storage = rhs.storage := by simp [copyAssign, storage, hd]
      obtain ⟨hwf, hcontent⟩ := takes_spec (m.copyAssign rhs) hrhs
        (by simpa [copyAssign, hd] using hrhs.static_length) (by simp [copyAssign, hd]) hst
        (by simp [hd]) (by simp [copyAssign, hd]) (by simp [copyAssign, hd])
      exact ⟨hwf, hcontent, hst⟩
  | true =>
      have hst : (m.copyAssign rhs).storage = rhs.storage := by simp [copyAssign, storage, hd]
      obtain ⟨hwf, hcontent⟩ := takes_spec (m.copyAssign rhs) hrhs
        (by simpa [copyAssign, hd] using hm.static_length) (by simp [copyAssign, hd]) hst
        (fun _ => by simp [copyAssign, hd]) (by simp [copyAssign, hd]) (by simp [copyAssign, hd])
      exact ⟨hwf, hcontent, hst⟩

/-- **A message that has been moved from** is empty, static and as good as new. -/
theorem movedFrom_spec (hm : m.WF) :
    m.movedFrom.WF ∧ m.movedFrom.content = [] ∧ m.movedFrom.storage.length = kDynamicThreshold := by
  have hst : m.movedFrom.storage = m.staticData := storage_static rfl
  refine ⟨⟨hm.static_length, fun h => ?_, Nat.le_refl _, Nat.zero_le _, ?_⟩,
    content_of_empty rfl rfl, ?_⟩
  · cases h
  · rw [hst, hm.static_length]
    decide
  · rw [hst, hm.static_length]

end NetMessage
end EddyServer
