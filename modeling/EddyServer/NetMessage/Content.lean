import EddyServer.NetMessage.Basic

/-!
# The bytes a `NetMessage` holds

The abstract value of a message is the list of its readable bytes, `NetMessage.content`. `WF` is the
representation invariant under which no position or size of the source wraps, and the lemmas below
say what the growing and writing operations do to the abstract value: growing changes nothing,
writing appends, in either storage mode.
-/

namespace EddyServer
namespace NetMessage

/-- The positions lie in order inside the storage, and the storage of the current mode exists. -/
structure WF (m : NetMessage) : Prop where
  static_length : m.staticData.length = kDynamicThreshold
  present : m.isDynmic = true → m.dynamicData.isSome = true
  reader_le : m.readerPos ≤ m.writerPos
  writer_le : m.writerPos ≤ m.storage.length
  storage_le : m.storage.length ≤ vectorMaxSize

instance (m : NetMessage) : Decidable m.WF :=
  decidable_of_iff
    (m.staticData.length = kDynamicThreshold ∧ (m.isDynmic = true → m.dynamicData.isSome = true) ∧
      m.readerPos ≤ m.writerPos ∧ m.writerPos ≤ m.storage.length ∧
      m.storage.length ≤ vectorMaxSize)
    ⟨fun ⟨h₁, h₂, h₃, h₄, h₅⟩ => ⟨h₁, h₂, h₃, h₄, h₅⟩,
     fun h => ⟨h.static_length, h.present, h.reader_le, h.writer_le, h.storage_le⟩⟩

/-! ## Reading the representation -/

theorem storage_static {m : NetMessage} (h : m.isDynmic = false) : m.storage = m.staticData := by
  simp [storage, h]

theorem storage_dynamic {m : NetMessage} {v : List UInt8} (h : m.isDynmic = true)
    (hv : m.dynamicData = some v) : m.storage = v := by
  simp [storage, h, hv]

/-- A well-formed dynamic message has its vector. -/
theorem WF.exists_vector {m : NetMessage} (hm : m.WF) (h : m.isDynmic = true) :
    ∃ v, m.dynamicData = some v := Option.isSome_iff_exists.mp (hm.present h)

theorem WF.readable_eq {m : NetMessage} (hm : m.WF) : m.readable = m.writerPos - m.readerPos := by
  have h₁ := hm.reader_le
  have h₂ := hm.writer_le
  have h₃ := hm.storage_le
  exact SizeT.sub_eq h₁ (by unfold vectorMaxSize at h₃; omega)

theorem WF.writeable_eq {m : NetMessage} (hm : m.WF) :
    m.writeable = m.storage.length - m.writerPos := by
  have hlen : (if m.isDynmic then (m.dynamicData.getD []).length else kDynamicThreshold) =
      m.storage.length := by
    cases hd : m.isDynmic with
    | false => rw [storage_static hd, hm.static_length]; rfl
    | true =>
        obtain ⟨v, hv⟩ := hm.exists_vector hd
        rw [storage_dynamic hd hv, hv]; rfl
  have h₃ := hm.storage_le
  rw [writeable, hlen]
  exact SizeT.sub_eq hm.writer_le (by unfold vectorMaxSize at h₃; omega)

/-- The content is what lies between the two positions. -/
theorem WF.content_eq {m : NetMessage} (hm : m.WF) :
    m.content = (m.storage.take m.writerPos).drop m.readerPos := by
  rw [content, hm.readable_eq, List.drop_take]

theorem WF.length_content {m : NetMessage} (hm : m.WF) : m.content.length = m.readable := by
  have h₁ := hm.reader_le
  have h₂ := hm.writer_le
  rw [content, List.length_take, List.length_drop, hm.readable_eq]; omega

/-! ## A new message -/

theorem length_storage_new (junk : Junk) : (new junk).storage.length = kDynamicThreshold := by
  rw [storage_static rfl]; exact junk.property

theorem wf_new (junk : Junk) : (new junk).WF where
  static_length := junk.property
  present := nofun
  reader_le := Nat.le_refl _
  writer_le := Nat.zero_le _
  storage_le := by rw [length_storage_new]; decide

@[simp] theorem content_new (junk : Junk) : (new junk).content = [] := by
  simp [content, new, readable, SizeT.sub]

/-! ## Growing changes nothing -/

/-- `set_dynamic` puts the content at the front of a fresh vector twice its size. -/
theorem storage_setDynamic {m : NetMessage} (h : m.isDynmic = false) :
    m.setDynamic.storage = m.content ++ List.replicate m.readable 0 := by
  simp [setDynamic, h, storage, content]

theorem wf_setDynamic {m : NetMessage} (hm : m.WF) : m.setDynamic.WF := by
  cases h : m.isDynmic with
  | true => simpa [setDynamic, h] using hm
  | false =>
      have hlen : m.setDynamic.storage.length = 2 * m.readable := by
        rw [storage_setDynamic h, List.length_append, hm.length_content, List.length_replicate]
        omega
      have hread : m.readable ≤ kDynamicThreshold := by
        have h₂ := hm.writer_le
        rw [storage_static h, hm.static_length] at h₂
        rw [hm.readable_eq]; omega
      have hw : m.setDynamic.writerPos = m.readable := by simp [setDynamic, h]
      have hr : m.setDynamic.readerPos = 0 := by simp [setDynamic, h]
      refine ⟨?_, ?_, ?_, ?_, ?_⟩
      · simpa [setDynamic, h] using hm.static_length
      · simp [setDynamic, h]
      · rw [hr]; exact Nat.zero_le _
      · rw [hw, hlen]; omega
      · rw [hlen]; unfold kDynamicThreshold at hread; unfold vectorMaxSize; omega

theorem content_setDynamic {m : NetMessage} (hm : m.WF) : m.setDynamic.content = m.content := by
  cases h : m.isDynmic with
  | true => simp [setDynamic, h]
  | false =>
      have hw : m.setDynamic.writerPos = m.readable := by simp [setDynamic, h]
      have hr : m.setDynamic.readerPos = 0 := by simp [setDynamic, h]
      rw [(wf_setDynamic hm).content_eq, storage_setDynamic h, hw, hr, ← hm.length_content,
        List.take_left, List.drop_zero]

theorem writerPos_setDynamic_le {m : NetMessage} (hm : m.WF) :
    m.setDynamic.writerPos ≤ m.writerPos := by
  cases h : m.isDynmic with
  | true => simp [setDynamic, h]
  | false =>
      have hw : m.setDynamic.writerPos = m.readable := by simp [setDynamic, h]
      rw [hw, hm.readable_eq]; omega

theorem isDynmic_setDynamic (m : NetMessage) : m.setDynamic.isDynmic = true := by
  cases h : m.isDynmic <;> simp [setDynamic, h]

/-- Compaction keeps the storage's size and moves the content to its front. -/
theorem storage_compact {m : NetMessage} (hm : m.WF) :
    m.compact.storage = overwrite m.storage 0 m.content := by
  cases h : m.isDynmic with
  | false => simp [compact, h, storage, content]
  | true =>
      obtain ⟨v, hv⟩ := hm.exists_vector h
      simp [compact, h, hv, storage, content]

theorem length_storage_compact {m : NetMessage} (hm : m.WF) :
    m.compact.storage.length = m.storage.length := by
  have h₁ := hm.writer_le
  rw [storage_compact hm, length_overwrite]
  rw [hm.length_content, hm.readable_eq]; omega

theorem positions_compact (m : NetMessage) :
    m.compact.readerPos = 0 ∧ m.compact.writerPos = m.readable := by
  cases h : m.isDynmic <;> simp [compact, h]

theorem wf_compact {m : NetMessage} (hm : m.WF) : m.compact.WF := by
  obtain ⟨hr, hw⟩ := positions_compact m
  have hlen := length_storage_compact hm
  refine ⟨?_, ?_, ?_, ?_, ?_⟩
  · cases h : m.isDynmic with
    | true => simpa [compact, h] using hm.static_length
    | false => rw [← storage_static (by simp [compact, h]), hlen, storage_static h, hm.static_length]
  · cases h : m.isDynmic with
    | false => simp [compact, h]
    | true => simpa [compact, h] using hm.present h
  · rw [hr]; exact Nat.zero_le _
  · have h₂ := hm.writer_le
    rw [hw, hlen, hm.readable_eq]; omega
  · rw [hlen]; exact hm.storage_le

theorem content_compact {m : NetMessage} (hm : m.WF) : m.compact.content = m.content := by
  obtain ⟨hr, hw⟩ := positions_compact m
  rw [(wf_compact hm).content_eq, storage_compact hm, hw, hr, ← hm.length_content]
  simp [overwrite]

/-- Cutting or filling the vector behind the writer position leaves the content alone. -/
theorem content_resize {m : NetMessage} {n : Nat} (hm : m.WF) (hd : m.isDynmic = true)
    (hn : m.writerPos ≤ n) (hmax : n ≤ vectorMaxSize) :
    let m' := { m with dynamicData := m.dynamicData.map fun v => resize v n }
    m'.WF ∧ m'.content = m.content ∧ m'.storage.length = n := by
  intro m'
  obtain ⟨v, hv⟩ := hm.exists_vector hd
  have hv' : m'.dynamicData = some (resize v n) := by simp [m', hv]
  have hst : m'.storage = resize v n := storage_dynamic hd hv'
  have hwv : m.writerPos ≤ v.length := by simpa [storage_dynamic hd hv] using hm.writer_le
  have hwf : m'.WF :=
    { static_length := hm.static_length
      present := fun _ => by rw [hv']; rfl
      reader_le := hm.reader_le
      writer_le := by rw [hst, length_resize]; exact hn
      storage_le := by rw [hst, length_resize]; exact hmax }
  refine ⟨hwf, ?_, by rw [hst, length_resize]⟩
  rw [hwf.content_eq, hm.content_eq, hst, storage_dynamic hd hv]
  show ((resize v n).take m.writerPos).drop m.readerPos = _
  congr 1
  rw [resize, List.take_append_of_le_length (by rw [List.length_take]; omega), List.take_take,
    Nat.min_eq_left hn]

/-- **Making room**: within the vector's limit `ensure_writable_bytes` succeeds, keeps the content
and leaves the room that was asked for. -/
theorem ensureWritableBytes_spec {m : NetMessage} (size : Nat) (hm : m.WF)
    (hsize : m.writerPos + size ≤ vectorMaxSize) :
    ∃ m', m.ensureWritableBytes size = .ok m' ∧ m'.WF ∧ m'.content = m.content ∧
      m'.writerPos + size ≤ m'.storage.length ∧
      m'.storage.length ≤ max m.storage.length (m.writerPos + size) := by
  have hreader := hm.reader_le
  have hwriter := hm.writer_le
  have hstorage := hm.storage_le
  have hmax : vectorMaxSize < 2 ^ 63 := by decide
  rw [ensureWritableBytes]
  by_cases hfits : m.writeable < size
  · rw [if_pos hfits, makeSpace, SizeT.add_eq (by rw [hm.writeable_eq, prependable]; omega)]
    by_cases hgrow : m.writeable + m.prependable < size
    · -- the vector grows, from the inline array if there was none yet
      have hle := writerPos_setDynamic_le hm
      rw [if_pos hgrow]
      dsimp only
      rw [SizeT.add_eq (by omega), if_neg (by omega)]
      obtain ⟨hwf, hcontent, hlen⟩ := content_resize (n := m.setDynamic.writerPos + size)
        (wf_setDynamic hm) (isDynmic_setDynamic m) (by omega) (by omega)
      refine ⟨_, rfl, hwf, hcontent.trans (content_setDynamic hm), ?_, ?_⟩
      · exact Nat.le_of_eq hlen.symm
      · rw [hlen]; omega
    · -- the room in front of the content is enough
      rw [if_neg hgrow]
      have hlen := length_storage_compact hm
      refine ⟨_, rfl, wf_compact hm, content_compact hm, ?_, ?_⟩
      · rw [hm.writeable_eq, prependable] at hgrow
        rw [(positions_compact m).2, hlen, hm.readable_eq]; omega
      · rw [hlen]; exact Nat.le_max_left _ _
  · rw [if_neg hfits]
    rw [hm.writeable_eq] at hfits
    exact ⟨m, rfl, hm, rfl, by omega, Nat.le_max_left _ _⟩

/-! ## Writing appends -/

/-- Bytes put at the writer position, with the position moved behind them, extend the content. -/
theorem content_put {m m' : NetMessage} {data tail : List UInt8} (hm : m.WF) (hm' : m'.WF)
    (hst : m'.storage = m.storage.take m.writerPos ++ data ++ tail)
    (hr : m'.readerPos = m.readerPos) (hw : m'.writerPos = m.writerPos + data.length) :
    m'.content = m.content ++ data := by
  have hlen : (m.storage.take m.writerPos).length = m.writerPos := by
    rw [List.length_take, Nat.min_eq_left hm.writer_le]
  rw [hm'.content_eq, hm.content_eq, hst, hr, hw]
  rw [List.take_left' (by rw [List.length_append, hlen])]
  rw [List.drop_append_of_le_length (by rw [hlen]; exact hm.reader_le)]

/-- Copying over the inline array behind the content extends the content. -/
theorem overwrite_spec {m : NetMessage} {data : List UInt8} (hm : m.WF) (hd : m.isDynmic = false)
    (hroom : m.writerPos + data.length ≤ m.storage.length) :
    let m' := { m with staticData := overwrite m.staticData m.writerPos data }.hasWritten data.length
    m'.WF ∧ m'.content = m.content ++ data := by
  intro m'
  have hadd : m'.writerPos = m.writerPos + data.length := by
    have h := hm.storage_le
    unfold vectorMaxSize at h
    exact SizeT.add_eq (show m.writerPos + data.length < _ by omega)
  have hst : m'.storage = overwrite m.storage m.writerPos data := by
    rw [storage_static hd, storage_static (show m'.isDynmic = false from hd)]; rfl
  have hwf : m'.WF :=
    { static_length := by
        rw [storage_static hd] at hroom
        exact (length_overwrite hroom).trans hm.static_length
      present := hm.present
      reader_le := by rw [hadd]; exact Nat.le_add_right_of_le hm.reader_le
      writer_le := by rw [hst, length_overwrite hroom, hadd]; exact hroom
      storage_le := by rw [hst, length_overwrite hroom]; exact hm.storage_le }
  exact ⟨hwf, content_put hm hwf hst rfl hadd⟩

/-- Inserting into the vector behind the content extends the content. -/
theorem insert_spec {m : NetMessage} {data v : List UInt8} (hm : m.WF) (hd : m.isDynmic = true)
    (hv : m.dynamicData = some v) (hsize : v.length + data.length ≤ vectorMaxSize) :
    let m' := { m with dynamicData := some (v.take m.writerPos ++ data ++ v.drop m.writerPos) }.hasWritten
      data.length
    m'.WF ∧ m'.content = m.content ++ data := by
  intro m'
  have hmst : m.storage = v := storage_dynamic hd hv
  have hwriter := hm.writer_le
  rw [hmst] at hwriter
  have hadd : m'.writerPos = m.writerPos + data.length := by
    unfold vectorMaxSize at hsize
    exact SizeT.add_eq (show m.writerPos + data.length < _ by omega)
  have hst : m'.storage = m.storage.take m.writerPos ++ data ++ m.storage.drop m.writerPos := by
    rw [hmst]; exact storage_dynamic hd rfl
  have hlen : m'.storage.length = v.length + data.length := by
    rw [hst, hmst]
    simp only [List.length_append, List.length_take, List.length_drop]; omega
  have hwf : m'.WF :=
    { static_length := hm.static_length
      present := fun _ => rfl
      reader_le := by rw [hadd]; exact Nat.le_add_right_of_le hm.reader_le
      writer_le := by rw [hlen, hadd]; omega
      storage_le := by rw [hlen]; exact hsize }
  exact ⟨hwf, content_put hm hwf hst rfl hadd⟩

/-- **`write` appends**, in both storage modes: over the inline array it copies behind the content,
into a vector it inserts. -/
theorem write_spec {m : NetMessage} (data : List UInt8) (hm : m.WF)
    (hsize : m.storage.length + 2 * data.length ≤ vectorMaxSize) :
    ∃ m', m.write data = .ok m' ∧ m'.WF ∧ m'.content = m.content ++ data := by
  have hwriter := hm.writer_le
  obtain ⟨r, hr, hwf, hcontent, hroom, hlen⟩ :=
    ensureWritableBytes_spec data.length hm (by omega)
  rw [write, hr, ← hcontent]
  cases hd : r.isDynmic with
  | false => exact ⟨_, by simp only [hd]; rfl, overwrite_spec hwf hd hroom⟩
  | true =>
      obtain ⟨v, hv⟩ := hwf.exists_vector hd
      rw [storage_dynamic hd hv] at hlen hroom
      have hfit : ¬ v.length + data.length > vectorMaxSize := by omega
      refine ⟨_, ?_, insert_spec hwf hd hv (by omega)⟩
      simp only [hd, hv, if_true, Option.getD_some, if_neg hfit]

/-- A message built to a size and filled once holds what it was filled with. This is how a filter
rebuilds a body, through the inline array up to 128 bytes and through a vector above. -/
theorem ofSize_write (junk : Junk) (data : List UInt8) (n : Nat)
    (hn : kDynamicThreshold + n + 2 * data.length ≤ vectorMaxSize) :
    ∃ m r, ofSize junk n = .ok m ∧ m.write data = .ok r ∧ r.WF ∧ r.content = data := by
  have hzero : (new junk).writerPos = 0 := rfl
  obtain ⟨m, hm, hwf, hcontent, -, hlen⟩ :=
    ensureWritableBytes_spec n (wf_new junk) (by omega)
  rw [length_storage_new, hzero] at hlen
  obtain ⟨r, hr, hrwf, hrcontent⟩ := write_spec data hwf (by omega)
  exact ⟨m, r, hm, hr, hrwf, by rw [hrcontent, hcontent, content_new, List.nil_append]⟩

end NetMessage
end EddyServer
