import EddyServer.NetMessage.Sound

/-!
# Using up the room

Behind the content of a static message `write` copies over what lies there. Into a vector it
inserts: what has lain behind the writer position is moved up, the vector becomes longer by the
bytes written, and the room that was free before is free afterwards. A message that is written to
and emptied again and again grows with every write.

The bytes come out right all the same, so the statements here are about sizes.
-/

namespace EddyServer
namespace NetMessage

open Transition (Run)

variable {host : ByteOrder} {m m' : NetMessage} {size M K bound : Nat} {data : List UInt8}

/-! ## One write -/

/-- `write` keeps the storage and takes its bytes from the room that is there. -/
def UsesRoom (m : NetMessage) (data : List UInt8) : Prop :=
  ∃ m', m.write data = .ok m' ∧ m'.storage.length = m.storage.length ∧
    m'.writeable + data.length = m.writeable

/-- Nothing is written, or it is copied into the inline array. -/
def WritesInPlace (m : NetMessage) (size : Nat) : Prop :=
  size = 0 ∨ m.isDynmic = false ∧ size ≤ m.writeable + m.prependable

/-- Where there is room nothing is done. -/
theorem ensureWritableBytes_of_le (h : size ≤ m.writeable) : m.ensureWritableBytes size = .ok m :=
  if_neg (Nat.not_lt.mpr h)

/-- An insertion into a vector that is in use. -/
theorem length_storage_insert (hd : m.isDynmic = true) (data : List UInt8) :
    ({ m with dynamicData := some ((m.dynamicData.getD []).take m.writerPos ++ data ++
      (m.dynamicData.getD []).drop m.writerPos) }.hasWritten data.length).storage.length =
      m.storage.length + data.length := by
  have hst := storage_dynamic (m := { m with dynamicData := some _ }) hd
    (v := (m.dynamicData.getD []).take m.writerPos ++ data ++
      (m.dynamicData.getD []).drop m.writerPos) rfl
  rw [storage_hasWritten, hst, length_insert, storage, if_pos hd]

/-- **A vector does not use up its room**: it grows by the bytes that are written. -/
theorem not_usesRoom_of_dynamic (hd : m.isDynmic = true) (hne : data ≠ [])
    (hroom : data.length ≤ m.writeable) : ¬ m.UsesRoom data := by
  rintro ⟨m', hwrite, hlength, -⟩
  have hpos : 0 < data.length := List.length_pos_iff.mpr hne
  rw [write_cases (ensureWritableBytes_of_le hroom), if_pos hd] at hwrite
  split_ifs at hwrite
  cases hwrite
  rw [length_storage_insert hd] at hlength
  omega

/-- To write nothing changes nothing. -/
theorem write_nil (hm : m.Sound) : m.write [] = .ok m := by
  have hzero : SizeT.add m.writerPos 0 = m.writerPos := SizeT.add_eq hm.writer_lt
  have hroom : m.ensureWritableBytes ([] : List UInt8).length = .ok m :=
    ensureWritableBytes_of_le (Nat.zero_le _)
  have hwrite := write_cases hroom
  cases hd : m.isDynmic with
  | true =>
      obtain ⟨v, hv, hlength⟩ := hm.exists_vector hd
      rw [hwrite, if_pos hd, if_neg (by rw [hv]; exact Nat.not_lt.mpr hlength)]
      rw [List.append_nil, List.take_append_drop, hasWritten, List.length_nil, hzero, hv,
        Option.getD_some, ← hv]
  | false =>
      rw [hwrite, if_neg (by simp [hd]), overwrite_nil, hasWritten, List.length_nil, hzero]

theorem usesRoom_nil (hm : m.Sound) : m.UsesRoom [] := ⟨m, write_nil hm, rfl, rfl⟩

/-- A request that the inline array can satisfy leaves the message static. -/
theorem ensureWritableBytes_static (hm : m.WF) (hd : m.isDynmic = false)
    (hroom : size ≤ m.writeable + m.prependable) :
    ∃ r, m.ensureWritableBytes size = .ok r ∧ r.WF ∧ r.isDynmic = false ∧
      r.dynamicData = m.dynamicData ∧ r.writerPos + size ≤ r.storage.length := by
  have hreader := hm.reader_le
  have hwriter := hm.writer_le
  have hstorage := hm.storage_le
  have hmax : vectorMaxSize < 2 ^ 63 := by decide
  by_cases hfits : size ≤ m.writeable
  · refine ⟨m, ensureWritableBytes_of_le hfits, hm, hd, rfl, ?_⟩
    rw [hm.writeable_eq] at hfits
    omega
  · -- the content goes to the front
    have hadd := hm.add_room
    have hlength := length_storage_compact hm
    rw [hm.writeable_eq, prependable] at hroom
    have hgranted : m.ensureWritableBytes size = .ok m.compact := by
      unfold ensureWritableBytes makeSpace
      rw [if_pos (Nat.lt_of_not_le hfits), if_neg (by omega)]
    refine ⟨m.compact, hgranted, wf_compact hm, (isDynmic_compact m).trans hd, ?_, ?_⟩
    · simp [compact, hd]
    · rw [(positions_compact m).2, hlength, hm.readable_eq]
      omega

/-- What is copied into the inline array leaves the vector alone, and the message static. -/
theorem write_static (hm : m.WF) (hd : m.isDynmic = false)
    (hroom : data.length ≤ m.writeable + m.prependable) :
    ∃ m', m.write data = .ok m' ∧ m'.WF ∧ m'.isDynmic = false ∧ m'.dynamicData = m.dynamicData := by
  obtain ⟨r, hr, hrwf, hrd, hvector, hfits⟩ := ensureWritableBytes_static hm hd hroom
  have hwrite := write_cases hr
  rw [if_neg (by simp [hrd])] at hwrite
  exact ⟨_, hwrite, (overwrite_spec hrwf hrd hfits).1, hrd, hvector⟩

/-- **The room is used up exactly by what is written in place.** -/
theorem usesRoom_iff (hm : m.Sound) (hroom : data.length ≤ m.writeable) :
    m.UsesRoom data ↔ m.WritesInPlace data.length := by
  constructor
  · intro huses
    by_cases hnil : data = []
    · exact .inl (by rw [hnil]; rfl)
    · right
      cases hd : m.isDynmic with
      | true => exact absurd huses (not_usesRoom_of_dynamic hd hnil hroom)
      | false => exact ⟨rfl, Nat.le_add_right_of_le hroom⟩
  · rintro (hzero | ⟨hd, -⟩)
    · rw [List.length_eq_zero_iff] at hzero
      rw [hzero]
      exact usesRoom_nil hm
    · have hwf := hm.static_wf hd
      obtain ⟨m', hwrite, hwf', hd', -⟩ := write_static hwf hd (Nat.le_add_right_of_le hroom)
      have hlength : m'.storage.length = m.storage.length := by
        rw [storage_static hd, storage_static hd', hwf.static_length, hwf'.static_length]
      refine ⟨m', hwrite, hlength, ?_⟩
      -- the message was not compacted, so its writer position moves by what is written
      rw [write_cases (ensureWritableBytes_of_le hroom), if_neg (by simp [hd])] at hwrite
      have hwriter : m'.writerPos = SizeT.add m.writerPos data.length := by
        cases hwrite
        rfl
      have hle := hwf.writer_le
      have hstorage := hwf.storage_le
      unfold vectorMaxSize at hstorage
      rw [hwf.writeable_eq] at hroom ⊢
      rw [SizeT.add_eq (by omega)] at hwriter
      rw [hwf'.writeable_eq, hlength, hwriter]
      omega

/-! ## Runs on one message -/

/-- One call, after which the program goes on, also if it has thrown. -/
def step (host : ByteOrder) (m : NetMessage) (method : Method) : Option NetMessage :=
  if method.Asserted m then some (afterCall (method.run host m)) else none

/-- The calls of a run in which at most `M` bytes are readable and at most `K` are asked for. -/
def Bounded (M K : Nat) (m : NetMessage) (method : Method) : Prop :=
  m.readable ≤ M ∧ method.size < 2 ^ 64 ∧
    match method with
    | .write data => data.length ≤ K
    | .ensureWritableBytes size => size ≤ K
    | .retrieve _ | .retrieveAll | .clear => True
    | .writePod _ | .writeString _ | .writeLenghtAndString _ | .reserve _ | .setDynamic => False

instance (M K : Nat) (m : NetMessage) : (method : Method) → Decidable (Bounded M K m method)
  | .write data => inferInstanceAs (Decidable (_ ∧ _ ∧ data.length ≤ K))
  | .ensureWritableBytes size => inferInstanceAs (Decidable (_ ∧ _ ∧ size ≤ K))
  | .retrieve _ | .retrieveAll | .clear => inferInstanceAs (Decidable (_ ∧ _ ∧ True))
  | .writePod _ | .writeString _ | .writeLenghtAndString _ | .reserve _ | .setDynamic =>
    inferInstanceAs (Decidable (_ ∧ _ ∧ False))

/-- The call writes in place, if it writes. -/
def CallsInPlace (m : NetMessage) : Method → Prop
  | .write data => m.WritesInPlace data.length
  | _ => True

/-- The vector, if there is one, has `bound` bytes at most. -/
def VectorWithin (bound : Nat) (m : NetMessage) : Prop := ∀ v ∈ m.dynamicData, v.length ≤ bound

/-- A vector that has to grow is smaller than the request and the content. -/
theorem VectorWithin.ensureWritableBytes (hm : m.WF) (hv : m.VectorWithin bound)
    (hfits : m.growsFrom + size < 2 ^ 64) (hnew : 2 * kDynamicThreshold ≤ bound)
    (hbound : m.readable + 2 * size ≤ bound) :
    (afterCall (m.ensureWritableBytes size)).VectorWithin bound := by
  have hset : m.setDynamic.VectorWithin bound := by
    intro v hmem
    rcases length_vector_setDynamic_le (fun _ => hm) hmem with hold | hmade
    · exact hv v hold
    · exact hmade.trans hnew
  have hreader := hm.reader_le
  have hwriter := hm.writer_le
  have hreadable := hm.readable_eq
  have hadd := hm.add_room
  unfold NetMessage.ensureWritableBytes makeSpace
  dsimp only
  rw [writerPos_setDynamic, SizeT.add_eq hfits]
  split_ifs with hroom hgrow hthrows
  · exact hset
  · intro v hmem
    obtain ⟨w, -, rfl⟩ := Option.map_eq_some_iff.mp hmem
    rw [length_resize]
    unfold growsFrom
    split_ifs <;> omega
  · intro v hmem
    obtain ⟨w, hw, hlength⟩ := length_vector_compact hmem
    rw [hlength]
    exact hv w hw
  · exact hv

/-- **One call.** -/
theorem VectorWithin.step {method : Method} (hs : m.Sound) (hm : m.WF)
    (hv : m.VectorWithin bound) (hK : K < 2 ^ 62) (hbound : bound = max 256 (M + 2 * K))
    (hok : Bounded M K m method) (hplace : CallsInPlace m method)
    (hstep : step host m method = some m') : m'.WF ∧ m'.VectorWithin bound := by
  have hwriter := hm.writer_le
  have hstorage := hm.storage_le
  have hgrows := hm.growsFrom_le
  have hmax : vectorMaxSize < 2 ^ 63 := by decide
  obtain ⟨hreadable, -, hsize⟩ := hok
  unfold NetMessage.step at hstep
  split_ifs at hstep with hasserted
  cases hstep
  cases method with
  | write data =>
      have hsize : data.length ≤ K := hsize
      refine ⟨wf_write hm (by omega), ?_⟩
      rcases hplace with hzero | ⟨hd, hroom⟩
      · rw [List.length_eq_zero_iff.mp hzero]
        show (afterCall (m.write [])).VectorWithin bound
        rw [write_nil hs]
        exact hv
      · obtain ⟨r, hr, -, -, hvector⟩ := write_static hm hd hroom
        show (afterCall (m.write data)).VectorWithin bound
        rw [hr]
        intro v hmem
        exact hv v (hvector ▸ hmem)
  | ensureWritableBytes size =>
      have hsize : size ≤ K := hsize
      refine ⟨wf_ensureWritableBytes hm (by omega), ?_⟩
      apply hv.ensureWritableBytes hm (by omega)
      · rw [hbound]
        exact Nat.le_max_left _ _
      · omega
  | retrieve size =>
      refine ⟨(retrieve_spec hm hasserted).1, ?_⟩
      show (m.retrieve size).VectorWithin bound
      unfold NetMessage.retrieve
      split_ifs <;> exact hv
  | retrieveAll => exact ⟨(retrieveAll_spec hm).1, hv⟩
  | clear =>
      refine ⟨(clear_spec hm).1, ?_⟩
      intro v hmem
      rcases mem_dynamicData_clear hmem with hold | rfl
      · exact hv v hold
      · exact Nat.zero_le _
  | writePod _ => exact hsize.elim
  | writeString _ => exact hsize.elim
  | writeLenghtAndString _ => exact hsize.elim
  | reserve _ => exact hsize.elim
  | setDynamic => exact hsize.elim

/-- A run on one message is a run of a program. -/
theorem reachable_of_run {ok : NetMessage → Method → Prop} {junk : Junk}
    (hrun : Run (step host) ok (.new junk) m)
    (hsize : ∀ m method, ok m method → method.size < 2 ^ 64) : m.Reachable host ok := by
  refine hrun.invariant (fun {m method m'} hm hok hstep => ?_) (.new junk)
  unfold step at hstep
  split_ifs at hstep with hasserted
  cases hstep
  exact .call method hm (hsize m method hok) hasserted hok

/-- **A message whose writes are all in place has a vector that is bounded for ever.** -/
theorem vector_bounded {junk : Junk}
    (hrun : Run (step host) (fun m method => Bounded M K m method ∧ CallsInPlace m method)
      (.new junk) m) : m.VectorWithin (max 256 (M + 2 * K)) := by
  by_cases hK : K < 2 ^ 62
  · have hkept : m.Sound ∧ m.WF ∧ m.VectorWithin (max 256 (M + 2 * K)) := by
      refine hrun.invariant
        (I := fun m => m.Sound ∧ m.WF ∧ m.VectorWithin (max 256 (M + 2 * K)))
        (fun {m method m'} hm hok hstep => ?_)
        ⟨sound_new junk, wf_new junk, fun v hv => by cases hv⟩
      obtain ⟨hs, hwf, hv⟩ := hm
      refine ⟨?_, hv.step hs hwf hK rfl hok.1 hok.2 hstep⟩
      unfold step at hstep
      split_ifs at hstep with hasserted
      cases hstep
      exact hs.call hasserted
    exact hkept.2.2
  · -- half of all requests are as large as any vector
    have hsound := (reachable_of_run hrun fun m method hok => hok.1.2.1).sound
    intro v hv
    have hlength := hsound.vector_le v hv
    unfold vectorMaxSize at hlength
    omega

/-- **The room that a message was given is used exactly by writes in place**, and a run of such
writes never makes the vector longer than the content and two requests. -/
theorem room_used_iff {r : NetMessage} {junk : Junk}
    (hm : m.Reachable host fun _ _ => True) (hroom : data.length ≤ m.writeable)
    (hrun : Run (step host) (fun m method => Bounded M K m method ∧ CallsInPlace m method)
      (.new junk) r) :
    (m.UsesRoom data ↔ m.WritesInPlace data.length) ∧ r.VectorWithin (max 256 (M + 2 * K)) :=
  ⟨usesRoom_iff hm.sound hroom, vector_bounded hrun⟩

/-- A message that has been given a vector of 200 bytes. -/
def roomy : NetMessage := afterCall ((new .zeros).ensureWritableBytes 200)

theorem room_used_iff_first_write :
    (new .zeros).UsesRoom [7] ∧ roomy.VectorWithin (max 256 (0 + 2 * 200)) := by
  have hrun : Run (step .little)
      (fun m method => Bounded 0 200 m method ∧ CallsInPlace m method) (.new .zeros) roomy :=
    .tail (a := .ensureWritableBytes 200) (.refl _) ⟨by decide +kernel, trivial⟩ rfl
  have hroom : [(7 : UInt8)].length ≤ (new .zeros).writeable := by decide +kernel
  obtain ⟨huses, hwithin⟩ := room_used_iff (.new .zeros) hroom hrun
  exact ⟨huses.mpr (.inr (by decide +kernel)), hwithin⟩

/-- Three times 129 bytes, taken out in between. -/
def refilled : List Method :=
  let fill := Method.write (List.replicate 129 7)
  [fill, .retrieveAll, fill, .retrieveAll, fill]

/-- One byte written into a vector with room for 200 makes it 201 bytes long. Three messages of 129
bytes, one after the other, leave a vector of 516. -/
theorem vector_grows_with_every_write :
    (roomy.Reachable .little (fun _ _ => True) ∧ [7].length ≤ roomy.writeable ∧
      ¬ roomy.UsesRoom [7]) ∧
    ∃ m, Run (step .little) (Bounded 129 129) (.new .zeros) m ∧ m.readable ≤ 129 ∧
      ¬ m.VectorWithin (max 256 (129 + 2 * 129)) := by
  have hreach : roomy.Reachable .little fun _ _ => True :=
    .call (.ensureWritableBytes 200) (.new .zeros) (by decide) trivial trivial
  refine ⟨⟨hreach, by decide +kernel, ?_⟩, ?_⟩
  · exact not_usesRoom_of_dynamic (by decide +kernel) (by decide) (by decide +kernel)
  · obtain ⟨m, hm, hlength⟩ := Option.map_eq_some_iff.mp (show
      (Transition.exec (step .little) (.new .zeros) refilled).map
        (fun m => (m.dynamicData.map List.length, m.readable)) = some (some 516, 129) by
          decide +kernel)
    obtain ⟨hlength, hreadable⟩ := Prod.mk.inj hlength
    obtain ⟨v, hv, hlength⟩ := Option.map_eq_some_iff.mp hlength
    refine ⟨m, Transition.run_of_exec hm (by decide +kernel), hreadable.le, fun hwithin => ?_⟩
    have hle := hwithin v hv
    omega

end NetMessage
end EddyServer
