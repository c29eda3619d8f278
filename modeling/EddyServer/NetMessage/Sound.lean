import EddyServer.NetMessage.Growth

/-!
# What no call can break

A message whose positions have wrapped is a message still, and the program goes on with it. The
sizes of its storage stay below their limits, and once it is static it is well formed: a sum can
only wrap where a vector is made.
-/

namespace EddyServer
namespace NetMessage

/-- The sizes are below their limits, and a static message is well formed. -/
structure Sound (m : NetMessage) : Prop where
  static_length : m.staticData.length = kDynamicThreshold
  present : m.isDynmic = true → m.dynamicData.isSome = true
  vector_le : ∀ v ∈ m.dynamicData, v.length ≤ vectorMaxSize
  writer_lt : m.writerPos < 2 ^ 64
  static_wf : m.isDynmic = false → m.WF

variable {host : ByteOrder} {ok : NetMessage → Method → Prop} {m m' : NetMessage} {size : Nat}
  {data : List UInt8}

theorem Sound.exists_vector (hm : m.Sound) (hd : m.isDynmic = true) :
    ∃ v, m.dynamicData = some v ∧ v.length ≤ vectorMaxSize := by
  obtain ⟨v, hv⟩ := Option.isSome_iff_exists.mp (hm.present hd)
  exact ⟨v, hv, hm.vector_le v hv⟩

theorem sound_of_dynamic {v : List UInt8} (hd : m.isDynmic = true) (hv : m.dynamicData = some v)
    (hlength : v.length ≤ vectorMaxSize) (hstatic : m.staticData.length = kDynamicThreshold)
    (hwriter : m.writerPos < 2 ^ 64) : m.Sound where
  static_length := hstatic
  present := by
    intro _
    rw [hv]
    rfl
  vector_le := by
    intro w hw
    rw [hv] at hw
    cases hw
    exact hlength
  writer_lt := hwriter
  static_wf := by
    intro hfalse
    rw [hd] at hfalse
    cases hfalse

theorem WF.sound (hm : m.WF) (hvector : ∀ v ∈ m.dynamicData, v.length ≤ vectorMaxSize) :
    m.Sound where
  static_length := hm.static_length
  present := hm.present
  vector_le := hvector
  writer_lt := by
    have hwriter := hm.writer_le
    have hstorage := hm.storage_le
    unfold vectorMaxSize at hstorage
    omega
  static_wf := fun _ => hm

/-! ## One call -/

/-- The content of a static message fits into the inline array. -/
theorem WF.readable_le (hm : m.WF) (hd : m.isDynmic = false) : m.readable ≤ kDynamicThreshold := by
  have hwriter := hm.writer_le
  have hreadable := hm.readable_eq
  rw [storage_static hd, hm.static_length] at hwriter
  omega

theorem readable_lt (m : NetMessage) : m.readable < 2 ^ 64 := Nat.mod_lt _ (by decide)

/-- The vector that `set_dynamic` makes has at most twice the size of the inline array. -/
theorem length_vector_setDynamic_le {v : List UInt8}
    (hwf : m.isDynmic = false → m.WF) (hv : v ∈ m.setDynamic.dynamicData) :
    v ∈ m.dynamicData ∨ v.length ≤ 2 * kDynamicThreshold := by
  cases hd : m.isDynmic with
  | true =>
      simp only [setDynamic, hd, if_true] at hv
      exact .inl hv
  | false =>
      have hreadable := (hwf hd).readable_le hd
      simp only [setDynamic, hd, Bool.false_eq_true, if_false, Option.mem_def,
        Option.some.injEq] at hv
      subst hv
      right
      simp only [List.length_append, List.length_take, List.length_replicate]
      omega

theorem Sound.setDynamic (hm : m.Sound) : m.setDynamic.Sound := by
  cases hd : m.isDynmic with
  | true =>
      rw [NetMessage.setDynamic, if_pos hd]
      exact hm
  | false =>
      have hwf := hm.static_wf hd
      apply (wf_setDynamic hwf).sound
      intro v hv
      rcases length_vector_setDynamic_le hm.static_wf hv with hold | hnew
      · exact hm.vector_le v hold
      · exact hnew.trans (by decide)

/-- Compaction leaves a vector as long as it was. -/
theorem length_vector_compact {v : List UInt8} (hv : v ∈ m.compact.dynamicData) :
    ∃ w ∈ m.dynamicData, v.length = w.length := by
  cases hd : m.isDynmic with
  | false =>
      simp only [compact, hd, Bool.false_eq_true, if_false] at hv
      exact ⟨v, hv, rfl⟩
  | true =>
      simp only [compact, hd, if_true] at hv
      obtain ⟨w, hw, rfl⟩ := Option.map_eq_some_iff.mp hv
      refine ⟨w, hw, length_overwrite ?_⟩
      rw [storage_dynamic hd hw, List.length_take, List.length_drop]
      omega

theorem isDynmic_compact (m : NetMessage) : m.compact.isDynmic = m.isDynmic := by
  cases hd : m.isDynmic <;> simp [compact, hd]

theorem Sound.compact (hm : m.Sound) : m.compact.Sound := by
  have hvector : ∀ v ∈ m.compact.dynamicData, v.length ≤ vectorMaxSize := by
    intro v hv
    obtain ⟨w, hw, hlen⟩ := length_vector_compact hv
    rw [hlen]
    exact hm.vector_le w hw
  cases hd : m.isDynmic with
  | false => exact (wf_compact (hm.static_wf hd)).sound hvector
  | true =>
      refine ⟨?_, fun _ => ?_, hvector, ?_, fun hfalse => ?_⟩
      · simpa [NetMessage.compact, hd] using hm.static_length
      · simpa [NetMessage.compact, hd] using hm.present hd
      · rw [(positions_compact m).2]
        exact readable_lt m
      · rw [isDynmic_compact, hd] at hfalse
        cases hfalse

theorem Sound.ensureWritableBytes (hm : m.Sound) (size : Nat) :
    (afterCall (m.ensureWritableBytes size)).Sound := by
  unfold NetMessage.ensureWritableBytes makeSpace
  dsimp only
  split_ifs with hfits hgrow hthrows
  · exact hm.setDynamic
  · -- the vector has the size that has been granted
    have hset := hm.setDynamic
    have hdynamic := isDynmic_setDynamic m
    obtain ⟨v, hv, -⟩ := hset.exists_vector hdynamic
    refine sound_of_dynamic hdynamic (congrArg (Option.map _) hv) ?_ hset.static_length
      hset.writer_lt
    rw [length_resize]
    omega
  · exact hm.compact
  · exact hm

/-- A message that is static with its room made was static before, and the request was a small
one. -/
theorem static_of_ensureWritableBytes (h : m.ensureWritableBytes size = .ok m')
    (hd : m'.isDynmic = false) :
    m.isDynmic = false ∧ (m.WF → size ≤ m.storage.length) := by
  unfold NetMessage.ensureWritableBytes makeSpace at h
  dsimp only at h
  split_ifs at h with hfits hgrow hthrows <;> cases h
  · have hdynamic := isDynmic_setDynamic m
    rw [show m.setDynamic.isDynmic = false from hd] at hdynamic
    cases hdynamic
  · rw [isDynmic_compact] at hd
    refine ⟨hd, fun hm => ?_⟩
    have hreader := hm.reader_le
    have hwriter := hm.writer_le
    rw [hm.add_room] at hgrow
    omega
  · refine ⟨hd, fun hm => ?_⟩
    rw [hm.writeable_eq] at hfits
    omega

/-- What `write` does behind `ensure_writable_bytes`. -/
theorem write_cases {r : NetMessage} (h : m.ensureWritableBytes data.length = .ok r) :
    m.write data =
      if r.isDynmic then
        if (r.dynamicData.getD []).length + data.length > vectorMaxSize then .error r
        else
          .ok ({ r with dynamicData := some ((r.dynamicData.getD []).take r.writerPos ++ data ++
            (r.dynamicData.getD []).drop r.writerPos) }.hasWritten data.length)
      else
        .ok ({ r with staticData := overwrite r.staticData r.writerPos data }.hasWritten
          data.length) := by
  rw [write, h]

theorem writerPos_hasWritten_lt (m : NetMessage) (size : Nat) :
    (m.hasWritten size).writerPos < 2 ^ 64 := Nat.mod_lt _ (by decide)

/-- An insertion makes a vector longer by what is inserted, wherever that is. -/
theorem length_insert (v data : List UInt8) (pos : Nat) :
    (v.take pos ++ data ++ v.drop pos).length = v.length + data.length := by
  simp only [List.length_append, List.length_take, List.length_drop]
  omega

theorem Sound.write (hm : m.Sound) (data : List UInt8) : (afterCall (m.write data)).Sound := by
  have hroom := hm.ensureWritableBytes data.length
  cases hr : m.ensureWritableBytes data.length with
  | error r =>
      rw [hr] at hroom
      rw [NetMessage.write, hr]
      exact hroom
  | ok r =>
      rw [hr] at hroom
      have hwrite := write_cases hr
      cases hd : r.isDynmic with
      | true =>
          rw [hd, if_pos rfl] at hwrite
          rw [hwrite]
          split_ifs with hthrows
          · exact hroom
          · refine sound_of_dynamic rfl rfl ?_ hroom.static_length (writerPos_hasWritten_lt _ _)
            rw [length_insert]
            omega
      | false =>
          -- the message has been static and well formed all along
          obtain ⟨hstatic, hsmall⟩ := static_of_ensureWritableBytes hr hd
          have hwf := hm.static_wf hstatic
          have hsize := hsmall hwf
          have hstorage := hwf.storage_le
          have hmax : vectorMaxSize < 2 ^ 63 := by decide
          rw [hd, if_neg Bool.false_ne_true] at hwrite
          have hwf' := (write_ok hwf (by omega) hwrite).1
          rw [hwrite]
          exact hwf'.sound hroom.vector_le

theorem Sound.writeString (hm : m.Sound) (value : List UInt8) :
    (afterCall (m.writeString value)).Sound := by
  unfold NetMessage.writeString
  split_ifs
  · exact hm
  · exact hm.write value

theorem Sound.retrieveAll (hm : m.Sound) : m.retrieveAll.Sound where
  static_length := hm.static_length
  present := hm.present
  vector_le := hm.vector_le
  writer_lt := show 0 < 2 ^ 64 by decide
  static_wf := fun hd => (retrieveAll_spec (hm.static_wf hd)).1

theorem Sound.retrieve (hm : m.Sound) (hsize : size ≤ m.readable) : (m.retrieve size).Sound := by
  have hwf : m.isDynmic = false → (m.retrieve size).WF := fun hd =>
    (retrieve_spec (hm.static_wf hd) hsize).1
  unfold NetMessage.retrieve at hwf ⊢
  split_ifs at hwf ⊢
  · exact ⟨hm.static_length, hm.present, hm.vector_le, hm.writer_lt, hwf⟩
  · exact hm.retrieveAll

/-- `clear` leaves the vector alone, or empties it. -/
theorem mem_dynamicData_clear {v : List UInt8} (hv : v ∈ m.clear.dynamicData) :
    v ∈ m.dynamicData ∨ v = [] := by
  unfold NetMessage.clear at hv
  dsimp only at hv
  split_ifs at hv
  · obtain ⟨w, -, rfl⟩ := Option.map_eq_some_iff.mp hv
    exact .inr rfl
  · exact .inl hv

theorem Sound.clear (hm : m.Sound) : m.clear.Sound where
  static_length := hm.static_length
  present := by
    intro hd
    have hdynamic : m.isDynmic = true := hd
    obtain ⟨v, hv, -⟩ := hm.exists_vector hdynamic
    simp [NetMessage.clear, hdynamic, hv]
  vector_le := by
    intro v hv
    rcases mem_dynamicData_clear hv with hold | rfl
    · exact hm.vector_le v hold
    · exact Nat.zero_le _
  writer_lt := show 0 < 2 ^ 64 by decide
  static_wf := fun hd => (clear_spec (hm.static_wf hd)).1

theorem Sound.call {method : Method} (hm : m.Sound) (hasserted : method.Asserted m) :
    (afterCall (method.run host m)).Sound := by
  cases method with
  | write data => exact hm.write data
  | writePod value => exact hm.write value
  | writeString value => exact hm.writeString value
  | writeLenghtAndString value =>
      have hlength := hm.write (host.toMemory32 (BitVec.ofNat 32 value.length))
      show (afterCall (writeLenghtAndString host m value)).Sound
      unfold writeLenghtAndString writePod
      cases hr : m.write (host.toMemory32 (BitVec.ofNat 32 value.length)) with
      | error r =>
          rw [hr] at hlength
          exact hlength
      | ok r =>
          rw [hr] at hlength
          exact hlength.writeString value
  | retrieve size => exact hm.retrieve hasserted
  | retrieveAll => exact hm.retrieveAll
  | clear => exact hm.clear
  | reserve size =>
      show (afterCall (m.reserve size)).Sound
      unfold reserve
      dsimp only
      split_ifs
      · exact hm
      · exact hm.setDynamic
      · exact hm.setDynamic
  | ensureWritableBytes size => exact hm.ensureWritableBytes size
  | setDynamic => exact hm.setDynamic

/-! ## Every message of a program -/

theorem sound_new (junk : Junk) : (new junk).Sound :=
  (wf_new junk).sound fun _ hv => by cases hv

theorem Sound.copy (junk : Junk) (hm : m.Sound) : (copy junk m).Sound := by
  cases hd : m.isDynmic with
  | false =>
      refine (copy_spec junk (hm.static_wf hd)).1.sound ?_
      simp [NetMessage.copy, hd]
  | true =>
      rw [NetMessage.copy, if_neg (by simp [hd])]
      obtain ⟨v, hv, hlength⟩ := hm.exists_vector hd
      exact sound_of_dynamic rfl hv hlength junk.property hm.writer_lt

theorem Sound.copyAssign {rhs : NetMessage} (hm : m.Sound) (hrhs : rhs.Sound) :
    (m.copyAssign rhs).Sound := by
  cases hd : rhs.isDynmic with
  | false =>
      have hwf := hrhs.static_wf hd
      have hwriter := hwf.writer_le
      rw [storage_static hd] at hwriter
      rw [NetMessage.copyAssign, if_pos hd]
      have hst := storage_static (m := { m with
        isDynmic := false, readerPos := rhs.readerPos, writerPos := rhs.writerPos,
        staticData := rhs.staticData }) rfl
      refine ⟨hwf.static_length, (fun h => by cases h), hm.vector_le, hrhs.writer_lt, fun _ =>
        ⟨hwf.static_length, (fun h => by cases h), hwf.reader_le, ?_, ?_⟩⟩
      · rw [hst]
        exact hwriter
      · rw [hst]
        exact (Nat.le_of_eq hwf.static_length).trans (by decide)
  | true =>
      rw [NetMessage.copyAssign, if_neg (by simp [hd])]
      obtain ⟨v, hv, hlength⟩ := hrhs.exists_vector hd
      exact sound_of_dynamic rfl hv hlength hm.static_length hrhs.writer_lt

theorem Sound.movedFrom (hm : m.Sound) : m.movedFrom.Sound := by
  have hst : m.movedFrom.storage.length = kDynamicThreshold := by
    rw [storage_static rfl]
    exact hm.static_length
  have hwf : m.movedFrom.WF :=
    ⟨hm.static_length, (fun h => by cases h), Nat.le_refl _, Nat.zero_le _,
      (Nat.le_of_eq hst).trans (by decide)⟩
  apply hwf.sound
  intro v hv
  unfold NetMessage.movedFrom at hv
  dsimp only at hv
  split_ifs at hv
  · cases hv
  · exact hm.vector_le v hv

theorem Sound.hasWritten (hm : m.Sound) (hsize : size ≤ m.writeable) : (m.hasWritten size).Sound :=
  ⟨hm.static_length, hm.present, hm.vector_le, writerPos_hasWritten_lt _ _,
    fun hd => wf_hasWritten (hm.static_wf hd) hsize⟩

/-- **Every message of every program is sound**, whatever sizes it was called with. -/
theorem Reachable.sound (h : m.Reachable host ok) : m.Sound := by
  induction h with
  | new junk => exact sound_new junk
  | copy junk _ ih => exact ih.copy junk
  | copyAssign _ _ ih ihrhs => exact ih.copyAssign ihrhs
  | movedFrom _ ih => exact ih.movedFrom
  | call method _ _ hasserted _ ih => exact ih.call hasserted
  | hasWritten size _ hsize ih => exact ih.hasWritten hsize

end NetMessage

/-! ## The objects of a program -/

namespace Store

variable {host : ByteOrder} {σ σ' : Store} {m : NetMessage}

/-- Every object has come about by calls. -/
def AllReachable (host : ByteOrder) (σ : Store) : Prop :=
  ∀ i m, σ.objects i = some m → m.Reachable host fun _ _ => True

theorem AllReachable.set (h : AllReachable host σ) (hm : m.Reachable host fun _ _ => True)
    (i : Nat) : AllReachable host (σ.set i m) := by
  intro j m' hj
  unfold Store.set at hj
  dsimp only at hj
  split_ifs at hj
  · cases hj
    exact hm
  · exact h j m' hj

/-- An object has become the result of a call. -/
theorem AllReachable.become {i : Nat} (h : AllReachable host σ) (method : Method)
    (hm : m.Reachable host fun _ _ => True) (hsize : method.size < 2 ^ 64)
    (hasserted : method.Asserted m) (hstep : σ.become i (method.run host m) = some σ') :
    AllReachable host σ' := by
  obtain ⟨r, hr, rfl⟩ := become_eq_some hstep
  have hcall := NetMessage.Reachable.call method hm hsize hasserted trivial
  rw [hr] at hcall
  exact h.set hcall i

theorem AllReachable.step {op : Op} (h : AllReachable host σ) (hsize : op.size < 2 ^ 64)
    (hstep : step host σ op = some σ') : AllReachable host σ' := by
  cases op with
  | new i junk =>
      unfold Store.step at hstep
      dsimp only at hstep
      split_ifs at hstep
      cases hstep
      exact h.set (.new junk) i
  | ofSize i junk size =>
      unfold Store.step at hstep
      dsimp only at hstep
      split_ifs at hstep
      exact h.become (.ensureWritableBytes size) (.new junk) hsize trivial hstep
  | ofData i junk data =>
      unfold Store.step at hstep
      dsimp only at hstep
      split_ifs at hstep
      exact h.become (.write data) (.new junk) hsize trivial hstep
  | copy i junk other =>
      unfold Store.step at hstep
      dsimp only at hstep
      split_ifs at hstep
      obtain ⟨m, hm, rfl⟩ := Option.map_eq_some_iff.mp hstep
      exact h.set (.copy junk (h other m hm)) i
  | move i junk other =>
      unfold Store.step at hstep
      dsimp only at hstep
      split_ifs at hstep
      obtain ⟨m, hm, rfl⟩ := Option.map_eq_some_iff.mp hstep
      exact (h.set (.copy junk (h other m hm)) i).set (.movedFrom (h other m hm)) other
  | copyAssign i rhs =>
      obtain ⟨m, hm, hrest⟩ := Option.bind_eq_some_iff.mp hstep
      obtain ⟨m', hm', rfl⟩ := Option.map_eq_some_iff.mp hrest
      split_ifs
      · exact h
      · exact h.set (.copyAssign (h i m hm) (h rhs m' hm')) i
  | moveAssign i rhs =>
      obtain ⟨m, hm, hrest⟩ := Option.bind_eq_some_iff.mp hstep
      obtain ⟨m', hm', rfl⟩ := Option.map_eq_some_iff.mp hrest
      dsimp only
      split_ifs
      · exact h
      · exact (h.set (.copyAssign (h i m hm) (h rhs m' hm')) i).set (.movedFrom (h rhs m' hm')) rhs
  | swap i other =>
      obtain ⟨m, hm, hrest⟩ := Option.bind_eq_some_iff.mp hstep
      obtain ⟨m', hm', rfl⟩ := Option.map_eq_some_iff.mp hrest
      dsimp only
      split_ifs
      · exact h
      · exact (h.set (h other m' hm') i).set (h i m hm) other
  | call i method =>
      obtain ⟨m, hm, hrest⟩ := Option.bind_eq_some_iff.mp hstep
      split_ifs at hrest with hasserted
      exact h.become method (h i m hm) hsize hasserted hrest
  | readPod i size =>
      obtain ⟨m, hm, hrest⟩ := Option.bind_eq_some_iff.mp hstep
      split_ifs at hrest with hfits
      cases hrest
      exact h.set (.call (.retrieve size) (h i m hm) (show 0 < 2 ^ 64 by decide) hfits trivial) i

/-- **The objects of every program are sound.** -/
theorem sound_of_run (hrun : Transition.Run (step host) (fun _ op => op.size < 2 ^ 64) .empty σ)
    {i : Nat} (hm : σ.objects i = some m) : m.Reachable host (fun _ _ => True) ∧ m.Sound := by
  have hall : AllReachable host σ :=
    hrun.invariant (fun h hsize hstep => h.step hsize hstep) fun _ _ hnone => by cases hnone
  have hreach := hall i m hm
  exact ⟨hreach, hreach.sound⟩

end Store
end EddyServer
