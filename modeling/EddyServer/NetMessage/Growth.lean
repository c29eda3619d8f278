import EddyServer.NetMessage.Store

/-!
# Making room

`make_space` adds the request to the writer position, in 64 bits. Near the end of `size_t` the sum
wraps around: the vector is cut off in front of the writer position instead of growing, and the
difference that `writeable` takes afterwards wraps too.

What a program can do to one message is a relation here and not a run, because other messages have a
part in it: `Reachable` is derived for a message from the messages that it is made of. A call that
throws leaves an object that the program may go on with.
-/

namespace EddyServer

namespace NetMessage

/-- The object after a call that has returned or thrown. -/
def afterCall : Except NetMessage NetMessage → NetMessage
  | .ok m => m
  | .error m => m

/-- The messages that a program can come to by calls that `ok` admits. The other constructors are a
call on a new message, a move is a copy that leaves `movedFrom` behind, and `swap` exchanges two
messages as they are. A size is a `size_t`. -/
inductive Reachable (host : ByteOrder) (ok : NetMessage → Method → Prop) : NetMessage → Prop
  | new (junk : Junk) : Reachable host ok (.new junk)
  | copy (junk : Junk) {other : NetMessage} :
      Reachable host ok other → Reachable host ok (.copy junk other)
  | copyAssign {m rhs : NetMessage} :
      Reachable host ok m → Reachable host ok rhs → Reachable host ok (m.copyAssign rhs)
  | movedFrom {m : NetMessage} : Reachable host ok m → Reachable host ok m.movedFrom
  | call {m : NetMessage} (method : Method) : Reachable host ok m → method.size < 2 ^ 64 →
      method.Asserted m → ok m method → Reachable host ok (afterCall (method.run host m))
  | hasWritten {m : NetMessage} (size : Nat) :
      Reachable host ok m → size ≤ m.writeable → Reachable host ok (m.hasWritten size)

/-! ## Where the vector grows from -/

/-- The writer position when `make_space` comes to resize the vector. -/
def growsFrom (m : NetMessage) : Nat := if m.isDynmic then m.writerPos else m.readable

variable {m m' : NetMessage} {size : Nat}

theorem writerPos_setDynamic (m : NetMessage) : m.setDynamic.writerPos = m.growsFrom := by
  cases h : m.isDynmic <;> simp [setDynamic, growsFrom, h]

theorem WF.growsFrom_le (hm : m.WF) : m.growsFrom ≤ m.writerPos := by
  rw [← writerPos_setDynamic]
  exact writerPos_setDynamic_le hm

/-- The room in front of the content and behind it is no more than the storage. -/
theorem WF.add_room (hm : m.WF) :
    SizeT.add m.writeable m.prependable = m.storage.length - m.writerPos + m.readerPos := by
  have hreader := hm.reader_le
  have hwriter := hm.writer_le
  have hstorage := hm.storage_le
  unfold vectorMaxSize at hstorage
  rw [hm.writeable_eq, prependable]
  exact SizeT.add_eq (by omega)

/-- `ensure_writable_bytes` throws when the sum of position and request is more than a vector may
have, and the message has its vector by then. -/
theorem ensureWritableBytes_error (h : m.ensureWritableBytes size = .error m') :
    m' = m.setDynamic ∧ vectorMaxSize < SizeT.add m.growsFrom size := by
  unfold ensureWritableBytes makeSpace at h
  dsimp only at h
  rw [writerPos_setDynamic] at h
  split_ifs at h with hfits hgrow hthrows
  cases h
  exact ⟨rfl, hthrows⟩

/-- A request that is granted and does not wrap is below the limit of a vector. -/
theorem lt_of_ensureWritableBytes (hm : m.WF) (hfits : m.growsFrom + size < 2 ^ 64)
    (h : m.ensureWritableBytes size = .ok m') : size < 2 ^ 63 := by
  have hreader := hm.reader_le
  have hwriter := hm.writer_le
  have hstorage := hm.storage_le
  have hmax : vectorMaxSize < 2 ^ 63 := by decide
  unfold ensureWritableBytes makeSpace at h
  dsimp only at h
  rw [writerPos_setDynamic, SizeT.add_eq hfits, hm.add_room, hm.writeable_eq] at h
  split_ifs at h <;> omega

/-- A granted request leaves a vector's writer position where it was or further in front. -/
theorem growsFrom_ensureWritableBytes_le (hm : m.WF)
    (h : m.ensureWritableBytes size = .ok m') : m'.growsFrom ≤ m.growsFrom := by
  unfold ensureWritableBytes makeSpace at h
  dsimp only at h
  split_ifs at h with hfits hgrow hthrows <;> cases h
  · -- only the vector has changed, and the message is dynamic
    have hdynamic := isDynmic_setDynamic m
    rw [← writerPos_setDynamic m]
    simp [growsFrom, hdynamic]
  · -- behind the content at the front lies the whole free room
    have hcompact : m.compact.isDynmic = m.isDynmic := by
      cases hd : m.isDynmic <;> simp [compact, hd]
    have hread : m.compact.readable = m.readable := by
      rw [← (wf_compact hm).length_content, content_compact hm, hm.length_content]
    have hreadable := hm.readable_eq
    unfold growsFrom
    rw [hcompact, hread, (positions_compact m).2]
    split_ifs <;> omega
  · exact Nat.le_refl _

/-! ## Every call keeps the representation, unless a sum wraps -/

end NetMessage

/-- The room that a member function asks for. -/
def Method.request : Method → Nat
  | .write data | .writePod data | .writeString data => data.length
  | .writeLenghtAndString value => 4 + value.length
  | .ensureWritableBytes size => size
  | .retrieve _ | .retrieveAll | .clear | .reserve _ | .setDynamic => 0

/-- Position and request are a `size_t`. -/
def Method.Fits (m : NetMessage) (method : Method) : Prop := m.growsFrom + method.request < 2 ^ 64

namespace NetMessage

variable {host : ByteOrder} {m m' : NetMessage} {size : Nat} {data : List UInt8}

theorem wf_ensureWritableBytes (hm : m.WF) (hfits : m.growsFrom + size < 2 ^ 64) :
    (afterCall (m.ensureWritableBytes size)).WF := by
  cases h : m.ensureWritableBytes size with
  | error r =>
      obtain ⟨rfl, -⟩ := ensureWritableBytes_error h
      exact wf_setDynamic hm
  | ok r => exact (ensureWritableBytes_ok hm (lt_of_ensureWritableBytes hm hfits h) h).1

theorem wf_write (hm : m.WF) (hfits : m.growsFrom + data.length < 2 ^ 64) :
    (afterCall (m.write data)).WF := by
  cases h : m.write data with
  | ok r =>
      refine (write_ok hm ?_ h).1
      cases hr : m.ensureWritableBytes data.length with
      | ok r => exact lt_of_ensureWritableBytes hm hfits hr
      | error r =>
          rw [write, hr] at h
          cases h
  | error r =>
      have hroom := wf_ensureWritableBytes hm hfits
      unfold write at h
      -- the exception comes from making room, or from the insertion behind it
      cases hr : m.ensureWritableBytes data.length with
      | error r' =>
          rw [hr] at h hroom
          cases h
          exact hroom
      | ok r' =>
          rw [hr] at h hroom
          dsimp only at h
          split_ifs at h
          cases h
          exact hroom

/-- What has been written can be no less than what the next request is added to. -/
theorem growsFrom_write_le (hm : m.WF) (hfits : m.growsFrom + data.length < 2 ^ 64)
    (h : m.write data = .ok m') : m'.growsFrom ≤ m.growsFrom + data.length := by
  have hwf : m'.WF := by
    have hafter := wf_write hm hfits
    rwa [h] at hafter
  unfold write at h
  cases hr : m.ensureWritableBytes data.length with
  | error r =>
      rw [hr] at h
      cases h
  | ok r =>
      have hgrows := growsFrom_ensureWritableBytes_le hm hr
      have hsize := lt_of_ensureWritableBytes hm hfits hr
      obtain ⟨hrwf, -, hroom, -⟩ := ensureWritableBytes_ok hm hsize hr
      have hstorage := hrwf.storage_le
      have hadd : SizeT.add r.writerPos data.length = r.writerPos + data.length := by
        unfold vectorMaxSize at hstorage
        exact SizeT.add_eq (by omega)
      have hreadable := hwf.readable_eq
      have hrreadable := hrwf.readable_eq
      have hreader := hrwf.reader_le
      rw [hr] at h
      dsimp only at h
      split_ifs at h with hd hthrows
      · cases h
        simp only [growsFrom, hd, if_true, hasWritten] at hgrows ⊢
        omega
      · cases h
        simp only [growsFrom, hd, hasWritten, hadd] at hgrows hreadable ⊢
        simp only [Bool.false_eq_true, if_false] at hgrows ⊢
        omega

theorem wf_writeString (hm : m.WF) (hfits : m.growsFrom + data.length < 2 ^ 64) :
    (afterCall (m.writeString data)).WF := by
  unfold writeString
  split_ifs
  · exact hm
  · exact wf_write hm hfits

theorem wf_call {method : Method} (hm : m.WF) (hasserted : method.Asserted m)
    (hfits : method.Fits m) : (afterCall (method.run host m)).WF := by
  cases method with
  | write data => exact wf_write hm hfits
  | writePod value => exact wf_write hm hfits
  | writeString value => exact wf_writeString hm hfits
  | writeLenghtAndString value =>
      have hfits : m.growsFrom + (4 + value.length) < 2 ^ 64 := hfits
      have hlen := length_toMemory32 host (BitVec.ofNat 32 value.length)
      have hfour :
          m.growsFrom + (host.toMemory32 (BitVec.ofNat 32 value.length)).length < 2 ^ 64 := by
        omega
      have hwrite := wf_write hm hfour
      -- the string is behind its length, for which the message has room by then
      show (afterCall (writeLenghtAndString host m value)).WF
      unfold writeLenghtAndString writePod
      cases hr : m.write (host.toMemory32 (BitVec.ofNat 32 value.length)) with
      | error r =>
          rw [hr] at hwrite
          exact hwrite
      | ok r =>
          have hgrows := growsFrom_write_le hm hfour hr
          rw [hr] at hwrite
          have hroom : r.growsFrom + value.length < 2 ^ 64 := by omega
          exact wf_writeString hwrite hroom
  | retrieve size => exact (retrieve_spec hm hasserted).1
  | retrieveAll => exact (retrieveAll_spec hm).1
  | clear => exact (clear_spec hm).1
  | reserve size =>
      show (afterCall (m.reserve size)).WF
      unfold reserve
      dsimp only
      split_ifs
      · exact hm
      · exact wf_setDynamic hm
      · exact wf_setDynamic hm
  | ensureWritableBytes size => exact wf_ensureWritableBytes hm hfits
  | setDynamic => exact wf_setDynamic hm

theorem wf_hasWritten (hm : m.WF) (hsize : size ≤ m.writeable) : (m.hasWritten size).WF := by
  have hreader := hm.reader_le
  have hwriter := hm.writer_le
  have hstorage := hm.storage_le
  have hmax : vectorMaxSize < 2 ^ 63 := by decide
  rw [hm.writeable_eq] at hsize
  have hadd : (m.hasWritten size).writerPos = m.writerPos + size := SizeT.add_eq (by omega)
  refine ⟨hm.static_length, hm.present, ?_, ?_, hstorage⟩
  · rw [hadd]
    exact Nat.le_add_right_of_le hreader
  · rw [hadd, storage_hasWritten]
    omega

/-- In a program whose sums do not wrap the positions of every message lie in order in its
storage. -/
theorem Reachable.wf (h : m.Reachable host fun m method => method.Fits m) : m.WF := by
  induction h with
  | new junk => exact wf_new junk
  | copy junk _ ih => exact (copy_spec junk ih).1
  | copyAssign _ _ ih ihrhs => exact (copyAssign_spec ih ihrhs).1
  | movedFrom _ ih => exact (movedFrom_spec ih).1
  | call method _ _ hasserted hfits ih => exact wf_call ih hasserted hfits
  | hasWritten size _ hsize ih => exact wf_hasWritten ih hsize

/-! ## One call of `ensure_writable_bytes` -/

/-- The sums and differences that `ensure_writable_bytes` takes are those of the numbers: in
`readable` and `writeable`, of the room in front and behind, and of position and request. -/
structure Unwrapped (m : NetMessage) (size : Nat) : Prop where
  readable : m.readerPos ≤ m.writerPos
  writeable : m.writerPos ≤ m.storage.length
  room : m.writeable + m.prependable < 2 ^ 64
  request : m.writeable < size → m.writeable + m.prependable < size →
    m.setDynamic.writerPos + size < 2 ^ 64

/-- The vector refuses the size, or the room is there; the content stays, and nothing wraps, also
when `readable` and `writeable` are taken of the message that is left. -/
def GrowsSafely (m : NetMessage) (size : Nat) : Prop :=
  m.Unwrapped size ∧
    match m.ensureWritableBytes size with
    | .error m' => vectorMaxSize < m.setDynamic.writerPos + size ∧ m'.content = m.content ∧
        m'.readerPos ≤ m'.writerPos ∧ m'.writerPos ≤ m'.storage.length
    | .ok m' => m'.content = m.content ∧ m'.readerPos ≤ m'.writerPos ∧
        m'.writerPos ≤ m'.storage.length ∧ size ≤ m'.storage.length - m'.writerPos

/-- A sum that wraps cuts the vector off in front of the writer position. -/
theorem cut_off_of_wraps (hm : m.WF) (hsize : size < 2 ^ 64)
    (hwraps : 2 ^ 64 ≤ m.growsFrom + size) :
    ∃ m', m.ensureWritableBytes size = .ok m' ∧ m'.storage.length < m'.writerPos := by
  have hreader := hm.reader_le
  have hwriter := hm.writer_le
  have hstorage := hm.storage_le
  have hmax : vectorMaxSize < 2 ^ 63 := by decide
  have hroom := hm.add_room
  have hwriteable := hm.writeable_eq
  have hgrows := hm.growsFrom_le
  have hcut : SizeT.add m.growsFrom size < m.growsFrom := by
    unfold SizeT.add
    omega
  have hfits : m.writeable < size := by omega
  have hgrow : SizeT.add m.writeable m.prependable < size := by omega
  have hgranted : ¬ SizeT.add m.growsFrom size > vectorMaxSize := by omega
  obtain ⟨v, hv⟩ := (wf_setDynamic hm).exists_vector (isDynmic_setDynamic m)
  unfold ensureWritableBytes makeSpace
  dsimp only
  rw [if_pos hfits, if_pos hgrow, writerPos_setDynamic, if_neg hgranted, hv, Option.map_some]
  refine ⟨_, rfl, ?_⟩
  simp only [storage, isDynmic_setDynamic, if_true, Option.getD_some, length_resize]
  exact hcut

/-- **`ensure_writable_bytes` grows safely exactly if position and request are a `size_t`**, for
every message of a program in which this has been so for every call. If they are not, the call
returns with the writer position behind the storage. -/
theorem growing_safe_iff (hm : m.Reachable host fun m method => method.Fits m)
    (hsize : size < 2 ^ 64) :
    (m.GrowsSafely size ↔ m.growsFrom + size < 2 ^ 64) ∧
      (¬ m.GrowsSafely size →
        ∃ m', m.ensureWritableBytes size = .ok m' ∧ m'.storage.length < m'.writerPos) := by
  have hwf := hm.wf
  have hreader := hwf.reader_le
  have hwriter := hwf.writer_le
  have hstorage := hwf.storage_le
  have hmax : vectorMaxSize < 2 ^ 63 := by decide
  have hroom := hwf.add_room
  have hwriteable := hwf.writeable_eq
  have hprependable : m.prependable = m.readerPos := rfl
  have hgrows := hwf.growsFrom_le
  have hsafe : m.growsFrom + size < 2 ^ 64 → m.GrowsSafely size := by
    intro hfits
    refine ⟨⟨hreader, hwriter, by omega, fun _ _ => by rwa [writerPos_setDynamic]⟩, ?_⟩
    cases h : m.ensureWritableBytes size with
    | error r =>
        obtain ⟨rfl, hrefuses⟩ := ensureWritableBytes_error h
        have hdynamic := wf_setDynamic hwf
        rw [SizeT.add_eq hfits] at hrefuses
        rw [writerPos_setDynamic]
        exact ⟨hrefuses, content_setDynamic hwf, hdynamic.reader_le, hdynamic.writer_le⟩
    | ok r =>
        obtain ⟨hrwf, hcontent, hfree, -⟩ :=
          ensureWritableBytes_ok hwf (lt_of_ensureWritableBytes hwf hfits h) h
        exact ⟨hcontent, hrwf.reader_le, hrwf.writer_le, by omega⟩
  refine ⟨⟨?_, hsafe⟩, fun hunsafe => ?_⟩
  · rintro ⟨hunwrapped, -⟩
    -- a sum beyond `size_t` needs a request that no room can satisfy
    by_contra hwraps
    have hrequest := hunwrapped.request (by omega) (by omega)
    rw [writerPos_setDynamic] at hrequest
    exact hwraps hrequest
  · apply cut_off_of_wraps hwf hsize
    by_contra hfits
    exact hunsafe (hsafe (by omega))

/-- It is what one `write` makes of a new message. -/
theorem reachable_oneByteMessage :
    (oneByteMessage 7).Reachable .little fun m method => method.Fits m := by
  have hwritten : afterCall ((new .zeros).write [7]) = oneByteMessage 7 := by decide +kernel
  exact hwritten ▸
    .call (.write [7]) (.new .zeros) (by decide) trivial (by unfold Method.Fits; decide +kernel)

theorem growing_safe_iff_small_request : (oneByteMessage 7).GrowsSafely 200 :=
  (growing_safe_iff reachable_oneByteMessage (by decide)).1.mpr (by decide +kernel)

/-- The largest `size_t` added to position 1 is 0: the vector loses the byte, the writer position
stays behind it, and `writeable` reports the whole of `size_t`. -/
theorem growing_cuts_off_content :
    (oneByteMessage 7).Reachable .little (fun m method => method.Fits m) ∧
      (oneByteMessage 7).content = [7] ∧ ¬ (oneByteMessage 7).GrowsSafely (2 ^ 64 - 1) ∧
      ∃ m', (oneByteMessage 7).ensureWritableBytes (2 ^ 64 - 1) = .ok m' ∧ m'.content = [] ∧
        m'.storage.length < m'.writerPos ∧ m'.writeable = 2 ^ 64 - 1 := by
  refine ⟨reachable_oneByteMessage, by decide +kernel, fun hsafe => ?_, ?_⟩
  · -- the sum 1 + (2 ^ 64 - 1) is not below 2 ^ 64
    have hrequest := hsafe.1.request (by decide +kernel) (by decide +kernel)
    revert hrequest
    decide +kernel
  · obtain ⟨m', hm', hcut⟩ := Option.map_eq_some_iff.mp (show
      ((oneByteMessage 7).ensureWritableBytes (2 ^ 64 - 1)).toOption.map (fun m' =>
        (m'.content, decide (m'.storage.length < m'.writerPos), m'.writeable)) =
          some ([], true, 2 ^ 64 - 1) by decide +kernel)
    obtain ⟨hcontent, hrest⟩ := Prod.mk.inj hcut
    obtain ⟨hbehind, hwriteable⟩ := Prod.mk.inj hrest
    refine ⟨m', ?_, hcontent, of_decide_eq_true hbehind, hwriteable⟩
    cases h : (oneByteMessage 7).ensureWritableBytes (2 ^ 64 - 1) with
    | error r =>
        rw [h] at hm'
        cases hm'
    | ok r =>
        rw [h] at hm'
        exact congrArg Except.ok (Option.some.inj hm')

end NetMessage
end EddyServer
