import EddyServer.NetMessage.Sound
import EddyServer.NetMessage.Typed

/-!
# Plain strings through one message

`write_string` appends the bytes of a string and nothing else. `read_string` looks for a zero. What
it comes to first is the next string, or what lies behind the readable bytes: the rest of older
content, the zeros of a fresh vector, or memory that is not the message's.
-/

namespace EddyServer

/-- A string that is not empty and has no NUL byte. -/
abbrev PlainString :=
  { bytes : List UInt8 // bytes ≠ [] ∧ (0 : UInt8) ∉ bytes ∧ bytes.length < 2 ^ 64 }

/-- One call of `read_string`: what is left of the message stands beside the value. -/
def Overload.readString (beyond : List UInt8) (m : NetMessage) :
    Overload → Option (List UInt8 × NetMessage)
  | .returning => (m.readString beyond).map fun r => (r.value, r.message)
  | .into out => (m.readStringInto beyond out).map fun r => (r.value, r.message)

namespace NetMessage

/-- `write_string` for one string after the other. -/
def writeStrings (m : NetMessage) : List PlainString → Except NetMessage NetMessage
  | [] => .ok m
  | value :: rest =>
    match m.writeString value with
    | .error m => .error m
    | .ok m => m.writeStrings rest

/-- `read_string` again and again. Each call has an overload and finds some memory behind the
storage. A call whose asserted precondition fails, or that faults, has no result. -/
def readStrings (m : NetMessage) :
    List (List UInt8 × Overload) → Option (List (List UInt8) × NetMessage)
  | [] => some ([], m)
  | (beyond, overload) :: reads =>
    if 0 < m.readable then
      (overload.readString beyond m).bind fun r =>
        (r.2.readStrings reads).map fun rest => (r.1 :: rest.1, rest.2)
    else none

/-- The reads return the strings and leave the message empty. -/
def RoundTrips (m : NetMessage) (strings : List PlainString)
    (reads : List (List UInt8 × Overload)) : Prop :=
  ∃ m', m.readStrings reads = some (strings.map Subtype.val, m') ∧ m'.empty = true

/-! ## Reading -/

variable {m m' : NetMessage} {beyond value rest : List UInt8}

/-- Both overloads return what lies in front of the first zero. -/
theorem readString_eq (overload : Overload) (beyond : List UInt8) (m : NetMessage) :
    overload.readString beyond m = ((m.memory beyond).findIdx? (· == 0)).map fun lenght =>
      ((m.memory beyond).take lenght, if lenght > 0 then m.retrieve lenght else m) := by
  have hinto : ∀ out, (m.readStringInto beyond out).map (fun r => (r.value, r.message)) =
      ((m.memory beyond).findIdx? (· == 0)).map fun lenght =>
        ((m.memory beyond).take lenght, if lenght > 0 then m.retrieve lenght else m) := by
    intro out
    unfold readStringInto
    rw [Option.map_map]
    congr 1
    funext lenght
    rw [Function.comp_apply]
    split_ifs with hpos
    · rw [copyInto_eq]
    · obtain rfl : lenght = 0 := by omega
      have hnil : resize out 0 = [] := List.eq_nil_of_length_eq_zero (length_resize _ _)
      dsimp only
      rw [hnil, List.take_zero]
  cases overload with
  | returning => exact hinto []
  | into out => exact hinto out

/-- No zero is met in a string, so the scan goes on behind it. -/
theorem findIdx_zero_append (hvalue : (0 : UInt8) ∉ value) (rest : List UInt8) :
    (value ++ rest).findIdx? (· == 0) =
      (rest.findIdx? (· == 0)).map fun i => i + value.length := by
  have hnone : value.findIdx? (· == 0) = none := by
    rw [List.findIdx?_eq_none_iff]
    intro b hb
    rw [beq_eq_false_iff_ne]
    rintro rfl
    exact hvalue hb
  rw [List.findIdx?_append, hnone, Option.none_or]

theorem findIdx_zero_iff (bytes : List UInt8) :
    bytes.findIdx? (· == 0) = some 0 ↔ bytes[0]? = some 0 := by
  cases bytes with
  | nil => simp
  | cons b bytes =>
      rw [List.findIdx?_cons, List.getElem?_cons_zero]
      by_cases hb : b = 0 <;> simp [hb]

/-- **The first read** returns the first string exactly if it is the only one and a zero lies behind
it. -/
theorem round_trip_cons_iff (hm : m.WF) {s : PlainString} {strings : List PlainString}
    (hcontent : m.content = s.val ++ strings.flatMap Subtype.val) {overload : Overload}
    {reads : List (List UInt8 × Overload)} (hreads : reads.length = strings.length) :
    m.RoundTrips (s :: strings) ((beyond, overload) :: reads) ↔
      strings = [] ∧ (m.memory beyond)[m.readable]? = some 0 := by
  have hfree : (0 : UInt8) ∉ m.content := by
    rw [hcontent, List.mem_append, List.mem_flatMap]
    rintro (hs | ⟨t, -, ht⟩)
    · exact s.property.2.1 hs
    · exact t.property.2.1 ht
  have hlength : m.readable = s.val.length + (strings.flatMap Subtype.val).length := by
    rw [← hm.length_content, hcontent, List.length_append]
  have hpos : 0 < s.val.length := List.length_pos_iff.mpr s.property.1
  have hsplit : m.memory beyond = m.content ++ (m.memory beyond).drop m.readable := by
    rw [hm.content_eq_take beyond, List.take_append_drop]
  have hscan : (m.memory beyond).findIdx? (· == 0) =
      (((m.memory beyond).drop m.readable).findIdx? (· == 0)).map fun i => i + m.readable := by
    rw [hsplit, findIdx_zero_append hfree, ← hsplit, hm.length_content]
  have hbehind : (m.memory beyond)[m.readable]? = ((m.memory beyond).drop m.readable)[0]? := by
    rw [List.getElem?_drop, Nat.add_zero]
  unfold RoundTrips
  rw [readStrings, if_pos (by omega), readString_eq, hscan, hbehind, ← findIdx_zero_iff,
    Option.map_map]
  constructor
  · rintro ⟨m', hread, -⟩
    obtain ⟨r, hr, hrest⟩ := Option.bind_eq_some_iff.mp hread
    obtain ⟨i, hi, rfl⟩ := Option.map_eq_some_iff.mp hr
    obtain ⟨⟨values, m''⟩, -, heq⟩ := Option.map_eq_some_iff.mp hrest
    have hvalue : (m.memory beyond).take (i + m.readable) = s.val := by
      have hlists := (Prod.mk.inj heq).1
      rw [List.map_cons] at hlists
      exact (List.cons.inj hlists).1
    -- the value is as long as the scan was
    have hlt := (List.findIdx?_eq_some_iff_getElem.mp hi).1
    have hsame := congrArg List.length hvalue
    rw [List.length_take] at hsame
    rw [List.length_drop] at hlt
    have hzero : i = 0 ∧ (strings.flatMap Subtype.val).length = 0 := by omega
    refine ⟨?_, by rw [hi, hzero.1]⟩
    cases strings with
    | nil => rfl
    | cons t strings =>
        have ht := List.length_pos_iff.mpr t.property.1
        rw [List.flatMap_cons, List.length_append] at hzero
        omega
  · rintro ⟨rfl, hzero⟩
    have hnil : reads = [] := List.eq_nil_of_length_eq_zero hreads
    subst hnil
    rw [hzero]
    refine ⟨m.retrieveAll, ?_, show (SizeT.sub 0 0 == 0) = true by decide⟩
    have hs : m.content = s.val := by simpa using hcontent
    simp only [Option.map_some, Option.bind_some, Function.comp_apply, Nat.zero_add, readStrings]
    rw [← hm.content_eq_take, hs, if_pos (by omega), retrieve, if_neg (Nat.lt_irrefl _)]
    rfl

/-! ## What lies behind a string -/

/-- Where a string of `size` bytes is put into an empty message: the positions go back to the start
if that makes room for it. -/
def putAt (m : NetMessage) (size : Nat) : Nat :=
  if m.writeable < size ∧ size ≤ m.storage.length then 0 else m.writerPos

/-- A zero will lie behind a string of `size` bytes that is written to an empty message. A vector
has what it holds there moved up; in the inline array, or behind it, is what has been there all
along, unless a vector is made. -/
def TerminatorBehind (m : NetMessage) (beyond : List UInt8) (size : Nat) : Prop :=
  if m.isDynmic then m.storage.getD (m.putAt size) 0 = 0
  else kDynamicThreshold < size ∨ (m.storage ++ beyond)[m.putAt size + size]? = some 0

instance (m : NetMessage) (beyond : List UInt8) (size : Nat) :
    Decidable (m.TerminatorBehind beyond size) := by
  unfold TerminatorBehind
  infer_instance

theorem WF.memory_readable (hm : m.WF) (beyond : List UInt8) :
    (m.memory beyond)[m.readable]? = (m.storage ++ beyond)[m.writerPos]? := by
  have hreader := hm.reader_le
  rw [memory, List.getElem?_drop, hm.readable_eq]
  congr 1
  omega

theorem getElem?_behind_insert {v data : List UInt8} {pos : Nat} (hpos : pos < v.length)
    (beyond : List UInt8) :
    (v.take pos ++ data ++ v.drop pos ++ beyond)[pos + data.length]? = v[pos]? := by
  have hfront : (v.take pos ++ data).length = pos + data.length := by
    rw [List.length_append, List.length_take, Nat.min_eq_left hpos.le]
  rw [List.append_assoc, List.getElem?_append_right hfront.le, hfront, Nat.sub_self,
    List.getElem?_append_left (by rw [List.length_drop]; omega), List.getElem?_drop, Nat.add_zero]

theorem getElem?_behind_overwrite {v data : List UInt8} {pos : Nat}
    (hpos : pos + data.length ≤ v.length) (beyond : List UInt8) :
    (overwrite v pos data ++ beyond)[pos + data.length]? = (v ++ beyond)[pos + data.length]? := by
  have hfront : (v.take pos ++ data).length = pos + data.length := by
    rw [List.length_append, List.length_take, Nat.min_eq_left (by omega)]
  rw [overwrite, List.append_assoc, List.getElem?_append_right hfront.le, hfront, Nat.sub_self,
    ← List.drop_append_of_le_length hpos, List.getElem?_drop, Nat.add_zero]

theorem getElem?_resize {v : List UInt8} {pos n : Nat} (hpos : pos < n) :
    (resize v n)[pos]? = some (v.getD pos 0) := by
  unfold resize
  rw [List.getD_eq_getElem?_getD]
  by_cases hin : pos < v.length
  · rw [List.getElem?_append_left (by rw [List.length_take]; omega), List.getElem?_take_of_lt hpos,
      List.getElem?_eq_getElem hin]
    rfl
  · rw [List.getElem?_append_right (by rw [List.length_take]; omega), List.length_take,
      List.getElem?_eq_none (Nat.le_of_not_lt hin), List.getElem?_replicate, if_pos (by omega)]
    rfl

theorem getElem?_eq_getD {v : List UInt8} {pos : Nat} (hpos : pos < v.length) :
    v[pos]? = some (v.getD pos 0) := by
  rw [List.getD_eq_getElem?_getD, List.getElem?_eq_getElem hpos]
  rfl

theorem storage_map {v : List UInt8} (hd : m.isDynmic = true) (hv : m.dynamicData = some v)
    (f : List UInt8 → List UInt8) :
    ({ m with dynamicData := m.dynamicData.map f } : NetMessage).storage = f v :=
  storage_dynamic hd (congrArg (Option.map f) hv)

/-- **What a string is put in front of**, when room has been made for it in an empty message. -/
theorem ensureWritableBytes_empty {size : Nat} (hm : m.WF) (hempty : m.content = [])
    (hpos : 0 < size) (hsize : size < 2 ^ 63) (h : m.ensureWritableBytes size = .ok m') :
    (m.isDynmic = true → m'.isDynmic = true ∧
      m'.storage[m'.writerPos]? = some (m.storage.getD (m.putAt size) 0)) ∧
    (m.isDynmic = false → kDynamicThreshold < size → m'.isDynmic = true ∧
      m'.storage[m'.writerPos]? = some 0) ∧
    (m.isDynmic = false → size ≤ kDynamicThreshold → m'.isDynmic = false ∧
      m'.storage = m.storage ∧ m'.writerPos = m.putAt size) := by
  have hreader := hm.reader_le
  have hwriter := hm.writer_le
  have hstorage := hm.storage_le
  have hmax : vectorMaxSize < 2 ^ 63 := by decide
  have hset := writerPos_setDynamic m
  have hgrows := hm.growsFrom_le
  have hnone : m.readable = 0 := by rw [← hm.length_content, hempty, List.length_nil]
  have hequal : m.readerPos = m.writerPos := by
    have hreadable := hm.readable_eq
    omega
  have hroom := hm.add_room
  have hstatic : m.isDynmic = false → m.storage.length = kDynamicThreshold := fun hd => by
    rw [storage_static hd, hm.static_length]
  have hwriteable := hm.writeable_eq
  unfold ensureWritableBytes makeSpace at h
  dsimp only at h
  rw [SizeT.add_eq (a := m.setDynamic.writerPos) (by omega)] at h
  split_ifs at h with hfits hgrow hthrows <;> cases h
  · -- the vector grows, and what it did not hold before is zero
    have hdynamic := isDynmic_setDynamic m
    obtain ⟨v, hv⟩ := (wf_setDynamic hm).exists_vector hdynamic
    have hst := storage_map hdynamic hv fun v => resize v (m.setDynamic.writerPos + size)
    have hold : m.setDynamic.storage = v := storage_dynamic hdynamic hv
    rw [hst]
    dsimp only
    rw [getElem?_resize (by omega), hset, ← hold]
    refine ⟨fun hd => ⟨hdynamic, ?_⟩, fun hd _ => ⟨hdynamic, ?_⟩, fun hd hsmall => ?_⟩
    · rw [setDynamic, if_pos hd, growsFrom, if_pos hd, putAt, if_neg (by omega)]
    · rw [storage_setDynamic hd, hempty, hnone]
      rfl
    · have hlength := hstatic hd
      omega
  · -- both positions go back to the start
    have hst : m.compact.storage = m.storage := by
      rw [storage_compact hm, hempty, overwrite_nil]
    have hput : m.putAt size = 0 := by rw [putAt, if_pos ⟨hfits, by omega⟩]
    rw [hst, (positions_compact m).2, hnone, hput, isDynmic_compact]
    refine ⟨fun hd => ⟨hd, getElem?_eq_getD (by omega)⟩, fun hd hlarge => ?_,
      fun hd _ => ⟨hd, rfl, rfl⟩⟩
    have hlength := hstatic hd
    omega
  · have hput : m.putAt size = m.writerPos := by rw [putAt, if_neg fun hboth => hfits hboth.1]
    rw [hput]
    refine ⟨fun hd => ⟨hd, getElem?_eq_getD (by omega)⟩, fun hd hlarge => ?_,
      fun hd _ => ⟨hd, rfl, rfl⟩⟩
    have hlength := hstatic hd
    omega

/-- What lies behind the bytes that `write` has put into the message. -/
theorem behind_write {r : NetMessage} {data : List UInt8} (hr : r.WF) (hne : data ≠ [])
    (hfits : r.writerPos + data.length ≤ r.storage.length)
    (hroom : m.ensureWritableBytes data.length = .ok r) (h : m.write data = .ok m')
    (beyond : List UInt8) :
    (m'.storage ++ beyond)[m'.writerPos]? =
      if r.isDynmic then r.storage[r.writerPos]?
      else (r.storage ++ beyond)[r.writerPos + data.length]? := by
  have hpos : 0 < data.length := List.length_pos_iff.mpr hne
  have hstorage := hr.storage_le
  unfold vectorMaxSize at hstorage
  have hadd : SizeT.add r.writerPos data.length = r.writerPos + data.length :=
    SizeT.add_eq (by omega)
  rw [write_cases hroom] at h
  split_ifs at h ⊢ with hd hthrows
  · obtain ⟨v, hv⟩ := hr.exists_vector hd
    have hst := storage_dynamic hd hv
    rw [hv, Option.getD_some] at h
    cases h
    have hwritten := storage_dynamic (m := { r with dynamicData := some _ }) hd
      (v := v.take r.writerPos ++ data ++ v.drop r.writerPos) rfl
    rw [hst] at hfits ⊢
    rw [storage_hasWritten, hwritten]
    show (_ ++ beyond)[SizeT.add r.writerPos data.length]? = _
    rw [hadd, getElem?_behind_insert (by omega)]
  · have hstatic : r.isDynmic = false := by simpa using hd
    cases h
    have hwritten := storage_static
      (m := { r with staticData := overwrite r.staticData r.writerPos data }) hstatic
    rw [storage_static hstatic] at hfits ⊢
    rw [storage_hasWritten, hwritten]
    show (_ ++ beyond)[SizeT.add r.writerPos data.length]? = _
    rw [hadd, getElem?_behind_overwrite hfits]

theorem terminator_behind_iff {data : List UInt8} (hm : m.WF) (hempty : m.content = [])
    (hne : data ≠ []) (hsize : data.length < 2 ^ 63) (h : m.write data = .ok m')
    (beyond : List UInt8) :
    (m'.memory beyond)[m'.readable]? = some 0 ↔ m.TerminatorBehind beyond data.length := by
  have hwf := (write_ok hm hsize h).1
  have hpos : 0 < data.length := List.length_pos_iff.mpr hne
  cases hr : m.ensureWritableBytes data.length with
  | error r =>
      rw [write, hr] at h
      cases h
  | ok r =>
      obtain ⟨hrwf, -, hfits, -⟩ := ensureWritableBytes_ok hm hsize hr
      obtain ⟨hdynamic, hlarge, hsmall⟩ := ensureWritableBytes_empty hm hempty hpos hsize hr
      rw [hwf.memory_readable, behind_write hrwf hne hfits hr h, TerminatorBehind]
      cases hd : m.isDynmic with
      | true =>
          obtain ⟨hrd, hput⟩ := hdynamic hd
          rw [if_pos hrd, hput, if_pos rfl, Option.some.injEq]
      | false =>
          rw [if_neg Bool.false_ne_true]
          -- a string that does not fit the array is put into a vector of zeros
          by_cases hfar : kDynamicThreshold < data.length
          · obtain ⟨hrd, hput⟩ := hlarge hd hfar
            rw [if_pos hrd, hput]
            exact ⟨fun _ => .inl hfar, fun _ => rfl⟩
          · obtain ⟨hrd, hst, hput⟩ := hsmall hd (Nat.le_of_not_lt hfar)
            rw [hrd, if_neg Bool.false_ne_true, hst, hput, or_iff_right hfar]

/-! ## Writing -/

/-- A string that is not empty is handed to `write`. -/
theorem write_of_writeString {s : PlainString} (h : m.writeString s.val = .ok m') :
    m.write s.val = .ok m' := by
  rwa [writeString, if_neg (by simpa using s.property.1)] at h

theorem write_of_writeStrings {s : PlainString} (h : m.writeStrings [s] = .ok m') :
    m.write s.val = .ok m' := by
  rw [writeStrings] at h
  cases hr : m.writeString s.val with
  | error r =>
      rw [hr] at h
      cases h
  | ok r =>
      rw [hr] at h
      cases h
      exact write_of_writeString hr

/-- The strings stand in the message one after the other, with nothing between them. -/
theorem writeStrings_ok {strings : List PlainString} (hm : m.WF)
    (h : m.writeStrings strings = .ok m') :
    m'.WF ∧ m'.content = m.content ++ strings.flatMap Subtype.val := by
  induction strings generalizing m with
  | nil =>
      cases h
      exact ⟨hm, by simp⟩
  | cons s strings ih =>
      rw [writeStrings] at h
      cases hr : m.writeString s.val with
      | error r =>
          rw [hr] at h
          cases h
      | ok r =>
          rw [hr] at h
          have hwrite := write_of_writeString hr
          have hsize := length_lt_of_write hm s.property.2.2 hwrite
          obtain ⟨hwf, hcontent, -⟩ := write_ok hm hsize hwrite
          obtain ⟨hwf', hcontent'⟩ := ih hwf h
          refine ⟨hwf', ?_⟩
          rw [hcontent', hcontent, List.flatMap_cons, List.append_assoc]

/-- **Plain strings come back exactly if there is none, or one with a zero behind it.** -/
theorem plain_strings_round_trip_iff (hm : m.WF) (hempty : m.content = [])
    {strings : List PlainString} (hwrite : m.writeStrings strings = .ok m')
    {reads : List (List UInt8 × Overload)} (hreads : reads.length = strings.length) :
    m'.RoundTrips strings reads ↔
      strings = [] ∨ ∃ s beyond overload, strings = [s] ∧ reads = [(beyond, overload)] ∧
        m.TerminatorBehind beyond s.val.length := by
  obtain ⟨hwf, hcontent⟩ := writeStrings_ok hm hwrite
  rw [hempty, List.nil_append] at hcontent
  cases strings with
  | nil =>
      have hnil : reads = [] := List.eq_nil_of_length_eq_zero hreads
      subst hnil
      refine iff_of_true ⟨m', rfl, ?_⟩ (.inl rfl)
      rw [empty, ← hwf.length_content, hcontent]
      rfl
  | cons s strings =>
      obtain ⟨⟨beyond, overload⟩, reads, rfl⟩ := List.exists_cons_of_length_eq_add_one hreads
      rw [List.flatMap_cons] at hcontent
      rw [round_trip_cons_iff hwf hcontent (Nat.succ.inj hreads)]
      constructor
      · rintro ⟨rfl, hzero⟩
        have hnil : reads = [] := List.eq_nil_of_length_eq_zero (Nat.succ.inj hreads)
        have hone := write_of_writeStrings hwrite
        have hsize := length_lt_of_write hm s.property.2.2 hone
        refine .inr ⟨s, beyond, overload, rfl, by rw [hnil], ?_⟩
        exact (terminator_behind_iff hm hempty s.property.1 hsize hone beyond).mp hzero
      · rintro (hnone | ⟨t, beyond', overload', hstrings, hcalls, hbehind⟩)
        · cases hnone
        · cases hstrings
          cases hcalls
          have hone := write_of_writeStrings hwrite
          have hsize := length_lt_of_write hm s.property.2.2 hone
          exact ⟨rfl, (terminator_behind_iff hm hempty s.property.1 hsize hone beyond).mpr hbehind⟩

/-- One letter in an inline array that happens to hold zeros. -/
theorem plain_strings_round_trip_one_letter :
    ∃ m', (new .zeros).writeStrings [⟨[65], by decide⟩] = .ok m' ∧
      m'.RoundTrips [⟨[65], by decide⟩] [([], .into [7])] := by
  have hok : ∃ m', (new .zeros).writeStrings [⟨[65], by decide⟩] = .ok m' := ⟨_, rfl⟩
  obtain ⟨m', hm'⟩ := hok
  exact ⟨m', hm', (plain_strings_round_trip_iff (wf_new .zeros) (content_new .zeros) hm' rfl).mpr
    (.inr ⟨_, _, _, rfl, rfl, by decide +kernel⟩)⟩

/-- `A` and `B` come back as `AB`, with the first read. -/
theorem plain_strings_run_together :
    ∃ m', (new .zeros).writeStrings [⟨[65], by decide⟩, ⟨[66], by decide⟩] = .ok m' ∧
      (Overload.returning.readString [] m').map Prod.fst = some [65, 66] ∧
      ¬ m'.RoundTrips [⟨[65], by decide⟩, ⟨[66], by decide⟩]
        [([], .returning), ([], .returning)] := by
  have hok : ∃ m', (new .zeros).writeStrings [⟨[65], by decide⟩, ⟨[66], by decide⟩] = .ok m' ∧
      (Overload.returning.readString [] m').map Prod.fst = some [65, 66] :=
    ⟨_, rfl, by decide +kernel⟩
  obtain ⟨m', hm', hvalue⟩ := hok
  refine ⟨m', hm', hvalue, ?_⟩
  obtain ⟨hwf, hcontent⟩ := writeStrings_ok (wf_new .zeros) hm'
  rw [content_new, List.nil_append, List.flatMap_cons] at hcontent
  rw [round_trip_cons_iff hwf hcontent rfl]
  rintro ⟨hnil, -⟩
  cases hnil

end NetMessage
end EddyServer
