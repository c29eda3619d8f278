import EddyServer.Library.Transition
import EddyServer.NetMessage.Strings

/-!
# Typed values through one message

PODs and counted strings are written to a message and read back from it, in the same order and with
the same types, at any pace. What the message holds at every moment are the encodings of the values
that have been written and not been read.
-/

namespace EddyServer

theorem ByteOrder.ofMemory32_toMemory32 (host : ByteOrder) (x : BitVec 32) (tail : List UInt8) :
    host.ofMemory32 (host.toMemory32 x ++ tail) = x := by
  apply BitVec.eq_of_toNat_eq
  have hlt := x.isLt
  cases host <;>
    simp only [ofMemory32, toMemory32, List.cons_append, List.getD_cons_zero, List.getD_cons_succ,
      BitVec.toNat_ofNat, UInt8.toNat_ofNat'] <;>
    omega

/-- A value with its type: the bytes of a POD, of which there is one at least and no more than a
`size_t` counts, or a string whose length fits the prefix. -/
inductive TypedValue
  | pod (value : { bytes : List UInt8 // 0 < bytes.length ∧ bytes.length < 2 ^ 64 })
  | string (value : { bytes : List UInt8 // bytes.length < 2 ^ 32 })

namespace TypedValue

def bytes : TypedValue → List UInt8
  | .pod value => value
  | .string value => value

/-- What is written for the value. -/
def encoding (host : ByteOrder) : TypedValue → List UInt8
  | .pod value => value
  | .string value => host.toMemory32 (BitVec.ofNat 32 value.val.length) ++ value

/-- `write_pod` or `write_lenght_and_string`. -/
def write (host : ByteOrder) (m : NetMessage) : TypedValue → Except NetMessage NetMessage
  | .pod value => m.writePod value
  | .string value => NetMessage.writeLenghtAndString host m value

end TypedValue

/-- The type of a value: of a POD, its size. -/
inductive ValueType
  | pod (size : Nat)
  | string

def TypedValue.type : TypedValue → ValueType
  | .pod value => .pod value.val.length
  | .string _ => .string

/-- The overload of `read_lenght_and_string`: one returns the string, the other one replaces a
string that the caller has. -/
inductive Overload
  | returning
  | into (out : List UInt8)

namespace ValueType

/-- What the source asserts before it reads. -/
def Asserted (m : NetMessage) : ValueType → Prop
  | .pod size => size ≤ m.readable
  | .string => 4 ≤ m.readable

instance (m : NetMessage) : (type : ValueType) → Decidable (type.Asserted m)
  | .pod size => inferInstanceAs (Decidable (size ≤ m.readable))
  | .string => inferInstanceAs (Decidable (4 ≤ m.readable))

/-- `read_pod`, or an overload of `read_lenght_and_string`: the value and what is left. -/
def read (host : ByteOrder) (beyond : List UInt8) (overload : Overload) (m : NetMessage) :
    ValueType → Option (List UInt8 × NetMessage)
  | .pod size => some (m.readPod size)
  | .string =>
    match overload with
    | .returning => (m.readLenghtAndString host beyond).map fun r => (r.value, r.message)
    | .into out => (m.readLenghtAndStringInto host beyond out).map fun r => (r.value, r.message)

end ValueType

/-! ## One value -/

namespace NetMessage

theorem copyInto_eq (out src : List UInt8) : copyInto out src = src := by
  unfold copyInto overwrite
  rw [List.take_zero, List.nil_append, Nat.zero_add, List.drop_eq_nil_of_le, List.append_nil]
  rw [length_resize]

theorem storage_retrieve (m : NetMessage) (size : Nat) : (m.retrieve size).storage = m.storage := by
  unfold retrieve
  split_ifs <;> rfl

/-- A write that returns has not been asked for more than a vector can hold. -/
theorem length_lt_of_write {m m' : NetMessage} {data : List UInt8} (hm : m.WF)
    (hsize : data.length < 2 ^ 64) (h : m.write data = .ok m') : data.length < 2 ^ 63 := by
  have hwriter := hm.writer_le
  have hreader := hm.reader_le
  have hstorage := hm.storage_le
  have hmax : vectorMaxSize < 2 ^ 63 := by decide
  unfold write ensureWritableBytes makeSpace at h
  by_cases hfits : m.writeable < data.length
  · rw [if_pos hfits] at h
    by_cases hgrow : SizeT.add m.writeable m.prependable < data.length
    · -- the vector that is made holds the data in one piece
      rw [if_pos hgrow] at h
      dsimp only at h
      split_ifs at h with hthrows
      dsimp only at h
      rw [if_pos (isDynmic_setDynamic m)] at h
      split_ifs at h with hlimit
      omega
    · rw [hm.writeable_eq, prependable, SizeT.add_eq (by omega)] at hgrow
      omega
  · rw [hm.writeable_eq] at hfits
    omega

/-- **A counted string comes out again**, and what is behind it stays. -/
theorem readLenghtAndStringInto_eq {host : ByteOrder} {m : NetMessage} (hm : m.WF)
    {value rest : List UInt8} (hvalue : value.length < 2 ^ 32)
    (hcontent : m.content = host.toMemory32 (BitVec.ofNat 32 value.length) ++ value ++ rest)
    (beyond out : List UInt8) :
    4 ≤ m.readable ∧ ∃ r, m.readLenghtAndStringInto host beyond out = some r ∧ r.value = value ∧
      r.message.WF ∧ r.message.content = rest ∧ r.message.storage = m.storage := by
  have hreadable : m.readable = 4 + value.length + rest.length := by
    rw [← hm.length_content, hcontent, List.length_append, List.length_append, length_toMemory32]
  -- the first four bytes are the length, whatever lies behind the storage
  have hlenght : (host.ofMemory32 (m.memory beyond)).toNat = value.length := by
    rw [← ofMemory32_take host (m.memory beyond) (show 4 ≤ m.readable by omega),
      ← hm.content_eq_take, hcontent, List.append_assoc, ByteOrder.ofMemory32_toMemory32,
      BitVec.toNat_ofNat, Nat.mod_eq_of_lt hvalue]
  obtain ⟨hwf, hleft⟩ := retrieve_spec hm (show 4 ≤ m.readable by omega)
  have hfour : (m.retrieve 4).content = value ++ rest := by
    rw [hleft, hcontent, List.append_assoc, ← length_toMemory32 host, List.drop_left]
  have hreadable' : (m.retrieve 4).readable = value.length + rest.length := by
    rw [← hwf.length_content, hfour, List.length_append]
  refine ⟨by omega, ?_⟩
  unfold readLenghtAndStringInto
  dsimp only
  rw [hlenght]
  split_ifs with hpos hshort
  · -- the length is what was written, so the reader does not leave the message
    have hlen := hwf.length_memory beyond
    omega
  · obtain ⟨hwf', hleft'⟩ := retrieve_spec hwf (show value.length ≤ (m.retrieve 4).readable by omega)
    refine ⟨_, rfl, ?_, hwf', ?_, ?_⟩
    · have htake : ((m.retrieve 4).memory beyond).take value.length =
          (m.retrieve 4).content.take value.length := by
        rw [hwf.content_eq_take beyond, List.take_take, Nat.min_eq_left (by omega)]
      dsimp only
      rw [htake, hfour, List.take_left, copyInto_eq]
    · dsimp only
      rw [hleft', hfour, List.drop_left]
    · dsimp only
      rw [storage_retrieve, storage_retrieve]
  · -- an empty string is read without touching the bytes
    have hnil : value = [] := List.eq_nil_of_length_eq_zero (by omega)
    subst hnil
    exact ⟨_, rfl, List.eq_nil_of_length_eq_zero (length_resize _ _), hwf, hfour,
      storage_retrieve _ _⟩

theorem write_typed {host : ByteOrder} {m m' : NetMessage} {value : TypedValue} (hm : m.WF)
    (h : value.write host m = .ok m') :
    m'.WF ∧ m'.content = m.content ++ value.encoding host ∧
      m'.storage.length ≤ m.storage.length + 2 * (value.encoding host).length := by
  cases value with
  | pod value => exact write_ok hm (length_lt_of_write hm value.property.2 h) h
  | string value =>
      have hlen := value.property
      obtain ⟨hwf, hcontent, hstorage⟩ := writeLenghtAndString_ok hm (by omega) h
      refine ⟨hwf, hcontent, ?_⟩
      rw [TypedValue.encoding, List.length_append, length_toMemory32]
      exact hstorage

/-- As long as the vector stays within its limit, a value can be written. -/
theorem write_typed_succeeds {host : ByteOrder} {m : NetMessage} {value : TypedValue} (hm : m.WF)
    (hsize : m.storage.length + 2 * (value.encoding host).length ≤ vectorMaxSize) :
    ∃ m', value.write host m = .ok m' := by
  cases value with
  | pod value => exact write_succeeds hm hsize
  | string value =>
      rw [TypedValue.encoding, List.length_append, length_toMemory32] at hsize
      have hfits : m.storage.length +
          2 * (host.toMemory32 (BitVec.ofNat 32 value.val.length)).length ≤ vectorMaxSize := by
        rw [length_toMemory32]
        omega
      obtain ⟨r, hr⟩ := write_succeeds hm hfits
      -- the length has been written; it has used up its share of the room
      obtain ⟨hwf, -, hlen⟩ := write_ok hm (by rw [length_toMemory32]; decide) hr
      rw [length_toMemory32] at hlen
      simp only [TypedValue.write, writeLenghtAndString, writePod, hr, writeString]
      split_ifs
      · exact ⟨r, rfl⟩
      · exact write_succeeds hwf (by omega)

theorem read_typed {host : ByteOrder} {m : NetMessage} (hm : m.WF) {value : TypedValue}
    {rest : List UInt8} (hcontent : m.content = value.encoding host ++ rest) (beyond : List UInt8)
    (overload : Overload) :
    value.type.Asserted m ∧ ∃ m', value.type.read host beyond overload m = some (value.bytes, m') ∧
      m'.WF ∧ m'.content = rest ∧ m'.storage = m.storage := by
  cases value with
  | pod value =>
      have hsize : value.val.length ≤ m.readable := by
        rw [← hm.length_content, hcontent, List.length_append]
        exact Nat.le_add_right _ _
      obtain ⟨hwf, hleft⟩ := retrieve_spec hm hsize
      have hpeek : m.peek value.val.length = value := by
        rw [peek_eq hsize, hcontent]
        exact List.take_left
      refine ⟨hsize, m.retrieve value.val.length, ?_, hwf, ?_, storage_retrieve _ _⟩
      · rw [TypedValue.type, ValueType.read, readPod, hpeek]
        rfl
      · rw [hleft, hcontent]
        exact List.drop_left
  | string value =>
      have hread := readLenghtAndStringInto_eq hm value.property hcontent beyond
      refine ⟨(hread []).1, ?_⟩
      cases overload with
      | returning =>
          obtain ⟨-, r, hr, hvalue, hwf, hrest, hstorage⟩ := hread []
          refine ⟨r.message, ?_, hwf, hrest, hstorage⟩
          rw [TypedValue.type, ValueType.read, readLenghtAndString, hr, Option.map_some, hvalue]
          rfl
      | into out =>
          obtain ⟨-, r, hr, hvalue, hwf, hrest, hstorage⟩ := hread out
          refine ⟨r.message, ?_, hwf, hrest, hstorage⟩
          rw [TypedValue.type, ValueType.read, hr, Option.map_some, hvalue]
          rfl

end NetMessage

/-! ## Writing and reading at any pace -/

/-- A message between a writer and a reader. -/
structure Exchange where
  message : NetMessage
  /-- The values that are still to be written. -/
  unwritten : List TypedValue
  /-- The values that have been written and not been read. -/
  unread : List TypedValue
  /-- What the reads have returned. -/
  results : List (List UInt8)

namespace Exchange

/-- The next value is written; or the next value is read, with its type. What the memory behind the
storage holds is up to the step. -/
inductive Act
  | write
  | read (beyond : List UInt8) (overload : Overload)

def start (m : NetMessage) (values : List TypedValue) : Exchange :=
  { message := m, unwritten := values, unread := [], results := [] }

/-- A step whose asserted precondition fails, that throws or that faults has no successor. -/
def step (host : ByteOrder) (x : Exchange) : Act → Option Exchange
  | .write =>
    match x.unwritten with
    | [] => none
    | value :: rest =>
      match value.write host x.message with
      | .error _ => none
      | .ok m => some { x with message := m, unwritten := rest, unread := x.unread ++ [value] }
  | .read beyond overload =>
    match x.unread with
    | [] => none
    | value :: rest =>
      if value.type.Asserted x.message then
        (value.type.read host beyond overload x.message).map fun r =>
          { x with message := r.2, unread := rest, results := x.results ++ [r.1] }
      else none

variable {host : ByteOrder} {x x' : Exchange}

/-- The bytes of the values, as they are written. -/
def encodings (host : ByteOrder) (values : List TypedValue) : List UInt8 :=
  values.flatMap (·.encoding host)

/-- The message holds the encodings of what has not been read, and every value is where it belongs.
The storage has room for `limit` less what may still be written. -/
structure Carries (host : ByteOrder) (values : List TypedValue) (limit : Nat) (x : Exchange) :
    Prop where
  wf : x.message.WF
  content : x.message.content = encodings host x.unread
  values : x.results ++ x.unread.map TypedValue.bytes ++ x.unwritten.map TypedValue.bytes =
    values.map TypedValue.bytes
  room : x.message.storage.length + 2 * (encodings host x.unwritten).length ≤ limit

theorem Carries.write {values : List TypedValue} {limit : Nat} (h : Carries host values limit x)
    (hstep : step host x .write = some x') : Carries host values limit x' := by
  unfold step at hstep
  cases hnext : x.unwritten with
  | nil =>
      rw [hnext] at hstep
      cases hstep
  | cons value rest =>
      rw [hnext] at hstep
      dsimp only at hstep
      cases hwrite : value.write host x.message with
      | error m =>
          rw [hwrite] at hstep
          cases hstep
      | ok m =>
          rw [hwrite] at hstep
          cases hstep
          obtain ⟨hwf, hcontent, hstorage⟩ := NetMessage.write_typed h.wf hwrite
          -- a value moves from the unwritten ones to the end of the unread ones
          have hvalues := h.values
          have hroom := h.room
          rw [hnext] at hvalues hroom
          refine ⟨hwf, ?_, ?_, ?_⟩
          · rw [hcontent, h.content, encodings, encodings, List.flatMap_append,
              List.flatMap_singleton]
          · rw [← hvalues]
            simp
          · rw [encodings, List.flatMap_cons, List.length_append] at hroom
            dsimp only
            rw [encodings]
            omega

/-- The next value comes out of the message as it was written. -/
theorem Carries.read {values : List TypedValue} {limit : Nat} (h : Carries host values limit x)
    {value : TypedValue} {rest : List TypedValue} (hnext : x.unread = value :: rest)
    (beyond : List UInt8) (overload : Overload) :
    ∃ x', step host x (.read beyond overload) = some x' ∧
      x'.results = x.results ++ [value.bytes] ∧ x'.unread = rest ∧
        Carries host values limit x' := by
  have hcontent := h.content
  rw [hnext, encodings, List.flatMap_cons] at hcontent
  obtain ⟨hasserted, m, hread, hwf, hrest, hstorage⟩ :=
    NetMessage.read_typed h.wf hcontent beyond overload
  refine ⟨{ x with message := m, unread := rest, results := x.results ++ [value.bytes] }, ?_, rfl,
    rfl, hwf, hrest, ?_, ?_⟩
  · unfold step
    rw [hnext]
    dsimp only
    rw [if_pos hasserted, hread]
    rfl
  · have hvalues := h.values
    rw [hnext] at hvalues
    rw [← hvalues]
    simp
  · dsimp only
    rw [hstorage]
    exact h.room

theorem Carries.step {values : List TypedValue} {limit : Nat} {a : Act}
    (h : Carries host values limit x) (hstep : step host x a = some x') :
    Carries host values limit x' := by
  cases a with
  | write => exact h.write hstep
  | read beyond overload =>
      cases hnext : x.unread with
      | nil =>
          unfold Exchange.step at hstep
          rw [hnext] at hstep
          cases hstep
      | cons value rest =>
          obtain ⟨y, hy, -, -, hcarries⟩ := h.read hnext beyond overload
          rw [hy] at hstep
          cases hstep
          exact hcarries

end Exchange

/-- **Typed round trip.** A message that starts empty is written and read in any order in which each
value is read after it was written. What has been read are the first values of the list, unchanged;
the next value that has been written can be read, by either overload, and comes out as it was; when
nothing is left to be read the message is empty; and no write throws as long as the storage stays
within the limit of a vector. -/
theorem typed_round_trip {host : ByteOrder} {m : NetMessage} (hm : m.WF) (hempty : m.content = [])
    {values : List TypedValue} {x : Exchange}
    (hrun : Transition.Reach (Exchange.step host) (.start m values) x) :
    x.results ++ x.unread.map TypedValue.bytes ++ x.unwritten.map TypedValue.bytes =
        values.map TypedValue.bytes ∧
      (∀ value rest, x.unread = value :: rest → ∀ beyond overload, ∃ x',
        x.step host (.read beyond overload) = some x' ∧
          x'.results = x.results ++ [value.bytes] ∧ x'.unread = rest) ∧
      (x.unread = [] → x.message.empty = true) ∧
      (m.storage.length + 2 * (Exchange.encodings host values).length ≤ vectorMaxSize →
        x.unwritten ≠ [] → ∃ x', x.step host .write = some x') := by
  have hstart : Exchange.Carries host values
      (m.storage.length + 2 * (Exchange.encodings host values).length) (.start m values) :=
    ⟨hm, hempty, rfl, Nat.le_refl _⟩
  have h := hrun.invariant (fun hi _ hstep => hi.step hstep) hstart
  refine ⟨h.values, fun value rest hnext beyond overload => ?_, fun hnone => ?_,
    fun hlimit hsome => ?_⟩
  · obtain ⟨x', hx', hresults, hrest, -⟩ := h.read hnext beyond overload
    exact ⟨x', hx', hresults, hrest⟩
  · have hcontent := h.content
    rw [hnone] at hcontent
    rw [NetMessage.empty, ← h.wf.length_content, hcontent]
    rfl
  · obtain ⟨value, rest, hnext⟩ := List.exists_cons_of_ne_nil hsome
    -- the room that the invariant keeps covers the next value, its share is the front one
    have hroom := h.room
    rw [hnext, Exchange.encodings, List.flatMap_cons, List.length_append] at hroom
    have hfits : x.message.storage.length + 2 * (value.encoding host).length ≤ vectorMaxSize := by
      omega
    obtain ⟨m', hm'⟩ := NetMessage.write_typed_succeeds h.wf hfits
    unfold Exchange.step
    rw [hnext]
    dsimp only
    rw [hm']
    exact ⟨_, rfl⟩

/-- Two bytes, an empty string and a string with a zero in it; the first value is read before the
last one is written. -/
theorem typed_round_trip_three_values :
    ∃ x, Transition.exec (Exchange.step .little)
        (.start (.new .zeros) [.pod ⟨[1, 2], by decide⟩, .string ⟨[], by decide⟩,
          .string ⟨[65, 0, 66], by decide⟩])
        [.write, .write, .read [] .returning, .write, .read [] (.into [7]),
          .read [] .returning] = some x ∧
      x.results = [[1, 2], [], [65, 0, 66]] ∧ x.message.empty = true := by
  obtain ⟨x, hx, hdone⟩ := Option.map_eq_some_iff.mp (show
    (Transition.exec (Exchange.step .little)
      (.start (.new .zeros) [.pod ⟨[1, 2], by decide⟩, .string ⟨[], by decide⟩,
        .string ⟨[65, 0, 66], by decide⟩])
      [.write, .write, .read [] .returning, .write, .read [] (.into [7]),
        .read [] .returning]).map (fun x => (x.unread.map TypedValue.bytes,
          x.unwritten.map TypedValue.bytes)) = some ([], []) by decide +kernel)
  obtain ⟨hunread, hunwritten⟩ := Prod.mk.inj hdone
  obtain ⟨hvalues, -, hempty, -⟩ := typed_round_trip (NetMessage.wf_new .zeros)
    (NetMessage.content_new .zeros) (Transition.reach_of_exec hx)
  rw [hunread, hunwritten, List.append_nil, List.append_nil] at hvalues
  exact ⟨x, hx, hvalues, hempty (List.map_eq_nil_iff.mp hunread)⟩

end EddyServer
