import EddyServer.Library.Framing
import EddyServer.MessageFilter.Basic
import EddyServer.NetMessage.Content

/-!
# The default filter is a length-prefixed codec

`MessageFilter` refines the generic reader of `Library/Framing`: its state is the length a header
announced, the header is two bytes in network byte order, and the abstract value of a message is
its content. From that refinement:

* `codec_round_trip`: what `write` encodes, `read` decodes, for messages of up to 65535 bytes in
  either storage mode, on hosts of any byte order.
-/

namespace EddyServer
namespace MessageFilter

open NetMessage (Junk)

/-! ## The header -/

/-- Two bytes, most significant first. -/
def networkHeader : Framing.Header UInt8 where
  width := 2
  bound := 2 ^ 16
  encode n := [UInt8.ofNat (n / 256), UInt8.ofNat n]
  decode mem := 256 * (mem.getD 0 0).toNat + (mem.getD 1 0).toNat
  length_encode _ := rfl
  decode_encode n := by simp [UInt8.toNat_ofNat']; omega
  encode_decode := by
    intro h hlen
    match h, hlen with
    | [a, b], _ =>
        have ha := a.toNat_lt
        have hb := b.toNat_lt
        have hhigh : (256 * a.toNat + b.toNat) / 256 = a.toNat := by omega
        have hlow : UInt8.ofNat (256 * a.toNat + b.toNat) = b := by
          apply UInt8.toNat_inj.mp
          rw [UInt8.toNat_ofNat']; omega
        simp [hhigh, hlow]

theorem toNat_htons_little (x : BitVec 16) :
    (ByteOrder.little.htons x).toNat = 256 * (x.toNat % 256) + x.toNat / 256 := by
  have h := x.isLt
  have hlt : 256 * (x.toNat % 256) + x.toNat / 256 < 2 ^ 16 := by omega
  rw [ByteOrder.htons, BitVec.toNat_ofNat, Nat.mod_eq_of_lt hlt]

/-- Whatever the host, `htons` and a copy of the memory give the network form of the 16-bit cast. -/
theorem toMemory_htons (host : ByteOrder) (n : Nat) :
    host.toMemory (host.htons (BitVec.ofNat 16 n)) = networkHeader.encode n := by
  have hhigh : UInt8.ofNat (n % 2 ^ 16 / 256) = UInt8.ofNat (n / 256) := by
    apply UInt8.toNat_inj.mp
    simp only [UInt8.toNat_ofNat']; omega
  have hlow : UInt8.ofNat (n % 2 ^ 16) = UInt8.ofNat n := by
    apply UInt8.toNat_inj.mp
    simp only [UInt8.toNat_ofNat']; omega
  cases host with
  | big =>
      simp only [ByteOrder.toMemory, ByteOrder.htons, networkHeader, BitVec.toNat_ofNat]
      rw [hhigh, hlow]
  | little =>
      have hx : n % 2 ^ 16 < 2 ^ 16 := Nat.mod_lt _ (by decide)
      have hdiv : (256 * (n % 2 ^ 16 % 256) + n % 2 ^ 16 / 256) / 256 = n % 2 ^ 16 % 256 := by omega
      have hmod : UInt8.ofNat (256 * (n % 2 ^ 16 % 256) + n % 2 ^ 16 / 256) =
          UInt8.ofNat (n % 2 ^ 16 / 256) := by
        apply UInt8.toNat_inj.mp
        simp only [UInt8.toNat_ofNat']; omega
      have hlast : UInt8.ofNat (n % 2 ^ 16 % 256) = UInt8.ofNat (n % 2 ^ 16) := by
        apply UInt8.toNat_inj.mp
        simp only [UInt8.toNat_ofNat']; omega
      rw [ByteOrder.toMemory, toNat_htons_little, BitVec.toNat_ofNat, hdiv, hmod, hlast, hhigh, hlow]
      rfl

/-- Whatever the host, a `uint16_t` read from memory and passed through `ntohs` is the number in
network form. -/
theorem toNat_ntohs (host : ByteOrder) (mem : List UInt8) :
    (host.ntohs (host.ofMemory mem)).toNat = networkHeader.decode mem := by
  have ha := (mem.getD 0 0).toNat_lt
  have hb := (mem.getD 1 0).toNat_lt
  cases host with
  | big =>
      show (BitVec.ofNat 16 _).toNat = 256 * (mem.getD 0 0).toNat + (mem.getD 1 0).toNat
      rw [BitVec.toNat_ofNat]; omega
  | little =>
      show (ByteOrder.little.htons (BitVec.ofNat 16 _)).toNat =
        256 * (mem.getD 0 0).toNat + (mem.getD 1 0).toNat
      have hlt : (mem.getD 0 0).toNat + 256 * (mem.getD 1 0).toNat < 2 ^ 16 := by omega
      rw [toNat_htons_little, BitVec.toNat_ofNat, Nat.mod_eq_of_lt hlt]; omega

/-! ## Writing -/

/-- The bytes a fresh call of `write` appends. -/
def encode (host : ByteOrder) (messages : List NetMessage) : List UInt8 :=
  ((new 0).write host messages).appended

/-- The loop appends a frame for every message, the content of the message in full. -/
theorem foldl_writeOne (host : ByteOrder) {messages : List NetMessage}
    (hwf : ∀ m ∈ messages, m.WF) (acc : Nat × List UInt8) :
    (messages.foldl (writeOne host) acc).2 =
      acc.2 ++ Framing.frames networkHeader (messages.map NetMessage.content) := by
  induction messages generalizing acc with
  | nil => simp
  | cons m messages ih =>
      have hm := hwf m List.mem_cons_self
      rw [List.foldl_cons, ih fun m' hm' => hwf m' (List.mem_cons_of_mem _ hm')]
      simp [writeOne, Framing.frame, toMemory_htons, hm.length_content]

theorem appended_write (host : ByteOrder) (f : MessageFilter) {messages : List NetMessage}
    (hwf : ∀ m ∈ messages, m.WF) :
    (f.write host messages).appended =
      Framing.frames networkHeader (messages.map NetMessage.content) := by
  rw [write, foldl_writeOne host hwf, List.nil_append]

theorem encode_eq (host : ByteOrder) {messages : List NetMessage} (hwf : ∀ m ∈ messages, m.WF) :
    encode host messages = Framing.frames networkHeader (messages.map NetMessage.content) :=
  appended_write host _ hwf

/-! ## The announced size -/

theorem toNat_signExtend {x : BitVec 32} (h : x.toNat < 2 ^ 31) :
    (x.signExtend 64).toNat = x.toNat := by
  have hmsb : x.msb = false := by
    rw [BitVec.msb_eq_decide]
    simpa using h
  rw [BitVec.signExtend_eq_setWidth_of_msb_false hmsb, BitVec.toNat_setWidth]
  omega

theorem toNat_accumulate {sum : BitVec 32} {message : NetMessage}
    (h : sum.toNat + (headerSize + message.readable) < 2 ^ 31) :
    (accumulate sum message).toNat = sum.toNat + (headerSize + message.readable) := by
  have hsum : (sum.signExtend 64).toNat = sum.toNat := toNat_signExtend (by omega)
  simp only [accumulate, BitVec.toNat_setWidth, BitVec.toNat_add, BitVec.toNat_ofNat, hsum]
  omega

theorem toNat_foldl_accumulate {messages : List NetMessage} (hwf : ∀ m ∈ messages, m.WF)
    {sum : BitVec 32} (h : sum.toNat +
      (Framing.frames networkHeader (messages.map NetMessage.content)).length < 2 ^ 31) :
    (messages.foldl accumulate sum).toNat = sum.toNat +
      (Framing.frames networkHeader (messages.map NetMessage.content)).length := by
  induction messages generalizing sum with
  | nil => rfl
  | cons m messages ih =>
      have hm : (Framing.frame networkHeader m.content).length = headerSize + m.readable := by
        rw [Framing.length_frame, (hwf m List.mem_cons_self).length_content]
        rfl
      rw [List.map_cons, Framing.frames_cons, List.length_append, hm] at h ⊢
      have hsum := @toNat_accumulate sum m (by omega)
      rw [List.foldl_cons, ih (fun m' hm' => hwf m' (List.mem_cons_of_mem _ hm')) (by omega), hsum]
      omega

/-- `bytes_wanna_write` announces the size of what `write` appends, while that fits an `int`. -/
theorem bytesWannaWrite_eq (host : ByteOrder) {messages : List NetMessage}
    (hwf : ∀ m ∈ messages, m.WF) (h : (encode host messages).length < 2 ^ 31) :
    bytesWannaWrite messages = (encode host messages).length := by
  rw [encode_eq host hwf] at h ⊢
  cases messages with
  | nil => rfl
  | cons m messages =>
      have hfold := @toNat_foldl_accumulate _ hwf 0 (by simpa using h)
      have hzero : (0 : BitVec 32).toNat = 0 := rfl
      rw [hzero, Nat.zero_add] at hfold
      rw [bytesWannaWrite, if_neg (by simp), toNat_signExtend (by omega), hfold]

/-! ## Reading -/

/-- The filter is between two messages, as its constructor leaves it. -/
def AtBoundary (f : MessageFilter) : Prop := f.headerRead = false

instance : DecidablePred AtBoundary := fun f => inferInstanceAs (Decidable (f.headerRead = false))

theorem atBoundary_new (header : BitVec 16) : AtBoundary (.new header) := rfl

theorem AtBoundary.eq_new {f : MessageFilter} (h : AtBoundary f) : f = .new f.header := by
  cases f
  cases h
  rfl

/-- The state of the generic reader a filter stands for. -/
def pending (f : MessageFilter) : Option Nat := if f.headerRead then some f.header.toNat else none

/-- A header that the filter holds is short enough for its width. -/
theorem pending_lt (f : MessageFilter) (n : Nat) (h : f.pending = some n) :
    n < networkHeader.bound := by
  unfold pending at h
  split_ifs at h
  cases h
  exact f.header.isLt

theorem wanted_pending (f : MessageFilter) :
    Framing.wanted networkHeader f.pending = f.bytesWannaRead := by
  cases h : f.headerRead with
  | false => simp [pending, bytesWannaRead, Framing.wanted, h, networkHeader, headerSize]
  | true => simp [pending, bytesWannaRead, Framing.wanted, h]

/-- **One call of `read` refines one step of the generic reader**, and returns the number of bytes
that was demanded. -/
theorem read_spec (host : ByteOrder) (junk : Junk) {f : MessageFilter} {buffer : List UInt8}
    (hlen : buffer.length = f.bytesWannaRead) :
    (f.read host junk buffer).bytes = f.bytesWannaRead ∧
      (f.read host junk buffer).filter.pending = (Framing.feed networkHeader f.pending buffer).1 ∧
      (f.read host junk buffer).messages.map NetMessage.content =
        (Framing.feed networkHeader f.pending buffer).2.toList ∧
      ∀ m ∈ (f.read host junk buffer).messages, m.WF := by
  cases hd : f.headerRead with
  | false =>
      refine ⟨?_, ?_, ?_, ?_⟩ <;>
        simp [read, pending, bytesWannaRead, Framing.feed, hd, toNat_ntohs]
  | true =>
      have hwanted : f.bytesWannaRead = f.header.toNat := by simp [bytesWannaRead, hd]
      rw [hwanted] at hlen ⊢
      have hbound := f.header.isLt
      obtain ⟨m, r, hm, hr, hwf, hcontent⟩ := NetMessage.ofSize_write junk buffer
        f.header.toNat (by unfold kDynamicThreshold vectorMaxSize; omega)
      have hread : f.read host junk buffer =
          { bytes := f.header.toNat, messages := [r], filter := { f with headerRead := false } } := by
        rw [read, if_neg (by simp [hd]), List.take_of_length_le (by omega), hm]
        simp only [Except.bind, hr]
      rw [hread]
      refine ⟨rfl, ?_, ?_, ?_⟩
      · simp [pending, Framing.feed, hd]
      · simp [pending, Framing.feed, hd, hcontent]
      · simpa using hwf

/-! ### The driver

A stream in front of a filter, read by taking exactly the bytes the filter asks for. -/

structure Driver where
  filter : MessageFilter
  rest : List UInt8
  received : List NetMessage

namespace Driver

/-- A fresh filter in front of a stream. -/
def start (header : BitVec 16) (stream : List UInt8) : Driver :=
  { filter := new header, rest := stream, received := [] }

/-- Take `bytes_wanna_read()` bytes (possibly none) and call `read`. -/
def step (host : ByteOrder) (junk : Junk) (d : Driver) : Option Driver :=
  let n := d.filter.bytesWannaRead
  if d.rest.length < n then none
  else
    let r := d.filter.read host junk (d.rest.take n)
    some { filter := r.filter, rest := d.rest.drop n, received := d.received ++ r.messages }

/-- At most `k` calls of `read`. -/
def run (host : ByteOrder) (junk : Junk) : Nat → Driver → Driver
  | 0, d => d
  | k + 1, d => match d.step host junk with
    | none => d
    | some d' => d'.run host junk k

/-- The generic reader a driver stands for. -/
def view (d : Driver) : Framing.Reader UInt8 :=
  ⟨d.filter.pending, d.rest, d.received.map NetMessage.content⟩

variable {host : ByteOrder} {junk : Junk}

/-- The call of `read` a driver makes next returns the number of bytes it was asked for. -/
theorem read_bytes {d : Driver} (h : d.filter.bytesWannaRead ≤ d.rest.length) :
    (d.filter.read host junk (d.rest.take d.filter.bytesWannaRead)).bytes =
      d.filter.bytesWannaRead :=
  (read_spec host junk (by rw [List.length_take, Nat.min_eq_left h])).1

theorem map_view_step (host : ByteOrder) (junk : Junk) (d : Driver) :
    (d.step host junk).map view = d.view.step networkHeader := by
  have hwanted : Framing.wanted networkHeader d.view.pending = d.filter.bytesWannaRead :=
    wanted_pending d.filter
  rw [step, Framing.Reader.step, hwanted]
  show Option.map view (if d.rest.length < d.filter.bytesWannaRead then _ else _) =
    if d.rest.length < d.filter.bytesWannaRead then _ else _
  by_cases hlt : d.rest.length < d.filter.bytesWannaRead
  · rw [if_pos hlt, if_pos hlt]; rfl
  · have hlen : (d.rest.take d.filter.bytesWannaRead).length = d.filter.bytesWannaRead := by
      rw [List.length_take, Nat.min_eq_left (Nat.le_of_not_lt hlt)]
    obtain ⟨-, hpending, hcontent, -⟩ := read_spec host junk hlen
    rw [if_neg hlt, if_neg hlt]
    simp only [Option.map_some, view, List.map_append, hpending, hcontent]

/-- **The driver refines the generic reader**, run by run. -/
theorem view_run (k : Nat) (d : Driver) :
    (d.run host junk k).view = d.view.run networkHeader k := by
  induction k generalizing d with
  | zero => rfl
  | succ k ih =>
      rw [run, Framing.Reader.run, ← map_view_step host junk]
      cases h : d.step host junk with
      | none => rfl
      | some d' => exact ih d'

/-- A filter at a frame boundary decodes the frames of short messages, two calls each, and is at a
frame boundary again in front of whatever follows them. -/
theorem run_frames (host : ByteOrder) (junk : Junk) {bodies : List (List UInt8)}
    (hbodies : ∀ b ∈ bodies, b.length < 2 ^ 16) (header : BitVec 16) (tail : List UInt8) :
    let d := (start header (Framing.frames networkHeader bodies ++ tail)).run host junk
      (2 * bodies.length)
    d.received.map NetMessage.content = bodies ∧ d.rest = tail ∧ d.filter.headerRead = false := by
  intro d
  have hview : d.view = ⟨none, tail, bodies⟩ := by
    rw [view_run]
    simpa [start, new, view, pending] using
      Framing.Reader.run_frames (H := networkHeader) hbodies tail []
  have hpending : d.filter.pending = none := congrArg Framing.Reader.pending hview
  refine ⟨congrArg Framing.Reader.out hview, congrArg Framing.Reader.rest hview, ?_⟩
  cases hd : d.filter.headerRead with
  | false => rfl
  | true => simp [pending, hd] at hpending

end Driver

/-! ## The round trip -/

/-- **Codec round trip.** Feed the concatenated encodings of any batches of well-formed messages of
at most 65535 bytes to a fresh filter. Every call of `read` returns the number of bytes it was asked
for, and the reading ends at a frame boundary, with nothing left over, having received exactly the
contents that were sent, in order. -/
theorem codec_round_trip (host peer : ByteOrder) (junk : Junk) (header : BitVec 16)
    (batches : List (List NetMessage))
    (hwf : ∀ batch ∈ batches, ∀ m ∈ batch, m.WF)
    (hshort : ∀ batch ∈ batches, ∀ m ∈ batch, m.readable ≤ 65535) :
    let start := Driver.start header (batches.map (encode host)).flatten
    (∀ k, let d := start.run peer junk k
      d.filter.bytesWannaRead ≤ d.rest.length →
        (d.filter.read peer junk (d.rest.take d.filter.bytesWannaRead)).bytes =
          d.filter.bytesWannaRead) ∧
    ∃ k, let d := start.run peer junk k
      d.received.map NetMessage.content = batches.flatten.map NetMessage.content ∧
        d.rest = [] ∧ d.filter.headerRead = false ∧ d.step peer junk = none := by
  intro start
  refine ⟨fun k => Driver.read_bytes, 2 * (batches.flatten.map NetMessage.content).length, ?_⟩
  have hstream : (batches.map (encode host)).flatten =
      Framing.frames networkHeader (batches.flatten.map NetMessage.content) := by
    induction batches with
    | nil => rfl
    | cons batch batches ih =>
        rw [List.map_cons, List.flatten_cons, encode_eq host (hwf batch List.mem_cons_self),
          ih (fun b hb => hwf b (List.mem_cons_of_mem _ hb))
            (fun b hb => hshort b (List.mem_cons_of_mem _ hb)),
          List.flatten_cons, List.map_append, Framing.frames_append]
  have hbodies : ∀ b ∈ batches.flatten.map NetMessage.content, b.length < 2 ^ 16 := by
    intro b hb
    obtain ⟨m, hm, rfl⟩ := List.mem_map.mp hb
    obtain ⟨batch, hbatch, hmem⟩ := List.mem_flatten.mp hm
    rw [(hwf batch hbatch m hmem).length_content]
    have := hshort batch hbatch m hmem
    omega
  intro d
  obtain ⟨hreceived, hrest, hboundary⟩ : d.received.map NetMessage.content =
      batches.flatten.map NetMessage.content ∧ d.rest = [] ∧ d.filter.headerRead = false := by
    have h := Driver.run_frames peer junk hbodies header []
    rwa [List.append_nil, ← hstream] at h
  refine ⟨hreceived, hrest, hboundary, ?_⟩
  rw [Driver.step, hrest, if_pos]
  simp [bytesWannaRead, hboundary, headerSize]

/-- Two batches: a message in a vector with a byte already read, an empty one, and an inline one. -/
theorem codec_round_trip_two_batches :
    let short := NetMessage.mk false 0 1 none (7 :: List.replicate 127 0)
    let none := NetMessage.mk false 0 0 none (List.replicate 128 0)
    let read := NetMessage.mk true 1 3 (some [1, 2, 3, 4]) (List.replicate 128 0)
    let start := Driver.start 0 ([[read, none], [short]].map (encode .little)).flatten
    ∃ k, let d := start.run .big ⟨List.replicate 128 255, rfl⟩ k
      d.received.map NetMessage.content = [[2, 3], [], [7]] ∧
        d.rest = [] ∧ d.filter.headerRead = false ∧ d.step .big ⟨List.replicate 128 255, rfl⟩ = .none :=
  (codec_round_trip .little .big ⟨List.replicate 128 255, rfl⟩ 0
    [[NetMessage.mk true 1 3 (some [1, 2, 3, 4]) (List.replicate 128 0),
      NetMessage.mk false 0 0 none (List.replicate 128 0)],
     [NetMessage.mk false 0 1 none (7 :: List.replicate 127 0)]]
    (by decide +kernel) (by decide +kernel)).2

end MessageFilter
end EddyServer
