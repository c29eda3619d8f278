import EddyServer.MessageFilter.Codec
import EddyServer.TCPSession.Moves

/-!
# Reading with the default filter

`handle_read` on an open session takes what the filter has asked for and asks for more; every other
function of the session leaves the read side alone. With `MessageFilter` the read side refines the
reader of `Library/Framing`: the demand is two bytes or the length that a header has announced, and
the session starts no read for a demand of zero bytes.
-/

namespace EddyServer

open NetMessage (Junk)

/-- `read` looks only at the bytes that it has asked for. -/
theorem MessageFilter.read_append (host : ByteOrder) (junk : Junk) {f : MessageFilter}
    {data : List UInt8} (hlen : data.length = f.bytesWannaRead) (extra : List UInt8) :
    f.read host junk (data ++ extra) = f.read host junk data := by
  cases hd : f.headerRead with
  | false =>
      rw [bytesWannaRead, if_neg (by simp [hd])] at hlen
      obtain ⟨a, b, rfl⟩ := List.length_eq_two.mp hlen
      cases host <;> simp [read, hd, ByteOrder.ofMemory]
  | true =>
      rw [bytesWannaRead, if_pos hd] at hlen
      rw [read, read, if_neg (by simp [hd]), if_neg (by simp [hd]),
        List.take_append_of_le_length (Nat.le_of_eq hlen.symm)]

theorem MessageFilter.bytesWannaRead_ne_anyBytes (f : MessageFilter) :
    f.bytesWannaRead ≠ anyBytes := by
  have hlt := f.header.isLt
  unfold bytesWannaRead anyBytes headerSize
  split_ifs <;> omega

namespace TCPSession

variable {Φ : Type}

/-! ## What leaves the read side alone -/

structure SameReads (s t : TCPSession Φ) : Prop where
  msgFilter : t.msgFilter = s.msgFilter
  delivered : t.trace.delivered = s.trace.delivered
  decoded : t.trace.decoded = s.trace.decoded
  readOps : t.readOps = s.readOps
  numReadHandlers : t.numReadHandlers = s.numReadHandlers
  wasOpen : t.closed = false → s.closed = false

theorem SameReads.refl (s : TCPSession Φ) : SameReads s s := ⟨rfl, rfl, rfl, rfl, rfl, fun h => h⟩

theorem hanldeClose_sameReads (s : TCPSession Φ) (found : Option Conn) :
    SameReads s (s.hanldeClose found).1 := by
  unfold hanldeClose
  split_ifs
  · exact .refl s
  · cases found with
    | none => exact .refl s
    | some entry =>
        exact ⟨rfl, rfl, rfl, by simp [readOps, Socket.asyncReadSome], rfl, fun h => h⟩

theorem close_sameReads (s : TCPSession Φ) (cause : CloseCause) (found : Option Conn) :
    SameReads s (s.close cause found).1 := by
  unfold close
  split_ifs
  · exact .refl s
  · have h := (s.markClosed cause).hanldeClose_sameReads found
    exact ⟨h.msgFilter, h.delivered, h.decoded, h.readOps, h.numReadHandlers,
      fun hopen => nomatch h.wasOpen hopen⟩

theorem hanldeWrite_sameReads (s : TCPSession Φ) (found : Option Conn) (error : ErrorCode) :
    SameReads s (s.hanldeWrite found error).1 := by
  unfold hanldeWrite
  dsimp only
  split_ifs
  · have h := (({ s with numWriteHandlers := s.numWriteHandlers - 1 } :
      TCPSession Φ).markClosed .hanldeWrite).hanldeClose_sameReads found
    exact ⟨h.msgFilter, h.delivered, h.decoded, h.readOps, h.numReadHandlers,
      fun hopen => nomatch h.wasOpen hopen⟩
  · exact ⟨rfl, rfl, rfl, rfl, rfl, fun h => h⟩
  · exact ⟨rfl, rfl, rfl, rfl, rfl, fun h => h⟩

theorem packMessageList_sameReads (s : TCPSession Φ) : SameReads s s.packMessageList.1 := by
  unfold packMessageList
  split_ifs
  · exact .refl s
  · exact ⟨rfl, rfl, rfl, rfl, rfl, fun h => h⟩

theorem handleSafeClose_sameReads (s : TCPSession Φ) (error : ErrorCode) (data : List UInt8) :
    SameReads s (s.handleSafeClose error data).1 := by
  unfold handleSafeClose
  split_ifs
  · exact ⟨rfl, rfl, rfl, rfl, rfl, fun h => h⟩
  · exact .refl s
  · exact ⟨rfl, rfl, rfl, by simp [readOps, Socket.asyncReadSome], rfl, fun h => h⟩

theorem closeTimerExpired_sameReads {s t : TCPSession Φ} {error : ErrorCode}
    (h : s.closeTimerExpired error = some t) : SameReads s t := by
  unfold closeTimerExpired at h
  split_ifs at h
  all_goals
    cases h
    exact ⟨rfl, rfl, rfl, rfl, rfl, fun h => h⟩

/-- A `handle_read` that fails, or comes to a closed session, leaves it closed. -/
theorem handleRead_closing {F : MessageFilterInterface Φ} (now : Nat) (s : TCPSession Φ)
    (found : Option Conn) {error : ErrorCode} (data : List UInt8)
    (h : error ≠ .success ∨ s.closed = true) :
    SameReads { s with numReadHandlers := s.numReadHandlers - 1, closed := true }
      (s.handleRead F now found error data).1 := by
  unfold handleRead
  dsimp only
  rw [if_pos h]
  have hclose := (({ s with numReadHandlers := s.numReadHandlers - 1 } :
    TCPSession Φ).markClosed .handleRead).hanldeClose_sameReads found
  exact ⟨hclose.msgFilter, hclose.delivered, hclose.decoded, hclose.readOps,
    hclose.numReadHandlers, hclose.wasOpen⟩

/-! ## What `MessageFilter` asks for -/

section
variable (host : ByteOrder) (junk : Junk)

/-- `MessageFilter` writes without a state. -/
theorem postMessageList_sameReads {s t : TCPSession MessageFilter} {messages : List NetMessage}
    (h : s.postMessageList (messageFilter host junk) messages = some t) : SameReads s t := by
  unfold postMessageList at h
  dsimp only at h
  split_ifs at h
  all_goals
    cases h
    exact ⟨rfl, rfl, rfl, rfl, rfl, fun h => h⟩

/-- The read that a demand starts. -/
def demanded : Nat → List ReadOp
  | 0 => []
  | n + 1 => [{ handler := .handleRead, exact := true, size := n + 1 }]

theorem exact_of_demanded (n : Nat) : ∀ op ∈ demanded n, op.exact = true ∧ op.size = n := by
  cases n with
  | zero => exact nofun
  | succ n =>
      intro op hop
      cases List.mem_singleton.mp hop
      exact ⟨rfl, rfl⟩

theorem pos_of_demanded (n : Nat) : ∀ op ∈ demanded n, 0 < n := by
  cases n with
  | zero => exact nofun
  | succ n => exact fun _ _ => Nat.succ_pos n

theorem readOps_nil {s : TCPSession Φ} (h : s.outstandingReads = 0) : s.readOps = [] :=
  List.eq_nil_of_length_eq_zero (s.length_readOps.trans h)

theorem readOps_append {s t : TCPSession Φ} {n : Nat}
    (h : t.socket.reads = s.socket.reads ++ demanded n) : t.readOps = s.readOps ++ demanded n := by
  unfold readOps
  rw [h, List.filter_append]
  congr 1
  cases n <;> rfl

/-- The session starts one read of the size that the filter asks for, or none. -/
structure Asks (s t : TCPSession MessageFilter) : Prop where
  closed : t.closed = s.closed
  trace : t.trace = s.trace
  msgFilter : t.msgFilter = s.msgFilter
  messagesReceived : t.messagesReceived = s.messagesReceived
  reads : t.socket.reads = s.socket.reads ++ demanded s.msgFilter.bytesWannaRead
  numReadHandlers : t.numReadHandlers =
    s.numReadHandlers + (demanded s.msgFilter.bytesWannaRead).length

theorem startRead_asks (s : TCPSession MessageFilter) :
    Asks s (s.startRead (messageFilter host junk)) := by
  have hany := s.msgFilter.bytesWannaRead_ne_anyBytes
  have hdemand : (messageFilter host junk).bytesWannaRead s.msgFilter =
      (s.msgFilter.bytesWannaRead, s.msgFilter) := rfl
  unfold startRead
  rw [hdemand]
  cases hn : s.msgFilter.bytesWannaRead with
  | zero =>
      exact ⟨rfl, rfl, rfl, rfl, by simp [hn, demanded], by simp [hn, demanded]⟩
  | succ n =>
      rw [hn] at hany
      simp only [if_neg (Nat.succ_ne_zero n), if_neg hany]
      exact ⟨rfl, rfl, rfl, rfl,
        by simp [hn, demanded, Socket.asyncRead], by simp [hn, demanded]⟩

theorem init_asks (now : Nat) (s : TCPSession MessageFilter) (id : TCPSessionID) :
    Asks { s with closed := false } (s.init (messageFilter host junk) now id).1 := by
  have h := startRead_asks host junk
    { s with closed := false, sessionId := id, lastActivityTime := now }
  exact ⟨h.closed, h.trace, h.msgFilter, h.messagesReceived, h.reads, h.numReadHandlers⟩

/-- What a successful `handle_read` of an open session makes of the bytes that the filter has asked
for. -/
structure Takes (s : TCPSession MessageFilter) (data : List UInt8)
    (r : TCPSession MessageFilter × List Effect) : Prop where
  closed : r.1.closed = false
  closedBy : r.1.trace.closedBy = s.trace.closedBy
  delivered : r.1.trace.delivered = s.trace.delivered ++ data
  pending : r.1.msgFilter.pending =
    (Framing.feed MessageFilter.networkHeader s.msgFilter.pending data).1
  decoded : r.1.trace.decoded.map NetMessage.content = s.trace.decoded.map NetMessage.content ++
    (Framing.feed MessageFilter.networkHeader s.msgFilter.pending data).2.toList
  reads : r.1.socket.reads = s.socket.reads ++ demanded r.1.msgFilter.bytesWannaRead
  numReadHandlers : r.1.numReadHandlers =
    s.numReadHandlers - 1 + (demanded r.1.msgFilter.bytesWannaRead).length
  effects : s.messagesReceived = [] → r.2 =
    if r.1.messagesReceived = [] then [] else [.post s.ioThread (flushTask s.ioThread)]

theorem handleRead_takes (now : Nat) {s : TCPSession MessageFilter} (found : Option Conn)
    {data : List UInt8} (hopen : s.closed = false)
    (hlen : data.length = s.msgFilter.bytesWannaRead) :
    Takes s data (s.handleRead (messageFilter host junk) now found .success data) := by
  have hread : (messageFilter host junk).read s.msgFilter (overwrite s.bufferReceiving 0 data)
      s.messagesReceived = s.msgFilter.read host junk data := by
    have hbuffer : overwrite s.bufferReceiving 0 data =
        data ++ s.bufferReceiving.drop data.length := by simp [overwrite]
    rw [hbuffer]
    exact MessageFilter.read_append host junk hlen _
  obtain ⟨-, hpending, hcontent, -⟩ := MessageFilter.read_spec host junk hlen
  have hmid := readMessages_eq (messageFilter host junk) now
    { s with numReadHandlers := s.numReadHandlers - 1 } data
  dsimp only at hmid
  rw [hread] at hmid
  unfold handleRead
  dsimp only
  rw [if_neg (by simp [hopen]), hmid]
  have hasks := startRead_asks host junk
    { s with
      numReadHandlers := s.numReadHandlers - 1
      msgFilter := (s.msgFilter.read host junk data).filter
      messagesReceived := s.messagesReceived ++ (s.msgFilter.read host junk data).messages
      bufferReceiving := []
      lastActivityTime := if s.messagesReceived = [] ∧
        (s.msgFilter.read host junk data).messages ≠ [] then now else s.lastActivityTime
      trace := { s.trace with
        delivered := s.trace.delivered ++ data
        decoded := s.trace.decoded ++ (s.msgFilter.read host junk data).messages } }
  exact
    { closed := hasks.closed.trans hopen
      closedBy := by rw [hasks.trace]
      delivered := by rw [hasks.trace]
      pending := by rw [hasks.msgFilter]; exact hpending
      decoded := by rw [hasks.trace, ← hcontent]; exact List.map_append
      reads := by rw [hasks.msgFilter]; exact hasks.reads
      numReadHandlers := by rw [hasks.msgFilter]; exact hasks.numReadHandlers
      effects := fun hnil => by
        rw [hasks.messagesReceived]
        cases (s.msgFilter.read host junk data).messages <;> simp [hnil] }

end

end TCPSession
end EddyServer
