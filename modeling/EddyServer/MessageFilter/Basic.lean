import EddyServer.NetMessage.Basic

/-!
# Message filters

A session cuts the byte stream of its socket into messages, and turns messages into bytes, through
a `MessageFilterInterface`. `MessageFilter` is the library's default: a 16-bit length in network
byte order in front of every message.
-/

namespace EddyServer

/-! ## The interface -/

/-- What a call of `read` returns, appends to the received messages and leaves of the filter. -/
structure ReadOutcome (Φ : Type) where
  bytes : Nat
  messages : List NetMessage
  filter : Φ

/-- What a call of `write` returns, appends to the buffer and leaves of the filter. -/
structure WriteOutcome (Φ : Type) where
  bytes : Nat
  appended : List UInt8
  filter : Φ

/-- The four virtual functions, over the filter's own state `Φ`. None of them is `const`, so each
may change the state; `read` and `write` see the whole list or buffer they append to. -/
structure MessageFilterInterface (Φ : Type) where
  bytesWannaRead : Φ → Nat × Φ
  bytesWannaWrite : Φ → List NetMessage → Nat × Φ
  read : Φ → List UInt8 → List NetMessage → ReadOutcome Φ
  write : Φ → List NetMessage → List UInt8 → WriteOutcome Φ

/-- `any_bytes()`: the demand that means "whatever arrives". -/
def anyBytes : Nat := 2 ^ 64 - 1

/-! ## Network byte order -/

/-- The byte order of the host. -/
inductive ByteOrder
  | little
  | big
  deriving DecidableEq

namespace ByteOrder

/-- The two bytes of a `uint16_t` in memory. -/
def toMemory : ByteOrder → BitVec 16 → List UInt8
  | .little, x => [UInt8.ofNat x.toNat, UInt8.ofNat (x.toNat / 256)]
  | .big, x => [UInt8.ofNat (x.toNat / 256), UInt8.ofNat x.toNat]

/-- The `uint16_t` at the start of a piece of memory. -/
def ofMemory : ByteOrder → List UInt8 → BitVec 16
  | .little, mem => BitVec.ofNat 16 ((mem.getD 0 0).toNat + 256 * (mem.getD 1 0).toNat)
  | .big, mem => BitVec.ofNat 16 (256 * (mem.getD 0 0).toNat + (mem.getD 1 0).toNat)

/-- `htons`: the identity on a big-endian host, a swap of the two bytes on a little-endian one. -/
def htons : ByteOrder → BitVec 16 → BitVec 16
  | .little, x => BitVec.ofNat 16 (256 * (x.toNat % 256) + x.toNat / 256)
  | .big, x => x

def ntohs : ByteOrder → BitVec 16 → BitVec 16 := htons

end ByteOrder

/-! ## The default filter -/

structure MessageFilter where
  /-- Not initialised by the constructor. -/
  header : BitVec 16
  headerRead : Bool
  deriving DecidableEq, Repr

namespace MessageFilter

def headerSize : Nat := 2

/-- `MessageFilter()`, with the indeterminate value of `header_`. -/
def new (header : BitVec 16) : MessageFilter := { header := header, headerRead := false }

def bytesWannaRead (f : MessageFilter) : Nat :=
  if f.headerRead then f.header.toNat else headerSize

/-- One step of `std::accumulate`. Its accumulator has the type of the initial value `0`, an `int`:
the sum is taken in `size_t` and narrowed to 32 bits again for every message. -/
def accumulate (sum : BitVec 32) (message : NetMessage) : BitVec 32 :=
  (sum.signExtend 64 + BitVec.ofNat 64 headerSize + BitVec.ofNat 64 message.readable).setWidth 32

/-- The resulting `int` is widened to `size_t` with its sign. -/
def bytesWannaWrite (messages : List NetMessage) : Nat :=
  if messages.isEmpty then 0 else ((messages.foldl accumulate 0).signExtend 64).toNat

section
variable (host : ByteOrder) (junk : NetMessage.Junk)

/-- The first call takes a header, the next one the body it announced. A body of at most 65535
bytes never makes the vector throw; the branch for it stands for the exception. -/
def read (f : MessageFilter) (buffer : List UInt8) : ReadOutcome MessageFilter :=
  if f.headerRead = false then
    -- Whatever the length announces, also zero, the next call is for a body.
    { bytes := headerSize
      messages := []
      filter := { header := host.ntohs (host.ofMemory buffer), headerRead := true } }
  else
    match (NetMessage.ofSize junk f.header.toNat).bind (·.write (buffer.take f.header.toNat)) with
    | .error _ => { bytes := 0, messages := [], filter := f }
    | .ok newMessage =>
      { bytes := f.header.toNat
        messages := [newMessage]
        filter := { f with headerRead := false } }

/-- The body of the loop in `write`: the running byte count and the bytes appended so far. -/
def writeOne (acc : Nat × List UInt8) (message : NetMessage) : Nat × List UInt8 :=
  let header := host.htons (BitVec.ofNat 16 message.readable)
  (SizeT.add acc.1 (SizeT.add headerSize message.readable),
    acc.2 ++ host.toMemory header ++ message.content)

def write (f : MessageFilter) (messages : List NetMessage) : WriteOutcome MessageFilter :=
  let r := messages.foldl (writeOne host) (0, [])
  { bytes := r.1, appended := r.2, filter := f }

end

end MessageFilter

/-- `MessageFilter` as an implementation of the interface. -/
def messageFilter (host : ByteOrder) (junk : NetMessage.Junk) :
    MessageFilterInterface MessageFilter where
  bytesWannaRead f := (f.bytesWannaRead, f)
  bytesWannaWrite f messages := (MessageFilter.bytesWannaWrite messages, f)
  read f buffer _ := f.read host junk buffer
  write f messages _ := f.write host messages

end EddyServer
