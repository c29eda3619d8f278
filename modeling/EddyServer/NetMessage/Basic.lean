import Mathlib

/-!
# `NetMessage`: a byte buffer with two storage modes

A `NetMessage` keeps its bytes in an inline array of 128 bytes until more room is asked for, and
in a vector from then on. Two positions cut the storage into a part already read, a readable part
and a part free for writing.

Sizes are `size_t`, 64 bits wide: they are natural numbers here, and every sum and difference the
source takes is reduced modulo `2 ^ 64` explicitly. Whether one of them ever wraps is then a
question about the model and not a convention of it. Functions that grow a vector may throw
(`std::length_error`); they return `Except`, and the error carries the object as the throw left it.
-/

namespace EddyServer

/-! ## `size_t` and `std::vector` -/

namespace SizeT

/-- A sum of two sizes: 64 bits, wrapping. -/
def add (a b : Nat) : Nat := (a + b) % 2 ^ 64

/-- A difference of two sizes: 64 bits, wrapping. -/
def sub (a b : Nat) : Nat := (a + (2 ^ 64 - b % 2 ^ 64)) % 2 ^ 64

theorem add_eq {a b : Nat} (h : a + b < 2 ^ 64) : add a b = a + b := Nat.mod_eq_of_lt h

theorem sub_eq {a b : Nat} (hba : b ≤ a) (ha : a < 2 ^ 64) : sub a b = a - b := by
  unfold sub; omega

end SizeT

/-- `std::vector<uint8_t>::max_size()`: a larger `resize`, `reserve` or `insert` throws. -/
def vectorMaxSize : Nat := 2 ^ 63 - 1

/-- `std::vector<uint8_t>::resize`: cut off at the end, or fill up with zeros. -/
def resize (v : List UInt8) (n : Nat) : List UInt8 := v.take n ++ List.replicate (n - v.length) 0

/-- `memcpy` and `memmove` onto position `pos` of a block of memory. -/
def overwrite (mem : List UInt8) (pos : Nat) (src : List UInt8) : List UInt8 :=
  mem.take pos ++ src ++ mem.drop (pos + src.length)

@[simp] theorem length_resize (v : List UInt8) (n : Nat) : (resize v n).length = n := by
  simp only [resize, List.length_append, List.length_take, List.length_replicate]; omega

theorem length_overwrite {mem src : List UInt8} {pos : Nat} (h : pos + src.length ≤ mem.length) :
    (overwrite mem pos src).length = mem.length := by
  simp only [overwrite, List.length_append, List.length_take, List.length_drop]; omega

theorem overwrite_nil (mem : List UInt8) (pos : Nat) : overwrite mem pos [] = mem := by
  simp [overwrite]

/-! ## The object -/

/-- `NetMessage::kDynamicThreshold`, the size of the inline array. -/
def kDynamicThreshold : Nat := 128

structure NetMessage where
  isDynmic : Bool
  readerPos : Nat
  writerPos : Nat
  /-- A `unique_ptr`: empty before the first `set_dynamic` and after a move. -/
  dynamicData : Option (List UInt8)
  staticData : List UInt8
  deriving DecidableEq, Repr

namespace NetMessage

/-- The storage in use: the vector of a dynamic message, the inline array of a static one. -/
def storage (m : NetMessage) : List UInt8 :=
  if m.isDynmic then m.dynamicData.getD [] else m.staticData

def readable (m : NetMessage) : Nat := SizeT.sub m.writerPos m.readerPos

def prependable (m : NetMessage) : Nat := m.readerPos

def writeable (m : NetMessage) : Nat :=
  SizeT.sub (if m.isDynmic then (m.dynamicData.getD []).length else kDynamicThreshold) m.writerPos

def empty (m : NetMessage) : Bool := m.readable == 0

/-- The bytes `data()[0, readable())`. -/
def content (m : NetMessage) : List UInt8 := (m.storage.drop m.readerPos).take m.readable

/-! ### Growing -/

/-- `set_dynamic` leaves a dynamic message alone. The vector is made with as many zeros as there
is content, and the content is inserted in front of them. -/
def setDynamic (m : NetMessage) : NetMessage :=
  if m.isDynmic then m
  else
    let contentSize := m.readable
    let slice := (m.staticData.drop m.readerPos).take contentSize
    { m with
      isDynmic := true
      dynamicData := some (slice ++ List.replicate contentSize 0)
      readerPos := 0
      writerPos := contentSize }

/-- The `else` branch of `make_space`: move the content to the front of the storage. -/
def compact (m : NetMessage) : NetMessage :=
  let readableSize := m.readable
  let slice := (m.storage.drop m.readerPos).take readableSize
  if m.isDynmic then
    { m with
      dynamicData := m.dynamicData.map fun v => overwrite v 0 slice
      readerPos := 0
      writerPos := readableSize }
  else
    { m with
      staticData := overwrite m.staticData 0 slice
      readerPos := 0
      writerPos := readableSize }

def makeSpace (m : NetMessage) (size : Nat) : Except NetMessage NetMessage :=
  if SizeT.add m.writeable m.prependable < size then
    let m := m.setDynamic
    let newSize := SizeT.add m.writerPos size
    if newSize > vectorMaxSize then .error m
    else .ok { m with dynamicData := m.dynamicData.map fun v => resize v newSize }
  else .ok m.compact

def ensureWritableBytes (m : NetMessage) (size : Nat) : Except NetMessage NetMessage :=
  if m.writeable < size then m.makeSpace size else .ok m

/-! ### Writing -/

def hasWritten (m : NetMessage) (size : Nat) : NetMessage :=
  { m with writerPos := SizeT.add m.writerPos size }

/-- A static message is overwritten behind its content, a dynamic one has the bytes inserted. -/
def write (m : NetMessage) (data : List UInt8) : Except NetMessage NetMessage :=
  match m.ensureWritableBytes data.length with
  | .error m => .error m
  | .ok m =>
    if m.isDynmic then
      let v := m.dynamicData.getD []
      if v.length + data.length > vectorMaxSize then .error m
      else
        let v := v.take m.writerPos ++ data ++ v.drop m.writerPos
        .ok ({ m with dynamicData := some v }.hasWritten data.length)
    else
      .ok ({ m with staticData := overwrite m.staticData m.writerPos data }.hasWritten data.length)

/-! ### Construction

The inline array of a new object is not initialised. Its indeterminate bytes are an argument. -/

/-- What the memory of a fresh inline array happens to hold. -/
abbrev Junk := { bytes : List UInt8 // bytes.length = kDynamicThreshold }

/-- An inline array that happens to hold zeros. -/
def Junk.zeros : Junk := ⟨List.replicate 128 0, rfl⟩

/-- `NetMessage()`. -/
def new (junk : Junk) : NetMessage :=
  { isDynmic := false, readerPos := 0, writerPos := 0, dynamicData := none, staticData := junk }

/-- `NetMessage(size)`. -/
def ofSize (junk : Junk) (size : Nat) : Except NetMessage NetMessage :=
  (new junk).ensureWritableBytes size

/-- `NetMessage(data, size)`. -/
def ofData (junk : Junk) (data : List UInt8) : Except NetMessage NetMessage :=
  (new junk).write data

end NetMessage

/-- A message of one byte in the inline array. -/
def oneByteMessage (b : UInt8) : NetMessage :=
  { isDynmic := false
    readerPos := 0
    writerPos := 1
    dynamicData := none
    staticData := b :: List.replicate 127 0 }

end EddyServer
