import Kvaccel.Lib.Mem

/-!
# Keys, values and the tracker's hash

Keys and values are byte strings of any length. Past the routing layer a key
is four bytes: the hash, the device commands, the flush records and the scan
all copy four bytes out of `key.c_str()`. `firstFour` is that copy. A key of
four bytes is its own copy, and the evaluation script runs with
`-key_size=4`; nothing checks the length. `fourBytes` says which keys have the
four bytes that are copied.

`MurmurHash3_x64_128` is not part of the repository, so the model takes it as
a parameter; `murmurHash3` is the published function at the one length the
code asks for, for evaluating the model on concrete keys.
-/

namespace Kvaccel.Ref

open Kvaccel.Lib

abbrev Key := Bytes

abbrev Value := Bytes

/-- The four bytes a copy out of `key.c_str()` delivers: the key's own first
four, or the three of a shorter key and the terminator. Of a key of two bytes or
less the source reads what lies behind the terminator; there are zeros here, and
results that depend on these bytes leave such keys out. -/
def firstFour (key : Bytes) : Bytes := (key ++ [0, 0, 0, 0]).take 4

theorem length_firstFour (key : Bytes) : (firstFour key).length = 4 := by
  simp [firstFour]

theorem firstFour_eq_self {key : Bytes} (h : key.length = 4) :
    firstFour key = key := by
  simp [firstFour, ← h]

/-- The first four bytes of the string with its terminator, if it has as many. -/
def fourBytes (key : Bytes) : Option Bytes :=
  if 3 ≤ key.length then some ((key ++ [0]).take 4) else none

theorem fourBytes_eq {key : Bytes} (h : 3 ≤ key.length) :
    fourBytes key = some (firstFour key) := by
  have happend : key ++ [0, 0, 0, 0] = key ++ [0] ++ [0, 0, 0] := by simp
  have hlen : 4 ≤ (key ++ [0]).length := by
    rw [List.length_append, List.length_singleton]
    omega
  rw [fourBytes, if_pos h, firstFour, happend, List.take_append_of_le_length hlen]

/-- The string `"start"`: what a scan from the first record seeks. -/
def startKey : Key := [115, 116, 97, 114, 116]

/-- The two halves of the 128-bit hash of a byte string. -/
abbrev Murmur := Bytes → UInt64 × UInt64

/-- `DB_MASTER::double_hash`. -/
def doubleHash (murmur : Murmur) (key : Bytes) (n : UInt64) : UInt64 :=
  let hashValue := murmur (firstFour key)
  hashValue.1 + n * hashValue.2

theorem doubleHash_firstFour (murmur : Murmur) (key : Bytes) (n : UInt64) :
    doubleHash murmur (firstFour key) n = doubleHash murmur key n := by
  rw [doubleHash, firstFour_eq_self (length_firstFour key), doubleHash]

def fmix64 (k : UInt64) : UInt64 :=
  let k := k ^^^ (k >>> 33)
  let k := k * 0xff51afd7ed558ccd
  let k := k ^^^ (k >>> 33)
  let k := k * 0xc4ceb9fe1a85ec53
  k ^^^ (k >>> 33)

/-- `MurmurHash3_x64_128` of four bytes with seed 0: the tail step and the
finalisation, the block loop having nothing to do. -/
def murmurHash3 (key : Bytes) : UInt64 × UInt64 :=
  let k1 := UInt64.ofNat (word key) * 0x87c37b91114253d5
  let k1 := ((k1 <<< 31) ||| (k1 >>> 33)) * 0x4cf5ad432745937f
  let h1 := k1 ^^^ 4
  let h2 : UInt64 := 4
  let h1 := h1 + h2
  let h2 := h2 + h1
  let h1 := fmix64 h1
  let h2 := fmix64 h2
  let h1 := h1 + h2
  let h2 := h2 + h1
  (h1, h2)

end Kvaccel.Ref
