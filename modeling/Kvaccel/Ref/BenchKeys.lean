import Kvaccel.Lib.BigEndian
import Kvaccel.Ref.Keys

/-!
# `GenerateKeyFromInt`: the keys of `db_bench` (`db_bench_tool.cc`)

The benchmark numbers its keys and writes the number into the key: most
significant byte first, eight bytes at most, with `'0'` behind them up to the
key size. With `-keys_per_prefix` there is a prefix before it, made of the
number as well. The machine is little-endian, as the driver assumes too.
-/

namespace Kvaccel.Ref

open Kvaccel.Lib

structure KeyFormat where
  /-- `-key_size`, 16 by default -/
  keySize : Nat
  prefixSize : Nat
  keysPerPrefix : Nat
  /-- `keys_`: filled from the database under `-use_existing_keys` -/
  existing : List Bytes

/-- The bytes before the number. A `num_keys` below `keys_per_prefix_` makes the
source divide by zero. -/
def KeyFormat.start (f : KeyFormat) (v numKeys : Nat) : Bytes :=
  if 0 < f.keysPerPrefix then
    bigEndian (min f.prefixSize 8) (v % (numKeys / f.keysPerPrefix)) ++
      List.replicate (f.prefixSize - 8) 48
  else
    []

def generateKeyFromInt (f : KeyFormat) (v numKeys : Nat) : Bytes :=
  if f.existing ≠ [] then
    f.existing.getD v []
  else
    let pos := f.start v numKeys
    let bytesToFill := min (f.keySize - pos.length) 8
    pos ++ bigEndian bytesToFill v ++
      List.replicate (f.keySize - (pos.length + bytesToFill)) 48

/-- `AllocateKey` made room for exactly that. The constructor of `Benchmark`
refuses a prefix that is longer than the key. -/
theorem length_generateKeyFromInt {f : KeyFormat} (h : f.existing = [])
    (hsize : f.prefixSize ≤ f.keySize) (v numKeys : Nat) :
    (generateKeyFromInt f v numKeys).length = f.keySize := by
  have hstart : (f.start v numKeys).length ≤ f.keySize := by
    unfold KeyFormat.start
    split
    · rw [List.length_append, length_bigEndian, List.length_replicate]
      omega
    · exact Nat.zero_le _
  rw [generateKeyFromInt, if_neg (by simp [h])]
  simp only [List.length_append, length_bigEndian, List.length_replicate]
  omega

end Kvaccel.Ref
