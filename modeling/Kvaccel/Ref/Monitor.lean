import Kvaccel.Ref.Master

/-!
# `Monitor_Consumer`

How the level comes about: three properties of Main-LSM against the limits that
`Open` has kept of the options. The arithmetic is the source's, in the source's
widths. The byte counts are `uint64_t`, so `RESERVE` is subtracted and the two
limits are added modulo 2^64; the number of memtables is narrowed to an `int`
and added to the L0 count as one. C++ leaves an overflow of that sum undefined,
and it wraps here.
-/

namespace Kvaccel.Ref

/-- `RESERVE` -/
def reserve : UInt64 := 2097152

/-- `L0_high` -/
def l0High : Int32 := 7

/-- What `Open` keeps of the options. -/
structure MonitorOptions where
  /-- `set_memtalbe_size` -/
  writeBufferSize : UInt64
  softLimit : UInt64
  hardLimit : UInt64
  writeBuffer_ne : writeBufferSize ≠ 0
  hardLimit_ne : hardLimit ≠ 0

/-- The three properties: `num-files-at-level0`, `size-all-mem-tables` and
`estimate-pending-compaction-bytes`. -/
structure Measured where
  l0Num : Int32
  memtableSize : UInt64
  pendingCompactionBytes : UInt64
  l0Num_nonneg : 0 ≤ l0Num

/-- `level_tmp`, with its last assignment. -/
def MonitorOptions.level (o : MonitorOptions) (m : Measured) : Level :=
  let levelTmp :=
    if 36 ≤ m.l0Num ∨
        36 ≤ m.l0Num + (m.memtableSize / o.writeBufferSize).toUInt32.toInt32 ∨
        o.hardLimit - reserve ≤ m.pendingCompactionBytes then
      Level.high
    else if l0High ≤ m.l0Num ∨
        (o.softLimit + o.hardLimit) / 2 ≤ m.pendingCompactionBytes then
      Level.middle
    else
      Level.low
  if m.l0Num = 0 then Level.zero else levelTmp

/-- What a call of `Monitor_Consumer` stores: the level and the L0 count. -/
def MonitorOptions.measure (o : MonitorOptions) (m : Measured) : Level × Int :=
  (o.level m, m.l0Num.toInt)

def Master.monitorConsumer (o : MonitorOptions) (s : Master) (m : Measured) : Master :=
  s.monitor (o.measure m)

end Kvaccel.Ref
