import Kvaccel.Ref.Commands

/-!
# What the threads share without an atomic

The two flags and the tracker's count are `std::atomic`, the locks are locks,
and Main-LSM, the device and the driver's statistics do their own locking. Four
kinds of object are left on which two threads may meet in the middle of an
access: the level that the monitor publishes, a chain of the tracker's table, the
driver's host side, that is the put buffer and the lists of the scans, and the
vector in which every successful `Get` notes how long it took.

`uses` says what a thread does to each of them in its next step, and `Race`
that two threads meet on one and not both of them read.
-/

namespace Kvaccel.Spec

open Kvaccel.Lib Kvaccel.Ref

inductive Cell where
  /-- `monitor_L0_status_arr` -/
  | level
  /-- `table_[i]` of the tracker -/
  | bucket (i : Fin 128)
  /-- `buffering_info`, `keys`, `values` and what goes with them -/
  | host
  /-- `times_get` -/
  | timesGet
deriving DecidableEq

inductive Use where
  | reads
  | writes
deriving DecidableEq

section Uses

variable (murmur : Murmur)

/-- The chain that the entries of a key are in. -/
def bucketOf (k : Key) : Fin 128 := HashMap.index 128 (doubleHash murmur k 1)

def ClientPc.uses {Pc : Type} : ClientPc Pc → Cell → Option Use
  | .putLevel _ _, .level => some .reads
  | .ctlContains k _, .bucket i => if bucketOf murmur k = i then some .reads else none
  | .ctlDelete k _, .bucket i => if bucketOf murmur k = i then some .writes else none
  | .redPut _ _ _, .host => some .writes
  | .redInsert k _, .bucket i => if bucketOf murmur k = i then some .writes else none
  | .getContains _ k, .bucket i => if bucketOf murmur k = i then some .reads else none
  -- `times_get.push_back`, after the lock if there was one
  | .getReturn _ _ r, .timesGet => if r.isSome then some .writes else none
  | _, _ => none

def RollbackPc.uses {Pc : Type} (l : Ref.Locals) : RollbackPc Pc → Cell → Option Use
  | .monitor, .level | .remonitor, .level => some .writes
  | .createIter _, .host | .seekScan, .host | .nextScan, .host | .devReset, .host => some .writes
  | .contains, .bucket i => if bucketOf murmur l.key = i then some .reads else none
  | .delete, .bucket i => if bucketOf murmur l.key = i then some .writes else none
  | .clear, .bucket _ => some .writes
  | _, _ => none

variable {T : Type} {D : DevLsm}

/-- What the thread does to the object in its next step. -/
def uses (s : State T D) : Thread T → Cell → Option Use
  | .client t => ClientPc.uses murmur (s.clients t)
  | .rollback => RollbackPc.uses murmur s.locals s.rollback

/-- Two threads meet on the object, and one of them writes it. -/
structure Race (s : State T D) (writer other : Thread T) (c : Cell) : Prop where
  differ : writer ≠ other
  writes : uses murmur s writer c = some .writes
  meets : uses murmur s other c ≠ none

end Uses

/-- The host side of the driver is the same. -/
def SameHost {σ : Type} (db db' : DB σ) : Prop :=
  ∃ device op pass, db' = { db with device := device, opStat := op, passthruStat := pass }

/-- The object has the same contents. Those of `times_get` are times, which are not
modelled. -/
def SameCell {T σ : Type} {exec : Device σ} (sh sh' : Shared T (ilsmDev exec)) : Cell → Prop
  | .level => sh'.level = sh.level
  | .bucket i => sh'.keyTracker.table.get i = sh.keyTracker.table.get i
  | .host => @SameHost σ sh.dev sh'.dev
  | .timesGet => True

end Kvaccel.Spec
