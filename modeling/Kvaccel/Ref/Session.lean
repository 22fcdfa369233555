import Kvaccel.Ref.Ilsm
import Kvaccel.Ref.Master

/-!
# `DB_MASTER`: closing and opening again

`DestroyDB_Master` deletes Main-LSM and its files and resets nothing else.
`Open` resets the flags, the level and the tracker's `count`, not its table,
opens an empty Main-LSM and the driver. The driver's own `Open` asks for new
buffers, so the puts that were still in the old ones are gone; what it had
flushed is on the device, which nobody has reset.

A session is the routing layer over a driver that buffers. Main-LSM and the
device are ideal maps. Between them is the put buffer, which a redirected put
goes to and no get looks at: the device has its records when the 128th put
flushes it, or the `CreateIter` at the beginning of a pass.
-/

namespace Kvaccel.Ref

structure Session where
  /-- Its `dev` is what the device has. -/
  master : Master
  /-- The put buffer. -/
  pending : List (Key × Value)

/-- What an ideal device makes of a batch. -/
def DevMap.insertAll (d : DevMap) (l : List (Key × Value)) : DevMap :=
  l.foldl (fun d r => d.insert (firstFour r.1) r.2) d

namespace Session

open Master

def opened : Session where
  master := Master.opened
  pending := []

/-- `_Flush` -/
def flush (s : Session) : Session where
  master := { s.master with dev := s.master.dev.insertAll s.pending }
  pending := []

/-- `iLSM::DB::Put` -/
def ilsmPut (s : Session) (key : Key) (value : Value) : Session :=
  let s := { s with pending := s.pending ++ [(key, value)] }
  if s.pending.length = limitValueBufferEntry then s.flush else s

section Calls

variable (murmur : Murmur)

/-- Only the redirect has to do with the driver. -/
def put (s : Session) (key : Key) (value : Value) : Status × Session :=
  if s.master.level ≠ .high then
    let r := s.master.put murmur key value
    (r.1, { s with master := r.2 })
  else
    let s := s.ilsmPut key value
    (.ok, { s with master := { s.master with
      kacheFlag := 1
      keyTracker := s.master.keyTracker.insert (doubleHash murmur key 1) key } })

/-- A pass begins with `CreateIter`, which flushes. -/
def rollbackConsumer (s : Session) (order : List (Key × Value)) (measure : Nat → Level × Int) :
    Option (List (Key × Value) × Session) :=
  if s.master.rollbackStatus ≤ 26 ∧ s.master.kacheFlag = 1 then
    (s.flush.master.rollbackConsumer murmur order measure).map fun r =>
      (r.1, { s.flush with master := r.2 })
  else
    some ([], s)

def step (s : Session) : Op → Option (Out × Session)
  | .put key value =>
      let (st, s) := s.put murmur key value
      some (.put st, s)
  | .get key =>
      let (st, value) := s.master.get murmur key
      some (.get st value, s)
  | .monitor m => some (.monitor, { s with master := s.master.monitor m })
  | .rollback order measure =>
      (s.rollbackConsumer murmur order measure).map fun r => (.rollback r.1, r.2)

def run : Session → List Op → Option (List Out × Session)
  | s, [] => some ([], s)
  | s, op :: ops =>
      (s.step murmur op).bind fun r =>
        (run r.2 ops).map fun rest => (r.1 :: rest.1, rest.2)

end Calls

/-- `DestroyDB_Master`, less the flag for the rollback thread. -/
def destroyDBMaster (s : Session) : Session :=
  { s with master := { s.master with main := fun _ => none } }

/-- `Open`: `keyTracker.count = 0` leaves the entries. -/
def openMaster (s : Session) : Session where
  pending := []
  master := {
    level := .low
    rollbackStatus := 0
    kacheFlag := 0
    rollbackFlag := 0
    keyTracker := { s.master.keyTracker with count := 0 }
    main := s.master.main
    dev := s.master.dev }

def reopened (s : Session) : Session := s.destroyDBMaster.openMaster

end Session

end Kvaccel.Ref
