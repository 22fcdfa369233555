import Mathlib.Data.List.AList
import Kvaccel.Ref.HashMap
import Kvaccel.Ref.Keys

/-!
# `DB_MASTER`: one call at a time

The routing layer as a sequential program. Main-LSM and Dev-LSM are ideal
maps here: Main-LSM a function on keys, Dev-LSM a finite map on the four
bytes the device sees. Everything between them — the level, the two flags
and the key tracker — is the source's.

A rollback pass takes two things from outside: the order in which the device
enumerates its records, and what each `Monitor_Consumer` call inside the
pass measures. Both are arguments, so every device order and every sequence
of measurements is a run of the model. The pass loops until the scan reports
its end, which is why it runs on fuel; `rollbackFuel` covers a pass over a
non-empty Dev-LSM.
-/

namespace Kvaccel.Ref

open Kvaccel.Lib

inductive Level where
  | zero
  | low
  | middle
  | high
deriving DecidableEq, Repr

inductive Status where
  | ok
  | notFound
  /-- Any other code a RocksDB `Status` can carry. -/
  | other (code : Nat)
deriving DecidableEq, Repr

abbrev DevMap := AList fun _ : Bytes => Value

def DevMap.records (d : DevMap) : List (Key × Value) :=
  d.entries.map fun e => (e.1, e.2)

/-- The order the device scans in: the one asked for when it lists exactly
the records, the map's own otherwise. -/
def DevMap.scanOrder (d : DevMap) (order : List (Key × Value)) :
    List (Key × Value) :=
  if order.Perm d.records then order else d.records

structure Master where
  /-- `monitor_L0_status_arr` -/
  level : Level
  /-- `rollback_status`, the L0 file count last measured -/
  rollbackStatus : Int
  kacheFlag : Int
  rollbackFlag : Int
  keyTracker : HashMap Key 128
  main : Key → Option Value
  dev : DevMap

namespace Master

def opened : Master where
  level := .low
  rollbackStatus := 0
  kacheFlag := 0
  rollbackFlag := 0
  keyTracker := HashMap.empty
  main := fun _ => none
  dev := ∅

def mainPut (s : Master) (key : Key) (value : Value) : Master :=
  { s with main := Function.update s.main key (some value) }

/-- `DB::Get` of Main-LSM: the status and what it left in the string. -/
def mainGet (s : Master) (key : Key) : Status × Value :=
  match s.main key with
  | some v => (.ok, v)
  | none => (.notFound, [])

/-- `iLSM::DB::Get` over an ideal Dev-LSM: the value's length, or -2. -/
def ilsmGet (s : Master) (key : Key) : Int × Value :=
  match s.dev.lookup (firstFour key) with
  | some v => (v.length, v)
  | none => (-2, [])

/-- What `monitor_consumer` measured becomes the level and the L0 count. -/
def monitor (s : Master) (m : Level × Int) : Master :=
  { s with level := m.1, rollbackStatus := m.2 }

section Calls

variable (murmur : Murmur)

def put (s : Master) (key : Key) (value : Value) : Status × Master :=
  if s.level ≠ .high then
    if s.kacheFlag = 0 then
      (.ok, s.mainPut key value)
    else
      -- put with rollback
      if s.keyTracker.contains (doubleHash murmur key 1) then
        (.ok, { s with
          keyTracker := s.keyTracker.delete (doubleHash murmur key 1)
        }.mainPut key value)
      else
        (.ok, s.mainPut key value)
  else
    (.ok, { s with
      kacheFlag := 1
      dev := s.dev.insert (firstFour key) value
      keyTracker := s.keyTracker.insert (doubleHash murmur key 1) key })

/-- `DB_MASTER::Get`: the status, and the new `*value` where it assigns it.
Both stores are read through what their own `Get` returned. -/
def get (s : Master) (key : Key) : Status × Option Value :=
  let main := s.mainGet key
  let ilsm := s.ilsmGet key
  if s.kacheFlag = 0 then
    if main.1 = .ok then (.ok, some main.2) else (.notFound, none)
  else if s.rollbackFlag = 1 then
    if s.keyTracker.contains (doubleHash murmur key 1) then
      if ilsm.1 ≥ 0 then (.ok, some ilsm.2) else (.notFound, none)
    else
      if main.1 = .ok then (.ok, some main.2) else (.notFound, none)
  else
    if s.keyTracker.contains (doubleHash murmur key 1) then
      if ilsm.1 ≥ 0 then (.ok, some ilsm.2) else (.notFound, none)
    else
      if main.1 = .ok then (.ok, some main.2) else (.notFound, none)

/-- `DB_MASTER::GetPin`: the status, and the new `*pinnable_val` where Main-LSM's
`Get` assigns it. It takes only values that start with `a`; of an empty string
it looks at the NUL. -/
def getPin (s : Master) (key : Key) : Status × Option Value :=
  let main := s.mainGet key
  if s.kacheFlag = 0 then
    if main.1 = .ok then
      if main.2.headD 0 = 97 then (.ok, some main.2) else (.notFound, some main.2)
    else
      (.notFound, none)
  else
    (.notFound, none)

/-- The locals of `Rollback_Consumer` that live across iterations, with the
records the device iterator has still to deliver. -/
structure Pass where
  flag : Int
  key : Key
  value : Value
  cursor : List (Key × Value)

/-- The body shared by the seek and the next branch: a tracked key loses one
entry and goes to Main-LSM. The list is the `DB::Put` calls made. -/
def migrate (s : Master) (key : Key) (value : Value) :
    List (Key × Value) × Master :=
  if s.keyTracker.contains (doubleHash murmur key 1) then
    ([(key, value)], { s with
      keyTracker := s.keyTracker.delete (doubleHash murmur key 1)
    }.mainPut key value)
  else
    ([], s)

/-- `SeekScan(iter_id, "start")` of an ideal Dev-LSM: the first record of the
scan, or -2 with key and value left alone. -/
def seekScan (order : List (Key × Value)) (p : Pass) : Pass :=
  match order with
  | [] => { p with flag := -2, key := startKey }
  | (k, v) :: rest => { flag := 1, key := k, value := v, cursor := rest }

/-- `NextScan` of an ideal Dev-LSM: the next record, or -3. -/
def nextScan (p : Pass) : Pass :=
  match p.cursor with
  | [] => { p with flag := -3 }
  | (k, v) :: rest => { flag := 1, key := k, value := v, cursor := rest }

/-- `Reset`, `Clear` and the two flags: the end of a pass. -/
def finishPass (s : Master) : Master :=
  { s with dev := ∅, keyTracker := s.keyTracker.clear, kacheFlag := 0,
           rollbackFlag := 0 }

/-- The `while (true)` of `Rollback_Consumer`, with the Main-LSM writes it
makes. `measure i` is what the `i`-th `Monitor_Consumer` call finds. -/
def rollbackLoop (order : List (Key × Value)) (measure : Nat → Level × Int) :
    Nat → Nat → Pass → Master → Option (List (Key × Value) × Master)
  | 0, _, _, _ => none
  | fuel + 1, i, p, s =>
      if p.flag < 0 then
        let p := seekScan order p
        let (w, s) := migrate murmur s p.key p.value
        (rollbackLoop order measure fuel (i + 1) p
          (s.monitor (measure i))).map fun r => (w ++ r.1, r.2)
      else
        let p := nextScan p
        if p.flag = -3 then
          some ([], s.finishPass)
        else
          let (w, s) := migrate murmur s p.key p.value
          (rollbackLoop order measure fuel (i + 1) p
            (s.monitor (measure i))).map fun r => (w ++ r.1, r.2)

def rollbackFuel (s : Master) : Nat := s.dev.records.length + 1

/-- A complete pass of `Rollback_Consumer`, taken when its guard holds. The
locals enter as every pass leaves them: `flag` is -2. -/
def rollbackConsumer (s : Master) (order : List (Key × Value))
    (measure : Nat → Level × Int) : Option (List (Key × Value) × Master) :=
  if s.rollbackStatus ≤ 26 ∧ s.kacheFlag = 1 then
    rollbackLoop murmur (s.dev.scanOrder order) measure s.rollbackFuel 0
      { flag := -2, key := [], value := [], cursor := [] }
      { s with rollbackFlag := 1 }
  else
    some ([], s)

end Calls

/-! ## Runs -/

inductive Op where
  | put (key : Key) (value : Value)
  | get (key : Key)
  | monitor (m : Level × Int)
  | rollback (order : List (Key × Value)) (measure : Nat → Level × Int)

inductive Out where
  | put (st : Status)
  | get (st : Status) (value : Option Value)
  | monitor
  | rollback (writes : List (Key × Value))
deriving DecidableEq

def step (murmur : Murmur) (s : Master) : Op → Option (Out × Master)
  | .put key value =>
      let (st, s) := s.put murmur key value
      some (.put st, s)
  | .get key =>
      let (st, value) := s.get murmur key
      some (.get st value, s)
  | .monitor m => some (.monitor, s.monitor m)
  | .rollback order measure =>
      (s.rollbackConsumer murmur order measure).map fun r =>
        (.rollback r.1, r.2)

def run (murmur : Murmur) : Master → List Op → Option (List Out × Master)
  | s, [] => some ([], s)
  | s, op :: ops =>
      (s.step murmur op).bind fun r =>
        (run murmur r.2 ops).map fun rest => (r.1 :: rest.1, rest.2)

end Master

end Kvaccel.Ref
