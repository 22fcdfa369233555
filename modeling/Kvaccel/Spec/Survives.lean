import Kvaccel.Ref.Failing
import Kvaccel.Spec.Sent
import Kvaccel.Spec.ValueLog

/-!
# No acknowledged record is lost

What a caller may conclude from an OK. A redirected put that was acknowledged
is in the host's buffer or in a batch that the device accepted, key and value,
and stays there; a put whose record could not be kept is refused and leaves no
trace in the tracker. A rollback that erases Dev-LSM has stored every tracked
record in Main-LSM first, by a write that returned OK.

A flush is some `V_FLUSH` commands and one `KV_FLUSH`. The batch is accepted
when all of them completed with 0: the values without the table are not
reachable, and the table without the values points nowhere. What is accepted is
read from the commands: the value log laid out as they say, and in it the bytes
that the table names.
-/

namespace Kvaccel.Spec

open Kvaccel.Lib Kvaccel.Ref

section Remnants

/-- What is left of a put: the four bytes that stand for the key, if it has as
many, and the value, if there is one. -/
abbrev Remnant := Option Bytes × Option Value

/-- All of it. -/
def whole (r : Key × Value) : Remnant := (fourBytes r.1, some r.2)

/-- What a record of a table comes to with the value log `log`. The log has
`MAX_VALUE_BUFFER_SIZE` bytes, and no value is read past them. -/
def remnant (log : Mem) (e : Entry) : Remnant :=
  (some e.1,
    if 4096 * e.2.1 + e.2.2 ≤ maxValueBufferSize then some (log.read (4096 * e.2.1) e.2.2)
    else none)

def bufferRemnants (bip : BufferingInfo) : List Remnant :=
  (parseTable bip.kvPair bip.kvPairOffset).map (remnant bip.valueLog)

structure Acceptance where
  /-- Every `V_FLUSH` since the last table completed with 0. -/
  staged : Bool
  /-- A device that has the value log as the `V_FLUSH` commands lay it out. -/
  device : MapDevice
  records : List Remnant

def acceptCmd (a : Acceptance) (e : NvmeCmd × Int) : Acceptance :=
  match e.1.opcode with
  | .vFlush =>
      { a with
        staged := a.staged && e.2 == 0
        device := (MapDevice.exec e.1 a.device).2 }
  | .kvFlush =>
      { a with
        staged := true
        records := a.records ++
          if a.staged && e.2 == 0 then
            (parseTable e.1.data (e.1.cdw13 / 12)).map (remnant a.device.log)
          else [] }
  | _ => a

def acceptance (log : CmdLog) : Acceptance := log.foldl acceptCmd ⟨true, .empty, []⟩

/-- The records of the batches that the device accepted. -/
def acceptedRecords (log : CmdLog) : List Remnant := (acceptance log).records

end Remnants

section Redirect

variable {σ : Type} (murmur : Murmur) (exec : Device σ)

/-- The records that are in a batch the device accepted, or in the buffer. -/
def keptRecords (db : DB (σ × CmdLog)) : List Remnant :=
  acceptedRecords db.device.2 ++ bufferRemnants db.bufferingInfo

/-- The puts that returned OK. -/
def acknowledged (s : Redirect (σ × CmdLog)) : List PutCall → List (Key × Value)
  | [] => []
  | c :: cs =>
      let r := s.put murmur (logged exec) c
      if r.1 = .ok then (c.key, c.value) :: acknowledged r.2 cs
      else acknowledged r.2 cs

/-- The puts `cs` from `s` on. -/
structure Survives (s : Redirect (σ × CmdLog)) (cs : List PutCall) : Prop where
  acknowledged : keptRecords (s.after murmur (logged exec) cs).ilsm =
    keptRecords s.ilsm ++ (acknowledged murmur exec s cs).map whole
  refused : ∀ pre c post, cs = pre ++ c :: post →
    let t := s.after murmur (logged exec) pre
    let r := t.put murmur (logged exec) c
    keptRecords r.2.ilsm ≠ keptRecords t.ilsm ++ [whole (c.key, c.value)] →
      r.1 ≠ .ok ∧ r.2.keyTracker = t.keyTracker

/-- Every `posix_memalign` that a put makes succeeds, and every command sent
completes with 0. -/
structure NothingFails (s : Redirect (σ × CmdLog)) (cs : List PutCall) : Prop where
  pages : ∀ pre c post, cs = pre ++ c :: post →
    (s.after murmur (logged exec) pre).ilsm.bufferingInfo.isInitRequired = true →
      c.out.valueLog.isSome ∧ c.out.kvPair.isSome
  commands : ∀ e ∈ (s.after murmur (logged exec) cs).ilsm.device.2, e.2 = 0

/-- A put whose key has four bytes with its NUL, and whose value survives a
`strncpy`. -/
def Copyable (c : PutCall) : Prop := 3 ≤ c.key.length ∧ NulsTrail c.value

end Redirect

section Pass

/-- After a pass from `s` to `s'` that made the attempts `w`, each tracked key
of `K` has been written to Main-LSM, itself and with the value that Dev-LSM had
of it, by a write that returned OK, or it is tracked still and has its record
in Dev-LSM. -/
def LosesNothing (murmur : Murmur) (K : Set Key) (s s' : Master)
    (w : List Master.Attempt) : Prop :=
  ∀ k ∈ K, s.keyTracker.contains (doubleHash murmur k 1) = true →
    (∃ v, s.dev.lookup (firstFour k) = some v ∧ ((k, v), .ok) ∈ w) ∨
      s'.dev.lookup (firstFour k) = s.dev.lookup (firstFour k) ∧
        s'.keyTracker.contains (doubleHash murmur k 1) = true

/-- How many `DB::Put` calls a pass makes: one for each record of a tracked
key. -/
def attemptCount (murmur : Murmur) (s : Master) : Nat :=
  (s.dev.records.filter fun r => s.keyTracker.contains (doubleHash murmur r.1 1)).length

end Pass

end Kvaccel.Spec
