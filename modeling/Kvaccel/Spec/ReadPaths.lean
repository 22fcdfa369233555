import Kvaccel.Ref.Failing

/-!
# What a read is promised

`GetPin` is a second read path beside `Get`, and `PinAgrees` says that it is the
same one. `ReadOutcome` is what the store that a `Get` consults has come to, and
`ReadFaithful` what the caller may conclude from a status.
-/

namespace Kvaccel.Spec

open Kvaccel.Lib Kvaccel.Ref

/-- Both paths find the key or neither does, and they find the same value. -/
structure PinAgrees (murmur : Murmur) (s : Master) (key : Key) : Prop where
  status : (s.getPin key).1 = .ok ↔ (s.get murmur key).1 = .ok
  value : (s.get murmur key).1 = .ok → (s.getPin key).2 = (s.get murmur key).2

inductive ReadOutcome where
  | completed (value : Value)
  | absent
  | failed
deriving DecidableEq

/-- Of Main-LSM's `Get`. -/
def mainOutcome (main : Status × Value) : ReadOutcome :=
  match main.1 with
  | .ok => .completed main.2
  | .notFound => .absent
  | .other _ => .failed

/-- Of the `KV_GET` command, or of the allocation before it. -/
def ilsmOutcome (io : IoResult) (out : Outside) : ReadOutcome :=
  if out.data = false then .failed
  else if io.err = 0 then .completed (io.data.read 0 io.result)
  else if io.err = 0x7C1 then .absent
  else .failed

def getCmd (key : Key) : NvmeCmd where
  opcode := .kvGet
  cdw10 := word (firstFour key)
  cdw12 := DB.replyNlb
  dataLen := maxBufLen

section Read

variable {σ : Type} (murmur : Murmur) (exec : Device σ)

def getIo (s : Reading σ) (key : Key) : IoResult := (exec (getCmd key) s.ilsm.device).1

/-- The outcome of the store that the key is looked up in. -/
def readOutcome (s : Reading σ) (key : Key) (main : Status × Value) (out : Outside) :
    ReadOutcome :=
  if s.kacheFlag ≠ 0 ∧ s.keyTracker.contains (doubleHash murmur key 1) then
    ilsmOutcome (getIo exec s key) out
  else
    mainOutcome main

/-- What a status and an assigned value say of the outcome. -/
structure ReadFaithful (o : ReadOutcome) (st : Status) (value : Option Value) : Prop where
  ok : st = .ok → ∃ v, o = .completed v ∧ value = some v
  notFound : st = .notFound → o = .absent
  other : st ≠ .ok → value = none

end Read

end Kvaccel.Spec
