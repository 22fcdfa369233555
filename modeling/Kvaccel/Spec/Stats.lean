import Kvaccel.Ref.Report
import Kvaccel.Spec.Scans
import Kvaccel.Spec.Sent

/-!
# The driver's statistics

What the statistics are for: an entry per opcode that says how many commands
completed, and no access outside the vectors. The counters of the model are
functions, so an index past the end of a vector has a counter too; it shows
that the index was used, since a counter is zero until then and only grows.
-/

namespace Kvaccel.Spec

open Kvaccel.Lib Kvaccel.Ref

/-- A call of the driver. -/
inductive DriverCall where
  | put (key value : Bytes) (out : Outside)
  | get (key value : Bytes) (out : Outside)
  | scan (c : ScanCall)
  | report

section Calls

variable {σ : Type} (exec : Device σ) (last : σ → IoResult × σ)

/-- What a call leaves, however it ends. -/
def driverCall (db : DB σ) : DriverCall → DB σ
  | .put key value out => (db.put exec key value out).2
  | .get key value out => (db.getThrow exec key out).getD (db.get exec key value out).2.2
  | .scan c => leftBy exec db c
  | .report => (db.report last).2

def driverCalls (db : DB σ) (cs : List DriverCall) : DB σ := cs.foldl (driverCall exec last) db

/-- The device on `NVME_CMD_KV_LAST`, beside a log of the other commands. -/
def loggedLast (last : σ → IoResult × σ) (d : σ × CmdLog) : IoResult × σ × CmdLog :=
  ((last d.1).1, (last d.1).2, d.2)

/-- The driver after the calls, from `Open` on, with its commands noted. -/
def statsAfter (d : σ) (cs : List DriverCall) : DB (σ × CmdLog) :=
  driverCalls (logged exec) (loggedLast last) (DB.opened (d, [])) cs

end Calls

/-- How many commands with this opcode completed with 0. -/
def completed (log : CmdLog) (op : NvmeOpcode) : Nat :=
  log.countP fun e => e.2 = 0 ∧ e.1.opcode = op

section Sound

variable {σ : Type} (db : DB (σ × CmdLog)) (cs : List DriverCall)

/-- `finishOp` has used the index, or a `Report` has. -/
def UsesOp (i : Nat) : Prop := db.opStat i ≠ 0 ∨ .report ∈ cs ∧ i ∈ DB.reportOpReads

/-- `finishPassthru` has used the index, or a `Report` has. -/
def UsesPassthru (i : Nat) : Prop :=
  db.passthruStat i ≠ 0 ∨ .report ∈ cs ∧ i ∈ DB.reportPassthruReads

/-- Every index is in range and every count, an `int`, is the number of
commands. -/
structure StatsSound : Prop where
  op : ∀ i, UsesOp db cs i → i < opStatSize
  passthru : ∀ i, UsesPassthru db cs i → i < passthruStatSize
  count : ∀ op : NvmeOpcode,
    asInt (u32 (db.passthruStat (op.code - 0xA0))) = completed db.device.2 op

end Sound

end Kvaccel.Spec
