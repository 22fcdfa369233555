import Kvaccel.Spec.MapDevice

/-!
# What the driver has sent

The put path seen from outside the host: the commands that reached the device,
in order, with what each `ioctl` returned. `logged` adds that record to any
device and changes nothing else about it, so what is said here of the log holds
whatever the device does with its commands.
-/

namespace Kvaccel.Spec

open Kvaccel.Lib Kvaccel.Ref

abbrev CmdLog := List (NvmeCmd × Int)

/-- The device `exec`, with its commands noted, oldest first. -/
def logged {σ : Type} (exec : Device σ) : Device (σ × CmdLog) := fun cmd d =>
  let r := exec cmd d.1
  (r.1, r.2, d.2 ++ [(cmd, r.1.err)])

/-! ## Records in a table -/

/-- What a record says of its put: four bytes of the key, and the size of the
value as far as 32 bits hold it. -/
abbrev KeySize := Bytes × Nat

def keySize (r : Key × Value) : KeySize := (firstFour r.1, u32 r.2.length)

def tableRecords (data : Mem) (n : Nat) : List KeySize :=
  (parseTable data n).map fun e => (e.1, e.2.2)

/-- The records still in the host's buffer. -/
def bufferRecords (bip : BufferingInfo) : List KeySize :=
  tableRecords bip.kvPair bip.kvPairOffset

/-- The records of a `KV_FLUSH`. -/
def cmdRecords (cmd : NvmeCmd) : List KeySize :=
  tableRecords cmd.data (cmd.cdw13 / 12)

/-! ## Records in a log -/

/-- The records of every table sent. -/
def sentRecords (log : CmdLog) : List KeySize :=
  log.flatMap fun e => if e.1.opcode = .kvFlush then cmdRecords e.1 else []

/-! ## Runs -/

/-- The driver's state after the calls. -/
def afterCalls {σ : Type} (exec : Device σ) (db : DB σ) (cs : List Call) : DB σ :=
  cs.foldl (fun db c => (call exec db c).2) db

/-- A put gets the pages it asks for. -/
def Allocated : Call → Prop
  | .put _ _ out => out.valueLog.isSome ∧ out.kvPair.isSome
  | _ => True

/-- The tables sent and the buffer hold the puts, and the buffer's five fields
agree on how many of them are in it. -/
structure Batched {σ : Type} (db : DB (σ × CmdLog)) (puts : List (Key × Value)) :
    Prop where
  records : sentRecords db.device.2 ++ bufferRecords db.bufferingInfo =
    puts.map fun r => (firstFour r.1, r.2.length)
  pair : db.bufferingInfo.kvPairOffset = db.bufferingInfo.bufferingCnt
  room : db.bufferingInfo.bufferingCnt < limitValueBufferEntry
  init : db.bufferingInfo.isInitRequired = true ↔ bufferRecords db.bufferingInfo = []

end Kvaccel.Spec
