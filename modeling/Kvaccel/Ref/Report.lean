import Kvaccel.Ref.Ilsm

/-!
# `Report`: the driver's statistics (`iLSM.cc`, `iLSM.h`)

The driver keeps times and counts in two pairs of vectors: `op_stat` has an
entry for each `iLSMOp`, `passthru_stat` one for each opcode from
`NVME_CMD_KV_PUT` on. Their sizes are literals in the constructor. `Report`
goes through both from the start, looking at every time and at the count of
those that are not zero, and then sends a command of its own.

The times and the text of the report are left out; what is kept is where it
looks, and the command.
-/

namespace Kvaccel.Ref

/-- `op_stat.t.resize(8)`, and `c` with it. -/
def opStatSize : Nat := 8

/-- `passthru_stat.t.resize(9)`, and `c` with it. -/
def passthruStatSize : Nat := 9

/-- `iLSMOp::LAST` -/
def ilsmOpLast : Nat := 8

namespace DB

variable {σ : Type}

/-- The entries of `op_stat` in the first loop. -/
def reportOpReads : List Nat := List.range ilsmOpLast

/-- The entries of `passthru_stat` in the second loop. -/
def reportPassthruReads : List Nat := List.range (nvmeCmdKvLast - 0xA0)

/-- The command at the end. `last` is the device on `NVME_CMD_KV_LAST`, which
is not below `NVME_CMD_KV_LAST`: `nvme_passthru` does not count it, whatever it
comes to. -/
def report (last : σ → IoResult × σ) (db : DB σ) : Int × DB σ :=
  ((last db.device).1.err, { db with device := (last db.device).2 })

end DB

end Kvaccel.Ref
