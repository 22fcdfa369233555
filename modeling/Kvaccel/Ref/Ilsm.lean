import Mathlib.Data.List.Basic
import Mathlib.Logic.Function.Basic
import Kvaccel.Ref.Keys

/-!
# `iLSM::DB`: the host side of Dev-LSM (`iLSM.cc`)

The driver for the key-value device. A put is copied into two host buffers,
the value log (one value per 4 KiB slot run) and the table of 12-byte
records, and both reach the device only when the table holds 128 records or
an iterator is created. Everything else is one NVMe command per call.

The device is a parameter: `exec` answers a command with an ioctl result, a
result word and the contents of the data buffer, and moves to its next state.
Three more things come from outside a call and are collected in `Outside`:
the outcome of each `posix_memalign`, with the garbage the fresh pages hold,
and the initial contents of the locals the source leaves uninitialised.

Unsigned arithmetic wraps. Words are naturals and every operation that the
source does in `unsigned int` is reduced modulo 2^32 here, the one in
`size_t` modulo 2^64.
-/

namespace Kvaccel.Ref

open Kvaccel.Lib

def pageSize : Nat := 4096

def maxBufLen : Nat := 508 * 1024

def limitValueBufferEntry : Nat := 128

def maxValueBufferEntry : Nat := 341

def maxValueBufferSize : Nat := maxValueBufferEntry * pageSize

def bytesPerKvPairOffset : Nat := 12

def maxKeyValueBufferSize : Nat :=
  (maxValueBufferEntry * bytesPerKvPairOffset / pageSize + 1) * pageSize

def enomem : Int := 12

def u32 (n : Nat) : Nat := n % 4294967296

/-- A 32-bit word returned as an `int`. -/
def asInt (n : Nat) : Int :=
  if n < 2147483648 then n else (n : Int) - 4294967296

inductive NvmeOpcode where
  | kvPut
  | kvGet
  | kvDelete
  | kvIterCreateIter
  | kvIterSeek
  | kvIterNext
  | kvIterDestroyIter
  | kvRangeScanSeek
  | kvRangeScanNext
  | kvReset
  | vFlush
  | kvFlush
deriving DecidableEq, Repr

def NvmeOpcode.code : NvmeOpcode → Nat
  | .kvPut => 0xA0
  | .kvGet => 0xA1
  | .kvDelete => 0xA2
  | .kvIterCreateIter => 0xA3
  | .kvIterSeek => 0xA4
  | .kvIterNext => 0xA5
  | .kvIterDestroyIter => 0xA6
  | .kvRangeScanSeek => 0xA7
  | .kvRangeScanNext => 0xA8
  | .kvReset => 0xAA
  | .vFlush => 0xAB
  | .kvFlush => 0xAC

def nvmeCmdKvLast : Nat := 0xAD

theorem NvmeOpcode.code_lt (op : NvmeOpcode) : op.code < nvmeCmdKvLast := by
  cases op <;> decide

/-- The fields of a command that some caller sets, with the memory `data`
points at. -/
structure NvmeCmd where
  opcode : NvmeOpcode
  cdw10 : Nat := 0
  cdw12 : Nat := 0
  cdw13 : Nat := 0
  cdw14 : Nat := 0
  data : Mem := fun _ => 0
  dataLen : Nat := 0

structure IoResult where
  /-- What `ioctl` returned: negative, 0, or an NVMe status. -/
  err : Int
  result : Nat
  data : Mem

def Device (σ : Type) := NvmeCmd → σ → IoResult × σ

structure Outside where
  /-- The pages of `value_log_addr`, or a failed allocation. -/
  valueLog : Option Mem
  /-- The pages of `KV_pair_addr`, or a failed allocation. -/
  kvPair : Option Mem
  /-- Whether the reply buffer could be allocated. -/
  data : Bool
  /-- `uint32_t result` before the command. -/
  result : Nat
  /-- `unsigned int next` of `RangeScan`. -/
  next : Nat

/-- Every allocation succeeds, and every page and word is zero. -/
def Outside.fine : Outside where
  valueLog := some fun _ => 0
  kvPair := some fun _ => 0
  data := true
  result := 0
  next := 0

/-- The first `posix_memalign` of a batch fails. -/
def noPages : Outside := { Outside.fine with valueLog := none }

structure BufferingInfo where
  isInitRequired : Bool
  valueLog : Mem
  valueLogOffset : Nat
  kvPair : Mem
  kvPairOffset : Nat
  bufferingCnt : Nat

/-- The object and the file's globals, over a device with states `σ`. The
arrays indexed by iterator are functions: an index past their end is a
question for the caller. -/
structure DB (σ : Type) where
  bufferingInfo : BufferingInfo
  keys : Nat → List Bytes
  values : Nat → List Bytes
  scanCnt : Nat → Nat
  brkPointKey : Nat → Nat
  iterKeys : Nat → Bytes
  iterValues : Nat → Bytes
  opStat : Nat → Nat
  passthruStat : Nat → Nat
  device : σ

namespace DB

variable {σ : Type} (exec : Device σ)

/-- The object after a successful `Open`: a global, so zero where `Open` and
the constructor leave it alone. -/
def opened (device : σ) : DB σ where
  bufferingInfo := {
    isInitRequired := true
    valueLog := fun _ => 0
    valueLogOffset := 0
    kvPair := fun _ => 0
    kvPairOffset := 0
    bufferingCnt := 0 }
  keys := fun _ => []
  values := fun _ => []
  scanCnt := fun _ => 0
  brkPointKey := fun _ => 0
  iterKeys := fun _ => []
  iterValues := fun _ => []
  opStat := fun _ => 0
  passthruStat := fun _ => 0
  device := device

/-- `finishOp`, less the clock. -/
def finishOp (db : DB σ) (op : Nat) : DB σ :=
  { db with opStat := Function.update db.opStat op (db.opStat op + 1) }

/-- `finishPassthru`, less the clock. -/
def finishPassthru (db : DB σ) (opcode : NvmeOpcode) : DB σ :=
  let idx := opcode.code - NvmeOpcode.kvPut.code
  { db with
    passthruStat := Function.update db.passthruStat idx (db.passthruStat idx + 1) }

/-- One command. `result` is the caller's variable, assigned only when the
ioctl returned 0. -/
def nvmePassthru (db : DB σ) (cmd : NvmeCmd) (result : Nat) :
    IoResult × DB σ :=
  let r := exec cmd db.device
  let db := { db with device := r.2 }
  if r.1.err = 0 ∧ cmd.opcode.code < nvmeCmdKvLast then
    (r.1, db.finishPassthru cmd.opcode)
  else
    ({ r.1 with result := result }, db)

theorem nvmePassthru_ok {exec : Device σ} {db : DB σ} {cmd : NvmeCmd}
    {result : Nat} (h : (exec cmd db.device).1.err = 0) :
    db.nvmePassthru exec cmd result = ((exec cmd db.device).1,
      ({ db with device := (exec cmd db.device).2 }).finishPassthru
        cmd.opcode) := by
  unfold nvmePassthru
  rw [if_pos ⟨h, cmd.opcode.code_lt⟩]

/-- One command, whatever it comes to. -/
theorem nvmePassthru_eq (exec : Device σ) (db : DB σ) (cmd : NvmeCmd) (result : Nat) :
    ∃ stat, db.nvmePassthru exec cmd result =
      ({ (exec cmd db.device).1 with
          result := if (exec cmd db.device).1.err = 0 then (exec cmd db.device).1.result
            else result },
        { db with device := (exec cmd db.device).2, passthruStat := stat }) := by
  by_cases h : (exec cmd db.device).1.err = 0
  · refine ⟨(db.finishPassthru cmd.opcode).passthruStat, ?_⟩
    rw [nvmePassthru_ok h, if_pos h]
    simp only [finishPassthru]
  · refine ⟨db.passthruStat, ?_⟩
    unfold nvmePassthru
    rw [if_neg fun hok => h hok.1, if_neg h]

theorem nvmePassthru_bufferingInfo (exec : Device σ) (db : DB σ) (cmd : NvmeCmd)
    (result : Nat) :
    (db.nvmePassthru exec cmd result).2.bufferingInfo = db.bufferingInfo := by
  simp only [nvmePassthru]
  split <;> rfl

theorem nvmePassthru_device (exec : Device σ) (db : DB σ) (cmd : NvmeCmd)
    (result : Nat) :
    (db.nvmePassthru exec cmd result).2.device = (exec cmd db.device).2 := by
  simp only [nvmePassthru]
  split <;> rfl

/-- The caller sees what `ioctl` returned. -/
theorem nvmePassthru_err (exec : Device σ) (db : DB σ) (cmd : NvmeCmd) (result : Nat) :
    (db.nvmePassthru exec cmd result).1.err = (exec cmd db.device).1.err := by
  simp only [nvmePassthru]
  split <;> rfl

/-! ## The put buffer -/

/-- `strncpy(dst, src.c_str(), src.size())`: up to the first NUL, then
zeros. -/
def strncpy (src : Bytes) : Bytes :=
  let copied := src.takeWhile (· ≠ 0)
  copied ++ List.replicate (src.length - copied.length) 0

/-- `(value.size() - 1) / PAGE_SIZE`, in `size_t` and then narrowed. -/
def valueNlb (size : Nat) : Nat :=
  u32 ((size + (2 ^ 64 - 1)) % 2 ^ 64 / pageSize)

/-- The two copies of `_Buffering`, once there are buffers. -/
def bufferInsert (bip : BufferingInfo) (key value : Bytes) : BufferingInfo :=
  let nlb := valueNlb value.length
  let vOffset := u32 (bip.valueLogOffset * pageSize)
  let kvOffset := u32 (bip.kvPairOffset * bytesPerKvPairOffset)
  { bip with
    valueLog := bip.valueLog.write vOffset (strncpy value)
    kvPair := bip.kvPair.write kvOffset
      (firstFour key ++ le32 bip.valueLogOffset ++ le32 value.length)
    kvPairOffset := u32 (bip.kvPairOffset + 1)
    valueLogOffset := u32 (bip.valueLogOffset + (nlb + 1))
    bufferingCnt := u32 (bip.bufferingCnt + 1) }

def buffering (db : DB σ) (key value : Bytes) (out : Outside) : Int × DB σ :=
  let bip := db.bufferingInfo
  if bip.isInitRequired then
    match out.valueLog with
    | none => (-enomem, db)
    | some valueLog =>
        match out.kvPair with
        | none => (-enomem, { db with bufferingInfo := { bip with valueLog } })
        | some kvPair =>
            let bip := {
              valueLog, kvPair, valueLogOffset := 0, kvPairOffset := 0,
              isInitRequired := false, bufferingCnt := 0 }
            (0, { db with bufferingInfo := bufferInsert bip key value })
  else
    (0, { db with bufferingInfo := bufferInsert bip key value })

/-- Bytes of the value log in use: up to the end of the last record's
value. -/
def totalDataLen (bip : BufferingInfo) : Nat :=
  let kvAddr :=
    u32 ((bip.kvPairOffset + (4294967296 - 1)) * bytesPerKvPairOffset)
  u32 (bip.kvPair.word (kvAddr + 4) * pageSize + bip.kvPair.word (kvAddr + 8))

/-- The command `_ValueFlush` issues in iteration `i`. -/
def valueFlushCmd (bip : BufferingInfo) (i : Nat) : NvmeCmd :=
  let vCnt := bip.valueLogOffset
  let start := u32 (i * limitValueBufferEntry * pageSize)
  let cdw13 :=
    if vCnt ≤ u32 ((i + 1) * limitValueBufferEntry) then
      u32 (totalDataLen bip + (4294967296 - start))
    else
      limitValueBufferEntry * pageSize
  let nlb := u32 (cdw13 + (4294967296 - 1)) / pageSize
  { opcode := .vFlush
    cdw12 := nlb % 65536
    cdw13 := cdw13
    cdw14 := if i = 0 then 1 else 0
    data := fun j => bip.valueLog (start + j)
    dataLen := u32 ((nlb + 1) * pageSize) }

/-- The loop of `_ValueFlush` from iteration `i` on. The bound is the number
of pages, of which every iteration covers at least one. -/
def valueFlushLoop (bip : BufferingInfo) (result : Nat) :
    Nat → Nat → DB σ → Int × DB σ
  | 0, _, db => (0, db)
  | fuel + 1, i, db =>
      if u32 (i * limitValueBufferEntry) < bip.valueLogOffset then
        let r := db.nvmePassthru exec (valueFlushCmd bip i) result
        if r.1.err < 0 then (-1, r.2)
        else valueFlushLoop bip result fuel (i + 1) r.2
      else
        (0, db)

def valueFlush (db : DB σ) (out : Outside) : Int × DB σ :=
  valueFlushLoop exec db.bufferingInfo out.result
    db.bufferingInfo.valueLogOffset 0 db

def keyValueFlushCmd (bip : BufferingInfo) : NvmeCmd :=
  let dataLen := u32 (bip.kvPairOffset * bytesPerKvPairOffset)
  let nlb := u32 (dataLen + (4294967296 - 1)) / pageSize
  { opcode := .kvFlush
    cdw12 := nlb % 65536
    cdw13 := dataLen
    data := bip.kvPair
    dataLen := u32 ((nlb + 1) * pageSize) }

def keyValueFlush (db : DB σ) (out : Outside) : Int × DB σ :=
  let r := db.nvmePassthru exec (keyValueFlushCmd db.bufferingInfo) out.result
  if r.1.err < 0 then (-2, r.2) else (0, r.2)

/-- The tail of `_Flush`: both buffers freed, every counter zero. -/
def release (db : DB σ) : DB σ :=
  { db with bufferingInfo := {
      isInitRequired := true
      valueLog := fun _ => 0
      valueLogOffset := 0
      kvPair := fun _ => 0
      kvPairOffset := 0
      bufferingCnt := 0 } }

/-- `_Flush`: an error of either command is printed and forgotten. -/
def flush (db : DB σ) (out : Outside) : DB σ :=
  let db := (db.valueFlush exec out).2
  let db := (db.keyValueFlush exec out).2
  db.release

def put (db : DB σ) (key value : Bytes) (out : Outside) : Int × DB σ :=
  let (ret, db) := db.buffering key value out
  if db.bufferingInfo.kvPairOffset = limitValueBufferEntry then
    (ret, (db.flush exec out).finishOp 0)
  else
    (ret, db.finishOp 0)

/-! ## Single commands -/

/-- The command of the unbuffered `_Put`, from pages that held `fresh`. -/
def plainPutCmd (fresh : Mem) (key value : Bytes) : NvmeCmd :=
  let nlb := u32 (u32 value.length + (4294967296 - 1)) / pageSize
  { opcode := .kvPut
    cdw10 := word (firstFour key)
    cdw12 := nlb % 65536
    cdw13 := u32 value.length
    data := fresh.write 0 value
    dataLen := u32 ((nlb + 1) * pageSize) }

/-- `_Put` without `BUFFERING_MODE`; `fresh` is its allocation. -/
def plainPut (db : DB σ) (key value : Bytes) (fresh : Option Mem) (result : Nat) :
    Int × DB σ :=
  match fresh with
  | none => (-enomem, db)
  | some fresh =>
      let r := db.nvmePassthru exec (plainPutCmd fresh key value) result
      if r.1.err < 0 then
        (-1, r.2)
      else if r.1.result ≠ 0 then
        (-1, r.2)
      else
        (0, r.2)

/-- `0xFFFF & nlb` of a full reply buffer. -/
def replyNlb : Nat := (maxBufLen - 1) / pageSize % 65536

/-- `Get(key, value)`: the return value and `value` afterwards. A length past
the range of `int` makes the source's string constructor throw; the string
is left empty there. The reply buffer has `MAX_BUFLEN` bytes and nothing
compares the length with that: the bytes that the source then takes from
behind the buffer are zeros here. -/
def get (db : DB σ) (key value : Bytes) (out : Outside) :
    Int × Bytes × DB σ :=
  if out.data = false then
    (-enomem, value, db.finishOp 1)
  else
    let r := db.nvmePassthru exec {
      opcode := .kvGet
      cdw10 := word (firstFour key)
      cdw12 := replyNlb
      dataLen := maxBufLen } out.result
    let db := r.2.finishOp 1
    if r.1.err < 0 then
      (-1, value, db)
    else if r.1.err = 0x7C1 then
      (-2, value, db)
    else if 0 < r.1.result then
      (asInt r.1.result, (r.1.data.upTo maxBufLen).read 0 (asInt r.1.result).toNat, db)
    else
      (asInt r.1.result, [], db)

/-- Whatever a get returns, the driver has sent at most the one command. -/
theorem get_db (exec : Device σ) (db : DB σ) (key value : Bytes) (out : Outside) :
    (db.get exec key value out).2.2 =
      (if out.data = false then db else (db.nvmePassthru exec {
        opcode := .kvGet
        cdw10 := word (firstFour key)
        cdw12 := replyNlb
        dataLen := maxBufLen } out.result).2).finishOp 1 := by
  unfold get
  split
  · rfl
  · simp only []
    repeat' split
    all_goals rfl

def createIterCmd (db : DB σ) (iterId : Nat) (out : Outside) : Int × Nat × DB σ :=
  let r := db.nvmePassthru exec { opcode := .kvIterCreateIter } out.result
  let db := r.2.finishOp 2
  if r.1.err < 0 then
    (-1, iterId, db)
  else if r.1.err = 0x7C1 then
    (-2, iterId, db)
  else
    (0, r.1.result, db)

theorem createIterCmd_db (exec : Device σ) (db : DB σ) (iterId : Nat) (out : Outside) :
    (db.createIterCmd exec iterId out).2.2 =
      (db.nvmePassthru exec { opcode := .kvIterCreateIter } out.result).2.finishOp 2 := by
  unfold createIterCmd
  simp only []
  repeat' split
  all_goals rfl

/-- `CreateIter(iter_id)`: the return value and `iter_id` afterwards. -/
def createIter (db : DB σ) (iterId : Nat) (out : Outside) : Int × Nat × DB σ :=
  (if db.bufferingInfo.bufferingCnt ≠ 0 then db.flush exec out else db).createIterCmd
    exec iterId out

/-- `DestroyIter(iter_id)`: it empties `values[iter_id]` and leaves
`keys[iter_id]`. -/
def destroyIter (db : DB σ) (iterId : Nat) (out : Outside) : Int × DB σ :=
  let r := db.nvmePassthru exec {
    opcode := .kvIterDestroyIter
    cdw13 := iterId } out.result
  let db := r.2.finishOp 5
  if r.1.err < 0 then
    (-1, db)
  else if r.1.err = 0x7C1 then
    (-2, db)
  else
    (asInt r.1.result, { db with values := Function.update db.values iterId [] })

/-- `Reset()`: `keys->clear()` is `keys[0]`, and likewise for the values. -/
def reset (db : DB σ) (out : Outside) : Int × DB σ :=
  let db := { db with
    keys := Function.update db.keys 0 []
    values := Function.update db.values 0 [] }
  let r := db.nvmePassthru exec {
    opcode := .kvReset
    dataLen := maxBufLen } out.result
  (r.1.err, r.2)

end DB

end Kvaccel.Ref
