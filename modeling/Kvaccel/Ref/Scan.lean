import Kvaccel.Ref.Ilsm

/-!
# `SeekScan` and `NextScan`: the bulk range scan (`iLSM.cc`)

A scan fetches records from the device in replies of up to `MAX_BUFLEN`
bytes. A reply starts with 8-byte entries, value length and key, ended by a
zero word; the values follow, each on a block of its own, from the block
after the one the terminator is in. Decoding appends the keys to
`keys[iter_id]` and the values to `values[iter_id]`, and every call hands out
one of each: the key from the front of its list, the value from the back of
the other.

The two `DoBulky` functions differ in the start key they send and in nothing
else, so both are `bulkyScan`.
-/

namespace Kvaccel.Ref

open Kvaccel.Lib

/-- `MAX_CMD_NUM` -/
def maxCmdNum : Nat := 43691

def blockSize : Nat := 4096

/-- The reported breakpoint of a scan that is over. -/
def noNextKey : Nat := 0xFFFFFFFF

/-- The first loop of the decoder: the entries up to a zero word, and where
it stopped. -/
def headerLoop (data : Mem) : Nat → Nat → List (Nat × Bytes) × Nat
  | 0, temp => ([], temp)
  | fuel + 1, temp =>
      if data.word temp = 0 then
        ([], temp)
      else
        let r := headerLoop data fuel (temp + 8)
        ((data.word temp, data.read (temp + 4) 4) :: r.1, r.2)

/-- Blocks a value occupies in the reply. -/
def valueBlocks (len : Nat) : Nat :=
  len / blockSize + (if 0 < len % blockSize then 1 else 0)

/-- The second loop: one value per length, each on a block boundary. Where the
length is negative as an `int` the string's constructor throws; the model goes
on with an empty value. -/
def valueLoop (data : Mem) : List Nat → Nat → List Bytes
  | [], _ => []
  | len :: lens, temp =>
      data.read temp (asInt len).toNat ::
        valueLoop data lens (temp + u32 (valueBlocks len * blockSize))

/-- The keys and the values of a reply. The buffer is page aligned, so the
offset stands for the address in the alignment step. -/
def decodeReply (data : Mem) : List Bytes × List Bytes :=
  let r := headerLoop data maxCmdNum 0
  (r.1.map Prod.snd,
    if data.word r.2 = 0 then
      valueLoop data (r.1.map Prod.fst) (r.2 + (blockSize - r.2 % blockSize))
    else [])

/-! ### The bytes it reads

The same loops, as the ranges of the reply that they read, offset and length. -/

/-- The first loop: the length twice, to test it and to keep it, and the key. -/
def headerReads (data : Mem) : Nat → Nat → List (Nat × Nat)
  | 0, _ => []
  | fuel + 1, temp =>
      if data.word temp = 0 then
        [(temp, 4)]
      else
        (temp, 4) :: (temp, 4) :: (temp + 4, 4) :: headerReads data fuel (temp + 8)

/-- The second loop, up to the length at which the constructor throws. -/
def valueReads : List Nat → Nat → List (Nat × Nat)
  | [], _ => []
  | len :: lens, temp =>
      if asInt len < 0 then
        []
      else
        (temp, len) :: valueReads lens (temp + u32 (valueBlocks len * blockSize))

def decodeReads (data : Mem) : List (Nat × Nat) :=
  let r := headerLoop data maxCmdNum 0
  headerReads data maxCmdNum 0 ++ (r.2, 4) ::
    if data.word r.2 = 0 then
      valueReads (r.1.map Prod.fst) (r.2 + (blockSize - r.2 % blockSize))
    else []

/-! ### The exception

A length that is negative as an `int` makes the constructor throw, and nobody
catches it on the way out of the call. By then the keys of the reply are in
their list, and so are the values before that length. -/

/-- What a reply has added to the two lists when its decoding throws. -/
def decodeThrow (data : Mem) : Option (List Bytes × List Bytes) :=
  let r := headerLoop data maxCmdNum 0
  let lens := r.1.map Prod.fst
  if data.word r.2 = 0 ∧ ∃ len ∈ lens, asInt len < 0 then
    some (r.1.map Prod.snd,
      valueLoop data (lens.takeWhile fun len => 0 ≤ asInt len)
        (r.2 + (blockSize - r.2 % blockSize)))
  else none

namespace DB

variable {σ : Type} (exec : Device σ)

/-- `DoBulkyScan` and `DoBulkyNextScan`: the return value and `*next`. -/
def bulkyScan (db : DB σ) (isSeek : NvmeOpcode) (iterId cdw10 next : Nat)
    (out : Outside) : Int × Nat × DB σ :=
  if out.data = false then
    (-enomem, next, db)
  else
    let r := db.nvmePassthru exec {
      opcode := isSeek
      cdw10 := cdw10
      cdw12 := replyNlb
      cdw13 := iterId
      dataLen := maxBufLen } out.result
    let db := r.2
    if r.1.err < 0 then
      (-1, next, db)
    else if r.1.err = 0x7C1 then
      (-2, next, db)
    else
      let reply := decodeReply r.1.data
      (asInt r.1.result, r.1.result, { db with
        keys := Function.update db.keys iterId (db.keys iterId ++ reply.1)
        values := Function.update db.values iterId
          (db.values iterId ++ reply.2) })

def doBulkyScan (db : DB σ) (isSeek : NvmeOpcode) (iterId : Nat) (key : Bytes)
    (next : Nat) (out : Outside) : Int × Nat × DB σ :=
  db.bulkyScan exec isSeek iterId
    (if key ≠ startKey then word (firstFour key) else 0) next out

def doBulkyNextScan (db : DB σ) (isSeek : NvmeOpcode) (iterId key next : Nat)
    (out : Outside) : Int × Nat × DB σ :=
  db.bulkyScan exec isSeek iterId key next out

/-- `RangeScan`: its loop makes one round. -/
def rangeScan (db : DB σ) (isSeek : NvmeOpcode) (iterId : Nat) (key : Bytes)
    (out : Outside) : Nat × DB σ :=
  let startUint := db.brkPointKey iterId
  let r :=
    if isSeek = .kvRangeScanSeek then
      db.doBulkyScan exec isSeek iterId key out.next out
    else
      db.doBulkyNextScan exec isSeek iterId startUint out.next out
  let db := r.2.2
  if r.1 = -2 ∨ r.2.1 = noNextKey then
    (r.2.1, { db with scanCnt := Function.update db.scanCnt iterId 0xFFFFFFFF })
  else
    (r.2.1, db)

/-- `brk_point_key[iter_id] = RangeScan(…)` -/
def refill (db : DB σ) (isSeek : NvmeOpcode) (iterId : Nat) (key : Bytes)
    (out : Outside) : DB σ :=
  let r := db.rangeScan exec isSeek iterId key out
  { r.2 with brkPointKey := Function.update r.2.brkPointKey iterId r.1 }

/-- `values[iter_id].back()` and `keys[iter_id].front()`, both popped;
nothing when there is no value. The front of an empty list is read as
empty. -/
def popRecord (db : DB σ) (iterId : Nat) : Option (Bytes × Bytes × DB σ) :=
  match (db.values iterId).getLast? with
  | none => none
  | some value =>
      some ((db.keys iterId).headD [], value, { db with
        values := Function.update db.values iterId (db.values iterId).dropLast
        keys := Function.update db.keys iterId (db.keys iterId).tail })

/-- `this->iter_values[iter_id] = value; this->iter_keys[iter_id] = key` -/
def noteIter (db : DB σ) (iterId : Nat) (key value : Bytes) : DB σ :=
  { db with
    iterKeys := Function.update db.iterKeys iterId key
    iterValues := Function.update db.iterValues iterId value }

/-- `SeekScan(iter_id, key, value)`: the return value, `key` and `value`
afterwards. -/
def seekScan (db : DB σ) (iterId : Nat) (key value : Bytes) (out : Outside) :
    Int × Bytes × Bytes × DB σ :=
  let db := { db with scanCnt := Function.update db.scanCnt iterId 1 }
  let db := db.refill exec .kvRangeScanSeek iterId key out
  match db.popRecord iterId with
  | some (key, value, db) => (1, key, value, (db.noteIter iterId key value).finishOp 3)
  | none => (-2, key, value, db.finishOp 3)

/-- `NextScan(iter_id, key, value)`. The branch that fetches does not touch
`iter_keys` and `iter_values`. -/
def nextScan (db : DB σ) (iterId : Nat) (key value : Bytes) (out : Outside) :
    Int × Bytes × Bytes × DB σ :=
  match db.popRecord iterId with
  | some (key, value, db) => (1, key, value, (db.noteIter iterId key value).finishOp 4)
  | none =>
      if db.brkPointKey iterId = noNextKey then
        (-3, key, value, db.finishOp 4)
      else
        let db := db.refill exec .kvRangeScanNext iterId [] out
        match db.popRecord iterId with
        | some (key, value, db) => (1, key, value, db.finishOp 4)
        | none => (-2, key, value, db.finishOp 4)

/-! ### Calls that throw -/

/-- `Get`, where the value's length is negative as an `int`: the command is
counted, the call is not. -/
def getThrow (db : DB σ) (key : Bytes) (out : Outside) : Option (DB σ) :=
  if out.data = false then
    none
  else
    let r := db.nvmePassthru exec {
      opcode := .kvGet
      cdw10 := word (firstFour key)
      cdw12 := replyNlb
      dataLen := maxBufLen } out.result
    if 0 ≤ r.1.err ∧ r.1.err ≠ 0x7C1 ∧ asInt r.1.result < 0 then some r.2 else none

/-- The two `DoBulky` functions where the decoding throws: what is left. -/
def bulkyScanThrow (db : DB σ) (isSeek : NvmeOpcode) (iterId cdw10 : Nat)
    (out : Outside) : Option (DB σ) :=
  if out.data = false then
    none
  else
    let r := db.nvmePassthru exec {
      opcode := isSeek
      cdw10 := cdw10
      cdw12 := replyNlb
      cdw13 := iterId
      dataLen := maxBufLen } out.result
    let db := r.2
    if r.1.err < 0 ∨ r.1.err = 0x7C1 then
      none
    else
      (decodeThrow r.1.data).map fun reply => { db with
        keys := Function.update db.keys iterId (db.keys iterId ++ reply.1)
        values := Function.update db.values iterId (db.values iterId ++ reply.2) }

/-- `RangeScan` gets no further, so `brk_point_key` and `scan_cnt` are not
assigned. -/
def rangeScanThrow (db : DB σ) (isSeek : NvmeOpcode) (iterId : Nat) (key : Bytes)
    (out : Outside) : Option (DB σ) :=
  db.bulkyScanThrow exec isSeek iterId
    (if isSeek = .kvRangeScanSeek then
      (if key ≠ startKey then word (firstFour key) else 0)
    else db.brkPointKey iterId) out

def seekScanThrow (db : DB σ) (iterId : Nat) (key : Bytes) (out : Outside) :
    Option (DB σ) :=
  let db := { db with scanCnt := Function.update db.scanCnt iterId 1 }
  db.rangeScanThrow exec .kvRangeScanSeek iterId key out

def nextScanThrow (db : DB σ) (iterId : Nat) (out : Outside) : Option (DB σ) :=
  if db.values iterId = [] ∧ db.brkPointKey iterId ≠ noNextKey then
    db.rangeScanThrow exec .kvRangeScanNext iterId [] out
  else
    none

end DB

end Kvaccel.Ref
