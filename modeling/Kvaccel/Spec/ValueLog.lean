import Kvaccel.Spec.MapDevice

/-!
# The value log of a batch

What a batch of puts is to the value log: `_Buffering` call after call, from
buffers that a flush has left empty. `stored` are the puts of the calls that
returned 0; a call that finds no memory stores nothing. The record table has
an offset and a size for each of them, and a flush sends the log.

The host's memory is unbounded in the model. `Inside` is what the source's
allocations allow, so a statement about writes speaks of the buffers that
`posix_memalign` returned.
-/

namespace Kvaccel.Spec

open Kvaccel.Lib Kvaccel.Ref

/-! ## Batches -/

/-- What `_Flush` leaves, and `Open`. -/
structure Emptied (bip : BufferingInfo) : Prop where
  init : bip.isInitRequired = true
  offset : bip.valueLogOffset = 0
  pair : bip.kvPairOffset = 0
  cnt : bip.bufferingCnt = 0

/-- A call of `_Buffering`, with what it finds outside. -/
structure BufferCall where
  key : Key
  value : Value
  out : Outside

section Batch

variable {σ : Type}

def bufferAll (db : DB σ) (cs : List BufferCall) : DB σ :=
  cs.foldl (fun db c => (db.buffering c.key c.value c.out).2) db

/-- The puts whose call returned 0. -/
def stored (db : DB σ) : List BufferCall → List (Key × Value)
  | [] => []
  | c :: cs =>
      let r := db.buffering c.key c.value c.out
      (if r.1 = 0 then [(c.key, c.value)] else []) ++ stored r.2 cs

end Batch

/-- The page offset that record `j` of the table has. -/
def recordOffset (bip : BufferingInfo) (j : Nat) : Nat := bip.kvPair.word (12 * j + 4)

/-- The size that record `j` of the table has. -/
def recordSize (bip : BufferingInfo) (j : Nat) : Nat := bip.kvPair.word (12 * j + 8)

/-! ## Bytes -/

/-- After its first NUL a value has nothing but NULs. -/
def NulsTrail (value : Value) : Prop := ∀ b ∈ value.dropWhile (· ≠ 0), b = 0

instance (value : Value) : Decidable (NulsTrail value) :=
  show Decidable (∀ b ∈ value.dropWhile (· ≠ 0), b = 0) from List.decidableBAll _ _

/-- What the device has for record `j` when it has received the log. -/
def receivedValue (bip : BufferingInfo) (d : MapDevice) (j : Nat) : Bytes :=
  d.log.read (4096 * recordOffset bip j) (recordSize bip j)

/-! ## Flushing -/

/-- The `V_FLUSH` commands `cmds` cut the value log of `n` records into pieces
of 128 pages: consecutive, up to the end of the last value, each with the
number of its blocks less one. -/
structure Tiles (bip : BufferingInfo) (n : Nat) (cmds : List NvmeCmd) : Prop where
  total : DB.totalDataLen bip =
    4096 * recordOffset bip (n - 1) + recordSize bip (n - 1)
  sizes : ∀ cmd ∈ cmds, 1 ≤ cmd.cdw13 ∧ cmd.cdw13 ≤ 128 * 4096
  starts : ∀ i cmd, cmds[i]? = some cmd →
    cmd.data = (fun j => bip.valueLog (i * 128 * 4096 + j)) ∧
      ((cmds.take i).map NvmeCmd.cdw13).sum = i * 128 * 4096
  sum : (cmds.map NvmeCmd.cdw13).sum = DB.totalDataLen bip
  inside : ∀ j < n, 4096 * recordOffset bip j + recordSize bip j ≤ DB.totalDataLen bip
  blocks : ∀ cmd ∈ cmds, cmd.cdw12 = pages cmd.cdw13 - 1 ∧ pages cmd.cdw13 - 1 < 65536 ∧
    cmd.dataLen = 4096 * pages cmd.cdw13
  first : ∀ i cmd, cmds[i]? = some cmd → (cmd.cdw14 = 1 ↔ i = 0)

/-- The unsigned subtractions of `_ValueFlush`, each in the rounds that make
it. -/
structure NoUnderflow (bip : BufferingInfo) : Prop where
  lastRecord : 1 ≤ bip.kvPairOffset
  lastPiece : ∀ i, i * limitValueBufferEntry < bip.valueLogOffset →
    bip.valueLogOffset ≤ (i + 1) * limitValueBufferEntry →
    i * limitValueBufferEntry * pageSize ≤ DB.totalDataLen bip
  piece : ∀ i, i * limitValueBufferEntry < bip.valueLogOffset →
    1 ≤ (DB.valueFlushCmd bip i).cdw13

/-! ## Bounds -/

/-- The buffers `_Buffering` inserts into: the ones it has, or fresh ones if it
gets them. -/
def insertsInto (bip : BufferingInfo) (out : Outside) : Option BufferingInfo :=
  if bip.isInitRequired then
    match out.valueLog, out.kvPair with
    | some valueLog, some kvPair => some {
        valueLog, kvPair, valueLogOffset := 0, kvPairOffset := 0,
        isInitRequired := false, bufferingCnt := 0 }
    | _, _ => none
  else
    some bip

/-- Both copies of the insertion end inside their buffers. -/
def Inside (bip : BufferingInfo) (value : Value) : Prop :=
  bip.valueLogOffset * pageSize + value.length ≤ maxValueBufferSize ∧
    (bip.kvPairOffset + 1) * bytesPerKvPairOffset ≤ maxKeyValueBufferSize

/-- Every insertion that the calls make is inside the buffers. -/
def WritesInside {σ : Type} (exec : Device σ) : DB σ → List Call → Prop
  | _, [] => True
  | db, c :: cs =>
      (∀ key value out, c = .put key value out →
        ∀ bip, insertsInto db.bufferingInfo out = some bip → Inside bip value) ∧
      WritesInside exec (call exec db c).2 cs

/-- The values in the buffer after a call. A put into an empty buffer that gets
no memory is not in it. -/
def pendingStep (vs : List Value) : Call → List Value
  | .put _ value out =>
      if vs = [] ∧ (out.valueLog = none ∨ out.kvPair = none) then []
      else if vs.length + 1 = limitValueBufferEntry then []
      else vs ++ [value]
  | .get _ _ _ => vs
  | .createIter _ _ => []

/-- The pages of every batch fit the value log, from pending values `vs` on. -/
def LogFits : List Value → List Call → Prop
  | _, [] => True
  | vs, c :: cs =>
      (∀ key value out, c = .put key value out →
        ¬ (vs = [] ∧ (out.valueLog = none ∨ out.kvPair = none)) →
        pagesOf (vs ++ [value]) ≤ maxValueBufferEntry) ∧
      LogFits (pendingStep vs c) cs

end Kvaccel.Spec
