import Kvaccel.Ref.Scan

/-!
# What a scan is promised

The device's side of a range scan. `Layout` says that a reply buffer holds a
list of records the way the decoder reads it: entries of length and key up to
a zero word, then the values on blocks of their own. `Serves` says that the
device answers a scan with the given batches, one per command, each started
at the breakpoint the reply before it reported, and reports the end with the
last one.

`encodeReply` builds such a buffer and `batchDevice` such a device.
-/

namespace Kvaccel.Spec

open Kvaccel.Lib Kvaccel.Ref

abbrev Record := Key × Value

/-- The entries of `b` from offset `pos` on, and the zero word after them. -/
def HeaderAt (data : Mem) : List Record → Nat → Prop
  | [], pos => data.word pos = 0
  | r :: b, pos =>
      data.word pos = r.2.length ∧ data.read (pos + 4) 4 = r.1 ∧
        HeaderAt data b (pos + 8)

/-- The values, each starting on the block after the one before it. -/
def ValuesAt (data : Mem) : List Value → Nat → Prop
  | [], _ => True
  | v :: vs, pos =>
      data.read pos v.length = v ∧
        ValuesAt data vs (pos + valueBlocks v.length * blockSize)

def valueStart (n : Nat) : Nat := 8 * n + (blockSize - 8 * n % blockSize)

def valuesEnd : List Value → Nat → Nat
  | [], pos => pos
  | v :: vs, pos => valuesEnd vs (pos + valueBlocks v.length * blockSize)

/-- The buffer holds the records `b`, none with an empty value. -/
structure Layout (data : Mem) (b : List Record) : Prop where
  header : HeaderAt data b 0
  values : ValuesAt data (b.map Prod.snd) (valueStart b.length)
  nonempty : ∀ v ∈ b.map Prod.snd, v ≠ []
  fits : valuesEnd (b.map Prod.snd) (valueStart b.length) ≤ maxBufLen

def scanCmd (opcode : NvmeOpcode) (start iterId : Nat) : NvmeCmd where
  opcode := opcode
  cdw10 := start
  cdw12 := DB.replyNlb
  cdw13 := iterId
  dataLen := maxBufLen

/-! ## What the host takes from a command -/

/-- There is a buffer for the reply, and neither of the two tests for an error
is met. A positive status other than `0x7C1` meets none. -/
def Accepted (io : IoResult) (out : Outside) : Prop :=
  out.data = true ∧ 0 ≤ io.err ∧ io.err ≠ 0x7C1

instance (io : IoResult) (out : Outside) : Decidable (Accepted io out) :=
  show Decidable (out.data = true ∧ 0 ≤ io.err ∧ io.err ≠ 0x7C1) from inferInstance

/-- The keys and the values that are added to the lists. -/
def fetched (io : IoResult) (out : Outside) : List Bytes × List Bytes :=
  if Accepted io out then decodeReply io.data else ([], [])

/-- `result` after the command, which assigns it only if it succeeds. -/
def resultAfter (io : IoResult) (out : Outside) : Nat :=
  if io.err = 0 then io.result else out.result

/-- What `RangeScan` returns: `next`, which a function that returns early leaves
as it was. -/
def nextAfter (io : IoResult) (out : Outside) : Nat :=
  if Accepted io out then resultAfter io out else out.next

section Device

variable {σ : Type} (exec : Device σ) (iterId : Nat)

/-- The start key of the command. -/
def scanStart (db : DB σ) (isSeek : NvmeOpcode) (key : Bytes) : Nat :=
  if isSeek = .kvRangeScanSeek then
    (if key ≠ startKey then word (firstFour key) else 0)
  else db.brkPointKey iterId

/-- The outcome of the command. -/
def scanIo (db : DB σ) (isSeek : NvmeOpcode) (start : Nat) : IoResult :=
  (exec (scanCmd isSeek start iterId) db.device).1

/-- The device answers this scan command with the batch `b`. -/
structure Answers (opcode : NvmeOpcode) (start : Nat) (b : List Record)
    (st : σ) : Prop where
  ok : (exec (scanCmd opcode start iterId) st).1.err = 0
  some : b ≠ []
  layout : Layout (exec (scanCmd opcode start iterId) st).1.data b

/-- With `brk` reported, the device has exactly the batches of the list left:
it continues at `brk`, and `brk` is the end mark when there are none. -/
def Feeds : List (List Record) → Nat → σ → Prop
  | [], brk, _ => brk = noNextKey
  | b :: rest, brk, st =>
      brk ≠ noNextKey ∧ Answers exec iterId .kvRangeScanNext brk b st ∧
        Feeds rest (exec (scanCmd .kvRangeScanNext brk iterId) st).1.result
          (exec (scanCmd .kvRangeScanNext brk iterId) st).2

/-- A scan from `start` is answered with the batches of the list. -/
def Serves (start : Nat) : List (List Record) → σ → Prop
  | [], _ => False
  | b :: rest, st =>
      Answers exec iterId .kvRangeScanSeek start b st ∧
        Feeds exec iterId rest
          (exec (scanCmd .kvRangeScanSeek start iterId) st).1.result
          (exec (scanCmd .kvRangeScanSeek start iterId) st).2

end Device

/-! ## A device that does so -/

def padded (v : Value) : Bytes :=
  v ++ List.replicate (valueBlocks v.length * blockSize - v.length) 0

def encodeReply (b : List Record) : Mem :=
  (Mem.write (fun _ => 0) 0 (b.flatMap fun r => le32 r.2.length ++ r.1)).write
    (valueStart b.length) ((b.map Prod.snd).flatMap padded)

structure Fits (b : List Record) : Prop where
  some : b ≠ []
  keys : ∀ r ∈ b, r.1.length = 4
  values : ∀ v ∈ b.map Prod.snd, v ≠ []
  size : valuesEnd (b.map Prod.snd) (valueStart b.length) ≤ maxBufLen

/-- A device that has the batches of its state left to report. A breakpoint is
the first key of the batch after it. -/
def batchDevice : Device (List (List Record))
  | _, [] => ({ err := 0x7C1, result := 0, data := fun _ => 0 }, [])
  | _, [b] => ({ err := 0, result := noNextKey, data := encodeReply b }, [])
  | _, b :: b' :: rest =>
      ({ err := 0
         result := word ((b'.map Prod.fst).headD [])
         data := encodeReply b }, b' :: rest)

end Kvaccel.Spec
