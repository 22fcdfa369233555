import Kvaccel.Ref.Ilsm

/-!
# `Seek` and `Next`: one record a call (`iLSM.cc`)

Besides the bulk scan the driver has an iterator that fetches a single record
with every call, and there are two builds of it. By default a call is one
command, and the device keeps the position. With `GET_FOR_SEEK_AND_NEXT_ILSM`
the driver keeps it, in `iter[iter_id].key`: it asks for one key after the
other with `_Get`, counting up, until one is there.

That loop has no bound of its own; `fuel` is the model's, and `none` is a loop
that is still going. The two counters of gets are left out, since nothing reads
them.
-/

namespace Kvaccel.Ref

open Kvaccel.Lib

namespace DB

variable {σ : Type} (exec : Device σ)

/-- What `_Get`, `_Seek` and `_Next` have in common: all but the command. -/
def fetch (db : DB σ) (cmd : NvmeCmd) (value : Bytes) (out : Outside) : Int × Bytes × DB σ :=
  if out.data = false then
    (-enomem, value, db)
  else
    let r := db.nvmePassthru exec cmd out.result
    if r.1.err < 0 then
      (-1, value, r.2)
    else if r.1.err = 0x7C1 then
      (-2, value, r.2)
    else if 0 < r.1.result then
      (asInt r.1.result, (r.1.data.upTo maxBufLen).read 0 (asInt r.1.result).toNat, r.2)
    else
      (asInt r.1.result, [], r.2)

def seekCmd (iterId : Nat) (key : Bytes) : NvmeCmd where
  opcode := .kvIterSeek
  cdw10 := word (firstFour key)
  cdw12 := replyNlb
  cdw13 := iterId
  dataLen := maxBufLen

def nextCmd (iterId : Nat) : NvmeCmd where
  opcode := .kvIterNext
  cdw12 := replyNlb
  cdw13 := iterId
  dataLen := maxBufLen

/-- `_Get` -/
def getBody (db : DB σ) (key value : Bytes) (out : Outside) : Int × Bytes × DB σ :=
  db.fetch exec {
    opcode := .kvGet
    cdw10 := word (firstFour key)
    cdw12 := replyNlb
    dataLen := maxBufLen } value out

/-- `Seek(iter_id, key, value)`: the return value and `value` afterwards. -/
def seek (db : DB σ) (iterId : Nat) (key value : Bytes) (out : Outside) : Int × Bytes × DB σ :=
  let r := db.fetch exec (seekCmd iterId key) value out
  (r.1, r.2.1, r.2.2.finishOp 3)

def next (db : DB σ) (iterId : Nat) (value : Bytes) (out : Outside) : Int × Bytes × DB σ :=
  let r := db.fetch exec (nextCmd iterId) value out
  (r.1, r.2.1, r.2.2.finishOp 4)

/-- `Get` is `_Get` and the clock. -/
theorem get_eq (db : DB σ) (key value : Bytes) (out : Outside) :
    db.get exec key value out = ((db.getBody exec key value out).1,
      (db.getBody exec key value out).2.1, (db.getBody exec key value out).2.2.finishOp 1) := by
  unfold getBody fetch get
  by_cases hout : out.data = false
  · simp only [if_pos hout]
  · simp only [if_neg hout]
    repeat' split
    all_goals rfl

end DB

/-! ## The build that gets -/

/-- The object of that build. -/
structure GetIters (σ : Type) where
  db : DB σ
  /-- `iter[iter_id].key` -/
  iter : Nat → Nat

section Loop

variable {σ : Type} (exec : Device σ)

/-- Where the loop ended. -/
structure LoopEnd (σ : Type) where
  ret : Int
  value : Bytes
  i : Nat
  db : DB σ

/-- The loop of `Seek` and of `Next`, from its `n`-th get on. Every get finds
something else outside. -/
def getLoop (outs : Nat → Outside) : Nat → Nat → Nat → Bytes → DB σ → Option (LoopEnd σ)
  | 0, _, _, _, _ => none
  | fuel + 1, n, i, value, db =>
      let r := db.getBody exec (le32 i) value (outs n)
      if r.1 ≠ -2 then some ⟨r.1, r.2.1, i, r.2.2⟩
      else getLoop outs fuel (n + 1) (u32 (i + 1)) r.2.1 r.2.2

section Round

variable {exec} {outs : Nat → Outside} {fuel n i : Nat} {value : Bytes} {db : DB σ}

theorem getLoop_stop (h : (db.getBody exec (le32 i) value (outs n)).1 ≠ -2) :
    getLoop exec outs (fuel + 1) n i value db =
      some ⟨(db.getBody exec (le32 i) value (outs n)).1,
        (db.getBody exec (le32 i) value (outs n)).2.1, i,
        (db.getBody exec (le32 i) value (outs n)).2.2⟩ := by
  rw [getLoop]
  exact if_pos h

theorem getLoop_more (h : (db.getBody exec (le32 i) value (outs n)).1 = -2) :
    getLoop exec outs (fuel + 1) n i value db =
      getLoop exec outs fuel (n + 1) (u32 (i + 1))
        (db.getBody exec (le32 i) value (outs n)).2.1
        (db.getBody exec (le32 i) value (outs n)).2.2 := by
  rw [getLoop]
  exact if_neg (not_not.mpr h)

end Round

namespace GetIters

def seek (it : GetIters σ) (fuel iterId : Nat) (key value : Bytes) (outs : Nat → Outside) :
    Option (Int × Bytes × GetIters σ) :=
  (getLoop exec outs fuel 0 (word (firstFour key)) value it.db).map fun r =>
    (r.ret, r.value, ⟨r.db.finishOp 3, Function.update it.iter iterId r.i⟩)

def next (it : GetIters σ) (fuel iterId : Nat) (value : Bytes) (outs : Nat → Outside) :
    Option (Int × Bytes × GetIters σ) :=
  (getLoop exec outs fuel 0 (u32 (it.iter iterId + 1)) value it.db).map fun r =>
    (r.ret, r.value, ⟨r.db.finishOp 4, Function.update it.iter iterId r.i⟩)

def createIter (it : GetIters σ) (iterId : Nat) (out : Outside) : Int × Nat × GetIters σ :=
  let r := it.db.createIter exec iterId out
  (r.1, r.2.1, ⟨r.2.2, if 0 ≤ r.1 then Function.update it.iter r.2.1 0 else it.iter⟩)

end GetIters

end Loop

end Kvaccel.Ref
