import Kvaccel.Ref.Ilsm
import Kvaccel.Ref.Master

/-!
# `DB_MASTER` over stores that fail

The two places where a record changes hands and the answer of the store that
takes it decides whether it survives. A redirected `Put` hands its record to
`ilsm_db_.Put`, which allocates and may flush a batch; `Rollback_Consumer`
hands a scanned record to `DB::Put` of Main-LSM. Either store may refuse.

The source looks at neither answer. The redirecting branch of `Put` drops the
code that `ilsm_db_.Put` returns, and a pass assigns `ret_val` and never reads
it, with the tracker entry already deleted.

`Get` does look at the answer of the store it reads, for one thing only: a
value, or `NotFound`.
-/

namespace Kvaccel.Ref

open Kvaccel.Lib

/-! ## The redirected put, over the driver -/

/-- What `Put` works on under `LEVEL_HIGH`. -/
structure Redirect (σ : Type) where
  kacheFlag : Int
  keyTracker : HashMap Key 128
  ilsm : DB σ

/-- A call, with what `ilsm_db_.Put` finds outside. -/
structure PutCall where
  key : Key
  value : Value
  out : Outside

namespace Redirect

variable {σ : Type}

def opened (device : σ) : Redirect σ where
  kacheFlag := 0
  keyTracker := HashMap.empty
  ilsm := DB.opened device

def put (murmur : Murmur) (exec : Device σ) (s : Redirect σ) (c : PutCall) :
    Status × Redirect σ :=
  let s := { s with kacheFlag := 1 }
  let s := { s with ilsm := (s.ilsm.put exec c.key c.value c.out).2 }
  let s := { s with keyTracker := s.keyTracker.insert (doubleHash murmur c.key 1) c.key }
  (.ok, s)

def after (murmur : Murmur) (exec : Device σ) (s : Redirect σ) (cs : List PutCall) :
    Redirect σ :=
  cs.foldl (fun s c => (s.put murmur exec c).2) s

end Redirect

/-! ## The read, over both stores -/

/-- What `Get` works on. -/
structure Reading (σ : Type) where
  kacheFlag : Int
  rollbackFlag : Int
  keyTracker : HashMap Key 128
  ilsm : DB σ

namespace Reading

variable {σ : Type}

/-- `DB_MASTER::Get`: the status, the new `*value` where it assigns it, and what
it leaves. `main` is the status of Main-LSM's `Get` and the string it leaves,
`out` what `ilsm_db_.Get` finds outside; `tmp_value` is empty before. -/
def get (murmur : Murmur) (exec : Device σ) (s : Reading σ) (key : Key)
    (main : Status × Value) (out : Outside) : Status × Option Value × Reading σ :=
  let ilsm := s.ilsm.get exec key [] out
  if s.kacheFlag = 0 then
    if main.1 = .ok then (.ok, some main.2, s) else (.notFound, none, s)
  else if s.rollbackFlag = 1 then
    if s.keyTracker.contains (doubleHash murmur key 1) then
      if ilsm.1 ≥ 0 then (.ok, some ilsm.2.1, { s with ilsm := ilsm.2.2 })
      else (.notFound, none, { s with ilsm := ilsm.2.2 })
    else
      if main.1 = .ok then (.ok, some main.2, s) else (.notFound, none, s)
  else
    if s.keyTracker.contains (doubleHash murmur key 1) then
      if ilsm.1 ≥ 0 then (.ok, some ilsm.2.1, { s with ilsm := ilsm.2.2 })
      else (.notFound, none, { s with ilsm := ilsm.2.2 })
    else
      if main.1 = .ok then (.ok, some main.2, s) else (.notFound, none, s)

end Reading

/-! ## The pass, over a Main-LSM whose writes may fail -/

namespace Master

/-- A `DB::Put` of Main-LSM that returns `st`. -/
def tryMainPut (s : Master) (key : Key) (value : Value) (st : Status) : Master :=
  if st = .ok then s.mainPut key value else s

/-- A `DB::Put` call of a pass, with what it returned. -/
abbrev Attempt := (Key × Value) × Status

section Calls

variable (murmur : Murmur)

/-- The body shared by the two branches, where the `DB::Put` returns `st`. -/
def migrateTrying (s : Master) (key : Key) (value : Value) (st : Status) :
    List Attempt × Master :=
  if s.keyTracker.contains (doubleHash murmur key 1) then
    ([((key, value), st)], { s with
      keyTracker := s.keyTracker.delete (doubleHash murmur key 1)
    }.tryMainPut key value st)
  else
    ([], s)

/-- The `while (true)` of `Rollback_Consumer`. `answers j` is what the `j`-th
`DB::Put` of the pass returns; `n` of them have been made. -/
def rollbackLoopTrying (order : List (Key × Value)) (measure : Nat → Level × Int)
    (answers : Nat → Status) :
    Nat → Nat → Nat → Pass → Master → Option (List Attempt × Master)
  | 0, _, _, _, _ => none
  | fuel + 1, i, n, p, s =>
      if p.flag < 0 then
        let p := seekScan order p
        let (w, s) := migrateTrying murmur s p.key p.value (answers n)
        (rollbackLoopTrying order measure answers fuel (i + 1) (n + w.length) p
          (s.monitor (measure i))).map fun r => (w ++ r.1, r.2)
      else
        let p := nextScan p
        if p.flag = -3 then
          some ([], s.finishPass)
        else
          let (w, s) := migrateTrying murmur s p.key p.value (answers n)
          (rollbackLoopTrying order measure answers fuel (i + 1) (n + w.length) p
            (s.monitor (measure i))).map fun r => (w ++ r.1, r.2)

/-- A complete pass, taken when its guard holds. -/
def rollbackConsumerTrying (s : Master) (order : List (Key × Value))
    (measure : Nat → Level × Int) (answers : Nat → Status) :
    Option (List Attempt × Master) :=
  if s.rollbackStatus ≤ 26 ∧ s.kacheFlag = 1 then
    rollbackLoopTrying murmur (s.dev.scanOrder order) measure answers s.rollbackFuel 0 0
      { flag := -2, key := [], value := [], cursor := [] }
      { s with rollbackFlag := 1 }
  else
    some ([], s)

end Calls

end Master

end Kvaccel.Ref
