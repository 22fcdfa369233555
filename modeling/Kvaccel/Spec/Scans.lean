import Kvaccel.Spec.Reply

/-!
# Scans one after another

An iterator id is a slot of the file's global arrays, which outlive the
device's iterators: an id that was destroyed is handed out again. `ScanCall`
is what a client does with ids, and a scan is a `SeekScan` and what follows it
up to the next call that starts the id over or ends it.

`FreshScan` is the promise of a seek: what the scan returns comes from the
replies to its own commands, for any device from then on.

The other promise is about failures. A `ScanStep` is a call with the outcomes
of its allocation and its command; what it finds in its uninitialised locals is
apart, in `Locals`. `observe` is what the caller of a sequence of them sees.
-/

namespace Kvaccel.Spec

open Kvaccel.Lib Kvaccel.Ref

inductive ScanCall where
  | createIter (iterId : Nat) (out : Outside)
  | seekScan (iterId : Nat) (key value : Bytes) (out : Outside)
  | nextScan (iterId : Nat) (key value : Bytes) (out : Outside)
  | destroyIter (iterId : Nat) (out : Outside)
  | reset (out : Outside)

section Calls

variable {σ : Type} (exec : Device σ)

def scanCall (db : DB σ) : ScanCall → DB σ
  | .createIter iterId out => (db.createIter exec iterId out).2.2
  | .seekScan iterId key value out => (db.seekScan exec iterId key value out).2.2.2
  | .nextScan iterId key value out => (db.nextScan exec iterId key value out).2.2.2
  | .destroyIter iterId out => (db.destroyIter exec iterId out).2
  | .reset out => (db.reset exec out).2

def scanCalls (db : DB σ) (cs : List ScanCall) : DB σ := cs.foldl (scanCall exec) db

/-- What `f` says of each call, in order. -/
def collect {α : Type} (f : DB σ → ScanCall → List α) : DB σ → List ScanCall → List α
  | _, [] => []
  | db, c :: cs => f db c ++ collect f (scanCall exec db c) cs

/-- What a call leaves that ends in an exception. -/
def scanThrow (db : DB σ) : ScanCall → Option (DB σ)
  | .seekScan iterId key _ out => db.seekScanThrow exec iterId key out
  | .nextScan iterId _ _ out => db.nextScanThrow exec iterId out
  | _ => none

/-- What a call leaves, however it ends. -/
def leftBy (db : DB σ) (c : ScanCall) : DB σ :=
  (scanThrow exec db c).getD (scanCall exec db c)

/-- The instants of a call at which it tests `values[iter_id]` and, if there is
a value, takes it and the front of `keys[iter_id]`. -/
def takes (db : DB σ) (c : ScanCall) : List (DB σ × Nat) :=
  if (scanThrow exec db c).isSome then []
  else match c with
    | .seekScan iterId key _ out =>
        let db := { db with scanCnt := Function.update db.scanCnt iterId 1 }
        [(db.refill exec .kvRangeScanSeek iterId key out, iterId)]
    | .nextScan iterId _ _ out =>
        (db, iterId) ::
          if db.values iterId = [] ∧ db.brkPointKey iterId ≠ noNextKey then
            [(db.refill exec .kvRangeScanNext iterId [] out, iterId)]
          else []
    | _ => []

/-- There are as many keys as values, for every id. -/
def Covered (db : DB σ) : Prop :=
  ∀ iterId, (db.values iterId).length ≤ (db.keys iterId).length

variable (iterId : Nat)

/-- The record that a call on `iterId` returns; 1 is the code of a call that
returns one. -/
def returned (db : DB σ) : ScanCall → List Record
  | .seekScan id key value out =>
      let r := db.seekScan exec id key value out
      if id = iterId ∧ r.1 = 1 then [(r.2.1, r.2.2.1)] else []
  | .nextScan id key value out =>
      let r := db.nextScan exec id key value out
      if id = iterId ∧ r.1 = 1 then [(r.2.1, r.2.2.1)] else []
  | _ => []

/-- The keys and values that the device answers a call on `iterId` with. -/
def replied (db : DB σ) : ScanCall → List Bytes × List Bytes
  | .seekScan id key _ out =>
      if id = iterId then
        fetched (scanIo exec id db .kvRangeScanSeek (scanStart id db .kvRangeScanSeek key)) out
      else ([], [])
  | .nextScan id _ _ out =>
      if id = iterId ∧ db.values id = [] ∧ db.brkPointKey id ≠ noNextKey then
        fetched (scanIo exec id db .kvRangeScanNext (scanStart id db .kvRangeScanNext [])) out
      else ([], [])
  | _ => ([], [])

/-- A call that neither starts the scan of `iterId` over nor ends it. -/
def During : ScanCall → Prop
  | .createIter _ _ => True
  | .seekScan id _ _ _ => id ≠ iterId
  | .nextScan _ _ _ _ => True
  | .destroyIter id _ => id ≠ iterId
  | .reset _ => iterId ≠ 0

end Calls

section Fresh

variable {σ : Type}

/-- The calls return the keys of their replies, in order, and values of their
replies. -/
structure ReturnsReplies (exec : Device σ) (iterId : Nat) (db : DB σ) (cs : List ScanCall) :
    Prop where
  keys : (collect exec (returned exec iterId) db cs).map Prod.fst <+:
    collect exec (fun db c => (replied exec iterId db c).1) db cs
  values : ((collect exec (returned exec iterId) db cs).map Prod.snd).Subperm
    (collect exec (fun db c => (replied exec iterId db c).2) db cs)
  all : (scanCalls exec db cs).keys iterId = [] →
    (collect exec (returned exec iterId) db cs).map Prod.fst =
      collect exec (fun db c => (replied exec iterId db c).1) db cs

/-- A scan of `iterId` that starts now returns what it is answered. -/
def FreshScan (db : DB σ) (iterId : Nat) : Prop :=
  ∀ (exec : Device σ) (key value : Bytes) (out : Outside) (cs : List ScanCall),
    (∀ c ∈ cs, During iterId c) →
    ReturnsReplies exec iterId db (.seekScan iterId key value out :: cs)

end Fresh

/-! ## Outcomes -/

/-- A `SeekScan` or `NextScan`, with what its allocation and its command come to
if it gets that far. -/
structure ScanStep where
  isSeek : Bool
  key : Bytes
  value : Bytes
  data : Bool
  io : IoResult

/-- `next` of `RangeScan` and `result` of the scan functions, before they are
assigned. -/
structure Locals where
  next : UInt32
  result : UInt32

def ScanStep.out (s : ScanStep) (g : Locals) : Outside :=
  { Outside.fine with data := s.data, next := g.next.toNat, result := g.result.toNat }

/-- The state is the outcome of the next command. -/
def told : Device IoResult := fun _ io => (io, io)

section Outcomes

variable (iterId : Nat)

def scanStep (db : DB IoResult) (s : ScanStep) (g : Locals) :
    Int × Bytes × Bytes × DB IoResult :=
  let db := { db with device := s.io }
  if s.isSeek then
    db.seekScan told iterId s.key s.value (s.out g)
  else
    db.nextScan told iterId s.key s.value (s.out g)

/-- Return code, record and breakpoint after each call. -/
def observe : DB IoResult → List (ScanStep × Locals) → List (Int × Bytes × Bytes × Nat)
  | _, [] => []
  | db, (s, g) :: cs =>
      let r := scanStep iterId db s g
      (r.1, r.2.1, r.2.2.1, r.2.2.2.brkPointKey iterId) :: observe r.2.2.2 cs

/-- The call gets to `RangeScan`. -/
def Fetches (db : DB IoResult) (s : ScanStep) : Prop :=
  s.isSeek = true ∨ db.values iterId = [] ∧ db.brkPointKey iterId ≠ noNextKey

instance (db : DB IoResult) (s : ScanStep) : Decidable (Fetches iterId db s) :=
  show Decidable (_ ∨ _ ∧ _) from inferInstance

/-- Every `RangeScan` has its buffer, and its command succeeds. -/
def Succeed : DB IoResult → List (ScanStep × Locals) → Prop
  | _, [] => True
  | db, (s, g) :: cs =>
      (Fetches iterId db s → s.data = true ∧ s.io.err = 0) ∧
        Succeed (scanStep iterId db s g).2.2.2 cs

/-- When the last command has reported `0x7C1` and the values are used up,
`NextScan` returns -3. `last` is whether it has. -/
def EndsWithoutKey : Bool → DB IoResult → List (ScanStep × Locals) → Prop
  | _, _, [] => True
  | last, db, (s, g) :: cs =>
      (last = true → s.isSeek = false → db.values iterId = [] →
        (scanStep iterId db s g).1 = -3) ∧
      EndsWithoutKey
        (if Fetches iterId db s ∧ s.data = true then decide (s.io.err = 0x7C1) else last)
        (scanStep iterId db s g).2.2.2 cs

/-- The outcomes decide what the caller sees, and `0x7C1` ends the scan: the run
of the calls `cs` is that of every other content of the locals. -/
def WellDefined (db : DB IoResult) (cs : List (ScanStep × Locals)) : Prop :=
  ∀ cs', cs'.map Prod.fst = cs.map Prod.fst →
    observe iterId db cs' = observe iterId db cs ∧ EndsWithoutKey iterId false db cs'

end Outcomes

end Kvaccel.Spec
