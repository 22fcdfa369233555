import Mathlib.Data.Finset.Basic
import Mathlib.Logic.Function.Basic
import Kvaccel.Ref.Master

/-!
# `DB_MASTER`: any number of threads

The routing layer again, one atomic access at a time. A thread is a program
counter: where it stands in `Put`, in `Get` or in `Rollback_Consumer`, with
the arguments and locals it still needs. The code is a table with one row per
counter, the access made there and the counter after it; a step of a thread
makes the access and moves the counter, and a lock that is taken blocks it.
Nothing else orders the threads, so the runs of `step` are all the
interleavings of flag reads, tracker operations, Dev-LSM commands, Main-LSM
calls and lock operations.

Dev-LSM is behind an interface here. `iLSM::DB` takes several commands for a
put and for the creation of an iterator, so those two are little programs of
their own (`Pc`); everything else is one command. `Env` is whatever a command
takes from outside: allocations, uninitialised words, the device's scan order.
-/

namespace Kvaccel.Ref

open Kvaccel.Lib

/-- Dev-LSM as the routing layer calls it. -/
structure DevLsm where
  St : Type
  Env : Type
  /-- Where a call of `Put` or `CreateIter` stands. -/
  Pc : Type
  putPc : Key → Value → Pc
  iterPc : Pc
  /-- One command of such a call: the rest of the call if there is one, and
  the iterator id afterwards. -/
  step : Env → Pc → Nat → St → Option Pc × Nat × St
  get : Env → Key → St → Int × Value × St
  seekScan : Env → Nat → Key → Value → St → Int × Key × Value × St
  nextScan : Env → Nat → Key → Value → St → Int × Key × Value × St
  reset : Env → St → St

inductive Thread (T : Type) where
  | client (t : T)
  | rollback
deriving DecidableEq

structure SharedMutex (T : Type) where
  writer : Option (Thread T)
  readers : Finset T

structure Shared (T : Type) (D : DevLsm) where
  level : Level
  rollbackStatus : Int
  kacheFlag : Int
  rollbackFlag : Int
  resetMtx : Option (Thread T)
  rollbackMtx : SharedMutex T
  keyTracker : HashMap Key 128
  main : Key → Option Value
  dev : D.St

/-- The three branches of `Get`. -/
inductive Branch where
  /-- `kache_flag` was 0. -/
  | noDev
  /-- `rollback_flag` was 1: under the shared lock. -/
  | locked
  | unlocked
deriving DecidableEq

/-- What a client does next. The `ctl` counters are the put with rollback,
the `red` ones the redirected put. -/
inductive ClientPc (Pc : Type) where
  | idle
  | putLevel (k : Key) (v : Value)
  | putKache (k : Key) (v : Value)
  | putDirect (k : Key) (v : Value)
  | ctlReset (k : Key) (v : Value)
  | ctlRollback (k : Key) (v : Value)
  | ctlContains (k : Key) (v : Value)
  | ctlDelete (k : Key) (v : Value)
  | ctlPut (k : Key) (v : Value)
  | ctlUnlockRollback
  | ctlUnlockReset
  | redReset (k : Key) (v : Value)
  | redFlag (k : Key) (v : Value)
  | redPut (k : Key) (v : Value) (pc : Pc)
  | redInsert (k : Key) (v : Value)
  | redUnlock
  | putReturn
  | getKache (k : Key)
  | getRollback (k : Key)
  | getShared (k : Key)
  | getContains (b : Branch) (k : Key)
  | getDev (b : Branch) (k : Key)
  | getMain (b : Branch) (k : Key)
  | getUnlock (k : Key) (r : Option Value)
  | getReturn (b : Branch) (k : Key) (r : Option Value)
deriving DecidableEq

inductive RollbackPc (Pc : Type) where
  | monitor
  | guard
  | lockReset
  | setFlag
  | loop
  | createIter (pc : Pc)
  | seekScan
  | nextScan
  /-- `rollback_mtx.lock()`, in the seek branch or in the next branch. -/
  | lock (next : Bool)
  | contains
  | delete
  | put
  | unlock
  | remonitor
  | devReset
  | clear
  | clearKache
  | clearRollback
  | unlockRollback
  | unlockReset
deriving DecidableEq

structure Locals where
  flag : Int
  key : Key
  tmpValue : Value
  iterId : Nat

structure State (T : Type) (D : DevLsm) where
  sh : Shared T D
  clients : T → ClientPc D.Pc
  rollback : RollbackPc D.Pc
  locals : Locals

/-- One atomic access to what the threads share. -/
inductive Access (D : DevLsm) where
  /-- A flag or a level is read, the tracker or Main-LSM asked. -/
  | read
  | setKache (n : Int)
  | setRollbackFlag (n : Int)
  | setLevel (m : Level × Int)
  | lockReset
  | unlockReset
  | lockRollback
  | unlockRollback
  | lockShared
  | unlockShared
  | trackerInsert (k : Key)
  | trackerDelete (k : Key)
  | trackerClear
  | mainPut (k : Key) (v : Value)
  | devStep (pc : D.Pc) (iterId : Nat)
  | devGet (k : Key)
  | devSeekScan (iterId : Nat) (key : Key) (value : Value)
  | devNextScan (iterId : Nat) (key : Key) (value : Value)
  | devReset

section Step

variable {T : Type} [DecidableEq T] {D : DevLsm} (murmur : Murmur)

/-- A lock that is taken blocks the thread; nothing else does. -/
def Access.ready (sh : Shared T D) : Access D → Bool
  | .lockReset => sh.resetMtx = none
  | .lockRollback => sh.rollbackMtx.writer = none ∧ sh.rollbackMtx.readers = ∅
  | .lockShared => sh.rollbackMtx.writer = none
  | _ => true

/-- The access as made by the thread `θ`. Only clients use the shared side of
`rollback_mtx`. -/
def Access.effect (θ : Thread T) (env : D.Env) (sh : Shared T D) :
    Access D → Shared T D
  | .read => sh
  | .setKache n => { sh with kacheFlag := n }
  | .setRollbackFlag n => { sh with rollbackFlag := n }
  | .setLevel m => { sh with level := m.1, rollbackStatus := m.2 }
  | .lockReset => { sh with resetMtx := some θ }
  | .unlockReset => { sh with resetMtx := none }
  | .lockRollback =>
      { sh with rollbackMtx := { sh.rollbackMtx with writer := some θ } }
  | .unlockRollback =>
      { sh with rollbackMtx := { sh.rollbackMtx with writer := none } }
  | .lockShared =>
      match θ with
      | .client t => { sh with rollbackMtx := { sh.rollbackMtx with
          readers := insert t sh.rollbackMtx.readers } }
      | .rollback => sh
  | .unlockShared =>
      match θ with
      | .client t => { sh with rollbackMtx := { sh.rollbackMtx with
          readers := sh.rollbackMtx.readers.erase t } }
      | .rollback => sh
  | .trackerInsert k =>
      { sh with keyTracker := sh.keyTracker.insert (doubleHash murmur k 1) k }
  | .trackerDelete k =>
      { sh with keyTracker := sh.keyTracker.delete (doubleHash murmur k 1) }
  | .trackerClear => { sh with keyTracker := sh.keyTracker.clear }
  | .mainPut k v => { sh with main := Function.update sh.main k (some v) }
  | .devStep pc iterId => { sh with dev := (D.step env pc iterId sh.dev).2.2 }
  | .devGet k => { sh with dev := (D.get env k sh.dev).2.2 }
  | .devSeekScan iterId key value =>
      { sh with dev := (D.seekScan env iterId key value sh.dev).2.2.2 }
  | .devNextScan iterId key value =>
      { sh with dev := (D.nextScan env iterId key value sh.dev).2.2.2 }
  | .devReset => { sh with dev := D.reset env sh.dev }

def Shared.tracked (sh : Shared T D) (k : Key) : Bool :=
  sh.keyTracker.contains (doubleHash murmur k 1)

/-- What `ilsm_db_.Get` finds. -/
def Shared.devFound (sh : Shared T D) (env : D.Env) (k : Key) : Option Value :=
  if (D.get env k sh.dev).1 ≥ 0 then some (D.get env k sh.dev).2.1 else none

/-- The code of `Put` and `Get`: the access a client makes at each counter, and
where it goes from there, given what it found. -/
def clientCode (env : D.Env) :
    ClientPc D.Pc → Option (Access D × (Shared T D → ClientPc D.Pc))
  | .idle => none
  | .putLevel k v => some (.read, fun sh =>
      if sh.level ≠ .high then .putKache k v else .redReset k v)
  | .putKache k v => some (.read, fun sh =>
      if sh.kacheFlag = 0 then .putDirect k v else .ctlReset k v)
  | .putDirect k v => some (.mainPut k v, fun _ => .putReturn)
  | .ctlReset k v => some (.lockReset, fun _ => .ctlRollback k v)
  | .ctlRollback k v => some (.lockRollback, fun _ => .ctlContains k v)
  | .ctlContains k v => some (.read, fun sh =>
      if sh.tracked murmur k then .ctlDelete k v else .ctlPut k v)
  | .ctlDelete k v => some (.trackerDelete k, fun _ => .ctlPut k v)
  | .ctlPut k v => some (.mainPut k v, fun _ => .ctlUnlockRollback)
  | .ctlUnlockRollback => some (.unlockRollback, fun _ => .ctlUnlockReset)
  | .ctlUnlockReset => some (.unlockReset, fun _ => .putReturn)
  | .redReset k v => some (.lockReset, fun _ => .redFlag k v)
  | .redFlag k v => some (.setKache 1, fun _ => .redPut k v (D.putPc k v))
  | .redPut k v pc => some (.devStep pc 0, fun sh =>
      match (D.step env pc 0 sh.dev).1 with
      | some pc' => .redPut k v pc'
      | none => .redInsert k v)
  | .redInsert k _ => some (.trackerInsert k, fun _ => .redUnlock)
  | .redUnlock => some (.unlockReset, fun _ => .putReturn)
  | .putReturn => some (.read, fun _ => .idle)
  | .getKache k => some (.read, fun sh =>
      if sh.kacheFlag = 0 then .getMain .noDev k else .getRollback k)
  | .getRollback k => some (.read, fun sh =>
      if sh.rollbackFlag = 1 then .getShared k else .getContains .unlocked k)
  | .getShared k => some (.lockShared, fun _ => .getContains .locked k)
  | .getContains b k => some (.read, fun sh =>
      if sh.tracked murmur k then .getDev b k else .getMain b k)
  | .getDev b k => some (.devGet k, fun sh =>
      if b = .locked then .getUnlock k (sh.devFound env k)
      else .getReturn b k (sh.devFound env k))
  | .getMain b k => some (.read, fun sh =>
      if b = .locked then .getUnlock k (sh.main k) else .getReturn b k (sh.main k))
  | .getUnlock k r => some (.unlockShared, fun _ => .getReturn .locked k r)
  | .getReturn _ _ _ => some (.read, fun _ => .idle)

/-- The code of `Rollback_Consumer`. `m` is what `Monitor_Consumer` measures if
that is the step. -/
def rollbackCode (env : D.Env) (m : Level × Int) (l : Locals) :
    RollbackPc D.Pc → Access D × (Shared T D → RollbackPc D.Pc × Locals)
  | .monitor => (.setLevel m, fun _ => (.guard, l))
  | .guard => (.read, fun sh =>
      (if sh.rollbackStatus ≤ 26 ∧ sh.kacheFlag = 1 then .lockReset
        else .monitor, l))
  | .lockReset => (.lockReset, fun _ => (.setFlag, l))
  | .setFlag => (.setRollbackFlag 1, fun _ => (.loop, l))
  | .loop => (.read, fun _ =>
      (if l.flag < 0 then .createIter D.iterPc else .nextScan, l))
  | .createIter pc => (.devStep pc l.iterId, fun sh =>
      (match (D.step env pc l.iterId sh.dev).1 with
        | some pc' => .createIter pc'
        | none => .seekScan,
        { l with iterId := (D.step env pc l.iterId sh.dev).2.1 }))
  | .seekScan => (.devSeekScan l.iterId startKey l.tmpValue, fun sh =>
      let r := D.seekScan env l.iterId startKey l.tmpValue sh.dev
      (.lock false, { l with flag := r.1, key := r.2.1, tmpValue := r.2.2.1 }))
  | .nextScan => (.devNextScan l.iterId l.key l.tmpValue, fun sh =>
      let r := D.nextScan env l.iterId l.key l.tmpValue sh.dev
      (.lock true, { l with flag := r.1, key := r.2.1, tmpValue := r.2.2.1 }))
  | .lock next => (.lockRollback, fun _ =>
      (if next = true ∧ l.flag = -3 then .devReset else .contains, l))
  | .contains => (.read, fun sh =>
      (if sh.tracked murmur l.key then .delete else .unlock, l))
  | .delete => (.trackerDelete l.key, fun _ => (.put, l))
  | .put => (.mainPut l.key l.tmpValue, fun _ => (.unlock, l))
  | .unlock => (.unlockRollback, fun _ => (.remonitor, l))
  | .remonitor => (.setLevel m, fun _ => (.loop, l))
  | .devReset => (.devReset, fun _ => (.clear, l))
  | .clear => (.trackerClear, fun _ => (.clearKache, l))
  | .clearKache => (.setKache 0, fun _ => (.clearRollback, l))
  | .clearRollback =>
      (.setRollbackFlag 0, fun _ => (.unlockRollback, { l with flag := -2 }))
  | .unlockRollback => (.unlockRollback, fun _ => (.unlockReset, l))
  | .unlockReset => (.unlockReset, fun _ => (.monitor, l))

inductive Act (T : Type) (D : DevLsm) where
  | callPut (t : T) (k : Key) (v : Value)
  | callGet (t : T) (k : Key)
  | client (t : T) (env : D.Env)
  | rollback (env : D.Env) (m : Level × Int)

namespace State

def setClient (s : State T D) (t : T) (pc : ClientPc D.Pc) : State T D :=
  { s with clients := Function.update s.clients t pc }

def step (s : State T D) : Act T D → Option (State T D)
  | .callPut t k v =>
      match s.clients t with
      | .idle => some (s.setClient t (.putLevel k v))
      | _ => none
  | .callGet t k =>
      match s.clients t with
      | .idle => some (s.setClient t (.getKache k))
      | _ => none
  | .client t env =>
      match clientCode murmur env (s.clients t) with
      | none => none
      | some (a, next) =>
          if a.ready s.sh then
            some { s.setClient t (next s.sh) with
              sh := a.effect murmur (.client t) env s.sh }
          else none
  | .rollback env m =>
      let (a, next) := rollbackCode murmur env m s.locals s.rollback
      if a.ready s.sh then
        some { s with
          sh := a.effect murmur .rollback env s.sh
          rollback := (next s.sh).1
          locals := (next s.sh).2 }
      else none

/-- The state `Open` leaves: every client idle, the rollback thread at the
top of its loop. -/
def opened (main : Key → Option Value) (dev : D.St) : State T D where
  sh := {
    level := .low
    rollbackStatus := 0
    kacheFlag := 0
    rollbackFlag := 0
    resetMtx := none
    rollbackMtx := { writer := none, readers := ∅ }
    keyTracker := HashMap.empty
    main := main
    dev := dev }
  clients := fun _ => .idle
  rollback := .monitor
  locals := { flag := -2, key := [], tmpValue := [], iterId := 0 }

end State

end Step

end Kvaccel.Ref
