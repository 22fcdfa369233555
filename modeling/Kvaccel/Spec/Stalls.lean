import Mathlib.Data.Set.Basic
import Kvaccel.Ref.Monitor
import Kvaccel.Ref.Threads

/-!
# Stalls, and who is to keep away from them

Main-LSM stops writes at 36 L0 files, counting a memtable as the file it is
going to be, or at the hard limit of pending compaction bytes. `Stalled` says
so in whole numbers. The level is there so that a client's put goes elsewhere
then, and so that the rollback thread does not write into the stall itself.
-/

namespace Kvaccel.Spec

open Kvaccel.Lib Kvaccel.Ref

section Measurements

variable (o : MonitorOptions) (m : Measured)

def memtables : Nat := m.memtableSize.toNat / o.writeBufferSize.toNat

def Stalled : Prop :=
  36 ≤ m.l0Num.toInt ∨ 36 ≤ m.l0Num.toInt + memtables o m ∨
    o.hardLimit.toNat ≤ m.pendingCompactionBytes.toNat

/-- The first test of `Monitor_Consumer`, in whole numbers: memtables count
modulo 2^32 and up to an `int`, and a hard limit below `RESERVE` counts as one
near 2^64. -/
def CountsAsStall : Prop :=
  36 ≤ m.l0Num.toInt ∨
    (36 ≤ m.l0Num.toInt + (memtables o m % 2 ^ 32 : Nat) ∧
      m.l0Num.toInt + (memtables o m % 2 ^ 32 : Nat) < 2 ^ 31) ∨
    if 2 ^ 21 ≤ o.hardLimit.toNat then
      o.hardLimit.toNat - 2 ^ 21 ≤ m.pendingCompactionBytes.toNat
    else
      2 ^ 64 + o.hardLimit.toNat - 2 ^ 21 ≤ m.pendingCompactionBytes.toNat

/-- A stall that `Monitor_Consumer` measures sends the next put to Dev-LSM. -/
def StallDetected : Prop :=
  Stalled o m → ∀ (murmur : Murmur) (s : Master) (key : Key) (value : Value),
    (s.monitorConsumer o m).level = .high ∧
      ((s.monitorConsumer o m).put murmur key value).2.main = s.main ∧
      ((s.monitorConsumer o m).put murmur key value).2.dev =
        s.dev.insert (firstFour key) value

end Measurements

/-! ## The rollback thread -/

section Rollback

variable {T : Type} {D : DevLsm}

/-- A call of `Monitor_Consumer`. -/
def measures {Pc : Type} : RollbackPc Pc → Bool
  | .monitor | .remonitor => true
  | _ => false

/-- A pass starts, or has a record that it writes to Main-LSM. -/
def entersMain {Pc : Type} : RollbackPc Pc → Bool
  | .lockReset | .setFlag | .delete | .put => true
  | _ => false

/-- The level that the most recent `Monitor_Consumer` call has computed. -/
def lastLevel : List (State T D × Act T D) → Option Level
  | [] => none
  | (s, .rollback _ m) :: tr => if measures s.rollback then some m.1 else lastLevel tr
  | _ :: tr => lastLevel tr

/-- The rollback thread is not at a write into a measured stall. -/
def KeepsClear (tr : List (State T D × Act T D)) (s : State T D) : Prop :=
  entersMain s.rollback = true → lastLevel tr ≠ some .high

/-- In every state of the run. -/
def ClearThroughout : List (State T D × Act T D) → State T D → Prop
  | [], s => KeepsClear [] s
  | e :: tr, s => KeepsClear (e :: tr) s ∧ ClearThroughout tr e.1

/-- What a step asks of the measurement that was made last. Before the guard of
a pass, under `kache_flag` 1, it was `LEVEL_HIGH` only with more than 26 files;
before a record, only if the key of the record is not tracked. -/
def Heeds (murmur : Murmur) (s : State T D) : Act T D → Prop
  | .rollback _ _ =>
      match s.rollback with
      | .guard => s.sh.level = .high → s.sh.kacheFlag = 1 → 26 < s.sh.rollbackStatus
      | .contains => s.sh.level = .high → s.sh.tracked murmur s.locals.key = false
      | _ => True
  | _ => True

instance (murmur : Murmur) (s : State T D) : (act : Act T D) → Decidable (Heeds murmur s act)
  | .callPut _ _ _ | .callGet _ _ | .client _ _ => inferInstanceAs (Decidable True)
  | .rollback _ _ =>
      match s with
      | ⟨sh, _, .guard, _⟩ => inferInstanceAs
          (Decidable (sh.level = .high → sh.kacheFlag = 1 → 26 < sh.rollbackStatus))
      | ⟨sh, _, .contains, l⟩ => inferInstanceAs
          (Decidable (sh.level = .high → sh.tracked murmur l.key = false))
      | ⟨_, _, .monitor, _⟩ | ⟨_, _, .lockReset, _⟩ | ⟨_, _, .setFlag, _⟩ | ⟨_, _, .loop, _⟩
      | ⟨_, _, .createIter _, _⟩ | ⟨_, _, .seekScan, _⟩ | ⟨_, _, .nextScan, _⟩
      | ⟨_, _, .lock _, _⟩ | ⟨_, _, .delete, _⟩ | ⟨_, _, .put, _⟩ | ⟨_, _, .unlock, _⟩
      | ⟨_, _, .remonitor, _⟩ | ⟨_, _, .devReset, _⟩ | ⟨_, _, .clear, _⟩
      | ⟨_, _, .clearKache, _⟩ | ⟨_, _, .clearRollback, _⟩ | ⟨_, _, .unlockRollback, _⟩
      | ⟨_, _, .unlockReset, _⟩ => inferInstanceAs (Decidable True)

/-- Every `Monitor_Consumer` call finds one of the measurements in `M`. -/
def Sees (o : MonitorOptions) (M : Set Measured) (s : State T D) : Act T D → Prop
  | .rollback _ m => measures s.rollback = true → ∃ x ∈ M, m = o.measure x
  | _ => True

end Rollback

end Kvaccel.Spec
