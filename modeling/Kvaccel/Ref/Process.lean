import Mathlib.Data.List.Basic
import Mathlib.Logic.Function.Basic

/-!
# Opening, destroying and the rollback thread: the process

`Open` starts the rollback thread and detaches it; `DestroyDB_Master` asks it
to exit through a flag and does not wait. The flag and `checker`, which says
whether a thread has been started, are statics of the process, while the handle
of Main-LSM, `dbptr_array[0]`, belongs to the `DB_MASTER` object the thread was
started for. `O` are the objects.

One caller makes the calls, a shared access at a time, and the threads take
their steps in between. What a thread's branches depend on besides the flag is
found outside: the measurements, the scan and the tracker. So is the result of
the inner `DB::Open`, which stores a handle or, failing, none.

A use of a handle that is not there is a step like any other for a thread, and
is what the proofs are about. The caller has none: `DestroyDB_Master` without a
handle does not return.
-/

namespace Kvaccel.Ref

/-- What `dbptr_array[0]` holds: no handle, one that `DB::Open` stored, or one
that has been deleted. -/
inductive Slot where
  | empty
  | live
  | deleted
deriving DecidableEq

/-- Where a rollback thread is. Inside a pass the counter carries whether
`flag` is negative. -/
inductive ThreadPc where
  | test
  | sleep
  | numFiles (pass : Option Bool)
  | memTables (pass : Option Bool)
  | pendingBytes (pass : Option Bool)
  | retest
  | guard
  | scan (negative : Bool)
  | put (negative : Bool)
  | exited
deriving DecidableEq

/-- What a step of a thread finds outside. -/
structure Finds where
  /-- `rollback_status <= 26 && kache_flag == 1` -/
  guard : Bool
  /-- The scan returned a flag that is not negative. -/
  found : Bool
  /-- It returned -3. -/
  ended : Bool
  /-- `keyTracker.Contains` of its key -/
  tracked : Bool

namespace ThreadPc

/-- `Rollback_Consumer`, with `Monitor_Consumer` inlined at its two calls. -/
def next (rollbackShouldExit : Bool) (f : Finds) : ThreadPc → ThreadPc
  | .test => if rollbackShouldExit then .exited else .sleep
  | .sleep => .numFiles none
  | .numFiles pass => .memTables pass
  | .memTables pass => .pendingBytes pass
  | .pendingBytes none => .retest
  | .pendingBytes (some negative) => .scan negative
  | .retest => if rollbackShouldExit then .exited else .guard
  | .guard => if f.guard then .scan true else .test
  | .scan negative =>
      -- A negative flag seeks, and only the next branch ends the pass.
      if negative = false ∧ f.ended then .test
      else if f.tracked then .put (!f.found)
      else .numFiles (some !f.found)
  | .put negative => .numFiles (some negative)
  | .exited => .exited

/-- The steps that call into `dbptr_array[0]`. -/
def uses : ThreadPc → Bool
  | .numFiles _ | .memTables _ | .pendingBytes _ | .put _ => true
  | _ => false

/-- The steps that read `rollback_should_exit`. -/
def tests : ThreadPc → Bool
  | .test | .retest => true
  | _ => false

end ThreadPc

structure RollbackThread (O : Type) where
  object : O
  pc : ThreadPc

inductive CallerPc (O : Type) where
  | idle
  | openInner (o : O)
  | openExit (o : O) (ok : Bool)
  | openStart (o : O) (ok : Bool)
  | openChecker (o : O) (ok : Bool)
  | destroyExit (o : O)
  | destroyName (o : O)
  | destroyDelete (o : O)
  | destroyNull (o : O)
  | destroyFiles (o : O)
deriving DecidableEq

structure Process (O : Type) where
  /-- Whether `checker` has been set. -/
  checker : Bool
  rollbackShouldExit : Bool
  numInstances : O → Nat
  slot : O → Slot
  threads : List (RollbackThread O)
  caller : CallerPc O

inductive ProcessAct (O : Type) where
  | callOpen (o : O) (numInstances : Nat)
  | callDestroy (o : O)
  /-- The caller's next access; `ok` is what an inner `DB::Open` returns. -/
  | caller (ok : Bool)
  | thread (i : Nat) (finds : Finds)

namespace Process

variable {O : Type} [DecidableEq O]

def started : Process O where
  checker := false
  rollbackShouldExit := false
  numInstances := fun _ => 0
  slot := fun _ => .empty
  threads := []
  caller := .idle

/-- The code of `Open` and `DestroyDB_Master`. -/
def callerStep (s : Process O) (ok : Bool) : Option (Process O) :=
  match s.caller with
  | .idle => none
  | .openInner o => some { s with
      slot := Function.update s.slot o (if ok then .live else .empty)
      caller := .openExit o ok }
  | .openExit o ok => some { s with
      rollbackShouldExit := false
      caller := .openStart o ok }
  | .openStart o ok => some { s with
      threads := if s.checker then s.threads else s.threads ++ [⟨o, .test⟩]
      caller := .openChecker o ok }
  | .openChecker _ _ => some { s with checker := true, caller := .idle }
  | .destroyExit o => some { s with
      rollbackShouldExit := true
      caller := if s.numInstances o = 0 then .idle else .destroyName o }
  | .destroyName o =>
      if s.slot o = .live then some { s with caller := .destroyDelete o } else none
  | .destroyDelete o => some { s with
      slot := Function.update s.slot o .deleted
      caller := .destroyNull o }
  | .destroyNull o => some { s with
      slot := Function.update s.slot o .empty
      caller := .destroyFiles o }
  | .destroyFiles _ => some { s with caller := .idle }

def threadStep (s : Process O) (i : Nat) (f : Finds) : Option (Process O) :=
  match s.threads[i]? with
  | none => none
  | some θ =>
      if θ.pc = .exited then none
      else some { s with
        threads := s.threads.set i { θ with pc := θ.pc.next s.rollbackShouldExit f } }

/-- `Open` refuses any number of instances but one before it does anything. -/
def step (s : Process O) : ProcessAct O → Option (Process O)
  | .callOpen o n =>
      if s.caller = .idle then
        if n ≠ 1 then some s
        else some { s with
          numInstances := Function.update s.numInstances o n
          caller := .openInner o }
      else none
  | .callDestroy o =>
      if s.caller = .idle then some { s with caller := .destroyExit o } else none
  | .caller ok => s.callerStep ok
  | .thread i f => s.threadStep i f

end Process

end Kvaccel.Ref
