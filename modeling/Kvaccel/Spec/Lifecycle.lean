import Kvaccel.Ref.Process

/-!
# What an open database needs of its thread

Somebody has to watch an open database, and whoever watches may only call into
it while it is open. Both are said of a history, newest step first: whether the
database is open is decided by the last `Open` that returned OK and the calls
of `DestroyDB_Master` since, and a use is judged in the state it is made in.
-/

namespace Kvaccel.Spec

open Kvaccel.Ref

variable {O : Type}

/-- Some rollback thread has not exited. -/
def Monitored (s : Process O) : Prop := ∃ θ ∈ s.threads, θ.pc ≠ .exited

instance (s : Process O) : Decidable (Monitored s) :=
  inferInstanceAs (Decidable (∃ θ ∈ s.threads, θ.pc ≠ .exited))

/-- An `Open` has returned OK, and `DestroyDB_Master` has not been called
since. -/
def isOpen : List (Process O × ProcessAct O) → Bool
  | [] => false
  | (s, a) :: tr =>
      match a with
      | .callDestroy _ => false
      | .caller _ =>
          match s.caller with
          | .openChecker _ true => true
          | _ => isOpen tr
      | _ => isOpen tr

/-- The thread that takes the step. -/
def actor (e : Process O × ProcessAct O) : Option (RollbackThread O) :=
  match e.2 with
  | .thread i _ => e.1.threads[i]?
  | _ => none

/-- The step tests `rollback_should_exit` and finds it set. -/
def seesExit (e : Process O × ProcessAct O) : Bool :=
  (actor e).any fun θ => θ.pc.tests && e.1.rollbackShouldExit

/-- If the step calls into `dbptr_array[0]`, there is a handle in it that has
not been deleted. -/
def usesLive (e : Process O × ProcessAct O) : Bool :=
  (actor e).all fun θ => !θ.pc.uses || decide (e.1.slot θ.object = .live)

variable [DecidableEq O]

/-- When the caller may go on. A handle is deleted when the threads of its
object have exited or are about to test the flag; an inner `DB::Open` fails
when they have exited; the flag is cleared when every thread that has not
exited has a live handle; and a thread is started over one. -/
def orderly (s : Process O) : ProcessAct O → Bool
  | .caller ok =>
      match s.caller with
      | .destroyDelete o =>
          s.threads.all fun θ =>
            decide (θ.object ≠ o) || decide (θ.pc = .exited) || θ.pc.tests
      | .openInner o =>
          ok || s.threads.all fun θ => decide (θ.object ≠ o) || decide (θ.pc = .exited)
      | .openExit _ _ =>
          s.threads.all fun θ =>
            decide (θ.pc = .exited) || decide (s.slot θ.object = .live)
      | .openStart o _ => s.checker || decide (s.slot o = .live)
      | _ => true
  | _ => true

end Kvaccel.Spec
