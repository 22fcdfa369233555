import Kvaccel.Lib.Ids
import Kvaccel.Lib.Run
import Kvaccel.Ref.SeekRandom

/-!
# Iterator ids over whole runs

The device hands out the smallest id that is not live, and the host indexes
arrays of ten with it. What there is to say about a run of `SeekRandom` beside
the other threads is which ids it uses, as the argument of a scan call or as an
index, and at which of its steps the device hands one out.
-/

namespace Kvaccel.Spec

open Kvaccel.Lib Kvaccel.Ref

/-- Every `CreateIter` gets the smallest id not live, which is live from then on
until it is destroyed or the device is reset. -/
structure Allocates {σ : Type} (exec : Device σ) (live : σ → Finset Nat) : Prop where
  create : ∀ cmd d, cmd.opcode = .kvIterCreateIter →
    (exec cmd d).1.err = 0 ∧ (exec cmd d).1.result = free (live d) ∧
      live (exec cmd d).2 = insert (free (live d)) (live d)
  destroy : ∀ cmd d, cmd.opcode = .kvIterDestroyIter →
    live (exec cmd d).2 = (live d).erase cmd.cdw13
  reset : ∀ cmd d, cmd.opcode = .kvReset → live (exec cmd d).2 = ∅
  other : ∀ cmd d, cmd.opcode ∉ [.kvIterCreateIter, .kvIterDestroyIter, .kvReset] →
    live (exec cmd d).2 = live d

/-- Nothing but ids. -/
def idDevice : Device (Finset Nat) := fun cmd L =>
  let ok := { err := 0, result := 0, data := fun _ => 0 }
  match cmd.opcode with
  | .kvIterCreateIter => ({ ok with result := free L }, insert (free L) L)
  | .kvIterDestroyIter => (ok, L.erase cmd.cdw13)
  | .kvReset => (ok, ∅)
  | _ => (ok, L)

theorem allocates_idDevice : Allocates idDevice id where
  create cmd L hop := by
    rw [idDevice, hop]
    exact ⟨rfl, rfl, rfl⟩
  destroy cmd L hop := by
    rw [idDevice, hop]
    rfl
  reset cmd L hop := by
    rw [idDevice, hop]
    rfl
  other cmd L hop := by
    rw [idDevice]
    cases h : cmd.opcode with
    | kvIterCreateIter => exact absurd (h ▸ hop) (by decide)
    | kvIterDestroyIter => exact absurd (h ▸ hop) (by decide)
    | kvReset => exact absurd (h ▸ hop) (by decide)
    | _ => rfl

section Bench

variable {T σ : Type} {exec : Device σ}

/-- The ids that the loop passes on or indexes with in its next access. -/
def seekUses (kacheFlag : Int) (b : SeekRandom) : List Nat :=
  match b.pc with
  | .seekScan _ | .seekNote _ _ _ | .nextScan _ _ | .nextNote _ _ _ _ | .destroy =>
      [b.ilsmIterId]
  | .compare key =>
      if b.iter.key.any (fun mainKey => sliceCompare mainKey key = 0) ∨ kacheFlag ≠ 1 then []
      else [b.ilsmIterId]
  | .nexts (_ + 1) => if b.iterLocation = 0 then [] else [b.ilsmIterId]
  | .nextBranch _ => if b.iterLocation = 0 ∧ b.iter.valid then [b.ilsmIterId] else []
  | _ => []

def rollbackUses (s : State T (ilsmDev exec)) : List Nat :=
  match s.rollback with
  | .seekScan | .nextScan => [s.locals.iterId]
  | _ => []

def usedBy (s : BenchState T exec) : BenchAct T exec → List Nat
  | .threads (.rollback _ _) => rollbackUses s.threads
  | .seek _ => seekUses s.threads.sh.kacheFlag s.seek
  | _ => []

/-- The step is the command of a `CreateIter`. -/
def creates (s : BenchState T exec) : BenchAct T exec → Bool
  | .threads (.rollback _ _) => s.threads.rollback == .createIter IlsmPc.iterCmd
  | .seek _ =>
      match s.seek.pc with
      | .resetCreate _ .iterCmd => true
      | _ => false
  | _ => false

/-- The next access of the loop looks at `kache_flag`. -/
def testsKache : SeekPc → Bool
  | .resetKache _ | .seekKache _ | .compare _ | .nextKache _ => true
  | _ => false

/-- `kache_flag` is 1 whenever the loop looks at it. -/
def KacheOn (s : BenchState T exec) : BenchAct T exec → Prop
  | .seek _ => testsKache s.seek.pc = true → s.threads.sh.kacheFlag = 1
  | _ => True

instance (s : BenchState T exec) : ∀ act, Decidable (KacheOn s act)
  | .seek _ => inferInstanceAs (Decidable (_ → _))
  | .threads _ | .round _ _ | .leave => isTrue trivial

abbrev BenchTrace (T : Type) (exec : Device σ) := List (BenchState T exec × BenchAct T exec)

def usedIds (tr : BenchTrace T exec) : List Nat := tr.flatMap fun e => usedBy e.1 e.2

/-- The step is the device reset of a pass. -/
def resets (s : BenchState T exec) : BenchAct T exec → Bool
  | .threads (.rollback _ _) => s.threads.rollback == .devReset
  | _ => false

/-- How many iterators have been created since the last device reset. -/
def created : BenchTrace T exec → Nat
  | [] => 0
  | (s, act) :: tr =>
      if creates s act then created tr + 1 else if resets s act then 0 else created tr

def NoRound (tr : BenchTrace T exec) : Prop := ∀ e ∈ tr, ∀ table key, e.2 ≠ .round table key

def IdsInRange (tr : BenchTrace T exec) : Prop := ∀ id ∈ usedIds tr, id < maxIteratorNum

end Bench

end Kvaccel.Spec
