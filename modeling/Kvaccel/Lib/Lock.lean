import Mathlib.Data.Finset.Basic
import Kvaccel.Lib.Run

/-!
# Locks by program counter

A program that locks and unlocks by hand keeps two accounts of a lock: the
lock's own owner field, and the places in the code between an acquire and its
release. `Agrees` says that the two accounts match for every thread. A step
of a thread does one `LockOp` to the lock; what the operation does to the
owner is `Acts`, what the code around it must do to the counter is `Passes`,
and a step with both keeps the agreement. Proving an agreement for a program
is thus reading its code once: each row passes as its access acts.

The same reading says that an operation which ends outside every critical
section has acquired and released in turns (`Run.trail`). And where a thread
only ever waits for one that is further inside, the threads cannot all be
waiting (`exists_ready_of_rank`).
-/

namespace Kvaccel.Lib

/-- What a step does to a lock. -/
inductive LockOp where
  | keep
  | acquire
  | release
deriving DecidableEq

/-- How the counter moves: into the critical section, out of it, or neither. -/
def LockOp.Passes : LockOp → Bool → Bool → Prop
  | .keep, held, held' => held' = held
  | .acquire, held, held' => held = false ∧ held' = true
  | .release, held, held' => held = true ∧ held' = false

/-! ## Exclusive locks -/

section Exclusive

variable {Θ : Type} {owner owner' : Option Θ} {holds holds' : Θ → Bool} {θ : Θ}

/-- How the owner changes under a step of `θ`. -/
def LockOp.Acts (θ : Θ) : LockOp → Option Θ → Option Θ → Prop
  | .keep, owner, owner' => owner' = owner
  | .acquire, owner, owner' => owner = none ∧ owner' = some θ
  | .release, _, owner' => owner' = none

theorem LockOp.acts_keep (θ : Θ) (owner : Option Θ) :
    LockOp.keep.Acts θ owner owner := rfl

/-- The threads inside the critical section are exactly the owner. -/
def Agrees (owner : Option Θ) (holds : Θ → Bool) : Prop :=
  ∀ θ, holds θ = true ↔ owner = some θ

theorem Agrees.step (h : Agrees owner holds) (θ : Θ) {op : LockOp}
    (hacts : op.Acts θ owner owner') (hpass : op.Passes (holds θ) (holds' θ))
    (hframe : ∀ θ', θ' ≠ θ → holds' θ' = holds θ') : Agrees owner' holds' := by
  intro θ'
  by_cases heq : θ' = θ
  · subst heq
    cases op with
    | keep =>
        have hkeep : owner' = owner := hacts
        have hheld : holds' θ' = holds θ' := hpass
        rw [hkeep, hheld, h θ']
    | acquire => rw [hacts.2, hpass.2]; simp
    | release =>
        have hfree : owner' = none := hacts
        rw [hfree, hpass.2]; simp
  · rw [hframe θ' heq, h θ']
    cases op with
    | keep =>
        have hkeep : owner' = owner := hacts
        rw [hkeep]
    | acquire =>
        rw [hacts.1, hacts.2]
        simp only [reduceCtorEq, Option.some.injEq, false_iff]
        exact fun h => heq h.symm
    | release =>
        have hfree : owner' = none := hacts
        have hown : owner = some θ := (h θ).mp hpass.1
        rw [hfree, hown]
        simp only [Option.some.injEq, reduceCtorEq, iff_false]
        exact fun h => heq h.symm

/-- Two threads are never inside together. -/
theorem Agrees.unique (h : Agrees owner holds) {θ θ' : Θ} (hθ : holds θ = true)
    (hθ' : holds θ' = true) : θ = θ' := by
  have := (h θ).mp hθ
  rw [(h θ').mp hθ'] at this
  exact (Option.some.inj this).symm

end Exclusive

/-! ## Shared holders -/

section SharedHolders

variable {T : Type} [DecidableEq T] {readers readers' : Finset T}
  {holds holds' : T → Bool} {t : T}

def LockOp.ActsShared (t : T) : LockOp → Finset T → Finset T → Prop
  | .keep, readers, readers' => readers' = readers
  | .acquire, readers, readers' => readers' = insert t readers
  | .release, readers, readers' => readers' = readers.erase t

theorem LockOp.actsShared_keep (t : T) (readers : Finset T) :
    LockOp.keep.ActsShared t readers readers := rfl

def AgreesShared (readers : Finset T) (holds : T → Bool) : Prop :=
  ∀ t, holds t = true ↔ t ∈ readers

theorem AgreesShared.step (h : AgreesShared readers holds) (t : T) {op : LockOp}
    (hacts : op.ActsShared t readers readers')
    (hpass : op.Passes (holds t) (holds' t))
    (hframe : ∀ t', t' ≠ t → holds' t' = holds t') :
    AgreesShared readers' holds' := by
  intro t'
  by_cases heq : t' = t
  · subst heq
    cases op with
    | keep =>
        have hkeep : readers' = readers := hacts
        have hheld : holds' t' = holds t' := hpass
        rw [hkeep, hheld, h t']
    | acquire =>
        have hins : readers' = insert t' readers := hacts
        rw [hins, hpass.2]; simp
    | release =>
        have herase : readers' = readers.erase t' := hacts
        rw [herase, hpass.2]; simp
  · rw [hframe t' heq, h t']
    cases op with
    | keep =>
        have hkeep : readers' = readers := hacts
        rw [hkeep]
    | acquire =>
        have hins : readers' = insert t readers := hacts
        rw [hins]; simp [heq]
    | release =>
        have herase : readers' = readers.erase t := hacts
        rw [herase]; simp [heq]

end SharedHolders

/-! ## The operations of one thread -/

/-- Acquired and released in turns, `n` times. -/
def LockOp.pairs (n : Nat) : List LockOp := (List.replicate n [.acquire, .release]).flatten

/-- What a thread did to a lock, oldest first: pairs, and an acquire after
them while the lock is held. -/
def Trail (held : Bool) (ops : List LockOp) : Prop :=
  ∃ n, ops.filter (· ≠ .keep) = LockOp.pairs n ++ if held then [.acquire] else []

/-- Every acquire is followed by its release, and there is no other one. -/
def Paired (ops : List LockOp) : Prop :=
  ∃ n, ops.filter (· ≠ .keep) = LockOp.pairs n

theorem trail_nil : Trail false [] := ⟨0, rfl⟩

theorem Trail.paired {ops : List LockOp} (h : Trail false ops) : Paired ops := by
  obtain ⟨n, hn⟩ := h
  refine ⟨n, ?_⟩
  rw [hn]
  exact List.append_nil _

theorem LockOp.pairs_succ (n : Nat) :
    LockOp.pairs (n + 1) = LockOp.pairs n ++ [.acquire] ++ [.release] := by
  rw [LockOp.pairs, List.replicate_succ', List.flatten_append]
  simp [LockOp.pairs]

theorem Trail.step {held held' : Bool} {ops : List LockOp} {op : LockOp}
    (h : Trail held ops) (hpass : op.Passes held held') : Trail held' (ops ++ [op]) := by
  obtain ⟨n, hn⟩ := h
  cases op with
  | keep =>
      have hheld : held' = held := hpass
      subst hheld
      refine ⟨n, ?_⟩
      rw [List.filter_append, hn]
      simp
  | acquire =>
      obtain ⟨rfl, rfl⟩ := hpass
      refine ⟨n, ?_⟩
      rw [List.filter_append, hn]
      simp
  | release =>
      obtain ⟨rfl, rfl⟩ := hpass
      refine ⟨n + 1, ?_⟩
      rw [List.filter_append, hn, LockOp.pairs_succ]
      simp

/-- Along a run: a thread that is outside the critical section whenever it is
idle, and passes the lock as it goes, leaves a trail since it was idle. -/
theorem Run.trail {S A : Type} {step : S → A → Option S} {Q : S → A → Prop} {s₀ : S}
    {idle held : S → Bool} {op : S × A → LockOp} {tr : List (S × A)} {s : S}
    (h : Run step Q s₀ tr s) (hstart : held s₀ = false)
    (hidle : ∀ s a s', idle s = true → step s a = some s' → held s' = false)
    (hbusy : ∀ s a s', idle s = false → step s a = some s' →
      (op (s, a)).Passes (held s) (held s')) :
    Trail (held s) ((stepsSince idle tr).map op).reverse := by
  induction h with
  | start =>
      rw [hstart]
      exact trail_nil
  | @next tr s s' a run _ htaken ih =>
      cases hs : idle s with
      | true =>
          rw [hidle s a s' hs htaken, stepsSince]
          simp only [hs, Bool.not_true, List.takeWhile_cons]
          exact trail_nil
      | false =>
          rw [stepsSince_cons hs, List.map_cons, List.reverse_cons]
          exact ih.step (hbusy s a s' hs htaken)

/-! ## Waiting -/

/-- Among threads that are ready or wait for one of higher rank, the ranks
being bounded, some thread is ready. -/
theorem exists_ready_of_rank {Θ : Type} {inside ready : Θ → Prop} {rank : Θ → Nat}
    {bound : Nat} (hbound : ∀ θ, rank θ ≤ bound)
    (hwaits : ∀ θ, inside θ → ready θ ∨ ∃ θ', inside θ' ∧ rank θ < rank θ') :
    ∀ θ, inside θ → ∃ θ', inside θ' ∧ ready θ' := by
  -- On how far the thread is from the bound.
  have hfar : ∀ n θ, bound - rank θ ≤ n → inside θ → ∃ θ', inside θ' ∧ ready θ' := by
    intro n
    induction n with
    | zero =>
        intro θ hn hθ
        rcases hwaits θ hθ with hready | ⟨θ', hθ', hlt⟩
        · exact ⟨θ, hθ, hready⟩
        · have := hbound θ'
          omega
    | succ n ih =>
        intro θ hn hθ
        rcases hwaits θ hθ with hready | ⟨θ', hθ', hlt⟩
        · exact ⟨θ, hθ, hready⟩
        · exact ih θ' (by omega) hθ'
  intro θ hθ
  exact hfar (bound - rank θ) θ (Nat.le_refl _) hθ

end Kvaccel.Lib
