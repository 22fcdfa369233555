import Kvaccel.Proofs.Reads

/-!
# No deadlock, and every lock given back

`reset_mtx` is taken before `rollback_mtx` everywhere, and nobody who holds
`rollback_mtx`, on either side, takes another lock. A blocked thread therefore
waits for one that is further inside, and the innermost thread is ready.

The locks are released by hand on every branch. What the step lemmas say of
one access at a time adds up, over the steps of a call or of a pass, to
acquires and releases in turns.
-/

namespace Kvaccel.Ref

open Kvaccel.Lib Kvaccel.Spec

/-! ## Who is inside what -/

/-- `rollback_mtx` counts twice, for its exclusive and for its shared side. -/
inductive LockName where
  | reset
  | rollback
  | shared
deriving DecidableEq

def Access.onLock {D : DevLsm} (a : Access D) : LockName → LockOp
  | .reset => a.onReset
  | .rollback => a.onRollback
  | .shared => a.onShared

/-- A step of the thread, given what it finds outside. -/
def Thread.act {T : Type} {D : DevLsm} (env : D.Env) (m : Level × Int) :
    Thread T → Act T D
  | .client t => .client t env
  | .rollback => .rollback env m

def ClientPc.inside {Pc : Type} : ClientPc Pc → Bool
  | .idle => false
  | _ => true

/-- From `reset_mtx.lock()` on, with the wait for it. -/
def RollbackPc.inside {Pc : Type} : RollbackPc Pc → Bool
  | .monitor | .guard => false
  | _ => true

namespace State

section Inside

variable {T : Type} {D : DevLsm}

/-- In a call, or in a pass. -/
def inside (s : State T D) : Thread T → Bool
  | .client t => (s.clients t).inside
  | .rollback => s.rollback.inside

def holdsShared (s : State T D) : Thread T → Bool
  | .client t => (s.clients t).holdsShared
  | .rollback => false

def holdsLock (s : State T D) : LockName → Thread T → Bool
  | .reset => s.holdsReset
  | .rollback => s.holdsRollback
  | .shared => s.holdsShared

theorem inside_of_holdsReset {s : State T D} {θ : Thread T} (h : s.holdsReset θ = true) :
    s.inside θ = true := by
  cases θ with
  | client t =>
      simp only [inside]
      cases hpc : s.clients t with
      | idle =>
          rw [holdsReset, hpc] at h
          cases h
      | _ => rfl
  | rollback =>
      simp only [inside]
      cases hpc : s.rollback with
      | monitor =>
          rw [holdsReset, hpc] at h
          cases h
      | guard =>
          rw [holdsReset, hpc] at h
          cases h
      | _ => rfl

theorem inside_of_holdsShared {s : State T D} {θ : Thread T} (h : s.holdsShared θ = true) :
    s.inside θ = true := by
  cases θ with
  | client t =>
      simp only [inside]
      cases hpc : s.clients t with
      | idle =>
          rw [holdsShared, hpc] at h
          cases h
      | _ => rfl
  | rollback => cases h

theorem holdsLock_of_not_inside {s : State T D} {θ : Thread T} (h : s.inside θ = false)
    (lock : LockName) : s.holdsLock lock θ = false := by
  have hreset : s.holdsReset θ = false := by
    rw [← Bool.not_eq_true]
    intro hholds
    rw [inside_of_holdsReset hholds] at h
    cases h
  cases lock with
  | reset => exact hreset
  | rollback =>
      rw [← Bool.not_eq_true]
      intro hholds
      rw [holdsReset_of_holdsRollback hholds] at hreset
      cases hreset
  | shared =>
      rw [← Bool.not_eq_true]
      intro hholds
      rw [inside_of_holdsShared hholds] at h
      cases h

/-- How far inside: past `rollback_mtx`, past `reset_mtx` only, or neither. -/
def rank (s : State T D) (θ : Thread T) : Nat :=
  if s.holdsRollback θ = true ∨ s.holdsShared θ = true then 2
  else if s.holdsReset θ = true then 1
  else 0

theorem rank_le (s : State T D) (θ : Thread T) : s.rank θ ≤ 2 := by
  rw [rank]
  split
  · exact Nat.le_refl _
  · split
    · decide
    · decide

end Inside

/-! ## Waiting -/

section Waiting

variable {T : Type} {D : DevLsm} {murmur : Murmur} {env : D.Env} {m : Level × Int}

theorem clientCode_lockReset {pc : ClientPc D.Pc} {next : Shared T D → ClientPc D.Pc}
    (h : clientCode murmur env pc = some (.lockReset, next)) :
    pc.holdsReset = false ∧ pc.holdsRollback = false ∧ pc.holdsShared = false := by
  cases pc <;> cases h
  all_goals exact ⟨rfl, rfl, rfl⟩

theorem clientCode_lockRollback {pc : ClientPc D.Pc} {next : Shared T D → ClientPc D.Pc}
    (h : clientCode murmur env pc = some (.lockRollback, next)) :
    pc.holdsRollback = false ∧ pc.holdsShared = false := by
  cases pc <;> cases h
  all_goals exact ⟨rfl, rfl⟩

theorem clientCode_lockShared {pc : ClientPc D.Pc} {next : Shared T D → ClientPc D.Pc}
    (h : clientCode murmur env pc = some (.lockShared, next)) :
    pc.holdsRollback = false ∧ pc.holdsShared = false := by
  cases pc <;> cases h
  all_goals exact ⟨rfl, rfl⟩

theorem rollbackCode_lockReset {l : Locals} {pc : RollbackPc D.Pc}
    {next : Shared T D → RollbackPc D.Pc × Locals}
    (h : rollbackCode murmur env m l pc = (.lockReset, next)) :
    pc.holdsReset = false ∧ pc.holdsRollback = false := by
  cases pc <;> cases h
  all_goals exact ⟨rfl, rfl⟩

theorem rollbackCode_lockRollback {l : Locals} {pc : RollbackPc D.Pc}
    {next : Shared T D → RollbackPc D.Pc × Locals}
    (h : rollbackCode murmur env m l pc = (.lockRollback, next)) :
    pc.holdsRollback = false := by
  cases pc <;> cases h
  all_goals rfl

theorem rollbackCode_onShared {l : Locals} {pc : RollbackPc D.Pc} {a : Access D}
    {next : Shared T D → RollbackPc D.Pc × Locals}
    (h : rollbackCode murmur env m l pc = (a, next)) : a.onShared = .keep := by
  cases pc <;> cases h
  all_goals rfl

variable {s : State T D}

theorem Locks.rank_of_writer (h : Locks s) (hwriter : s.sh.rollbackMtx.writer ≠ none) :
    ∃ θ, s.inside θ = true ∧ s.rank θ = 2 := by
  obtain ⟨θ, hθ⟩ := Option.ne_none_iff_exists'.mp hwriter
  have hholds := (h.rollback θ).mpr hθ
  refine ⟨θ, inside_of_holdsReset (holdsReset_of_holdsRollback hholds), ?_⟩
  rw [rank, if_pos (Or.inl hholds)]

theorem Locks.rank_of_readers (h : Locks s) (hreaders : s.sh.rollbackMtx.readers ≠ ∅) :
    ∃ θ, s.inside θ = true ∧ s.rank θ = 2 := by
  obtain ⟨t, ht⟩ := Finset.nonempty_iff_ne_empty.mpr hreaders
  have hholds : s.holdsShared (.client t) = true := (h.shared t).mpr ht
  refine ⟨.client t, inside_of_holdsShared hholds, ?_⟩
  rw [rank, if_pos (Or.inr hholds)]

theorem Locks.rank_of_reset (h : Locks s) (hreset : s.sh.resetMtx ≠ none) :
    ∃ θ, s.inside θ = true ∧ 0 < s.rank θ := by
  obtain ⟨θ, hθ⟩ := Option.ne_none_iff_exists'.mp hreset
  have hholds := (h.reset θ).mpr hθ
  refine ⟨θ, inside_of_holdsReset hholds, ?_⟩
  rw [rank, if_pos hholds]
  split
  · decide
  · decide

variable [DecidableEq T]

/-- What a thread waits for: an access that is not ready is one of the three
locks, and somebody has it. -/
theorem blocked {a : Access D} {sh : Shared T D} (h : ¬ a.ready sh = true) :
    a = .lockReset ∧ sh.resetMtx ≠ none ∨
      a = .lockRollback ∧ (sh.rollbackMtx.writer ≠ none ∨ sh.rollbackMtx.readers ≠ ∅) ∨
      a = .lockShared ∧ sh.rollbackMtx.writer ≠ none := by
  cases a with
  | lockReset => exact Or.inl ⟨rfl, fun hnone => h (Access.ready_lockReset.mpr hnone)⟩
  | lockRollback =>
      refine Or.inr (Or.inl ⟨rfl, ?_⟩)
      by_contra hfree
      rw [not_or, not_not, not_not] at hfree
      exact h (Access.ready_lockRollback.mpr hfree)
  | lockShared =>
      exact Or.inr (Or.inr ⟨rfl, fun hnone => h (Access.ready_lockShared.mpr hnone)⟩)
  | _ => exact absurd rfl h

/-- A thread at an access that is not ready waits for one further inside. -/
theorem Locks.waits (h : Locks s) {θ : Thread T} {a : Access D}
    (hblocked : ¬ a.ready s.sh = true)
    (hreset : a = .lockReset → s.holdsReset θ = false ∧ s.holdsRollback θ = false ∧
      s.holdsShared θ = false)
    (hrollback : a = .lockRollback ∨ a = .lockShared →
      s.holdsRollback θ = false ∧ s.holdsShared θ = false) :
    ∃ θ', s.inside θ' = true ∧ s.rank θ < s.rank θ' := by
  have hlow : s.holdsRollback θ = false → s.holdsShared θ = false → s.rank θ < 2 := by
    intro hr hs
    rw [rank, if_neg (by simp [hr, hs])]
    split
    · decide
    · decide
  rcases blocked hblocked with ⟨ha, howner⟩ | ⟨ha, howner⟩ | ⟨ha, howner⟩
  · obtain ⟨hno, hr, hs⟩ := hreset ha
    obtain ⟨θ', hin, hrank⟩ := h.rank_of_reset howner
    refine ⟨θ', hin, ?_⟩
    have hzero : s.rank θ = 0 := by
      rw [rank, if_neg (by simp [hr, hs]), if_neg (by simp [hno])]
    omega
  · obtain ⟨hr, hs⟩ := hrollback (Or.inl ha)
    have hlt := hlow hr hs
    obtain ⟨θ', hin, hrank⟩ : ∃ θ', s.inside θ' = true ∧ s.rank θ' = 2 := by
      rcases howner with hw | hreaders
      · exact h.rank_of_writer hw
      · exact h.rank_of_readers hreaders
    exact ⟨θ', hin, by omega⟩
  · obtain ⟨hr, hs⟩ := hrollback (Or.inr ha)
    have hlt := hlow hr hs
    obtain ⟨θ', hin, hrank⟩ := h.rank_of_writer howner
    exact ⟨θ', hin, by omega⟩

theorem Locks.ready_or_waits (h : Locks s) (θ : Thread T) (hθ : s.inside θ = true) :
    (∀ env m, (s.step murmur (θ.act env m)).isSome) ∨
      ∃ θ', s.inside θ' = true ∧ s.rank θ < s.rank θ' := by
  by_contra hnot
  rw [not_or] at hnot
  obtain ⟨hready, hwaits⟩ := hnot
  rw [not_forall] at hready
  obtain ⟨env, hready⟩ := hready
  rw [not_forall] at hready
  obtain ⟨m, hready⟩ := hready
  refine hwaits ?_
  cases θ with
  | client t =>
      cases hcode : clientCode (T := T) murmur env (s.clients t) with
      | none =>
          -- Only an idle client has no next access.
          cases hpc : s.clients t <;> rw [hpc] at hcode <;> cases hcode
          rw [inside, hpc] at hθ
          cases hθ
      | some code =>
          obtain ⟨a, next⟩ := code
          refine h.waits (a := a) (fun hr => hready ?_) ?_ ?_
          · simp only [Thread.act, State.step, hcode, hr, if_true]
            rfl
          · intro ha
            exact clientCode_lockReset (ha ▸ hcode)
          · intro ha
            rcases ha with ha | ha
            · exact clientCode_lockRollback (ha ▸ hcode)
            · exact clientCode_lockShared (ha ▸ hcode)
  | rollback =>
      cases hcode : rollbackCode (T := T) murmur env m s.locals s.rollback with
      | mk a next =>
          refine h.waits (a := a) (fun hr => hready ?_) ?_ ?_
          · simp only [Thread.act, State.step, hcode, hr, if_true]
            rfl
          · intro ha
            obtain ⟨hno, hr⟩ := rollbackCode_lockReset (ha ▸ hcode)
            exact ⟨hno, hr, rfl⟩
          · intro ha
            rcases ha with ha | ha
            · exact ⟨rollbackCode_lockRollback (ha ▸ hcode), rfl⟩
            · have hkeep := rollbackCode_onShared (ha ▸ hcode)
              cases hkeep

end Waiting

/-! ## What one thread does to a lock -/

section Operations

variable {T : Type} [DecidableEq T] {D : DevLsm} {murmur : Murmur}

/-- What a step of the run is to the lock, as an operation of `θ`. -/
def lockOp (murmur : Murmur) (lock : LockName) (θ : Thread T)
    (e : State T D × Act T D) : LockOp :=
  match e.2 with
  | .client t env =>
      if θ = .client t then
        match clientCode (T := T) murmur env (e.1.clients t) with
        | some (a, _) => a.onLock lock
        | none => .keep
      else .keep
  | .rollback env m =>
      if θ = .rollback then
        (rollbackCode (T := T) murmur env m e.1.locals e.1.rollback).1.onLock lock
      else .keep
  | _ => .keep

variable {s s' : State T D} {act : Act T D}

theorem passes_client {t : T} {env : D.Env} {a : Access D}
    {next : Shared T D → ClientPc D.Pc}
    (hcode : clientCode murmur env (s.clients t) = some (a, next)) (lock : LockName) :
    (a.onLock lock).Passes (s.holdsLock lock (.client t))
      ((s.setClient t (next s.sh)).holdsLock lock (.client t)) := by
  cases lock with
  | reset =>
      simp only [holdsLock, holdsReset, setClient_self]
      exact clientCode_holdsReset hcode s.sh
  | rollback =>
      simp only [holdsLock, holdsRollback, setClient_self]
      exact clientCode_holdsRollback hcode s.sh
  | shared =>
      simp only [holdsLock, holdsShared, setClient_self]
      exact clientCode_holdsShared hcode s.sh

omit [DecidableEq T] in
theorem passes_rollback {env : D.Env} {m : Level × Int} {a : Access D}
    {next : Shared T D → RollbackPc D.Pc × Locals} {sh : Shared T D}
    (hcode : rollbackCode murmur env m s.locals s.rollback = (a, next)) (lock : LockName) :
    (a.onLock lock).Passes (s.holdsLock lock .rollback)
      (holdsLock { s with sh := sh, rollback := (next s.sh).1, locals := (next s.sh).2 }
        lock .rollback) := by
  cases lock with
  | reset => exact rollbackCode_holdsReset hcode s.sh
  | rollback => exact rollbackCode_holdsRollback hcode s.sh
  | shared =>
      rw [Access.onLock, rollbackCode_onShared hcode]
      rfl

/-- A step of another thread leaves the counter where it is. -/
theorem holdsLock_setClient_ne {t : T} {pc : ClientPc D.Pc} {θ : Thread T}
    (h : θ ≠ .client t) (lock : LockName) :
    (s.setClient t pc).holdsLock lock θ = s.holdsLock lock θ := by
  cases θ with
  | client t' =>
      have hne : t' ≠ t := fun heq => h (by rw [heq])
      cases lock <;>
        simp only [holdsLock, holdsReset, holdsRollback, holdsShared, setClient_ne s pc hne]
  | rollback => cases lock <;> rfl

/-- A client that has just called is outside every critical section. -/
theorem holdsLock_called {t : T} {pc : ClientPc D.Pc} (hidle : s.clients t = .idle)
    (hreset : pc.holdsReset = false) (hrollback : pc.holdsRollback = false)
    (hshared : pc.holdsShared = false) (θ : Thread T) (lock : LockName) :
    (s.setClient t pc).holdsLock lock θ = s.holdsLock lock θ := by
  by_cases hθ : θ = .client t
  · subst hθ
    cases lock with
    | reset =>
        simp only [holdsLock, holdsReset, setClient_self, hreset, hidle]
        rfl
    | rollback =>
        simp only [holdsLock, holdsRollback, setClient_self, hrollback, hidle]
        rfl
    | shared =>
        simp only [holdsLock, holdsShared, setClient_self, hshared, hidle]
        rfl
  · exact holdsLock_setClient_ne hθ lock

theorem lockOp_passes (hstep : s.step murmur act = some s') (lock : LockName)
    (θ : Thread T) :
    (lockOp murmur lock θ (s, act)).Passes (s.holdsLock lock θ) (s'.holdsLock lock θ) := by
  cases Steps.of_step hstep with
  | callPut t k v hidle => exact holdsLock_called hidle rfl rfl rfl θ lock
  | callGet t k hidle => exact holdsLock_called hidle rfl rfl rfl θ lock
  | client t env a next hcode hready =>
      simp only [lockOp]
      split
      · next hθ =>
        subst hθ
        rw [hcode]
        exact passes_client hcode lock
      · next hθ => exact holdsLock_setClient_ne hθ lock
  | rollback env m a next hcode hready =>
      simp only [lockOp]
      split
      · next hθ =>
        subst hθ
        rw [hcode]
        exact passes_rollback hcode lock
      · next hθ =>
        cases θ with
        | client t => cases lock <;> rfl
        | rollback => exact absurd rfl hθ

/-- Nobody acquires a lock in the step that takes it inside. -/
theorem lockOp_of_not_inside {θ : Thread T} (h : s.inside θ = false)
    (hstep : s.step murmur act = some s') (lock : LockName) :
    lockOp murmur lock θ (s, act) = .keep := by
  cases Steps.of_step hstep with
  | callPut t k v hidle => rfl
  | callGet t k hidle => rfl
  | client t env a next hcode hready =>
      simp only [lockOp]
      split
      · next hθ =>
        subst hθ
        have hidle : s.clients t = .idle := by
          simp only [inside] at h
          cases hpc : s.clients t with
          | idle => rfl
          | _ => rw [hpc] at h; cases h
        rw [hidle] at hcode
        cases hcode
      · rfl
  | rollback env m a next hcode hready =>
      simp only [lockOp]
      split
      · next hθ =>
        subst hθ
        simp only [inside] at h
        cases hpc : s.rollback with
        | monitor => cases lock <;> rfl
        | guard => cases lock <;> rfl
        | _ => rw [hpc] at h; cases h
      · rfl

/-- The operations of `θ` on a lock since it was last outside. -/
def lockOps (murmur : Murmur) (lock : LockName) (θ : Thread T)
    (tr : List (State T D × Act T D)) : List LockOp :=
  ((stepsSince (fun s => !s.inside θ) tr).map (lockOp murmur lock θ)).reverse

variable {main : Key → Option Value} {dev : D.St} {tr : List (State T D × Act T D)}

theorem run_trail (h : Run (step murmur) (fun _ _ => True) (opened main dev) tr s)
    (lock : LockName) (θ : Thread T) :
    Trail (s.holdsLock lock θ) (lockOps murmur lock θ tr) := by
  rw [lockOps]
  refine @Run.trail _ _ _ _ _ _ (fun s => s.holdsLock lock θ) _ _ _ h ?_ ?_ ?_
  · refine holdsLock_of_not_inside ?_ lock
    cases θ <;> rfl
  · intro s a s' hidle hstep
    have hin : s.inside θ = false := by simpa using hidle
    have hpass := lockOp_passes hstep lock θ
    rw [lockOp_of_not_inside hin hstep lock] at hpass
    have hsame : s'.holdsLock lock θ = s.holdsLock lock θ := hpass
    rw [hsame, holdsLock_of_not_inside hin lock]
  · intro s a s' _ hstep
    exact lockOp_passes hstep lock θ

theorem run_locks (h : Run (step murmur) (fun _ _ => True) (opened main dev) tr s) :
    Locks s :=
  h.invariant (locks_opened main dev) fun _ _ _ hinv _ hstep => hinv.step hstep

/-- In every reachable state, if a thread is in a call or in a pass then such a
thread can take its next step, whatever that step finds outside. And a thread
that has come out of a call or a pass acquired and released each lock in turns
there. -/
theorem never_deadlocks_and_releases
    (h : Run (step murmur) (fun _ _ => True) (opened main dev) tr s) :
    (∀ θ, s.inside θ = true → ∃ θ', s.inside θ' = true ∧
        ∀ env m, (s.step murmur (θ'.act env m)).isSome) ∧
      ∀ θ, s.inside θ = false → ∀ lock, Paired (lockOps murmur lock θ tr) := by
  constructor
  · refine exists_ready_of_rank s.rank_le ?_
    exact (run_locks h).ready_or_waits
  · intro θ hθ lock
    have htrail := run_trail h lock θ
    rw [holdsLock_of_not_inside hθ lock] at htrail
    exact htrail.paired

end Operations

/-- A put that finds `reset_mtx` taken by a pass. -/
def blockedPut : List (Act Bool idealDev) :=
  redirected ++ rollbackMoves 2 ++ .callPut true [48, 48, 48, 48] [2] :: clientMoves true 1

/-- The put that waits for the pass, and the redirected put before it that has
returned. -/
theorem never_deadlocks_blockedPut :
    (step murmurHash3 (replay (step murmurHash3) start blockedPut) (.client true [])).isNone ∧
      (∃ θ, (replay (step murmurHash3) start blockedPut).inside θ = true ∧
        ∀ env m, (step murmurHash3 (replay (step murmurHash3) start blockedPut)
          (θ.act env m)).isSome) ∧
      lockOps murmurHash3 .reset (.client true)
          (replayTrace (step murmurHash3) start redirected []) =
        [.keep, .acquire, .keep, .keep, .keep, .release, .keep] ∧
      Paired (lockOps murmurHash3 .reset (.client true)
        (replayTrace (step murmurHash3) start redirected [])) :=
  ⟨rfl,
    (never_deadlocks_and_releases
      (Run.replay blockedPut .start fun _ _ => trivial)).1 (.client true) rfl,
    by decide,
    (never_deadlocks_and_releases
      (Run.replay redirected .start fun _ _ => trivial)).2 (.client true) rfl .reset⟩

end State

end Kvaccel.Ref
