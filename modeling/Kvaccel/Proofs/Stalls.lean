import Kvaccel.Proofs.Monitor
import Kvaccel.Proofs.Threads
import Kvaccel.Spec.IdealDev

/-!
# The rollback thread and stalls

The guard of a pass asks for the L0 count and not for the level, and inside a
pass the level is measured after every record and not looked at. So a run keeps
clear of stalls only as far as its measurements do it for the code, and
`Heeds` says what they have to be, step by step. A step that does not change
the level leaves a run as clear as it was; the two that lead to a write, from
the guard and from `Contains`, are the ones where the last measurement counts.
-/

namespace Kvaccel.Ref

open Kvaccel.Lib Kvaccel.Spec

namespace State

/-! ## The measurement made last -/

section Clear

variable {T : Type} [DecidableEq T] {D : DevLsm} {murmur : Murmur}
  {Q : State T D → Act T D → Prop} {main : Key → Option Value} {dev : D.St}
  {tr : List (State T D × Act T D)} {s s' : State T D} {act : Act T D}

/-- The level is that of the last measurement, as soon as there is one. -/
def Current (tr : List (State T D × Act T D)) (s : State T D) : Prop :=
  lastLevel tr = none ∧ s.rollback = .monitor ∨ lastLevel tr = some s.sh.level

theorem Current.step (h : Current tr s) (htaken : s.step murmur act = some s') :
    Current ((s, act) :: tr) s' := by
  cases Steps.of_step htaken with
  | callPut t k v hidle => exact h
  | callGet t k hidle => exact h
  | client t env a next hcode hready =>
      rcases a.effect_level murmur (.client t) env s.sh with hsame | ⟨m, rfl, _⟩
      · exact h.imp id fun hlast => hlast.trans (congrArg some hsame.symm)
      · exact absurd hcode clientCode_setLevel
  | rollback env m a next hcode hready =>
      obtain ⟨sh, clients, pc, l⟩ := s
      cases pc with
      | monitor | remonitor =>
          cases hcode
          exact Or.inr rfl
      | _ =>
          cases hcode
          rcases h with ⟨_, hpc⟩ | hlast
          · cases hpc
          · exact Or.inr hlast

theorem current (hrun : Run (step murmur) Q (opened main dev) tr s) : Current tr s := by
  induction hrun with
  | start => exact Or.inl ⟨rfl, rfl⟩
  | next _ _ htaken ih => exact ih.step htaken

omit [DecidableEq T] in
/-- Past the first measurement. -/
theorem Current.lastLevel (h : Current tr s) (hpc : s.rollback ≠ .monitor) :
    lastLevel tr = some s.sh.level :=
  h.resolve_left fun hnone => hpc hnone.2

/-! ## A step -/

/-- A branch that may lead to a write keeps clear exactly if it is not taken under
`LEVEL_HIGH`. -/
theorem clear_branch_iff {Pc : Type} {p : Prop} [Decidable p] {a b : RollbackPc Pc}
    (ha : entersMain a = true) (hb : entersMain b = false) (level : Level) :
    (entersMain (if p then a else b) = true → some level ≠ some .high) ↔
      (level = .high → ¬ p) := by
  by_cases hp : p
  · rw [if_pos hp]
    exact ⟨fun h hhigh => absurd (congrArg some hhigh) (h ha),
      fun h _ hhigh => h (Option.some.inj hhigh) hp⟩
  · rw [if_neg hp, hb]
    exact iff_of_true nofun fun _ => hp

/-- A run that was clear stays clear by a step exactly if the step heeds the
last measurement. -/
theorem keepsClear_step (hcur : Current tr s) (hclear : KeepsClear tr s)
    (htaken : s.step murmur act = some s') :
    KeepsClear ((s, act) :: tr) s' ↔ Heeds murmur s act := by
  cases Steps.of_step htaken with
  | callPut t k v hidle => exact iff_of_true hclear trivial
  | callGet t k hidle => exact iff_of_true hclear trivial
  | client t env a next hcode hready => exact iff_of_true hclear trivial
  | rollback env m a next hcode hready =>
      obtain ⟨sh, clients, pc, l⟩ := s
      cases pc with
      | guard =>
          cases hcode
          have hlast : Spec.lastLevel tr = some sh.level := hcur.lastLevel nofun
          show (entersMain (if sh.rollbackStatus ≤ 26 ∧ sh.kacheFlag = 1 then _ else _) = true →
            Spec.lastLevel tr ≠ some .high) ↔
            (sh.level = .high → sh.kacheFlag = 1 → 26 < sh.rollbackStatus)
          rw [hlast, clear_branch_iff rfl rfl]
          refine imp_congr_right fun _ => ?_
          omega
      | contains =>
          cases hcode
          have hlast : Spec.lastLevel tr = some sh.level := hcur.lastLevel nofun
          show (entersMain (if sh.tracked murmur l.key then _ else _) = true →
            Spec.lastLevel tr ≠ some .high) ↔
            (sh.level = .high → sh.tracked murmur l.key = false)
          rw [hlast, clear_branch_iff rfl rfl, Bool.not_eq_true]
      | lockReset | delete =>
          cases hcode
          exact iff_of_true (fun _ => hclear rfl) trivial
      | createIter _ | lock _ | loop =>
          cases hcode
          refine iff_of_true (fun henters => ?_) trivial
          revert henters
          dsimp only
          split <;> exact nofun
      | _ =>
          cases hcode
          exact iff_of_true nofun trivial

end Clear

/-! ## A run that goes wrong -/

section Stalled

variable {murmur : Murmur} {o : MonitorOptions} {M : Set Measured}

/-- A step of the rollback thread; a measurement at it is `LEVEL_HIGH` with `n`
files. -/
def stallAct (n : Int) : Act Unit idealDev := .rollback [] (.high, n)

/-- Two redirected puts, after a measurement of the stall. -/
def redirectTwo (n : Int) : List (Act Unit idealDev) :=
  stallAct n ::
    (.callPut () [48, 48, 48, 48] [1] :: List.replicate 7 (.client () [])) ++
    (.callPut () [48, 48, 48, 49] [2] :: List.replicate 7 (.client () []))

/-- The opened state over empty stores. -/
def blank : State Unit idealDev := opened (fun _ => none) { store := ∅, cursor := [] }

variable (murmur) in
/-- At the guard, with the stall measured. -/
def atGuard (n : Int) : State Unit idealDev := replay (step murmur) blank (redirectTwo n)

theorem sees_redirectTwo {n : Int} (hsees : ∀ s, Sees o M s (stallAct n))
    {act : Act Unit idealDev} (hact : act ∈ redirectTwo n) (s : State Unit idealDev) :
    Sees o M s act := by
  simp only [redirectTwo, List.cons_append, List.mem_cons, List.mem_append,
    List.mem_replicate] at hact
  rcases hact with rfl | rfl | ⟨_, rfl⟩ | rfl | ⟨_, rfl⟩
  · exact hsees s
  all_goals trivial

/-- Steps that see nothing but the stall. -/
theorem replay_stall {n : Int} (hsees : ∀ s, Sees o M s (stallAct n)) (k : Nat)
    {tr : List (State Unit idealDev × Act Unit idealDev)} {s : State Unit idealDev}
    (hrun : Run (step murmur) (Sees o M) blank tr s) :
    Run (step murmur) (Sees o M) blank
      (replayTrace (step murmur) s (List.replicate k (stallAct n)) tr)
      (replay (step murmur) s (List.replicate k (stallAct n))) := by
  refine hrun.replay_allowed fun a ha => ?_
  rw [List.eq_of_mem_replicate ha]
  exact hsees

/-- The guard is reached with the stall measured. -/
theorem replay_redirectTwo {n : Int} (hsees : ∀ s, Sees o M s (stallAct n)) :
    Run (step murmur) (Sees o M) blank
      (replayTrace (step murmur) blank (redirectTwo n) []) (atGuard murmur n) :=
  Run.start.replay_allowed fun _ ha => sees_redirectTwo hsees ha

end Stalled

end State

end Kvaccel.Ref

namespace Kvaccel.Spec

open Kvaccel.Lib Kvaccel.Ref

theorem ClearThroughout.now {T : Type} {D : DevLsm} {tr : List (State T D × Act T D)}
    {s : State T D} (h : ClearThroughout tr s) : KeepsClear tr s := by
  cases tr with
  | nil => exact h
  | cons e tr => exact h.1

/-- A run keeps clear of stalls, in all its states, exactly if each of its steps
heeds the last measurement. -/
theorem rollback_keepsClear_iff {T : Type} [DecidableEq T] {D : DevLsm} {murmur : Murmur}
    {main : Key → Option Value} {dev : D.St} {tr : List (State T D × Act T D)} {s : State T D}
    (h : Run (State.step murmur) (fun _ _ => True) (State.opened main dev) tr s) :
    ClearThroughout tr s ↔ ∀ e ∈ tr, Heeds murmur e.1 e.2 := by
  induction h with
  | start => exact iff_of_true (fun h => absurd h Bool.false_ne_true) fun _ he => by cases he
  | @next tr s s' act run _ htaken ih =>
      have hcur := State.current run
      rw [List.forall_mem_cons, ← ih, ClearThroughout]
      constructor
      · rintro ⟨hlast, hbefore⟩
        exact ⟨(State.keepsClear_step hcur hbefore.now htaken).mp hlast, hbefore⟩
      · rintro ⟨hheeds, hbefore⟩
        exact ⟨(State.keepsClear_step hcur hbefore.now htaken).mpr hheeds, hbefore⟩

/-- A stall at 40 files, a put that is redirected, and a pass at 10. -/
def clearing : List (Act Unit idealDev) :=
  .rollback [] (.high, 40) ::
    (.callPut () [48, 48, 48, 48] [1] :: List.replicate 7 (.client () [])) ++
    List.replicate 24 (.rollback [] (.low, 10))

/-- It gets the record to Main-LSM. -/
theorem rollback_keepsClear_clearing :
    (replay (State.step murmurHash3) State.blank clearing).sh.main [48, 48, 48, 48] = some [1] ∧
      ClearThroughout (replayTrace (State.step murmurHash3) State.blank clearing [])
        (replay (State.step murmurHash3) State.blank clearing) :=
  ⟨by decide +kernel,
    (rollback_keepsClear_iff (Run.start.replay_allowed fun _ _ _ => trivial)).mpr
      (by decide +kernel)⟩

/-- Ten L0 files with the hard limit of pending compaction reached: `LEVEL_HIGH`,
and the pass that starts has a record to write. -/
theorem rollback_enters_stall :
    ∃ (tr : List (State Unit idealDev × Act Unit idealDev)) (s : State Unit idealDev),
      Run (State.step murmurHash3) (Sees defaultLimits {⟨10, 0, 274877906944, by decide⟩})
        State.blank tr s ∧
      s.rollback = .put ∧ s.sh.resetMtx = some .rollback ∧ lastLevel tr = some .high := by
  have hsees : ∀ s : State Unit idealDev,
      Sees defaultLimits {⟨10, 0, 274877906944, by decide⟩} s (State.stallAct 10) :=
    fun _ _ => ⟨_, rfl, by decide⟩
  exact ⟨_, _, State.replay_stall hsees 9 (State.replay_redirectTwo hsees),
    by decide, by decide, by decide⟩

end Kvaccel.Spec
