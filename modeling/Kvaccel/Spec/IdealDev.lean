import Kvaccel.Lib.Run
import Kvaccel.Ref.Threads

/-!
# Threads over an ideal Dev-LSM

Dev-LSM as a finite map whose every command succeeds at once, with a scan that
delivers each record once, in any order the environment asks for. The states
of the threads over it have a `view` of every key, the value a reader is
entitled to: Dev-LSM's where the tracker says so and Main-LSM's otherwise.

A read is right when it returns the view of some instant at which no thread
held `rollback_mtx` exclusively, between the call of `Get` and its return.
-/

namespace Kvaccel.Spec

open Kvaccel.Lib Kvaccel.Ref

structure IdealSt where
  store : DevMap
  /-- What the open scan has still to deliver. -/
  cursor : List (Key × Value)

inductive IdealPc where
  | put (k : Key) (v : Value)
  | iter
deriving DecidableEq

def idealDev : DevLsm where
  St := IdealSt
  Env := List (Key × Value)
  Pc := IdealPc
  putPc := .put
  iterPc := .iter
  step := fun _ pc iterId st =>
    match pc with
    | .put k v => (none, iterId, { st with store := st.store.insert (firstFour k) v })
    | .iter => (none, iterId, st)
  get := fun _ k st =>
    match st.store.lookup (firstFour k) with
    | some v => (v.length, v, st)
    | none => (-2, [], st)
  seekScan := fun order _ key value st =>
    match st.store.scanOrder order with
    | [] => (-2, key, value, st)
    | r :: rest => (1, r.1, r.2, { st with cursor := rest })
  nextScan := fun _ _ key value st =>
    match st.cursor with
    | [] => (-3, key, value, st)
    | r :: rest => (1, r.1, r.2, { st with cursor := rest })
  reset := fun _ _ => { store := ∅, cursor := [] }

instance : DecidableEq idealDev.Pc := inferInstanceAs (DecidableEq IdealPc)

section View

variable {T : Type} (murmur : Murmur)

/-- Dev-LSM's value of a tracked key, Main-LSM's of any other. -/
def view (s : State T idealDev) (k : Key) : Option Value :=
  if s.sh.tracked murmur k then s.sh.dev.store.lookup (firstFour k) else s.sh.main k

/-- No thread holds `rollback_mtx` exclusively. -/
def Free (s : State T idealDev) : Prop := s.sh.rollbackMtx.writer = none

instance [DecidableEq T] (s : State T idealDev) : Decidable (Free s) :=
  inferInstanceAs (Decidable (_ = none))

def isIdle (t : T) (s : State T idealDev) : Bool :=
  match s.clients t with
  | .idle => true
  | _ => false

/-- Every put is made by the one thread `w`. -/
def OneWriter (w : T) (_ : State T idealDev) : Act T idealDev → Prop
  | .callPut t _ _ => t = w
  | _ => True

instance [DecidableEq T] (w : T) (s : State T idealDev) :
    (act : Act T idealDev) → Decidable (OneWriter w s act)
  | .callPut t _ _ => inferInstanceAs (Decidable (t = w))
  | .callGet _ _ | .client _ _ | .rollback _ _ => .isTrue trivial

/-- The instants of the call that `t` is in. -/
abbrev instantsOf (t : T) (tr : List (State T idealDev × Act T idealDev))
    (s : State T idealDev) : List (State T idealDev) :=
  instantsSince (isIdle t) tr s

/-- `r` was the view of `k` at an instant of the call that `t` is in, one at
which `P` held. -/
def Seen (P : State T idealDev → Prop) (t : T)
    (tr : List (State T idealDev × Act T idealDev)) (s : State T idealDev) (k : Key)
    (r : Option Value) : Prop :=
  ∃ i ∈ instantsOf t tr s, P i ∧ view murmur i k = r

abbrev SeenFree (t : T) (tr : List (State T idealDev × Act T idealDev))
    (s : State T idealDev) (k : Key) (r : Option Value) : Prop :=
  Seen murmur Free t tr s k r

instance (P : State T idealDev → Prop) [DecidablePred P] (t : T)
    (tr : List (State T idealDev × Act T idealDev)) (s : State T idealDev) (k : Key)
    (r : Option Value) : Decidable (Seen murmur P t tr s k r) :=
  inferInstanceAs (Decidable (∃ i ∈ instantsOf t tr s, P i ∧ view murmur i k = r))

/-- A step that changes what the stores have of `k` while `rollback_mtx` is
held exclusively: a tracker entry of `k` deleted, `k` written to Main-LSM, or
the device reset or the tracker cleared with `k` still tracked. -/
def Disturbs (s : State T idealDev) (k : Key) : Act T idealDev → Prop
  | .client t _ =>
      ¬ Free s ∧
        ((∃ v, s.clients t = .putDirect k v ∨ s.clients t = .ctlPut k v) ∨
          ∃ k' v, s.clients t = .ctlDelete k' v ∧
            doubleHash murmur k' 1 = doubleHash murmur k 1)
  | .rollback _ _ =>
      ¬ Free s ∧
        ((s.rollback = .put ∧ s.locals.key = k) ∨
          (s.rollback = .delete ∧
            doubleHash murmur s.locals.key 1 = doubleHash murmur k 1) ∨
          ((s.rollback = .devReset ∨ s.rollback = .clear) ∧
            s.sh.tracked murmur k = true))
  | _ => False

/-- No step of the call that `t` is in disturbs `k`. -/
def Calm (t : T) (tr : List (State T idealDev × Act T idealDev)) (k : Key) : Prop :=
  ∀ e ∈ stepsSince (isIdle t) tr, ¬ Disturbs murmur e.1 k e.2

end View

section Lemmas

variable {T : Type} {murmur : Murmur} {s s' : State T idealDev}
  {act : Act T idealDev} {t : T} {tr : List (State T idealDev × Act T idealDev)}
  {k : Key} {r : Option Value} {P : State T idealDev → Prop}

theorem view_of_tracked (h : s.sh.tracked murmur k = true) :
    view murmur s k = s.sh.dev.store.lookup (firstFour k) :=
  if_pos h

theorem view_of_untracked (h : s.sh.tracked murmur k = false) :
    view murmur s k = s.sh.main k :=
  if_neg (ne_true_of_eq_false h)

theorem Seen.now (hP : P s) : Seen murmur P t tr s k (view murmur s k) :=
  ⟨s, mem_instantsSince tr s, hP, rfl⟩

/-- The call goes on. -/
theorem Seen.mono (h : Seen murmur P t tr s k r) (hbusy : isIdle t s = false) :
    Seen murmur P t ((s, act) :: tr) s' k r := by
  obtain ⟨i, hi, hview⟩ := h
  refine ⟨i, ?_, hview⟩
  rw [instantsOf, instantsSince_cons hbusy]
  exact List.mem_cons_of_mem _ hi

theorem not_disturbs_of_free (h : Free s) : ¬ Disturbs murmur s k act := by
  cases act with
  | client t env => exact fun hd => hd.1 h
  | rollback env m => exact fun hd => hd.1 h
  | callPut t k' v => exact id
  | callGet t k' => exact id

theorem calm_of_free (h : ∀ e ∈ stepsSince (isIdle t) tr, Free e.1) :
    Calm murmur t tr k :=
  fun e he => not_disturbs_of_free (h e he)

theorem calm_of_cons (h : Calm murmur t ((s, act) :: tr) k)
    (hbusy : isIdle t s = false) :
    Calm murmur t tr k ∧ ¬ Disturbs murmur s k act := by
  rw [Calm, stepsSince_cons hbusy] at h
  exact ⟨fun e he => h e (List.mem_cons_of_mem _ he), h _ List.mem_cons_self⟩

end Lemmas

end Kvaccel.Spec
