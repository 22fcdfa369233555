import Kvaccel.Lib.Overwrite
import Kvaccel.Proofs.Threads

/-!
# One critical section after the other

Everything that redirects a put, takes a redirected key back or moves the
records of Dev-LSM to Main-LSM is done between `reset_mtx.lock()` and its
unlock. Three kinds of section there are: the put with rollback, the
redirected put and the pass. What they share among themselves is `Guarded`;
Main-LSM is not in it, since a put that saw `kache_flag = 0` writes to it with
no lock at all, and no section ever reads it.

`Serial` is the program with its sections in one piece: each is the thread's
own code from the lock to the unlock, run on `Guarded` with nobody in between
(`Alone`), and the direct puts fall between the sections. The reads are not in
it. They touch Dev-LSM too, but of the driver only its statistics, so a device
is looked at through a `Silent` view: one that no get changes, and that is all
the other commands need.

Two things can make a put disappear behind an older one, and `Unhidden` rules
them out: a direct put that comes so late that the flag is set by then, and a
put with rollback whose key has two entries in the tracker. `F` stands for the
assumption that neither happens.
-/

namespace Kvaccel.Spec

open Kvaccel.Lib Kvaccel.Ref

/-- What is written inside `reset_mtx` only. -/
structure Guarded (D : DevLsm) where
  kacheFlag : Int
  rollbackFlag : Int
  keyTracker : HashMap Key 128
  dev : D.St

section Guarded

variable {T : Type} {D : DevLsm}

def guarded (sh : Shared T D) : Guarded D where
  kacheFlag := sh.kacheFlag
  rollbackFlag := sh.rollbackFlag
  keyTracker := sh.keyTracker
  dev := sh.dev

/-- With something in the places that no section looks at. -/
def Guarded.shared (g : Guarded D) : Shared Empty D where
  level := .low
  rollbackStatus := 0
  kacheFlag := g.kacheFlag
  rollbackFlag := g.rollbackFlag
  resetMtx := none
  rollbackMtx := { writer := none, readers := ∅ }
  keyTracker := g.keyTracker
  main := fun _ => none
  dev := g.dev

end Guarded

/-- A thread somewhere in its code. -/
inductive Body (D : DevLsm) where
  | client (pc : ClientPc D.Pc)
  | rollback (pc : RollbackPc D.Pc) (l : Ref.Locals)

/-- What the access writes to Main-LSM. -/
def mainWrites {D : DevLsm} : Access D → List (Key × Value)
  | .mainPut k v => [(k, v)]
  | _ => []

namespace Body

variable {T : Type} {D : DevLsm} (murmur : Murmur) (env : D.Env) (m : Level × Int)

/-- Between `reset_mtx.lock()` and `reset_mtx.unlock()`. -/
def inside : Body D → Bool
  | .client pc => pc.holdsReset
  | .rollback pc _ => pc.holdsReset

/-- The row of the code: the access, and where the thread goes from there. -/
def code : Body D → Option (Access D × (Shared T D → Body D))
  | .client pc =>
      (clientCode murmur env pc).map fun r => (r.1, fun sh => .client (r.2 sh))
  | .rollback pc l =>
      let r := rollbackCode murmur env m l pc
      some (r.1, fun sh => .rollback (r.2 sh).1 (r.2 sh).2)

/-- A step inside the section, with what it writes to Main-LSM. -/
def step (g : Guarded D) (b : Body D) : Option (Body D × Guarded D × List (Key × Value)) :=
  if b.inside then
    (b.code murmur env m).map fun r =>
      (r.2 g.shared, guarded (r.1.effect murmur .rollback env g.shared), mainWrites r.1)
  else
    none

end Body

section Serial

variable {D : DevLsm} (murmur : Murmur) (E : D.Env → Prop) (F : Prop)

/-- The thread alone, from one counter to another. From outside it gets what
`E` allows. -/
inductive Alone (b : Body D) (g : Guarded D) :
    List (Key × Value) → Body D → Guarded D → Prop where
  | enter : Alone b g [] b g
  | step {ws w : List (Key × Value)} {b' b'' : Body D} {g' g'' : Guarded D} {env : D.Env}
      {m : Level × Int} (alone : Alone b g ws b' g') (allowed : E env)
      (taken : b'.step murmur env m g' = some (b'', g'', w)) : Alone b g (ws ++ w) b'' g''

/-- What `reset_mtx` is taken for. -/
inductive Purpose where
  | withRollback (k : Key) (v : Value)
  | redirected (k : Key) (v : Value)
  | pass (l : Ref.Locals)

/-- Right after `reset_mtx.lock()`. -/
def Purpose.body : Purpose → Body D
  | .withRollback k v => .client (.ctlRollback k v)
  | .redirected k v => .client (.redFlag k v)
  | .pass l => .rollback .setFlag l

/-- The put that a section makes. -/
def Purpose.put : Purpose → Option (Key × Value)
  | .withRollback k v | .redirected k v => some (k, v)
  | .pass _ => none

/-- How a section finds things. The guard of a pass has seen the flag, and the
last pass left the local `flag` at -2. -/
def Purpose.Begins (g : Guarded D) : Purpose → Prop
  | .withRollback k _ => F → g.keyTracker.countOf (doubleHash murmur k 1) ≤ 1
  | .redirected _ _ => True
  | .pass l => l.flag = -2 ∧ g.kacheFlag = 1

inductive Event where
  | direct (k : Key) (v : Value)
  | critical (p : Purpose)

def Event.put : Event → Option (Key × Value)
  | .direct k v => some (k, v)
  | .critical p => p.put

def Event.purpose : Event → Option Purpose
  | .direct _ _ => none
  | .critical p => some p

/-- The events one after the other: what is guarded, and Main-LSM, before and
after them. -/
inductive Serial (g₀ : Guarded D) (main₀ : Key → Option Value) :
    List Event → Guarded D → (Key → Option Value) → Prop where
  | start : Serial g₀ main₀ [] g₀ main₀
  | direct {evs : List Event} {g : Guarded D} {main : Key → Option Value}
      (serial : Serial g₀ main₀ evs g main) (k : Key) (v : Value)
      (fresh : F → g.kacheFlag = 0) :
      Serial g₀ main₀ (evs ++ [.direct k v]) g (Function.update main k (some v))
  | critical {evs : List Event} {g g' : Guarded D} {main : Key → Option Value}
      {ws : List (Key × Value)} {b : Body D} (serial : Serial g₀ main₀ evs g main)
      (p : Purpose) (begins : p.Begins murmur F g) (alone : Alone murmur E p.body g ws b g')
      (outside : b.inside = false) :
      Serial g₀ main₀ (evs ++ [.critical p]) g' (overwrite main ws)

end Serial

/-! ## What a get leaves alone -/

structure Silent (D : DevLsm) where
  View : Type
  view : D.St → View
  get : ∀ env k st, view (D.get env k st).2.2 = view st
  step : ∀ env pc id st st', view st = view st' →
    (D.step env pc id st).1 = (D.step env pc id st').1 ∧
      (D.step env pc id st).2.1 = (D.step env pc id st').2.1 ∧
      view (D.step env pc id st).2.2 = view (D.step env pc id st').2.2
  seekScan : ∀ env id key value st st', view st = view st' →
    (D.seekScan env id key value st).1 = (D.seekScan env id key value st').1 ∧
      (D.seekScan env id key value st).2.1 = (D.seekScan env id key value st').2.1 ∧
      (D.seekScan env id key value st).2.2.1 = (D.seekScan env id key value st').2.2.1 ∧
      view (D.seekScan env id key value st).2.2.2 =
        view (D.seekScan env id key value st').2.2.2
  nextScan : ∀ env id key value st st', view st = view st' →
    (D.nextScan env id key value st).1 = (D.nextScan env id key value st').1 ∧
      (D.nextScan env id key value st).2.1 = (D.nextScan env id key value st').2.1 ∧
      (D.nextScan env id key value st).2.2.1 = (D.nextScan env id key value st').2.2.1 ∧
      view (D.nextScan env id key value st).2.2.2 =
        view (D.nextScan env id key value st').2.2.2
  reset : ∀ env st st', view st = view st' → view (D.reset env st) = view (D.reset env st')

/-- The same to every section. -/
structure Silent.Same {D : DevLsm} (q : Silent D) (g g' : Guarded D) : Prop where
  kacheFlag : g.kacheFlag = g'.kacheFlag
  rollbackFlag : g.rollbackFlag = g'.rollbackFlag
  keyTracker : g.keyTracker = g'.keyTracker
  view : q.view g.dev = q.view g'.dev

/-! ## What a run has of it -/

section History

variable {T : Type} {D : DevLsm}

/-- What the body takes `reset_mtx` for, where it does. -/
def Body.purpose : Body D → Option Purpose
  | .client (.ctlReset k v) => some (.withRollback k v)
  | .client (.redReset k v) => some (.redirected k v)
  | .rollback .lockReset l => some (.pass l)
  | _ => none

/-- The put that takes effect at this counter: in Main-LSM, or in the tracker. -/
def Body.put : Body D → Option (Key × Value)
  | .client (.putDirect k v) | .client (.ctlPut k v) | .client (.redInsert k v) => some (k, v)
  | _ => none

/-- Where a thread is. -/
def bodyOf (s : State T D) : Thread T → Body D
  | .client t => .client (s.clients t)
  | .rollback => .rollback s.rollback s.locals

/-- Whose step it is; a call is nobody's. -/
def mover : Act T D → Option (Thread T)
  | .client t _ => some (.client t)
  | .rollback _ _ => some .rollback
  | _ => none

/-- What the step gets from outside. -/
def outsideOf : Act T D → Option D.Env
  | .client _ env => some env
  | .rollback env _ => some env
  | _ => none

/-- The section that this step of the run enters. -/
def entered (e : State T D × Act T D) : Option Purpose :=
  (mover e.2).bind fun θ => (bodyOf e.1 θ).purpose

/-- The put that this step brings into effect. -/
def effected (e : State T D × Act T D) : Option (Key × Value) :=
  (mover e.2).bind fun θ => (bodyOf e.1 θ).put

/-- Each key sees the same puts in the same order. -/
def SamePuts (l l' : List (Key × Value)) : Prop :=
  ∀ k, (l.filter fun w => w.1 = k) = l'.filter fun w => w.1 = k

/-- The step hides no put: a direct put still finds `kache_flag = 0`, and a put
with rollback takes the lock with one entry of its key at most. -/
def Unhidden (murmur : Murmur) (s : State T D) (act : Act T D) : Prop :=
  ∀ θ k v, mover act = some θ →
    (bodyOf s θ = .client (.putDirect k v) → s.sh.kacheFlag = 0) ∧
      (bodyOf s θ = .client (.ctlReset k v) →
        s.sh.keyTracker.countOf (doubleHash murmur k 1) ≤ 1)

/-- The same, computed. -/
def unhides (murmur : Murmur) (s : State T D) : Act T D → Bool
  | .client t _ =>
      match s.clients t with
      | .putDirect _ _ => s.sh.kacheFlag = 0
      | .ctlReset k _ => s.sh.keyTracker.countOf (doubleHash murmur k 1) ≤ 1
      | _ => true
  | _ => true

theorem unhidden_iff (murmur : Murmur) (s : State T D) (act : Act T D) :
    Unhidden murmur s act ↔ unhides murmur s act = true := by
  cases act with
  | callPut t k v | callGet t k => exact ⟨fun _ => rfl, fun _ θ k v h => by cases h⟩
  | rollback env m =>
      refine ⟨fun _ => rfl, fun _ θ k v h => ?_⟩
      cases h
      exact ⟨(fun h => by cases h), fun h => by cases h⟩
  | client t env =>
      simp only [unhides]
      constructor
      · intro h
        split
        · next hpc => exact decide_eq_true ((h (.client t) _ _ rfl).1 (by rw [bodyOf, hpc]))
        · next hpc => exact decide_eq_true ((h (.client t) _ _ rfl).2 (by rw [bodyOf, hpc]))
        · rfl
      · rintro h θ k v hθ
        cases hθ
        refine ⟨fun hpc => ?_, fun hpc => ?_⟩
        · rw [Body.client.inj hpc] at h
          exact of_decide_eq_true h
        · rw [Body.client.inj hpc] at h
          exact of_decide_eq_true h

instance (murmur : Murmur) (s : State T D) (act : Act T D) : Decidable (Unhidden murmur s act) :=
  decidable_of_iff _ (unhidden_iff murmur s act).symm

end History

end Kvaccel.Spec
