import Kvaccel.Lib.Lock
import Kvaccel.Ref.Threads

/-!
# What one step of a thread can do

Everything later about interleavings rests on this file and opens the two
step functions no more. Per thread body there is one lemma for each lock
(the step passes it, in the sense of `LockOp.Passes`) and one for each shared
variable: which counter writes it, and what. The invariants that hold in
every interleaving follow: the three lock accounts agree with the counters,
and the redirect flag with the tracker.
-/

namespace Kvaccel.Ref

open Kvaccel.Lib

/-! ## Critical sections -/

namespace ClientPc

variable {Pc : Type}

/-- Between `reset_mtx.lock()` and `reset_mtx.unlock()`. -/
def holdsReset : ClientPc Pc → Bool
  | .ctlRollback .. | .ctlContains .. | .ctlDelete .. | .ctlPut ..
  | .ctlUnlockRollback | .ctlUnlockReset
  | .redFlag .. | .redPut .. | .redInsert .. | .redUnlock => true
  | _ => false

/-- Between `rollback_mtx.lock()` and `rollback_mtx.unlock()`. -/
def holdsRollback : ClientPc Pc → Bool
  | .ctlContains .. | .ctlDelete .. | .ctlPut .. | .ctlUnlockRollback => true
  | _ => false

/-- Between `lock_shared()` and `unlock_shared()`. -/
def holdsShared : ClientPc Pc → Bool
  | .getContains .locked _ | .getDev .locked _ | .getMain .locked _
  | .getUnlock .. => true
  | _ => false

theorem holdsReset_of_holdsRollback {pc : ClientPc Pc}
    (h : pc.holdsRollback = true) : pc.holdsReset = true := by
  cases pc <;> first | rfl | cases h

/-- Past `kache_flag = 1` and not yet past the tracker entry. -/
def pastFlag : ClientPc Pc → Bool
  | .redPut .. | .redInsert .. => true
  | _ => false

theorem holdsReset_of_pastFlag {pc : ClientPc Pc} (h : pc.pastFlag = true) :
    pc.holdsReset = true := by
  cases pc <;> first | rfl | cases h

end ClientPc

namespace RollbackPc

variable {Pc : Type}

def holdsReset : RollbackPc Pc → Bool
  | .monitor | .guard | .lockReset => false
  | _ => true

def holdsRollback : RollbackPc Pc → Bool
  | .contains | .delete | .put | .unlock | .devReset | .clear | .clearKache
  | .clearRollback | .unlockRollback => true
  | _ => false

theorem holdsReset_of_holdsRollback {pc : RollbackPc Pc}
    (h : pc.holdsRollback = true) : pc.holdsReset = true := by
  cases pc <;> first | rfl | cases h

end RollbackPc

/-! ## What an access does -/

namespace Access

variable {D : DevLsm}

def onReset : Access D → LockOp
  | .lockReset => .acquire
  | .unlockReset => .release
  | _ => .keep

def onRollback : Access D → LockOp
  | .lockRollback => .acquire
  | .unlockRollback => .release
  | _ => .keep

def onShared : Access D → LockOp
  | .lockShared => .acquire
  | .unlockShared => .release
  | _ => .keep

/-- The accesses that clients make under `reset_mtx` only, or not at all. -/
def underReset : Access D → Bool
  | .setKache _ | .setRollbackFlag _ | .trackerInsert _ | .trackerDelete _
  | .trackerClear | .devStep _ _ | .devSeekScan .. | .devNextScan .. | .devReset => true
  | _ => false

variable {T : Type} [DecidableEq T] {murmur : Murmur} {θ : Thread T} {env : D.Env}
  {sh : Shared T D} {a : Access D}

theorem ready_lockReset : ready sh (.lockReset : Access D) = true ↔
    sh.resetMtx = none := by simp [ready]

theorem ready_lockRollback : ready sh (.lockRollback : Access D) = true ↔
    sh.rollbackMtx.writer = none ∧ sh.rollbackMtx.readers = ∅ := by simp [ready]

theorem ready_lockShared : ready sh (.lockShared : Access D) = true ↔
    sh.rollbackMtx.writer = none := by simp [ready]

theorem effect_resetMtx (h : a.ready sh = true) :
    a.onReset.Acts θ sh.resetMtx (a.effect murmur θ env sh).resetMtx := by
  cases a with
  | lockReset => exact ⟨ready_lockReset.mp h, rfl⟩
  | lockShared => cases θ <;> rfl
  | unlockShared => cases θ <;> rfl
  | _ => rfl

theorem effect_writer (h : a.ready sh = true) :
    a.onRollback.Acts θ sh.rollbackMtx.writer
      (a.effect murmur θ env sh).rollbackMtx.writer := by
  cases a with
  | lockRollback => exact ⟨(ready_lockRollback.mp h).1, rfl⟩
  | lockShared => cases θ <;> rfl
  | unlockShared => cases θ <;> rfl
  | _ => rfl

theorem effect_readers {t : T} :
    a.onShared.ActsShared t sh.rollbackMtx.readers
      (a.effect murmur (.client t) env sh).rollbackMtx.readers := by
  cases a <;> rfl

theorem effect_keyTracker (a : Access D) (murmur : Murmur) (θ : Thread T)
    (env : D.Env) (sh : Shared T D) :
    (a.effect murmur θ env sh).keyTracker = sh.keyTracker ∨
    (∃ k, a = .trackerInsert k ∧ (a.effect murmur θ env sh).keyTracker =
      sh.keyTracker.insert (doubleHash murmur k 1) k) ∨
    (∃ k, a = .trackerDelete k ∧ (a.effect murmur θ env sh).keyTracker =
      sh.keyTracker.delete (doubleHash murmur k 1)) ∨
    (a = .trackerClear ∧
      (a.effect murmur θ env sh).keyTracker = sh.keyTracker.clear) := by
  cases a with
  | trackerInsert k => exact Or.inr (Or.inl ⟨k, rfl, rfl⟩)
  | trackerDelete k => exact Or.inr (Or.inr (Or.inl ⟨k, rfl, rfl⟩))
  | trackerClear => exact Or.inr (Or.inr (Or.inr ⟨rfl, rfl⟩))
  | lockShared => cases θ <;> exact Or.inl rfl
  | unlockShared => cases θ <;> exact Or.inl rfl
  | _ => exact Or.inl rfl

theorem effect_kacheFlag (a : Access D) (murmur : Murmur) (θ : Thread T)
    (env : D.Env) (sh : Shared T D) :
    (a.effect murmur θ env sh).kacheFlag = sh.kacheFlag ∨
    ∃ n, a = .setKache n ∧ (a.effect murmur θ env sh).kacheFlag = n := by
  cases a with
  | setKache n => exact Or.inr ⟨n, rfl, rfl⟩
  | lockShared => cases θ <;> exact Or.inl rfl
  | unlockShared => cases θ <;> exact Or.inl rfl
  | _ => exact Or.inl rfl

theorem effect_level (a : Access D) (murmur : Murmur) (θ : Thread T)
    (env : D.Env) (sh : Shared T D) :
    (a.effect murmur θ env sh).level = sh.level ∨
    ∃ m, a = .setLevel m ∧ (a.effect murmur θ env sh).level = m.1 := by
  cases a with
  | setLevel m => exact Or.inr ⟨m, rfl, rfl⟩
  | lockShared => cases θ <;> exact Or.inl rfl
  | unlockShared => cases θ <;> exact Or.inl rfl
  | _ => exact Or.inl rfl

/-- Unless a put puts it there, no access adds a tracker entry. -/
theorem effect_entries {e : UInt64 × Key}
    (he : e ∈ (a.effect murmur θ env sh).keyTracker.entries) :
    e ∈ sh.keyTracker.entries ∨
      ∃ k, a = .trackerInsert k ∧ e = (doubleHash murmur k 1, k) := by
  rcases a.effect_keyTracker murmur θ env sh with
    heq | ⟨k, ha, heq⟩ | ⟨k, ha, heq⟩ | ⟨ha, heq⟩
  · exact Or.inl (heq ▸ he)
  · rw [heq] at he
    rcases HashMap.mem_entries_insert he with he | he
    · exact Or.inr ⟨k, ha, he⟩
    · exact Or.inl he
  · rw [heq] at he
    exact Or.inl (HashMap.mem_entries_delete he)
  · rw [heq, HashMap.entries_clear] at he
    cases he

/-- No reader inside while the lock is held exclusively. -/
theorem effect_exclusive (h : a.ready sh = true)
    (hex : sh.rollbackMtx.writer = none ∨ sh.rollbackMtx.readers = ∅) :
    (a.effect murmur θ env sh).rollbackMtx.writer = none ∨
      (a.effect murmur θ env sh).rollbackMtx.readers = ∅ := by
  cases a with
  | lockRollback => exact Or.inr (ready_lockRollback.mp h).2
  | unlockRollback => exact Or.inl rfl
  | lockShared =>
      cases θ with
      | client t => exact Or.inl (ready_lockShared.mp h)
      | rollback => exact hex
  | unlockShared =>
      cases θ with
      | client t =>
          rcases hex with hex | hex
          · exact Or.inl hex
          · exact Or.inr (by simp [effect, hex])
      | rollback => exact hex
  | _ => exact hex

end Access

/-! ## What the code does around an access -/

section Code

variable {T : Type} {D : DevLsm} {murmur : Murmur} {env : D.Env}
  {m : Level × Int} {l : Locals} {pc : ClientPc D.Pc} {rpc : RollbackPc D.Pc}
  {a : Access D} {next : Shared T D → ClientPc D.Pc}
  {rnext : Shared T D → RollbackPc D.Pc × Locals}

theorem clientCode_holdsReset (h : clientCode murmur env pc = some (a, next))
    (sh : Shared T D) :
    a.onReset.Passes pc.holdsReset (next sh).holdsReset := by
  cases pc <;> cases h <;> first | exact ⟨rfl, rfl⟩ | rfl | skip
  all_goals simp only []
  all_goals split <;> rfl

theorem clientCode_holdsRollback (h : clientCode murmur env pc = some (a, next))
    (sh : Shared T D) :
    a.onRollback.Passes pc.holdsRollback (next sh).holdsRollback := by
  cases pc <;> cases h <;> first | exact ⟨rfl, rfl⟩ | rfl | skip
  all_goals simp only []
  all_goals split <;> rfl

theorem clientCode_holdsShared (h : clientCode murmur env pc = some (a, next))
    (sh : Shared T D) :
    a.onShared.Passes pc.holdsShared (next sh).holdsShared := by
  cases pc with
  | idle => cases h
  | getContains b k =>
      cases h
      cases b <;> simp only [] <;> split <;> rfl
  | getDev b k =>
      cases h
      cases b <;> rfl
  | getMain b k =>
      cases h
      cases b <;> rfl
  | _ =>
      cases h
      first
        | exact ⟨rfl, rfl⟩
        | rfl
        | (simp only []; split <;> rfl)

theorem rollbackCode_holdsReset (h : rollbackCode murmur env m l rpc = (a, rnext))
    (sh : Shared T D) :
    a.onReset.Passes rpc.holdsReset (rnext sh).1.holdsReset := by
  cases rpc <;> cases h <;> first | exact ⟨rfl, rfl⟩ | rfl | skip
  all_goals simp only []
  all_goals split <;> rfl

theorem rollbackCode_holdsRollback (h : rollbackCode murmur env m l rpc = (a, rnext))
    (sh : Shared T D) :
    a.onRollback.Passes rpc.holdsRollback (rnext sh).1.holdsRollback := by
  cases rpc <;> cases h <;> first | exact ⟨rfl, rfl⟩ | rfl | skip
  all_goals simp only []
  all_goals split <;> first | exact ⟨rfl, rfl⟩ | rfl

/-! Which counters make an access. -/

theorem clientCode_underReset (h : clientCode murmur env pc = some (a, next))
    (ha : a.underReset = true) : pc.holdsReset = true := by
  cases pc <;> cases h <;> first | rfl | cases ha

theorem clientCode_setKache {n : Int}
    (h : clientCode murmur env pc = some (.setKache n, next)) : n = 1 := by
  cases pc <;> cases h
  rfl

theorem clientCode_setLevel : clientCode murmur env pc ≠ some (.setLevel m, next) := by
  intro h
  cases pc <;> cases h

theorem clientCode_trackerInsert {k : Key}
    (h : clientCode murmur env pc = some (.trackerInsert k, next)) :
    ∃ v, pc = .redInsert k v := by
  cases pc <;> cases h
  exact ⟨_, rfl⟩

theorem clientCode_trackerDelete {k : Key}
    (h : clientCode murmur env pc = some (.trackerDelete k, next)) :
    ∃ v, pc = .ctlDelete k v := by
  cases pc <;> cases h
  exact ⟨_, rfl⟩

theorem clientCode_trackerClear
    (h : clientCode murmur env pc = some (.trackerClear, next)) : False := by
  cases pc <;> cases h

theorem clientCode_mainPut {k : Key} {v : Value}
    (h : clientCode murmur env pc = some (.mainPut k v, next)) :
    pc = .putDirect k v ∨ pc = .ctlPut k v := by
  cases pc <;> cases h
  · exact Or.inl rfl
  · exact Or.inr rfl

theorem clientCode_devStep {p : D.Pc} {id : Nat}
    (h : clientCode murmur env pc = some (.devStep p id, next)) :
    ∃ k v, pc = .redPut k v p := by
  cases pc <;> cases h
  exact ⟨_, _, rfl⟩

theorem clientCode_devReset
    (h : clientCode murmur env pc = some (.devReset, next)) : False := by
  cases pc <;> cases h

/-- A client gets past the flag by setting it. -/
theorem clientCode_pastFlag (h : clientCode murmur env pc = some (a, next))
    {sh : Shared T D} (hpast : (next sh).pastFlag = true) :
    pc.pastFlag = true ∨ a = .setKache 1 := by
  cases pc <;> cases h <;> first
    | exact Or.inl rfl
    | exact Or.inr rfl
    | cases hpast
    | (revert hpast; simp only []; split <;> exact nofun)

theorem rollbackCode_setKache {n : Int}
    (h : rollbackCode murmur env m l rpc = (.setKache n, rnext)) :
    rpc = .clearKache ∧ n = 0 := by
  cases rpc <;> cases h
  exact ⟨rfl, rfl⟩

theorem rollbackCode_trackerInsert {k : Key}
    (h : rollbackCode murmur env m l rpc = (.trackerInsert k, rnext)) : False := by
  cases rpc <;> cases h

theorem rollbackCode_trackerDelete {k : Key}
    (h : rollbackCode murmur env m l rpc = (.trackerDelete k, rnext)) :
    rpc = .delete ∧ k = l.key := by
  cases rpc <;> cases h
  exact ⟨rfl, rfl⟩

theorem rollbackCode_trackerClear
    (h : rollbackCode murmur env m l rpc = (.trackerClear, rnext)) :
    rpc = .clear := by
  cases rpc <;> cases h
  rfl

theorem rollbackCode_mainPut {k : Key} {v : Value}
    (h : rollbackCode murmur env m l rpc = (.mainPut k v, rnext)) :
    rpc = .put ∧ k = l.key ∧ v = l.tmpValue := by
  cases rpc <;> cases h
  exact ⟨rfl, rfl, rfl⟩

theorem rollbackCode_devStep {p : D.Pc} {id : Nat}
    (h : rollbackCode murmur env m l rpc = (.devStep p id, rnext)) :
    rpc = .createIter p := by
  cases rpc <;> cases h
  rfl

theorem rollbackCode_devReset
    (h : rollbackCode murmur env m l rpc = (.devReset, rnext)) : rpc = .devReset := by
  cases rpc <;> cases h
  rfl

/-- The pass reaches `kache_flag = 0` from the emptied tracker only. -/
theorem rollbackCode_clearKache (h : rollbackCode murmur env m l rpc = (a, rnext))
    {sh : Shared T D} (hn : (rnext sh).1 = .clearKache) : a = .trackerClear := by
  cases rpc <;> cases h <;> first
    | rfl
    | cases hn
    | (revert hn; simp only []; split <;> exact nofun)

end Code

/-! ## Steps of the whole -/

namespace State

section Counters

variable {T : Type} {D : DevLsm}

def holdsReset (s : State T D) : Thread T → Bool
  | .client t => (s.clients t).holdsReset
  | .rollback => s.rollback.holdsReset

def holdsRollback (s : State T D) : Thread T → Bool
  | .client t => (s.clients t).holdsRollback
  | .rollback => s.rollback.holdsRollback

theorem holdsReset_of_holdsRollback {s : State T D} {θ : Thread T}
    (h : s.holdsRollback θ = true) : s.holdsReset θ = true := by
  cases θ with
  | client t => exact ClientPc.holdsReset_of_holdsRollback h
  | rollback => exact RollbackPc.holdsReset_of_holdsRollback h

/-- The locks and the counters tell the same story. -/
structure Locks (s : State T D) : Prop where
  reset : Agrees s.sh.resetMtx s.holdsReset
  rollback : Agrees s.sh.rollbackMtx.writer s.holdsRollback
  shared : AgreesShared s.sh.rollbackMtx.readers fun t => (s.clients t).holdsShared
  exclusive : s.sh.rollbackMtx.writer = none ∨ s.sh.rollbackMtx.readers = ∅

theorem locks_opened (main : Key → Option Value) (dev : D.St) :
    Locks (opened main dev : State T D) where
  reset := by rintro (t | _) <;> simp [opened, holdsReset, ClientPc.holdsReset,
    RollbackPc.holdsReset]
  rollback := by rintro (t | _) <;> simp [opened, holdsRollback,
    ClientPc.holdsRollback, RollbackPc.holdsRollback]
  shared := by intro t; simp [opened, ClientPc.holdsShared]
  exclusive := Or.inl rfl

/-- Nobody else is between `reset_mtx.lock()` and its unlock. -/
theorem Locks.reset_unique {s : State T D} (h : Locks s) {θ : Thread T}
    (θ' : Thread T)
    (hθ : s.holdsReset θ = true) (hne : θ' ≠ θ) : s.holdsReset θ' = false := by
  cases hθ' : s.holdsReset θ' with
  | false => rfl
  | true => exact absurd (h.reset.unique hθ' hθ) hne

theorem Locks.not_free {s : State T D} (h : Locks s) (θ : Thread T)
    (hθ : s.holdsRollback θ = true) : s.sh.rollbackMtx.writer ≠ none := by
  rw [(h.rollback θ).mp hθ]
  exact nofun

/-- Whoever holds `rollback_mtx` exclusively also holds `reset_mtx`. -/
theorem Locks.free_of_holdsReset {s : State T D} (h : Locks s) (θ : Thread T)
    (hθ : s.holdsReset θ = true) (hnot : s.holdsRollback θ = false) :
    s.sh.rollbackMtx.writer = none := by
  cases howner : s.sh.rollbackMtx.writer with
  | none => rfl
  | some θ' =>
      have hθ' := (h.rollback θ').mpr howner
      rw [h.reset.unique (holdsReset_of_holdsRollback hθ') hθ, hnot] at hθ'
      cases hθ'

theorem Locks.free_of_holdsShared {s : State T D} (h : Locks s) {t : T}
    (ht : (s.clients t).holdsShared = true) : s.sh.rollbackMtx.writer = none := by
  rcases h.exclusive with hfree | hempty
  · exact hfree
  · have hmem := (h.shared t).mp ht
    rw [hempty] at hmem
    cases hmem

/-- `kache_flag` is 0 over an empty tracker only, and a redirected put past
the flag finds it set. -/
structure FlagInv (s : State T D) : Prop where
  empty : s.sh.kacheFlag = 0 → s.sh.keyTracker.entries = []
  past : ∀ t, (s.clients t).pastFlag = true → s.sh.kacheFlag = 1
  cleared : s.rollback = .clearKache → s.sh.keyTracker.entries = []

theorem flagInv_opened (main : Key → Option Value) (dev : D.St) :
    FlagInv (opened main dev : State T D) where
  empty _ := HashMap.entries_empty
  past t h := by cases h
  cleared h := by cases h

end Counters

variable {T : Type} [DecidableEq T] {D : DevLsm} {murmur : Murmur}
  {s s' : State T D} {act : Act T D}

/-- A step that was taken, by who took it. -/
inductive Steps (murmur : Murmur) (s : State T D) : Act T D → State T D → Prop where
  | callPut (t : T) (k : Key) (v : Value) (idle : s.clients t = .idle) :
      Steps murmur s (.callPut t k v) (s.setClient t (.putLevel k v))
  | callGet (t : T) (k : Key) (idle : s.clients t = .idle) :
      Steps murmur s (.callGet t k) (s.setClient t (.getKache k))
  | client (t : T) (env : D.Env) (a : Access D)
      (next : Shared T D → ClientPc D.Pc)
      (code : clientCode murmur env (s.clients t) = some (a, next))
      (ready : a.ready s.sh = true) :
      Steps murmur s (.client t env)
        { s.setClient t (next s.sh) with
          sh := a.effect murmur (.client t) env s.sh }
  | rollback (env : D.Env) (m : Level × Int) (a : Access D)
      (next : Shared T D → RollbackPc D.Pc × Locals)
      (code : rollbackCode murmur env m s.locals s.rollback = (a, next))
      (ready : a.ready s.sh = true) :
      Steps murmur s (.rollback env m)
        { s with
          sh := a.effect murmur .rollback env s.sh
          rollback := (next s.sh).1
          locals := (next s.sh).2 }

theorem Steps.of_step (h : s.step murmur act = some s') : Steps murmur s act s' := by
  cases act with
  | callPut t k v =>
      simp only [step] at h
      split at h
      · rename_i hidle
        cases h
        exact .callPut t k v hidle
      · cases h
  | callGet t k =>
      simp only [step] at h
      split at h
      · rename_i hidle
        cases h
        exact .callGet t k hidle
      · cases h
  | client t env =>
      simp only [step] at h
      split at h
      · cases h
      · rename_i a next hcode
        split at h
        · rename_i hready
          cases h
          exact .client t env a next hcode hready
        · cases h
  | rollback env m =>
      simp only [step] at h
      split at h
      · rename_i hready
        cases h
        exact .rollback env m _ _ rfl hready
      · cases h

@[simp] theorem setClient_self (s : State T D) (t : T) (pc : ClientPc D.Pc) :
    (s.setClient t pc).clients t = pc :=
  Function.update_self ..

theorem setClient_ne (s : State T D) {t t' : T} (pc : ClientPc D.Pc) (h : t' ≠ t) :
    (s.setClient t pc).clients t' = s.clients t' :=
  Function.update_of_ne h ..

/-- Another counter outside every critical section changes nothing. -/
theorem Locks.setClient (h : Locks s) {t : T} {pc : ClientPc D.Pc}
    (hidle : s.clients t = .idle) (hreset : pc.holdsReset = false)
    (hrollback : pc.holdsRollback = false) (hshared : pc.holdsShared = false) :
    Locks (s.setClient t pc) where
  reset := by
    refine h.reset.step (.client t) (LockOp.acts_keep _ _) ?_ ?_
    · simp only [LockOp.Passes, holdsReset, setClient_self, hreset, hidle]
      rfl
    · rintro (t' | _) hne
      · simp only [holdsReset]
        rw [setClient_ne s pc fun h => hne (by rw [h])]
      · rfl
  rollback := by
    refine h.rollback.step (.client t) (LockOp.acts_keep _ _) ?_ ?_
    · simp only [LockOp.Passes, holdsRollback, setClient_self, hrollback, hidle]
      rfl
    · rintro (t' | _) hne
      · simp only [holdsRollback]
        rw [setClient_ne s pc fun h => hne (by rw [h])]
      · rfl
  shared := by
    refine h.shared.step t (LockOp.actsShared_keep _ _) ?_ ?_
    · simp only [LockOp.Passes, setClient_self, hshared, hidle]
      rfl
    · intro t' hne
      rw [setClient_ne s pc hne]
  exclusive := h.exclusive

theorem Locks.client (h : Locks s) {t : T} {env : D.Env} {a : Access D}
    {next : Shared T D → ClientPc D.Pc}
    (hcode : clientCode murmur env (s.clients t) = some (a, next))
    (hready : a.ready s.sh = true) :
    Locks { s.setClient t (next s.sh) with
      sh := a.effect murmur (.client t) env s.sh } where
  reset := by
    refine h.reset.step (.client t) (Access.effect_resetMtx hready) ?_ ?_
    · simp only [holdsReset, setClient_self]
      exact clientCode_holdsReset hcode s.sh
    · rintro (t' | _) hne
      · simp only [holdsReset]
        rw [setClient_ne s _ fun h => hne (by rw [h])]
      · rfl
  rollback := by
    refine h.rollback.step (.client t) (Access.effect_writer hready) ?_ ?_
    · simp only [holdsRollback, setClient_self]
      exact clientCode_holdsRollback hcode s.sh
    · rintro (t' | _) hne
      · simp only [holdsRollback]
        rw [setClient_ne s _ fun h => hne (by rw [h])]
      · rfl
  shared := by
    refine h.shared.step t Access.effect_readers ?_ ?_
    · simp only [setClient_self]
      exact clientCode_holdsShared hcode s.sh
    · intro t' hne
      simp only []
      rw [setClient_ne s _ hne]
  exclusive := Access.effect_exclusive hready h.exclusive

theorem Locks.rollbackStep (h : Locks s) {env : D.Env} {m : Level × Int}
    {a : Access D} {next : Shared T D → RollbackPc D.Pc × Locals}
    (hcode : rollbackCode murmur env m s.locals s.rollback = (a, next))
    (hready : a.ready s.sh = true) :
    Locks { s with
      sh := a.effect murmur .rollback env s.sh
      rollback := (next s.sh).1
      locals := (next s.sh).2 } where
  reset := by
    refine h.reset.step .rollback (Access.effect_resetMtx hready) ?_ ?_
    · exact rollbackCode_holdsReset hcode s.sh
    · rintro (t | _) hne
      · rfl
      · exact absurd rfl hne
  rollback := by
    refine h.rollback.step .rollback (Access.effect_writer hready) ?_ ?_
    · exact rollbackCode_holdsRollback hcode s.sh
    · rintro (t | _) hne
      · rfl
      · exact absurd rfl hne
  shared := by
    have hsame : (a.effect murmur .rollback env s.sh).rollbackMtx.readers =
        s.sh.rollbackMtx.readers := by cases a <;> rfl
    simp only [hsame]
    exact h.shared
  exclusive := Access.effect_exclusive hready h.exclusive

theorem Locks.step (h : Locks s) (hstep : s.step murmur act = some s') : Locks s' := by
  cases Steps.of_step hstep with
  | callPut t k v hidle => exact h.setClient hidle rfl rfl rfl
  | callGet t k hidle => exact h.setClient hidle rfl rfl rfl
  | client t env a next hcode hready => exact h.client hcode hready
  | rollback env m a next hcode hready => exact h.rollbackStep hcode hready

/-! ## The flag and the tracker -/

theorem FlagInv.setClient (h : FlagInv s) {t : T} {pc : ClientPc D.Pc}
    (hpast : pc.pastFlag = false) : FlagInv (s.setClient t pc) where
  empty := h.empty
  past t' ht' := by
    by_cases heq : t' = t
    · subst heq
      rw [setClient_self, hpast] at ht'
      cases ht'
    · rw [setClient_ne s pc heq] at ht'
      exact h.past t' ht'
  cleared := h.cleared

/-- An empty tracker stays empty unless a redirected put adds to it. -/
theorem entries_effect {θ : Thread T} {env : D.Env} {sh : Shared T D} {a : Access D}
    (hempty : sh.keyTracker.entries = []) (hins : ∀ k, a ≠ .trackerInsert k) :
    (a.effect murmur θ env sh).keyTracker.entries = [] := by
  refine List.eq_nil_iff_forall_not_mem.mpr fun e he => ?_
  rcases Access.effect_entries he with he | ⟨k, ha, _⟩
  · rw [hempty] at he
    cases he
  · exact hins k ha

theorem FlagInv.client (h : FlagInv s) (hlocks : Locks s) {t : T} {env : D.Env}
    {a : Access D} {next : Shared T D → ClientPc D.Pc}
    (hcode : clientCode murmur env (s.clients t) = some (a, next)) :
    FlagInv { s.setClient t (next s.sh) with
      sh := a.effect murmur (.client t) env s.sh } := by
  have hkache := a.effect_kacheFlag murmur (.client t) env s.sh
  have hset : ∀ n, a = .setKache n → n = 1 := fun n ha =>
    clientCode_setKache (n := n) (ha ▸ hcode)
  -- A client at the tracker entry is past the flag and inside `reset_mtx`.
  have hins : ∀ k, a = .trackerInsert k → (s.clients t).pastFlag = true := by
    intro k ha
    obtain ⟨v, hpc⟩ := clientCode_trackerInsert (ha ▸ hcode)
    rw [hpc]
    rfl
  refine ⟨fun hzero => ?_, fun t' ht' => ?_, fun hclear => ?_⟩
  · simp only [] at hzero
    rcases hkache with hsame | ⟨n, ha, hn⟩
    · rw [hsame] at hzero
      refine entries_effect (h.empty hzero) fun k hk => ?_
      have := h.past t (hins k hk)
      omega
    · have := hset n ha
      omega
  · simp only [] at ht' ⊢
    have hone : s.sh.kacheFlag = 1 →
        (a.effect murmur (.client t) env s.sh).kacheFlag = 1 := by
      intro h1
      rcases hkache with hsame | ⟨n, ha, hn⟩
      · rw [hsame, h1]
      · rw [hn, hset n ha]
    by_cases heq : t' = t
    · subst heq
      rw [setClient_self] at ht'
      rcases clientCode_pastFlag hcode ht' with hpc | rfl
      · exact hone (h.past t' hpc)
      · rfl
    · rw [setClient_ne s _ heq] at ht'
      exact hone (h.past t' ht')
  · refine entries_effect (h.cleared hclear) fun k hk => ?_
    have hhold : s.holdsReset (.client t) = true :=
      ClientPc.holdsReset_of_pastFlag (hins k hk)
    have hother := hlocks.reset_unique .rollback hhold (by simp)
    have hrb : s.rollback = .clearKache := hclear
    rw [holdsReset, hrb] at hother
    cases hother

theorem FlagInv.rollbackStep (h : FlagInv s) (hlocks : Locks s) {env : D.Env}
    {m : Level × Int} {a : Access D} {next : Shared T D → RollbackPc D.Pc × Locals}
    (hcode : rollbackCode murmur env m s.locals s.rollback = (a, next)) :
    FlagInv { s with
      sh := a.effect murmur .rollback env s.sh
      rollback := (next s.sh).1
      locals := (next s.sh).2 } := by
  have hkache := a.effect_kacheFlag murmur .rollback env s.sh
  have hset : ∀ n, a = .setKache n → s.rollback = .clearKache ∧ n = 0 :=
    fun n hn => rollbackCode_setKache (hn ▸ hcode)
  have hins : ∀ k, a ≠ .trackerInsert k :=
    fun k hk => rollbackCode_trackerInsert (hk ▸ hcode)
  refine ⟨fun hzero => ?_, fun t ht => ?_, fun hclear => ?_⟩
  · simp only [] at hzero
    rcases hkache with hsame | ⟨n, hn, _⟩
    · rw [hsame] at hzero
      exact entries_effect (h.empty hzero) hins
    · exact entries_effect (h.cleared (hset n hn).1) hins
  · simp only [] at ht ⊢
    rcases hkache with hsame | ⟨n, hn, _⟩
    · rw [hsame]
      exact h.past t ht
    · -- The pass clears the flag inside `reset_mtx`, where no put can be.
      have hhold : s.holdsReset (.client t) = true :=
        ClientPc.holdsReset_of_pastFlag ht
      have hother := hlocks.reset_unique .rollback hhold (by simp)
      rw [holdsReset, (hset n hn).1] at hother
      cases hother
  · simp only [] at hclear ⊢
    obtain rfl := rollbackCode_clearKache hcode hclear
    exact HashMap.entries_clear _

theorem FlagInv.step (h : FlagInv s) (hlocks : Locks s)
    (hstep : s.step murmur act = some s') : FlagInv s' := by
  cases Steps.of_step hstep with
  | callPut t k v hidle => exact h.setClient rfl
  | callGet t k hidle => exact h.setClient rfl
  | client t env a next hcode hready => exact h.client hlocks hcode
  | rollback env m a next hcode hready => exact h.rollbackStep hlocks hcode

end State

end Kvaccel.Ref
