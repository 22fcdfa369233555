import Kvaccel.Proofs.Threads
import Kvaccel.Spec.IdealDev

/-!
# What a reader sees

`Get` reads the flags, the tracker and one store at different times. While it
holds the shared side of `rollback_mtx`, what the tracker said stays true of
the store it then asks: a tracked key stays tracked, and Main-LSM changes only
through a direct put, which happens over an empty tracker. Every read under
the lock is therefore the view of a free instant.

The two branches without the lock have no such protection. They are right as
long as nothing disturbs the key during the call, and every view the call
passes through is then also the view of a free instant, if it passes through
one at all: changes that are not disturbances happen at free instants, so the
view is constant while the lock is held.
-/

namespace Kvaccel.Ref

open Kvaccel.Lib Kvaccel.Spec

/-! ## Over the ideal Dev-LSM -/

section Found

variable {T : Type} {murmur : Murmur} {sh : Shared T idealDev}

theorem store_get (env : idealDev.Env) (k : Key) (st : idealDev.St) :
    (idealDev.get env k st).2.2.store = st.store := by
  simp only [idealDev]
  split <;> rfl

theorem store_seekScan (env : idealDev.Env) (iterId : Nat) (key : Key) (value : Value)
    (st : idealDev.St) :
    (idealDev.seekScan env iterId key value st).2.2.2.store = st.store := by
  simp only [idealDev]
  split <;> rfl

theorem store_nextScan (env : idealDev.Env) (iterId : Nat) (key : Key) (value : Value)
    (st : idealDev.St) :
    (idealDev.nextScan env iterId key value st).2.2.2.store = st.store := by
  simp only [idealDev]
  split <;> rfl

/-- An ideal Dev-LSM finds what its store holds. -/
theorem devFound_ideal (env : idealDev.Env) (k : Key) :
    sh.devFound env k = sh.dev.store.lookup (firstFour k) := by
  cases hv : sh.dev.store.lookup (firstFour k) with
  | some v =>
      have hget : idealDev.get env k sh.dev = ((v.length : Int), v, sh.dev) := by
        simp [idealDev, hv]
      simp [Shared.devFound, hget]
  | none =>
      have hget : idealDev.get env k sh.dev = (-2, [], sh.dev) := by
        simp [idealDev, hv]
      simp [Shared.devFound, hget]

theorem tracked_insert (k k' : Key) (h : sh.tracked murmur k = true) :
    Shared.tracked murmur { sh with
      keyTracker := sh.keyTracker.insert (doubleHash murmur k' 1) k' } k = true := by
  unfold Shared.tracked at h ⊢
  rw [HashMap.contains_iff] at h ⊢
  rw [HashMap.countOf_insert]
  omega

theorem tracked_delete_of_ne {k k' : Key}
    (h : doubleHash murmur k' 1 ≠ doubleHash murmur k 1) :
    Shared.tracked murmur { sh with
      keyTracker := sh.keyTracker.delete (doubleHash murmur k' 1) } k =
      sh.tracked murmur k := by
  unfold Shared.tracked
  rw [Bool.eq_iff_iff, HashMap.contains_iff, HashMap.contains_iff,
    HashMap.countOf_delete, if_neg h]
  rfl

end Found

/-! ## One writer -/

def ClientPc.isPut {Pc : Type} : ClientPc Pc → Bool
  | .idle | .getKache .. | .getRollback .. | .getShared .. | .getContains ..
  | .getDev .. | .getMain .. | .getUnlock .. | .getReturn .. => false
  | _ => true

section Code

variable {T : Type} {D : DevLsm} {murmur : Murmur} {env : D.Env}
  {m : Level × Int} {l : Locals} {pc : ClientPc D.Pc} {rpc : RollbackPc D.Pc}
  {a : Access D} {next : Shared T D → ClientPc D.Pc}
  {rnext : Shared T D → RollbackPc D.Pc × Locals} {sh : Shared T D} {k : Key}

theorem clientCode_isPut (h : clientCode murmur env pc = some (a, next))
    (hput : (next sh).isPut = true) : pc.isPut = true := by
  cases pc <;> cases h <;> first
    | rfl
    | cases hput
    | (revert hput; simp only []; split <;> exact nofun)

theorem clientCode_redFlag {n : Int}
    (h : clientCode murmur env pc = some (.setKache n, next)) :
    pc.isPut = true := by
  cases pc <;> cases h
  rfl

theorem clientCode_putDirect {v : Value}
    (h : clientCode murmur env pc = some (a, next)) (hn : next sh = .putDirect k v) :
    a = .read ∧ sh.kacheFlag = 0 := by
  cases pc <;> cases h <;> first
    | cases hn
    | (simp only [] at hn; split at hn <;> cases hn)
  exact ⟨rfl, by assumption⟩

/-! Where a reader comes from. -/

theorem clientCode_getMain {b : Branch} (h : clientCode murmur env pc = some (a, next))
    (hn : next sh = .getMain b k) : a = .read ∧
      ((pc = .getKache k ∧ b = .noDev ∧ sh.kacheFlag = 0) ∨
        (pc = .getContains b k ∧ sh.tracked murmur k = false)) := by
  cases pc <;> cases h <;> first
    | cases hn
    | (simp only [] at hn; split at hn <;> cases hn)
  · exact ⟨rfl, Or.inl ⟨rfl, rfl, by assumption⟩⟩
  · exact ⟨rfl, Or.inr ⟨rfl, Bool.eq_false_iff.mpr (by assumption)⟩⟩

theorem clientCode_getDev {b : Branch} (h : clientCode murmur env pc = some (a, next))
    (hn : next sh = .getDev b k) :
    a = .read ∧ pc = .getContains b k ∧ sh.tracked murmur k = true := by
  cases pc <;> cases h <;> first
    | cases hn
    | (simp only [] at hn; split at hn <;> cases hn)
  exact ⟨rfl, rfl, by assumption⟩

theorem clientCode_getUnlock {r : Option Value}
    (h : clientCode murmur env pc = some (a, next)) (hn : next sh = .getUnlock k r) :
    (pc = .getDev .locked k ∧ r = sh.devFound env k) ∨
      (pc = .getMain .locked k ∧ r = sh.main k) := by
  cases pc <;> cases h <;> first
    | cases hn
    | (simp only [] at hn; split at hn <;> cases hn)
  · rename_i hb
    subst hb
    exact Or.inl ⟨rfl, rfl⟩
  · rename_i hb
    subst hb
    exact Or.inr ⟨rfl, rfl⟩

theorem clientCode_getReturn {b : Branch} {r : Option Value}
    (h : clientCode murmur env pc = some (a, next)) (hn : next sh = .getReturn b k r) :
    (pc = .getDev b k ∧ r = sh.devFound env k) ∨
      (pc = .getMain b k ∧ r = sh.main k) ∨
      (pc = .getUnlock k r ∧ b = .locked) := by
  cases pc <;> cases h <;> first
    | cases hn
    | (simp only [] at hn; split at hn <;> cases hn)
  · exact Or.inl ⟨rfl, rfl⟩
  · exact Or.inr (Or.inl ⟨rfl, rfl⟩)
  · exact Or.inr (Or.inr ⟨rfl, rfl⟩)

end Code

namespace State

variable {T : Type} {murmur : Murmur} {w : T} {s s' : State T idealDev}
  {act : Act T idealDev} {k : Key}

/-- Only `w` puts, so what it read of the flag is still so when it writes
Main-LSM directly: the pass sets the flag to 0 only. -/
structure WriterInv (w : T) (s : State T idealDev) : Prop where
  alone : ∀ t, (s.clients t).isPut = true → t = w
  direct : ∀ k v, s.clients w = .putDirect k v → s.sh.kacheFlag = 0

/-- What holds in every state of every interleaving with one writer. -/
structure ReadInv (w : T) (s : State T idealDev) : Prop where
  locks : Locks s
  flag : FlagInv s
  writer : WriterInv w s

theorem readInv_opened (main : Key → Option Value) (dev : idealDev.St) :
    ReadInv w (opened main dev : State T idealDev) where
  locks := locks_opened main dev
  flag := flagInv_opened main dev
  writer := ⟨nofun, nofun⟩

/-! ## Steps that leave a key alone -/

/-- What every step does to a key it does not disturb. Under the exclusive
lock the view stays; Main-LSM changes only where nothing is tracked; a tracked
key stays tracked. -/
structure Quiet (murmur : Murmur) (k : Key) (s s' : State T idealDev) : Prop where
  steady : ¬ Free s ∨ ¬ Free s' → view murmur s' k = view murmur s k
  main : s'.sh.main k = s.sh.main k ∨ view murmur s' k = s'.sh.main k
  tracked : s.sh.tracked murmur k = true → s'.sh.tracked murmur k = true

theorem Quiet.of_same (htr : s'.sh.tracked murmur k = s.sh.tracked murmur k)
    (hmain : s'.sh.main k = s.sh.main k)
    (hdev : s'.sh.dev.store = s.sh.dev.store) : Quiet murmur k s s' where
  steady _ := by rw [view, view, htr, hmain, hdev]
  main := Or.inl hmain
  tracked h := htr.trans h

theorem Quiet.of_untracked (htr : s.sh.tracked murmur k = false)
    (htr' : s'.sh.tracked murmur k = false) (hmain : s'.sh.main k = s.sh.main k) :
    Quiet murmur k s s' where
  steady _ := by rw [view, view, htr, htr', hmain]; rfl
  main := Or.inl hmain
  tracked h := by rw [htr] at h; cases h

theorem Quiet.of_free (hfree : Free s) (hfree' : Free s')
    (hmain : s'.sh.main k = s.sh.main k ∨ view murmur s' k = s'.sh.main k)
    (htr : s.sh.tracked murmur k = true → s'.sh.tracked murmur k = true) :
    Quiet murmur k s s' where
  steady h := absurd h (by simp [hfree, hfree'])
  main := hmain
  tracked := htr

theorem tracked_of_entries_nil {D : DevLsm} {sh : Shared T D}
    (h : sh.keyTracker.entries = []) : sh.tracked murmur k = false := by
  rw [Shared.tracked, HashMap.contains_eq_false_iff]
  exact HashMap.countOf_eq_zero_of_entries h _

variable [DecidableEq T]

theorem WriterInv.setClient (h : WriterInv w s) {t : T} {pc : ClientPc idealDev.Pc}
    (hput : pc.isPut = true → t = w) (hdirect : ∀ k v, pc ≠ .putDirect k v) :
    WriterInv w (s.setClient t pc) where
  alone t' ht' := by
    by_cases heq : t' = t
    · subst heq
      rw [setClient_self] at ht'
      exact hput ht'
    · rw [setClient_ne s pc heq] at ht'
      exact h.alone t' ht'
  direct k v hpc := by
    by_cases heq : w = t
    · subst heq
      rw [setClient_self] at hpc
      exact absurd hpc (hdirect k v)
    · rw [setClient_ne s pc heq] at hpc
      exact h.direct k v hpc

theorem WriterInv.client (h : WriterInv w s) {t : T} {env : idealDev.Env}
    {a : Access idealDev} {next : Shared T idealDev → ClientPc idealDev.Pc}
    (hcode : clientCode murmur env (s.clients t) = some (a, next)) :
    WriterInv w { s.setClient t (next s.sh) with
      sh := a.effect murmur (.client t) env s.sh } where
  alone t' ht' := by
    simp only [] at ht'
    by_cases heq : t' = t
    · subst heq
      rw [setClient_self] at ht'
      exact h.alone t' (clientCode_isPut hcode ht')
    · rw [setClient_ne s _ heq] at ht'
      exact h.alone t' ht'
  direct k v hpc := by
    simp only [] at hpc ⊢
    by_cases heq : w = t
    · subst heq
      rw [setClient_self] at hpc
      obtain ⟨rfl, hzero⟩ := clientCode_putDirect hcode hpc
      exact hzero
    · rw [setClient_ne s _ heq] at hpc
      rcases a.effect_kacheFlag murmur (.client t) env s.sh with hsame | ⟨n, rfl, _⟩
      · rw [hsame]
        exact h.direct k v hpc
      · exact absurd (h.alone t (clientCode_redFlag hcode)).symm heq

theorem WriterInv.step (h : WriterInv w s) (hone : OneWriter w s act)
    (hstep : s.step murmur act = some s') : WriterInv w s' := by
  cases Steps.of_step hstep with
  | callPut t k v hidle => exact h.setClient (fun _ => hone) (fun _ _ => nofun)
  | callGet t k hidle => exact h.setClient nofun (fun _ _ => nofun)
  | client t env a next hcode hready => exact h.client hcode
  | rollback env m a next hcode hready =>
      refine ⟨h.alone, fun k v hpc => ?_⟩
      rcases a.effect_kacheFlag murmur .rollback env s.sh with hsame | ⟨n, rfl, hn⟩
      · exact hsame.trans (h.direct k v hpc)
      · have hzero := rollbackCode_setKache hcode
        exact hn.trans hzero.2

theorem ReadInv.step (h : ReadInv w s) (hone : OneWriter w s act)
    (hstep : s.step murmur act = some s') : ReadInv w s' where
  locks := h.locks.step hstep
  flag := h.flag.step h.locks hstep
  writer := h.writer.step hone hstep

theorem Quiet.client (h : ReadInv w s) {t : T} {env : idealDev.Env}
    {a : Access idealDev} {next : Shared T idealDev → ClientPc idealDev.Pc}
    (hcode : clientCode murmur env (s.clients t) = some (a, next))
    (hcalm : ¬ Disturbs murmur s k (.client t env)) :
    Quiet murmur k s { s.setClient t (next s.sh) with
      sh := a.effect murmur (.client t) env s.sh } := by
  cases a with
  | trackerInsert k' =>
      obtain ⟨v, hpc⟩ := clientCode_trackerInsert hcode
      have hfree : Free s := h.locks.free_of_holdsReset (.client t)
        (by rw [holdsReset, hpc]; rfl) (by rw [holdsRollback, hpc]; rfl)
      exact .of_free hfree hfree (Or.inl rfl) (tracked_insert k k')
  | trackerDelete k' =>
      obtain ⟨v, hpc⟩ := clientCode_trackerDelete hcode
      have hnot : ¬ Free s := h.locks.not_free (.client t)
        (by rw [holdsRollback, hpc]; rfl)
      have hne : doubleHash murmur k' 1 ≠ doubleHash murmur k 1 :=
        fun heq => hcalm ⟨hnot, Or.inr ⟨k', v, hpc, heq⟩⟩
      exact .of_same (tracked_delete_of_ne hne) rfl rfl
  | trackerClear => exact absurd hcode clientCode_trackerClear
  | mainPut k' v =>
      by_cases heq : k' = k
      · subst heq
        rcases clientCode_mainPut hcode with hpc | hpc
        · -- The direct put: the flag is still 0, so nothing is tracked.
          have hfree : Free s := by
            by_contra hnot
            exact hcalm ⟨hnot, Or.inl ⟨v, Or.inl hpc⟩⟩
          obtain rfl : t = w := h.writer.alone t (by rw [hpc]; rfl)
          have huntracked : s.sh.tracked murmur k' = false :=
            tracked_of_entries_nil (h.flag.empty (h.writer.direct k' v hpc))
          refine .of_free hfree hfree (Or.inr (if_neg ?_)) (fun htr => ?_)
          · exact ne_true_of_eq_false huntracked
          · rw [huntracked] at htr
            cases htr
        · have hnot : ¬ Free s := h.locks.not_free (.client t)
            (by rw [holdsRollback, hpc]; rfl)
          exact absurd ⟨hnot, Or.inl ⟨v, Or.inr hpc⟩⟩ hcalm
      · exact .of_same rfl (Function.update_of_ne (Ne.symm heq) _ _) rfl
  | devStep p id =>
      obtain ⟨k', v, hpc⟩ := clientCode_devStep hcode
      have hfree : Free s := h.locks.free_of_holdsReset (.client t)
        (by rw [holdsReset, hpc]; rfl) (by rw [holdsRollback, hpc]; rfl)
      exact .of_free hfree hfree (Or.inl rfl) (fun htr => htr)
  | devReset => exact absurd hcode clientCode_devReset
  | devGet k' => exact .of_same rfl rfl (store_get env k' s.sh.dev)
  | devSeekScan id key value =>
      exact .of_same rfl rfl (store_seekScan env id key value s.sh.dev)
  | devNextScan id key value =>
      exact .of_same rfl rfl (store_nextScan env id key value s.sh.dev)
  | _ => exact .of_same rfl rfl rfl

theorem Quiet.rollbackStep (h : ReadInv w s) {env : idealDev.Env} {m : Level × Int}
    {a : Access idealDev}
    {next : Shared T idealDev → RollbackPc idealDev.Pc × Locals}
    (hcode : rollbackCode murmur env m s.locals s.rollback = (a, next))
    (hcalm : ¬ Disturbs murmur s k (.rollback env m)) :
    Quiet murmur k s { s with
      sh := a.effect murmur .rollback env s.sh
      rollback := (next s.sh).1
      locals := (next s.sh).2 } := by
  have hheld : s.rollback.holdsRollback = true → ¬ Free s :=
    h.locks.not_free .rollback
  cases a with
  | trackerInsert k' => exact absurd hcode rollbackCode_trackerInsert
  | trackerDelete k' =>
      obtain ⟨hpc, rfl⟩ := rollbackCode_trackerDelete hcode
      have hne : doubleHash murmur s.locals.key 1 ≠ doubleHash murmur k 1 :=
        fun heq => hcalm ⟨hheld (by rw [hpc]; rfl), Or.inr (Or.inl ⟨hpc, heq⟩)⟩
      exact .of_same (tracked_delete_of_ne hne) rfl rfl
  | trackerClear =>
      have hpc := rollbackCode_trackerClear hcode
      have huntracked : s.sh.tracked murmur k = false := by
        by_contra htr
        exact hcalm ⟨hheld (by rw [hpc]; rfl),
          Or.inr (Or.inr ⟨Or.inr hpc, Bool.eq_true_of_not_eq_false htr⟩)⟩
      exact .of_untracked huntracked
        (tracked_of_entries_nil (HashMap.entries_clear s.sh.keyTracker)) rfl
  | mainPut k' v =>
      obtain ⟨hpc, rfl, rfl⟩ := rollbackCode_mainPut hcode
      by_cases heq : s.locals.key = k
      · exact absurd ⟨hheld (by rw [hpc]; rfl), Or.inl ⟨hpc, heq⟩⟩ hcalm
      · exact .of_same rfl (Function.update_of_ne (Ne.symm heq) _ _) rfl
  | devStep p id =>
      have hpc := rollbackCode_devStep hcode
      have hfree : Free s := h.locks.free_of_holdsReset .rollback
        (by rw [holdsReset, hpc]; rfl) (by rw [holdsRollback, hpc]; rfl)
      exact .of_free hfree hfree (Or.inl rfl) (fun htr => htr)
  | devReset =>
      have hpc := rollbackCode_devReset hcode
      have huntracked : s.sh.tracked murmur k = false := by
        by_contra htr
        exact hcalm ⟨hheld (by rw [hpc]; rfl),
          Or.inr (Or.inr ⟨Or.inl hpc, Bool.eq_true_of_not_eq_false htr⟩)⟩
      exact .of_untracked huntracked huntracked rfl
  | devGet k' => exact .of_same rfl rfl (store_get env k' s.sh.dev)
  | devSeekScan id key value =>
      exact .of_same rfl rfl (store_seekScan env id key value s.sh.dev)
  | devNextScan id key value =>
      exact .of_same rfl rfl (store_nextScan env id key value s.sh.dev)
  | _ => exact .of_same rfl rfl rfl

theorem Quiet.of_step (h : ReadInv w s) (hstep : s.step murmur act = some s')
    (hcalm : ¬ Disturbs murmur s k act) : Quiet murmur k s s' := by
  cases Steps.of_step hstep with
  | callPut t k' v hidle => exact .of_same rfl rfl rfl
  | callGet t k' hidle => exact .of_same rfl rfl rfl
  | client t env a next hcode hready => exact .client h hcode hcalm
  | rollback env m a next hcode hready => exact .rollbackStep h hcode hcalm

/-! ## One reader and its history -/

/-- How the counter of one client moves. -/
theorem clients_step (t : T) (hstep : s.step murmur act = some s') :
    s'.clients t = s.clients t ∨
      (∃ env a next, clientCode murmur env (s.clients t) = some (a, next) ∧
        s'.clients t = next s.sh ∧ s'.sh = a.effect murmur (.client t) env s.sh) ∨
      (∃ k v, s'.clients t = .putLevel k v) ∨ ∃ k, s'.clients t = .getKache k := by
  cases Steps.of_step hstep with
  | callPut t' k v hidle =>
      by_cases heq : t = t'
      · subst heq
        exact Or.inr (Or.inr (Or.inl ⟨k, v, setClient_self ..⟩))
      · exact Or.inl (setClient_ne s _ heq)
  | callGet t' k hidle =>
      by_cases heq : t = t'
      · subst heq
        exact Or.inr (Or.inr (Or.inr ⟨k, setClient_self ..⟩))
      · exact Or.inl (setClient_ne s _ heq)
  | client t' env a next hcode hready =>
      by_cases heq : t = t'
      · subst heq
        exact Or.inr (Or.inl ⟨env, a, next, hcode, setClient_self .., rfl⟩)
      · exact Or.inl (setClient_ne s _ heq)
  | rollback env m a next hcode hready => exact Or.inl rfl

section History

variable {t : T} {tr : List (State T idealDev × Act T idealDev)} {b : Branch}
  {r : Option Value}

/-- Under the lock nothing disturbs a read; without it this is asked for. -/
def Undisturbed (murmur : Murmur) (b : Branch) (t : T)
    (tr : List (State T idealDev × Act T idealDev)) (k : Key) : Prop :=
  b = .locked ∨ Calm murmur t tr k

/-- Under the lock the view of a free instant counts, without it any. -/
abbrev SeenAs (murmur : Murmur) (b : Branch) (t : T)
    (tr : List (State T idealDev × Act T idealDev)) (s : State T idealDev) (k : Key)
    (r : Option Value) : Prop :=
  Seen murmur (fun i => b = .locked → Free i) t tr s k r

omit [DecidableEq T] in
theorem Undisturbed.of_cons (h : Undisturbed murmur b t ((s, act) :: tr) k)
    (hbusy : isIdle t s = false) (hfree : b = .locked → Free s) :
    Undisturbed murmur b t tr k ∧ ¬ Disturbs murmur s k act := by
  rcases h with hb | hcalm
  · exact ⟨Or.inl hb, not_disturbs_of_free (hfree hb)⟩
  · obtain ⟨hcalm, hact⟩ := calm_of_cons hcalm hbusy
    exact ⟨Or.inr hcalm, hact⟩

/-- What is known at each counter of a `Get` past its tracker lookup. -/
structure GetInv (murmur : Murmur) (t : T)
    (tr : List (State T idealDev × Act T idealDev)) (s : State T idealDev) :
    Prop where
  main : ∀ b k, s.clients t = .getMain b k → Undisturbed murmur b t tr k →
    SeenAs murmur b t tr s k (s.sh.main k)
  dev : ∀ b k, s.clients t = .getDev b k → Undisturbed murmur b t tr k →
    s.sh.tracked murmur k = true
  unlock : ∀ k r, s.clients t = .getUnlock k r → SeenAs murmur .locked t tr s k r
  ret : ∀ b k r, s.clients t = .getReturn b k r → Undisturbed murmur b t tr k →
    SeenAs murmur b t tr s k r

theorem GetInv.other (h : GetInv murmur t tr s) (hinv : ReadInv w s)
    (hinv' : ReadInv w s') (hstep : s.step murmur act = some s')
    (hsame : s'.clients t = s.clients t) : GetInv murmur t ((s, act) :: tr) s' where
  main b k hpc hun := by
    rw [hsame] at hpc
    have hbusy : isIdle t s = false := by rw [isIdle, hpc]
    have hfree : ∀ {u : State T idealDev}, ReadInv w u → u.clients t = .getMain b k →
        b = .locked → Free u := by
      rintro u hu hpcu rfl
      exact hu.locks.free_of_holdsShared (t := t) (by rw [hpcu]; rfl)
    obtain ⟨hun, hcalm⟩ := hun.of_cons hbusy (hfree hinv hpc)
    rcases (Quiet.of_step hinv hstep hcalm).main with hmain | hview
    · rw [hmain]
      exact (h.main b k hpc hun).mono hbusy
    · rw [← hview]
      exact .now (hfree hinv' (hsame.trans hpc))
  dev b k hpc hun := by
    rw [hsame] at hpc
    have hbusy : isIdle t s = false := by rw [isIdle, hpc]
    have hfree : b = .locked → Free s := by
      rintro rfl
      exact hinv.locks.free_of_holdsShared (t := t) (by rw [hpc]; rfl)
    obtain ⟨hun, hcalm⟩ := hun.of_cons hbusy hfree
    exact (Quiet.of_step hinv hstep hcalm).tracked (h.dev b k hpc hun)
  unlock k r hpc := by
    rw [hsame] at hpc
    exact (h.unlock k r hpc).mono (by rw [isIdle, hpc])
  ret b k r hpc hun := by
    rw [hsame] at hpc
    have hbusy : isIdle t s = false := by rw [isIdle, hpc]
    have hun' : Undisturbed murmur b t tr k := 
      hun.imp_right fun h => (calm_of_cons h hbusy).1
    exact (h.ret b k r hpc hun').mono hbusy

theorem GetInv.own (h : GetInv murmur t tr s) (hinv : ReadInv w s)
    {env : idealDev.Env} {a : Access idealDev}
    {next : Shared T idealDev → ClientPc idealDev.Pc}
    (hcode : clientCode murmur env (s.clients t) = some (a, next))
    (hpc' : s'.clients t = next s.sh)
    (hsh : s'.sh = a.effect murmur (.client t) env s.sh) :
    GetInv murmur t ((s, act) :: tr) s' where
  main b k hto hun := by
    obtain ⟨rfl, hfrom⟩ := clientCode_getMain hcode (hpc'.symm.trans hto)
    have hmain : s'.sh.main k = s.sh.main k := by rw [hsh]; rfl
    rcases hfrom with ⟨hpc, rfl, hzero⟩ | ⟨hpc, huntracked⟩
    · have huntracked : s.sh.tracked murmur k = false :=
        tracked_of_entries_nil (hinv.flag.empty hzero)
      rw [hmain, ← view_of_untracked huntracked]
      exact Seen.mono (.now nofun) (by rw [isIdle, hpc])
    · have hfree : b = .locked → Free s := by
        rintro rfl
        exact hinv.locks.free_of_holdsShared (t := t) (by rw [hpc]; rfl)
      rw [hmain, ← view_of_untracked huntracked]
      exact Seen.mono (.now hfree) (by rw [isIdle, hpc])
  dev b k hto hun := by
    obtain ⟨rfl, hpc, htracked⟩ := clientCode_getDev hcode (hpc'.symm.trans hto)
    rw [hsh]
    exact htracked
  unlock k r hto := by
    rcases clientCode_getUnlock hcode (hpc'.symm.trans hto) with
      ⟨hpc, rfl⟩ | ⟨hpc, rfl⟩
    · have hfree : Free s :=
        hinv.locks.free_of_holdsShared (t := t) (by rw [hpc]; rfl)
      have htracked := h.dev .locked k hpc (Or.inl rfl)
      rw [devFound_ideal, ← view_of_tracked htracked]
      exact Seen.mono (.now fun _ => hfree) (by rw [isIdle, hpc])
    · exact (h.main .locked k hpc (Or.inl rfl)).mono (by rw [isIdle, hpc])
  ret b k r hto hun := by
    have hbefore : isIdle t s = false → Undisturbed murmur b t tr k := fun hbusy =>
      hun.imp_right fun h => (calm_of_cons h hbusy).1
    rcases clientCode_getReturn hcode (hpc'.symm.trans hto) with
      ⟨hpc, rfl⟩ | ⟨hpc, rfl⟩ | ⟨hpc, rfl⟩
    · have hbusy : isIdle t s = false := by rw [isIdle, hpc]
      have hfree : b = .locked → Free s := by
        rintro rfl
        exact hinv.locks.free_of_holdsShared (t := t) (by rw [hpc]; rfl)
      have htracked := h.dev b k hpc (hbefore hbusy)
      rw [devFound_ideal, ← view_of_tracked htracked]
      exact Seen.mono (.now hfree) hbusy
    · have hbusy : isIdle t s = false := by rw [isIdle, hpc]
      exact (h.main b k hpc (hbefore hbusy)).mono hbusy
    · exact (h.unlock k r hpc).mono (by rw [isIdle, hpc])

theorem GetInv.step (h : GetInv murmur t tr s) (hinv : ReadInv w s)
    (hone : OneWriter w s act) (hstep : s.step murmur act = some s') :
    GetInv murmur t ((s, act) :: tr) s' := by
  rcases clients_step t hstep with
    hsame | ⟨env, a, next, hcode, hpc, hsh⟩ | ⟨k, v, hpc⟩ | ⟨k, hpc⟩
  · exact h.other hinv (hinv.step hone hstep) hstep hsame
  · exact h.own hinv hcode hpc hsh
  -- The two calls lead to counters of which nothing is asked.
  · constructor <;> rw [hpc] <;> exact nofun
  · constructor <;> rw [hpc] <;> exact nofun

theorem getInv_run (t : T) {main : Key → Option Value} {dev : idealDev.St}
    (hrun : Run (step murmur) (OneWriter w) (opened main dev) tr s) :
    ReadInv w s ∧ GetInv murmur t tr s := by
  induction hrun with
  | start => exact ⟨readInv_opened main dev, ⟨nofun, nofun, nofun, nofun⟩⟩
  | next run hone htaken ih =>
      exact ⟨ih.1.step hone htaken, ih.2.step ih.1 hone htaken⟩

/-! ## Reads under the lock -/

/-- A `Get` that took the shared lock returns the view of a free instant of
its call, whatever the writer, the other readers and the rollback thread do. -/
theorem locked_get_sees_view {main : Key → Option Value} {dev : idealDev.St}
    (hrun : Run (step murmur) (OneWriter w) (opened main dev) tr s)
    (hret : s.clients t = .getReturn .locked k r) : SeenFree murmur t tr s k r := by
  obtain ⟨i, hi, hfree, hview⟩ :=
    (getInv_run t hrun).2.ret .locked k r hret (Or.inl rfl)
  exact ⟨i, hi, hfree rfl, hview⟩

/-! Schedules of one writer, `true`, and one reader, `false`. The first
redirects one put and leaves the pass that it makes possible at its guard. -/

def clientMoves (t : Bool) (n : Nat) : List (Act Bool idealDev) :=
  List.replicate n (.client t [])

def rollbackMoves (n : Nat) : List (Act Bool idealDev) :=
  List.replicate n (.rollback [] (.high, 10))

def redirected : List (Act Bool idealDev) :=
  rollbackMoves 1 ++ .callPut true [48, 48, 48, 48] [1] :: clientMoves true 7

/-- A reader that comes once the pass has set `rollback_flag`. -/
def getDuringPass : List (Act Bool idealDev) :=
  redirected ++ rollbackMoves 3 ++ .callGet false [48, 48, 48, 48] :: clientMoves false 6

def start : State Bool idealDev := opened (fun _ => none) { store := ∅, cursor := [] }

theorem locked_get_sees_view_duringPass :
    SeenFree murmurHash3 false
      (replayTrace (step murmurHash3) start getDuringPass [])
      (replay (step murmurHash3) start getDuringPass) [48, 48, 48, 48] (some [1]) :=
  locked_get_sees_view (w := true)
    (Run.replay getDuringPass .start (by decide))
    rfl

/-! ## Reads without the lock -/

/-- Where nothing disturbs the key, either the whole call lies under someone
else's exclusive lock and the view never moves, or every view it goes through is
the view of a free instant. -/
def Settled (murmur : Murmur) (t : T) (tr : List (State T idealDev × Act T idealDev))
    (s : State T idealDev) (k : Key) : Prop :=
  (∀ i ∈ instantsOf t tr s, ¬ Free i ∧ view murmur i k = view murmur s k) ∨
    ∀ i ∈ instantsOf t tr s, SeenFree murmur t tr s k (view murmur i k)

omit [DecidableEq T] in
theorem Settled.first (hidle : isIdle t s = true) :
    Settled murmur t ((s, act) :: tr) s' k := by
  have honly : ∀ i ∈ instantsOf t ((s, act) :: tr) s', i = s' := by
    intro i hi
    rw [instantsOf, instantsSince_of_idle hidle] at hi
    exact List.mem_singleton.mp hi
  by_cases hfree : Free s'
  · refine Or.inr fun i hi => ?_
    rw [honly i hi]
    exact .now hfree
  · refine Or.inl fun i hi => ?_
    rw [honly i hi]
    exact ⟨hfree, rfl⟩

omit [DecidableEq T] in
theorem Settled.cons (h : Settled murmur t tr s k) (hbusy : isIdle t s = false)
    (hquiet : Quiet murmur k s s') : Settled murmur t ((s, act) :: tr) s' k := by
  have hinstants : ∀ i, i ∈ instantsOf t ((s, act) :: tr) s' ↔
      i = s' ∨ i ∈ instantsOf t tr s := by
    intro i
    rw [instantsOf, instantsSince_cons hbusy, List.mem_cons]
  have hnow : s ∈ instantsOf t tr s := mem_instantsSince tr s
  rcases h with hheld | hseen
  · -- Locked so far, so this step does not move the view either.
    have hview := hquiet.steady (Or.inl (hheld s hnow).1)
    by_cases hfree : Free s'
    · refine Or.inr fun i hi => ?_
      have hsame : view murmur i k = view murmur s' k := by
        rcases (hinstants i).mp hi with rfl | hi
        · rfl
        · rw [hview, (hheld i hi).2]
      rw [hsame]
      exact .now hfree
    · refine Or.inl fun i hi => ?_
      rcases (hinstants i).mp hi with rfl | hi
      · exact ⟨hfree, rfl⟩
      · exact ⟨(hheld i hi).1, by rw [hview, (hheld i hi).2]⟩
  · refine Or.inr fun i hi => ?_
    rcases (hinstants i).mp hi with rfl | hi
    · by_cases hfree : Free i
      · exact .now hfree
      · rw [hquiet.steady (Or.inr hfree)]
        exact (hseen s hnow).mono hbusy
    · exact (hseen i hi).mono hbusy

theorem settled_run {main : Key → Option Value} {dev : idealDev.St}
    (hrun : Run (step murmur) (OneWriter w) (opened main dev) tr s)
    (hbusy : isIdle t s = false) (hcalm : Calm murmur t tr k) :
    Settled murmur t tr s k := by
  induction hrun with
  | start => cases hbusy
  | next run hone htaken ih =>
      rename_i tr s s' act
      cases hidle : isIdle t s with
      | true => exact .first hidle
      | false =>
          obtain ⟨hcalm, hact⟩ := calm_of_cons hcalm hidle
          exact (ih hidle hcalm).cons hidle
            (.of_step (getInv_run t run).1 htaken hact)

/-- A `Get` without the lock returns the view of a free instant of its call,
if there is one and no step of the call disturbs the key. -/
theorem get_sees_view_of_calm {main : Key → Option Value}
    {dev : idealDev.St}
    (hrun : Run (step murmur) (OneWriter w) (opened main dev) tr s)
    (hret : s.clients t = .getReturn b k r) (hcalm : Calm murmur t tr k)
    (hfree : ∃ i ∈ instantsOf t tr s, Free i) :
    SeenFree murmur t tr s k r := by
  obtain ⟨i, hi, _, rfl⟩ := (getInv_run t hrun).2.ret b k r hret (Or.inr hcalm)
  obtain ⟨j, hj, hfree⟩ := hfree
  rcases settled_run hrun (by rw [isIdle, hret]) hcalm with hheld | hseen
  · exact absurd hfree (hheld j hj).1
  · exact hseen i hi

end History

/-- A reader after the redirected put, before any pass. -/
def getBeforePass : List (Act Bool idealDev) :=
  redirected ++ .callGet false [48, 48, 48, 48] :: clientMoves false 4

theorem get_sees_view_beforePass :
    SeenFree murmurHash3 false
      (replayTrace (step murmurHash3) start getBeforePass [])
      (replay (step murmurHash3) start getBeforePass) [48, 48, 48, 48] (some [1]) :=
  get_sees_view_of_calm (w := true) (b := .unlocked)
    (Run.replay getBeforePass .start (by decide))
    rfl (calm_of_free (by decide)) (by decide)

/-- A reader that found the key tracked, and only asks Dev-LSM when the pass
has reset it. -/
def overtakenGet : List (Act Bool idealDev) :=
  redirected ++ .callGet false [48, 48, 48, 48] :: clientMoves false 3 ++ rollbackMoves 16 ++
    clientMoves false 1

/-- The key had its value at every free instant of the call, and `Get`
returns `NotFound`. -/
theorem overtaken_get_not_found :
    Run (step murmurHash3) (OneWriter true) start
        (replayTrace (step murmurHash3) start overtakenGet [])
        (replay (step murmurHash3) start overtakenGet) ∧
      (replay (step murmurHash3) start overtakenGet).clients false =
        .getReturn .unlocked [48, 48, 48, 48] none ∧
      ¬ SeenFree murmurHash3 false
        (replayTrace (step murmurHash3) start overtakenGet [])
        (replay (step murmurHash3) start overtakenGet) [48, 48, 48, 48] none :=
  ⟨Run.replay overtakenGet .start (by decide),
    rfl, by decide⟩

end State

end Kvaccel.Ref
