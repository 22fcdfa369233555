import Kvaccel.Proofs.Pass
import Kvaccel.Proofs.Records

/-!
# Flag, tracker and device stay in step

Only the holder of `reset_mtx` can be inside a call of the driver that moves
records, so one `Midway` for the whole state is enough, at the call of the
holder (`callOf`). A pass finds the buffer empty from its iterator on, because
nobody can put in the meantime; that is what makes its reset erase everything.

`CreateIter`, the scans and the reset may fail on the device without any of
this breaking. An allocation that fails may not: the put goes on to its
tracker entry without a record.
-/

namespace Kvaccel.Ref

open Kvaccel.Lib Kvaccel.Spec

/-! ## Where a call comes from -/

/-- Where the thread stands in a call of `ilsm_db_`. -/
def ClientPc.call {Pc : Type} : ClientPc Pc → Option Pc
  | .redPut _ _ pc => some pc
  | _ => none

def RollbackPc.call {Pc : Type} : RollbackPc Pc → Option Pc
  | .createIter pc => some pc
  | _ => none

theorem ClientPc.holdsReset_of_call {Pc : Type} {cpc : ClientPc Pc} {pc : Pc}
    (h : cpc.call = some pc) : cpc.holdsReset = true := by
  cases cpc <;> first | rfl | cases h

theorem RollbackPc.holdsReset_of_call {Pc : Type} {rpc : RollbackPc Pc} {pc : Pc}
    (h : rpc.call = some pc) : rpc.holdsReset = true := by
  cases rpc <;> first | rfl | cases h

section Code

variable {T : Type} {D : DevLsm} {murmur : Murmur} {env : D.Env}
  {m : Level × Int} {l : Locals} {pc : ClientPc D.Pc} {rpc : RollbackPc D.Pc}
  {a : Access D} {next : Shared T D → ClientPc D.Pc}
  {rnext : Shared T D → RollbackPc D.Pc × Locals} {sh : Shared T D}

/-- Outside a call of `ilsm_db_` a client comes into one at `kache_flag = 1`
only. -/
theorem clientCode_call (h : clientCode murmur env pc = some (a, next))
    (hdev : ∀ p id, a ≠ .devStep p id) (sh : Shared T D) :
    pc.call = none ∧ ((next sh).call = none ∨
      a = .setKache 1 ∧ ∃ k v, next sh = .redPut k v (D.putPc k v)) := by
  cases pc <;> cases h <;> first
    | exact ⟨rfl, Or.inl rfl⟩
    | exact ⟨rfl, Or.inr ⟨rfl, _, _, rfl⟩⟩
    | exact absurd rfl (hdev _ _)
    | (refine ⟨rfl, Or.inl ?_⟩; simp only []; split <;> rfl)

theorem clientCode_redInsert {k : Key} {v : Value}
    (h : clientCode murmur env pc = some (a, next)) (hn : next sh = .redInsert k v) :
    ∃ p, a = .devStep p 0 := by
  cases pc <;> cases h <;> first
    | cases hn
    | exact ⟨_, rfl⟩
    | (simp only [] at hn; split at hn <;> cases hn)

/-- And a pass at the top of its loop. -/
theorem rollbackCode_call (h : rollbackCode murmur env m l rpc = (a, rnext))
    (hdev : ∀ p id, a ≠ .devStep p id) (sh : Shared T D) :
    rpc.call = none ∧ ((rnext sh).1.call = none ∨
      rpc = .loop ∧ (rnext sh).1 = .createIter D.iterPc) := by
  cases rpc with
  | loop =>
      cases h
      by_cases hflag : l.flag < 0
      · exact ⟨rfl, Or.inr ⟨rfl, if_pos hflag⟩⟩
      · simp only [if_neg hflag]
        exact ⟨rfl, Or.inl rfl⟩
  | _ =>
      cases h
      first
        | exact ⟨rfl, Or.inl rfl⟩
        | exact absurd rfl (hdev _ _)
        | (refine ⟨rfl, Or.inl ?_⟩; simp only []; split <;> rfl)

theorem rollbackCode_createIter {p : D.Pc}
    (h : rollbackCode murmur env m l (.createIter p) = (a, rnext)) (sh : Shared T D) :
    (rnext sh).1.call = (D.step env p l.iterId sh.dev).1 ∧
      ((∃ p', (rnext sh).1 = .createIter p') ∨ (rnext sh).1 = .seekScan) := by
  cases h
  simp only []
  split
  · rename_i hstep
    exact ⟨hstep.symm, Or.inl ⟨_, rfl⟩⟩
  · rename_i hstep
    exact ⟨hstep.symm, Or.inr rfl⟩

/-- The pass has its iterator. -/
def RollbackPc.scans {Pc : Type} (l : Locals) : RollbackPc Pc → Bool
  | .loop => decide (0 ≤ l.flag)
  | .seekScan | .nextScan | .lock _ | .contains | .delete | .put | .unlock
  | .remonitor | .devReset | .clear | .clearKache => true
  | _ => false

theorem RollbackPc.holdsReset_of_scans {Pc : Type} {rpc : RollbackPc Pc}
    (h : rpc.scans l = true) : rpc.holdsReset = true := by
  cases rpc <;> first | rfl | cases h

/-- A pass gets to its scans through `CreateIter`. -/
theorem rollbackCode_scans (h : rollbackCode murmur env m l rpc = (a, rnext))
    (hl : rpc.resting = true → l.flag = -2)
    (hn : (rnext sh).1.scans (rnext sh).2 = true) :
    rpc.scans l = true ∨
      ∃ p, rpc = .createIter p ∧ (D.step env p l.iterId sh.dev).1 = none := by
  cases rpc with
  | setFlag =>
      cases h
      have hflag : l.flag = -2 := hl rfl
      simp only [RollbackPc.scans, decide_eq_true_eq] at hn
      omega
  | loop =>
      cases h
      simp only [] at hn
      split at hn
      · cases hn
      · exact Or.inl (decide_eq_true (by omega))
  | createIter p =>
      cases h
      simp only [] at hn
      split at hn
      · cases hn
      · rename_i hdone
        exact Or.inr ⟨p, rfl, hdone⟩
  | _ =>
      cases h
      first
        | exact Or.inl rfl
        | cases hn
        | (simp only [] at hn; split at hn <;> cases hn)

/-- Between the reset of the device and `kache_flag = 0`. -/
def RollbackPc.erased {Pc : Type} : RollbackPc Pc → Bool
  | .clear | .clearKache => true
  | _ => false

theorem RollbackPc.holdsReset_of_erased {Pc : Type} {rpc : RollbackPc Pc}
    (h : rpc.erased = true) : rpc.holdsReset = true := by
  cases rpc <;> first | rfl | cases h

theorem rollbackCode_erased (h : rollbackCode murmur env m l rpc = (a, rnext))
    (hn : (rnext sh).1.erased = true) : rpc.erased = true ∨ a = .devReset := by
  cases rpc <;> cases h <;> first
    | exact Or.inl rfl
    | exact Or.inr rfl
    | cases hn
    | (revert hn; simp only []; split <;> exact nofun)

end Code

namespace State

/-! ## The call in progress -/

section Call

variable {T : Type} {D : DevLsm} {s s' : State T D}

def devPc (s : State T D) : Thread T → Option D.Pc
  | .client t => (s.clients t).call
  | .rollback => s.rollback.call

def callOf (s : State T D) : Option D.Pc := s.sh.resetMtx.bind s.devPc

theorem holdsReset_of_devPc {θ : Thread T} {pc : D.Pc} (h : s.devPc θ = some pc) :
    s.holdsReset θ = true := by
  cases θ with
  | client t => exact ClientPc.holdsReset_of_call h
  | rollback => exact RollbackPc.holdsReset_of_call h

theorem Locks.callOf_eq (h : Locks s) (θ : Thread T) (hθ : s.holdsReset θ = true) :
    s.callOf = s.devPc θ := by
  rw [callOf, (h.reset θ).mp hθ]
  rfl

theorem Locks.callOf_eq_some (h : Locks s) {pc : D.Pc} :
    s.callOf = some pc ↔ ∃ θ, s.devPc θ = some pc := by
  constructor
  · intro hcall
    obtain ⟨θ, _, hpc⟩ := Option.bind_eq_some_iff.mp hcall
    exact ⟨θ, hpc⟩
  · rintro ⟨θ, hpc⟩
    rw [h.callOf_eq θ (holdsReset_of_devPc hpc), hpc]

theorem Locks.callOf_congr (h : Locks s) (h' : Locks s')
    (hsame : ∀ θ, s'.devPc θ = s.devPc θ) : s'.callOf = s.callOf := by
  refine Option.ext fun pc => ?_
  simp only [h.callOf_eq_some, h'.callOf_eq_some, hsame]

end Call

/-! ## The invariant -/

section Invariant

variable {T σ : Type} {dev : RecordDevice σ} {s s' : State T (ilsmDev dev.exec)}
  {es : List Entry}

/-- What the clients and the tracker need of the records. -/
structure Recorded (dev : RecordDevice σ) (s : State T (ilsmDev dev.exec))
    (es : List Entry) : Prop where
  midway : Midway dev s.callOf (driver dev s) es
  put : ∀ t k v pc, s.clients t = .redPut k v pc →
    pc = IlsmPc.buffering k v ∨ Covered dev (driver dev s) es (firstFour k)
  insert : ∀ t k v, s.clients t = .redInsert k v →
    Covered dev (driver dev s) es (firstFour k)
  tracked : s.rollback ≠ .clear → ∀ e ∈ s.sh.keyTracker.entries,
    Covered dev (driver dev s) es (firstFour e.2)
  idle : s.sh.kacheFlag = 0 → es = [] ∧ ∀ k, ¬ dev.has (driver dev s).device k

/-- What a pass knows of them. -/
structure Emptied (dev : RecordDevice σ) (s : State T (ilsmDev dev.exec))
    (es : List Entry) : Prop where
  flag : s.rollback.resting = true → s.locals.flag = -2
  iter : ∀ k v, s.rollback ≠ .createIter (IlsmPc.buffering k v)
  drained : s.rollback.scans s.locals = true → es = []
  erased : s.rollback.erased = true → ∀ k, ¬ dev.has (driver dev s).device k

structure Sound (dev : RecordDevice σ) (s : State T (ilsmDev dev.exec))
    (es : List Entry) : Prop where
  locks : Locks s
  flags : FlagInv s
  records : Recorded dev s es
  pass : Emptied dev s es

theorem Sound.coherent (h : Sound dev s es) : Coherent dev s where
  idle hzero := by
    obtain ⟨hnil, hnone⟩ := h.records.idle hzero
    have htable := h.records.midway.batch.table
    rw [hnil] at htable
    exact ⟨h.flags.empty hzero, htable.pair, htable.cnt, hnone⟩
  tracked hfree e he := by
    have hclear : s.rollback ≠ .clear := by
      intro hpc
      refine h.locks.not_free .rollback ?_ hfree
      rw [holdsRollback, hpc]
      rfl
    have htable := h.records.midway.batch.table
    rw [bufferKeys, htable.pair, htable.parse, List.map_map]
    exact h.records.tracked hclear e he

theorem Recorded.of_kept (h : Recorded dev s es)
    (hkept : Kept dev (driver dev s) (driver dev s'))
    (hmid : Midway dev s'.callOf (driver dev s) es)
    (hput : ∀ t k v pc, s'.clients t = .redPut k v pc →
      pc = IlsmPc.buffering k v ∨ s.clients t = .redPut k v pc)
    (hins : ∀ t k v, s'.clients t = .redInsert k v → s.clients t = .redInsert k v)
    (htracked : s'.rollback ≠ .clear → ∀ e ∈ s'.sh.keyTracker.entries,
      (s.rollback ≠ .clear ∧ e ∈ s.sh.keyTracker.entries) ∨
        ∃ t v, s.clients t = .redInsert e.2 v)
    (hidle : s'.sh.kacheFlag = 0 → s.sh.kacheFlag = 0 ∨
      (es = [] ∧ ∀ k, ¬ dev.has (driver dev s).device k)) :
    Recorded dev s' es where
  midway := ⟨hkept.batch hmid.batch, hmid.room,
    fun iter heq e he => (hkept.has e.1).mpr (hmid.sent iter heq e he), hmid.drained⟩
  put t k v pc hpc := by
    rcases hput t k v pc hpc with hbuf | hpc
    · exact Or.inl hbuf
    · exact (h.put t k v pc hpc).imp_right hkept.covered.mpr
  insert t k v hpc := hkept.covered.mpr (h.insert t k v (hins t k v hpc))
  tracked hclear e he := by
    refine hkept.covered.mpr ?_
    rcases htracked hclear e he with ⟨hclear, he⟩ | ⟨t, v, hpc⟩
    · exact h.tracked hclear e he
    · exact h.insert t e.2 v hpc
  idle hzero := by
    obtain ⟨hnil, hnone⟩ : es = [] ∧ ∀ k, ¬ dev.has (driver dev s).device k :=
      (hidle hzero).elim h.idle id
    exact ⟨hnil, fun k hk => hnone k ((hkept.has k).mp hk)⟩

theorem Emptied.of_kept (h : Emptied dev s es)
    (hkept : Kept dev (driver dev s) (driver dev s'))
    (hpc : s'.rollback = s.rollback) (hl : s'.locals = s.locals) :
    Emptied dev s' es where
  flag := by
    rw [hpc, hl]
    exact h.flag
  iter := by
    rw [hpc]
    exact h.iter
  drained := by
    rw [hpc, hl]
    exact h.drained
  erased hera k hk := by
    rw [hpc] at hera
    exact h.erased hera k ((hkept.has k).mp hk)

variable [DecidableEq T] {murmur : Murmur} {t : T} {env : Outside}
  {a : Access (ilsmDev dev.exec)}

/-- Gets and scans leave the records alone, and so does everything that is not
a call of the driver. -/
theorem kept_effect {θ : Thread T} {sh : Shared T (ilsmDev dev.exec)}
    (hstep : ∀ pc id, a ≠ .devStep pc id) (hreset : a ≠ .devReset) :
    Kept dev sh.dev (a.effect murmur θ env sh).dev := by
  cases a with
  | devStep pc id => exact absurd rfl (hstep pc id)
  | devReset => exact absurd rfl hreset
  | devGet k => exact Kept.get dev sh.dev k [] env
  | devSeekScan id key value => exact Kept.seekScan dev sh.dev id key value env
  | devNextScan id key value => exact Kept.nextScan dev sh.dev id key value env
  | lockShared => cases θ <;> exact Kept.refl _
  | unlockShared => cases θ <;> exact Kept.refl _
  | _ => exact Kept.refl _

/-! ## Clients -/

omit [DecidableEq T] in
/-- While a client is inside `reset_mtx`, the rollback thread is outside. -/
theorem Emptied.of_client {es' : List Entry} (h : Emptied dev s es) (hlocks : Locks s)
    (ht : s.holdsReset (.client t) = true) (hpc : s'.rollback = s.rollback)
    (hl : s'.locals = s.locals) : Emptied dev s' es' := by
  have hout : s'.rollback.holdsReset = false := by
    rw [hpc]
    exact hlocks.reset_unique .rollback ht nofun
  refine ⟨?_, fun k v heq => ?_, fun hscan => ?_, fun hera => ?_⟩
  · rw [hpc, hl]
    exact h.flag
  · rw [heq] at hout
    cases hout
  · rw [RollbackPc.holdsReset_of_scans hscan] at hout
    cases hout
  · rw [RollbackPc.holdsReset_of_erased hera] at hout
    cases hout

theorem Sound.redPut {es' : List Entry} {k : Key} {v : Value} {pc : IlsmPc}
    (h : Sound dev s es) (hlocks : Locks s') (hflags : FlagInv s')
    (hpc : s.clients t = .redPut k v pc)
    (hpc' : (∃ p, s'.clients t = .redPut k v p) ∨ s'.clients t = .redInsert k v)
    (hmoved : Moved dev pc (driver dev s) es (s'.devPc (.client t)) (driver dev s') es')
    (hclients : ∀ t' ≠ t, s'.clients t' = s.clients t')
    (hrb : s'.rollback = s.rollback) (hl : s'.locals = s.locals)
    (htracker : s'.sh.keyTracker = s.sh.keyTracker)
    (hkache : s'.sh.kacheFlag = s.sh.kacheFlag) : Sound dev s' es' := by
  have hhold : s.holdsReset (.client t) = true := by
    rw [holdsReset, hpc]
    rfl
  have hhold' : s'.holdsReset (.client t) = true := by
    rw [holdsReset]
    rcases hpc' with ⟨p, hpc'⟩ | hpc' <;> rw [hpc'] <;> rfl
  have hother : ∀ t' ≠ t, (s'.clients t').holdsReset = false := fun t' hne =>
    hlocks.reset_unique (.client t') hhold' (by simpa using hne)
  -- The put has its record from the first command on.
  have hself : Covered dev (driver dev s') es' (firstFour k) := by
    rcases h.records.put t k v pc hpc with hbuf | hcov
    · exact hmoved.buffered k v hbuf
    · exact hmoved.covered _ hcov
  refine ⟨hlocks, hflags, ⟨?_, ?_, ?_, ?_, ?_⟩, h.pass.of_client h.locks hhold hrb hl⟩
  · rw [hlocks.callOf_eq (.client t) hhold']
    exact hmoved.midway
  · intro t' k' v' p' hput
    by_cases heq : t' = t
    · subst heq
      rcases hpc' with ⟨p, hpc'⟩ | hpc'
      · rw [hpc'] at hput
        cases hput
        exact Or.inr hself
      · rw [hpc'] at hput
        cases hput
    · have := hother t' heq
      rw [hput] at this
      cases this
  · intro t' k' v' hins
    by_cases heq : t' = t
    · subst heq
      rcases hpc' with ⟨p, hpc'⟩ | hpc'
      · rw [hpc'] at hins
        cases hins
      · rw [hpc'] at hins
        cases hins
        exact hself
    · have := hother t' heq
      rw [hins] at this
      cases this
  · intro hclear e he
    rw [hrb] at hclear
    rw [htracker] at he
    exact hmoved.covered _ (h.records.tracked hclear e he)
  · intro hzero
    have hone := h.flags.past t (by rw [hpc]; rfl)
    rw [hkache, hone] at hzero
    cases hzero

/-- A client moves outside of such a call, or into one. -/
theorem Recorded.client {pc : ClientPc (ilsmDev dev.exec).Pc}
    {sh : Shared T (ilsmDev dev.exec)} (h : Recorded dev s es) (hlocks : Locks s)
    (hlocks' : Locks { s.setClient t pc with sh := sh })
    (hkept : Kept dev (driver dev s) sh.dev) (hcall : (s.clients t).call = none)
    (hpc : pc.call = none ∨ (s.clients t).holdsReset = true ∧
      ∃ k v, pc = .redPut k v (.buffering k v))
    (hins : ∀ k v, pc ≠ .redInsert k v)
    (htracked : ∀ e ∈ sh.keyTracker.entries, e ∈ s.sh.keyTracker.entries ∨
      ∃ v, s.clients t = .redInsert e.2 v)
    (hidle : sh.kacheFlag = 0 → s.sh.kacheFlag = 0) :
    Recorded dev { s.setClient t pc with sh := sh } es := by
  refine h.of_kept hkept ?_ ?_ ?_ ?_ fun hzero => Or.inl (hidle hzero)
  · rcases hpc with hnone | ⟨hhold, k, v, rfl⟩
    · rw [hlocks.callOf_congr hlocks']
      · exact h.midway
      · rintro (t' | _)
        · by_cases heq : t' = t
          · subst heq
            simp only [devPc, setClient_self, hnone, hcall]
          · simp only [devPc]
            rw [setClient_ne s _ heq]
        · rfl
    · -- The put has `reset_mtx` here and begins its call.
      have hmid := h.midway
      rw [hlocks.callOf_eq (.client t) hhold, devPc, hcall] at hmid
      rw [hlocks'.callOf_eq_some.mpr
        ⟨.client t, by simp only [devPc, setClient_self]; rfl⟩]
      exact hmid.enter nofun nofun
  · intro t' k v p hput
    by_cases heq : t' = t
    · subst heq
      simp only [setClient_self] at hput
      rcases hpc with hnone | ⟨_, k', v', rfl⟩
      · rw [hput] at hnone
        cases hnone
      · cases hput
        exact Or.inl rfl
    · exact Or.inr ((setClient_ne s _ heq).symm.trans hput)
  · intro t' k v hput
    by_cases heq : t' = t
    · subst heq
      simp only [setClient_self] at hput
      exact absurd hput (hins k v)
    · exact (setClient_ne s _ heq).symm.trans hput
  · intro hclear e he
    rcases htracked e he with he | ⟨v, hv⟩
    · exact Or.inl ⟨hclear, he⟩
    · exact Or.inr ⟨t, v, hv⟩

theorem Sound.quietClient (h : Sound dev s es)
    {next : Shared T (ilsmDev dev.exec) → ClientPc (ilsmDev dev.exec).Pc}
    (hs : s' = { s.setClient t (next s.sh) with
      sh := a.effect murmur (.client t) env s.sh })
    (hlocks : Locks s') (hflags : FlagInv s')
    (hcode : clientCode murmur env (s.clients t) = some (a, next))
    (hdev : ∀ pc id, a ≠ .devStep pc id) : Sound dev s' es := by
  subst hs
  have hkept : Kept dev (driver dev s) (a.effect murmur (.client t) env s.sh).dev :=
    kept_effect hdev fun ha => clientCode_devReset (ha ▸ hcode)
  obtain ⟨hcall, hnext⟩ := clientCode_call hcode hdev s.sh
  refine ⟨hlocks, hflags, h.records.client h.locks hlocks hkept hcall ?_ ?_ ?_ ?_,
    h.pass.of_kept hkept rfl rfl⟩
  · rcases hnext with hnone | ⟨ha, hnext⟩
    · exact Or.inl hnone
    · exact Or.inr ⟨clientCode_underReset hcode (by rw [ha]; rfl), hnext⟩
  · intro k v hins
    obtain ⟨p, ha⟩ := clientCode_redInsert hcode hins
    exact hdev p 0 ha
  · intro e he
    rcases Access.effect_entries he with he | ⟨k, ha, rfl⟩
    · exact Or.inl he
    · exact Or.inr (clientCode_trackerInsert (ha ▸ hcode))
  · intro hzero
    rcases a.effect_kacheFlag murmur (.client t) env s.sh with hsame | ⟨n, ha, hn⟩
    · exact hsame.symm.trans hzero
    · have h1 : n = 1 := clientCode_setKache (ha ▸ hcode)
      have h0 : n = 0 := hn.symm.trans hzero
      omega

theorem Sound.client (h : Sound dev s es) (halloc : AllocOk dev s (.client t env))
    {next : Shared T (ilsmDev dev.exec) → ClientPc (ilsmDev dev.exec).Pc}
    (hcode : clientCode murmur env (s.clients t) = some (a, next))
    (hready : a.ready s.sh = true) :
    ∃ es', Sound dev { s.setClient t (next s.sh) with
      sh := a.effect murmur (.client t) env s.sh } es' := by
  have hlocks := h.locks.client hcode hready
  have hflags := h.flags.client h.locks hcode
  by_cases hdev : ∃ pc id, a = .devStep pc id
  · obtain ⟨pc, id, rfl⟩ := hdev
    obtain ⟨k, v, hpc⟩ := clientCode_devStep hcode
    rw [hpc] at hcode
    cases hcode
    have hmid := h.records.midway
    rw [h.locks.callOf_eq_some.mpr ⟨.client t, by rw [devPc, hpc]; rfl⟩] at hmid
    obtain ⟨es', hmoved⟩ : ∃ es', Moved dev pc (driver dev s) es
        (ilsmStep dev.exec env pc 0 (driver dev s)).1
        (ilsmStep dev.exec env pc 0 (driver dev s)).2.2 es' :=
      ilsmStep_moved hmid fun k' v' heq => halloc k v k' v' (heq ▸ hpc)
    refine ⟨es', h.redPut hlocks hflags hpc ?_ ?_ (fun t' hne => setClient_ne s _ hne)
      rfl rfl rfl rfl⟩
    · simp only [setClient_self]
      split
      · exact Or.inl ⟨_, rfl⟩
      · exact Or.inr rfl
    · simp only [devPc, setClient_self]
      generalize hc : ((ilsmDev dev.exec).step env pc 0 s.sh.dev).1 = c
      have hmoved : Moved dev pc (driver dev s) es c _ es' := hc ▸ hmoved
      cases c with
      | none => exact hmoved
      | some pc' => exact hmoved
  · have hstep : ∀ pc id, a ≠ .devStep pc id := fun pc id ha => hdev ⟨pc, id, ha⟩
    exact ⟨es, h.quietClient rfl hlocks hflags hcode hstep⟩

/-! ## The rollback thread -/

section Rollback

variable {m : Level × Int} {next : Shared T (ilsmDev dev.exec) →
  RollbackPc (ilsmDev dev.exec).Pc × Locals}

omit [DecidableEq T] in
/-- While the rollback thread is inside `reset_mtx`, no put is in a call. -/
theorem Recorded.of_rollback (hlocks : Locks s) (hhold : s.rollback.holdsReset = true)
    (hmid : Midway dev s.rollback.call (driver dev s) es)
    (htracked : s.rollback ≠ .clear → ∀ e ∈ s.sh.keyTracker.entries,
      Covered dev (driver dev s) es (firstFour e.2))
    (hidle : s.sh.kacheFlag = 0 → es = [] ∧ ∀ k, ¬ dev.has (driver dev s).device k) :
    Recorded dev s es := by
  have hheld : s.holdsReset .rollback = true := hhold
  have hout : ∀ t, (s.clients t).holdsReset = false := fun t =>
    hlocks.reset_unique (.client t) hheld nofun
  refine ⟨?_, fun t k v pc hpc => ?_, fun t k v hpc => ?_, htracked, hidle⟩
  · rw [hlocks.callOf_eq .rollback hheld]
    exact hmid
  · have := hout t
    rw [hpc] at this
    cases this
  · have := hout t
    rw [hpc] at this
    cases this

theorem Sound.rollbackCall (h : Sound dev s es) {pc : IlsmPc} {id : Nat}
    (hcode : rollbackCode murmur env m s.locals s.rollback = (.devStep pc id, next))
    (hs : s' = { s with
      sh := (Access.devStep pc id).effect murmur .rollback env s.sh
      rollback := (next s.sh).1
      locals := (next s.sh).2 })
    (hlocks : Locks s') (hflags : FlagInv s') : ∃ es', Sound dev s' es' := by
  have hpc := rollbackCode_devStep hcode
  have hbuf : ∀ k v, pc ≠ .buffering k v := fun k v heq => h.pass.iter k v (heq ▸ hpc)
  have hclear : s.rollback ≠ .clear := by rw [hpc]; exact nofun
  have hmid := h.records.midway
  rw [h.locks.callOf_eq_some.mpr ⟨.rollback, by rw [devPc, hpc]; rfl⟩] at hmid
  rw [hpc] at hcode
  obtain ⟨hcall, hnext⟩ := rollbackCode_createIter hcode s.sh
  obtain rfl : id = s.locals.iterId := by cases hcode; rfl
  obtain ⟨es', hmoved⟩ : ∃ es', Moved dev pc (driver dev s) es (next s.sh).1.call
      (ilsmStep dev.exec env pc s.locals.iterId (driver dev s)).2.2 es' := by
    rw [hcall]
    exact ilsmStep_moved hmid fun k v heq => absurd heq (hbuf k v)
  subst hs
  refine ⟨es', hlocks, hflags, .of_rollback hlocks ?_ hmoved.midway ?_ ?_, ?_⟩
  · rcases hnext with ⟨p', hnext⟩ | hnext <;> simp only [hnext] <;> rfl
  · intro _ e he
    exact hmoved.covered _ (h.records.tracked hclear e he)
  · intro hzero
    obtain ⟨hnil, hnone⟩ := h.records.idle hzero
    obtain ⟨hnil', hsub⟩ := hmoved.empty hbuf hnil
    exact ⟨hnil', fun k hk => hnone k (hsub k hk)⟩
  · rcases hnext with ⟨p', hnext⟩ | hnext
    · rw [hnext] at hmoved
      simp only [hnext]
      refine ⟨nofun, fun k v heq => ?_, nofun, nofun⟩
      cases heq
      exact hmoved.next k v rfl
    · rw [hnext] at hmoved
      simp only [hnext]
      exact ⟨nofun, nofun, fun _ => hmoved.done hbuf rfl, nofun⟩

theorem Sound.rollbackReset (h : Sound dev s es)
    (hcode : rollbackCode murmur env m s.locals s.rollback = (.devReset, next))
    (hs : s' = { s with
      sh := Access.devReset.effect murmur .rollback env s.sh
      rollback := (next s.sh).1
      locals := (next s.sh).2 })
    (hlocks : Locks s') (hflags : FlagInv s') : Sound dev s' [] := by
  have hpc := rollbackCode_devReset hcode
  have hnil : es = [] := h.pass.drained (by rw [hpc]; rfl)
  subst hnil
  obtain ⟨hinfo, hnone⟩ := reset_spec dev (driver dev s) env
  rw [hpc] at hcode
  cases hcode
  subst hs
  have hbatch := h.records.midway.batch
  refine ⟨hlocks, hflags, .of_rollback hlocks rfl ?_ ?_ ?_, ?_⟩
  · refine ⟨⟨?_, fun _ => rfl⟩, Or.inl (by decide), nofun, nofun⟩
    exact hinfo.symm ▸ hbatch.table
  · exact fun hclear => absurd rfl hclear
  · exact fun _ => ⟨rfl, hnone⟩
  · exact ⟨nofun, nofun, fun _ => rfl, fun _ => hnone⟩

theorem Sound.quietRollback (h : Sound dev s es)
    (hcode : rollbackCode murmur env m s.locals s.rollback = (a, next))
    (hs : s' = { s with
      sh := a.effect murmur .rollback env s.sh
      rollback := (next s.sh).1
      locals := (next s.sh).2 })
    (hlocks : Locks s') (hflags : FlagInv s')
    (hdev : ∀ pc id, a ≠ .devStep pc id) (hreset : a ≠ .devReset) :
    Sound dev s' es := by
  subst hs
  have hkept : Kept dev (driver dev s) (a.effect murmur .rollback env s.sh).dev :=
    kept_effect hdev hreset
  obtain ⟨hcall, hnext⟩ := rollbackCode_call hcode hdev s.sh
  refine ⟨hlocks, hflags, h.records.of_kept hkept ?_ (fun _ _ _ _ => Or.inr)
    (fun _ _ _ => id) ?_ ?_, ⟨?_, ?_, ?_, ?_⟩⟩
  · rcases hnext with hnone | ⟨hloop, hnext⟩
    · rw [h.locks.callOf_congr hlocks]
      · exact h.records.midway
      · rintro (t | _)
        · rfl
        · exact hnone.trans hcall.symm
    · have hmid := h.records.midway
      rw [h.locks.callOf_eq .rollback (by rw [holdsReset, hloop]; rfl), devPc,
        hcall] at hmid
      rw [hlocks.callOf_eq_some.mpr ⟨.rollback, by simp only [devPc, hnext]; rfl⟩]
      refine hmid.enter (fun iter heq => ?_) (fun heq => ?_)
      · cases heq
      · cases heq
  · intro _ e he
    refine Or.inl ⟨fun hclear => ?_, ?_⟩
    · rw [hclear] at hcode
      cases hcode
      have hmem : e ∈ (HashMap.clear s.sh.keyTracker).entries := he
      rw [HashMap.entries_clear] at hmem
      cases hmem
    · rcases Access.effect_entries he with he | ⟨k, ha, _⟩
      · exact he
      · exact (rollbackCode_trackerInsert (ha ▸ hcode)).elim
  · intro hzero
    rcases a.effect_kacheFlag murmur .rollback env s.sh with hsame | ⟨n, ha, _⟩
    · exact Or.inl (hsame.symm.trans hzero)
    · have hpc := (rollbackCode_setKache (ha ▸ hcode)).1
      exact Or.inr ⟨h.pass.drained (by rw [hpc]; rfl), h.pass.erased (by rw [hpc]; rfl)⟩
  · exact rollbackCode_resting hcode h.pass.flag
  · intro k v heq
    rcases hnext with hnone | ⟨_, hnext⟩
    · simp only [] at heq
      rw [heq] at hnone
      cases hnone
    · simp only [] at heq
      rw [heq] at hnext
      cases hnext
  · intro hscan
    rcases rollbackCode_scans hcode h.pass.flag hscan with hscan | ⟨p, hpc, _⟩
    · exact h.pass.drained hscan
    · rw [hpc] at hcall
      cases hcall
  · intro hera k hk
    rcases rollbackCode_erased hcode hera with hera | ha
    · exact h.pass.erased hera k ((hkept.has k).mp hk)
    · exact hreset ha

theorem Sound.rollbackStep (h : Sound dev s es)
    (hcode : rollbackCode murmur env m s.locals s.rollback = (a, next))
    (hready : a.ready s.sh = true) :
    ∃ es', Sound dev { s with
      sh := a.effect murmur .rollback env s.sh
      rollback := (next s.sh).1
      locals := (next s.sh).2 } es' := by
  have hlocks := h.locks.rollbackStep hcode hready
  have hflags := h.flags.rollbackStep h.locks hcode
  by_cases hdev : ∃ pc id, a = .devStep pc id
  · obtain ⟨pc, id, rfl⟩ := hdev
    exact h.rollbackCall hcode rfl hlocks hflags
  · by_cases hreset : a = .devReset
    · subst hreset
      exact ⟨[], h.rollbackReset hcode rfl hlocks hflags⟩
    · exact ⟨es, h.quietRollback hcode rfl hlocks hflags
        (fun pc id ha => hdev ⟨pc, id, ha⟩) hreset⟩

end Rollback

/-! ## Every interleaving -/

theorem Sound.call (h : Sound dev s es) {pc : ClientPc (ilsmDev dev.exec).Pc}
    (hidle : s.clients t = .idle) (hcall : pc.call = none)
    (hins : ∀ k v, pc ≠ .redInsert k v) (hlocks : Locks (s.setClient t pc))
    (hflags : FlagInv (s.setClient t pc)) : Sound dev (s.setClient t pc) es where
  locks := hlocks
  flags := hflags
  records := h.records.client h.locks hlocks (.refl _) (by rw [hidle]; rfl) (Or.inl hcall)
    hins (fun _ => Or.inl) id
  pass := h.pass.of_kept (.refl _) rfl rfl

theorem Sound.step {act : Act T (ilsmDev dev.exec)} (h : Sound dev s es)
    (halloc : AllocOk dev s act) (hstep : s.step murmur act = some s') :
    ∃ es', Sound dev s' es' := by
  have hlocks := h.locks.step hstep
  have hflags := h.flags.step h.locks hstep
  cases Steps.of_step hstep with
  | callPut t k v hidle => exact ⟨es, h.call hidle rfl nofun hlocks hflags⟩
  | callGet t k hidle => exact ⟨es, h.call hidle rfl nofun hlocks hflags⟩
  | client t env a next hcode hready => exact h.client halloc hcode hready
  | rollback env m a next hcode hready => exact h.rollbackStep hcode hready

omit [DecidableEq T] in
theorem sound_opened (main : Key → Option Value) {device : σ}
    (hdev : ∀ k, ¬ dev.has device k) :
    Sound dev (opened main (DB.opened device) : State T (ilsmDev dev.exec)) [] where
  locks := locks_opened main _
  flags := flagInv_opened main _
  records := {
    midway := ⟨⟨.nil rfl rfl, fun _ => rfl⟩, Or.inl (by decide), nofun, nofun⟩
    put := nofun
    insert := nofun
    tracked := fun _ e he => by
      have hnil : (HashMap.empty : HashMap Key 128).entries = [] := HashMap.entries_empty
      have hmem : e ∈ (HashMap.empty : HashMap Key 128).entries := he
      rw [hnil] at hmem
      cases hmem
    idle := fun _ => ⟨rfl, hdev⟩ }
  pass := ⟨fun _ => rfl, nofun, nofun, nofun⟩

/-- Flag, tracker and device are in step in every state that any interleaving
reaches, as long as the redirected puts get their buffers. -/
theorem coherent_of_allocOk {main : Key → Option Value} {device : σ}
    {tr : List (State T (ilsmDev dev.exec) × Act T (ilsmDev dev.exec))}
    (hdev : ∀ k, ¬ dev.has device k)
    (hrun : Run (State.step murmur) (AllocOk dev) (opened main (DB.opened device)) tr s) :
    Coherent dev s := by
  obtain ⟨es, h⟩ : ∃ es, Sound dev s es := by
    refine hrun.invariant (I := fun s => ∃ es, Sound dev s es) ?_ ?_
    · exact ⟨[], sound_opened main hdev⟩
    · rintro s act s' ⟨es, h⟩ halloc hstep
      exact h.step halloc hstep
  exact h.coherent

end Invariant

/-- One redirected put, with `out` from outside. -/
def onePut (out : Outside) : List (Act Unit (ilsmDev mapRecords.exec)) :=
  .rollback out (.high, 0) :: .callPut () [48, 48, 48, 48] [1] ::
    List.replicate 6 (.client () out)

abbrev atOpen : State Unit (ilsmDev mapRecords.exec) :=
  opened (fun _ => none) (DB.opened MapDevice.empty)

theorem coherent_onePut :
    (replay (State.step murmurHash3) atOpen (onePut .fine)).sh.kacheFlag = 1 ∧
      Coherent mapRecords (replay (State.step murmurHash3) atOpen (onePut .fine)) := by
  refine ⟨rfl, coherent_of_allocOk (fun k h => by cases h)
    (Run.start.replay_allowed fun act hact s => ?_)⟩
  simp only [onePut, List.mem_cons, List.mem_replicate] at hact
  rcases hact with rfl | rfl | ⟨_, rfl⟩
  · trivial
  · trivial
  · exact fun _ _ _ _ _ _ => ⟨rfl, rfl⟩

/-- `DB_MASTER::Put` drops the `-ENOMEM` and tracks the key. No command was
sent, so none has failed. -/
theorem not_coherent_noPages :
    Run (State.step murmurHash3) (fun _ _ => True) atOpen
        (replayTrace (State.step murmurHash3) atOpen (onePut noPages) [])
        (replay (State.step murmurHash3) atOpen (onePut noPages)) ∧
      ¬ Coherent mapRecords
        (replay (State.step murmurHash3) atOpen (onePut noPages)) := by
  refine ⟨Run.replay _ .start fun _ _ => trivial, fun h => ?_⟩
  have hmem : (doubleHash murmurHash3 [48, 48, 48, 48] 1, [48, 48, 48, 48]) ∈
      (replay (State.step murmurHash3) atOpen (onePut noPages)).sh.keyTracker.entries := by
    decide
  rcases h.tracked rfl _ hmem with hbuf | hdev
  · exact absurd hbuf (by decide)
  · cases hdev

end State

end Kvaccel.Ref
