import Kvaccel.Proofs.Driver
import Kvaccel.Proofs.Threads
import Kvaccel.Spec.IterIds

/-!
# How many device iterators are live

Of all the commands that the threads and the loop of `SeekRandom` send, three
change which ids are live: the one of `CreateIter`, the device reset at the end
of a pass and the loop's `DestroyIter`. Only the first adds one, and until the
third nothing takes a single id away, so the live ids are an initial segment as
long as the number of iterators created since the last reset.
-/

namespace Kvaccel.Ref

open Kvaccel.Lib Kvaccel.Spec

/-! ## The driver -/

section Driver

variable {σ : Type} {exec : Device σ} {live : σ → Finset Nat} {out : Outside} {db : DB σ}

/-- The opcodes that change which ids are live. -/
def liveOps : List NvmeOpcode := [.kvIterCreateIter, .kvIterDestroyIter, .kvReset]

theorem persists_live (hdev : Allocates exec live) (L : Finset Nat) :
    Persists exec (fun op => op ∉ liveOps) fun db => live db.device = L where
  host h _ _ _ hdevice := by
    rw [hdevice]
    exact h
  finishOp _ h := h
  command hop h := by
    rw [DB.nvmePassthru_device, hdev.other _ _ hop]
    exact h

/-- Of the commands of a put or a `CreateIter`, the last of the latter. -/
theorem live_ilsmStep (hdev : Allocates exec live) (pc : IlsmPc) (iterId : Nat) :
    live (ilsmStep exec out pc iterId db).2.2.device =
      if pc = .iterCmd then insert (free (live db.device)) (live db.device)
      else live db.device := by
  have hlive := persists_live hdev (live db.device)
  cases pc with
  | buffering k v =>
      have hbuffered : live (db.buffering k v out).2.device = live db.device :=
        Persists.buffering (P := fun db' => live db'.device = live db.device)
          (fun _ h => h) k v out rfl
      rw [if_neg (fun h => by cases h), ilsmStep]
      split
      · exact hbuffered
      · exact hbuffered
  | vFlush iter i =>
      rw [if_neg (fun h => by cases h), ilsmStep]
      split
      · have hcmd : live (db.nvmePassthru exec (DB.valueFlushCmd db.bufferingInfo i)
            out.result).2.device = live db.device :=
          hlive.command (show NvmeOpcode.vFlush ∉ liveOps by decide) rfl
        simp only []
        split
        · exact hcmd
        · exact hcmd
      · rfl
  | kvFlush iter =>
      rw [if_neg fun h => by cases h]
      exact hlive.keyValueFlush (by decide) out rfl
  | release iter =>
      rw [if_neg fun h => by cases h]
      cases iter <;> rfl
  | createIter => rfl
  | iterCmd =>
      rw [if_pos rfl]
      show live (db.createIterCmd exec iterId out).2.2.device = _
      rw [DB.createIterCmd_db]
      show live (db.nvmePassthru exec { opcode := .kvIterCreateIter } out.result).2.device = _
      rw [DB.nvmePassthru_device]
      exact (hdev.create _ _ rfl).2.2

/-- The command of `CreateIter` fetches the smallest id that is not live. -/
theorem ilsmStep_iterCmd (hdev : Allocates exec live) (iterId : Nat) :
    (ilsmStep exec out .iterCmd iterId db).1 = none ∧
      (ilsmStep exec out .iterCmd iterId db).2.1 = free (live db.device) := by
  obtain ⟨herr, hresult, _⟩ := hdev.create { opcode := .kvIterCreateIter } db.device rfl
  refine ⟨rfl, ?_⟩
  show (db.createIterCmd exec iterId out).2.1 = _
  rw [DB.createIterCmd, DB.nvmePassthru_ok herr]
  simp only [herr]
  exact hresult

/-- A whole `CreateIter`, with the flush before it if there is one. -/
theorem createIter_fetched (hdev : Allocates exec live) (iterId : Nat) :
    (db.createIter exec iterId out).2.1 = free (live db.device) ∧
      live (db.createIter exec iterId out).2.2.device =
        insert (free (live db.device)) (live db.device) := by
  have hflushed : live (if db.bufferingInfo.bufferingCnt ≠ 0 then db.flush exec out
      else db).device = live db.device := by
    split
    · exact (persists_live hdev _).flush (fun _ h => h) (by decide) (by decide) out rfl
    · rfl
  rw [← hflushed]
  exact ⟨(ilsmStep_iterCmd hdev iterId).2,
    (live_ilsmStep hdev .iterCmd iterId).trans (if_pos rfl)⟩

theorem live_reset (hdev : Allocates exec live) : live (db.reset exec out).2.device = ∅ := by
  rw [DB.reset, DB.nvmePassthru_device]
  exact hdev.reset _ _ rfl

end Driver

/-! ## The threads -/

/-- A counter of `CreateIter`, not of `Put`. -/
def IlsmPc.creating : IlsmPc → Bool
  | .createIter | .vFlush true _ | .kvFlush true | .release true | .iterCmd => true
  | _ => false

theorem ilsmStep_putting {σ : Type} {exec : Device σ} {out : Outside} {db : DB σ}
    {pc pc' : IlsmPc} {iterId : Nat} (hpc : pc.creating = false)
    (hnext : (ilsmStep exec out pc iterId db).1 = some pc') : pc'.creating = false := by
  cases pc with
  | buffering k v =>
      rw [ilsmStep] at hnext
      split at hnext <;> cases hnext
      rfl
  | vFlush iter i =>
      cases iter with
      | true => cases hpc
      | false =>
          rw [ilsmStep] at hnext
          split at hnext
          · simp only [] at hnext
            split at hnext <;> cases hnext <;> rfl
          · cases hnext
            rfl
  | kvFlush iter =>
      cases iter with
      | true => cases hpc
      | false =>
          cases hnext
          rfl
  | release iter =>
      cases iter with
      | true => cases hpc
      | false => cases hnext
  | createIter => cases hpc
  | iterCmd => cases hpc

section Threads

variable {T σ : Type} [DecidableEq T] {exec : Device σ} {live : σ → Finset Nat} {murmur : Murmur}
  {t t' : State T (ilsmDev exec)}

/-- What a client is in the middle of is a put. -/
def PutsOnly (t : State T (ilsmDev exec)) : Prop :=
  ∀ (u : T) (k : Key) (v : Value) (pc : IlsmPc), t.clients u = .redPut k v pc →
    pc.creating = false

theorem PutsOnly.update {u : T} {pc : ClientPc IlsmPc} {sh : Shared T (ilsmDev exec)}
    (h : PutsOnly t) (hpc : ∀ k v p, pc = .redPut k v p → p.creating = false) :
    PutsOnly { t.setClient u pc with sh := sh } := by
  intro u' k v p hp
  by_cases hu : u' = u
  · subst hu
    rw [show ({ t.setClient u' pc with sh := sh } : State T (ilsmDev exec)).clients u' = pc from
      Function.update_self ..] at hp
    exact hpc k v p hp
  · rw [show ({ t.setClient u pc with sh := sh } : State T (ilsmDev exec)).clients u' =
      t.clients u' from Function.update_of_ne hu ..] at hp
    exact h u' k v p hp

theorem PutsOnly.step {a : Act T (ilsmDev exec)} (h : PutsOnly t)
    (hstep : t.step murmur a = some t') : PutsOnly t' := by
  cases State.Steps.of_step hstep with
  | callPut u k v hidle => exact h.update nofun
  | callGet u k hidle => exact h.update nofun
  | rollback env m a next hcode hready => exact h
  | client u env a next hcode hready =>
      refine h.update fun k v p hp => ?_
      cases hpc : t.clients u with
      | redFlag k' v' =>
          rw [hpc] at hcode
          cases hcode
          cases hp
          rfl
      | redPut k' v' p' =>
          rw [hpc] at hcode
          cases hcode
          simp only [] at hp
          split at hp
          · next hnext =>
              cases hp
              exact ilsmStep_putting (h u _ _ p' hpc) hnext
          · cases hp
      | idle =>
          rw [hpc] at hcode
          cases hcode
      | _ =>
          rw [hpc] at hcode
          cases hcode
          first
            | cases hp
            | (simp only [] at hp; split at hp <;> cases hp)

theorem live_client (hdev : Allocates exec live) (h : PutsOnly t) {u : T}
    {env : (ilsmDev exec).Env} (hstep : t.step murmur (.client u env) = some t') :
    live (DB.device t'.sh.dev) = live (DB.device t.sh.dev) := by
  cases State.Steps.of_step hstep with
  | client _ _ a next hcode hready =>
      cases hpc : t.clients u with
      | idle =>
          rw [hpc] at hcode
          cases hcode
      | redPut k v p =>
          rw [hpc] at hcode
          cases hcode
          have hne : p ≠ IlsmPc.iterCmd := by
            rintro rfl
            cases h u k v _ hpc
          exact (live_ilsmStep hdev p 0).trans (if_neg hne)
      | getDev b k =>
          rw [hpc] at hcode
          cases hcode
          exact (persists_live hdev _).get (by decide) k [] env rfl
      | _ =>
          rw [hpc] at hcode
          cases hcode
          rfl

theorem live_rollback (hdev : Allocates exec live) {env : (ilsmDev exec).Env} {m : Level × Int}
    (hstep : t.step murmur (.rollback env m) = some t') :
    live (DB.device t'.sh.dev) =
      if t.rollback = .createIter IlsmPc.iterCmd then
        insert (free (live (DB.device t.sh.dev))) (live (DB.device t.sh.dev))
      else if t.rollback = .devReset then ∅
      else live (DB.device t.sh.dev) := by
  have hlive := persists_live hdev (live (DB.device t.sh.dev))
  cases State.Steps.of_step hstep with
  | rollback _ _ a next hcode hready =>
      cases hpc : t.rollback with
      | createIter pc =>
          rw [hpc] at hcode
          cases hcode
          by_cases hcmd : pc = IlsmPc.iterCmd
          · rw [if_pos (by rw [hcmd])]
            exact (live_ilsmStep hdev pc t.locals.iterId).trans (if_pos hcmd)
          · rw [if_neg fun heq => hcmd (RollbackPc.createIter.inj heq), if_neg nofun]
            exact (live_ilsmStep hdev pc t.locals.iterId).trans (if_neg hcmd)
      | devReset =>
          rw [hpc] at hcode
          cases hcode
          rw [if_neg nofun, if_pos rfl]
          exact live_reset hdev
      | seekScan =>
          rw [hpc] at hcode
          cases hcode
          rw [if_neg nofun, if_neg nofun]
          exact hlive.seekScan (by decide) _ _ _ env rfl
      | nextScan =>
          rw [hpc] at hcode
          cases hcode
          rw [if_neg nofun, if_neg nofun]
          exact hlive.nextScan (by decide) _ _ _ env rfl
      | _ =>
          rw [hpc] at hcode
          cases hcode
          show live (DB.device t.sh.dev) = _
          rw [if_neg nofun, if_neg nofun]

end Threads

/-! ## The loop -/

/-- The loop's accesses outside of `CreateIter` and `DestroyIter` send scan
commands only. -/
theorem Persists.seekRandom {σ : Type} {exec : Device σ} {ops : NvmeOpcode → Prop}
    {P : DB σ → Prop} {seekNexts : Nat} {b b' : SeekRandom} {db db' : DB σ} {out : Outside}
    {kacheFlag : Int} (hP : Persists exec ops P) (hseek : ops .kvRangeScanSeek)
    (hnext : ops .kvRangeScanNext) (hcreate : ∀ key pc, b.pc ≠ .resetCreate key pc)
    (hdestroy : b.pc ≠ .destroy) (hstep : b.step exec seekNexts out kacheFlag db = some (db', b'))
    (h : P db) : P db' := by
  unfold SeekRandom.step at hstep
  cases hpc : b.pc with
  | round => simp only [hpc] at hstep; cases hstep
  | done => simp only [hpc] at hstep; cases hstep
  | resetCreate key pc => exact absurd hpc (hcreate key pc)
  | destroy => exact absurd hpc hdestroy
  | seekScan key =>
      simp only [hpc] at hstep
      cases hstep
      exact hP.seekScan hseek b.ilsmIterId key [] out h
  | seekNote key targetKey value =>
      simp only [hpc] at hstep
      obtain ⟨_, _, hdb⟩ := Option.map_eq_some_iff.mp hstep
      cases hdb
      exact hP.noteIter b.ilsmIterId targetKey value h
  | nextScan n moved =>
      simp only [hpc] at hstep
      cases hstep
      exact hP.nextScan hnext b.ilsmIterId [] [] out h
  | nextNote n moved key value =>
      cases moved with
      | true =>
          simp only [hpc] at hstep
          cases hstep
          exact hP.noteIter b.ilsmIterId key value h
      | false =>
          simp only [hpc] at hstep
          obtain ⟨_, _, hdb⟩ := Option.map_eq_some_iff.mp hstep
          cases hdb
          exact hP.noteIter b.ilsmIterId key value h
  | nexts n =>
      cases n with
      | zero =>
          simp only [hpc] at hstep
          cases hstep
          exact h
      | succ n =>
          simp only [hpc] at hstep
          split at hstep
          · obtain ⟨_, _, hdb⟩ := Option.map_eq_some_iff.mp hstep
            cases hdb
            exact h
          · cases hstep
            exact h
  | nextBranch n =>
      simp only [hpc] at hstep
      split at hstep
      · obtain ⟨_, _, hdb⟩ := Option.map_eq_some_iff.mp hstep
        cases hdb
        exact h
      · cases hstep
        exact h
  | nextKache n =>
      simp only [hpc] at hstep
      split at hstep <;> cases hstep <;> exact h
  | _ =>
      simp only [hpc] at hstep
      cases hstep
      exact h

namespace SeekRandom

variable {σ : Type} {exec : Device σ} {live : σ → Finset Nat} {seekNexts : Nat}
  {b b' : SeekRandom} {db db' : DB σ} {out : Outside} {kacheFlag : Int}

theorem ne_done_of_step (hstep : b.step exec seekNexts out kacheFlag db = some (db', b')) :
    b.pc ≠ .done := by
  intro hpc
  simp only [step, hpc] at hstep
  cases hstep

/-- The loop is handed out an id by the command of its `CreateIter`. -/
theorem created_of_step {key : Key} (hdev : Allocates exec live)
    (hpc : b.pc = .resetCreate key .iterCmd)
    (hstep : b.step exec seekNexts out kacheFlag db = some (db', b')) :
    b'.ilsmIterId = free (live db.device) ∧ b'.pc = .seekKache key := by
  simp only [step, hpc] at hstep
  cases hstep
  exact ⟨(ilsmStep_iterCmd hdev _).2, rfl⟩

end SeekRandom

namespace BenchState

variable {T σ : Type} {exec : Device σ} {live : σ → Finset Nat} {murmur : Murmur}
  {seekNexts : Nat} {s s' : BenchState T exec} {act : BenchAct T exec} {tr : BenchTrace T exec}
  {b b' : SeekRandom} {db db' : DB σ} {out : Outside} {kacheFlag : Int}

theorem creates_seek_iff :
    creates s (.seek out) = true ↔ ∃ key, s.seek.pc = .resetCreate key .iterCmd := by
  unfold creates
  simp only []
  split
  · next key hpc => exact ⟨fun _ => ⟨key, hpc⟩, fun _ => rfl⟩
  · next hpc =>
      refine ⟨nofun, fun h => ?_⟩
      obtain ⟨key, h⟩ := h
      exact absurd h (hpc key)

/-- Until it is over, the loop changes the live ids by its `CreateIter` alone. -/
theorem live_seekStep (hdev : Allocates exec live)
    (hstep : b.step exec seekNexts out kacheFlag db = some (db', b')) (hdone : b'.pc ≠ .done) :
    ((∃ key, b.pc = .resetCreate key .iterCmd) →
      live db'.device = insert (free (live db.device)) (live db.device)) ∧
    (¬ (∃ key, b.pc = .resetCreate key .iterCmd) → live db'.device = live db.device) := by
  have hlive := persists_live hdev (live db.device)
  cases hpc : b.pc with
  | resetCreate key pc =>
      simp only [SeekRandom.step, hpc] at hstep
      cases hstep
      by_cases hcmd : pc = .iterCmd
      · subst hcmd
        exact ⟨fun _ => (live_ilsmStep hdev _ _).trans (if_pos rfl), fun h => absurd ⟨key, rfl⟩ h⟩
      · refine ⟨fun h => ?_, fun _ => (live_ilsmStep hdev _ _).trans (if_neg hcmd)⟩
        obtain ⟨_, h⟩ := h
        cases h
        exact absurd rfl hcmd
  | destroy =>
      simp only [SeekRandom.step, hpc] at hstep
      cases hstep
      exact absurd rfl hdone
  | _ =>
      refine ⟨fun h => ?_, fun _ => ?_⟩
      · obtain ⟨_, h⟩ := h
        cases h
      · exact hlive.seekRandom (by decide) (by decide) (fun _ _ h => by cases hpc.symm.trans h)
          (fun h => by cases hpc.symm.trans h) hstep rfl

variable [DecidableEq T]

/-- A step that was taken, by who took it. -/
inductive Steps (seekNexts : Nat) (murmur : Murmur) (s : BenchState T exec) :
    BenchAct T exec → BenchState T exec → Prop where
  | threads (a : Act T (ilsmDev exec)) (t' : State T (ilsmDev exec))
      (taken : s.threads.step murmur a = some t') :
      Steps seekNexts murmur s (.threads a) { s with threads := t' }
  | round (table : List (Key × Value)) (key : Key) (pc : s.seek.pc = .round) :
      Steps seekNexts murmur s (.round table key)
        { s with seek := { s.seek with iter := .new table, pc := .resetKache key } }
  | leave (pc : s.seek.pc = .round) :
      Steps seekNexts murmur s .leave { s with seek := { s.seek with pc := .destroy } }
  | seek (out : Outside) (db' : DB σ) (b' : SeekRandom)
      (taken : s.seek.step exec seekNexts out s.threads.sh.kacheFlag s.threads.sh.dev =
        some (db', b')) :
      Steps seekNexts murmur s (.seek out) { threads := s.setDb db', seek := b' }

theorem Steps.of_step (hstep : s.step seekNexts murmur act = some s') :
    Steps seekNexts murmur s act s' := by
  cases act with
  | threads a =>
      obtain ⟨t', htaken, rfl⟩ := Option.map_eq_some_iff.mp hstep
      exact .threads a t' htaken
  | round table key =>
      simp only [step] at hstep
      split at hstep
      · next hpc =>
          cases hstep
          exact .round table key hpc
      · cases hstep
  | leave =>
      simp only [step] at hstep
      split at hstep
      · next hpc =>
          cases hstep
          exact .leave hpc
      · cases hstep
  | seek out =>
      obtain ⟨⟨db', b'⟩, htaken, rfl⟩ := Option.map_eq_some_iff.mp hstep
      exact .seek out db' b' htaken

/-- A step before the loop is over. -/
theorem live_step (hdev : Allocates exec live) (hputs : PutsOnly s.threads)
    (hstep : s.step seekNexts murmur act = some s') (hdone : s'.seek.pc ≠ .done) :
    live s'.device =
      if creates s act then insert (free (live s.device)) (live s.device)
      else if resets s act then ∅ else live s.device := by
  cases Steps.of_step hstep with
  | threads a t' hthreads =>
      cases a with
      | rollback env m =>
          simp only [creates, resets, beq_iff_eq]
          exact live_rollback hdev hthreads
      | client u env => exact live_client hdev hputs hthreads
      | callPut u k v =>
          cases State.Steps.of_step hthreads
          rfl
      | callGet u k =>
          cases State.Steps.of_step hthreads
          rfl
  | round table key hpc => rfl
  | leave hpc => rfl
  | seek out db' b' hseek =>
      obtain ⟨hcreate, hkeep⟩ := live_seekStep hdev hseek hdone
      by_cases hcreates : creates s (.seek out) = true
      · rw [if_pos hcreates]
        exact hcreate (creates_seek_iff.mp hcreates)
      · rw [if_neg hcreates]
        exact hkeep fun h => hcreates (creates_seek_iff.mpr h)

theorem putsOnly_step (hputs : PutsOnly s.threads)
    (hstep : s.step seekNexts murmur act = some s') : PutsOnly s'.threads := by
  cases Steps.of_step hstep with
  | threads a t' hthreads => exact hputs.step hthreads
  | round table key hpc => exact hputs
  | leave hpc => exact hputs
  | seek out db' b' hseek => exact hputs

/-- `DestroyIter` is the last access of the loop. -/
theorem ne_done_of_step (hstep : s.step seekNexts murmur act = some s')
    (hdone : s'.seek.pc ≠ .done) : s.seek.pc ≠ .done := by
  cases Steps.of_step hstep with
  | threads a t' hthreads => exact hdone
  | round table key hpc => exact fun h => by cases hpc.symm.trans h
  | leave hpc => exact fun h => by cases hpc.symm.trans h
  | seek out db' b' hseek => exact SeekRandom.ne_done_of_step hseek

/-- While the loop runs, no id is given back on its own: as many ids are live as
have been created since the last device reset. -/
theorem live_eq_range (hdev : Allocates exec live) {Q : BenchState T exec → BenchAct T exec → Prop}
    {main : Key → Option Value} {d : σ} {id₀ loc₀ : Nat} (hopened : live d = ∅)
    (hrun : Run (step seekNexts murmur) Q (opened main d id₀ loc₀) tr s)
    (hdone : s.seek.pc ≠ .done) : live s.device = Finset.range (created tr) := by
  have hputs : ∀ {tr} {s : BenchState T exec},
      Run (step seekNexts murmur) Q (opened main d id₀ loc₀) tr s → PutsOnly s.threads :=
    fun hrun => hrun.invariant (I := fun s => PutsOnly s.threads) nofun
      fun _ _ _ h _ hstep => putsOnly_step h hstep
  induction hrun with
  | start => exact hopened
  | next hrun _ hstep ih =>
      rw [live_step hdev (hputs hrun) hstep hdone, ih (ne_done_of_step hstep hdone),
        insert_free_range, created]
      split
      · rfl
      · split <;> rfl

/-- One of the ten ids is left for the next iterator exactly if fewer than ten
have been created since the last device reset. -/
theorem exists_free_iff (hdev : Allocates exec live)
    {Q : BenchState T exec → BenchAct T exec → Prop} {main : Key → Option Value} {d : σ}
    {id₀ loc₀ : Nat} (hopened : live d = ∅)
    (hrun : Run (step seekNexts murmur) Q (opened main d id₀ loc₀) tr s)
    (hdone : s.seek.pc ≠ .done) :
    ¬ Finset.range maxIteratorNum ⊆ live s.device ↔ created tr < maxIteratorNum := by
  rw [live_eq_range hdev hopened hrun hdone, Finset.range_subset_range, not_le]

/-! ## Rounds without end -/

/-- Accesses of the loop with nothing in between, as steps of a run. -/
theorem run_alone {s₀ s : BenchState T exec} (k : Nat) {r : DB σ × SeekRandom}
    {tr : BenchTrace T exec} (hrun : Run (step seekNexts murmur) KacheOn s₀ tr s)
    (hkache : s.threads.sh.kacheFlag = 1)
    (halone : SeekRandom.alone exec seekNexts out 1 k (s.threads.sh.dev, s.seek) = some r) :
    ∃ tr', Run (step seekNexts murmur) KacheOn s₀ tr' { threads := s.setDb r.1, seek := r.2 } := by
  induction k generalizing tr s with
  | zero =>
      cases halone
      exact ⟨tr, hrun⟩
  | succ k ih =>
      obtain ⟨r₁, hstep, hrest⟩ := Option.bind_eq_some_iff.mp halone
      have hnext : s.step seekNexts murmur (.seek out) =
          some { threads := s.setDb r₁.1, seek := r₁.2 } := by
        rw [step, hkache, hstep]
        rfl
      have hon : KacheOn s (.seek out) := fun _ => hkache
      exact ih (s := { threads := s.setDb r₁.1, seek := r₁.2 }) (hrun.next hon hnext) hkache hrest

/-- Before a round with `n` ids live. The pass has not started, and the loop of
`_ValueFlush` would not wrap around. -/
structure BetweenRounds (live : σ → Finset Nat) (n : Nat) (s : BenchState T exec) : Prop where
  pc : s.seek.pc = .round
  kache : s.threads.sh.kacheFlag = 1
  live : live s.device = Finset.range n
  rollback : s.threads.rollback = .guard
  wrap : (DB.bufferingInfo s.threads.sh.dev).valueLogOffset * limitValueBufferEntry < 4294967296

omit [DecidableEq T] in
theorem createIter_wrap (iterId : Nat)
    (hwrap : db.bufferingInfo.valueLogOffset * limitValueBufferEntry < 4294967296) :
    (db.createIter exec iterId out).2.2.bufferingInfo.valueLogOffset * limitValueBufferEntry <
      4294967296 := by
  rw [DB.createIter, (persists_bufferingInfo exec _).createIterCmd trivial iterId out rfl]
  split
  · show 0 * limitValueBufferEntry < 4294967296
    decide
  · exact hwrap

variable {table : List (Key × Value)} {key mainKey : Key}

omit [DecidableEq T] in
/-- A round in one go, with a record of Main-LSM at or after the key. -/
theorem alone_round (hmain : ((MainIter.new table).seek key).key = some mainKey)
    (hpc : b.pc = .resetKache key) (hiter : b.iter = .new table)
    (hwrap : db.bufferingInfo.valueLogOffset * limitValueBufferEntry < 4294967296) :
    ∃ k b', SeekRandom.alone exec 0 out 1 k (db, b) =
        some (let r := db.createIter exec b.ilsmIterId out
          let q := r.2.2.seekScan exec r.2.1 key [] out
          q.2.2.2.noteIter r.2.1 q.2.1 q.2.2.1, b') ∧
      b'.pc = .round ∧ b'.ilsmIterId = (db.createIter exec b.ilsmIterId out).2.1 := by
  obtain ⟨pc, found, iter, id, loc⟩ := b
  cases hpc
  cases hiter
  let r := db.createIter exec id out
  let b₁ : SeekRandom := ⟨.seekKache key, found, .new table, r.2.1, loc⟩
  obtain ⟨k₁, hreset⟩ : ∃ k, SeekRandom.alone exec 0 out 1 k
      (db, ⟨.resetKache key, found, .new table, id, loc⟩) = some (r.2.2, b₁) :=
    SeekRandom.alone_reset (b := ⟨.resetKache key, found, .new table, id, loc⟩) rfl hwrap _
  obtain ⟨k₂, hseek⟩ : ∃ k, SeekRandom.alone exec 0 out 1 k (r.2.2, b₁) = _ :=
    SeekRandom.alone_seek rfl
  have hsought : SeekRandom.alone exec 0 out 1 k₂ (r.2.2, b₁) =
      (((MainIter.new table).seek key).key.map _).map _ := hseek
  rw [hmain, Option.map_some, Option.map_some] at hsought
  exact ⟨k₁ + (k₂ + 2), _, (SeekRandom.alone_add hreset _).trans (SeekRandom.alone_add hsought 2),
    rfl, rfl⟩

theorem another_round (hdev : Allocates exec live) {s₀ : BenchState T exec} {n : Nat}
    (hmain : ((MainIter.new table).seek key).key = some mainKey)
    (hrun : Run (step 0 murmur) KacheOn s₀ tr s) (h : BetweenRounds live n s) :
    ∃ tr' s', Run (step 0 murmur) KacheOn s₀ tr' s' ∧ BetweenRounds live (n + 1) s' ∧
      s'.seek.ilsmIterId = n := by
  have hallowed : KacheOn s (.round table key : BenchAct T exec) := trivial
  have hround := hrun.next hallowed (if_pos h.pc)
  obtain ⟨k, b', halone, hpc, hid⟩ : ∃ k b', SeekRandom.alone exec 0 Outside.fine 1 k
      (s.threads.sh.dev, { s.seek with iter := .new table, pc := .resetKache key }) = _ ∧ _ :=
    alone_round hmain rfl rfl h.wrap
  obtain ⟨tr', hrun'⟩ := run_alone k hround h.kache halone
  let r := DB.createIter exec s.threads.sh.dev s.seek.ilsmIterId Outside.fine
  let q := r.2.2.seekScan exec r.2.1 key [] Outside.fine
  obtain ⟨hfree, hlive⟩ : r.2.1 = _ ∧ live r.2.2.device = _ :=
    createIter_fetched hdev s.seek.ilsmIterId
  refine ⟨tr', _, hrun', ⟨hpc, h.kache, ?_, h.rollback, ?_⟩, ?_⟩
  · have hpersists := persists_live hdev (Finset.range (n + 1))
    refine hpersists.noteIter _ _ _ (hpersists.seekScan (by decide) _ _ _ _ ?_)
    rw [hlive, show live (DB.device s.threads.sh.dev) = _ from h.live, insert_free_range]
  · have hpersists := persists_bufferingInfo exec r.2.2.bufferingInfo
    have hscan := hpersists.seekScan trivial r.2.1 key [] .fine rfl
    have hbip := hpersists.noteIter r.2.1 q.2.1 q.2.2.1 hscan
    exact hbip ▸ createIter_wrap _ h.wrap
  · exact hid.trans (hfree.trans ((congrArg free h.live).trans (free_range n)))

/-- The level is measured as `LEVEL_HIGH`, and one put is redirected. -/
def redirectOne (exec : Device σ) : List (BenchAct Unit exec) :=
  (.rollback Outside.fine (.high, 36) :: .callPut () [48, 48, 48, 49] [1] ::
    List.replicate 7 (.client () Outside.fine)).map .threads

theorem betweenRounds_redirectOne {main : Key → Option Value} {d : σ} {id₀ loc₀ : Nat}
    (hopened : live d = ∅) :
    ∃ tr s, Run (step 0 murmur) KacheOn (opened main d id₀ loc₀ : BenchState Unit exec) tr s ∧
      BetweenRounds live 0 s := by
  have hallowed : ∀ a ∈ redirectOne exec, ∀ s : BenchState Unit exec, KacheOn s a := by
    intro a ha s
    obtain ⟨act, _, rfl⟩ := List.mem_map.mp ha
    exact trivial
  have hstart : Run (step 0 murmur) KacheOn (opened main d id₀ loc₀ : BenchState Unit exec) [] _ :=
    .start
  refine ⟨_, _, hstart.replay_allowed hallowed, ⟨rfl, rfl, hopened, rfl, ?_⟩⟩
  show (1 : Nat) * limitValueBufferEntry < 4294967296
  decide

/-- For every `n` there is a run that makes `n + 1` rounds, and the id of the last
one is `n`. -/
theorem exists_rounds (hdev : Allocates exec live)
    (hmain : ((MainIter.new table).seek key).key = some mainKey) {main : Key → Option Value}
    {d : σ} {id₀ loc₀ : Nat} (hopened : live d = ∅) (n : Nat) :
    ∃ tr s, Run (step 0 murmur) KacheOn (opened main d id₀ loc₀ : BenchState Unit exec) tr s ∧
      BetweenRounds live (n + 1) s ∧ s.seek.ilsmIterId = n := by
  induction n with
  | zero =>
      obtain ⟨tr, s, hrun, h⟩ := betweenRounds_redirectOne hopened
      exact another_round hdev hmain hrun h
  | succ n ih =>
      obtain ⟨tr, s, hrun, h, _⟩ := ih
      exact another_round hdev hmain hrun h

end BenchState

end Kvaccel.Ref
