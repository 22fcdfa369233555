import Kvaccel.Proofs.IterLive

/-!
# Iterator ids run out

Two threads hold an iterator id: the loop of `SeekRandom` in `ilsm_iter_id` and
the rollback thread in `iter_id`. Each of them takes an id from the device and
uses it next, so over a whole run the ids used are the ids handed out, apart
from what the member holds if no round is made at all. `Ledger` is that
bookkeeping, kept by every step of either thread.

The device hands out an id below ten as long as one of the ten is not live.
Nothing on the host destroys an id before the loop is over, so what counts is
how many have been created since the last reset (`exists_free_iff`).
-/

namespace Kvaccel.Ref

open Kvaccel.Lib Kvaccel.Spec

/-! ## The commands of `CreateIter` -/

section Create

variable {σ : Type} {exec : Device σ} {out : Outside} {db : DB σ}

theorem ilsmStep_creating {pc : IlsmPc} (hpc : pc.creating = true) (hne : pc ≠ .iterCmd)
    (iterId : Nat) :
    ∃ pc', pc'.creating = true ∧ (ilsmStep exec out pc iterId db).1 = some pc' ∧
      (ilsmStep exec out pc iterId db).2.1 = iterId := by
  cases pc with
  | buffering k v => cases hpc
  | vFlush iter i =>
      cases iter with
      | false => cases hpc
      | true =>
          rw [ilsmStep]
          split
          · simp only []
            split
            · exact ⟨_, rfl, rfl, rfl⟩
            · exact ⟨_, rfl, rfl, rfl⟩
          · exact ⟨_, rfl, rfl, rfl⟩
  | kvFlush iter =>
      cases iter with
      | false => cases hpc
      | true => exact ⟨_, rfl, rfl, rfl⟩
  | release iter =>
      cases iter with
      | false => cases hpc
      | true => exact ⟨_, rfl, rfl, rfl⟩
  | createIter =>
      refine ⟨_, ?_, rfl, rfl⟩
      split <;> rfl
  | iterCmd => exact absurd rfl hne

end Create

namespace BenchState

variable {T σ : Type} {exec : Device σ} {live : σ → Finset Nat}
  {murmur : Murmur} {seekNexts id₀ : Nat} {s s' : BenchState T exec} {act : BenchAct T exec}
  {tr : BenchTrace T exec} {H H' U U' : List Nat} {N : Prop}

/-! ## The rollback thread -/

/-- What the rollback thread knows of `iter_id`, with the ids `H` handed out. -/
structure PassHolds (H : List Nat) (s : State T (ilsmDev exec)) : Prop where
  creating : ∀ pc : IlsmPc, s.rollback = .createIter pc → pc.creating = true
  seek : s.rollback = .seekScan → s.locals.iterId ∈ H
  next : s.rollback = .nextScan → 0 ≤ s.locals.flag
  flag : 0 ≤ s.locals.flag → s.locals.iterId ∈ H

theorem PassHolds.mono {t : State T (ilsmDev exec)} (h : PassHolds H t) (hH : H ⊆ H') :
    PassHolds H' t :=
  ⟨h.creating, fun hpc => hH (h.seek hpc), h.next, fun hflag => hH (h.flag hflag)⟩

/-- Not at a counter that `PassHolds` says anything about. -/
def plain : RollbackPc IlsmPc → Bool
  | .createIter _ | .seekScan | .nextScan => false
  | _ => true

theorem PassHolds.of_plain {t : State T (ilsmDev exec)} (hplain : plain t.rollback = true)
    (hflag : 0 ≤ t.locals.flag → t.locals.iterId ∈ H) : PassHolds H t where
  creating pc hpc := by rw [hpc] at hplain; cases hplain
  seek hpc := by rw [hpc] at hplain; cases hplain
  next hpc := by rw [hpc] at hplain; cases hplain
  flag := hflag

/-- The rollback thread uses the id it is handed out next. -/
theorem rollback_created [DecidableEq T] (hdev : Allocates exec live)
    {t t' : State T (ilsmDev exec)} {env : (ilsmDev exec).Env} {m : Level × Int}
    (hpc : t.rollback = .createIter IlsmPc.iterCmd)
    (hstep : t.step murmur (.rollback env m) = some t') :
    t'.rollback = .seekScan ∧ t'.locals.iterId = free (live (DB.device t.sh.dev)) := by
  cases State.Steps.of_step hstep with
  | rollback _ _ a next hcode hready =>
      rw [hpc] at hcode
      cases hcode
      exact ⟨rfl, (ilsmStep_iterCmd hdev _).2⟩

/-- A step of the rollback thread, with what it is handed out in `H'`. -/
theorem PassHolds.step [DecidableEq T] {t t' : State T (ilsmDev exec)}
    {env : (ilsmDev exec).Env} {m : Level × Int} (h : PassHolds H t)
    (hdev : Allocates exec live) (hH : H ⊆ H')
    (hnew : t.rollback = .createIter IlsmPc.iterCmd → free (live (DB.device t.sh.dev)) ∈ H')
    (hstep : t.step murmur (.rollback env m) = some t') : PassHolds H' t' := by
  cases State.Steps.of_step hstep with
  | rollback _ _ a next hcode hready =>
      have hflag : 0 ≤ t.locals.flag → t.locals.iterId ∈ H' := fun hf => hH (h.flag hf)
      cases hpc : t.rollback with
      | loop =>
          rw [hpc] at hcode
          cases hcode
          by_cases hneg : t.locals.flag < 0
          · simp only [if_pos hneg]
            refine ⟨fun pc hpc' => ?_, nofun, nofun, hflag⟩
            cases hpc'
            rfl
          · simp only [if_neg hneg]
            exact ⟨nofun, nofun, fun _ => not_lt.mp hneg, hflag⟩
      | createIter pc =>
          rw [hpc] at hcode
          cases hcode
          by_cases hcmd : pc = IlsmPc.iterCmd
          · subst hcmd
            obtain ⟨hpc', hid⟩ := rollback_created hdev hpc hstep
            exact ⟨nofun, fun _ => hid ▸ hnew hpc, nofun, fun _ => hid ▸ hnew hpc⟩
          · obtain ⟨pc', hpc', hnext, hid⟩ : ∃ pc' : IlsmPc, pc'.creating = true ∧
                ((ilsmDev exec).step env pc t.locals.iterId t.sh.dev).1 = some pc' ∧
                ((ilsmDev exec).step env pc t.locals.iterId t.sh.dev).2.1 = t.locals.iterId :=
              ilsmStep_creating (h.creating pc hpc) hcmd _
            simp only [hnext, hid]
            refine ⟨fun pc'' hpc'' => ?_, nofun, nofun, hflag⟩
            cases hpc''
            exact hpc'
      | seekScan =>
          rw [hpc] at hcode
          cases hcode
          exact .of_plain rfl fun _ => hH (h.seek hpc)
      | nextScan =>
          rw [hpc] at hcode
          cases hcode
          exact .of_plain rfl fun _ => hH (h.flag (h.next hpc))
      | clearRollback =>
          rw [hpc] at hcode
          cases hcode
          exact .of_plain rfl nofun
      | _ =>
          rw [hpc] at hcode
          cases hcode
          refine .of_plain ?_ hflag
          first
            | rfl
            | (simp only []; split <;> rfl)

/-! ## The loop -/

/-- What the loop has done with `ilsm_iter_id` in this round. -/
inductive Phase where
  /-- Between rounds, or before `DestroyIter`. -/
  | outside
  | finished
  /-- The new id is still to come. -/
  | resetting
  /-- The new id has not been used yet. -/
  | fetched
  | scanning
deriving DecidableEq

def phase : SeekPc → Phase
  | .round | .destroy => .outside
  | .done => .finished
  | .resetKache _ | .resetCreate _ _ => .resetting
  | .seekKache _ | .seekScan _ => .fetched
  | _ => .scanning

/-- A step of the loop with `kache_flag` at 1, as far as the id goes. -/
inductive SeekMoves (exec : Device σ) (out : Outside) (db : DB σ) (b b' : SeekRandom) : Prop where
  | reset (key : Key) (pc : b.pc = .resetKache key) (id : b'.ilsmIterId = b.ilsmIterId)
      (pc' : b'.pc = .resetCreate key .createIter)
  | create (key : Key) (ilsmPc : IlsmPc) (pc : b.pc = .resetCreate key ilsmPc)
      (id : b'.ilsmIterId = (ilsmStep exec out ilsmPc b.ilsmIterId db).2.1)
      (pc' : b'.pc = match (ilsmStep exec out ilsmPc b.ilsmIterId db).1 with
        | some ilsmPc => .resetCreate key ilsmPc
        | none => .seekKache key)
  | seek (key : Key) (pc : b.pc = .seekKache key) (id : b'.ilsmIterId = b.ilsmIterId)
      (pc' : b'.pc = .seekScan key)
  | scan (key : Key) (pc : b.pc = .seekScan key) (id : b'.ilsmIterId = b.ilsmIterId)
      (phase' : phase b'.pc = .scanning)
  | within (pc : phase b.pc = .scanning) (id : b'.ilsmIterId = b.ilsmIterId)
      (pc' : phase b'.pc = .scanning ∨ b'.pc = .round)
  | destroy (pc : b.pc = .destroy) (id : b'.ilsmIterId = b.ilsmIterId) (pc' : b'.pc = .done)

theorem SeekMoves.of_step {b b' : SeekRandom} {db db' : DB σ} {out : Outside}
    (h : b.step exec seekNexts out 1 db = some (db', b')) : SeekMoves exec out db b b' := by
  unfold SeekRandom.step at h
  split at h
  · cases h
  · next key hpc =>
      cases h
      exact .reset key hpc rfl rfl
  · next key pc hpc =>
      cases h
      exact .create key pc hpc rfl rfl
  · next key hpc =>
      cases h
      exact .seek key hpc rfl rfl
  · next key hpc =>
      cases h
      exact .scan key hpc rfl rfl
  · next key targetKey value hpc =>
      obtain ⟨mainKey, _, hb⟩ := Option.map_eq_some_iff.mp h
      cases hb
      exact .within (by rw [hpc]; rfl) rfl (Or.inl rfl)
  · next key hpc =>
      cases h
      exact .within (by rw [hpc]; rfl) rfl (Or.inl rfl)
  · next hpc =>
      cases h
      exact .within (by rw [hpc]; rfl) rfl (Or.inr rfl)
  · next n hpc =>
      split at h
      · obtain ⟨_, _, hb⟩ := Option.map_eq_some_iff.mp h
        cases hb
        exact .within (by rw [hpc]; rfl) rfl (Or.inl rfl)
      · cases h
        exact .within (by rw [hpc]; rfl) rfl (Or.inl rfl)
  · next n hpc =>
      rw [if_neg (by decide)] at h
      cases h
      exact .within (by rw [hpc]; rfl) rfl (Or.inl rfl)
  · next n hpc =>
      split at h
      · obtain ⟨mainKey, _, hb⟩ := Option.map_eq_some_iff.mp h
        cases hb
        refine .within (by rw [hpc]; rfl) rfl (Or.inl ?_)
        simp only []
        split <;> rfl
      · cases h
        refine .within (by rw [hpc]; rfl) rfl (Or.inl ?_)
        simp only []
        split <;> rfl
  · next n moved hpc =>
      cases h
      exact .within (by rw [hpc]; rfl) rfl (Or.inl rfl)
  · next n key value hpc =>
      cases h
      exact .within (by rw [hpc]; rfl) rfl (Or.inl rfl)
  · next n key value hpc =>
      obtain ⟨mainKey, _, hb⟩ := Option.map_eq_some_iff.mp h
      split at hb <;> cases hb
      · exact .within (by rw [hpc]; rfl) rfl (Or.inl rfl)
      · exact .within (by rw [hpc]; rfl) rfl (Or.inl rfl)
  · next hpc =>
      cases h
      exact .destroy hpc rfl rfl
  · cases h

theorem seekUses_subset (kacheFlag : Int) (b : SeekRandom) :
    seekUses kacheFlag b ⊆ [b.ilsmIterId] := by
  unfold seekUses
  split
  all_goals first
    | exact List.Subset.refl _
    | exact List.nil_subset _
    | (split <;> first | exact List.Subset.refl _ | exact List.nil_subset _)

/-- A fetched id is kept until `SeekScan` has it. -/
theorem SeekMoves.fetched {b b' : SeekRandom} {db : DB σ} {out : Outside}
    (h : SeekMoves exec out db b b') (hphase : phase b.pc = .fetched) :
    (∃ key, b.pc = .seekScan key) ∨ phase b'.pc = .fetched ∧ b'.ilsmIterId = b.ilsmIterId := by
  cases h with
  | create key' pc hpc' => rw [hpc'] at hphase; cases hphase
  | reset key' hpc' => rw [hpc'] at hphase; cases hphase
  | seek key' hpc' hid hnext => exact Or.inr ⟨by rw [hnext]; rfl, hid⟩
  | scan key' hpc' => exact Or.inl ⟨key', hpc'⟩
  | within hphase' => rw [hphase'] at hphase; cases hphase
  | destroy hpc' => rw [hpc'] at hphase; cases hphase

/-- Ids are used in a scan, and by `DestroyIter`. -/
theorem SeekMoves.uses {b b' : SeekRandom} {db : DB σ} {out : Outside} {kacheFlag : Int} {id : Nat}
    (h : SeekMoves exec out db b b') (hid : id ∈ seekUses kacheFlag b) :
    id = b.ilsmIterId ∧ (phase b.pc = .fetched ∨ phase b.pc = .scanning ∨
      phase b.pc = .outside ∧ b'.pc = .done) := by
  refine ⟨List.mem_singleton.mp (seekUses_subset kacheFlag b hid), ?_⟩
  cases h with
  | create key' pc hpc' => rw [seekUses, hpc'] at hid; cases hid
  | reset key' hpc' => rw [seekUses, hpc'] at hid; cases hid
  | seek key' hpc' hid hnext => exact Or.inl (by rw [hpc']; rfl)
  | scan key' hpc' => exact Or.inl (by rw [hpc']; rfl)
  | within hphase' => exact Or.inr (Or.inl hphase')
  | destroy hpc' _ hnext => exact Or.inr (Or.inr ⟨by rw [hpc']; rfl, hnext⟩)

/-- What is known of `ilsm_iter_id` in a phase, with the ids `H` handed out and
the ids `U` used; `N` says that no round has begun. -/
def IdHolds (H U : List Nat) (id₀ : Nat) (N : Prop) (id : Nat) : Phase → Prop
  | .outside => (id ∈ H ∧ id ∈ U ∧ ¬ N) ∨ N ∧ id = id₀
  | .finished => id ∈ U ∧ (id ∈ H ∧ ¬ N ∨ N ∧ id = id₀)
  | .resetting => ¬ N
  | .fetched => id ∈ H ∧ ¬ N
  | .scanning => id ∈ H ∧ id ∈ U ∧ ¬ N

theorem IdHolds.mono {id : Nat} {ph : Phase} (h : IdHolds H U id₀ N id ph) (hH : H ⊆ H')
    (hU : U ⊆ U') : IdHolds H' U' id₀ N id ph := by
  cases ph with
  | outside => exact Or.imp_left (fun h => ⟨hH h.1, hU h.2.1, h.2.2⟩) h
  | finished => exact ⟨hU h.1, h.2.imp_left fun h => ⟨hH h.1, h.2⟩⟩
  | resetting => exact h
  | fetched => exact ⟨hH h.1, h.2⟩
  | scanning => exact ⟨hH h.1, hU h.2.1, h.2.2⟩

structure SeekHolds (H U : List Nat) (id₀ : Nat) (N : Prop) (b : SeekRandom) : Prop where
  creating : ∀ key pc, b.pc = .resetCreate key pc → pc.creating = true
  id : IdHolds H U id₀ N b.ilsmIterId (phase b.pc)

/-- Away from `CreateIter` there is only the id. -/
theorem SeekHolds.of_phase {b : SeekRandom} (hphase : phase b.pc ≠ .resetting)
    (h : IdHolds H U id₀ N b.ilsmIterId (phase b.pc)) : SeekHolds H U id₀ N b :=
  ⟨fun key pc hpc => absurd (by rw [hpc]; rfl) hphase, h⟩

/-- A step of the loop, with what it is handed out in `H'` and what it uses in
`U'`. -/
theorem SeekHolds.moves {b b' : SeekRandom} {db : DB σ} {out : Outside}
    (h : SeekHolds H U id₀ N b) (hmoves : SeekMoves exec out db b b')
    (hdev : Allocates exec live) (hH : H ⊆ H') (hU : U ⊆ U')
    (hnew : (∃ key, b.pc = .resetCreate key .iterCmd) → free (live db.device) ∈ H')
    (huse : (∃ key, b.pc = .seekScan key) ∨ b.pc = .destroy → b.ilsmIterId ∈ U') :
    SeekHolds H' U' id₀ N b' := by
  have hid := h.id.mono hH hU
  cases hmoves with
  | reset key hpc hsame hpc' =>
      rw [hpc] at hid
      refine ⟨fun key pc heq => ?_, ?_⟩
      · rw [hpc'] at heq
        cases heq
        rfl
      · rw [hpc']
        exact hid
  | create key pc hpc hsame hpc' =>
      rw [hpc] at hid
      by_cases hcmd : pc = .iterCmd
      · subst hcmd
        have hseek : b'.pc = .seekKache key := hpc'
        refine .of_phase (by rw [hseek]; exact nofun) ?_
        rw [hseek, hsame, (ilsmStep_iterCmd hdev _).2]
        exact ⟨hnew ⟨key, hpc⟩, hid⟩
      · obtain ⟨pc', hcreating, hnext, _⟩ : ∃ pc' : IlsmPc, pc'.creating = true ∧
            (ilsmStep exec out pc b.ilsmIterId db).1 = some pc' ∧
            (ilsmStep exec out pc b.ilsmIterId db).2.1 = b.ilsmIterId :=
          ilsmStep_creating (h.creating key pc hpc) hcmd _
        rw [hnext] at hpc'
        refine ⟨fun key pc heq => ?_, ?_⟩
        · rw [hpc'] at heq
          cases heq
          exact hcreating
        · rw [hpc']
          exact hid
  | seek key hpc hsame hpc' =>
      rw [hpc] at hid
      refine .of_phase (by rw [hpc']; exact nofun) ?_
      rw [hpc', hsame]
      exact hid
  | scan key hpc hsame hphase =>
      rw [hpc] at hid
      refine .of_phase (by rw [hphase]; exact nofun) ?_
      rw [hphase, hsame]
      exact ⟨hid.1, huse (Or.inl ⟨key, hpc⟩), hid.2⟩
  | within hphase hsame hpc' =>
      rw [hphase] at hid
      rcases hpc' with hphase' | hpc'
      · refine .of_phase (by rw [hphase']; exact nofun) ?_
        rw [hphase', hsame]
        exact hid
      · refine .of_phase (by rw [hpc']; exact nofun) ?_
        rw [hpc', hsame]
        exact Or.inl hid
  | destroy hpc hsame hpc' =>
      rw [hpc] at hid
      refine .of_phase (by rw [hpc']; exact nofun) ?_
      rw [hpc', hsame]
      exact ⟨huse (Or.inr hpc), hid.imp_left fun hid => ⟨hid.1, hid.2.2⟩⟩

/-! ## The ledger of a run -/

def handedBy (live : σ → Finset Nat) (s : BenchState T exec) (act : BenchAct T exec) : List Nat :=
  if creates s act then [free (live s.device)] else []

/-- The ids that the device has handed out. -/
def handedIds (live : σ → Finset Nat) (tr : BenchTrace T exec) : List Nat :=
  tr.flatMap fun e => handedBy live e.1 e.2

structure Ledger (live : σ → Finset Nat) (id₀ : Nat) (tr : BenchTrace T exec)
    (s : BenchState T exec) : Prop where
  seek : SeekHolds (handedIds live tr) (usedIds tr) id₀ (NoRound tr) s.seek
  pass : PassHolds (handedIds live tr) s.threads
  used : ∀ id ∈ usedIds tr,
    id ∈ handedIds live tr ∨ s.seek.pc = .done ∧ NoRound tr ∧ id = id₀
  handed : ∀ id ∈ handedIds live tr, id ∈ usedIds tr ∨
    (phase s.seek.pc = .fetched ∧ s.seek.ilsmIterId = id) ∨
    (s.threads.rollback = .seekScan ∧ s.threads.locals.iterId = id)

theorem handedIds_cons :
    handedIds live ((s, act) :: tr) = handedBy live s act ++ handedIds live tr :=
  List.flatMap_cons

theorem usedIds_cons : usedIds ((s, act) :: tr) = usedBy s act ++ usedIds tr :=
  List.flatMap_cons

theorem handedIds_subset : handedIds live tr ⊆ handedIds live ((s, act) :: tr) := by
  rw [handedIds_cons]
  exact List.subset_append_right _ _

theorem usedIds_subset : usedIds tr ⊆ usedIds ((s, act) :: tr) := by
  rw [usedIds_cons]
  exact List.subset_append_right _ _

theorem noRound_cons (hact : ∀ table key, act ≠ .round table key) :
    NoRound ((s, act) :: tr) ↔ NoRound tr := by
  simp only [NoRound, List.forall_mem_cons]
  exact and_iff_right hact

theorem ledger_opened [DecidableEq T] (main : Key → Option Value) (d : σ) (id₀ loc₀ : Nat) :
    Ledger live id₀ [] (opened main d id₀ loc₀ : BenchState T exec) where
  seek := by
    refine .of_phase (fun hphase => by cases hphase) (Or.inr ⟨fun e he => ?_, rfl⟩)
    cases he
  pass := .of_plain rfl fun hflag => absurd (show (0 : Int) ≤ -2 from hflag) (by decide)
  used id hid := by cases hid
  handed id hid := by cases hid

/-- A step that has nothing to do with iterators. -/
theorem Ledger.quiet (h : Ledger live id₀ tr s) (hact : ∀ table key, act ≠ .round table key)
    (hcreates : creates s act = false) (huses : usedBy s act = []) (hseek : s'.seek = s.seek)
    (hrollback : s'.threads.rollback = s.threads.rollback)
    (hlocals : s'.threads.locals = s.threads.locals) : Ledger live id₀ ((s, act) :: tr) s' := by
  have hhanded : handedIds live ((s, act) :: tr) = handedIds live tr := by
    rw [handedIds_cons, handedBy, hcreates]
    rfl
  have hused : usedIds ((s, act) :: tr) = usedIds tr := by
    rw [usedIds_cons, huses]
    rfl
  have hnone : NoRound ((s, act) :: tr) = NoRound tr := propext (noRound_cons hact)
  refine ⟨?_, ?_, ?_, ?_⟩
  · rw [hhanded, hused, hnone, hseek]
    exact h.seek
  · rw [hhanded]
    refine ⟨?_, ?_, ?_, ?_⟩
    · rw [hrollback]
      exact h.pass.creating
    · rw [hrollback, hlocals]
      exact h.pass.seek
    · rw [hrollback, hlocals]
      exact h.pass.next
    · rw [hlocals]
      exact h.pass.flag
  · rw [hused, hhanded, hnone, hseek]
    exact h.used
  · rw [hhanded, hused, hseek, hrollback, hlocals]
    exact h.handed

theorem Ledger.round (h : Ledger live id₀ tr s) {table : List (Key × Value)} {key : Key}
    (hpc : s.seek.pc = .round) :
    Ledger live id₀ ((s, .round table key) :: tr)
      { s with seek := { s.seek with iter := .new table, pc := .resetKache key } } where
  seek := ⟨nofun, fun hnone => hnone _ List.mem_cons_self table key rfl⟩
  pass := h.pass
  used id hid := by
    rcases h.used id hid with hmem | ⟨hdone, _⟩
    · exact Or.inl hmem
    · rw [hpc] at hdone
      cases hdone
  handed id hid := by
    rcases h.handed id hid with hmem | ⟨hphase, _⟩ | hpass
    · exact Or.inl hmem
    · rw [hpc] at hphase
      cases hphase
    · exact Or.inr (Or.inr hpass)

theorem Ledger.leave (h : Ledger live id₀ tr s) (hpc : s.seek.pc = .round) :
    Ledger live id₀ ((s, .leave) :: tr) { s with seek := { s.seek with pc := .destroy } } where
  seek := by
    have hid := h.seek.id
    rw [hpc] at hid
    have hleave : ∀ table key, (.leave : BenchAct T exec) ≠ .round table key := nofun
    have hnone : NoRound ((s, .leave) :: tr) = NoRound tr := propext (noRound_cons hleave)
    exact .of_phase (fun hphase => by cases hphase)
      (hnone ▸ hid)
  pass := h.pass
  used id hid := by
    rcases h.used id hid with hmem | ⟨hdone, _⟩
    · exact Or.inl hmem
    · rw [hpc] at hdone
      cases hdone
  handed id hid := by
    rcases h.handed id hid with hmem | ⟨hphase, _⟩ | hpass
    · exact Or.inl hmem
    · rw [hpc] at hphase
      cases hphase
    · exact Or.inr (Or.inr hpass)

theorem Ledger.rollback [DecidableEq T] (h : Ledger live id₀ tr s) (hdev : Allocates exec live)
    {t' : State T (ilsmDev exec)} {env : (ilsmDev exec).Env} {m : Level × Int}
    (hstep : s.threads.step murmur (.rollback env m) = some t') :
    Ledger live id₀ ((s, .threads (.rollback env m)) :: tr) { s with threads := t' } := by
  have hact : ∀ table key,
      (.threads (.rollback env m) : BenchAct T exec) ≠ .round table key := nofun
  have hnone : NoRound ((s, .threads (.rollback env m)) :: tr) = NoRound tr :=
    propext (noRound_cons hact)
  have hcreates : s.threads.rollback = .createIter IlsmPc.iterCmd →
      free (live s.device) ∈ handedIds live ((s, .threads (.rollback env m)) :: tr) := by
    intro hpc
    have hcreate : creates s (.threads (.rollback env m)) = true := beq_iff_eq.mpr hpc
    rw [handedIds_cons, handedBy, if_pos hcreate]
    exact List.mem_cons_self
  refine ⟨?_, ?_, ?_, ?_⟩
  · rw [hnone]
    exact ⟨h.seek.creating, h.seek.id.mono handedIds_subset usedIds_subset⟩
  · exact h.pass.step hdev handedIds_subset hcreates hstep
  · intro id hid
    rw [usedIds_cons] at hid
    rcases List.mem_append.mp hid with hid | hid
    · refine Or.inl (handedIds_subset ?_)
      simp only [usedBy, rollbackUses] at hid
      split at hid
      · next hpc =>
          rw [List.mem_singleton.mp hid]
          exact h.pass.seek hpc
      · next hpc =>
          rw [List.mem_singleton.mp hid]
          exact h.pass.flag (h.pass.next hpc)
      · cases hid
    · rw [hnone]
      exact (h.used id hid).imp_left fun hmem => handedIds_subset hmem
  · intro id hid
    rw [handedIds_cons] at hid
    rcases List.mem_append.mp hid with hid | hid
    · rw [handedBy] at hid
      split at hid
      · next hcreate =>
          have hpc : s.threads.rollback = .createIter IlsmPc.iterCmd := beq_iff_eq.mp hcreate
          obtain ⟨hpc', hid'⟩ := rollback_created hdev hpc hstep
          refine Or.inr (Or.inr ⟨hpc', ?_⟩)
          rw [List.mem_singleton.mp hid]
          exact hid'
      · cases hid
    · rcases h.handed id hid with hmem | hseek | ⟨hpc, rfl⟩
      · exact Or.inl (usedIds_subset hmem)
      · exact Or.inr (Or.inl hseek)
      · refine Or.inl ?_
        rw [usedIds_cons, usedBy, rollbackUses, hpc]
        exact List.mem_cons_self

/-- Where the loop does not look at `kache_flag` it could be 1 as well. -/
theorem step_kacheOn {b : SeekRandom} {db : DB σ} {out : Outside} {kacheFlag : Int}
    (hkache : testsKache b.pc = true → kacheFlag = 1) :
    b.step exec seekNexts out kacheFlag db = b.step exec seekNexts out 1 db ∧
      seekUses kacheFlag b = seekUses 1 b := by
  by_cases hone : kacheFlag = 1
  · rw [hone]
    exact ⟨rfl, rfl⟩
  · have htests : testsKache b.pc = false := Bool.eq_false_iff.mpr fun h => hone (hkache h)
    unfold SeekRandom.step seekUses
    cases hpc : b.pc with
    | resetKache key => rw [hpc] at htests; cases htests
    | seekKache key => rw [hpc] at htests; cases htests
    | compare key => rw [hpc] at htests; cases htests
    | nextKache n => rw [hpc] at htests; cases htests
    | nexts n => cases n <;> exact ⟨rfl, rfl⟩
    | nextNote n moved key value => cases moved <;> exact ⟨rfl, rfl⟩
    | _ => exact ⟨rfl, rfl⟩

theorem Ledger.seekStep (h : Ledger live id₀ tr s) (hdev : Allocates exec live) {b' : SeekRandom}
    {db' : DB σ} {out : Outside} (hkache : KacheOn s (.seek out))
    (hstep : s.seek.step exec seekNexts out s.threads.sh.kacheFlag s.threads.sh.dev =
      some (db', b')) :
    Ledger live id₀ ((s, .seek out) :: tr) { threads := s.setDb db', seek := b' } := by
  obtain ⟨hflag, huses⟩ : _ ∧ usedBy s (.seek out) = seekUses 1 s.seek := step_kacheOn hkache
  have hmoves := SeekMoves.of_step (hflag.symm.trans hstep)
  have hact : ∀ table key, (.seek out : BenchAct T exec) ≠ .round table key := nofun
  have hnone : NoRound ((s, .seek out) :: tr) = NoRound tr := propext (noRound_cons hact)
  have huse : (∃ key, s.seek.pc = .seekScan key) ∨ s.seek.pc = .destroy →
      s.seek.ilsmIterId ∈ usedIds ((s, .seek out) :: tr) := by
    rw [usedIds_cons, huses, seekUses]
    rintro (⟨key, hpc⟩ | hpc) <;> rw [hpc] <;> exact List.mem_cons_self
  refine ⟨?_, ?_, ?_, ?_⟩
  · rw [hnone]
    refine h.seek.moves hmoves hdev handedIds_subset usedIds_subset (fun hpc => ?_) huse
    rw [handedIds_cons, handedBy, if_pos (creates_seek_iff.mpr hpc)]
    exact List.mem_cons_self
  · have hpass : PassHolds (handedIds live ((s, .seek out) :: tr)) s.threads :=
      h.pass.mono handedIds_subset
    exact ⟨hpass.creating, hpass.seek, hpass.next, hpass.flag⟩
  · intro id hid
    rw [usedIds_cons, huses] at hid
    rcases List.mem_append.mp hid with hid | hid
    · have hseek := h.seek.id
      obtain ⟨rfl, hphase | hphase | ⟨hphase, hdone⟩⟩ := hmoves.uses hid
      · rw [hphase] at hseek
        exact Or.inl (handedIds_subset hseek.1)
      · rw [hphase] at hseek
        exact Or.inl (handedIds_subset hseek.1)
      · rw [hphase] at hseek
        rcases hseek with hseek | ⟨hnever, hid₀⟩
        · exact Or.inl (handedIds_subset hseek.1)
        · exact Or.inr ⟨hdone, hnone ▸ hnever, hid₀⟩
    · rcases h.used id hid with hmem | ⟨hdone, _⟩
      · exact Or.inl (handedIds_subset hmem)
      · exact absurd hdone (SeekRandom.ne_done_of_step hstep)
  · intro id hid
    rw [handedIds_cons] at hid
    rcases List.mem_append.mp hid with hid | hid
    · rw [handedBy] at hid
      split at hid
      · next hcreate =>
          obtain ⟨key, hpc⟩ := creates_seek_iff.mp hcreate
          obtain ⟨hfree, hseek⟩ := SeekRandom.created_of_step hdev hpc hstep
          refine Or.inr (Or.inl ⟨by rw [hseek]; rfl, ?_⟩)
          rw [List.mem_singleton.mp hid]
          exact hfree
      · cases hid
    · rcases h.handed id hid with hmem | ⟨hphase, rfl⟩ | hpass
      · exact Or.inl (usedIds_subset hmem)
      · rcases hmoves.fetched hphase with hscan | ⟨hphase', hsame⟩
        · exact Or.inl (huse (Or.inl hscan))
        · exact Or.inr (Or.inl ⟨hphase', hsame⟩)
      · exact Or.inr (Or.inr hpass)

/-- A step of a client leaves the rollback thread where it is. -/
theorem clients_step [DecidableEq T] {t t' : State T (ilsmDev exec)} {a : Act T (ilsmDev exec)}
    (hstep : t.step murmur a = some t') (ha : ∀ env m, a ≠ .rollback env m) :
    t'.rollback = t.rollback ∧ t'.locals = t.locals := by
  cases State.Steps.of_step hstep with
  | callPut u k v hidle => exact ⟨rfl, rfl⟩
  | callGet u k hidle => exact ⟨rfl, rfl⟩
  | client u env a next hcode hready => exact ⟨rfl, rfl⟩
  | rollback env m a next hcode hready => exact absurd rfl (ha env m)

theorem Ledger.step [DecidableEq T] (h : Ledger live id₀ tr s) (hdev : Allocates exec live)
    (hkache : KacheOn s act) (hstep : s.step seekNexts murmur act = some s') :
    Ledger live id₀ ((s, act) :: tr) s' := by
  cases Steps.of_step hstep with
  | threads a t' hthreads =>
      cases a with
      | rollback env m => exact h.rollback hdev hthreads
      | callPut u k v =>
          obtain ⟨hrollback, hlocals⟩ := clients_step hthreads nofun
          exact h.quiet nofun rfl rfl rfl hrollback hlocals
      | callGet u k =>
          obtain ⟨hrollback, hlocals⟩ := clients_step hthreads nofun
          exact h.quiet nofun rfl rfl rfl hrollback hlocals
      | client u env =>
          obtain ⟨hrollback, hlocals⟩ := clients_step hthreads nofun
          exact h.quiet nofun rfl rfl rfl hrollback hlocals
  | round table key hpc => exact h.round hpc
  | leave hpc => exact h.leave hpc
  | seek out db' b' hseek => exact h.seekStep hdev hkache hseek

/-- Every run of the loop beside the other threads keeps the ledger. -/
theorem ledger [DecidableEq T] (hdev : Allocates exec live) {main : Key → Option Value} {d : σ}
    {loc₀ : Nat} (hrun : Run (step seekNexts murmur) KacheOn (opened main d id₀ loc₀) tr s) :
    Ledger live id₀ tr s := by
  induction hrun with
  | start => exact ledger_opened main d id₀ loc₀
  | next _ hkache htaken ih => exact ih.step hdev hkache htaken

/-- The end of the loop, with the id that `DestroyIter` gets. -/
theorem run_destroy [DecidableEq T] {s₀ : BenchState T exec}
    (hrun : Run (step seekNexts murmur) KacheOn s₀ tr s) (hpc : s.seek.pc = .round) :
    ∃ tr' s', Run (step seekNexts murmur) KacheOn s₀ tr' s' ∧ s'.seek.pc = .done ∧
      s'.threads.rollback = s.threads.rollback ∧ s.seek.ilsmIterId ∈ usedIds tr' := by
  have hleft : KacheOn s .leave := trivial
  have hleave := hrun.next hleft (if_pos hpc)
  have hon : KacheOn { s with seek := { s.seek with pc := .destroy } }
      (.seek Outside.fine) := nofun
  exact ⟨_, _, hleave.next hon rfl, rfl, rfl, List.mem_cons_self⟩

end BenchState

end Kvaccel.Ref

namespace Kvaccel.Spec

open Kvaccel.Lib Kvaccel.Ref Kvaccel.Ref.BenchState

/-- Of a run to its end, `DestroyIter`, with the rollback thread not just between
`CreateIter` and `SeekScan`: every id is in range exactly if one of the ten is
not live whenever an iterator is created, and the member held an id to begin
with if there was no round. -/
theorem idsInRange_iff {T σ : Type} [DecidableEq T] {exec : Device σ} {live : σ → Finset Nat}
    (hdev : Allocates exec live) {murmur : Murmur} {seekNexts id₀ loc₀ : Nat}
    {main : Key → Option Value} {d : σ} {tr : BenchTrace T exec} {s : BenchState T exec}
    (hrun : Run (BenchState.step seekNexts murmur) KacheOn (opened main d id₀ loc₀) tr s)
    (hdone : s.seek.pc = .done) (hpass : s.threads.rollback ≠ .seekScan) :
    IdsInRange tr ↔
      (∀ e ∈ tr, creates e.1 e.2 = true →
        ¬ Finset.range maxIteratorNum ⊆ live e.1.device) ∧
      (NoRound tr → id₀ < maxIteratorNum) := by
  have hledger := ledger hdev hrun
  have hseek := hledger.seek.id
  rw [hdone] at hseek
  constructor
  · intro h
    refine ⟨fun e he hcreates => ?_, fun hnone => ?_⟩
    · rw [← free_lt_iff]
      have hmem : free (live e.1.device) ∈ handedIds live tr := by
        refine List.mem_flatMap.mpr ⟨e, he, ?_⟩
        rw [handedBy, if_pos hcreates]
        exact List.mem_singleton_self _
      rcases hledger.handed _ hmem with hused | ⟨hphase, _⟩ | ⟨hpc, _⟩
      · exact h _ hused
      · rw [hdone] at hphase
        cases hphase
      · exact absurd hpc hpass
    · rcases hseek.2 with ⟨_, hrounds⟩ | ⟨_, hid⟩
      · exact absurd hnone hrounds
      · exact hid ▸ h _ hseek.1
  · rintro ⟨hfree, hnone⟩ id hid
    rcases hledger.used id hid with hmem | ⟨_, hnever, rfl⟩
    · obtain ⟨e, he, hid⟩ := List.mem_flatMap.mp hmem
      rw [handedBy] at hid
      split at hid
      · next hcreates =>
          rw [List.mem_singleton.mp hid]
          exact free_lt_iff.mpr (hfree e he hcreates)
      · cases hid
    · exact hnone hnever

/-- One record in Main-LSM. -/
def oneRecord : Key → Option Value := Function.update (fun _ => none) [48, 48, 48, 48] (some [1])

/-- A redirected put, one round and `DestroyIter`. -/
def oneRound : List (BenchAct Unit idDevice) :=
  redirectOne idDevice ++ .round [([48, 48, 48, 48], [1])] [48, 48, 48, 48] ::
    List.replicate 12 (.seek Outside.fine) ++ [.leave, .seek Outside.fine]

theorem idsInRange_oneRound :
    IdsInRange (replayTrace (BenchState.step 0 murmurHash3)
      (opened oneRecord ∅ 0 0) oneRound []) :=
  (idsInRange_iff allocates_idDevice (Run.replay oneRound .start (by decide +kernel)) rfl
    (by decide +kernel)).mpr ⟨by decide +kernel, fun _ => by decide⟩

/-- Eleven rounds without a pass in between, and the eleventh id is ten; no round,
and `DestroyIter` gets what was in memory. -/
theorem iterators_run_out :
    (∃ (tr : BenchTrace Unit idDevice) (s : BenchState Unit idDevice),
      Run (BenchState.step 0 murmurHash3) KacheOn (opened oneRecord ∅ 0 0) tr s ∧
      s.seek.pc = .done ∧ s.threads.rollback ≠ .seekScan ∧ maxIteratorNum ∈ usedIds tr) ∧
    ∃ (tr : BenchTrace Unit idDevice) (s : BenchState Unit idDevice),
      Run (BenchState.step 0 murmurHash3) KacheOn (opened oneRecord ∅ 4294967295 0) tr s ∧
      s.seek.pc = .done ∧ s.threads.rollback ≠ .seekScan ∧ 4294967295 ∈ usedIds tr := by
  constructor
  · have hmain : ((MainIter.new [([48, 48, 48, 48], [1])]).seek [48, 48, 48, 48]).key = some _ :=
      rfl
    obtain ⟨tr, s, hrun, h, hid⟩ := exists_rounds allocates_idDevice hmain rfl maxIteratorNum
    obtain ⟨tr', s', hrun', hdone, hrollback, hused⟩ := run_destroy hrun h.pc
    exact ⟨tr', s', hrun', hdone, by rw [hrollback, h.rollback]; exact nofun, hid ▸ hused⟩
  · have hstart : Run (BenchState.step 0 murmurHash3) KacheOn
        (opened oneRecord ∅ 4294967295 0 : BenchState Unit idDevice) [] _ := .start
    obtain ⟨tr, s, hrun, hdone, hrollback, hused⟩ := run_destroy hstart rfl
    exact ⟨tr, s, hrun, hdone, by rw [hrollback]; exact nofun, hused⟩

end Kvaccel.Spec
