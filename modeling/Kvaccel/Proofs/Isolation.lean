import Kvaccel.Proofs.Routing

/-!
# Key isolation

Two runs of the routing layer that differ by one inserted put of `k₁`. Past
the routing layer a key is its first four bytes, so what the put can disturb
is the class of keys with `k₁`'s first four: that class's tracker entries, its
Dev-LSM record, its Main-LSM values, and, through the flag, whether a rollback
runs at all. `SameBut` says two states agree outside one class; every step
keeps it, and a get outside the class cannot tell the two states apart. The
flag may differ between them: where one run has it at 0, that run's tracker
and Dev-LSM are empty, and the other's are empty outside the class.

The level is an input of a run. Each step is paired with the measurement in
force when it is taken, so that the two runs see the same levels even where
only one of them makes a pass.

The device key is also what a rollback writes under: the class's four bytes,
which are the key itself for keys of four bytes and a different key for
longer ones.
-/

namespace Kvaccel.Ref

open Kvaccel.Lib Kvaccel.Spec

namespace Master

variable {murmur : Murmur}

/-- A run with the level given at every step. -/
def withLevels (steps : List ((Level × Int) × Op)) : List Op :=
  steps.flatMap fun st => [.monitor st.1, st.2]

/-- What the gets of `k` among `ops` answered. -/
def answersTo (k : Key) (ops : List Op) (outs : List Out) : List Out :=
  (ops.zip outs).filterMap fun p =>
    match p.1 with
    | .get k' => if k' = k then some p.2 else none
    | _ => none

/-- The keys of `K` are told apart by the tracker up to their first four
bytes. -/
def HashesApart (murmur : Murmur) (K : Set Key) : Prop :=
  ∀ k ∈ K, ∀ k' ∈ K,
    doubleHash murmur k 1 = doubleHash murmur k' 1 → firstFour k = firstFour k'

/-- Flag 0 means an empty tracker and an empty Dev-LSM, flag 1 a record. -/
structure FlagSound (K : Set Key) (s : Master) : Prop where
  devKeys : ∀ q, (s.dev.lookup q).isSome → ∃ k ∈ K, firstFour k = q
  flag : s.kacheFlag = 0 ∨ s.kacheFlag = 1
  noEntry : s.kacheFlag = 0 → ∀ h, s.keyTracker.countOf h = 0
  noRecord : s.kacheFlag = 0 → ∀ q, s.dev.lookup q = none
  inUse : s.kacheFlag = 1 → s.dev.records ≠ []

theorem flagSound_opened (K : Set Key) : FlagSound K opened where
  devKeys q h := by simp [opened] at h
  flag := Or.inl rfl
  noEntry _ h := by simp [opened]
  noRecord _ q := by simp [opened]
  inUse h := by simp [opened] at h

theorem FlagSound.devInj {K : Set Key} {s : Master} (h : FlagSound K s)
    (hap : HashesApart murmur K) : ∀ a b, (s.dev.lookup a).isSome →
    (s.dev.lookup b).isSome →
    doubleHash murmur a 1 = doubleHash murmur b 1 → a = b := by
  intro a b ha hb heq
  obtain ⟨k, hk, rfl⟩ := h.devKeys a ha
  obtain ⟨k', hk', rfl⟩ := h.devKeys b hb
  rw [doubleHash_firstFour, doubleHash_firstFour] at heq
  exact hap k hk k' hk' heq

theorem FlagSound.monitor {K : Set Key} {s : Master} (h : FlagSound K s)
    (m : Level × Int) : FlagSound K (s.monitor m) :=
  ⟨h.devKeys, h.flag, h.noEntry, h.noRecord, h.inUse⟩

theorem FlagSound.put {K : Set Key} {s : Master} (h : FlagSound K s) {k : Key}
    (v : Value) (hk : k ∈ K) : FlagSound K (s.put murmur k v).2 := by
  unfold Master.put
  split
  · split
    · exact ⟨h.devKeys, h.flag, h.noEntry, h.noRecord, h.inUse⟩
    · rename_i hflag
      split
      · refine ⟨h.devKeys, h.flag, fun hf => absurd hf hflag, h.noRecord, h.inUse⟩
      · exact ⟨h.devKeys, h.flag, h.noEntry, h.noRecord, h.inUse⟩
  · refine ⟨?_, Or.inr rfl, ?_, ?_, ?_⟩
    · intro q hq
      by_cases heq : q = firstFour k
      · exact ⟨k, hk, heq.symm⟩
      · simp only [AList.lookup_insert_ne heq] at hq
        exact h.devKeys q hq
    · intro hf; simp at hf
    · intro hf; simp at hf
    · intro _ hnil
      have hmem : (firstFour k, v) ∈ DevMap.records (s.dev.insert (firstFour k) v) :=
        DevMap.mem_records.mpr (AList.lookup_insert _)
      rw [hnil] at hmem
      cases hmem

theorem FlagSound.of_passDone {K : Set Key} {s s' : Master}
    {order w : List (Key × Value)} (h : PassDone murmur s order w s') :
    FlagSound K s' where
  devKeys q hq := by rw [h.dev] at hq; simp at hq
  flag := Or.inl h.kacheFlag
  noEntry _ := h.keyTracker
  noRecord _ q := by rw [h.dev]; simp
  inUse hf := by rw [h.kacheFlag] at hf; exact absurd hf (by decide)

theorem FlagSound.step {K : Set Key} {s : Master} (h : FlagSound K s)
    (hap : HashesApart murmur K) (op : Op) (hkeys : ∀ k ∈ op.keys, k ∈ K) :
    ∃ o s', s.step murmur op = some (o, s') ∧ FlagSound K s' := by
  cases op with
  | put k v => exact ⟨_, _, rfl, h.put v (hkeys k (by simp [Op.keys]))⟩
  | get k => exact ⟨_, _, rfl, h⟩
  | monitor m => exact ⟨_, _, rfl, h.monitor m⟩
  | rollback order measure =>
      by_cases hguard : s.rollbackStatus ≤ 26 ∧ s.kacheFlag = 1
      · obtain ⟨w, s', hrun, hdone⟩ := rollbackConsumer_spec murmur
          order measure hguard (h.inUse hguard.2) (h.devInj hap)
        exact ⟨_, _, by rw [Master.step, hrun]; rfl, FlagSound.of_passDone hdone⟩
      · exact ⟨_, _, by rw [Master.step, rollbackConsumer_skip _ _ hguard]; rfl, h⟩

/-! ## Two runs -/

/-- The two states agree on every key whose first four bytes are not `p`. -/
structure SameBut (murmur : Murmur) (K : Set Key) (p : Key) (s s' : Master) :
    Prop where
  main : ∀ k, firstFour k ≠ p → s.main k = s'.main k
  dev : ∀ q, q ≠ p → s.dev.lookup q = s'.dev.lookup q
  tracker : ∀ k ∈ K, firstFour k ≠ p →
    s.keyTracker.countOf (doubleHash murmur k 1) =
      s'.keyTracker.countOf (doubleHash murmur k 1)

theorem SameBut.refl (murmur : Murmur) (K : Set Key) (p : Key) (s : Master) :
    SameBut murmur K p s s :=
  ⟨fun _ _ => rfl, fun _ _ => rfl, fun _ _ _ => rfl⟩

theorem SameBut.symm {K : Set Key} {p : Key} {s s' : Master}
    (h : SameBut murmur K p s s') : SameBut murmur K p s' s :=
  ⟨fun k hk => (h.main k hk).symm, fun q hq => (h.dev q hq).symm,
    fun k hk hp => (h.tracker k hk hp).symm⟩

theorem SameBut.monitor {K : Set Key} {p : Key} {s s' : Master}
    (h : SameBut murmur K p s s') (m : Level × Int) :
    SameBut murmur K p (s.monitor m) (s'.monitor m) :=
  ⟨h.main, h.dev, h.tracker⟩

theorem SameBut.contains {K : Set Key} {p : Key} {s s' : Master}
    (h : SameBut murmur K p s s') {k : Key} (hk : k ∈ K)
    (hp : firstFour k ≠ p) :
    s.keyTracker.contains (doubleHash murmur k 1) =
      s'.keyTracker.contains (doubleHash murmur k 1) := by
  rw [Bool.eq_iff_iff, HashMap.contains_iff, HashMap.contains_iff,
    h.tracker k hk hp]

/-- With flag 0 the routing would select Main-LSM anyway, so a get reads its
key's view whatever the flag says. -/
theorem FlagSound.get {K : Set Key} {s : Master} (h : FlagSound K s) (k : Key) :
    s.get murmur k = report (view murmur s k) := by
  rw [get_eq]
  congr 1
  split
  · rename_i hflag
    have hno := (HashMap.contains_eq_false_iff _ _).mpr
      (h.noEntry hflag (doubleHash murmur k 1))
    rw [view, hno, if_neg Bool.false_ne_true]
  · rfl

theorem SameBut.get {K : Set Key} {p : Key} {s s' : Master}
    (h : SameBut murmur K p s s') (hs : FlagSound K s) (hs' : FlagSound K s')
    {k : Key} (hk : k ∈ K) (hp : firstFour k ≠ p) :
    s.get murmur k = s'.get murmur k := by
  rw [hs.get, hs'.get, view, view, h.contains hk hp, h.main k hp,
    h.dev _ hp]

theorem put_sameBut {K : Set Key} (hap : HashesApart murmur K) {k : Key}
    (v : Value) (hk : k ∈ K) (s : Master) :
    SameBut murmur K (firstFour k) s (s.put murmur k v).2 := by
  have hmain : ∀ k', firstFour k' ≠ firstFour k → k' ≠ k :=
    fun k' hne heq => hne (by rw [heq])
  have hhash : ∀ k' ∈ K, firstFour k' ≠ firstFour k →
      doubleHash murmur k 1 ≠ doubleHash murmur k' 1 :=
    fun k' hk' hne heq => hne (hap k hk k' hk' heq).symm
  unfold Master.put
  split
  · split
    · refine ⟨fun k' hk' => ?_, fun _ _ => rfl, fun _ _ _ => rfl⟩
      simp [mainPut, Function.update_of_ne (hmain k' hk')]
    · split
      · refine ⟨fun k' hk' => ?_, fun _ _ => rfl, fun k' hk' hp => ?_⟩
        · simp [mainPut, Function.update_of_ne (hmain k' hk')]
        · show _ = (s.keyTracker.delete _).countOf _
          rw [HashMap.countOf_delete, if_neg (hhash k' hk' hp), Nat.sub_zero]
      · refine ⟨fun k' hk' => ?_, fun _ _ => rfl, fun _ _ _ => rfl⟩
        simp [mainPut, Function.update_of_ne (hmain k' hk')]
  · refine ⟨fun _ _ => rfl, fun q hq => ?_, fun k' hk' hp => ?_⟩
    · simp only [AList.lookup_insert_ne hq]
    · simp only [HashMap.countOf_insert, if_neg (hhash k' hk' hp), Nat.add_zero]

theorem SameBut.put {K : Set Key} {p : Key} {s s' : Master}
    (h : SameBut murmur K p s s') (hs : FlagSound K s) (hs' : FlagSound K s')
    (hlevel : s.level = s'.level) (k : Key) (v : Value) :
    SameBut murmur K p (s.put murmur k v).2 (s'.put murmur k v).2 := by
  have hput : ∀ (t : Master), FlagSound K t → t.level ≠ .high →
      (t.put murmur k v).2.main = Function.update t.main k (some v) ∧
      (t.put murmur k v).2.dev = t.dev ∧
      ∀ h', (t.put murmur k v).2.keyTracker.countOf h' =
        t.keyTracker.countOf h' - if doubleHash murmur k 1 = h' then 1 else 0 := by
    intro t ht htl
    have hz : ∀ h', t.keyTracker.countOf (doubleHash murmur k 1) = 0 →
        t.keyTracker.countOf h' = t.keyTracker.countOf h' -
          if doubleHash murmur k 1 = h' then 1 else 0 := by
      intro h' hz
      split
      · rename_i heq
        rw [← heq]
        omega
      · omega
    rw [Master.put, if_pos htl]
    split
    · rename_i hflag
      exact ⟨rfl, rfl, fun h' => hz h' (ht.noEntry hflag _)⟩
    · split
      · exact ⟨rfl, rfl, fun h' => HashMap.countOf_delete _ _ _⟩
      · rename_i hno
        rw [Bool.not_eq_true, HashMap.contains_eq_false_iff] at hno
        exact ⟨rfl, rfl, fun h' => hz h' hno⟩
  by_cases hl : s.level = .high
  · have hl' : s'.level = .high := hlevel ▸ hl
    rw [Master.put, Master.put, if_neg (by simp [hl]), if_neg (by simp [hl'])]
    refine ⟨h.main, fun q hq => ?_, fun k' hk' hp' => ?_⟩
    · by_cases heq : q = firstFour k
      · subst heq
        simp only [AList.lookup_insert]
      · simp only [AList.lookup_insert_ne heq]
        exact h.dev q hq
    · simp only [HashMap.countOf_insert, h.tracker k' hk' hp']
  · obtain ⟨hm, hd, ht⟩ := hput s hs hl
    obtain ⟨hm', hd', ht'⟩ := hput s' hs' (by rw [← hlevel]; exact hl)
    refine ⟨fun k' hk' => ?_, fun q hq => ?_, fun k' hk' hp' => ?_⟩
    · rw [hm, hm']
      by_cases heq : k' = k
      · subst heq; simp
      · rw [Function.update_of_ne heq, Function.update_of_ne heq]
        exact h.main k' hk'
    · rw [hd, hd']; exact h.dev q hq
    · rw [ht, ht', h.tracker k' hk' hp']

/-- What Main-LSM holds at `k` once a pass is over. -/
def settled (murmur : Murmur) (s : Master) (k : Key) : Option Value :=
  match s.dev.lookup k with
  | some v =>
      if s.keyTracker.contains (doubleHash murmur k 1) then some v else s.main k
  | none => s.main k

theorem PassDone.main_eq {s s' : Master} {order w : List (Key × Value)}
    (h : PassDone murmur s order w s') (k : Key) :
    s'.main k = settled murmur s k := by
  unfold settled
  split
  · rename_i v hv
    split
    · rename_i hc
      exact h.main_of_mem k v (h.mem_writes.mpr ⟨hv, hc⟩)
    · rename_i hc
      refine h.main_of_notMem k fun hmem => hc ?_
      obtain ⟨⟨k', v'⟩, hw, rfl⟩ := List.mem_map.mp hmem
      exact (h.mem_writes.mp hw).2
  · rename_i hv
    refine h.main_of_notMem k fun hmem => ?_
    obtain ⟨⟨k', v'⟩, hw, rfl⟩ := List.mem_map.mp hmem
    cases hv.symm.trans (h.mem_writes.mp hw).1

theorem FlagSound.settled_eq {K : Set Key} {s : Master} (h : FlagSound K s)
    (hflag : s.kacheFlag = 0) (k : Key) : settled murmur s k = s.main k := by
  rw [settled, h.noRecord hflag k]

theorem SameBut.settled {K : Set Key} {p : Key} (hp : firstFour p = p)
    {s s' : Master} (h : SameBut murmur K p s s') (hs : FlagSound K s) {k : Key}
    (hk : firstFour k ≠ p) :
    Master.settled murmur s k = Master.settled murmur s' k := by
  have hne : k ≠ p := fun heq => hk (by rw [heq]; exact hp)
  unfold Master.settled
  rw [← h.dev k hne]
  cases hv : s.dev.lookup k with
  | none => exact h.main k hk
  | some v =>
      obtain ⟨k₀, hk₀, hq⟩ := hs.devKeys k (by rw [hv]; rfl)
      have hc := h.contains hk₀ (by rw [hq]; exact hne)
      rw [← doubleHash_firstFour, hq] at hc
      simp only [hc, h.main k hk]

/-- What a rollback step leaves: the settled Main-LSM and no trace of a
Dev-LSM, whether the guard let a pass run or the flag was 0 already. -/
theorem FlagSound.rollback {K : Set Key} {s : Master} (h : FlagSound K s)
    (hap : HashesApart murmur K) (order : List (Key × Value))
    (measure : Nat → Level × Int) (hstatus : s.rollbackStatus ≤ 26) :
    ∃ w s', s.rollbackConsumer murmur order measure = some (w, s') ∧
      FlagSound K s' ∧ s'.kacheFlag = 0 ∧
      ∀ k, s'.main k = Master.settled murmur s k := by
  rcases h.flag with hflag | hflag
  · exact ⟨[], s, rollbackConsumer_skip _ _ (by simp [hflag]), h, hflag,
      fun k => (h.settled_eq hflag k).symm⟩
  · obtain ⟨w, s', hrun, hdone⟩ := rollbackConsumer_spec murmur
      order measure ⟨hstatus, hflag⟩ (h.inUse hflag) (h.devInj hap)
    exact ⟨w, s', hrun, FlagSound.of_passDone hdone, hdone.kacheFlag,
      hdone.main_eq⟩

theorem SameBut.rollback {K : Set Key} {p : Key} (hp : firstFour p = p)
    (hap : HashesApart murmur K) {s s' : Master} (h : SameBut murmur K p s s')
    (hs : FlagSound K s) (hs' : FlagSound K s')
    (hstatus : s.rollbackStatus = s'.rollbackStatus)
    (order : List (Key × Value)) (measure : Nat → Level × Int) :
    ∃ w t w' t', s.rollbackConsumer murmur order measure = some (w, t) ∧
      s'.rollbackConsumer murmur order measure = some (w', t') ∧
      SameBut murmur K p t t' ∧ FlagSound K t ∧ FlagSound K t' := by
  by_cases hle : s.rollbackStatus ≤ 26
  · obtain ⟨w, t, hrun, ht, hf, hm⟩ := hs.rollback hap order measure hle
    obtain ⟨w', t', hrun', ht', hf', hm'⟩ :=
      hs'.rollback hap order measure (hstatus ▸ hle)
    refine ⟨w, t, w', t', hrun, hrun', ⟨?_, ?_, ?_⟩, ht, ht'⟩
    · intro k hk
      rw [hm, hm', h.settled hp hs hk]
    · intro q _
      rw [ht.noRecord hf, ht'.noRecord hf']
    · intro k _ _
      rw [ht.noEntry hf, ht'.noEntry hf']
  · exact ⟨[], s, [], s', rollbackConsumer_skip _ _ fun hg => hle hg.1,
      rollbackConsumer_skip _ _ fun hg => hle (hstatus ▸ hg.1), h, hs, hs'⟩

/-- One step of two runs in lockstep, at the same level. -/
theorem SameBut.step {K : Set Key} {p : Key} (hp : firstFour p = p)
    (hap : HashesApart murmur K) {s s' : Master} (h : SameBut murmur K p s s')
    (hs : FlagSound K s) (hs' : FlagSound K s') (hlevel : s.level = s'.level)
    (hstatus : s.rollbackStatus = s'.rollbackStatus) (op : Op)
    (hkeys : ∀ k ∈ op.keys, k ∈ K) :
    ∃ o t o' t', s.step murmur op = some (o, t) ∧
      s'.step murmur op = some (o', t') ∧
      SameBut murmur K p t t' ∧ FlagSound K t ∧ FlagSound K t' ∧
      ∀ k, op = .get k → firstFour k ≠ p → o = o' := by
  cases op with
  | put k v =>
      have hk : k ∈ K := hkeys k (by simp [Op.keys])
      exact ⟨_, _, _, _, rfl, rfl, h.put hs hs' hlevel k v, hs.put v hk,
        hs'.put v hk, fun k' hk' => by cases hk'⟩
  | get k =>
      refine ⟨.get (s.get murmur k).1 (s.get murmur k).2, s,
        .get (s'.get murmur k).1 (s'.get murmur k).2, s', rfl, rfl, h, hs, hs', ?_⟩
      intro k' hk' hne
      cases hk'
      rw [h.get hs hs' (hkeys k (by simp [Op.keys])) hne]
  | monitor m =>
      exact ⟨_, _, _, _, rfl, rfl, h.monitor m, hs.monitor m, hs'.monitor m,
        fun k' hk' => by cases hk'⟩
  | rollback order measure =>
      obtain ⟨w, t, w', t', hrun, hrun', hsame, ht, ht'⟩ :=
        h.rollback hp hap hs hs' hstatus order measure
      exact ⟨_, _, _, _, by rw [Master.step, hrun]; rfl,
        by rw [Master.step, hrun']; rfl, hsame, ht, ht',
        fun k' hk' => by cases hk'⟩

/-! ## Whole runs -/

theorem run_append (s : Master) : ∀ (a b : List Op),
    s.run murmur (a ++ b) =
      (s.run murmur a).bind fun r =>
        (r.2.run murmur b).map fun r' => (r.1 ++ r'.1, r'.2) := by
  intro a
  induction a generalizing s with
  | nil => intro b; simp [run]
  | cons op a ih =>
      intro b
      simp only [List.cons_append, run, Option.bind_assoc]
      cases s.step murmur op with
      | none => rfl
      | some r =>
          simp only [Option.bind_some, ih, Option.map_bind, Option.bind_map]
          congr 1
          funext r'
          simp only [Function.comp, Option.map_map]
          congr 1

theorem withLevels_cons (st : (Level × Int) × Op)
    (steps : List ((Level × Int) × Op)) :
    withLevels (st :: steps) = .monitor st.1 :: st.2 :: withLevels steps := rfl

theorem withLevels_append (a b : List ((Level × Int) × Op)) :
    withLevels (a ++ b) = withLevels a ++ withLevels b := by
  simp [withLevels]

theorem run_withLevels_cons (st : (Level × Int) × Op) {s t u : Master}
    {steps : List ((Level × Int) × Op)} {o : Out} {outs : List Out}
    (hstep : (s.monitor st.1).step murmur st.2 = some (o, t))
    (hrun : t.run murmur (withLevels steps) = some (outs, u)) :
    s.run murmur (withLevels (st :: steps)) =
      some (.monitor :: o :: outs, u) := by
  rw [withLevels_cons, run, step]
  simp only [Option.bind_some, run, hstep, hrun, Option.map_some]

theorem answersTo_withLevels_cons (k : Key) (st : (Level × Int) × Op)
    (steps : List ((Level × Int) × Op)) (o : Out) (outs : List Out) :
    answersTo k (withLevels (st :: steps)) (.monitor :: o :: outs) =
      (answersTo k [st.2] [o]) ++ answersTo k (withLevels steps) outs := by
  rw [withLevels_cons, answersTo, List.zip_cons_cons, List.filterMap_cons,
    List.zip_cons_cons, ← List.singleton_append, List.filterMap_append]
  rfl

theorem answersTo_append (k : Key) {a b : List Op} {oa ob : List Out}
    (h : a.length = oa.length) :
    answersTo k (a ++ b) (oa ++ ob) = answersTo k a oa ++ answersTo k b ob := by
  rw [answersTo, List.zip_append h, List.filterMap_append]
  rfl

/-- Every run returns, answers each step, and keeps the flag sound. -/
theorem FlagSound.run {K : Set Key} (hap : HashesApart murmur K) :
    ∀ (ops : List Op) {s : Master}, FlagSound K s →
      (∀ op ∈ ops, ∀ k ∈ op.keys, k ∈ K) →
      ∃ outs s', s.run murmur ops = some (outs, s') ∧
        ops.length = outs.length ∧ FlagSound K s' := by
  intro ops
  induction ops with
  | nil => intro s h _; exact ⟨[], s, rfl, rfl, h⟩
  | cons op ops ih =>
      intro s h hkeys
      obtain ⟨o, t, hstep, ht⟩ := h.step hap op (hkeys op List.mem_cons_self)
      obtain ⟨outs, s', hrun, hlen, hs'⟩ :=
        ih ht fun op' hop' => hkeys op' (List.mem_cons_of_mem _ hop')
      exact ⟨o :: outs, s', by rw [Master.run, hstep]; simp [hrun],
        by simp [hlen], hs'⟩

theorem SameBut.run {K : Set Key} {p : Key} (hp : firstFour p = p)
    (hap : HashesApart murmur K) :
    ∀ (steps : List ((Level × Int) × Op)) {s s' : Master},
      SameBut murmur K p s s' → FlagSound K s → FlagSound K s' →
      (∀ st ∈ steps, ∀ k ∈ st.2.keys, k ∈ K) →
      ∃ outs t outs' t',
        s.run murmur (withLevels steps) = some (outs, t) ∧
        s'.run murmur (withLevels steps) = some (outs', t') ∧
        ∀ k, firstFour k ≠ p →
          answersTo k (withLevels steps) outs =
            answersTo k (withLevels steps) outs' := by
  intro steps
  induction steps with
  | nil =>
      intro s s' _ _ _ _
      exact ⟨[], s, [], s', rfl, rfl, fun _ _ => rfl⟩
  | cons st steps ih =>
      intro s s' h hs hs' hkeys
      obtain ⟨o, t, o', t', hstep, hstep', hsame, ht, ht', hget⟩ :=
        (h.monitor st.1).step hp hap (hs.monitor st.1) (hs'.monitor st.1) rfl rfl
          st.2 (hkeys st List.mem_cons_self)
      obtain ⟨outs, u, outs', u', hrun, hrun', hans⟩ :=
        ih hsame ht ht' fun st' hst' => hkeys st' (List.mem_cons_of_mem _ hst')
      refine ⟨_, _, _, _, run_withLevels_cons st hstep hrun,
        run_withLevels_cons st hstep' hrun', fun k hk => ?_⟩
      rw [answersTo_withLevels_cons, answersTo_withLevels_cons, hans k hk]
      congr 1
      -- Only a get of this very key contributes its answer.
      by_cases hop : st.2 = .get k
      · rw [hget k hop hk]
      · unfold answersTo
        simp only [List.zip_cons_cons, List.zip_nil_left, List.filterMap_cons,
          List.filterMap_nil]
        cases hst : st.2 with
        | get k' =>
            have hne : k' ≠ k := fun heq => hop (by rw [hst, heq])
            simp [hne]
        | put k' v' => rfl
        | monitor m => rfl
        | rollback order measure => rfl

/-- Inserting a put of `k₁` after `pre`, at level `m`, leaves the answers to
the gets of `k₂` as they were. -/
def Isolated (murmur : Murmur) (k₁ k₂ : Key)
    (pre post : List ((Level × Int) × Op)) (m : Level × Int) (v : Value) : Prop :=
  ∃ outs s outs' s',
    opened.run murmur (withLevels (pre ++ post)) = some (outs, s) ∧
    opened.run murmur (withLevels (pre ++ (m, .put k₁ v) :: post)) =
      some (outs', s') ∧
    answersTo k₂ (withLevels (pre ++ post)) outs =
      answersTo k₂ (withLevels (pre ++ (m, .put k₁ v) :: post)) outs'

theorem isolated_of_firstFour_ne {K : Set Key} (hap : HashesApart murmur K)
    {k₁ k₂ : Key} (hk₁ : k₁ ∈ K) (hne : firstFour k₁ ≠ firstFour k₂)
    {pre post : List ((Level × Int) × Op)}
    (hpre : ∀ st ∈ pre, ∀ k ∈ st.2.keys, k ∈ K)
    (hpost : ∀ st ∈ post, ∀ k ∈ st.2.keys, k ∈ K) (m : Level × Int) (v : Value) :
    Isolated murmur k₁ k₂ pre post m v := by
  have hkeys : ∀ op ∈ withLevels pre, ∀ k ∈ op.keys, k ∈ K := by
    intro op hop k hk
    obtain ⟨st, hst, hop⟩ := List.mem_flatMap.mp hop
    simp only [List.mem_cons, List.not_mem_nil, or_false] at hop
    rcases hop with rfl | rfl
    · simp [Op.keys] at hk
    · exact hpre st hst k hk
  obtain ⟨outs₀, s₀, hrun₀, hlen₀, hs₀⟩ :=
    FlagSound.run hap (withLevels pre) (flagSound_opened K) hkeys
  have hput := put_sameBut hap v hk₁ (s₀.monitor m)
  obtain ⟨outs, t, outs', t', hrun, hrun', hans⟩ :=
    SameBut.run (firstFour_eq_self (length_firstFour k₁)) hap post
      (⟨hput.main, hput.dev, hput.tracker⟩ :
        SameBut murmur K (firstFour k₁) s₀ ((s₀.monitor m).put murmur k₁ v).2)
      hs₀ ((hs₀.monitor m).put v hk₁) hpost
  have hput' : (s₀.monitor m).step murmur (.put k₁ v) =
      some (.put ((s₀.monitor m).put murmur k₁ v).1,
        ((s₀.monitor m).put murmur k₁ v).2) := rfl
  have hext := run_withLevels_cons (m, .put k₁ v) hput' hrun'
  refine ⟨outs₀ ++ outs, t, outs₀ ++ .monitor ::
    .put ((s₀.monitor m).put murmur k₁ v).1 :: outs', t', ?_, ?_, ?_⟩
  · rw [withLevels_append, run_append, hrun₀]
    simp [hrun]
  · rw [withLevels_append, run_append, hrun₀]
    simp [hext]
  · rw [withLevels_append, withLevels_append, answersTo_append _ hlen₀,
      answersTo_append _ hlen₀, answersTo_withLevels_cons,
      hans k₂ (Ne.symm hne)]
    rfl

/-! ## What a rollback writes under -/

/-- The redirected puts a pass would find, with `acc` before the step: a put
at the high level joins them and a pass clears them. -/
def noteRedirect (s : Master) (acc : List (Key × Value)) :
    Op → List (Key × Value)
  | .put k v => if s.level ≠ .high then acc else acc ++ [(k, v)]
  | .get _ => acc
  | .monitor _ => acc
  | .rollback _ _ =>
      if s.rollbackStatus ≤ 26 ∧ s.kacheFlag = 1 then [] else acc

def redirected (murmur : Murmur) :
    Master → List (Key × Value) → List Op → List (Key × Value)
  | _, acc, [] => acc
  | s, acc, op :: ops =>
      match s.step murmur op with
      | none => acc
      | some (_, s') => redirected murmur s' (noteRedirect s acc op) ops

/-- The last of some puts whose key has the four bytes `q` first. -/
def lastUnder (q : Key) (acc : List (Key × Value)) : Option (Key × Value) :=
  (acc.filter fun r => firstFour r.1 = q).getLast?

theorem lastUnder_append (q : Key) (acc : List (Key × Value)) (k : Key)
    (v : Value) :
    lastUnder q (acc ++ [(k, v)]) =
      if firstFour k = q then some (k, v) else lastUnder q acc := by
  rw [lastUnder, List.filter_append]
  by_cases h : firstFour k = q
  · simp [h]
  · simp [h, lastUnder]

theorem firstFour_of_lastUnder {q : Key} {acc : List (Key × Value)}
    {r : Key × Value} (h : lastUnder q acc = some r) : firstFour r.1 = q := by
  have := List.mem_of_getLast? h
  simpa using (List.mem_filter.mp this).2

/-- Dev-LSM holds the last redirected put of every class: one step. -/
theorem step_dev_eq_lastUnder {K : Set Key} (hap : HashesApart murmur K)
    {s t : Master} {acc : List (Key × Value)} {op : Op} {o : Out}
    (hs : FlagSound K s)
    (hacc : ∀ q, s.dev.lookup q = (lastUnder q acc).map Prod.snd)
    (hstep : s.step murmur op = some (o, t)) (q : Key) :
    t.dev.lookup q = (lastUnder q (noteRedirect s acc op)).map Prod.snd := by
  cases op with
  | put k v =>
      rw [step] at hstep
      simp only [Option.some.injEq, Prod.mk.injEq] at hstep
      obtain ⟨_, rfl⟩ := hstep
      rw [Master.put, noteRedirect]
      by_cases hl : s.level ≠ .high
      · rw [if_pos hl, if_pos hl, ← hacc q]
        split
        · rfl
        · split <;> rfl
      · rw [if_neg hl, if_neg hl, lastUnder_append]
        by_cases hq : firstFour k = q
        · subst hq
          simp [AList.lookup_insert]
        · simp only [AList.lookup_insert_ne (Ne.symm hq), if_neg hq, hacc q]
  | get k =>
      simp only [step, Option.some.injEq, Prod.mk.injEq] at hstep
      rw [← hstep.2]
      exact hacc q
  | monitor m =>
      simp only [step, Option.some.injEq, Prod.mk.injEq] at hstep
      rw [← hstep.2]
      exact hacc q
  | rollback order measure =>
      rw [noteRedirect]
      split
      · rename_i hguard
        obtain ⟨w, u, hrb, hdone⟩ := rollbackConsumer_spec murmur
          order measure hguard (hs.inUse hguard.2) (hs.devInj hap)
        rw [step, hrb] at hstep
        simp only [Option.map_some, Option.some.injEq, Prod.mk.injEq] at hstep
        rw [← hstep.2, hdone.dev]
        rfl
      · rename_i hguard
        rw [step, rollbackConsumer_skip _ _ hguard] at hstep
        simp only [Option.map_some, Option.some.injEq, Prod.mk.injEq] at hstep
        rw [← hstep.2]
        exact hacc q

theorem run_dev_eq_lastUnder {K : Set Key} (hap : HashesApart murmur K) :
    ∀ (ops : List Op) {s : Master} {acc : List (Key × Value)},
      FlagSound K s → (∀ op ∈ ops, ∀ k ∈ op.keys, k ∈ K) →
      (∀ q, s.dev.lookup q = (lastUnder q acc).map Prod.snd) →
      ∀ {outs s'}, s.run murmur ops = some (outs, s') →
        ∀ q, s'.dev.lookup q =
          (lastUnder q (redirected murmur s acc ops)).map Prod.snd := by
  intro ops
  induction ops with
  | nil =>
      intro s acc _ _ hacc outs s' hrun
      simp only [run, Option.some.injEq, Prod.mk.injEq] at hrun
      rw [← hrun.2]
      exact hacc
  | cons op ops ih =>
      intro s acc hs hkeys hacc outs s' hrun
      obtain ⟨o, t, hstep, ht⟩ := hs.step hap op (hkeys op List.mem_cons_self)
      rw [run, hstep] at hrun
      simp only [Option.bind_some, Option.map_eq_some_iff] at hrun
      obtain ⟨⟨outs', s''⟩, hrun', heq⟩ := hrun
      simp only [Prod.mk.injEq] at heq
      obtain ⟨_, rfl⟩ := heq
      rw [redirected, hstep]
      exact ih ht (fun op' hop' => hkeys op' (List.mem_cons_of_mem _ hop'))
        (step_dev_eq_lastUnder hap hs hacc hstep) hrun'

/-- After the run of `ops`, a pass writes exactly the last redirected put of
each class that is still tracked, and writes it under the class's four
bytes. -/
def WritesFirstFour (murmur : Murmur) (ops : List Op) : Prop :=
  ∀ outs s, opened.run murmur ops = some (outs, s) →
    s.rollbackStatus ≤ 26 → s.kacheFlag = 1 → ∀ order measure,
    ∃ w s', s.rollbackConsumer murmur order measure = some (w, s') ∧
      ∀ q v, (q, v) ∈ w ↔
        s.keyTracker.contains (doubleHash murmur q 1) = true ∧
          ∃ k, firstFour k = q ∧
            lastUnder q (redirected murmur opened [] ops) = some (k, v)

theorem writesFirstFour {K : Set Key} (hap : HashesApart murmur K)
    {ops : List Op} (hkeys : ∀ op ∈ ops, ∀ k ∈ op.keys, k ∈ K) :
    WritesFirstFour murmur ops := by
  intro outs s hrun hstatus hflag order measure
  obtain ⟨_, _, hrun', _, hs⟩ := FlagSound.run hap ops (flagSound_opened K) hkeys
  rw [hrun] at hrun'
  simp only [Option.some.injEq, Prod.mk.injEq] at hrun'
  obtain ⟨rfl, rfl⟩ := hrun'
  have hempty : ∀ q, opened.dev.lookup q = (lastUnder q []).map Prod.snd :=
    fun q => by simp [opened, lastUnder]
  have hdev := run_dev_eq_lastUnder hap ops (flagSound_opened K) hkeys hempty hrun
  obtain ⟨w, s', hrb, hdone⟩ := rollbackConsumer_spec murmur order
    measure ⟨hstatus, hflag⟩ (hs.inUse hflag) (hs.devInj hap)
  refine ⟨w, s', hrb, fun q v => ?_⟩
  rw [hdone.mem_writes, hdev q, Option.map_eq_some_iff, and_comm]
  refine and_congr_right fun _ => ?_
  constructor
  · rintro ⟨⟨k, v'⟩, hlast, rfl⟩
    exact ⟨k, firstFour_of_lastUnder hlast, hlast⟩
  · rintro ⟨k, _, hlast⟩
    exact ⟨(k, v), hlast, rfl⟩

/-! ## The result -/

/-- Keys that differ in their first four bytes do not disturb each other, in
any run over keys that have them and wherever the put is inserted, and a
rollback writes each record under the first four bytes of the key it was put
with. -/
theorem key_isolation {K : Set Key} (hlen : ∀ k ∈ K, 3 ≤ k.length)
    (hap : HashesApart murmur K) {k₁ k₂ : Key} (hk₁ : k₁ ∈ K) (hk₂ : k₂ ∈ K)
    (hne : fourBytes k₁ ≠ fourBytes k₂) (pre post : List ((Level × Int) × Op))
    (hkeys : ∀ st ∈ pre ++ post, ∀ k ∈ st.2.keys, k ∈ K)
    (m : Level × Int) (v : Value) :
    Isolated murmur k₁ k₂ pre post m v ∧
      WritesFirstFour murmur (withLevels (pre ++ (m, .put k₁ v) :: post)) := by
  have hpre : ∀ st ∈ pre, ∀ k ∈ st.2.keys, k ∈ K :=
    fun st hst => hkeys st (List.mem_append_left _ hst)
  have hpost : ∀ st ∈ post, ∀ k ∈ st.2.keys, k ∈ K :=
    fun st hst => hkeys st (List.mem_append_right _ hst)
  have hfirst : firstFour k₁ ≠ firstFour k₂ := by
    rw [fourBytes_eq (hlen k₁ hk₁), fourBytes_eq (hlen k₂ hk₂)] at hne
    exact fun h => hne (congrArg _ h)
  refine ⟨isolated_of_firstFour_ne hap hk₁ hfirst hpre hpost m v,
    writesFirstFour hap fun op hop k hk => ?_⟩
  obtain ⟨st, hst, hop⟩ := List.mem_flatMap.mp hop
  simp only [List.mem_cons, List.not_mem_nil, or_false] at hop
  rcases hop with rfl | rfl
  · simp [Op.keys] at hk
  · rcases List.mem_append.mp hst with hst | hst
    · exact hpre st hst k hk
    · rcases List.mem_cons.mp hst with rfl | hst
      · simp only [Op.keys, List.mem_singleton] at hk
        rw [hk]
        exact hk₁
      · exact hpost st hst k hk

theorem key_isolation_aaaa_bbbb :
    Isolated murmurHash3 [97, 97, 97, 97] [98, 98, 98, 98]
        [((.high, 40), .put [98, 98, 98, 98] [1])]
        [((.high, 40), .get [98, 98, 98, 98]),
          ((.low, 10), .rollback [] fun _ => (.low, 9)),
          ((.low, 10), .get [98, 98, 98, 98])] (.high, 40) [2] ∧
      WritesFirstFour murmurHash3
        (withLevels ([((.high, 40), .put [98, 98, 98, 98] [1])] ++
          ((.high, 40), .put [97, 97, 97, 97] [2]) ::
          [((.high, 40), .get [98, 98, 98, 98]),
            ((.low, 10), .rollback [] fun _ => (.low, 9)),
            ((.low, 10), .get [98, 98, 98, 98])])) :=
  key_isolation (K := {[97, 97, 97, 97], [98, 98, 98, 98]}) (by simp)
    (by
      rintro k (rfl | rfl) k' (rfl | rfl)
      · exact fun _ => rfl
      · exact fun h => absurd h (by decide)
      · exact fun h => absurd h (by decide)
      · exact fun _ => rfl)
    (by simp) (by simp) (by decide) _ _ (by simp [Op.keys]) _ _

/-- Five-byte keys with the same first four: the put of one answers a get of
the other, and a rollback writes under a key nobody put. -/
theorem not_isolated_aaaa1_aaaa2 :
    ¬ Isolated murmurHash3 [97, 97, 97, 97, 49] [97, 97, 97, 97, 50] []
        [((.high, 40), .get [97, 97, 97, 97, 50])] (.high, 40) [1] ∧
      (opened.run murmurHash3 (withLevels
        [((.high, 40), .put [97, 97, 97, 97, 49] [1]),
          ((.low, 10), .rollback [] fun _ => (.low, 9))])).map Prod.fst =
        some [.monitor, .put .ok, .monitor,
          .rollback [([97, 97, 97, 97], [1])]] := by
  refine ⟨?_, by decide⟩
  rintro ⟨outs, s, outs', s', hrun, hrun', hans⟩
  have houts : (opened.run murmurHash3 (withLevels
      [((.high, 40), .get [97, 97, 97, 97, 50])])).map Prod.fst =
      some [.monitor, .get .notFound none] := by decide
  have houts' : (opened.run murmurHash3 (withLevels
      [((.high, 40), .put [97, 97, 97, 97, 49] [1]),
        ((.high, 40), .get [97, 97, 97, 97, 50])])).map Prod.fst =
      some [.monitor, .put .ok, .monitor, .get .ok (some [1])] := by decide
  simp only [List.nil_append] at hrun hrun' hans
  rw [hrun] at houts
  rw [hrun'] at houts'
  simp only [Option.map_some, Option.some.injEq] at houts houts'
  rw [houts, houts'] at hans
  exact absurd hans (by decide)

end Master

end Kvaccel.Ref
