import Kvaccel.Proofs.Routing

/-!
# Reading your own writes

`Coherent` relates the routing layer to the one map it stands for: a tracked
key has its current value in Dev-LSM, an untracked one in Main-LSM, and an
empty Dev-LSM is what flag 0 announces. A redirected put, a put that bypasses
the locks, a level change and a rollback all keep it.

The put with rollback keeps it only up to one entry: it deletes a single
tracker entry, and a key redirected twice since the last rollback has two.
After such a put the key is still tracked while its current value sits in
Main-LSM, so gets read the older redirected value and the next rollback
writes it back. `HidesPut` is that step, and the run theorem is about runs
without it.
-/

namespace Kvaccel.Ref

open Kvaccel.Lib Kvaccel.Spec

namespace Master

variable {murmur : Murmur}

/-- `P` holds at every step of the run of `ops` from `s`. -/
def Along (murmur : Murmur) (P : Master → Op → Prop) : Master → List Op → Prop
  | _, [] => True
  | s, op :: ops =>
      P s op ∧
        match s.step murmur op with
        | some (_, s') => Along murmur P s' ops
        | none => True

instance Along.decidable (murmur : Murmur) (P : Master → Op → Prop)
    [∀ s op, Decidable (P s op)] :
    ∀ (s : Master) (ops : List Op), Decidable (Along murmur P s ops)
  | _, [] => inferInstanceAs (Decidable True)
  | s, op :: ops =>
      match h : s.step murmur op with
      | some (_, s') =>
          have := Along.decidable murmur P s' ops
          decidable_of_iff (P s op ∧ Along murmur P s' ops) (by
            rw [Along, h])
      | none => decidable_of_iff (P s op) (by rw [Along, h]; simp)

/-- A put that goes to Main-LSM past a Dev-LSM in use while its key has two
or more tracker entries. -/
def HidesPut (murmur : Murmur) (s : Master) : Op → Prop
  | .put k _ =>
      s.level ≠ .high ∧ s.kacheFlag ≠ 0 ∧
        2 ≤ s.keyTracker.countOf (doubleHash murmur k 1)
  | _ => False

instance (murmur : Murmur) (s : Master) (op : Op) :
    Decidable (HidesPut murmur s op) := by
  cases op <;> unfold HidesPut <;> infer_instance

/-- The routing state `s` stands for the map `m` on the keys of `K`. -/
structure Coherent (murmur : Murmur) (K : Set Key) (m : Key → Option Value)
    (s : Master) : Prop where
  tracked : ∀ k ∈ K, 0 < s.keyTracker.countOf (doubleHash murmur k 1) →
    ∃ v, s.dev.lookup k = some v ∧ m k = some v
  untracked : ∀ k ∈ K, s.keyTracker.countOf (doubleHash murmur k 1) = 0 →
    s.main k = m k
  devKeys : ∀ k, (s.dev.lookup k).isSome → k ∈ K
  flag : s.kacheFlag = 0 ∨ s.kacheFlag = 1
  unused : s.kacheFlag = 0 → ∀ h, s.keyTracker.countOf h = 0
  inUse : s.kacheFlag = 1 → s.dev.records ≠ []

theorem coherent_opened (murmur : Murmur) (K : Set Key) :
    Coherent murmur K (fun _ => none) opened where
  tracked k _ h := by simp [opened] at h
  untracked k _ _ := rfl
  devKeys k h := by simp [opened] at h
  flag := Or.inl rfl
  unused _ h := by simp [opened]
  inUse h := by simp [opened] at h

/-! ## One step -/

section Step

variable {K : Set Key} (hlen : ∀ k ∈ K, k.length = 4)
  (hinj : Set.InjOn (fun k => doubleHash murmur k 1) K)

include hlen

/-- A coherent state answers a get like the map. -/
theorem Coherent.get {m : Key → Option Value} {s : Master}
    (h : Coherent murmur K m s) {k : Key} (hk : k ∈ K) :
    s.get murmur k = report (m k) := by
  rw [get_eq]
  congr 1
  split
  · rename_i hflag
    exact h.untracked k hk (h.unused hflag _)
  · rw [view]
    cases hc : s.keyTracker.contains (doubleHash murmur k 1) with
    | true =>
        obtain ⟨v, hv, hm⟩ :=
          h.tracked k hk ((HashMap.contains_iff _ _).mp hc)
        rw [if_pos rfl, firstFour_eq_self (hlen k hk), hv, hm]
    | false =>
        rw [if_neg Bool.false_ne_true]
        exact h.untracked k hk ((HashMap.contains_eq_false_iff _ _).mp hc)

include hinj

omit hlen in
/-- A put that reaches Main-LSM with no entry of its key left. -/
theorem Coherent.mainPut {m : Key → Option Value} {s s' : Master}
    (h : Coherent murmur K m s) {k : Key} {v : Value} (hk : k ∈ K)
    (hmain : s'.main = Function.update s.main k (some v))
    (hdev : s'.dev = s.dev) (hflag : s'.kacheFlag = s.kacheFlag)
    (hself : s'.keyTracker.countOf (doubleHash murmur k 1) = 0)
    (hother : ∀ h, h ≠ doubleHash murmur k 1 →
      s'.keyTracker.countOf h = s.keyTracker.countOf h) :
    Coherent murmur K (Function.update m k (some v)) s' := by
  have hne : ∀ k' ∈ K, k' ≠ k →
      doubleHash murmur k' 1 ≠ doubleHash murmur k 1 :=
    fun k' hk' hne heq => hne (hinj hk' hk heq)
  refine ⟨?_, ?_, ?_, ?_, ?_, ?_⟩
  · intro k' hk' hp
    by_cases heq : k' = k
    · subst heq
      omega
    · rw [hother _ (hne k' hk' heq)] at hp
      rw [hdev, Function.update_of_ne heq]
      exact h.tracked k' hk' hp
  · intro k' hk' hz
    rw [hmain]
    by_cases heq : k' = k
    · subst heq
      simp
    · rw [Function.update_of_ne heq, Function.update_of_ne heq]
      rw [hother _ (hne k' hk' heq)] at hz
      exact h.untracked k' hk' hz
  · rw [hdev]; exact h.devKeys
  · rw [hflag]; exact h.flag
  · intro hf h'
    rw [hflag] at hf
    by_cases heq : h' = doubleHash murmur k 1
    · rw [heq, hself]
    · rw [hother _ heq]
      exact h.unused hf h'
  · rw [hflag, hdev]; exact h.inUse

/-- A redirected put: the key is tracked and Dev-LSM holds its value. -/
theorem Coherent.redirect {m : Key → Option Value} {s : Master}
    (h : Coherent murmur K m s) {k : Key} (v : Value) (hk : k ∈ K) :
    Coherent murmur K (Function.update m k (some v))
      { s with
        kacheFlag := 1
        dev := s.dev.insert (firstFour k) v
        keyTracker := s.keyTracker.insert (doubleHash murmur k 1) k } := by
  have hne : ∀ k' ∈ K, k' ≠ k →
      doubleHash murmur k 1 ≠ doubleHash murmur k' 1 :=
    fun k' hk' hne heq => hne (hinj hk' hk heq.symm)
  rw [firstFour_eq_self (hlen k hk)]
  refine ⟨?_, ?_, ?_, Or.inr rfl, ?_, ?_⟩
  · intro k' hk' hp
    by_cases heq : k' = k
    · subst heq
      exact ⟨v, AList.lookup_insert _, by simp⟩
    · simp only [HashMap.countOf_insert, if_neg (hne k' hk' heq),
        Nat.add_zero] at hp
      obtain ⟨v', hv', hm'⟩ := h.tracked k' hk' hp
      exact ⟨v', by simpa only [AList.lookup_insert_ne heq] using hv',
        by rw [Function.update_of_ne heq]; exact hm'⟩
  · intro k' hk' hz
    simp only [HashMap.countOf_insert] at hz
    by_cases heq : k' = k
    · subst heq
      simp at hz
    · rw [Function.update_of_ne heq]
      exact h.untracked k' hk' (by omega)
  · intro k' hk'
    by_cases heq : k' = k
    · subst heq
      exact hk
    · simp only [AList.lookup_insert_ne heq] at hk'
      exact h.devKeys k' hk'
  · intro hf
    simp at hf
  · intro _ hnil
    have hmem : (k, v) ∈ DevMap.records (s.dev.insert k v) :=
      DevMap.mem_records.mpr (AList.lookup_insert _)
    rw [hnil] at hmem
    cases hmem

/-- A put, on the branch the level and the flag select. -/
theorem Coherent.put {m : Key → Option Value} {s : Master}
    (h : Coherent murmur K m s) {k : Key} (v : Value) (hk : k ∈ K)
    (hclean : ¬ HidesPut murmur s (.put k v)) :
    Coherent murmur K (Function.update m k (some v)) (s.put murmur k v).2 := by
  unfold Master.put
  split
  · rename_i hlevel
    split
    · rename_i hflag
      exact h.mainPut hinj hk rfl rfl rfl (h.unused hflag _)
        fun _ _ => rfl
    · rename_i hflag
      split
      · -- One entry at most, so the deletion leaves the key untracked.
        have hle : s.keyTracker.countOf (doubleHash murmur k 1) < 2 := by
          by_contra hge
          exact hclean ⟨hlevel, hflag, by omega⟩
        refine h.mainPut hinj hk rfl rfl rfl ?_ fun h' hne => ?_
        · show (s.keyTracker.delete _).countOf _ = 0
          rw [HashMap.countOf_delete, if_pos rfl]
          omega
        · show (s.keyTracker.delete _).countOf _ = _
          rw [HashMap.countOf_delete, if_neg (Ne.symm hne), Nat.sub_zero]
      · rename_i hno
        rw [Bool.not_eq_true, HashMap.contains_eq_false_iff] at hno
        exact h.mainPut hinj hk rfl rfl rfl hno fun _ _ => rfl
  · exact h.redirect hlen hinj v hk

omit hinj in
/-- What the excluded step does: the put answers OK, and the next get of the
key still returns the value from before it. -/
theorem Coherent.get_after_hidden_put {m : Key → Option Value} {s : Master}
    (h : Coherent murmur K m s) {k : Key} {v : Value} (hk : k ∈ K)
    (hides : HidesPut murmur s (.put k v)) :
    (s.put murmur k v).2.get murmur k = report (m k) := by
  obtain ⟨hlevel, hflag, hcount⟩ := hides
  obtain ⟨v', hv', hm⟩ := h.tracked k hk (by omega)
  have hin : s.keyTracker.contains (doubleHash murmur k 1) = true :=
    (HashMap.contains_iff _ _).mpr (by omega)
  have hstill : (s.keyTracker.delete (doubleHash murmur k 1)).contains
      (doubleHash murmur k 1) = true := by
    rw [HashMap.contains_iff, HashMap.countOf_delete, if_pos rfl]
    omega
  rw [get_eq, Master.put, if_pos hlevel, if_neg hflag, if_pos hin]
  show report (if s.kacheFlag = 0 then _ else
    if (s.keyTracker.delete _).contains _ then s.dev.lookup _ else _) = _
  rw [if_neg hflag, if_pos hstill, firstFour_eq_self (hlen k hk), hv', hm]

omit hlen in
/-- A rollback pass returns and moves every tracked key's value to Main-LSM. -/
theorem Coherent.rollback {m : Key → Option Value} {s : Master}
    (h : Coherent murmur K m s) (order : List (Key × Value))
    (measure : Nat → Level × Int) :
    ∃ w s', s.rollbackConsumer murmur order measure = some (w, s') ∧
      Coherent murmur K m s' := by
  by_cases hguard : s.rollbackStatus ≤ 26 ∧ s.kacheFlag = 1
  · obtain ⟨w, s', hrun, hdone⟩ := rollbackConsumer_spec murmur
      order measure hguard (h.inUse hguard.2) fun a b ha hb heq =>
        hinj (h.devKeys a ha) (h.devKeys b hb) heq
    refine ⟨w, s', hrun, ?_, ?_, ?_, Or.inl hdone.kacheFlag, ?_, ?_⟩
    · intro k _ hp
      rw [hdone.keyTracker] at hp
      omega
    · intro k hk _
      by_cases hp : 0 < s.keyTracker.countOf (doubleHash murmur k 1)
      · obtain ⟨v, hv, hm⟩ := h.tracked k hk hp
        have hmem : (k, v) ∈ w :=
          hdone.mem_writes.mpr ⟨hv, (HashMap.contains_iff _ _).mpr hp⟩
        rw [hdone.main_of_mem k v hmem, hm]
      · rw [hdone.main_of_notMem k, h.untracked k hk (by omega)]
        intro hmem
        obtain ⟨⟨k', v⟩, hw, rfl⟩ := List.mem_map.mp hmem
        exact hp ((HashMap.contains_iff _ _).mp (hdone.mem_writes.mp hw).2)
    · intro k hk
      rw [hdone.dev] at hk
      simp at hk
    · intro _ h'
      exact hdone.keyTracker h'
    · intro hf
      rw [hdone.kacheFlag] at hf
      exact absurd hf (by decide)
  · exact ⟨[], s, rollbackConsumer_skip order measure hguard, h⟩

/-- Every step of a clean run returns and keeps the state coherent with the
map it should stand for; a get among them answers like the map. -/
theorem Coherent.step {m : Key → Option Value} {s : Master}
    (h : Coherent murmur K m s) (op : Op) (hkeys : ∀ k ∈ op.keys, k ∈ K)
    (hclean : ¬ HidesPut murmur s op) :
    ∃ o s', s.step murmur op = some (o, s') ∧
      Coherent murmur K (writeOf m op) s' ∧
      ∀ k, op = .get k → o = answer (m k) := by
  cases op with
  | put k v =>
      refine ⟨_, _, rfl, h.put hlen hinj v (hkeys k (by simp [Op.keys])) hclean, ?_⟩
      intro k' hk'
      cases hk'
  | get k =>
      refine ⟨.get (s.get murmur k).1 (s.get murmur k).2, s, rfl, h, ?_⟩
      intro k' hk'
      cases hk'
      rw [answer, ← h.get hlen (hkeys k (by simp [Op.keys]))]
  | monitor lv =>
      refine ⟨_, _, rfl, ⟨h.tracked, h.untracked, h.devKeys, h.flag, h.unused,
        h.inUse⟩, ?_⟩
      intro k' hk'
      cases hk'
  | rollback order measure =>
      obtain ⟨w, s', hrun, hco⟩ := h.rollback hinj order measure
      refine ⟨.rollback w, s', by rw [Master.step, hrun]; rfl, hco, ?_⟩
      intro k' hk'
      cases hk'

/-! ## A whole run -/

theorem Coherent.run : ∀ (ops : List Op) {m : Key → Option Value} {s : Master},
    Coherent murmur K m s → (∀ op ∈ ops, ∀ k ∈ op.keys, k ∈ K) →
    Along murmur (fun s op => ¬ HidesPut murmur s op) s ops →
    ∃ outs s', s.run murmur ops = some (outs, s') ∧
      ∀ i k, ops[i]? = some (.get k) →
        outs[i]? = some (answer ((ops.take i).foldl writeOf m k)) := by
  intro ops
  induction ops with
  | nil =>
      intro m s _ _ _
      exact ⟨[], s, rfl, by simp⟩
  | cons op ops ih =>
      intro m s h hkeys halong
      obtain ⟨o, s', hstep, hco, hget⟩ :=
        h.step hlen hinj op (hkeys op List.mem_cons_self) halong.1
      rw [Along, hstep] at halong
      obtain ⟨outs, s'', hrun, houts⟩ := ih hco
        (fun op' hop' => hkeys op' (List.mem_cons_of_mem _ hop')) halong.2
      refine ⟨o :: outs, s'', by rw [Master.run, hstep]; simp [hrun], ?_⟩
      intro i k hi
      cases i with
      | zero =>
          simp only [List.getElem?_cons_zero, Option.some.injEq] at hi
          simp [hget k hi]
      | succ n =>
          simp only [List.getElem?_cons_succ] at hi ⊢
          exact houts n k hi

end Step

/-- Over ideal stores, four-byte keys and a hash that tells the keys apart,
every run in which no put hides behind a second tracker entry reads its own
writes. -/
theorem readsLastPut_of_no_hidden_put {K : Set Key}
    (hlen : ∀ k ∈ K, k.length = 4)
    (hinj : Set.InjOn (fun k => doubleHash murmur k 1) K) (ops : List Op)
    (hkeys : ∀ op ∈ ops, ∀ k ∈ op.keys, k ∈ K)
    (hclean : Along murmur (fun s op => ¬ HidesPut murmur s op) opened ops) :
    ReadsLastPut murmur ops :=
  Coherent.run hlen hinj ops (coherent_opened murmur K) hkeys hclean

/-- Redirect, overwrite past the flag, redirect again and roll back. -/
def singlyTracked : List Op :=
  [.monitor (.high, 40), .put [97, 97, 97, 97] [1], .get [97, 97, 97, 97],
    .monitor (.low, 30), .put [97, 97, 97, 97] [2], .get [97, 97, 97, 97],
    .monitor (.high, 40), .put [97, 97, 97, 97] [3], .monitor (.low, 10),
    .rollback [] (fun _ => (.low, 9)), .get [97, 97, 97, 97]]

theorem readsLastPut_singlyTracked :
    ReadsLastPut murmurHash3 singlyTracked :=
  readsLastPut_of_no_hidden_put (K := {[97, 97, 97, 97]})
    (by simp) (Set.injOn_singleton _ _) singlyTracked
    (by simp [singlyTracked, Op.keys]) (by decide)

/-- A key redirected twice, then put to Main-LSM: the put is hidden. -/
def doublyTracked : List Op :=
  [.monitor (.high, 40), .put [97, 97, 97, 97] [1], .put [97, 97, 97, 97] [2],
    .monitor (.low, 30), .put [97, 97, 97, 97] [3], .get [97, 97, 97, 97]]

theorem not_readsLastPut_doublyTracked :
    (∀ op ∈ doublyTracked, ∀ k ∈ op.keys, k.length = 4) ∧
      Set.InjOn (fun k => doubleHash murmurHash3 k 1) {[97, 97, 97, 97]} ∧
      ¬ ReadsLastPut murmurHash3 doublyTracked := by
  refine ⟨by simp [doublyTracked, Op.keys], Set.injOn_singleton _ _, ?_⟩
  rintro ⟨outs, s, hrun, hget⟩
  have houts : (opened.run murmurHash3 doublyTracked).map Prod.fst =
      some [.monitor, .put .ok, .put .ok, .monitor, .put .ok,
        .get .ok (some [2])] := by decide
  rw [hrun] at houts
  simp only [Option.map_some, Option.some.injEq] at houts
  have := hget 5 [97, 97, 97, 97] rfl
  rw [houts] at this
  exact absurd this (by decide)

end Master

end Kvaccel.Ref
