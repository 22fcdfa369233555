import Kvaccel.Proofs.HostBuffer
import Kvaccel.Proofs.Isolation
import Kvaccel.Spec.Session

/-!
# Two sessions

What a second session may deliver, to its callers or to Main-LSM, are its own
puts. One thing of the first session can still be reached in it: a record on
the device. Its entry in the tracker need not have survived. The first
redirected put of the key brings an entry and sets `kache_flag`, and is itself
in the put buffer; a get then finds the old record. Without a record on the
device everything else that is left over is harmless: an entry without one is a
`NotFound`, and the put buffer is gone.
-/

namespace Kvaccel.Ref

open Kvaccel.Lib Kvaccel.Spec

namespace Session

open Master

variable {murmur : Murmur} {K : Set Key}

/-! ## What a session delivers -/

/-- What is in the three places was put in the session. -/
structure Own (K : Set Key) (puts : List (Key × Value)) (s : Session) : Prop where
  main : ∀ k v, s.master.main k = some v → (k, v) ∈ puts
  dev : ∀ k v, s.master.dev.lookup k = some v → k ∈ K ∧ (k, v) ∈ puts
  pending : ∀ r ∈ s.pending, r.1 ∈ K ∧ r ∈ puts
  inUse : s.master.kacheFlag = 1 → s.flush.master.dev.records ≠ []

theorem own_opened : Own K [] opened where
  main _ _ hv := by cases hv
  dev _ _ hv := by cases hv
  pending _ hr := by cases hr
  inUse hone := by cases hone

theorem lookup_insertAll {d : DevMap} {l : List (Key × Value)} {k : Key} {v : Value}
    (h : (d.insertAll l).lookup k = some v) :
    d.lookup k = some v ∨ ∃ r ∈ l, firstFour r.1 = k ∧ r.2 = v := by
  induction l generalizing d with
  | nil => exact Or.inl h
  | cons r l ih =>
      rcases ih h with hd | ⟨r', hr', heq⟩
      · by_cases hk : k = firstFour r.1
        · subst hk
          rw [AList.lookup_insert, Option.some.injEq] at hd
          exact Or.inr ⟨r, List.mem_cons_self, rfl, hd⟩
        · rw [AList.lookup_insert_ne hk] at hd
          exact Or.inl hd
      · exact Or.inr ⟨r', List.mem_cons_of_mem _ hr', heq⟩

theorem insertAll_concat (d : DevMap) (l : List (Key × Value)) (k : Key) (v : Value) :
    d.insertAll (l ++ [(k, v)]) = (d.insertAll l).insert (firstFour k) v :=
  List.foldl_append

section Steps

variable (hfour : ∀ k ∈ K, k.length = 4) (hap : HashesApart murmur K)
  {puts : List (Key × Value)} {s : Session}

include hfour

theorem Own.flush (h : Own K puts s) : Own K puts s.flush where
  main := h.main
  dev k v hv := by
    rcases lookup_insertAll hv with hdev | ⟨r, hr, rfl, rfl⟩
    · exact h.dev k v hdev
    · obtain ⟨hin, hput⟩ := h.pending r hr
      rw [firstFour_eq_self (hfour r.1 hin)]
      exact ⟨hin, hput⟩
  pending _ hr := by cases hr
  inUse := h.inUse

/-- From here on a pass has a record to begin with. -/
theorem Own.ilsmPut (h : Own K puts s) {k : Key} (hk : k ∈ K) (v : Value) :
    Own K (puts ++ [(k, v)]) (s.ilsmPut k v) ∧ (s.ilsmPut k v).flush.master.dev.records ≠ [] := by
  have hrecords : (s.master.dev.insertAll (s.pending ++ [(k, v)])).records ≠ [] := by
    rw [insertAll_concat]
    exact List.ne_nil_of_mem (DevMap.mem_records.mpr (AList.lookup_insert _))
  have hbuffered : Own K (puts ++ [(k, v)]) { s with pending := s.pending ++ [(k, v)] } := by
    refine ⟨fun k' v' hv' => List.mem_append_left _ (h.main k' v' hv'), fun k' v' hv' => ?_,
      fun r hr => ?_, fun _ => hrecords⟩
    · obtain ⟨hin, hput⟩ := h.dev k' v' hv'
      exact ⟨hin, List.mem_append_left _ hput⟩
    · rcases List.mem_append.mp hr with hr | hr
      · obtain ⟨hin, hput⟩ := h.pending r hr
        exact ⟨hin, List.mem_append_left _ hput⟩
      · rw [List.mem_singleton.mp hr]
        exact ⟨hk, by simp⟩
  rw [Session.ilsmPut]
  simp only []
  split
  · exact ⟨hbuffered.flush hfour, hrecords⟩
  · exact ⟨hbuffered, hrecords⟩

omit hfour in
/-- A put of Main-LSM, with or without the deletion of an entry. -/
theorem Own.mainPut (h : Own K puts s) (k : Key) (v : Value) (tracker : HashMap Key 128) :
    Own K (puts ++ [(k, v)])
      { s with master := { s.master with keyTracker := tracker }.mainPut k v } where
  main k' v' hv' := by
    have hv' : Function.update s.master.main k (some v) k' = some v' := hv'
    by_cases heq : k' = k
    · subst heq
      rw [Function.update_self, Option.some.injEq] at hv'
      simp [hv']
    · rw [Function.update_of_ne heq] at hv'
      exact List.mem_append_left _ (h.main k' v' hv')
  dev k' v' hv' := ⟨(h.dev k' v' hv').1, List.mem_append_left _ (h.dev k' v' hv').2⟩
  pending r hr := ⟨(h.pending r hr).1, List.mem_append_left _ (h.pending r hr).2⟩
  inUse := h.inUse

theorem Own.put (h : Own K puts s) {k : Key} (hk : k ∈ K) (v : Value) :
    Own K (puts ++ [(k, v)]) (s.put murmur k v).2 := by
  rw [Session.put]
  split
  · next hlow =>
    rw [Master.put, if_pos hlow]
    split
    · exact h.mainPut k v s.master.keyTracker
    · split
      · exact h.mainPut k v _
      · exact h.mainPut k v s.master.keyTracker
  · obtain ⟨hput, hrecords⟩ := h.ilsmPut hfour hk v
    exact ⟨hput.main, hput.dev, hput.pending, fun _ => hrecords⟩

theorem Own.get (h : Own K puts s) {k : Key} (hk : k ∈ K) :
    ∀ r ∈ delivered (.get k) (.get (s.master.get murmur k).1 (s.master.get murmur k).2),
      r ∈ puts := by
  -- Whatever store answered, the value is one of the session's.
  have hshown : ∀ found : Option Value, (∀ v, found = some v → (k, v) ∈ puts) →
      ∀ r ∈ delivered (.get k) (.get (report found).1 (report found).2), r ∈ puts := by
    intro found hfound r hr
    cases found with
    | none => cases hr
    | some v =>
        rw [List.mem_singleton.mp hr]
        exact hfound v rfl
  rw [get_eq]
  refine hshown _ fun v hv => ?_
  split at hv
  · exact h.main k v hv
  · rw [Master.view, firstFour_eq_self (hfour k hk)] at hv
    split at hv
    · exact (h.dev k v hv).2
    · exact h.main k v hv

include hap

theorem Own.rollback (h : Own K puts s) (order : List (Key × Value))
    (measure : Nat → Level × Int) :
    ∃ w s', s.rollbackConsumer murmur order measure = some (w, s') ∧
      (∀ r ∈ w, r ∈ puts) ∧ Own K puts s' := by
  rw [Session.rollbackConsumer]
  split
  · next hguard =>
    have hflushed := h.flush hfour
    have hinj : ∀ a b, (s.flush.master.dev.lookup a).isSome →
        (s.flush.master.dev.lookup b).isSome →
        doubleHash murmur a 1 = doubleHash murmur b 1 → a = b := by
      intro a b ha hb heq
      obtain ⟨v, hv⟩ := Option.isSome_iff_exists.mp ha
      obtain ⟨w, hw⟩ := Option.isSome_iff_exists.mp hb
      have hka := (hflushed.dev a v hv).1
      have hkb := (hflushed.dev b w hw).1
      have hsame := hap a hka b hkb heq
      rwa [firstFour_eq_self (hfour a hka), firstFour_eq_self (hfour b hkb)] at hsame
    obtain ⟨w, m, hpass, hdone⟩ := rollbackConsumer_spec murmur (s := s.flush.master) order
      measure hguard (h.inUse hguard.2) hinj
    have hown : ∀ r ∈ w, r ∈ puts := fun r hr =>
      (hflushed.dev r.1 r.2 (hdone.mem_writes.mp hr).1).2
    rw [hpass]
    refine ⟨w, _, rfl, hown, ⟨fun k v hv => ?_, fun k v hv => ?_, fun r hr => ?_,
      fun hone => ?_⟩⟩
    · by_cases hmem : k ∈ w.map Prod.fst
      · obtain ⟨⟨k', v'⟩, hr, rfl⟩ := List.mem_map.mp hmem
        have hv : m.main k' = some v := hv
        rw [hdone.main_of_mem k' v' hr, Option.some.injEq] at hv
        rw [← hv]
        exact hown _ hr
      · have hv : m.main k = some v := hv
        rw [hdone.main_of_notMem k hmem] at hv
        exact h.main k v hv
    · have hv : m.dev.lookup k = some v := hv
      rw [hdone.dev] at hv
      cases hv
    · cases hr
    · exact absurd (hdone.kacheFlag.symm.trans hone) (by decide)
  · exact ⟨[], s, rfl, by simp, h⟩

/-- A step returns, and hands out nothing but puts of the session. -/
theorem Own.step (h : Own K puts s) {op : Op} (hkeys : ∀ k ∈ op.keys, k ∈ K) :
    ∃ o s', s.step murmur op = some (o, s') ∧ (∀ r ∈ delivered op o, r ∈ puts) ∧
      Own K (puts ++ putsOf op) s' := by
  cases op with
  | put k v =>
      exact ⟨_, _, rfl, by simp [delivered], h.put hfour (hkeys k (by simp [Op.keys])) v⟩
  | get k =>
      rw [putsOf_get, List.append_nil]
      exact ⟨_, _, rfl, h.get hfour (hkeys k (by simp [Op.keys])), h⟩
  | monitor x =>
      rw [putsOf_monitor, List.append_nil]
      exact ⟨_, _, rfl, by simp [delivered], ⟨h.main, h.dev, h.pending, h.inUse⟩⟩
  | rollback order measure =>
      obtain ⟨w, s', hpass, hown, hs'⟩ := h.rollback hfour hap order measure
      rw [putsOf_rollback, List.append_nil]
      exact ⟨.rollback w, s', by rw [Session.step, hpass]; rfl, hown, hs'⟩

theorem Own.ownRecords : ∀ (ops : List Op) {s : Session} {puts : List (Key × Value)},
    Own K puts s → (∀ op ∈ ops, ∀ k ∈ op.keys, k ∈ K) → OwnRecords murmur puts s ops := by
  intro ops
  induction ops with
  | nil => intro s puts _ _; trivial
  | cons op ops ih =>
      intro s puts h hkeys
      obtain ⟨o, s', hstep, hown, hs'⟩ := h.step hfour hap (hkeys op List.mem_cons_self)
      exact ⟨o, s', hstep, hown, ih hs' fun op' hop' => hkeys op' (List.mem_cons_of_mem _ hop')⟩

theorem Own.run : ∀ (ops : List Op) {s s' : Session} {puts : List (Key × Value)}
    {outs : List Out}, Own K puts s → (∀ op ∈ ops, ∀ k ∈ op.keys, k ∈ K) →
    s.run murmur ops = some (outs, s') → ∃ puts', Own K puts' s' := by
  intro ops
  induction ops with
  | nil =>
      intro s s' puts outs h _ hrun
      cases hrun
      exact ⟨puts, h⟩
  | cons op ops ih =>
      intro s s' puts outs h hkeys hrun
      obtain ⟨o, t, hstep, _, ht⟩ := h.step hfour hap (hkeys op List.mem_cons_self)
      rw [Session.run, hstep] at hrun
      obtain ⟨⟨outs', t'⟩, hrun', heq⟩ := Option.map_eq_some_iff.mp hrun
      cases heq
      exact ih ht (fun op' hop' => hkeys op' (List.mem_cons_of_mem _ hop')) hrun'

end Steps

/-! ## The second session -/

theorem own_reopened {s : Session} (hempty : ∀ k, s.master.dev.lookup k = none) :
    Own K [] s.reopened where
  main _ _ hv := by cases hv
  dev k v hv := by cases (hempty k).symm.trans hv
  pending _ hr := by cases hr
  inUse hone := by cases hone

theorem ownRecords_cons {puts : List (Key × Value)} {s s' : Session} {op : Op}
    {ops : List Op} {o : Out} (h : s.step murmur op = some (o, s')) :
    OwnRecords murmur puts s (op :: ops) ↔ (∀ r ∈ delivered op o, r ∈ puts) ∧
      OwnRecords murmur (puts ++ putsOf op) s' ops := by
  rw [OwnRecords, h]
  constructor
  · intro ⟨_, _, heq, hown, hrest⟩
    cases heq
    exact ⟨hown, hrest⟩
  · intro ⟨hown, hrest⟩
    exact ⟨o, s', rfl, hown, hrest⟩

/-- The first redirected put of a session. -/
theorem step_redirect {m : Master} (hhigh : m.level = .high) (k : Key) (v : Value) :
    (Session.mk m []).step murmur (.put k v) = some (.put .ok,
      ⟨{ m with
        kacheFlag := 1
        keyTracker := m.keyTracker.insert (doubleHash murmur k 1) k }, [(k, v)]⟩) := by
  rw [Session.step, Session.put, if_neg (not_not.mpr hhigh)]
  rfl

theorem step_get {s : Session} {k : Key} {st : Status} {found : Option Value}
    (h : s.master.get murmur k = (st, found)) :
    s.step murmur (.get k) = some (.get st found, s) := by
  rw [Session.step, h]

/-- With the flag set, an entry and a record are enough. -/
theorem get_of_dev {m : Master} {t : HashMap Key 128} {k : Key} {v : Value}
    (hk : k.length = 4) (hdev : m.dev.lookup k = some v)
    (htracked : t.contains (doubleHash murmur k 1) = true) :
    Master.get murmur { m with kacheFlag := 1, keyTracker := t } k = (.ok, some v) := by
  rw [get_eq, if_neg one_ne_zero, Master.view, firstFour_eq_self hk, if_pos htracked, hdev]
  rfl

/-- The leak: a redirected put, of the key itself or of another one, and a get. -/
theorem leaks {s : Session} {k k' : Key} {v v' : Value} (hk : k.length = 4)
    (hdev : s.master.dev.lookup k = some v)
    (htracked : (s.master.keyTracker.insert (doubleHash murmur k' 1) k').contains
      (doubleHash murmur k 1) = true) (hne : (k, v) ≠ (k', v')) :
    ¬ OwnRecords murmur [] s.reopened [.monitor (.high, 40), .put k' v', .get k] := by
  have hmonitor : s.reopened.step murmur (.monitor (.high, 40)) =
      some (.monitor, ⟨s.reopened.master.monitor (.high, 40), []⟩) := rfl
  have hget := get_of_dev (m := s.reopened.master.monitor (.high, 40))
    (t := s.reopened.master.keyTracker.insert (doubleHash murmur k' 1) k') hk hdev htracked
  intro h
  rw [ownRecords_cons hmonitor, ownRecords_cons (step_redirect rfl k' v')] at h
  obtain ⟨-, -, hrest⟩ := h
  obtain ⟨hown, -⟩ := (ownRecords_cons (step_get (s := ⟨_, [(k', v')]⟩) hget)).mp hrest
  exact hne (List.mem_singleton.mp (hown (k, v) (List.mem_singleton.mpr rfl)))

/-- A second session over the same object delivers nothing but its own puts,
whatever it does, exactly if the first one leaves no record on the device. -/
theorem sessions_isolated_iff (hfour : ∀ k ∈ K, k.length = 4) (hap : HashesApart murmur K)
    {ops : List Op} (hkeys : ∀ op ∈ ops, ∀ k ∈ op.keys, k ∈ K) {outs : List Out}
    {s : Session} (hrun : opened.run murmur ops = some (outs, s)) :
    (∀ ops', (∀ op ∈ ops', ∀ k ∈ op.keys, k ∈ K) → OwnRecords murmur [] s.reopened ops') ↔
      ∀ k, s.master.dev.lookup k = none := by
  constructor
  · intro h k
    obtain ⟨puts, hown⟩ := own_opened.run hfour hap ops hkeys hrun
    by_contra hsome
    obtain ⟨v, hv⟩ := Option.ne_none_iff_exists'.mp hsome
    have hk := (hown.dev k v hv).1
    have htracked : (s.master.keyTracker.insert (doubleHash murmur k 1) k).contains
        (doubleHash murmur k 1) = true := by
      rw [HashMap.contains_iff, HashMap.countOf_insert, if_pos rfl]
      exact Nat.succ_pos _
    -- Any other value of the key will do.
    have hne : (k, v) ≠ (k, 0 :: v) := by simp
    refine leaks (hfour k hk) hv htracked hne (h _ ?_)
    simp [Op.keys, hk]
  · intro hempty ops' hkeys'
    exact (own_reopened hempty).ownRecords hfour hap ops' hkeys'

def twoKeys : Set Key := {[97, 97, 97, 97], [98, 98, 98, 98]}

theorem hashesApart_twoKeys : HashesApart murmurHash3 twoKeys := by
  have hne : doubleHash murmurHash3 [97, 97, 97, 97] 1 ≠
      doubleHash murmurHash3 [98, 98, 98, 98] 1 := by decide
  intro k hk k' hk' heq
  rcases hk with rfl | rfl <;> rcases hk' with rfl | rfl
  · rfl
  · exact absurd heq hne
  · exact absurd heq.symm hne
  · rfl

theorem length_twoKeys : ∀ k ∈ twoKeys, k.length = 4 := by
  intro k hk
  rcases hk with rfl | rfl
  · rfl
  · rfl

/-- `n` redirected puts of one key. -/
def redirects (n : Nat) : List Op :=
  .monitor (.high, 40) :: List.replicate n (.put [97, 97, 97, 97] [1])

/-- Another session: it redirects another key, and asks for the first. -/
def asksAgain : List Op :=
  [.monitor (.high, 40), .put [98, 98, 98, 98] [], .get [97, 97, 97, 97]]

/-- One put was still in the put buffer, and is gone. -/
theorem sessions_isolated_oneRedirect :
    ∃ outs s, opened.run murmurHash3 (redirects 1) = some (outs, s) ∧
      OwnRecords murmurHash3 [] s.reopened asksAgain := by
  refine ⟨_, _, rfl, ?_⟩
  refine (sessions_isolated_iff length_twoKeys hashesApart_twoKeys
    (show ∀ op ∈ redirects 1, ∀ k ∈ op.keys, k ∈ twoKeys by
      simp [redirects, Op.keys, twoKeys]) rfl).mpr (fun _ => rfl) asksAgain ?_
  simp [asksAgain, Op.keys, twoKeys]

/-- With 128 of them the batch is on the device, and the second session gets
the first one's value. -/
theorem not_isolated_fullBatch :
    ∃ outs s, opened.run murmurHash3 (redirects 128) = some (outs, s) ∧
      ¬ OwnRecords murmurHash3 [] s.reopened asksAgain := by
  have hfull : ((opened.run murmurHash3 (redirects 128)).map fun r =>
      (r.2.master.keyTracker.insert (doubleHash murmurHash3 [98, 98, 98, 98] 1)
          [98, 98, 98, 98]).contains (doubleHash murmurHash3 [97, 97, 97, 97] 1) &&
        decide (r.2.master.dev.lookup [97, 97, 97, 97] = some [1])) = some true := by
    decide +kernel
  obtain ⟨⟨outs, s⟩, hrun, heq⟩ := Option.map_eq_some_iff.mp hfull
  rw [Bool.and_eq_true, decide_eq_true_eq] at heq
  exact ⟨outs, s, hrun, leaks rfl heq.2 heq.1 (by decide)⟩

/-! ## The driver below

Over a map device `iLSM::DB` is what a session takes it for, as long as the
values are plain and the batches fit. -/

/-- The device has the session's `dev`, and the host buffers have its puts. -/
def Backed (s : Session) (db : DB MapDevice) : Prop :=
  ∃ flushed, DB.Holds ⟨flushed, s.pending⟩ db ∧ ∀ k, lastPut flushed k = s.master.dev.lookup k

theorem backed_opened : Backed opened (DB.opened MapDevice.empty) :=
  ⟨[], DB.holds_opened, fun _ => rfl⟩

theorem lookup_insertAll_eq {l : List (Key × Value)} (h : ∀ r ∈ l, r.1.length = 4) (d : DevMap)
    (k : Key) : (d.insertAll l).lookup k = (lastPut l k).or (d.lookup k) := by
  induction l using List.reverseRecOn with
  | nil => rfl
  | append_singleton l r ih =>
      have hl := ih fun r' hr' => h r' (List.mem_append_left _ hr')
      have hr : firstFour r.1 = r.1 := firstFour_eq_self (h r (by simp))
      rw [insertAll_concat, hr, DB.lastPut_append]
      by_cases hk : k = r.1
      · subst hk
        simp [AList.lookup_insert, lastPut, applied]
      · rw [AList.lookup_insert_ne hk, hl]
        simp [lastPut, applied, Function.update_of_ne hk]

variable {s : Session} {db : DB MapDevice} {k : Key} {v : Value} {out : Outside}

/-- What the division of the puts becomes in a put is what the session says. -/
theorem Backed.put (h : Backed s db) (hhigh : s.master.level = .high)
    (hsound : Sound (.put k v out))
    (hfits : pagesOf ((s.pending ++ [(k, v)]).map Prod.snd) ≤ maxValueBufferEntry) :
    Backed (s.put murmur k v).2 (db.put MapDevice.exec k v out).2 := by
  obtain ⟨flushed, hholds, hdev⟩ := h
  have hfour : ∀ r ∈ s.pending ++ [(k, v)], r.1.length = 4 := by
    intro r hr
    rcases List.mem_append.mp hr with hr | hr
    · exact (hholds.plain r hr).1
    · rw [List.mem_singleton.mp hr]
      exact hsound.1
  have hput := hholds.put hsound hfits
  rw [Session.put, if_neg (not_not.mpr hhigh), Session.ilsmPut]
  simp only [splitStep, List.length_append, List.length_singleton] at hput ⊢
  split
  · next hfull =>
    rw [if_pos hfull] at hput
    refine ⟨_, hput, fun q => ?_⟩
    rw [DB.lastPut_append, hdev]
    exact (lookup_insertAll_eq hfour s.master.dev q).symm
  · next hfull =>
    rw [if_neg hfull] at hput
    exact ⟨flushed, hput, hdev⟩

theorem Backed.get (h : Backed s db) (value : Value) (hk : k.length = 4) (hout : out.data = true) :
    Backed s (db.get MapDevice.exec k value out).2.2 ∧
      (.get (db.get MapDevice.exec k value out).1
        (db.get MapDevice.exec k value out).2.1 : Reply) =
        reported value ((s.master.dev.lookup k).map clipped) := by
  obtain ⟨flushed, hholds, hdev⟩ := h
  obtain ⟨hheld, hreply⟩ := hholds.get value hk hout
  rw [hdev] at hreply
  exact ⟨⟨flushed, hheld, hdev⟩, hreply⟩

/-- `CreateIter`, at the beginning of a pass -/
theorem Backed.flush (h : Backed s db) (iterId : Nat) (out : Outside) :
    Backed s.flush (db.createIter MapDevice.exec iterId out).2.2 := by
  obtain ⟨flushed, hholds, hdev⟩ := h
  refine ⟨_, hholds.createIter iterId out, fun q => ?_⟩
  rw [DB.lastPut_append, hdev]
  exact (lookup_insertAll_eq (fun r hr => (hholds.plain r hr).1) s.master.dev q).symm

/-- `Open` takes the device as it is and no put. -/
theorem Backed.reopened (h : Backed s db) : Backed s.reopened (DB.opened db.device) := by
  obtain ⟨flushed, hholds, hdev⟩ := h
  refine ⟨flushed, ⟨DB.buffered_opened _, hholds.device, ?_, Nat.zero_le _, Nat.succ_pos _,
    hholds.small⟩, hdev⟩
  intro r hr
  cases hr

end Session

end Kvaccel.Ref
