import Kvaccel.Proofs.KvDriver

/-!
# The sections over the driver

Between two sections the driver holds the puts that were redirected and not
moved yet, in the order of their sections: those in full batches of 128 are on
the device, the others in the host buffer. Which ones they are follows from the
sections alone (`outstanding`, `batched`). A redirected put adds one; a pass
finds all of them on the device, since it creates an iterator first, and leaves
none. That much is so however the device packs its replies. If it `Pairs`, the
pass is also handed each key with its last value.
-/

namespace Kvaccel.Spec

open Kvaccel.Lib Kvaccel.Ref

/-- The redirected puts that are to be moved, after this section. -/
def Purpose.leaves (l : List (Key × Value)) : Purpose → List (Key × Value)
  | .withRollback _ _ => l
  | .redirected k v => l ++ [(k, v)]
  | .pass _ => []

/-- After these sections. -/
def outstanding (ps : List Purpose) : List (Key × Value) := ps.foldl Purpose.leaves []

theorem mem_outstanding {ps : List Purpose} {r : Key × Value} :
    r ∈ outstanding ps → .redirected r.1 r.2 ∈ ps := by
  induction ps using List.reverseRecOn with
  | nil => exact fun h => by cases h
  | append_singleton ps p ih =>
      intro h
      rw [outstanding, List.foldl_append] at h
      rw [List.mem_append]
      cases p with
      | withRollback k v => exact Or.inl (ih h)
      | redirected k v =>
          rcases List.mem_append.mp h with h | h
          · exact Or.inl (ih h)
          · rw [List.mem_singleton.mp h]
            exact Or.inr (List.mem_singleton_self _)
      | pass l => cases h

theorem outstanding_concat (ps : List Purpose) (p : Purpose) :
    outstanding (ps ++ [p]) = p.leaves (outstanding ps) := by
  rw [outstanding, List.foldl_append]
  rfl

/-- Full batches on the device, the rest in the buffer. -/
def batched (l : List (Key × Value)) : Split where
  flushed := l.take (l.length / limitValueBufferEntry * limitValueBufferEntry)
  pending := l.drop (l.length / limitValueBufferEntry * limitValueBufferEntry)

theorem batched_nil : batched [] = ⟨[], []⟩ := rfl

theorem batched_append (l : List (Key × Value)) : (batched l).flushed ++ (batched l).pending = l :=
  List.take_append_drop ..

theorem length_batched_pending (l : List (Key × Value)) :
    (batched l).pending.length = l.length % 128 := by
  rw [batched, List.length_drop, limitValueBufferEntry]
  omega

/-- One more put: either it fills the batch or it stays. -/
theorem splitStep_batched (l : List (Key × Value)) (k : Key) (v : Value) (out : Outside) :
    splitStep (batched l) (.put k v out) = batched (l ++ [(k, v)]) := by
  have hpending := length_batched_pending l
  have hmod := Nat.mod_lt l.length (show 0 < 128 by decide)
  have hall := batched_append l
  rw [splitStep, limitValueBufferEntry]
  by_cases hfull : (batched l).pending.length + 1 = 128
  · have hcut : (l.length + 1) / 128 * 128 = (l ++ [(k, v)]).length := by
      rw [List.length_append, List.length_singleton]
      omega
    rw [if_pos hfull, ← List.append_assoc, hall, batched, List.length_append,
      List.length_singleton, limitValueBufferEntry, hcut, List.take_length, List.drop_length]
  · have hcut : (l.length + 1) / 128 * 128 = l.length / 128 * 128 := by omega
    have hle : l.length / 128 * 128 ≤ l.length := Nat.div_mul_le_self ..
    rw [if_neg hfull]
    simp only [batched, List.length_append, List.length_singleton, limitValueBufferEntry, hcut]
    rw [List.take_append_of_le_length hle, List.drop_append_of_le_length hle]

/-! ## A redirected put -/

section Put

variable {σ : Type} {K : KvDevice σ} {s : Split} {db db' : DB σ} {k : Key} {v : Value}

/-- No record of a scan is left with any iterator. -/
def Clean (db : DB σ) : Prop := ∀ iterId, db.keys iterId = [] ∧ db.values iterId = []

theorem Clean.sameLists (h : Clean db) (hsame : ∀ iterId, DB.SameLists iterId db db') :
    Clean db' :=
  fun iterId => ⟨(hsame iterId).1.trans (h iterId).1, (hsame iterId).2.trans (h iterId).2⟩

theorem Clean.reset {exec : Device σ} (h : Clean db) (out : Outside) :
    Clean (db.reset exec out).2 := by
  intro iterId
  by_cases hid : iterId = 0
  · subst hid
    have hcmd := DB.sameLists_nvmePassthru exec 0
      { db with
        keys := Function.update db.keys 0 []
        values := Function.update db.values 0 [] }
      { opcode := .kvReset, dataLen := maxBufLen } out.result
    simp only [DB.SameLists, Function.update_self] at hcmd
    exact hcmd
  · have hsame := DB.sameLists_reset exec hid db out
    exact ⟨hsame.1.trans (h iterId).1, hsame.2.trans (h iterId).2⟩

theorem sameLists_put (exec : Device σ) (iterId : Nat) (db : DB σ) (k v : Bytes)
    (out : Outside) : DB.SameLists iterId db (db.put exec k v out).2 := by
  have hbuf : DB.SameLists iterId db (db.buffering k v out).2 := by
    unfold DB.buffering
    by_cases hinit : db.bufferingInfo.isInitRequired = true
    · simp only [if_pos hinit]
      cases out.valueLog with
      | none => exact ⟨rfl, rfl⟩
      | some valueLog => cases out.kvPair <;> exact ⟨rfl, rfl⟩
    · simp only [if_neg hinit]
      exact ⟨rfl, rfl⟩
  have hflush := hbuf.trans (DB.sameLists_flush exec iterId (db.buffering k v out).2 out)
  unfold DB.put
  simp only []
  split
  · exact ⟨hflush.1, hflush.2⟩
  · exact ⟨hbuf.1, hbuf.2⟩

/-- A batch never has more pages than the value log. -/
theorem Stored.offset_le (h : Stored K s db) (hfit : ∀ r ∈ s.pending, Fitting r)
    (hput : Fitting (k, v)) {out : Outside} (hout : Supplied out) :
    (db.buffering k v out).2.bufferingInfo.valueLogOffset ≤ maxValueBufferEntry := by
  have hpages := h.fits hfit hput
  obtain ⟨m, hsim, hholds⟩ := h
  obtain ⟨bip, hbuf, hbip⟩ := hholds.buffered.buffering hholds.room hpages hout.1 hout.2.1
  rw [(hsim.buffering k v out).buffer, hbuf]
  show bip.valueLogOffset ≤ _
  rw [hbip.offset]
  exact hpages

theorem Stored.devPut (h : Stored K s db) (hclean : Clean db)
    (hfit : ∀ r ∈ s.pending, Fitting r) (hput : Fitting (k, v))
    (hcall : DevPut (D := ilsmDev K.exec) Supplied (.buffering k v) db db') :
    Stored K (splitStep s (.put k v .fine)) db' ∧ Clean db' := by
  obtain ⟨out, hout, rfl⟩ := devPut_eq (fun out => h.offset_le hfit hput) (by decide) hcall
  exact ⟨h.put hfit hput hout,
    hclean.sameLists fun iterId => sameLists_put K.exec iterId db k v out⟩

theorem Stored.devIter {iterId iterId' : Nat} (h : Stored K s db) (hclean : Clean db)
    (hcall : DevIter (D := ilsmDev K.exec) Supplied .createIter iterId db iterId' db') :
    Stored K ⟨s.flushed ++ s.pending, []⟩ db' ∧ Clean db' := by
  have hoffset : db.bufferingInfo.valueLogOffset ≤ maxValueBufferEntry := by
    rw [h.buffered.offset]
    obtain ⟨m, _, hholds⟩ := h
    exact hholds.fits
  obtain rfl := devIter_eq hoffset (by decide) hcall
  exact ⟨h.createIter iterId .fine,
    hclean.sameLists fun id => DB.sameLists_createIter K.exec id db iterId .fine⟩

end Put

/-! ## The scan of a pass -/

section Scan

variable {σ : Type} {K : KvDevice σ} {s : Split} {iterId : Nat}

/-- Each key of the list once, with its last value. -/
structure LastOf (rs l : List (Key × Value)) : Prop where
  mem : ∀ r, r ∈ rs ↔ lastPut l r.1 = some r.2
  once : (rs.map Prod.fst).Nodup

/-- A scan of a device that holds these puts hands the host a list with `P`. -/
def KvDevice.Delivers (K : KvDevice σ) (l : List (Key × Value)) (P : List Record → Prop) :
    Prop :=
  ∀ d iterId, (K.mem d).map = lastPut l → ∃ bs, Serves K.exec iterId 0 bs d ∧ P (DB.handed bs)

section Delivers

variable {l : List (Key × Value)} (hne : l ≠ []) (hfit : ∀ r ∈ l, Fitting r)

include hne hfit

theorem KvDevice.delivers (K : KvDevice σ) : K.Delivers l fun _ => True := by
  intro d iterId hmap
  obtain ⟨bs, hserves, _⟩ := K.serves d l iterId hmap hne hfit
  exact ⟨bs, hserves, trivial⟩

theorem KvDevice.Pairs.delivers (h : K.Pairs) : K.Delivers l (LastOf · l) := by
  intro d iterId hmap
  obtain ⟨bs, hserves, henum⟩ := K.serves d l iterId hmap hne hfit
  refine ⟨bs, hserves, ?_⟩
  rw [h d l iterId 0 bs hmap hfit hserves]
  exact ⟨henum.all, henum.once⟩

end Delivers

/-- In the middle of a scan: the other iterators have nothing, and the stores
are as the seek found them. -/
structure Amid (K : KvDevice σ) (s : Split) (iterId : Nat) (db : DB σ) : Prop where
  stored : Stored K s db
  others : ∀ id ≠ iterId, db.keys id = [] ∧ db.values id = []

theorem Amid.nextScan {db : DB σ} (h : Amid K s iterId db) (key value : Bytes) (out : Outside) :
    Amid K s iterId (db.nextScan K.exec iterId key value out).2.2.2 := by
  refine ⟨(persists_stored K s).nextScan (Or.inr rfl) iterId key value out h.stored, ?_⟩
  intro id hid
  have hsame := DB.sameLists_nextScan K.exec (Ne.symm hid) db key value out
  exact ⟨hsame.1.trans (h.others id hid).1, hsame.2.trans (h.others id hid).2⟩

theorem Amid.seekScan {db : DB σ} (h : Amid K s iterId db) (key value : Bytes) (out : Outside) :
    Amid K s iterId (db.seekScan K.exec iterId key value out).2.2.2 := by
  refine ⟨(persists_stored K s).seekScan (Or.inl rfl) iterId key value out h.stored, ?_⟩
  intro id hid
  have hsame := DB.sameLists_seekScan K.exec (Ne.symm hid) db key value out
  exact ⟨hsame.1.trans (h.others id hid).1, hsame.2.trans (h.others id hid).2⟩

/-- What a scan has still to hand out: the front key of the batch with its last
value, and so on, and the batches to come. -/
def handsOut (ks vs : List Bytes) (rest : List (List Record)) : List Record :=
  ks.zip vs.reverse ++ DB.handed rest

theorem handsOut_batch {b : List Record} {k v : Bytes} {ks vs : List Bytes}
    (hks : b.map Prod.fst = k :: ks) (hvs : b.map Prod.snd = vs ++ [v])
    (rest : List (List Record)) : DB.handed (b :: rest) = (k, v) :: handsOut ks vs rest := by
  have hcons : DB.handed (b :: rest) =
    (b.map Prod.fst).zip (b.map Prod.snd).reverse ++ DB.handed rest := rfl
  rw [hcons, hks, hvs, List.reverse_append, List.reverse_singleton, List.singleton_append,
    List.zip_cons_cons, List.cons_append]
  rfl

/-- A `NextScan` ends the scan if there is nothing, and otherwise hands out the
first record, from the lists or from another batch. -/
theorem holding_nextScan {exec : Device σ} {db : DB σ} {ks vs : List Bytes}
    {rest : List (List Record)} (h : DB.Holding exec iterId ks vs rest db) (key value : Bytes)
    {out : Outside} (hout : out.data = true) :
    (ks = [] ∧ vs = [] ∧ rest = [] ∧
        db.nextScan exec iterId key value out = (-3, key, value, db.finishOp 4)) ∨
      ∃ k v ks' vs' rest' db', handsOut ks vs rest = (k, v) :: handsOut ks' vs' rest' ∧
        db.nextScan exec iterId key value out = (1, k, v, db') ∧
        DB.Holding exec iterId ks' vs' rest' db' := by
  cases ks with
  | cons k ks =>
      -- Something of the batch is left: its front key and its last value.
      obtain ⟨vs', v, rfl⟩ : ∃ vs' v, vs = vs' ++ [v] := by
        obtain hnil | ⟨vs', v, hvs⟩ := List.eq_nil_or_concat vs
        · have := h.lengths
          rw [hnil] at this
          cases this
        · exact ⟨vs', v, hvs.trans List.concat_eq_append⟩
      obtain ⟨db', hscan, hhold⟩ := h.nextScan key value out
      refine Or.inr ⟨k, v, ks, vs', rest, db', ?_, hscan, hhold⟩
      rw [handsOut, List.reverse_append, List.reverse_singleton, List.singleton_append,
        List.zip_cons_cons, List.cons_append]
      rfl
  | nil =>
      have hvs : vs = [] := List.eq_nil_of_length_eq_zero h.lengths.symm
      subst hvs
      cases rest with
      | nil => exact Or.inl ⟨rfl, rfl, rfl, h.nextScan_end key value out⟩
      | cons b rest =>
          obtain ⟨k, v, ks, vs, db', hks, hvs, hscan, hhold⟩ := h.nextScan_refill key value hout
          exact Or.inr ⟨k, v, ks, vs, rest, db', handsOut_batch hks hvs rest, hscan, hhold⟩

theorem hands_driver : ∀ (rs : List Record) {db : DB σ} {ks vs : List Bytes}
    {rest : List (List Record)}, DB.Holding K.exec iterId ks vs rest db → Amid K s iterId db →
    rs = handsOut ks vs rest →
    Hands (D := ilsmDev K.exec) Supplied (fun db => Stored K s db ∧ Clean db) iterId rs db := by
  intro rs
  induction rs with
  | nil =>
      intro db ks vs rest hhold hamid hrs
      refine Hands.nil fun out key value hout => ?_
      rcases holding_nextScan hhold key value hout.2.2 with
        ⟨rfl, rfl, rfl, hscan⟩ | ⟨k, v, ks', vs', rest', db', hcons, _⟩
      · refine ⟨_, _, _, hscan, hamid.stored.congr rfl rfl, fun id => ?_⟩
        by_cases hid : id = iterId
        · subst hid
          exact ⟨hhold.keys, hhold.values⟩
        · exact hamid.others id hid
      · rw [← hrs] at hcons
        cases hcons
  | cons r rs ih =>
      intro db ks vs rest hhold hamid hrs
      refine Hands.cons fun out key value hout => ?_
      have hnext := hamid.nextScan key value out
      rcases holding_nextScan hhold key value hout.2.2 with
        ⟨rfl, rfl, rfl, _⟩ | ⟨k, v, ks', vs', rest', db', hcons, hscan, hhold'⟩
      · cases hrs
      · rw [hscan] at hnext
        obtain ⟨rfl, htail⟩ := List.cons.inj (hrs.trans hcons)
        exact ⟨db', hscan, ih hhold' hnext htail⟩

/-- A pass over stores that hold `l` on the device is handed what the scan of it
delivers. -/
theorem starts_driver {l : List (Key × Value)} {P : List Record → Prop} {db : DB σ}
    (h : Stored K ⟨l, []⟩ db) (hclean : Clean db) (hscan : K.Delivers l P) :
    Starts (D := ilsmDev K.exec) Supplied (fun db => Stored K ⟨l, []⟩ db ∧ Clean db) P iterId
      db := by
  refine Starts.intro fun out value hout => ?_
  obtain ⟨bs, hserves, hP⟩ := hscan db.device iterId h.map
  cases bs with
  | nil => exact hserves.elim
  | cons b rest =>
      have hamid : Amid K ⟨l, []⟩ iterId db := ⟨h, fun id _ => hclean id⟩
      have hseek := hamid.seekScan startKey value out
      have hserves : Serves K.exec iterId
          (if startKey ≠ startKey then word (firstFour startKey) else 0) (b :: rest) db.device := by
        rw [if_neg (by simp)]
        exact hserves
      obtain ⟨k, v, ks, vs, db', hks, hvs, hscan, hhold⟩ :=
        DB.seekScan_spec (hclean iterId).1 (hclean iterId).2 hserves value hout.2.2
      rw [handsOut_batch hks hvs] at hP
      rw [hscan] at hseek
      exact ⟨(k, v), handsOut ks vs rest, db', hP, hscan, hands_driver _ hhold hseek rfl⟩

end Scan

/-! ## Between two sections -/

section Rest

variable {σ : Type} {K : KvDevice σ} {murmur : Murmur} {F : Prop} {l : List (Key × Value)}
  {P : List Record → Prop} {g g' : Guarded (ilsmDev K.exec)} {ws : List (Key × Value)}
  {b : Body (ilsmDev K.exec)}

/-- The driver holds the puts of `l`, of which there are some under
`kache_flag`, and no pass is under way. -/
structure AtRest (K : KvDevice σ) (l : List (Key × Value)) (g : Guarded (ilsmDev K.exec)) :
    Prop where
  stored : Stored K (batched l) g.dev
  clean : Clean g.dev
  fitting : ∀ r ∈ l, Fitting r
  some : g.kacheFlag = 1 → l ≠ []
  calm : g.rollbackFlag = 0

/-- What a section writes to Main-LSM, and does to the tracker and `kache_flag`,
if a scan hands out a list with `P`. -/
def Does (murmur : Murmur) (P : List Record → Prop) {D : DevLsm} (g : Guarded D)
    (ws : List (Key × Value)) (g' : Guarded D) : Purpose → Prop
  | .withRollback k v => ws = [(k, v)] ∧ g'.kacheFlag = g.kacheFlag ∧
      g'.keyTracker = takenBack murmur g.keyTracker k
  | .redirected k _ => ws = [] ∧ g'.kacheFlag = 1 ∧
      g'.keyTracker = g.keyTracker.insert (doubleHash murmur k 1) k
  | .pass _ => ∃ rs, P rs ∧ ws = (migrated murmur rs g.keyTracker).1 ∧
      g'.kacheFlag = 0 ∧ g'.keyTracker = (migrated murmur rs g.keyTracker).2.clear

/-- The scan of a pass, whatever iterator it gets. -/
theorem AtRest.starts (h : AtRest K l g) (hscan : K.Delivers l P) {iterId id : Nat} {st : DB σ}
    (hcall : DevIter (D := ilsmDev K.exec) Supplied .createIter iterId g.dev id st) :
    Starts (D := ilsmDev K.exec) Supplied (fun db => Stored K ⟨l, []⟩ db ∧ Clean db) P id
      st := by
  obtain ⟨hstored, hclean⟩ := h.stored.devIter h.clean hcall
  rw [batched_append] at hstored
  exact starts_driver hstored hclean hscan

theorem AtRest.critical {p : Purpose} (h : AtRest K l g) (hscan : l ≠ [] → K.Delivers l P)
    (hput : ∀ k v, p = .redirected k v → Fitting (k, v)) (hbegins : p.Begins murmur F g)
    (halone : Alone murmur Supplied p.body g ws b g') (hout : b.inside = false) :
    AtRest K (p.leaves l) g' ∧ Does murmur P g ws g' p := by
  cases p with
  | withRollback k v =>
      obtain ⟨rfl, rfl⟩ := alone_withRollback halone hout
      exact ⟨⟨h.stored, h.clean, h.fitting, h.some, h.calm⟩, rfl, rfl, rfl⟩
  | redirected k v =>
      obtain ⟨rfl, st, hcall, rfl⟩ := alone_redirected halone hout
      have hpending : ∀ r ∈ (batched l).pending, Fitting r :=
        fun r hr => h.fitting r (List.mem_of_mem_drop hr)
      obtain ⟨hstored, hclean⟩ := h.stored.devPut h.clean hpending (hput k v rfl) hcall
      rw [splitStep_batched] at hstored
      refine ⟨⟨hstored, hclean, ?_, fun _ => by simp [Purpose.leaves], h.calm⟩, rfl, rfl, rfl⟩
      intro r hr
      rcases List.mem_append.mp hr with hr | hr
      · exact h.fitting r hr
      · rw [List.mem_singleton.mp hr]
        exact hput k v rfl
  | pass iter =>
      have hscan := hscan (h.some hbegins.2)
      obtain ⟨rs, hrs, rfl, out, st, _, ⟨hstored, hclean⟩, rfl⟩ :=
        alone_pass halone hout (by rw [hbegins.1]; decide) fun id st hcall => h.starts hscan hcall
      refine ⟨⟨?_, hclean.reset out, by simp [Purpose.leaves], (fun hone => by cases hone),
        rfl⟩, rs, hrs, rfl, rfl, rfl⟩
      show Stored K (batched []) _
      rw [batched_nil]
      exact hstored.reset out

end Rest

end Kvaccel.Spec
