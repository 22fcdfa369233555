import Kvaccel.Proofs.IteratorReads
import Kvaccel.Proofs.KvRest
import Kvaccel.Spec.OrderedDevice

/-!
# The composite iterator over the driver

What the composite iterator does over a sorted table is known. Here it runs
over the driver and the bytes of its replies, in whatever state any number of
threads have left it. The two iterators go in step: they show the same record,
and what the host has taken from a reply and not handed out, with what the
device has still to send, is what the table has left.

The iterator looks at the driver through `NextScan` and the noted record only,
so it is enough that these go in step (`ScanSim`), whatever the driver.

Over the table it may skip records of either store, and at the end of the scan
it stays on an empty record. Nothing else can go wrong: both cursors only move
on, so what it shows is drawn from the two stores (`Drawn`).
-/

namespace Kvaccel.Spec

open Kvaccel.Lib Kvaccel.Ref

/-! ## Two drivers in step -/

theorem bind_eq_of_rel {α β γ : Type} {r : α → β → Prop} {a : Option α} {b : Option β}
    {f : α → Option γ} {g : β → Option γ} (h : Option.Rel r a b)
    (hfg : ∀ x y, r x y → f x = g y) : a.bind f = b.bind g := by
  cases h with
  | none => rfl
  | some hxy => exact hfg _ _ hxy

section Simulation

variable {D D' : ScanLsm} {E : D.Env → Prop} {R : D.St → Nat → D'.St → Nat → Prop}

/-- `R` relates a driver and an iterator id of it to another driver and an id of
that, and the calls of `IteratorNext` keep it. -/
structure ScanSim (D D' : ScanLsm) (E : D.Env → Prop) (R : D.St → Nat → D'.St → Nat → Prop) :
    Prop where
  next : ∀ {st id st' id'} env env', E env → R st id st' id' →
    ∃ flag flag' k v t t', D.nextScan env id [] [] st = (flag, k, v, t) ∧
      D'.nextScan env' id' [] [] st' = (flag', k, v, t') ∧ R t id t' id'
  note : ∀ {st id st' id'} k v, R st id st' id' →
    R (D.noteIter id k v st) id (D'.noteIter id' k v st') id'

/-- The iterators show the same and go in step. -/
structure Alike (R : D.St → Nat → D'.St → Nat → Prop) (s : MasterIter D) (s' : MasterIter D') :
    Prop where
  flag : s.kacheFlag = s'.kacheFlag
  iter : s.iter = s'.iter
  location : s.iterLocation = s'.iterLocation
  key : D.iterKeys s.ilsm s.ilsmIterId = D'.iterKeys s'.ilsm s'.ilsmIterId
  value : D.iterValues s.ilsm s.ilsmIterId = D'.iterValues s'.ilsm s'.ilsmIterId
  scan : R s.ilsm s.ilsmIterId s'.ilsm s'.ilsmIterId

variable {s : MasterIter D} {s' : MasterIter D'}

theorem Alike.read (h : Alike R s s') : s.read = s'.read := by
  simp only [MasterIter.read, MasterIter.iteratorKey, MasterIter.iteratorValue, h.location, h.iter,
    h.key, h.value]

theorem Alike.advanceDev (hsim : ScanSim D D' E R) (h : Alike R s s') {env : D.Env} (env' : D'.Env)
    (henv : E env) : Alike R (s.advanceDev env) (s'.advanceDev env') := by
  obtain ⟨flag, flag', k, v, t, t', hnext, hnext', hR⟩ := hsim.next env env' henv h.scan
  simp only [MasterIter.advanceDev, hnext, hnext']
  refine ⟨h.flag, h.iter, h.location, ?_, ?_, hsim.note k v hR⟩
  · rw [D.iterKeys_noteIter, D'.iterKeys_noteIter]
  · rw [D.iterValues_noteIter, D'.iterValues_noteIter]

/-- Both steps are undefined or both lead on. -/
theorem Alike.iteratorNext (hsim : ScanSim D D' E R) (h : Alike R s s') {env : D.Env}
    (env' : D'.Env) (henv : E env) :
    Option.Rel (Alike R) (s.iteratorNext env) (s'.iteratorNext env') := by
  by_cases hzero : s.kacheFlag = 0
  · have hzero' : s'.kacheFlag = 0 := h.flag.symm.trans hzero
    simp only [MasterIter.iteratorNext, if_pos hzero, if_pos hzero', ← h.iter]
    refine .some ?_
    split
    · exact ⟨h.flag, rfl, h.location, h.key, h.value, h.scan⟩
    · exact h
  · have hzero' : ¬ s'.kacheFlag = 0 := fun heq => hzero (h.flag.trans heq)
    simp only [MasterIter.iteratorNext, if_neg hzero, if_neg hzero', ← h.location, ← h.iter]
    split
    · -- Main-LSM moves, and the noted record is compared with its new one.
      rw [← h.key]
      cases s.iter.next.key with
      | none => exact .none
      | some mainKey =>
          refine .some ?_
          dsimp only
          split
          · have hmain : Alike R { s with iter := s.iter.next }
                { s' with iter := s.iter.next } :=
              ⟨h.flag, rfl, h.location, h.key, h.value, h.scan⟩
            have hdev := hmain.advanceDev hsim env' henv
            exact ⟨hdev.flag, hdev.iter, rfl, hdev.key, hdev.value, hdev.scan⟩
          · exact ⟨h.flag, rfl, rfl, h.key, h.value, h.scan⟩
    · split
      · have hdev := h.advanceDev hsim env' henv
        rw [← hdev.iter, ← hdev.key]
        cases (s.advanceDev env).iter.key with
        | none => exact .none
        | some mainKey =>
            refine .some ?_
            dsimp only
            split
            · exact ⟨hdev.flag, rfl, rfl, hdev.key, hdev.value, hdev.scan⟩
            · exact hdev
      · exact .some h

theorem Alike.walk (hsim : ScanSim D D' E R) {envs : Nat → D.Env} (henvs : ∀ i, E (envs i))
    (envs' : Nat → D'.Env) (n : Nat) : ∀ {s : MasterIter D} {s' : MasterIter D'}, Alike R s s' →
    s.walk envs n = s'.walk envs' n := by
  induction n with
  | zero =>
      intro s s' h
      simp only [MasterIter.walk, h.read]
  | succ n ih =>
      intro s s' h
      have hnext := h.iteratorNext hsim (envs' n) (henvs n)
      simp only [MasterIter.walk, h.read]
      congr 1
      funext r
      refine bind_eq_of_rel hnext fun t t' ht => ?_
      rw [ih ht]

end Simulation

/-! ## The driver and a table -/

section Driver

variable {σ : Type}

/-- The host and the device have left for the iterator what the table has. -/
def InStep (exec : Device σ) (db : DB σ) (id : Nat) (st : SortedSt) (id' : Nat) : Prop :=
  ∃ ks vs rest, DB.Holding exec id ks vs rest db ∧ st.cursor id' = handsOut ks vs rest

theorem scanSim_driver (exec : Device σ) :
    ScanSim (ilsmScan exec) sortedLsm (fun out : Outside => out.data = true) (InStep exec) where
  next := by
    rintro db id st id' out env' hout ⟨ks, vs, rest, hhold, hcur⟩
    rcases holding_nextScan hhold [] [] hout with
      ⟨rfl, rfl, rfl, hscan⟩ | ⟨k, v, ks', vs', rest', db', hcons, hscan, hhold'⟩
    · obtain ⟨flag, st', hnext, hcur'⟩ := sortedScan.ended env' id' [] [] st hcur
      exact ⟨_, flag, [], [], _, st', hscan, hnext, [], [], [], hhold.finishOp 4, hcur'⟩
    · obtain ⟨flag, st', hnext, hcur'⟩ := sortedScan.next env' id' [] [] st (k, v)
        (handsOut ks' vs' rest') (hcur.trans hcons)
      exact ⟨_, flag, k, v, db', st', hscan, hnext, ks', vs', rest', hhold', hcur'⟩
  note := by
    rintro db id st id' k v ⟨ks, vs, rest, hhold, hcur⟩
    exact ⟨ks, vs, rest, hhold.noteIter k v, hcur⟩

variable {O : OrderedDevice σ} {l table main : List (Key × Value)} {key : Key}
  {s : MasterIter (ilsmScan O.exec)} {s' : MasterIter sortedLsm} {out out' : Outside}

/-- After `IteratorReset` and `IteratorSeek` they go in step. -/
theorem alike_seek (hpairs : O.Pairs) (hstored : Stored O.toKvDevice (batched l) s.ilsm)
    (hclean : Clean s.ilsm) (hfit : ∀ r ∈ l, Fitting r)
    (hlists : Lists (lastPut l) table) (hkey : key.length = 4)
    (hne : fromKey Before key table ≠ []) (hflag : s.kacheFlag = 1) (hflag' : s'.kacheFlag = 1)
    (hrecords : s'.ilsm.records = table) (hout' : out'.data = true) :
    Option.Rel (Alike (InStep O.exec)) ((s.iteratorReset out main).iteratorSeek out' key)
      ((s'.iteratorReset () main).iteratorSeek () key) := by
  have hstored₁ := hstored.createIter s.ilsmIterId out
  rw [batched_append] at hstored₁
  have hclean₁ := hclean.sameLists fun id =>
    DB.sameLists_createIter O.exec id s.ilsm s.ilsmIterId out
  obtain ⟨bs, hserves, hflatten⟩ := O.servesFrom _ l table
    (s.ilsm.createIter O.exec s.ilsmIterId out).2.1 key hstored₁.map hfit hlists hkey hne
  have hhanded : DB.handed bs = fromKey Before key table :=
    (hpairs _ l _ _ bs hstored₁.map hfit hserves).trans hflatten
  cases bs with
  | nil => exact hserves.elim
  | cons b rest =>
      have hstart : key ≠ startKey := by
        rintro rfl
        cases hkey
      have hserves₁ : Serves O.exec (s.ilsm.createIter O.exec s.ilsmIterId out).2.1
          (if key ≠ startKey then word (firstFour key) else 0) (b :: rest)
          (s.ilsm.createIter O.exec s.ilsmIterId out).2.2.device := by
        rw [if_pos hstart, firstFour_eq_self hkey]
        exact hserves
      obtain ⟨k, v, ks, vs, db, hks, hvs, hscan, hhold⟩ :=
        DB.seekScan_spec (hclean₁ _).1 (hclean₁ _).2 hserves₁ [] hout'
      rw [handsOut_batch hks hvs, ← hrecords] at hhanded
      rw [seek_eq (D := ilsmScan O.exec) out out' hflag main key rfl hscan,
        seek_eq () () hflag' main key rfl (sortedLsm_seekScan hhanded.symm)]
      cases (fromKey Before key main).head? with
      | none => exact .none
      | some e =>
          refine .some ⟨hflag.trans hflag'.symm, rfl, rfl, ?_, ?_, ks, vs, rest, ?_, ?_⟩
          · exact ((ilsmScan O.exec).iterKeys_noteIter ..).trans
              (sortedLsm.iterKeys_noteIter ..).symm
          · exact ((ilsmScan O.exec).iterValues_noteIter ..).trans
              (sortedLsm.iterValues_noteIter ..).symm
          · exact hhold.noteIter k v
          · exact Function.update_self ..

/-- So over the driver it reads what it reads over the table. -/
theorem scanFrom_driver (hpairs : O.Pairs) (hstored : Stored O.toKvDevice (batched l) s.ilsm)
    (hclean : Clean s.ilsm) (hfit : ∀ r ∈ l, Fitting r)
    (hlists : Lists (lastPut l) table) (hkey : key.length = 4)
    (hne : fromKey Before key table ≠ []) (hflag : s.kacheFlag = 1) {outs : Nat → Outside}
    (houts : ∀ i, (outs i).data = true) (main : List (Key × Value)) (n : Nat) :
    s.scanFrom main key outs n = (iterOf table).scanFrom main key (fun _ => ()) n := by
  refine bind_eq_of_rel
    (alike_seek hpairs hstored hclean hfit hlists hkey hne hflag rfl rfl (houts n))
    fun t t' halike => ?_
  exact halike.walk (scanSim_driver O.exec) houts (fun _ => ()) n

end Driver

/-! ## What it shows

Main-LSM's iterator and the scan only ever move on, and each read is where one
of them stands. -/

section Drawn

variable {D : ScanLsm} {scan : SortedScan D} {s s' : MasterIter D}
  {main dev es ds reads : List (Key × Value)} {r : Key × Value} {env : D.Env}

theorem Drawn.mono (h : Drawn es ds reads) (hmain : es.Sublist main) (hdev : ds.Sublist dev) :
    Drawn main dev reads := by
  obtain ⟨drawn, n, hreads, hes, hds⟩ := h
  exact ⟨drawn, n, hreads, hes.trans hmain, hds.trans hdev⟩

theorem Drawn.consMain (h : Drawn es ds reads) : Drawn (r :: es) ds (r :: reads) := by
  obtain ⟨drawn, n, hreads, hes, hds⟩ := h
  refine ⟨(.main, r) :: drawn, n, ?_, ?_, ?_⟩
  · rw [hreads]
    rfl
  · simpa [drawnFrom] using hes
  · simpa [drawnFrom] using hds

theorem Drawn.consDev (h : Drawn es ds reads) : Drawn es (r :: ds) (r :: reads) := by
  obtain ⟨drawn, n, hreads, hes, hds⟩ := h
  refine ⟨(.dev, r) :: drawn, n, ?_, ?_, ?_⟩
  · rw [hreads]
    rfl
  · simpa [drawnFrom] using hes
  · simpa [drawnFrom] using hds

theorem drawn_ended (main dev : List (Key × Value)) (n : Nat) :
    Drawn main dev (List.replicate n ([], [])) :=
  ⟨[], n, rfl, List.nil_sublist main, List.nil_sublist dev⟩

theorem Ahead.next_main (h : Ahead scan s .main (r :: es) ds)
    (hnext : s.iteratorNext env = some s') :
    Ahead scan s' .main es ds ∨ Ahead scan s' .dev es ds.tail := by
  cases es with
  | nil =>
      rw [h.main_last env] at hnext
      cases hnext
  | cons e es =>
      obtain ⟨t, ht, hahead⟩ := h.main_next env
      cases ht.symm.trans hnext
      split at hahead
      · exact Or.inr hahead
      · exact Or.inl hahead

/-- At the end of the scan the sides do not change: no key is before the empty
one. -/
theorem Ahead.next_dev (h : Ahead scan s .dev es ds) (hnext : s.iteratorNext env = some s') :
    (Ahead scan s' .main es.tail ds.tail ∧ ds.tail ≠ []) ∨ Ahead scan s' .dev es ds.tail := by
  cases es with
  | nil =>
      rw [h.dev_last env] at hnext
      cases hnext
  | cons e es =>
      obtain ⟨t, ht, hahead⟩ := h.dev_next env
      cases ht.symm.trans hnext
      split at hahead
      · rename_i hbefore
        refine Or.inl ⟨hahead, fun hnil => ?_⟩
        rw [hnil] at hbefore
        exact not_before_nil e.1 hbefore
      · exact Or.inr hahead

theorem walk_succ_eq_some {envs : Nat → D.Env} {n : Nat} (h : s.walk envs (n + 1) = some reads) :
    ∃ r s' rs, s.read = some r ∧ s.iteratorNext (envs n) = some s' ∧ s'.walk envs n = some rs ∧
      reads = r :: rs := by
  rw [MasterIter.walk, Option.bind_eq_some_iff] at h
  obtain ⟨r, hread, h⟩ := h
  obtain ⟨s', hnext, h⟩ := Option.bind_eq_some_iff.mp h
  obtain ⟨rs, hwalk, rfl⟩ := Option.map_eq_some_iff.mp h
  exact ⟨r, s', rs, hread, hnext, hwalk, rfl⟩

/-- Past the end of the scan the iterator stays where it is, whatever Main-LSM
has left. -/
theorem Ahead.walk_ended {envs : Nat → D.Env} (n : Nat) : ∀ {s : MasterIter D} {reads},
    Ahead scan s .dev es [] → s.walk envs n = some reads →
    reads = List.replicate (n + 1) ([], []) := by
  induction n with
  | zero =>
      intro s reads h hwalk
      rw [MasterIter.walk, h.read_dev] at hwalk
      cases hwalk
      rfl
  | succ n ih =>
      intro s reads h hwalk
      obtain ⟨r, s', rs, hread, hnext, hrest, rfl⟩ := walk_succ_eq_some hwalk
      rw [h.read_dev] at hread
      cases hread
      rcases h.next_dev hnext with ⟨_, hne⟩ | hdev
      · exact absurd rfl hne
      · rw [ih hdev hrest]
        rfl

theorem Ahead.walk {envs : Nat → D.Env} (n : Nat) : ∀ {s : MasterIter D} {side es ds reads},
    Ahead scan s side es ds → s.walk envs n = some reads → Drawn es ds reads := by
  induction n with
  | zero =>
      intro s side es ds reads h hwalk
      obtain ⟨r, hread, rfl⟩ := Option.map_eq_some_iff.mp hwalk
      cases side with
      | main =>
          obtain ⟨es', rfl⟩ := List.head?_eq_some_iff.mp (h.read_main.symm.trans hread)
          exact (drawn_ended es' ds 0).consMain
      | dev =>
          rw [h.read_dev] at hread
          cases hread
          cases ds with
          | nil => exact drawn_ended es [] 1
          | cons d ds => exact (drawn_ended es ds 0).consDev
  | succ n ih =>
      intro s side es ds reads h hwalk
      obtain ⟨r, s', rs, hread, hnext, hrest, rfl⟩ := walk_succ_eq_some hwalk
      cases side with
      | main =>
          obtain ⟨es', rfl⟩ := List.head?_eq_some_iff.mp (h.read_main.symm.trans hread)
          rcases h.next_main hnext with hstay | hchange
          · exact (ih hstay hrest).consMain
          · exact ((ih hchange hrest).mono (List.Sublist.refl _) (List.tail_sublist ds)).consMain
      | dev =>
          cases ds with
          | nil =>
              rw [h.walk_ended (n + 1) hwalk]
              exact drawn_ended es [] _
          | cons d ds =>
              rw [h.read_dev] at hread
              cases hread
              rcases h.next_dev hnext with ⟨hchange, _⟩ | hstay
              · exact ((ih hchange hrest).mono (List.tail_sublist es) (List.Sublist.refl _)).consDev
              · exact (ih hstay hrest).consDev

theorem drawn_scanFrom (scan : SortedScan D) {k : Key} {envs : Nat → D.Env} {n : Nat}
    (hflag : s.kacheFlag = 1) (hk : k.length = 4) (hrecords : scan.records s.ilsm = dev)
    (hdev : fromKey Before k dev ≠ []) (h : s.scanFrom main k envs n = some reads) :
    Drawn (fromKey Before k main) (fromKey Before k dev) reads := by
  obtain ⟨s', hseek, hwalk⟩ := Option.bind_eq_some_iff.mp h
  by_cases hmain : fromKey Before k main = []
  · -- `key()` of a Main-LSM iterator that is not valid
    simp [MasterIter.iteratorReset, MasterIter.iteratorSeek, hflag, MainIter.seek, MainIter.new,
      MainIter.key, hmain] at hseek
  · obtain ⟨t, ht, hat⟩ := at_seek scan (envs (n + 1)) (envs n) hflag hk hmain hrecords hdev
    cases ht.symm.trans hseek
    have hahead : Ahead scan s' _ (lefts (rowsFrom k main dev)) (rights (rowsFrom k main dev)) :=
      ⟨hat.flag, hat.location, hat.main, hat.key, hat.value, hat.pending⟩
    rw [rowsFrom, lefts_join, rights_join] at hahead
    exact hahead.walk n hwalk

end Drawn

/-! ## After a run -/

/-! Three puts are redirected, two of them to one key, and nothing has been moved. -/

def redirecting : List (Act Bool (ilsmDev orderedDevice.exec)) := List.flatten [
  [.rollback .fine (.high, 10)],
  [.callPut true [48, 48, 48, 51] [3]], List.replicate 7 (.client true .fine),
  [.callPut false [48, 48, 48, 49] [1]], List.replicate 7 (.client false .fine),
  [.callPut true [48, 48, 48, 49] [2]], List.replicate 7 (.client true .fine)]

def beforeRedirecting : State Bool (ilsmDev orderedDevice.exec) :=
  State.opened (fun _ => none) (DB.opened ListDevice.empty)

def afterRedirecting : State Bool (ilsmDev orderedDevice.exec) :=
  replay (State.step murmurHash3) beforeRedirecting redirecting

def redirectingTrace :
    List (State Bool (ilsmDev orderedDevice.exec) × Act Bool (ilsmDev orderedDevice.exec)) :=
  replayTrace (State.step murmurHash3) beforeRedirecting redirecting []

theorem run_redirecting : Run (State.step murmurHash3) (Carried orderedDevice.toKvDevice)
    (State.opened (fun _ => none) (DB.opened ListDevice.empty)) redirectingTrace
    afterRedirecting := by
  have hcarries : ∀ e ∈ redirectingTrace, carries e.2 = true := by
    decide +kernel
  exact Run.start.replay redirecting fun e he => (carried_iff e.1 e.2).mpr (hcarries e he)

theorem outstanding_redirecting :
    outstanding (redirectingTrace.reverse.filterMap entered) =
      [([48, 48, 48, 51], [3]), ([48, 48, 48, 49], [1]), ([48, 48, 48, 49], [2])] := by
  decide +kernel

theorem lists_redirecting :
    Lists (lastPut (outstanding (redirectingTrace.reverse.filterMap entered)))
      [([48, 48, 48, 49], [2]), ([48, 48, 48, 51], [3])] := by
  rw [outstanding_redirecting]
  exact ListDevice.lists_sortedRecords (by decide)

section Runs

variable {T σ : Type} [DecidableEq T] {O : OrderedDevice σ} {murmur : Murmur}
  {main : Key → Option Value} {device : σ}
  {tr : List (State T (ilsmDev O.exec) × Act T (ilsmDev O.exec))} {s : State T (ilsmDev O.exec)}

end Runs

end Kvaccel.Spec
