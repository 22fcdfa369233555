import Kvaccel.Proofs.ScanOrder
import Kvaccel.Spec.Scans
import Mathlib.Data.List.Perm.Subperm

/-!
# Scans on a reused id

A call on one id leaves the lists of the others alone, and a call on the id
itself does two things to them: a reply is added at the end, and a record is
taken, the key at the front and the value at the end. So if both lists are
empty at the seek, the keys returned and the keys still in the list are
together the keys of the replies, in order, and the values are too, in some
order (`Scanning`).

If they are not empty, a device can be given that makes the leftover show: a
key that is left comes out before the keys of the reply, and a value that is
left comes out after its values. `SeekScan` does not empty the lists,
`DestroyIter` empties one of them, and `Reset` those of id 0.
-/

namespace Kvaccel.Ref

open Kvaccel.Lib Kvaccel.Spec

namespace DB

section Frame

variable {σ : Type} (exec : Device σ)

/-! ## The lists of the other ids -/

/-- The lists of `iterId` are the same. -/
def SameLists (iterId : Nat) (db db' : DB σ) : Prop :=
  db'.keys iterId = db.keys iterId ∧ db'.values iterId = db.values iterId

variable {iterId : Nat} {db db' db'' : DB σ}

theorem SameLists.trans (h : SameLists iterId db db') (h' : SameLists iterId db' db'') :
    SameLists iterId db db'' :=
  ⟨h'.1.trans h.1, h'.2.trans h.2⟩

theorem sameLists_nvmePassthru (iterId : Nat) (db : DB σ) (cmd : NvmeCmd) (result : Nat) :
    SameLists iterId db (db.nvmePassthru exec cmd result).2 := by
  obtain ⟨stat, hcmd⟩ := nvmePassthru_eq exec db cmd result
  rw [hcmd]
  exact ⟨rfl, rfl⟩

theorem sameLists_valueFlushLoop (iterId : Nat) (bip : BufferingInfo) (result : Nat) :
    ∀ (fuel i : Nat) (db : DB σ),
      SameLists iterId db (valueFlushLoop exec bip result fuel i db).2 := by
  intro fuel
  induction fuel with
  | zero => intro i db; exact ⟨rfl, rfl⟩
  | succ fuel ih =>
      intro i db
      have hcmd := sameLists_nvmePassthru exec iterId db (valueFlushCmd bip i) result
      rw [valueFlushLoop]
      split
      · simp only []
        split
        · exact hcmd
        · exact hcmd.trans (ih (i + 1) _)
      · exact ⟨rfl, rfl⟩

theorem sameLists_keyValueFlush (iterId : Nat) (db : DB σ) (out : Outside) :
    SameLists iterId db (db.keyValueFlush exec out).2 := by
  have hcmd := sameLists_nvmePassthru exec iterId db (keyValueFlushCmd db.bufferingInfo)
    out.result
  unfold keyValueFlush
  simp only []
  split
  · exact hcmd
  · exact hcmd

theorem sameLists_flush (iterId : Nat) (db : DB σ) (out : Outside) :
    SameLists iterId db (db.flush exec out) := by
  have hvalue := sameLists_valueFlushLoop exec iterId db.bufferingInfo out.result
    db.bufferingInfo.valueLogOffset 0 db
  have hkey := sameLists_keyValueFlush exec iterId (db.valueFlush exec out).2 out
  exact hvalue.trans hkey

theorem sameLists_createIter (iterId : Nat) (db : DB σ) (id : Nat) (out : Outside) :
    SameLists iterId db (db.createIter exec id out).2.2 := by
  unfold createIter
  rw [createIterCmd_db]
  split
  · exact (sameLists_flush exec iterId db out).trans (sameLists_nvmePassthru exec iterId _ _ _)
  · exact sameLists_nvmePassthru exec iterId _ _ _

theorem sameLists_refill {id : Nat} (hid : id ≠ iterId) (db : DB σ) (isSeek : NvmeOpcode)
    (key : Bytes) (out : Outside) :
    SameLists iterId db (db.refill exec isSeek id key out) := by
  obtain ⟨stat, cnt, hrefill⟩ := refill_eq exec id db isSeek key out rfl
  rw [hrefill]
  exact ⟨Function.update_of_ne hid.symm .., Function.update_of_ne hid.symm ..⟩

theorem sameLists_popRecord {id : Nat} (hid : id ≠ iterId) {db db' : DB σ} {k v : Bytes}
    (h : db.popRecord id = some (k, v, db')) : SameLists iterId db db' := by
  unfold popRecord at h
  split at h
  · cases h
  · cases h
    exact ⟨Function.update_of_ne hid.symm .., Function.update_of_ne hid.symm ..⟩

theorem sameLists_seekScan {id : Nat} (hid : id ≠ iterId) (db : DB σ) (key value : Bytes)
    (out : Outside) :
    SameLists iterId db (db.seekScan exec id key value out).2.2.2 := by
  have hrefill := sameLists_refill exec hid
    { db with scanCnt := Function.update db.scanCnt id 1 } .kvRangeScanSeek key out
  unfold seekScan
  simp only []
  split
  · next hpop =>
      have hsame := sameLists_popRecord hid hpop
      exact ⟨hsame.1.trans hrefill.1, hsame.2.trans hrefill.2⟩
  · exact hrefill

theorem sameLists_nextScan {id : Nat} (hid : id ≠ iterId) (db : DB σ) (key value : Bytes)
    (out : Outside) :
    SameLists iterId db (db.nextScan exec id key value out).2.2.2 := by
  have hrefill := sameLists_refill exec hid db .kvRangeScanNext [] out
  unfold nextScan
  split
  · next hpop =>
      have hsame := sameLists_popRecord hid hpop
      exact ⟨hsame.1, hsame.2⟩
  · split
    · exact ⟨rfl, rfl⟩
    · simp only []
      split
      · next hpop =>
          have hsame := hrefill.trans (sameLists_popRecord hid hpop)
          exact ⟨hsame.1, hsame.2⟩
      · exact hrefill

theorem sameLists_destroyIter {id : Nat} (hid : id ≠ iterId) (db : DB σ) (out : Outside) :
    SameLists iterId db (db.destroyIter exec id out).2 := by
  have hcmd := sameLists_nvmePassthru exec iterId db
    { opcode := .kvIterDestroyIter, cdw13 := id } out.result
  unfold destroyIter
  simp only []
  split
  · exact hcmd
  · split
    · exact hcmd
    · exact ⟨hcmd.1, (Function.update_of_ne hid.symm ..).trans hcmd.2⟩

theorem sameLists_reset (hid : iterId ≠ 0) (db : DB σ) (out : Outside) :
    SameLists iterId db (db.reset exec out).2 := by
  have hcmd := sameLists_nvmePassthru exec iterId
    { db with
      keys := Function.update db.keys 0 []
      values := Function.update db.values 0 [] }
    { opcode := .kvReset, dataLen := maxBufLen } out.result
  exact .trans ⟨Function.update_of_ne hid .., Function.update_of_ne hid ..⟩ hcmd

end Frame

/-! ## The lists of a scan -/

section Scan

variable {σ : Type} (exec : Device σ) {iterId : Nat} {db : DB σ} {rs : List Record}
  {ks vs : List Bytes}

/-- Of the replies' keys `ks` and values `vs`, the records `rs` have been
returned and the rest is in the lists. -/
structure Scanning (iterId : Nat) (rs : List Record) (ks vs : List Bytes) (db : DB σ) :
    Prop where
  keys : rs.map Prod.fst ++ db.keys iterId = ks
  values : (rs.map Prod.snd ++ db.values iterId).Perm vs
  lengths : (db.values iterId).length ≤ (db.keys iterId).length

theorem Scanning.of_same {db' : DB σ} (h : Scanning iterId rs ks vs db)
    (hsame : SameLists iterId db db') : Scanning iterId rs ks vs db' := by
  obtain ⟨hkeys, hvalues, hlengths⟩ := h
  rw [← hsame.1] at hkeys hlengths
  rw [← hsame.2] at hvalues hlengths
  exact ⟨hkeys, hvalues, hlengths⟩

theorem length_valueLoop (data : Mem) : ∀ (lens : List Nat) (temp : Nat),
    (valueLoop data lens temp).length = lens.length := by
  intro lens
  induction lens with
  | nil => intro temp; rfl
  | cons len lens ih => intro temp; exact congrArg (· + 1) (ih _)

/-- A reply never has more values than keys. -/
theorem length_fetched (io : IoResult) (out : Outside) :
    (fetched io out).2.length ≤ (fetched io out).1.length := by
  unfold fetched
  split
  · unfold decodeReply
    simp only []
    split
    · rw [length_valueLoop, List.length_map, List.length_map]
    · exact Nat.zero_le _
  · exact Nat.le_refl _

theorem Scanning.refill (h : Scanning iterId rs ks vs db) (isSeek : NvmeOpcode) (key : Bytes)
    (out : Outside) {io : IoResult}
    (hio : io = scanIo exec iterId db isSeek (scanStart iterId db isSeek key)) :
    Scanning iterId rs (ks ++ (fetched io out).1) (vs ++ (fetched io out).2)
      (db.refill exec isSeek iterId key out) := by
  obtain ⟨stat, cnt, hrefill⟩ := refill_eq exec iterId db isSeek key out hio
  have hlen := length_fetched io out
  have hle := h.lengths
  rw [hrefill]
  refine ⟨?_, ?_, ?_⟩
  · simp only [Function.update_self]
    rw [← List.append_assoc, h.keys]
  · simp only [Function.update_self]
    rw [← List.append_assoc]
    exact h.values.append_right _
  · simp only [Function.update_self, List.length_append]
    omega

theorem Scanning.popRecord {db' : DB σ} {k v : Bytes} (h : Scanning iterId rs ks vs db)
    (hpop : db.popRecord iterId = some (k, v, db')) :
    Scanning iterId (rs ++ [(k, v)]) ks vs db' := by
  unfold DB.popRecord at hpop
  split at hpop
  · cases hpop
  · next value hlast =>
      obtain ⟨ws, hws⟩ := List.getLast?_eq_some_iff.mp hlast
      obtain ⟨hkeys, hvalues, hlengths⟩ := h
      cases hpop
      rw [hws] at hvalues hlengths
      -- There are at least as many keys, so there is one.
      cases hlist : db.keys iterId with
      | nil => simp [hlist] at hlengths
      | cons k' ks' =>
          rw [hlist] at hkeys hlengths
          refine ⟨?_, ?_, ?_⟩
          · simpa [hlist] using hkeys
          · simp only [Function.update_self, hws, List.dropLast_concat, List.map_append,
              List.map_singleton]
            refine List.Perm.trans ?_ hvalues
            rw [List.append_assoc]
            exact List.perm_append_comm.append_left _
          · simpa [hlist, hws] using hlengths

/-! ## The calls of a scan -/

theorem Scanning.seekScan (h : Scanning iterId rs ks vs db) (key value : Bytes)
    (out : Outside) :
    let c := ScanCall.seekScan iterId key value out
    Scanning iterId (rs ++ returned exec iterId db c)
      (ks ++ (replied exec iterId db c).1) (vs ++ (replied exec iterId db c).2)
      (scanCall exec db c) := by
  have hseek : Scanning iterId rs ks vs
      { db with scanCnt := Function.update db.scanCnt iterId 1 } := h.of_same ⟨rfl, rfl⟩
  have hrefill := hseek.refill exec .kvRangeScanSeek key out rfl
  simp only [returned, replied, scanCall, if_true, true_and]
  unfold DB.seekScan
  simp only []
  split
  · next hpop => exact (hrefill.popRecord hpop).of_same ⟨rfl, rfl⟩
  · rw [if_neg (by simp), List.append_nil]
    exact hrefill.of_same ⟨rfl, rfl⟩

theorem Scanning.nextScan (h : Scanning iterId rs ks vs db) (key value : Bytes)
    (out : Outside) :
    let c := ScanCall.nextScan iterId key value out
    Scanning iterId (rs ++ returned exec iterId db c)
      (ks ++ (replied exec iterId db c).1) (vs ++ (replied exec iterId db c).2)
      (scanCall exec db c) := by
  have hrefill := h.refill exec .kvRangeScanNext [] out rfl
  have hsilent : ¬ (db.values iterId = [] ∧ db.brkPointKey iterId ≠ noNextKey) →
      replied exec iterId db (.nextScan iterId key value out) = ([], []) :=
    fun hno => if_neg fun hsent => hno hsent.2
  have hsent : db.values iterId = [] → db.brkPointKey iterId ≠ noNextKey →
      replied exec iterId db (.nextScan iterId key value out) = _ :=
    fun hnil hmore => if_pos ⟨rfl, hnil, hmore⟩
  simp only [returned, scanCall, true_and]
  unfold DB.nextScan
  split
  · next hpop =>
      have hne : db.values iterId ≠ [] := by
        intro hnil
        rw [popRecord_eq_none_iff.mpr hnil] at hpop
        cases hpop
      rw [hsilent fun hsent => hne hsent.1, List.append_nil, List.append_nil]
      exact (h.popRecord hpop).of_same ⟨rfl, rfl⟩
  · next hpop =>
      have hnil := popRecord_eq_none_iff.mp hpop
      split
      · next hend =>
          rw [hsilent fun hsent => hsent.2 hend, if_neg (by simp), List.append_nil,
            List.append_nil, List.append_nil]
          exact h.of_same ⟨rfl, rfl⟩
      · next hmore =>
          rw [hsent hnil hmore]
          simp only []
          split
          · next hpop => exact (hrefill.popRecord hpop).of_same ⟨rfl, rfl⟩
          · rw [if_neg (by simp), List.append_nil]
            exact hrefill.of_same ⟨rfl, rfl⟩

/-- A call that is not about the scan's own records keeps them. -/
theorem Scanning.other {c : ScanCall} (h : Scanning iterId rs ks vs db)
    (hsame : SameLists iterId db (scanCall exec db c))
    (hreturned : returned exec iterId db c = []) (hreplied : replied exec iterId db c = ([], [])) :
    Scanning iterId (rs ++ returned exec iterId db c)
      (ks ++ (replied exec iterId db c).1) (vs ++ (replied exec iterId db c).2)
      (scanCall exec db c) := by
  rw [hreturned, hreplied]
  simpa using h.of_same hsame

theorem Scanning.during {c : ScanCall} (h : Scanning iterId rs ks vs db)
    (hc : During iterId c) :
    Scanning iterId (rs ++ returned exec iterId db c)
      (ks ++ (replied exec iterId db c).1) (vs ++ (replied exec iterId db c).2)
      (scanCall exec db c) := by
  cases c with
  | createIter id out =>
      exact h.other exec (sameLists_createIter exec iterId db id out) rfl rfl
  | seekScan id key value out =>
      have hid : id ≠ iterId := hc
      exact h.other exec (sameLists_seekScan exec hid db key value out)
        (if_neg fun hr => hid hr.1) (if_neg hid)
  | nextScan id key value out =>
      by_cases hid : id = iterId
      · subst hid
        exact h.nextScan exec key value out
      · exact h.other exec (sameLists_nextScan exec hid db key value out)
          (if_neg fun hr => hid hr.1) (if_neg fun hr => hid hr.1)
  | destroyIter id out =>
      exact h.other exec (sameLists_destroyIter exec hc db out) rfl rfl
  | reset out => exact h.other exec (sameLists_reset exec hc db out) rfl rfl

/-- From the seek on, over all calls of the scan. -/
theorem Scanning.calls : ∀ (cs : List ScanCall) {db : DB σ} {rs : List Record}
    {ks vs : List Bytes}, Scanning iterId rs ks vs db → (∀ c ∈ cs, During iterId c) →
    Scanning iterId (rs ++ collect exec (returned exec iterId) db cs)
      (ks ++ collect exec (fun db c => (replied exec iterId db c).1) db cs)
      (vs ++ collect exec (fun db c => (replied exec iterId db c).2) db cs)
      (scanCalls exec db cs) := by
  intro cs
  induction cs with
  | nil =>
      intro db rs ks vs h _
      simpa [collect, scanCalls] using h
  | cons c cs ih =>
      intro db rs ks vs h hcs
      have hstep := h.during exec (hcs c List.mem_cons_self)
      have hrest := ih hstep fun c' hc' => hcs c' (List.mem_cons_of_mem _ hc')
      simpa [collect, scanCalls, List.append_assoc] using hrest

theorem Scanning.returnsReplies {cs : List ScanCall}
    (h : Scanning iterId (collect exec (returned exec iterId) db cs)
      (collect exec (fun db c => (replied exec iterId db c).1) db cs)
      (collect exec (fun db c => (replied exec iterId db c).2) db cs)
      (scanCalls exec db cs)) : ReturnsReplies exec iterId db cs where
  keys := ⟨_, h.keys⟩
  values := by
    refine List.Subperm.trans ?_ h.values.subperm
    exact (List.sublist_append_left _ _).subperm
  all := by
    intro hnil
    have hkeys := h.keys
    rw [hnil, List.append_nil] at hkeys
    exact hkeys

/-- From empty lists a scan is fresh. -/
theorem freshScan_of_empty (hkeys : db.keys iterId = []) (hvalues : db.values iterId = []) :
    FreshScan db iterId := by
  intro exec key value out cs hcs
  have hstart : Scanning iterId [] [] [] db :=
    ⟨hkeys, by rw [hvalues]; exact List.Perm.refl _, by rw [hvalues]; exact Nat.zero_le _⟩
  have hseek := hstart.seekScan exec key value out
  have hall := hseek.calls exec cs hcs
  exact Scanning.returnsReplies exec (by simpa [collect, scanCalls] using hall)

end Scan

/-! ## What a leftover does -/

section Leftover

variable {σ : Type} {iterId : Nat} {db : DB σ}

/-- A device that answers every command with one record, of key `k`. -/
def answering (k : Key) : Device σ :=
  fun _ st => ({ err := 0, result := noNextKey, data := encodeReply [(k, [1])] }, st)

theorem fetched_answering {k : Key} (hk : k.length = 4) (isSeek : NvmeOpcode) (start : Nat) :
    fetched (scanIo (answering k) iterId db isSeek start) .fine = ([k], [[1]]) := by
  have hsize : valuesEnd [[1]] (valueStart 1) ≤ maxBufLen := by decide
  have hlayout : Layout (encodeReply [(k, [1])]) [(k, [1])] :=
    layout_of_fits ⟨by simp, by simpa using hk, by simp, hsize⟩
  have hacc : Accepted (scanIo (answering k) iterId db isSeek start) .fine :=
    ⟨rfl, Int.le_refl 0, by show (0 : Int) ≠ 0x7C1; decide⟩
  rw [fetched, if_pos hacc]
  exact decodeReply_eq hlayout

/-- The seek takes the key in front and the value of the reply. -/
theorem seekScan_answering (iterId : Nat) (db : DB σ) {k : Key} (hk : k.length = 4) :
    ∃ db', db.seekScan (answering k) iterId [] [] .fine =
        (1, (db.keys iterId ++ [k]).headD [], [1], db') ∧
      db'.keys iterId = (db.keys iterId ++ [k]).tail ∧
      db'.values iterId = db.values iterId := by
  obtain ⟨stat, cnt, hrefill⟩ := refill_eq (answering k) iterId
    { db with scanCnt := Function.update db.scanCnt iterId 1 } .kvRangeScanSeek [] .fine rfl
  rw [fetched_answering hk] at hrefill
  unfold DB.seekScan DB.popRecord
  simp only [hrefill, Function.update_self, List.getLast?_concat, List.dropLast_concat]
  exact ⟨_, rfl, Function.update_self .., Function.update_self ..⟩

/-- A key that is left is returned for the reply's. -/
theorem keys_of_freshScan (h : FreshScan db iterId) : db.keys iterId = [] := by
  cases hkeys : db.keys iterId with
  | nil => rfl
  | cons k₀ ks =>
      exfalso
      -- A key that is not the one left over.
      obtain ⟨k, hk, hne⟩ : ∃ k : Key, k.length = 4 ∧ k₀ ≠ k := by
        by_cases hzero : k₀ = [0, 0, 0, 0]
        · exact ⟨[1, 0, 0, 0], rfl, by rw [hzero]; decide⟩
        · exact ⟨[0, 0, 0, 0], rfl, hzero⟩
      obtain ⟨db', hseek, _, _⟩ := seekScan_answering iterId db hk
      have hfresh := (h (answering k) [] [] .fine [] (by simp)).keys
      simp [collect, returned, replied, hseek, hkeys, fetched_answering hk] at hfresh
      exact hne hfresh

/-- A value that is left is returned after the reply's. -/
theorem values_of_freshScan (h : FreshScan db iterId) : db.values iterId = [] := by
  have hkeys := keys_of_freshScan h
  have hk : ([0, 0, 0, 0] : Key).length = 4 := rfl
  obtain ⟨db', hseek, hks, hvs⟩ := seekScan_answering iterId db hk
  by_contra hne
  -- The next call has a value to return, and no key for it.
  have hpop : ∃ k v db'', db'.popRecord iterId = some (k, v, db'') := by
    rw [← hvs] at hne
    cases hp : db'.popRecord iterId with
    | none => exact absurd (popRecord_eq_none_iff.mp hp) hne
    | some r => exact ⟨r.1, r.2.1, r.2.2, rfl⟩
  obtain ⟨k, v, db'', hpop⟩ := hpop
  have hnext : db'.nextScan (answering [0, 0, 0, 0]) iterId [] [] .fine =
      (1, k, v, (db''.noteIter iterId k v).finishOp 4) := by
    unfold DB.nextScan
    rw [hpop]
  have hfresh := (h (answering [0, 0, 0, 0]) [] [] .fine [.nextScan iterId [] [] .fine]
    (by simp [During])).keys.length_le
  simp [collect, returned, replied, scanCall, hseek, hnext, hvs, hne, fetched_answering hk]
    at hfresh

/-- A scan starts fresh exactly from empty lists. -/
theorem freshScan_iff (db : DB σ) (iterId : Nat) :
    FreshScan db iterId ↔ db.keys iterId = [] ∧ db.values iterId = [] :=
  ⟨fun h => ⟨keys_of_freshScan h, values_of_freshScan h⟩,
    fun h => freshScan_of_empty h.1 h.2⟩

/-- Iterator 0 throughout, and a batch of records for each scan. -/
def reusing : Device (List (List Record)) := fun cmd st =>
  match cmd.opcode with
  | .kvRangeScanSeek | .kvRangeScanNext => batchDevice cmd st
  | _ => ({ err := 0, result := 0, data := fun _ => 0 }, st)

/-- A scan of two records is given up after the first and its id created
again. -/
def givenUp : List ScanCall :=
  [.createIter 0 .fine, .seekScan 0 [48, 48, 48, 48] [] .fine, .destroyIter 0 .fine,
    .createIter 0 .fine]

/-- The second scan's seek returns the second key of the first scan. -/
theorem seekScan_returns_leftover :
    let db := scanCalls reusing (opened [[([48, 48, 48, 48], [1]), ([48, 48, 48, 49], [2])],
      [([48, 48, 48, 50], [3])]]) givenUp
    (replied reusing 0 db (.seekScan 0 [48, 48, 48, 50] [] .fine)).1 = [[48, 48, 48, 50]] ∧
      returned reusing 0 db (.seekScan 0 [48, 48, 48, 50] [] .fine) =
        [([48, 48, 48, 49], [3])] := by
  decide +kernel


end Leftover

end DB

end Kvaccel.Ref
