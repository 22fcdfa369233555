import Kvaccel.Proofs.KvReads
import Kvaccel.Spec.KeyWalk
import Kvaccel.Spec.ReadPaths

/-!
# The two builds of the single-record iterator

The build that gets finds, from any place on, the next key word that the device
holds, because it tries them one after the other and wraps at the largest. So
it walks round the keys for ever: the `n`-th call hands out the record of the
`n`-th key from the start, counted round the circle. No call reports an end.

The build that sends commands reports one, if the device does. Up to there the
two agree, and from there on they do not.

Both are taken from the driver as it is after any calls of `Put`, `Get` and
`CreateIter`, with a `CreateIter` at the end: that is what brings the pending
puts to the device.
-/

namespace Kvaccel.Spec

open Kvaccel.Lib Kvaccel.Ref

/-! ## One record -/

section Fetch

variable {σ : Type} {exec : Device σ} {db : DB σ} {cmd : NvmeCmd} {out : Outside}

theorem fetch_db (value : Bytes) (hout : out.data = true) :
    (db.fetch exec cmd value out).2.2 = (db.nvmePassthru exec cmd out.result).2 := by
  unfold DB.fetch
  rw [if_neg (by simp [hout])]
  simp only []
  repeat' split
  all_goals rfl

theorem fetch_found (value : Bytes) {v : Value} (hout : out.data = true)
    (hreply : (exec cmd db.device).1 = DB.foundReply (some v))
    (hlen : v.length ≤ maxBufLen) :
    (db.fetch exec cmd value out).1 = v.length ∧ (db.fetch exec cmd value out).2.1 = v := by
  have herr : (exec cmd db.device).1.err = 0 := by
    rw [hreply]
    rfl
  have hint : asInt v.length = v.length := by
    unfold maxBufLen at hlen
    rw [asInt, if_pos (by omega)]
  unfold DB.fetch
  rw [if_neg (by simp [hout]), DB.nvmePassthru_ok herr, hreply]
  simp only [DB.foundReply, hint, Int.toNat_natCast, DB.read_foundReply, DB.clipped_eq hlen]
  rw [if_neg (by omega), if_neg (by omega)]
  by_cases hpos : 0 < v.length
  · rw [if_pos hpos]
    exact ⟨rfl, rfl⟩
  · rw [if_neg hpos]
    exact ⟨rfl, (List.length_eq_zero_iff.mp (by omega)).symm⟩

theorem fetch_missing (value : Bytes) (hout : out.data = true)
    (hreply : (exec cmd db.device).1 = DB.foundReply none) :
    (db.fetch exec cmd value out).1 = -2 ∧ (db.fetch exec cmd value out).2.1 = value := by
  unfold DB.fetch DB.nvmePassthru
  rw [if_neg (by simp [hout])]
  simp only [hreply, DB.foundReply]
  exact ⟨rfl, rfl⟩

end Fetch

/-! ## The build that gets -/

section Gets

variable {σ : Type} {K : KvDevice σ} {s : Split} {db : DB σ} {outs : Nat → Outside}

/-- What the device says to a get, and that it stays as it is. -/
theorem Stored.getReply (h : Stored K s db) (i : Nat) :
    (K.exec (getCmd (le32 i)) db.device).1 = DB.foundReply (lastPut s.flushed (le32 i)) ∧
      (K.exec (getCmd (le32 i)) db.device).2 = db.device := by
  obtain ⟨hreply, hstate⟩ := K.get (getCmd (le32 i)) db.device rfl
  refine ⟨hreply.trans ?_, hstate⟩
  have hkey : le32 (getCmd (le32 i)).cdw10 = le32 i := by
    rw [getCmd, firstFour_eq_self (length_le32 i), le32_word (length_le32 i)]
  have hop : (getCmd (le32 i)).opcode = .kvGet := rfl
  have hlen : min (getCmd (le32 i)).dataLen (((getCmd (le32 i)).cdw12 + 1) * pageSize) =
      maxBufLen := DB.replyLen_eq
  simp only [MapDevice.exec, hop, hkey, h.map, hlen]
  cases lastPut s.flushed (le32 i) <;> rfl

theorem Stored.getBody (h : Stored K s db) (i : Nat) (value : Bytes) {out : Outside}
    (hout : out.data = true) : Stored K s (db.getBody K.exec (le32 i) value out).2.2 := by
  rw [DB.getBody, fetch_db value hout]
  refine h.congr (DB.nvmePassthru_bufferingInfo ..) ?_
  rw [DB.nvmePassthru_device]
  exact congrArg K.mem (h.getReply i).2

theorem Stored.getBody_missing (h : Stored K s db) {i : Nat} (value : Bytes) {out : Outside}
    (hout : out.data = true) (hnone : lastPut s.flushed (le32 i) = none) :
    (db.getBody K.exec (le32 i) value out).1 = -2 ∧
      (db.getBody K.exec (le32 i) value out).2.1 = value :=
  fetch_missing value hout ((h.getReply i).1.trans (by rw [hnone]))

variable (hshort : ∀ r ∈ s.flushed, r.2.length ≤ maxBufLen)

include hshort

theorem Stored.getBody_found (h : Stored K s db) {i : Nat} {v : Value} (value : Bytes)
    {out : Outside} (hout : out.data = true) (hv : lastPut s.flushed (le32 i) = some v) :
    (db.getBody K.exec (le32 i) value out).1 = v.length ∧
      (db.getBody K.exec (le32 i) value out).2.1 = v :=
  fetch_found value hout ((h.getReply i).1.trans (by rw [hv]))
    (hshort _ (DB.mem_of_lastPut hv))

/-- The loop stops at the first key that is there. -/
theorem getLoop_finds (houts : ∀ j, (outs j).data = true) {k : Nat} {v : Value}
    (hv : lastPut s.flushed (le32 k) = some v) :
    ∀ (a b : List Nat) (fuel n i : Nat) (value : Bytes) (db : DB σ), i < wordCount →
    (List.range wordCount).rotate i = a ++ k :: b →
    (∀ x ∈ a, ¬ held (lastPut s.flushed) x = true) → a.length < fuel → Stored K s db →
    ∃ db', getLoop K.exec outs fuel n i value db = some ⟨v.length, v, k, db'⟩ ∧
      Stored K s db' := by
  intro a
  induction a with
  | nil =>
      intro b fuel n i value db hi hwalk _ hfuel h
      obtain ⟨l, hcons, _⟩ := rotate_range_cons hi
      obtain ⟨rfl, _⟩ := List.cons.inj (hcons.symm.trans hwalk)
      obtain ⟨f, rfl⟩ : ∃ f, fuel = f + 1 := ⟨fuel - 1, by simp at hfuel; omega⟩
      obtain ⟨hret, hval⟩ := h.getBody_found hshort value (houts n) hv
      refine ⟨_, ?_, h.getBody i value (houts n)⟩
      rw [getLoop_stop (by rw [hret]; omega), hret, hval]
  | cons x a ih =>
      intro b fuel n i value db hi hwalk hmiss hfuel h
      obtain ⟨l, hcons, hnext⟩ := rotate_range_cons hi
      obtain ⟨rfl, hl⟩ := List.cons.inj (hcons.symm.trans hwalk)
      obtain ⟨f, rfl⟩ : ∃ f, fuel = f + 1 := ⟨fuel - 1, by simp at hfuel; omega⟩
      have hnone : lastPut s.flushed (le32 i) = none := by
        have := hmiss i List.mem_cons_self
        rwa [held, Bool.not_eq_true, Option.isSome_eq_false_iff, Option.isNone_iff_eq_none]
          at this
      obtain ⟨hret, hval⟩ := h.getBody_missing value (houts n) hnone
      -- The walk from the next word on is this one, with the word at its end.
      have hwalk' : (List.range wordCount).rotate (u32 (i + 1)) = a ++ k :: (b ++ [i]) := by
        rw [u32_eq_mod, rotate_range_mod, hnext, hl]
        simp
      obtain ⟨db', hloop, hdb'⟩ := ih (b ++ [i]) f (n + 1) (u32 (i + 1)) value
        (db.getBody K.exec (le32 i) value (outs n)).2.2 (u32_lt_wordCount _) hwalk'
        (fun y hy => hmiss y (List.mem_cons_of_mem _ hy)) (by simpa using hfuel)
        (h.getBody i value (houts n))
      exact ⟨db', by rw [getLoop_more hret, hval, hloop], hdb'⟩

/-- From a place on, to the first of the keys ahead; the others, and then this
one, are ahead after it. -/
theorem getLoop_first (houts : ∀ j, (outs j).data = true) {fuel i k : Nat} {ks : List Nat}
    (hfuel : wordCount ≤ fuel) (hi : i < wordCount)
    (hks : keysFrom (lastPut s.flushed) i = k :: ks) (value : Bytes) (h : Stored K s db) :
    ∃ v db', lastPut s.flushed (le32 k) = some v ∧
      getLoop K.exec outs fuel 0 i value db = some ⟨v.length, v, k, db'⟩ ∧ Stored K s db' ∧
      keysFrom (lastPut s.flushed) (k + 1) = ks ++ [k] := by
  obtain ⟨a, b, hwalk, hmiss, hk, _⟩ := List.filter_eq_cons_iff.mp hks
  obtain ⟨v, hv⟩ := Option.isSome_iff_exists.mp hk
  have hlen : a.length < wordCount := by
    have hlen := congrArg List.length hwalk
    rw [List.length_rotate, List.length_range, List.length_append, List.length_cons] at hlen
    omega
  obtain ⟨db', hloop, hdb'⟩ := getLoop_finds hshort houts hv a b fuel 0 i value db hi hwalk hmiss
    (by omega) h
  exact ⟨v, db', hv, hloop, hdb', filter_rotate_next hks⟩

omit hshort in
theorem keysFrom_u32 (m : Key → Option Value) (i : Nat) : keysFrom m (u32 i) = keysFrom m i := by
  rw [keysFrom, keysFrom, u32_eq_mod, rotate_range_mod]

omit hshort in
theorem getElem?_of_rotate {ks l : List Nat} {n k : Nat} (h : ks.rotate n = k :: l) :
    ks[n % ks.length]? = some k := by
  have hpos : 0 < ks.length := by
    rw [← List.length_rotate ks n, h]
    simp
  rw [← List.head?_rotate (Nat.mod_lt n hpos), List.rotate_mod, h]
  rfl

/-- The calls go round the keys. -/
theorem getScan_spec {fuel iterId : Nat} {key : Bytes} {strings : Nat → Bytes}
    {outs : Nat → Nat → Outside} {it : GetIters σ} (hfuel : wordCount ≤ fuel)
    (houts : ∀ n j, (outs n j).data = true) (h : Stored K s it.db)
    (hsome : keysFrom (lastPut s.flushed) (word (firstFour key)) ≠ []) (n : Nat) :
    ∃ k v it', (keysFrom (lastPut s.flushed) (word (firstFour key)))[
        n % (keysFrom (lastPut s.flushed) (word (firstFour key))).length]? = some k ∧
      lastPut s.flushed (le32 k) = some v ∧
      getScan K.exec iterId key strings fuel outs it n = some ((v.length : Int), v, it') ∧
      Stored K s it'.db ∧
      keysFrom (lastPut s.flushed) (it'.iter iterId + 1) =
        (keysFrom (lastPut s.flushed) (word (firstFour key))).rotate (n + 1) := by
  generalize hall : keysFrom (lastPut s.flushed) (word (firstFour key)) = all at hsome ⊢
  induction n with
  | zero =>
      obtain ⟨k, ks, rfl⟩ := List.exists_cons_of_ne_nil hsome
      obtain ⟨v, db', hv, hloop, hdb', hnext⟩ :=
        getLoop_first hshort (houts 0) hfuel (word_lt_wordCount _) hall (strings 0) h
      refine ⟨k, v, ⟨db'.finishOp 3, Function.update it.iter iterId k⟩,
        getElem?_of_rotate (List.rotate_zero _), hv, ?_, hdb'.congr rfl rfl, ?_⟩
      · rw [getScan, GetIters.seek, hloop]
        rfl
      · dsimp only
        rw [Function.update_self, hnext, List.rotate_cons_succ, List.rotate_zero]
  | succ n ih =>
      obtain ⟨k, _, it', _, _, hscan, hstored, hahead⟩ := ih
      obtain ⟨k', ks, hks⟩ := List.exists_cons_of_ne_nil
        (fun hnil => hsome (List.rotate_eq_nil_iff.mp hnil) : all.rotate (n + 1) ≠ [])
      have hfrom : keysFrom (lastPut s.flushed) (u32 (it'.iter iterId + 1)) = k' :: ks := by
        rw [keysFrom_u32, hahead, hks]
      obtain ⟨v, db', hv, hloop, hdb', hnext⟩ := getLoop_first hshort (houts (n + 1)) hfuel
        (u32_lt_wordCount _) hfrom (strings (n + 1)) hstored
      refine ⟨k', v, ⟨db'.finishOp 4, Function.update it'.iter iterId k'⟩,
        getElem?_of_rotate hks, hv, ?_, hdb'.congr rfl rfl, ?_⟩
      · rw [getScan, hscan, Option.bind_some, GetIters.next, hloop]
        rfl
      · dsimp only
        rw [Function.update_self, hnext, ← List.rotate_rotate, hks, List.rotate_cons_succ,
          List.rotate_zero]

end Gets

/-! ## After any calls -/

section Calls

variable {σ : Type} {K : KvDevice σ}

theorem Stored.called : ∀ (cs : List Call) {s : Split} {db : DB σ}, CarriedCalls cs →
    (∀ r ∈ s.pending, Fitting r) → Stored K s db →
    Stored K (cs.foldl splitStep s) (called K.exec db cs) := by
  intro cs
  induction cs with
  | nil => exact fun _ _ h => h
  | cons c cs ih =>
      intro s db hcs hfit h
      have hrest : CarriedCalls cs := fun k v out hmem => hcs k v out (List.mem_cons_of_mem _ hmem)
      cases c with
      | put k v out =>
          obtain ⟨hput, hout⟩ := hcs k v out List.mem_cons_self
          refine ih hrest (fun r hr => ?_) (h.put hfit hput hout)
          have hr : r ∈ s.pending ++ [(k, v)] := by
            revert hr
            simp only [splitStep]
            split
            · simp
            · exact id
          rcases List.mem_append.mp hr with hr | hr
          · exact hfit r hr
          · rw [List.mem_singleton.mp hr]
            exact hput
      | get k value out => exact ih hrest hfit (h.get k value out)
      | createIter iterId out => exact ih hrest (by simp [splitStep]) (h.createIter iterId out)

/-- All the puts are on the device after a `CreateIter`. -/
theorem stored_created {device : σ} {cs : List Call} (hdev : K.mem device = MapDevice.empty)
    (hcs : CarriedCalls cs) (iterId : Nat) (out : Outside) :
    Stored K ⟨cs.filterMap putOf, []⟩
      ((called K.exec (DB.opened device) cs).createIter K.exec iterId out).2.2 := by
  have h := ((stored_opened hdev).called cs hcs (by simp)).createIter iterId out
  rw [DB.split_append] at h
  exact h

theorem keysFrom_ne_nil {puts : List (Key × Value)} (h : puts ≠ []) (hfit : ∀ r ∈ puts, Fitting r)
    (start : Nat) : keysFrom (lastPut puts) start ≠ [] := by
  obtain ⟨l, r, rfl⟩ := List.eq_nil_or_concat puts |>.resolve_left h
  rw [List.concat_eq_append] at hfit ⊢
  have hlen : r.1.length = 4 := (hfit r (by simp)).1.1
  refine List.ne_nil_of_mem (mem_keysFrom.mpr ⟨word_lt_wordCount r.1, ?_⟩)
  rw [held, le32_word hlen, DB.lastPut_append]
  simp [lastPut, applied]

theorem fitting_of_carriedCalls {cs : List Call} (h : CarriedCalls cs) {r : Key × Value}
    (hr : r ∈ cs.filterMap putOf) : Fitting r := by
  obtain ⟨c, hc, hput⟩ := List.mem_filterMap.mp hr
  cases c with
  | put k v out =>
      cases hput
      exact (h k v out hc).1
  | get k value out => cases hput
  | createIter iterId out => cases hput

variable {device : σ} {cs : List Call} {iter : Nat → Nat} {id iterId fuel : Nat} {key : Bytes}
  {strings : Nat → Bytes} {out : Outside}

/-- After any puts, gets and creations of iterators, and one more `CreateIter`,
the build that gets hands out the last put of every key, in the order of the
key words from the start key on, and then all of them again: no call reports an
end. -/
theorem getScan_goes_round (hdev : K.mem device = MapDevice.empty) (hcs : CarriedCalls cs)
    (hsome : cs.filterMap putOf ≠ []) (hfuel : wordCount ≤ fuel) {outs : Nat → Nat → Outside}
    (houts : ∀ n j, (outs n j).data = true) (n : Nat) :
    ∃ k v it', (keysFrom (lastPut (cs.filterMap putOf)) (word (firstFour key)))[
        n % (keysFrom (lastPut (cs.filterMap putOf)) (word (firstFour key))).length]? = some k ∧
      lastPut (cs.filterMap putOf) (le32 k) = some v ∧
      getScan K.exec iterId key strings fuel outs (GetIters.createIter K.exec
        ⟨called K.exec (DB.opened device) cs, iter⟩ id out).2.2 n =
        some ((v.length : Int), v, it') := by
  have hstored : Stored K ⟨cs.filterMap putOf, []⟩ (GetIters.createIter K.exec
      ⟨called K.exec (DB.opened device) cs, iter⟩ id out).2.2.db :=
    stored_created hdev hcs id out
  obtain ⟨k, v, it', hk, hv, hscan, _⟩ := getScan_spec
    (fun r hr => (fitting_of_carriedCalls hcs hr).length_le) hfuel houts hstored
    (keysFrom_ne_nil hsome (fun r hr => fitting_of_carriedCalls hcs hr) _) n
  exact ⟨k, v, it', hk, hv, hscan⟩

end Calls

/-- Two keys, one of them put twice, with a get between. -/
def twoKeys : List Call :=
  [.put [1, 0, 0, 0] [65] .fine, .put [0, 1, 0, 0] [66] .fine, .get [1, 0, 0, 0] [] .fine,
    .put [1, 0, 0, 0] [67] .fine]

theorem carriedCalls_twoKeys : CarriedCalls twoKeys := by
  intro k v out h
  simp only [twoKeys, List.mem_cons, Call.put.injEq, List.not_mem_nil, or_false, reduceCtorEq,
    false_or] at h
  rcases h with ⟨rfl, rfl, rfl⟩ | ⟨rfl, rfl, rfl⟩ | ⟨rfl, rfl, rfl⟩ <;>
    exact ⟨by decide, rfl, rfl, rfl⟩

/-- Long after both. -/
theorem getScan_goes_round_twoKeys :
    ∃ k v it', (keysFrom (lastPut (twoKeys.filterMap putOf)) (word (firstFour [0, 0, 0, 0])))[
        1000 % (keysFrom (lastPut (twoKeys.filterMap putOf))
          (word (firstFour [0, 0, 0, 0]))).length]? = some k ∧
      lastPut (twoKeys.filterMap putOf) (le32 k) = some v ∧
      getScan listDevice.exec 0 [0, 0, 0, 0] (fun _ => []) wordCount (fun _ _ => .fine)
        (GetIters.createIter listDevice.exec
          ⟨called listDevice.exec (DB.opened ListDevice.empty) twoKeys, fun _ => 0⟩ 0 .fine).2.2
        1000 = some ((v.length : Int), v, it') :=
  getScan_goes_round mem_empty carriedCalls_twoKeys (by decide) (Nat.le_refl _) (fun _ _ => rfl)
    1000

/-! ## The build that sends commands -/

section Commands

variable {σ : Type} {C : CursorDevice σ} {s : Split} {db : DB σ}

theorem Stored.iterCmd {K : KvDevice σ} (h : Stored K s db) {cmd : NvmeCmd}
    (hop : cmd.opcode = .kvIterSeek ∨ cmd.opcode = .kvIterNext) {value : Bytes} {out : Outside}
    (hout : out.data = true) : Stored K s (db.fetch K.exec cmd value out).2.2 := by
  rw [fetch_db value hout]
  refine h.congr (DB.nvmePassthru_bufferingInfo ..) ?_
  rw [DB.nvmePassthru_device, K.acts]
  rcases hop with hop | hop <;> simp only [MapDevice.exec, hop]

/-- A call has handed out the first of these records, or reported that there is
none. -/
structure HandedOut (m : Key → Option Value) (ks : List Nat) (ret : Int) (value : Bytes) :
    Prop where
  found : ∀ k, ks.head? = some k → ∃ v, m (le32 k) = some v ∧ ret = v.length ∧ value = v
  ended : ks = [] → ret = -2

theorem fetch_handedOut {exec : Device σ} (hshort : ∀ r ∈ s.flushed, r.2.length ≤ maxBufLen)
    {cmd : NvmeCmd} {ks : List Nat}
    (hreply : (exec cmd db.device).1 = firstReply (lastPut s.flushed) ks)
    (hks : ∀ k ∈ ks, held (lastPut s.flushed) k = true) (value : Bytes) {out : Outside}
    (hout : out.data = true) :
    HandedOut (lastPut s.flushed) ks (db.fetch exec cmd value out).1
      (db.fetch exec cmd value out).2.1 := by
  cases ks with
  | nil => exact ⟨(fun k hk => by cases hk), fun _ => (fetch_missing value hout hreply).1⟩
  | cons k ks =>
      obtain ⟨v, hv⟩ := Option.isSome_iff_exists.mp (hks k List.mem_cons_self)
      have hfound : (exec cmd db.device).1 = DB.foundReply (some v) := by
        rw [hreply, firstReply, List.head?_cons, Option.bind_some, hv]
      refine ⟨fun k' hk' => ?_, (fun hnil => by cases hnil)⟩
      cases hk'
      exact ⟨v, hv, fetch_found value hout hfound (hshort _ (DB.mem_of_lastPut hv))⟩

variable {iterId : Nat} {key : Bytes} {strings : Nat → Bytes} {outs : Nat → Outside}

/-- The calls go up the keys. -/
theorem cmdScan_spec (hshort : ∀ r ∈ s.flushed, r.2.length ≤ maxBufLen)
    (houts : ∀ n, (outs n).data = true) (h : Stored C.toKvDevice s db) (n : Nat) :
    Stored C.toKvDevice s (cmdScan C.exec iterId key strings outs db n).2.2 ∧
      C.cursor (cmdScan C.exec iterId key strings outs db n).2.2.device iterId =
        (keysUpFrom (lastPut s.flushed) (word (firstFour key))).drop (n + 1) ∧
      HandedOut (lastPut s.flushed)
        ((keysUpFrom (lastPut s.flushed) (word (firstFour key))).drop n)
        (cmdScan C.exec iterId key strings outs db n).1
        (cmdScan C.exec iterId key strings outs db n).2.1 := by
  have hheld : ∀ n, ∀ k ∈ (keysUpFrom (lastPut s.flushed) (word (firstFour key))).drop n,
      held (lastPut s.flushed) k = true :=
    fun n k hk => (List.mem_filter.mp (List.mem_of_mem_drop hk)).2
  induction n with
  | zero =>
      obtain ⟨hreply, hcursor⟩ := C.seek db.device iterId key
      rw [h.map] at hreply hcursor
      refine ⟨(h.iterCmd (Or.inl rfl) (houts 0)).congr rfl rfl, ?_, ?_⟩
      · show C.cursor (DB.fetch C.exec db (DB.seekCmd iterId key) (strings 0) (outs 0)).2.2.device
          iterId = _
        rw [fetch_db _ (houts 0), DB.nvmePassthru_device, hcursor, List.drop_one]
      · exact fetch_handedOut hshort hreply (hheld 0) (strings 0) (houts 0)
  | succ n ih =>
      obtain ⟨hstored, hahead, _⟩ := ih
      rw [cmdScan]
      generalize (cmdScan C.exec iterId key strings outs db n).2.2 = db' at hstored hahead
      obtain ⟨hreply, hcursor⟩ := C.next db'.device iterId
      rw [hstored.map, hahead] at hreply
      rw [hahead] at hcursor
      refine ⟨(hstored.iterCmd (Or.inr rfl) (houts (n + 1))).congr rfl rfl, ?_, ?_⟩
      · show C.cursor (DB.fetch C.exec db' (DB.nextCmd iterId) (strings (n + 1))
          (outs (n + 1))).2.2.device iterId = _
        rw [fetch_db _ (houts (n + 1)), DB.nvmePassthru_device, hcursor, List.tail_drop]
      · exact fetch_handedOut hshort hreply (hheld (n + 1)) (strings (n + 1)) (houts (n + 1))

variable {device : σ} {cs : List Call} {iter : Nat → Nat} {id fuel : Nat} {out : Outside}

end Commands

end Kvaccel.Spec
