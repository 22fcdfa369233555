import Kvaccel.Proofs.FreshScan

/-!
# A value has a key

`SeekScan` and `NextScan` look at `values[iter_id]` before they take from both
lists. That is enough because the lists only ever differ in one direction. A
reply adds a key for each value, or keys without values where the terminator
is missing or a length is refused; a record is one of each; `DestroyIter`
empties the values alone, and `Reset` both lists of id 0. So there are at
least as many keys as values whatever the device answers, and the front of
`keys[iter_id]` is there when a value is.

A call is about one id and leaves the lists of the others. For the id it is
about, `Scanning` already says what `SeekScan` and `NextScan` do.
-/

namespace Kvaccel.Spec

open Kvaccel.Lib Kvaccel.Ref Kvaccel.Ref.DB

variable {σ : Type} (exec : Device σ) {db : DB σ}

theorem Covered.scanning (h : Covered db) (iterId : Nat) :
    Scanning iterId [] (db.keys iterId) (db.values iterId) db :=
  ⟨rfl, List.Perm.refl _, h iterId⟩

/-! ## Calls that return -/

theorem Covered.destroyIter (h : Covered db) (iterId : Nat) (out : Outside) :
    Covered (db.destroyIter exec iterId out).2 := by
  intro id
  by_cases hid : iterId = id
  · subst hid
    obtain ⟨stat, hcmd⟩ := nvmePassthru_eq exec db
      { opcode := .kvIterDestroyIter, cdw13 := iterId } out.result
    unfold DB.destroyIter
    simp only [hcmd]
    split
    · exact h iterId
    · split
      · exact h iterId
      · simp [finishOp]
  · obtain ⟨hkeys, hvalues⟩ := sameLists_destroyIter exec hid db out
    rw [hkeys, hvalues]
    exact h id

theorem Covered.reset (h : Covered db) (out : Outside) : Covered (db.reset exec out).2 := by
  intro id
  by_cases hid : id = 0
  · subst hid
    obtain ⟨stat, hcmd⟩ := nvmePassthru_eq exec
      { db with
        keys := Function.update db.keys 0 []
        values := Function.update db.values 0 [] }
      { opcode := .kvReset, dataLen := maxBufLen } out.result
    unfold DB.reset
    simp [hcmd]
  · obtain ⟨hkeys, hvalues⟩ := sameLists_reset exec hid db out
    rw [hkeys, hvalues]
    exact h id

theorem Covered.scanCall (h : Covered db) (c : ScanCall) : Covered (Spec.scanCall exec db c) := by
  cases c with
  | createIter id out =>
      intro iterId
      exact ((h.scanning iterId).during exec (c := .createIter id out) trivial).lengths
  | seekScan id key value out =>
      intro iterId
      by_cases hid : id = iterId
      · subst hid
        exact ((h.scanning id).seekScan exec key value out).lengths
      · exact ((h.scanning iterId).during exec (c := .seekScan id key value out) hid).lengths
  | nextScan id key value out =>
      intro iterId
      exact ((h.scanning iterId).during exec (c := .nextScan id key value out) trivial).lengths
  | destroyIter id out => exact h.destroyIter exec id out
  | reset out => exact h.reset exec out

/-! ## Calls that throw -/

theorem length_decodeThrow {data : Mem} {reply : List Bytes × List Bytes}
    (h : decodeThrow data = some reply) : reply.2.length ≤ reply.1.length := by
  unfold decodeThrow at h
  simp only [] at h
  split at h
  · cases h
    rw [length_valueLoop, List.length_map]
    exact (List.takeWhile_sublist _).length_le.trans (List.length_map _).le
  · cases h

theorem Covered.bulkyScanThrow (h : Covered db) {isSeek : NvmeOpcode} {iterId cdw10 : Nat}
    {out : Outside} {db' : DB σ}
    (hthrow : db.bulkyScanThrow exec isSeek iterId cdw10 out = some db') : Covered db' := by
  unfold DB.bulkyScanThrow at hthrow
  split at hthrow
  · cases hthrow
  · simp only [] at hthrow
    split at hthrow
    · cases hthrow
    · obtain ⟨reply, hreply, rfl⟩ := Option.map_eq_some_iff.mp hthrow
      have hlen := length_decodeThrow hreply
      intro id
      obtain ⟨hkeys, hvalues⟩ := sameLists_nvmePassthru exec id db
        { opcode := isSeek, cdw10 := cdw10, cdw12 := replyNlb, cdw13 := iterId,
          dataLen := maxBufLen } out.result
      have hid := h id
      rw [← hkeys, ← hvalues] at hid
      by_cases heq : id = iterId
      · subst heq
        simp only [Function.update_self, List.length_append]
        omega
      · simp only [Function.update_of_ne heq]
        exact hid

theorem Covered.scanThrow (h : Covered db) {c : ScanCall} {db' : DB σ}
    (hthrow : Spec.scanThrow exec db c = some db') : Covered db' := by
  cases c with
  | seekScan iterId key value out =>
      have hseek : Covered { db with scanCnt := Function.update db.scanCnt iterId 1 } := h
      exact hseek.bulkyScanThrow exec hthrow
  | nextScan iterId key value out =>
      simp only [Spec.scanThrow, nextScanThrow] at hthrow
      split at hthrow
      · exact h.bulkyScanThrow exec hthrow
      · cases hthrow
  | _ => cases hthrow

/-! ## Runs -/

theorem Covered.leftBy (h : Covered db) (c : ScanCall) : Covered (Spec.leftBy exec db c) := by
  unfold Spec.leftBy
  cases hthrow : Spec.scanThrow exec db c with
  | none => exact h.scanCall exec c
  | some db' => exact h.scanThrow exec hthrow

theorem covered_opened (device : σ) : Covered (opened device) := fun _ => Nat.le_refl _

theorem Covered.run (h : Covered db) (cs : List ScanCall) :
    Covered (cs.foldl (Spec.leftBy exec) db) := by
  induction cs generalizing db with
  | nil => exact h
  | cons c cs ih => exact ih (h.leftBy exec c)

/-- The reply is in the lists when the call takes from them. -/
theorem Covered.refill (h : Covered db) (isSeek : NvmeOpcode) (iterId : Nat) (key : Bytes)
    (out : Outside) : Covered (db.refill exec isSeek iterId key out) := by
  intro id
  by_cases hid : iterId = id
  · subst hid
    exact ((h.scanning iterId).refill exec isSeek key out rfl).lengths
  · obtain ⟨hkeys, hvalues⟩ := sameLists_refill exec hid db isSeek key out
    rw [hkeys, hvalues]
    exact h id

theorem Covered.takes (h : Covered db) {c : ScanCall} {p : DB σ × Nat}
    (hp : p ∈ Spec.takes exec db c) : Covered p.1 := by
  unfold Spec.takes at hp
  split at hp
  · cases hp
  · cases c with
    | seekScan iterId key value out =>
        rw [List.mem_singleton.mp hp]
        have hseek : Covered { db with scanCnt := Function.update db.scanCnt iterId 1 } := h
        exact hseek.refill exec _ iterId key out
    | nextScan iterId key value out =>
        rcases List.mem_cons.mp hp with rfl | hp
        · exact h
        · split at hp
          · rw [List.mem_singleton.mp hp]
            exact h.refill exec _ iterId [] out
          · cases hp
    | _ => cases hp

/-- In every state that any calls and any replies lead to there is a key for
each value, and so wherever a call takes a value there is a key to take. -/
theorem scanBuffers_never_underflow (exec : Device σ) (device : σ) (cs : List ScanCall) :
    Covered (cs.foldl (Spec.leftBy exec) (opened device)) ∧
      ∀ c, ∀ p ∈ Spec.takes exec (cs.foldl (Spec.leftBy exec) (opened device)) c,
        p.1.values p.2 ≠ [] → p.1.keys p.2 ≠ [] := by
  have hcovered := (covered_opened device).run exec cs
  refine ⟨hcovered, ?_⟩
  intro c p hp hvalue hkey
  have hlen := hcovered.takes exec hp p.2
  rw [hkey, List.length_nil] at hlen
  exact hvalue (List.length_eq_zero_iff.mp (Nat.le_zero.mp hlen))

end Kvaccel.Spec
