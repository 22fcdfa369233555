import Kvaccel.Proofs.ValueLog
import Kvaccel.Spec.PutBuilds

/-!
# What buffering changes

Over a device that is a map the unbuffered driver is one as well: a put is on
the device when the call returns, so a get finds it, whatever bytes the value
has, as long as a reply holds it. `Holds` describes that driver too, with
nothing pending.

The buffered one is behind by its pending puts. A get can tell exactly when it
meets one that the device has another value for, and after a `CreateIter`
there is none, so then the two devices hold the same map.
-/

namespace Kvaccel.Ref

open Kvaccel.Lib Kvaccel.Spec

namespace DB

/-! ## A driver does not see commands that it never sends -/

section Congr

variable {σ : Type} {exec exec' : Device σ}
  (h : ∀ cmd d, cmd.opcode ≠ .kvPut → exec cmd d = exec' cmd d)

include h

theorem nvmePassthru_congr (db : DB σ) {cmd : NvmeCmd} (hop : cmd.opcode ≠ .kvPut)
    (result : Nat) : db.nvmePassthru exec cmd result = db.nvmePassthru exec' cmd result := by
  rw [nvmePassthru, nvmePassthru, h cmd db.device hop]

theorem valueFlushLoop_congr (bip : BufferingInfo) (result : Nat) : ∀ (fuel i : Nat) (db : DB σ),
    valueFlushLoop exec bip result fuel i db = valueFlushLoop exec' bip result fuel i db := by
  intro fuel
  induction fuel with
  | zero => intro i db; rfl
  | succ fuel ih =>
      intro i db
      have hop : (valueFlushCmd bip i).opcode ≠ .kvPut := by simp [valueFlushCmd]
      simp only [valueFlushLoop, nvmePassthru_congr h db hop, ih]

theorem keyValueFlush_congr (db : DB σ) (out : Outside) :
    db.keyValueFlush exec out = db.keyValueFlush exec' out := by
  unfold keyValueFlush
  rw [nvmePassthru_congr h db (by simp [keyValueFlushCmd])]

theorem flush_congr (db : DB σ) (out : Outside) : db.flush exec out = db.flush exec' out := by
  simp only [flush, valueFlush, valueFlushLoop_congr h, keyValueFlush_congr h]

theorem get_congr (db : DB σ) (key value : Bytes) (out : Outside) :
    db.get exec key value out = db.get exec' key value out := by
  unfold get
  rw [nvmePassthru_congr h db (by simp)]

theorem createIterCmd_congr (db : DB σ) (iterId : Nat) (out : Outside) :
    db.createIterCmd exec iterId out = db.createIterCmd exec' iterId out := by
  unfold createIterCmd
  rw [nvmePassthru_congr h db (by simp)]

theorem call_congr (db : DB σ) (c : Call) : call exec db c = call exec' db c := by
  cases c with
  | put key value out => simp only [call, put, flush_congr h]
  | get key value out => simp only [call, get_congr h]
  | createIter iterId out => simp only [call, createIter, flush_congr h, createIterCmd_congr h]

theorem calls_congr (cs : List Call) : ∀ db : DB σ, calls exec db cs = calls exec' db cs := by
  induction cs with
  | nil => intro db; rfl
  | cons c cs ih =>
      intro db
      simp only [calls, call_congr h, ih]

theorem called_congr (db : DB σ) (cs : List Call) : called exec db cs = called exec' db cs := by
  have hcall : (fun (db : DB σ) c => (call exec db c).2) = fun db c => (call exec' db c).2 := by
    funext db c
    rw [call_congr h]
  rw [called, called, hcall]

end Congr

theorem execPut_eq (cmd : NvmeCmd) (d : MapDevice) (hop : cmd.opcode ≠ .kvPut) :
    MapDevice.execPut cmd d = MapDevice.exec cmd d := by
  unfold MapDevice.execPut
  split
  · exact absurd ‹_› hop
  · rfl

/-! ## Without the buffer -/

section Plain

variable {l : List (Key × Value)} {db : DB MapDevice}

theorem Holds.plainPut (h : Holds ⟨l, []⟩ db) {key value : Bytes} {fresh : Mem} (result : Nat)
    (hkey : key.length = 4) (hsize : value.length ≤ maxBufLen) :
    Holds ⟨l ++ [(key, value)], []⟩
      (db.plainPut MapDevice.execPut key value (some fresh) result).2 := by
  have hmap : ∀ k, lastPut (l ++ [(key, value)]) k =
      Function.update (lastPut l) key (some value) k := by
    intro k
    rw [lastPut, applied_append]
    rfl
  have hlt : value.length < 4294967296 := by
    unfold maxBufLen at hsize
    omega
  have hexec : MapDevice.execPut (plainPutCmd fresh key value) db.device =
      ({ err := 0, result := 0, data := fresh.write 0 value }, { db.device with
        map := Function.update db.device.map key (some value) }) := by
    have hread := plainPutCmd_value fresh key hlt
    have hword : le32 (plainPutCmd fresh key value).cdw10 = key := by
      rw [plainPutCmd, firstFour_eq_self hkey, le32_word hkey]
    have hop : (plainPutCmd fresh key value).opcode = .kvPut := rfl
    simp only [MapDevice.execPut, hop, hread, hword]
    rfl
  have hok : db.nvmePassthru MapDevice.execPut (plainPutCmd fresh key value) result = _ :=
    nvmePassthru_ok (by rw [hexec])
  unfold DB.plainPut
  simp only [hok, hexec]
  refine ⟨h.buffered, ?_, h.plain, h.fits, h.room, ?_⟩
  · funext k
    rw [hmap k]
    show Function.update db.device.map key (some value) k = _
    rw [h.device]
  · intro k v hv
    rw [hmap k] at hv
    by_cases hk : k = key
    · subst hk
      rw [Function.update_self, Option.some.injEq] at hv
      rw [← hv]
      exact le_trans hsize (by decide)
    · rw [Function.update_of_ne hk] at hv
      exact h.small k v hv

theorem Holds.plainCall (h : Holds ⟨l, []⟩ db) (hshort : ∀ r ∈ l, r.2.length ≤ maxBufLen)
    {c : Call} (hsound : PlainSound c) :
    Holds ⟨l ++ (putOf c).toList, []⟩ (plainCall MapDevice.execPut db c).2 ∧
      ∀ key value out, c = .get key value out →
        (Spec.plainCall MapDevice.execPut db c).1 = reported value (lastPut l key) := by
  cases c with
  | put key value out =>
      obtain ⟨hkey, hsize, halloc⟩ := hsound
      obtain ⟨fresh, hfresh⟩ := Option.isSome_iff_exists.mp halloc
      refine ⟨?_, by simp⟩
      simp only [Spec.plainCall, hfresh]
      exact (h.plainPut out.result hkey hsize).finishOp 0
  | get key value out =>
      obtain ⟨hholds, hrep⟩ := h.get value hsound.1 hsound.2
      rw [map_clipped fun v hv => hshort _ (mem_of_lastPut hv)] at hrep
      rw [← get_congr execPut_eq] at hholds hrep
      constructor
      · show Holds ⟨l ++ [], []⟩ _
        rw [List.append_nil]
        exact hholds
      · intro key' value' out' heq
        simp only [Call.get.injEq] at heq
        obtain ⟨rfl, rfl, rfl⟩ := heq
        exact hrep
  | createIter iterId out =>
      have hholds := h.createIterCmd iterId out
      rw [← createIterCmd_congr execPut_eq] at hholds
      refine ⟨?_, by simp⟩
      show Holds ⟨l ++ [], []⟩ _
      rw [List.append_nil]
      exact hholds

theorem short_of_plainSound {c : Call} (h : PlainSound c)
    (hshort : ∀ r ∈ l, r.2.length ≤ maxBufLen) :
    ∀ r ∈ l ++ (putOf c).toList, r.2.length ≤ maxBufLen := by
  intro r hr
  rcases List.mem_append.mp hr with hr | hr
  · exact hshort r hr
  · cases c with
    | put key value out =>
        rw [List.mem_singleton.mp hr]
        exact h.2.1
    | get key value out | createIter iterId out => cases hr

theorem Holds.plainCalls (cs : List Call) : ∀ {l : List (Key × Value)} {db : DB MapDevice},
    Holds ⟨l, []⟩ db → (∀ r ∈ l, r.2.length ≤ maxBufLen) → (∀ c ∈ cs, PlainSound c) →
    Holds ⟨l ++ cs.filterMap putOf, []⟩ (plainCalled MapDevice.execPut db cs) ∧
      ∀ (i : Nat) key value out, cs[i]? = some (.get key value out) →
        (Spec.plainCalls MapDevice.execPut db cs)[i]? =
          some (reported value (lastPut (l ++ (cs.take i).filterMap putOf) key)) := by
  induction cs with
  | nil =>
      intro l db h _ _
      refine ⟨?_, fun i key value out hi => by simp at hi⟩
      rw [List.filterMap_nil, List.append_nil]
      exact h
  | cons c cs ih =>
      intro l db h hshort hsound
      have hsound' := hsound c List.mem_cons_self
      obtain ⟨hnext, hget⟩ := h.plainCall hshort hsound'
      obtain ⟨hlast, hreplies⟩ := ih hnext (short_of_plainSound hsound' hshort)
        fun c' hc' => hsound c' (List.mem_cons_of_mem _ hc')
      have hputs : ∀ cs : List Call,
          l ++ (putOf c).toList ++ cs.filterMap putOf = l ++ (c :: cs).filterMap putOf := by
        intro cs
        rw [List.append_assoc, List.filterMap_cons]
        cases putOf c <;> rfl
      rw [hputs] at hlast
      refine ⟨hlast, fun i key value out hi => ?_⟩
      rw [Spec.plainCalls]
      cases i with
      | zero =>
          simp only [List.getElem?_cons_zero, Option.some.injEq] at hi ⊢
          simpa using hget key value out hi
      | succ i =>
          simp only [List.getElem?_cons_succ] at hi ⊢
          rw [List.take_succ_cons, ← hputs]
          exact hreplies i key value out hi

end Plain

section Buffered

theorem Holds.called (cs : List Call) : ∀ {s : Split} {db : DB MapDevice}, Holds s db →
    (∀ c ∈ cs, Sound c) → BatchesFit s cs →
    Holds (cs.foldl splitStep s) (called MapDevice.exec db cs) := by
  induction cs with
  | nil => intro s db h _ _; exact h
  | cons c cs ih =>
      intro s db h hsound hfits
      obtain ⟨hnext, _⟩ := h.call (hsound c List.mem_cons_self) hfits.1
      exact ih hnext (fun c' hc' => hsound c' (List.mem_cons_of_mem _ hc')) hfits.2

theorem plainSound_of_sound {c : Call} (h : Sound c)
    (hshort : ∀ r ∈ (putOf c).toList, r.2.length ≤ maxBufLen) : PlainSound c := by
  cases c with
  | put key value out =>
      obtain ⟨hkey, _, _, hlog, _⟩ := h
      exact ⟨hkey, hshort (key, value) (List.mem_singleton_self _), hlog⟩
  | get key value out => exact h
  | createIter iterId out => trivial

/-- The gets of the two builds agree in a run exactly if none of them meets a
pending put that differs from what the device has; and a `CreateIter` brings the
devices to the same map. -/
theorem put_builds_agree {cs : List Call} (hsound : ∀ c ∈ cs, Sound c)
    (hfits : BatchesFit ⟨[], []⟩ cs)
    (hshort : ∀ r ∈ cs.filterMap putOf, r.2.length ≤ maxBufLen) :
    (BuildsAgree MapDevice.execPut (opened MapDevice.empty) cs ↔ NoPendingRead cs) ∧
      ∀ iterId out,
        (called MapDevice.execPut (opened MapDevice.empty)
          (cs ++ [.createIter iterId out])).device.map =
        (plainCalled MapDevice.execPut (opened MapDevice.empty)
          (cs ++ [.createIter iterId out])).device.map := by
  have hplain : ∀ c ∈ cs, PlainSound c := fun c hc => plainSound_of_sound (hsound c hc)
    fun r hr => hshort r (List.mem_filterMap.mpr ⟨c, hc, Option.mem_toList.mp hr⟩)
  constructor
  · obtain ⟨_, hreplies⟩ := holds_opened.plainCalls cs (by simp) hplain
    have hcalls := holds_opened.calls cs hsound hfits
    refine forall_congr' fun i => forall_congr' fun key => forall_congr' fun value =>
      forall_congr' fun out => forall_congr' fun hi => ?_
    have hputs := split_append (cs.take i) ⟨[], []⟩
    rw [List.nil_append, List.nil_append] at hputs
    have hclip : (lastPut (split (cs.take i)).flushed key).map clipped =
        lastPut (split (cs.take i)).flushed key := by
      refine map_clipped fun v hv => hshort (key, v) ?_
      refine ((List.take_sublist i cs).filterMap putOf).mem ?_
      rw [← hputs]
      exact List.mem_append_left _ (mem_of_lastPut hv)
    have hreply := hcalls i key value out hi
    change _ = some (reported value ((lastPut (split (cs.take i)).flushed key).map clipped))
      at hreply
    rw [calls_congr execPut_eq, hreply, hclip, hreplies i key value out hi, List.nil_append,
      ← hputs, lastPut_append, Option.some.injEq]
    exact ⟨fun h => or_eq_iff.mp (reported_inj h), fun h => congrArg _ (or_eq_iff.mpr h)⟩
  · intro iterId out
    obtain ⟨hlast, _⟩ := holds_opened.plainCalls cs (by simp) hplain
    have hbuffered := (holds_opened.called cs hsound hfits).createIter iterId out
    have hcmd := hlast.createIterCmd iterId out
    have hputs := split_append cs ⟨[], []⟩
    rw [← createIterCmd_congr execPut_eq] at hcmd
    rw [called_congr execPut_eq, called, plainCalled, List.foldl_append, List.foldl_append]
    refine hbuffered.device.trans (Eq.trans ?_ hcmd.device.symm)
    show lastPut (_ ++ _) = lastPut ([] ++ _)
    rw [hputs]
    rfl

end Buffered

/-- Right after the put only the plain build finds it. -/
theorem put_builds_agree_put_get :
    ¬ BuildsAgree MapDevice.execPut (opened MapDevice.empty)
      [.put [97, 97, 97, 97] [1] .fine, .get [97, 97, 97, 97] [] .fine] := by
  intro h
  have hpending := (put_builds_agree (by simp [Sound, Outside.fine])
    (by simp [BatchesFit, splitStep, putOf, pagesOf, pages, limitValueBufferEntry,
      maxValueBufferEntry]) (by simp [putOf, maxBufLen])).1.mp h
  exact absurd (hpending 1 [97, 97, 97, 97] [] .fine rfl) (by decide)

end DB

end Kvaccel.Ref
