import Kvaccel.Lib.Circle
import Kvaccel.Proofs.KvDriver
import Kvaccel.Ref.SingleIter

/-!
# A walk along the keys

What an iterator over single records is for: from a start key on it hands out
the records of the map in the order of their key words, one with each call.
`keysUpFrom` are the words it meets up to the largest; `keysFrom` goes on with
the smallest after that, once round.

The driver's two builds are run here call by call. A `CursorDevice` is a device
for the build that sends commands: it has a list of words ahead of every
iterator, set by a seek and used up one by one.
-/

namespace Kvaccel.Spec

open Kvaccel.Lib Kvaccel.Ref

/-- A key is one of so many words. -/
@[irreducible] def wordCount : Nat := 4294967296

theorem u32_eq_mod (i : Nat) : u32 i = i % wordCount := by
  rw [u32, wordCount]

theorem u32_lt_wordCount (i : Nat) : u32 i < wordCount := by
  rw [wordCount]
  exact Nat.mod_lt _ (by decide)

theorem word_lt_wordCount (bs : Bytes) : word bs < wordCount := by
  rw [wordCount]
  exact word_lt bs

def held (m : Key → Option Value) (i : Nat) : Bool := (m (le32 i)).isSome

/-- The words of the keys from `start` up. -/
def keysUpFrom (m : Key → Option Value) (start : Nat) : List Nat :=
  ((List.range wordCount).drop start).filter (held m)

/-- The words of all keys, from `start` up and then from zero. -/
def keysFrom (m : Key → Option Value) (start : Nat) : List Nat :=
  ((List.range wordCount).rotate start).filter (held m)

theorem keysFrom_eq (m : Key → Option Value) {start : Nat} (h : start ≤ wordCount) :
    keysFrom m start =
      keysUpFrom m start ++ ((List.range wordCount).take start).filter (held m) := by
  rw [keysFrom, List.rotate_eq_drop_append_take (by simpa using h), List.filter_append]
  rfl

theorem mem_keysFrom {m : Key → Option Value} {start k : Nat} :
    k ∈ keysFrom m start ↔ k < wordCount ∧ held m k = true := by
  rw [keysFrom, List.mem_filter, List.mem_rotate, List.mem_range]

/-- Behind the largest key comes the smallest. -/
theorem keysFrom_rotate (m : Key → Option Value) {start : Nat} (h : start ≤ wordCount) :
    (keysFrom m start).rotate (keysUpFrom m start).length = keysFrom m 0 := by
  rw [keysFrom_eq m h, List.rotate_append_length_eq, keysUpFrom, ← List.filter_append,
    List.take_append_drop, keysFrom, List.rotate_zero]

theorem le_of_head?_keysFrom {m : Key → Option Value} {k i : Nat}
    (hk : (keysFrom m 0).head? = some k) (hi : i < wordCount) (hheld : held m i = true) :
    k ≤ i := by
  obtain ⟨ks, hks⟩ := List.head?_eq_some_iff.mp hk
  have hmem : i ∈ keysFrom m 0 := mem_keysFrom.mpr ⟨hi, hheld⟩
  have hsorted : (keysFrom m 0).Pairwise (· < ·) := by
    rw [keysFrom, List.rotate_zero]
    exact List.pairwise_lt_range.filter _
  rw [hks] at hmem hsorted
  rcases List.mem_cons.mp hmem with rfl | hmem
  · exact Nat.le_refl _
  · exact ((List.pairwise_cons.mp hsorted).1 i hmem).le

section Calls

variable {σ : Type} (exec : Device σ)

/-- The driver after these calls. -/
def called (db : DB σ) (cs : List Call) : DB σ := cs.foldl (fun db c => (call exec db c).2) db

/-- The puts among the calls are ones the driver can carry. -/
def CarriedCalls (cs : List Call) : Prop :=
  ∀ k v out, .put k v out ∈ cs → Fitting (k, v) ∧ Supplied out

variable (iterId : Nat) (key : Bytes) (strings : Nat → Bytes)

/-- The `n`-th call of a `Seek` and `Next`s after it, in the build that gets.
The caller's string and what is found outside are different every time. -/
def getScan (fuel : Nat) (outs : Nat → Nat → Outside) (it : GetIters σ) :
    Nat → Option (Int × Bytes × GetIters σ)
  | 0 => it.seek exec fuel iterId key (strings 0) (outs 0)
  | n + 1 => (getScan fuel outs it n).bind fun r =>
      r.2.2.next exec fuel iterId (strings (n + 1)) (outs (n + 1))

/-- The same calls in the build that sends commands. -/
def cmdScan (outs : Nat → Outside) (db : DB σ) : Nat → Int × Bytes × DB σ
  | 0 => db.seek exec iterId key (strings 0) (outs 0)
  | n + 1 => (cmdScan outs db n).2.2.next exec iterId (strings (n + 1)) (outs (n + 1))

end Calls

/-- The first of these records, or that there is none. -/
def firstReply (m : Key → Option Value) (ks : List Nat) : IoResult :=
  DB.foundReply (ks.head?.bind fun k => m (le32 k))

structure CursorDevice (σ : Type) extends KvDevice σ where
  cursor : σ → Nat → List Nat
  seek : ∀ d iterId key,
    (exec (DB.seekCmd iterId key) d).1 =
        firstReply (mem d).map (keysUpFrom (mem d).map (word (firstFour key))) ∧
      cursor (exec (DB.seekCmd iterId key) d).2 iterId =
        (keysUpFrom (mem d).map (word (firstFour key))).tail
  next : ∀ d iterId,
    (exec (DB.nextCmd iterId) d).1 = firstReply (mem d).map (cursor d iterId) ∧
      cursor (exec (DB.nextCmd iterId) d).2 iterId = (cursor d iterId).tail

/-! ## One of them -/

section WithCursors

variable {σ : Type} (K : KvDevice σ)

/-- Any device with a list of words beside it for every iterator. -/
def cursorExec : Device (σ × (Nat → List Nat)) := fun cmd d =>
  match cmd.opcode with
  | .kvIterSeek =>
      let ks := keysUpFrom (K.mem d.1).map cmd.cdw10
      (firstReply (K.mem d.1).map ks, (d.1, Function.update d.2 cmd.cdw13 ks.tail))
  | .kvIterNext =>
      let ks := d.2 cmd.cdw13
      (firstReply (K.mem d.1).map ks, (d.1, Function.update d.2 cmd.cdw13 ks.tail))
  | _ => ((K.exec cmd d.1).1, ((K.exec cmd d.1).2, d.2))

variable {K}

theorem cursorExec_other {cmd : NvmeCmd} (d : σ × (Nat → List Nat))
    (hseek : cmd.opcode ≠ .kvIterSeek) (hnext : cmd.opcode ≠ .kvIterNext) :
    cursorExec K cmd d = ((K.exec cmd d.1).1, ((K.exec cmd d.1).2, d.2)) := by
  unfold cursorExec
  split
  · exact absurd ‹_› hseek
  · exact absurd ‹_› hnext
  · rfl

theorem cursorExec_scan {opcode : NvmeOpcode} (h : opcode = .kvRangeScanSeek ∨
    opcode = .kvRangeScanNext) (start iterId : Nat) (d : σ × (Nat → List Nat)) :
    cursorExec K (scanCmd opcode start iterId) d =
      ((K.exec (scanCmd opcode start iterId) d.1).1,
        ((K.exec (scanCmd opcode start iterId) d.1).2, d.2)) := by
  rcases h with rfl | rfl <;> exact cursorExec_other d (fun h => by cases h) fun h => by cases h

theorem Answers.withCursors {opcode : NvmeOpcode} (hop : opcode = .kvRangeScanSeek ∨
    opcode = .kvRangeScanNext) {iterId start : Nat} {b : List Record}
    {d : σ × (Nat → List Nat)} (h : Answers K.exec iterId opcode start b d.1) :
    Answers (cursorExec K) iterId opcode start b d := by
  refine ⟨?_, h.some, ?_⟩
  · rw [cursorExec_scan hop]
    exact h.ok
  · rw [cursorExec_scan hop]
    exact h.layout

theorem feeds_withCursors (iterId : Nat) : ∀ (bs : List (List Record)) (brk : Nat)
    (d : σ × (Nat → List Nat)), Feeds K.exec iterId bs brk d.1 →
    Feeds (cursorExec K) iterId bs brk d := by
  intro bs
  induction bs with
  | nil => intro brk d h; exact h
  | cons b rest ih =>
      intro brk d h
      obtain ⟨hbrk, hanswers, hrest⟩ := h
      refine ⟨hbrk, hanswers.withCursors (Or.inr rfl), ?_⟩
      rw [cursorExec_scan (Or.inr rfl)]
      exact ih _ _ hrest

variable (K)

def withCursors : CursorDevice (σ × (Nat → List Nat)) where
  exec := cursorExec K
  mem := fun d => K.mem d.1
  acts := by
    intro cmd d
    by_cases hseek : cmd.opcode = .kvIterSeek
    · simp only [cursorExec, MapDevice.exec, hseek]
    · by_cases hnext : cmd.opcode = .kvIterNext
      · simp only [cursorExec, MapDevice.exec, hnext]
      · rw [cursorExec_other d hseek hnext]
        exact K.acts cmd d.1
  ok := by
    intro cmd d h
    rw [cursorExec_other d (by rcases h with h | h <;> simp [h])
      (by rcases h with h | h <;> simp [h])]
    exact K.ok cmd d.1 h
  get := by
    intro cmd d h
    rw [cursorExec_other d (by simp [h]) (by simp [h])]
    obtain ⟨hreply, hstate⟩ := K.get cmd d.1 h
    exact ⟨hreply, by rw [hstate]⟩
  serves := by
    intro d puts iterId hmap hne hfit
    obtain ⟨bs, hserves, henum⟩ := K.serves d.1 puts iterId hmap hne hfit
    refine ⟨bs, ?_, henum⟩
    cases bs with
    | nil => exact hserves
    | cons b rest =>
        obtain ⟨hanswers, hfeeds⟩ := hserves
        refine ⟨hanswers.withCursors (Or.inl rfl), ?_⟩
        rw [cursorExec_scan (Or.inl rfl)]
        exact feeds_withCursors iterId rest _ _ hfeeds
  cursor := Prod.snd
  seek := fun _ _ _ => ⟨rfl, Function.update_self ..⟩
  next := fun _ _ => ⟨rfl, Function.update_self ..⟩

end WithCursors

end Kvaccel.Spec
