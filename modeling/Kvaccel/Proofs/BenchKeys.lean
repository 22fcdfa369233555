import Kvaccel.Proofs.Isolation
import Kvaccel.Ref.BenchKeys

/-!
# Which keys of the benchmark the device tells apart

The number stands in the first eight bytes of a generated key, and the device
sees the first four. So of the number it sees what is left after the lower
bytes are cut off: all of it where the key has four bytes, nothing of a number
below 2^32 where it has eight or more. The default size is 16.

What this comes to for a client is in terms of `Isolated`: whether a put of one
key can change what a get of another returns.
-/

namespace Kvaccel.Ref

open Kvaccel.Lib

namespace Master

variable {murmur : Murmur}

theorem get_of_tracked {s : Master} {k : Key} {v : Value} (hflag : s.kacheFlag = 1)
    (htracked : s.keyTracker.contains (doubleHash murmur k 1) = true)
    (hdev : s.dev.lookup (firstFour k) = some v) : s.get murmur k = (.ok, some v) := by
  rw [get_eq, if_neg (by rw [hflag]; decide), view, if_pos htracked, hdev]
  rfl

/-- A redirected put of one key answers the get of another, if the two begin
with the same four bytes. -/
theorem not_isolated_of_firstFour_eq {k₁ k₂ : Key} (h : firstFour k₁ = firstFour k₂)
    (v : Value) :
    ¬ Isolated murmur k₁ k₂ [] [((.high, 40), .get k₂)] (.high, 40) v := by
  have hget : ((opened.monitor (.high, 40)).put murmur k₁ v).2.get murmur k₂ = (.ok, some v) := by
    refine get_of_tracked rfl ?_ ?_
    · show (HashMap.empty.insert (doubleHash murmur k₁ 1) k₁ : HashMap Key 128).contains _ = true
      rw [HashMap.contains_iff, ← doubleHash_firstFour murmur k₂, ← h, doubleHash_firstFour,
        HashMap.countOf_insert, if_pos rfl]
      omega
    · show AList.lookup (firstFour k₂) (AList.insert (firstFour k₁) v ∅ : DevMap) = some v
      rw [← h]
      exact AList.lookup_insert _
  rintro ⟨outs, s, outs', s', hrun, hrun', hans⟩
  have houts : outs = [.monitor, .get .notFound none] :=
    (congrArg Prod.fst (Option.some.inj hrun)).symm
  have houts' : outs' = [.monitor, .put .ok, .monitor,
      .get (((opened.monitor (.high, 40)).put murmur k₁ v).2.get murmur k₂).1
        (((opened.monitor (.high, 40)).put murmur k₁ v).2.get murmur k₂).2] :=
    (congrArg Prod.fst (Option.some.inj hrun')).symm
  rw [hget] at houts'
  rw [houts, houts'] at hans
  simp [answersTo, withLevels] at hans

end Master

/-! ## The keys -/

/-- Numbers without a prefix, as the evaluation script asks for. -/
structure KeyFormat.Plain (f : KeyFormat) : Prop where
  existing : f.existing = []
  keysPerPrefix : f.keysPerPrefix = 0

section Keys

variable {f : KeyFormat} {numKeys : Nat}

/-- What the device sees of a number. -/
theorem firstFour_generateKeyFromInt (h : f.Plain) (hsize : 4 ≤ f.keySize) (v numKeys : Nat) :
    firstFour (generateKeyFromInt f v numKeys) =
      bigEndian 4 (v / 256 ^ (min f.keySize 8 - 4)) := by
  have hstart : f.start v numKeys = [] := if_neg (by rw [h.keysPerPrefix]; exact Nat.lt_irrefl 0)
  have hfill : min (f.keySize - 0) 8 = 4 + (min f.keySize 8 - 4) := by omega
  rw [generateKeyFromInt, if_neg (by simp [h.existing])]
  simp only [hstart, List.nil_append, List.length_nil]
  rw [firstFour, List.append_assoc, hfill, List.take_append_of_le_length (by simp),
    take_bigEndian]

theorem firstFour_inj_of_four (h : f.Plain) (hsize : f.keySize = 4) {v w : Nat}
    (hv : v < 4294967296) (hw : w < 4294967296)
    (heq : firstFour (generateKeyFromInt f v numKeys) =
      firstFour (generateKeyFromInt f w numKeys)) : v = w := by
  rw [firstFour_generateKeyFromInt h hsize.ge, firstFour_generateKeyFromInt h hsize.ge, hsize,
    bigEndian_inj] at heq
  simp only [Nat.reduceLeDiff, Nat.min_eq_left, Nat.sub_self, Nat.pow_zero, Nat.div_one] at heq
  omega

/-- Of a longer key not even the last byte. -/
theorem firstFour_zero_eq_one (h : f.Plain) (hsize : 4 < f.keySize) (numKeys : Nat) :
    firstFour (generateKeyFromInt f 0 numKeys) = firstFour (generateKeyFromInt f 1 numKeys) := by
  rw [firstFour_generateKeyFromInt h hsize.le, firstFour_generateKeyFromInt h hsize.le,
    Nat.zero_div, Nat.div_eq_of_lt]
  exact Nat.one_lt_pow (by omega) (by decide)

/-- The keys that a benchmark of `numKeys` keys uses. -/
def benchKeys (f : KeyFormat) (numKeys : Nat) : Set Key :=
  {k | ∃ i < numKeys, k = generateKeyFromInt f i numKeys}

/-- Puts of one key of the benchmark never change what is read for another, in
any run over its keys, exactly when the keys have four bytes. -/
theorem benchKeys_isolated_iff {murmur : Murmur}
    (hap : Master.HashesApart murmur (benchKeys f numKeys)) (h : f.Plain)
    (hsize : 4 ≤ f.keySize) (hsome : 2 ≤ numKeys) (hnum : numKeys ≤ 4294967296) :
    (∀ v w, v < numKeys → w < numKeys → v ≠ w → ∀ pre post m x,
      (∀ st ∈ pre ++ post, ∀ k ∈ st.2.keys, k ∈ benchKeys f numKeys) →
      Master.Isolated murmur (generateKeyFromInt f v numKeys) (generateKeyFromInt f w numKeys)
        pre post m x) ↔ f.keySize = 4 := by
  constructor
  · intro hall
    by_contra hne
    refine Master.not_isolated_of_firstFour_eq
      (firstFour_zero_eq_one h (Nat.lt_of_le_of_ne hsize (Ne.symm hne)) numKeys) []
      (hall 0 1 (by omega) (by omega) (by decide) _ _ _ _ ?_)
    intro st hst k hk
    simp only [List.nil_append, List.mem_singleton] at hst
    subst hst
    rw [List.mem_singleton.mp hk]
    exact ⟨1, by omega, rfl⟩
  · intro hfour v w hv hw hne pre post m x hkeys
    refine Master.isolated_of_firstFour_ne hap ⟨v, hv, rfl⟩ (fun heq => hne ?_)
      (fun st hst => hkeys st (List.mem_append_left _ hst))
      (fun st hst => hkeys st (List.mem_append_right _ hst)) m x
    exact firstFour_inj_of_four h hfour (by omega) (by omega) heq

end Keys

/-- With the default size, where all keys begin alike. -/
theorem benchKeys_isolated_iff_default :
    ¬ ∀ v w, v < 100000 → w < 100000 → v ≠ w → ∀ pre post m x,
      (∀ st ∈ pre ++ post, ∀ k ∈ st.2.keys, k ∈ benchKeys ⟨16, 0, 0, []⟩ 100000) →
      Master.Isolated murmurHash3 (generateKeyFromInt ⟨16, 0, 0, []⟩ v 100000)
        (generateKeyFromInt ⟨16, 0, 0, []⟩ w 100000) pre post m x := by
  have hplain : (⟨16, 0, 0, []⟩ : KeyFormat).Plain := ⟨rfl, rfl⟩
  have hap : Master.HashesApart murmurHash3 (benchKeys ⟨16, 0, 0, []⟩ 100000) := by
    rintro _ ⟨i, hi, rfl⟩ _ ⟨j, hj, rfl⟩ _
    rw [firstFour_generateKeyFromInt hplain (by decide),
      firstFour_generateKeyFromInt hplain (by decide), Nat.div_eq_of_lt, Nat.div_eq_of_lt]
    · exact Nat.lt_of_lt_of_le hj (by decide)
    · exact Nat.lt_of_lt_of_le hi (by decide)
  rw [benchKeys_isolated_iff hap hplain (by decide) (by decide) (by decide)]
  decide

end Kvaccel.Ref
