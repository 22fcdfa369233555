import Mathlib.Data.List.Sort
import Mathlib.Order.Defs.Unbundled

/-!
# Two sorted tables side by side

The outer join of two tables in key order: one row for every key of either,
with what each table has under it. A merge of the two is a walk along the
rows, so a program that merges is proved by induction on them; the tables
themselves are the two columns (`lefts_join`, `rights_join`).
-/

namespace Kvaccel.Lib

variable {α β γ : Type}

inductive Row (α β γ : Type) where
  | left (k : α) (b : β)
  | right (k : α) (c : γ)
  | both (k : α) (b : β) (c : γ)

namespace Row

def key : Row α β γ → α
  | .left k _ | .right k _ | .both k _ _ => k

def left? : Row α β γ → Option (α × β)
  | .left k b | .both k b _ => some (k, b)
  | .right _ _ => none

def right? : Row α β γ → Option (α × γ)
  | .right k c | .both k _ c => some (k, c)
  | .left _ _ => none

end Row

def lefts (rows : List (Row α β γ)) : List (α × β) := rows.filterMap Row.left?

def rights (rows : List (Row α β γ)) : List (α × γ) := rows.filterMap Row.right?

section Columns

variable {k : α} {b : β} {c : γ} {r : Row α β γ} {rows : List (Row α β γ)}

@[simp] theorem lefts_nil : lefts ([] : List (Row α β γ)) = [] := rfl

@[simp] theorem rights_nil : rights ([] : List (Row α β γ)) = [] := rfl

@[simp] theorem lefts_left : lefts (.left k b :: rows) = (k, b) :: lefts rows := rfl

@[simp] theorem lefts_right : lefts (.right k c :: rows) = lefts rows := rfl

@[simp] theorem lefts_both : lefts (.both k b c :: rows) = (k, b) :: lefts rows := rfl

@[simp] theorem rights_left : rights (.left k b :: rows) = rights rows := rfl

@[simp] theorem rights_right : rights (.right k c :: rows) = (k, c) :: rights rows := rfl

@[simp] theorem rights_both : rights (.both k b c :: rows) = (k, c) :: rights rows := rfl

theorem key_of_mem_lefts {e : α × β} (h : e ∈ lefts rows) :
    ∃ r ∈ rows, r.key = e.1 := by
  obtain ⟨r, hr, he⟩ := List.mem_filterMap.mp h
  refine ⟨r, hr, ?_⟩
  cases r <;> cases he <;> rfl

theorem key_of_mem_rights {e : α × γ} (h : e ∈ rights rows) :
    ∃ r ∈ rows, r.key = e.1 := by
  obtain ⟨r, hr, he⟩ := List.mem_filterMap.mp h
  refine ⟨r, hr, ?_⟩
  cases r <;> cases he <;> rfl

/-- The keys of the rows are those of the two columns. -/
theorem mem_keys : k ∈ rows.map Row.key ↔
    k ∈ (lefts rows).map Prod.fst ∨ k ∈ (rights rows).map Prod.fst := by
  induction rows with
  | nil => simp
  | cons r rows ih =>
      rw [List.map_cons, List.mem_cons, ih]
      cases r <;> simp [Row.key] <;> tauto

end Columns

/-- In key order, each key once. -/
def Ascending (lt : α → α → Prop) (l : List (α × β)) : Prop :=
  l.Pairwise fun a b => lt a.1 b.1

section Order

variable (lt : α → α → Prop) [DecidableRel lt]

/-- What is left of the table from `k` on. -/
def fromKey (k : α) (l : List (α × β)) : List (α × β) :=
  l.dropWhile fun e => decide (lt e.1 k)

/-- The rows from the left entry `e` on, given those of the entries after it. -/
def joinEntry (e : α × β) (rest : List (α × γ) → List (Row α β γ)) :
    List (α × γ) → List (Row α β γ)
  | [] => .left e.1 e.2 :: rest []
  | d :: ds =>
      if lt d.1 e.1 then .right d.1 d.2 :: joinEntry e rest ds
      else if lt e.1 d.1 then .left e.1 e.2 :: rest (d :: ds)
      else .both e.1 e.2 d.2 :: rest ds

def join : List (α × β) → List (α × γ) → List (Row α β γ)
  | [], ds => ds.map fun d => .right d.1 d.2
  | e :: es, ds => joinEntry lt e (join es) ds

variable {lt}

theorem lefts_join (es : List (α × β)) (ds : List (α × γ)) :
    lefts (join lt es ds) = es := by
  induction es generalizing ds with
  | nil =>
      rw [join]
      induction ds with
      | nil => rfl
      | cons d ds ih => exact ih
  | cons e es ih =>
      rw [join]
      induction ds with
      | nil => simp [joinEntry, ih]
      | cons d ds ihd =>
          rw [joinEntry]
          split
          · exact ihd
          · split <;> simp [ih]

theorem rights_join [IsStrictTotalOrder α lt] (es : List (α × β)) (ds : List (α × γ)) :
    rights (join lt es ds) = ds := by
  induction es generalizing ds with
  | nil =>
      rw [join]
      induction ds with
      | nil => rfl
      | cons d ds ih => simp [ih]
  | cons e es ih =>
      rw [join]
      induction ds with
      | nil => simp [joinEntry, ih]
      | cons d ds ihd =>
          rw [joinEntry]
          split
          · simp [ihd]
          · split
            · simp [ih]
            · rename_i hde hed
              have heq : e.1 = d.1 := Std.Trichotomous.trichotomous e.1 d.1 hed hde
              simp [ih, heq]

variable [IsStrictTotalOrder α lt]

theorem mem_fromKey {k : α} {l : List (α × β)} (h : Ascending lt l) {e : α × β} :
    e ∈ fromKey lt k l ↔ e ∈ l ∧ ¬ lt e.1 k := by
  induction l with
  | nil => simp [fromKey]
  | cons a l ih =>
      obtain ⟨ha, hl⟩ := List.pairwise_cons.mp h
      rw [fromKey, List.dropWhile_cons]
      by_cases hak : lt a.1 k
      · rw [if_pos (decide_eq_true hak), ← fromKey, ih hl, List.mem_cons]
        refine and_congr_left fun hek => ?_
        constructor
        · exact Or.inr
        · rintro (rfl | he)
          · exact absurd hak hek
          · exact he
      · rw [if_neg (by simpa using hak)]
        refine (and_iff_left_of_imp fun he hek => ?_).symm
        rcases List.mem_cons.mp he with rfl | he
        · exact hak hek
        · exact hak (IsTrans.trans _ _ _ (ha e he) hek)

omit [IsStrictTotalOrder α lt] in
theorem ascending_fromKey {k : α} {l : List (α × β)} (h : Ascending lt l) :
    Ascending lt (fromKey lt k l) :=
  h.sublist (List.dropWhile_sublist _)

/-- A key of the table is the first one from itself on. -/
theorem mem_keys_iff_head_fromKey {k : α} {l : List (α × β)} (h : Ascending lt l) :
    k ∈ l.map Prod.fst ↔ (fromKey lt k l).head?.map Prod.fst = some k := by
  constructor
  · intro hk
    obtain ⟨e, he, rfl⟩ := List.mem_map.mp hk
    have hfrom : e ∈ fromKey lt e.1 l := (mem_fromKey h).mpr ⟨he, irrefl_of lt e.1⟩
    have hasc : Ascending lt (fromKey lt e.1 l) := ascending_fromKey h
    cases hl : fromKey lt e.1 l with
    | nil => simp [hl] at hfrom
    | cons d ds =>
        rw [hl] at hfrom hasc
        rcases List.mem_cons.mp hfrom with rfl | htail
        · rfl
        · have hlt : lt d.1 e.1 := (List.pairwise_cons.mp hasc).1 e htail
          have hd := (mem_fromKey h).mp (hl ▸ List.mem_cons_self : d ∈ fromKey lt e.1 l)
          exact absurd hlt hd.2
  · intro hhead
    obtain ⟨e, he, rfl⟩ := Option.map_eq_some_iff.mp hhead
    exact List.mem_map_of_mem ((mem_fromKey h).mp (List.mem_of_mem_head? he)).1

/-- The rows come in key order. -/
theorem ascending_join {es : List (α × β)} {ds : List (α × γ)} (hes : Ascending lt es)
    (hds : Ascending lt ds) :
    (join lt es ds).Pairwise fun r r' => lt r.key r'.key := by
  -- A bound for both tables bounds the rows.
  have hbound : ∀ (k : α) (es : List (α × β)) (ds : List (α × γ)),
      (∀ e ∈ es, lt k e.1) → (∀ d ∈ ds, lt k d.1) →
      ∀ r ∈ join lt es ds, lt k r.key := by
    intro k es ds hes hds r hr
    have hk : r.key ∈ (join lt es ds).map Row.key := List.mem_map_of_mem hr
    rw [mem_keys, lefts_join, rights_join] at hk
    rcases hk with hk | hk <;> obtain ⟨e, he, heq⟩ := List.mem_map.mp hk <;> rw [← heq]
    · exact hes e he
    · exact hds e he
  induction es generalizing ds with
  | nil =>
      rw [join, List.pairwise_map]
      exact hds
  | cons e es ih =>
      obtain ⟨he, hes⟩ := List.pairwise_cons.mp hes
      induction ds with
      | nil =>
          rw [join, joinEntry]
          exact List.pairwise_cons.mpr ⟨hbound _ _ _ he nofun, ih hes .nil⟩
      | cons d ds ihd =>
          obtain ⟨hd, hds'⟩ := List.pairwise_cons.mp hds
          rw [join, joinEntry]
          split
          · rename_i hde
            refine List.pairwise_cons.mpr ⟨?_, ihd hds'⟩
            refine hbound d.1 (e :: es) ds (fun a ha => ?_) hd
            rcases List.mem_cons.mp ha with rfl | ha
            · exact hde
            · exact IsTrans.trans _ _ _ hde (he a ha)
          · split
            · rename_i hde hed
              refine List.pairwise_cons.mpr ⟨?_, ih hes hds⟩
              refine hbound e.1 es (d :: ds) he fun a ha => ?_
              rcases List.mem_cons.mp ha with rfl | ha
              · exact hed
              · exact IsTrans.trans _ _ _ hed (hd a ha)
            · rename_i hde hed
              have heq : e.1 = d.1 := Std.Trichotomous.trichotomous e.1 d.1 hed hde
              refine List.pairwise_cons.mpr ⟨?_, ih hes hds'⟩
              exact hbound e.1 es ds he (heq ▸ hd)

end Order

end Kvaccel.Lib
