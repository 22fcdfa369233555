import Kvaccel.Spec.Merged

/-!
# What the composite iterator delivers

The two stores side by side are a list of rows, and a right iteration shows
one row after the other. `At` is the iterator at a row: both of its cursors
stand at the first record from that row on, and the side shown has the row.
One `IteratorNext` leads to the next row exactly when the store whose turn it
is has that row and neither store is exhausted (`At.next`); otherwise the next
read is wrong, or undefined (`At.astray`). The rest is induction on the rows.
-/

namespace Kvaccel.Spec

open Kvaccel.Lib Kvaccel.Ref

section Rows

variable {get : Key → Option Value} {side : Side} {r r' : Row Key Value Value}
  {rows : Rows}

/-- Turns can only be taken as long as both stores have records. -/
theorem TakesTurns.nonempty (h : TakesTurns get side rows) (hne : rows ≠ []) :
    lefts rows ≠ [] ∧ rights rows ≠ [] := by
  induction rows generalizing side with
  | nil => exact absurd rfl hne
  | cons r rows ih =>
      obtain ⟨_, hlast, hrest⟩ := h
      cases rows with
      | nil =>
          obtain ⟨hl, hr⟩ := hlast rfl
          cases r with
          | left k v => cases hr
          | right k v => cases hl
          | both k v w => exact ⟨nofun, nofun⟩
      | cons r' rows =>
          obtain ⟨hl, hr⟩ := ih hrest nofun
          cases r with
          | left k v => exact ⟨nofun, hr⟩
          | right k v => exact ⟨hl, nofun⟩
          | both k v w => exact ⟨nofun, nofun⟩

/-- The key a scan call notes: fresh strings stay empty at the end. -/
def headKey (l : List (Key × Value)) : Key := (l.head?.map Prod.fst).getD []

def headValue (l : List (Key × Value)) : Value := (l.head?.map Prod.snd).getD []

theorem headKey_lefts (h : (Side.main.value r).isSome) :
    headKey (lefts (r :: rows)) = r.key := by
  cases r with
  | right k w => cases h
  | left k v => rfl
  | both k v w => rfl

theorem headKey_rights (h : (Side.dev.value r).isSome) :
    headKey (rights (r :: rows)) = r.key := by
  cases r with
  | left k v => cases h
  | right k w => rfl
  | both k v w => rfl

end Rows

section Walk

variable {D : ScanLsm} {scan : SortedScan D} {s s' : MasterIter D} {side : Side}
  {r r' : Row Key Value Value} {rows : Rows} {env : D.Env}

theorem advanceDev_spec (scan : SortedScan D) (env : D.Env)
    {rest : List (Key × Value)} (h : scan.Pending s.ilsm s.ilsmIterId rest) :
    D.iterKeys (s.advanceDev env).ilsm s.ilsmIterId = headKey rest ∧
      D.iterValues (s.advanceDev env).ilsm s.ilsmIterId = headValue rest ∧
      scan.Pending (s.advanceDev env).ilsm s.ilsmIterId rest.tail := by
  unfold MasterIter.advanceDev
  cases rest with
  | nil =>
      obtain ⟨flag, st, hnext, hpending⟩ := scan.ended env s.ilsmIterId [] [] s.ilsm h
      simp only [hnext]
      exact ⟨D.iterKeys_noteIter .., D.iterValues_noteIter .., scan.note _ _ _ _ _ hpending⟩
  | cons r rest =>
      obtain ⟨flag, st, hnext, hpending⟩ := scan.next env s.ilsmIterId [] [] s.ilsm r rest h
      simp only [hnext]
      exact ⟨D.iterKeys_noteIter .., D.iterValues_noteIter .., scan.note _ _ _ _ _ hpending⟩

theorem next_main {e : Key × Value} {es : List (Key × Value)} (hflag : s.kacheFlag = 1)
    (hloc : s.iterLocation = 0) (hrest : s.iter.rest = e :: es) :
    s.iteratorNext env = if es = [] then none else some
      (if Before (D.iterKeys s.ilsm s.ilsmIterId) (headKey es) then
        { ({ s with iter := s.iter.next } : MasterIter D).advanceDev env with
          iterLocation := 1 }
      else
        { s with iter := s.iter.next }) := by
  have hzero : ¬ s.kacheFlag = 0 := by omega
  have hmain : s.iterLocation = 0 ∧ s.iter.valid = true := by
    simp [hloc, MainIter.valid, hrest]
  simp only [MasterIter.iteratorNext, if_neg hzero, if_pos hmain, MainIter.key,
    MainIter.next, hrest, List.tail_cons, lt_sliceCompare]
  cases es <;> rfl

theorem next_dev {e : Key × Value} {es : List (Key × Value)} (hflag : s.kacheFlag = 1)
    (hloc : s.iterLocation = 1) (hrest : s.iter.rest = e :: es) :
    s.iteratorNext env = some
      (if Before e.1 (D.iterKeys (s.advanceDev env).ilsm s.ilsmIterId) then
        { s.advanceDev env with iter := s.iter.next, iterLocation := 0 }
      else
        s.advanceDev env) := by
  have hzero : ¬ s.kacheFlag = 0 := by omega
  have hmain : ¬ (s.iterLocation = 0 ∧ s.iter.valid = true) := by simp [hloc]
  simp only [MasterIter.iteratorNext, if_neg hzero, if_neg hmain, if_pos hloc,
    MasterIter.advanceDev, MainIter.key, hrest]
  rfl

/-- The iterator shows the first of the rows from `side`. -/
structure At (scan : SortedScan D) (s : MasterIter D) (side : Side) (rows : Rows) :
    Prop where
  flag : s.kacheFlag = 1
  location : s.iterLocation = side.location
  main : s.iter.rest = lefts rows
  key : D.iterKeys s.ilsm s.ilsmIterId = headKey (rights rows)
  value : D.iterValues s.ilsm s.ilsmIterId = headValue (rights rows)
  pending : scan.Pending s.ilsm s.ilsmIterId (rights rows).tail
  left : lefts rows ≠ []
  right : rights rows ≠ []
  shown : ∀ r ∈ rows.head?, (side.value r).isSome

theorem At.read (h : At scan s side (r :: rows)) :
    ∃ v, side.value r = some v ∧ s.read = some (r.key, v) := by
  have hshown := h.shown r rfl
  cases side with
  | main =>
      have hloc : s.iterLocation = 0 := h.location
      simp only [MasterIter.read, MasterIter.iteratorKey, MasterIter.iteratorValue,
        if_pos hloc, MainIter.key, MainIter.value, h.main]
      cases r with
      | left k v => exact ⟨v, rfl, rfl⟩
      | right k v => cases hshown
      | both k v w => exact ⟨v, rfl, rfl⟩
  | dev =>
      have hloc : s.iterLocation ≠ 0 := by rw [h.location]; exact nofun
      simp only [MasterIter.read, MasterIter.iteratorKey, MasterIter.iteratorValue,
        if_neg hloc, h.key, h.value]
      cases r with
      | left k v => cases hshown
      | right k v => exact ⟨v, rfl, rfl⟩
      | both k v w => exact ⟨w, rfl, rfl⟩

/-! ## One `IteratorNext` -/

/-- Rows in key order. -/
abbrev InOrder (rows : Rows) : Prop := rows.Pairwise fun r r' => Before r.key r'.key

theorem InOrder.lefts (h : InOrder (r :: rows)) {e : Key × Value}
    (he : e ∈ Lib.lefts rows) : Before r.key e.1 := by
  obtain ⟨r', hr', heq⟩ := key_of_mem_lefts he
  rw [← heq]
  exact (List.pairwise_cons.mp h).1 r' hr'

theorem InOrder.rights (h : InOrder (r :: rows)) {e : Key × Value}
    (he : e ∈ Lib.rights rows) : Before r.key e.1 := by
  obtain ⟨r', hr', heq⟩ := key_of_mem_rights he
  rw [← heq]
  exact (List.pairwise_cons.mp h).1 r' hr'

theorem InOrder.headKey_lefts (h : InOrder (r :: rows)) (hne : Lib.lefts rows ≠ []) :
    Before r.key (headKey (Lib.lefts rows)) := by
  cases hl : Lib.lefts rows with
  | nil => exact absurd hl hne
  | cons e es => exact h.lefts (hl ▸ List.mem_cons_self)

theorem InOrder.headKey_rights (h : InOrder (r :: rows)) (hne : Lib.rights rows ≠ []) :
    Before r.key (headKey (Lib.rights rows)) := by
  cases hr : Lib.rights rows with
  | nil => exact absurd hr hne
  | cons e es => exact h.rights (hr ▸ List.mem_cons_self)

/-- No record from the row on is below it. -/
theorem InOrder.not_before_lefts (h : InOrder (r :: rows))
    (hne : Lib.lefts (r :: rows) ≠ []) :
    ¬ Before (headKey (Lib.lefts (r :: rows))) r.key := by
  cases r with
  | right k w => exact asymm_of Before (h.headKey_lefts hne)
  | left k v => exact irrefl_of Before k
  | both k v w => exact irrefl_of Before k

theorem InOrder.not_before_rights (h : InOrder (r :: rows))
    (hne : Lib.rights (r :: rows) ≠ []) :
    ¬ Before (headKey (Lib.rights (r :: rows))) r.key := by
  cases r with
  | left k v => exact asymm_of Before (h.headKey_rights hne)
  | right k w => exact irrefl_of Before k
  | both k v w => exact irrefl_of Before k

/-- The iterator gets to the next row if the store whose turn it is has it. -/
theorem At.next (h : At scan s side (r :: r' :: rows)) (horder : InOrder (r :: r' :: rows))
    (hvalue : ((side.after r).value r').isSome) (hleft : lefts (r' :: rows) ≠ [])
    (hright : rights (r' :: rows) ≠ []) :
    ∃ s', s.iteratorNext env = some s' ∧ At scan s' (side.after r) (r' :: rows) := by
  have horder' : InOrder (r' :: rows) := (List.pairwise_cons.mp horder).2
  have hshown := h.shown r rfl
  have hshown' : ∀ x ∈ (r' :: rows).head?, ((side.after r).value x).isSome := by
    rintro x ⟨⟩
    exact hvalue
  cases side with
  | main =>
      cases r with
      | right k w => cases hshown
      | left k v =>
          have hrest : s.iter.rest = (k, v) :: lefts (r' :: rows) := h.main
          rw [next_main h.flag h.location hrest, if_neg hleft]
          refine ⟨_, rfl, ?_⟩
          rw [if_neg]
          · exact ⟨h.flag, h.location, by simp [MainIter.next, h.main], h.key, h.value,
              h.pending, hleft, hright, hshown'⟩
          · rw [h.key, headKey_lefts hvalue]
            exact horder'.not_before_rights hright
      | both k v w =>
          have hrest : s.iter.rest = (k, v) :: lefts (r' :: rows) := h.main
          rw [next_main h.flag h.location hrest, if_neg hleft]
          refine ⟨_, rfl, ?_⟩
          rw [if_pos]
          · obtain ⟨hkey, hval, hpending⟩ :=
              advanceDev_spec (s := { s with iter := s.iter.next }) scan env h.pending
            exact ⟨h.flag, rfl, by simp [MasterIter.advanceDev, MainIter.next, h.main],
              hkey, hval, hpending, hleft, hright, hshown'⟩
          · rw [h.key]
            exact horder.headKey_lefts hleft
  | dev =>
      obtain ⟨hkey, hval, hpending⟩ := advanceDev_spec scan env h.pending
      cases r with
      | left k v => cases hshown
      | right k w =>
          obtain ⟨e, es, hes⟩ := List.exists_cons_of_ne_nil hleft
          rw [next_dev h.flag h.location (h.main.trans hes)]
          refine ⟨_, rfl, ?_⟩
          rw [if_neg]
          · exact ⟨h.flag, h.location, h.main, hkey, hval, hpending, hleft, hright, hshown'⟩
          · have hstay := horder'.not_before_lefts hleft
            rw [hes] at hstay
            rw [hkey, rights_right, List.tail_cons, headKey_rights hvalue]
            exact hstay
      | both k v w =>
          rw [next_dev h.flag h.location h.main]
          refine ⟨_, rfl, ?_⟩
          rw [if_pos]
          · exact ⟨h.flag, rfl, by simp [MainIter.next, h.main], hkey, hval, hpending,
              hleft, hright, hshown'⟩
          · rw [hkey]
            exact horder.headKey_rights hright

theorem read_main_ne {x : Key × Value} (hread : s.read = some x)
    (horder : InOrder (r' :: rows)) (hloc : s.iterLocation = 0)
    (hrest : s.iter.rest = lefts rows) : x.1 ≠ r'.key := by
  simp only [MasterIter.read, MasterIter.iteratorKey, MasterIter.iteratorValue,
    if_pos hloc, MainIter.key, MainIter.value, hrest] at hread
  cases hl : lefts rows with
  | nil =>
      rw [hl] at hread
      cases hread
  | cons e es =>
      rw [hl] at hread
      cases hread
      exact ne_of_irrefl' (r := Before) (horder.lefts (hl ▸ List.mem_cons_self))

theorem read_dev_ne {x : Key × Value} (hread : s.read = some x)
    (horder : InOrder (r' :: rows)) (hne : r'.key ≠ []) (hloc : s.iterLocation = 1)
    (hkey : D.iterKeys s.ilsm s.ilsmIterId = headKey (rights rows)) :
    x.1 ≠ r'.key := by
  simp only [MasterIter.read, MasterIter.iteratorKey, MasterIter.iteratorValue, hloc,
    hkey] at hread
  have hx : x.1 = headKey (rights rows) := by cases hread; rfl
  rw [hx]
  cases hr : rights rows with
  | nil => exact hne.symm
  | cons e es =>
      exact ne_of_irrefl' (r := Before) (horder.rights (hr ▸ List.mem_cons_self))

/-- From Main-LSM the iterator goes to the device's next record, past `r'`. -/
theorem stray_dev {x : Key × Value} {e : Key × Value} {es : List (Key × Value)}
    (horder : InOrder (r' :: rows)) (hne : r'.key ≠ []) (hflag : s.kacheFlag = 1)
    (hloc : s.iterLocation = 0) (hrest : s.iter.rest = e :: es)
    (hpending : scan.Pending s.ilsm s.ilsmIterId (rights rows))
    (hpass : Before (D.iterKeys s.ilsm s.ilsmIterId) (headKey es))
    (hnext : s.iteratorNext env = some s') (hread : s'.read = some x) :
    x.1 ≠ r'.key := by
  rw [next_main hflag hloc hrest, if_pos hpass] at hnext
  split at hnext
  · cases hnext
  · cases hnext
    exact read_dev_ne hread horder hne rfl
      (advanceDev_spec (s := { s with iter := s.iter.next }) scan env hpending).1

/-- If not, the next read is undefined or shows another key. -/
theorem At.astray {x : Key × Value} (h : At scan s side (r :: r' :: rows))
    (horder : InOrder (r :: r' :: rows)) (hne : r'.key ≠ [])
    (hnot : ¬ (((side.after r).value r').isSome ∧ lefts (r' :: rows) ≠ [] ∧
      rights (r' :: rows) ≠ []))
    (hnext : s.iteratorNext env = some s') (hread : s'.read = some x) :
    x.1 ≠ r'.key := by
  have horder' : InOrder (r' :: rows) := (List.pairwise_cons.mp horder).2
  have hshown := h.shown r rfl
  cases side with
  | main =>
      cases r with
      | right k w => cases hshown
      | left k v =>
          cases r' with
          | left k' v' => exact absurd ⟨rfl, nofun, h.right⟩ hnot
          | both k' v' w' => exact absurd ⟨rfl, nofun, h.right⟩ hnot
          | right k' w' =>
              have hrest : s.iter.rest = (k, v) :: lefts rows := h.main
              by_cases hes : lefts rows = []
              · rw [next_main h.flag h.location hrest, if_pos hes] at hnext
                cases hnext
              · refine stray_dev horder' hne h.flag h.location hrest h.pending ?_ hnext hread
                rw [h.key]
                exact horder'.headKey_lefts hes
      | both k v w =>
          cases r' with
          | both k' v' w' => exact absurd ⟨rfl, nofun, nofun⟩ hnot
          | left k' v' =>
              refine stray_dev horder' hne h.flag h.location h.main h.pending ?_ hnext hread
              rw [h.key]
              exact horder.headKey_lefts nofun
          | right k' w' =>
              have hrest : s.iter.rest = (k, v) :: lefts rows := h.main
              have hes : lefts rows = [] := by
                by_contra hes
                exact hnot ⟨rfl, hes, nofun⟩
              rw [next_main h.flag h.location hrest, if_pos hes] at hnext
              cases hnext
  | dev =>
      have hkey := (advanceDev_spec scan env h.pending).1
      cases r with
      | left k v => cases hshown
      | right k w =>
          cases r' with
          | right k' w' => exact absurd ⟨rfl, h.left, nofun⟩ hnot
          | both k' v' w' => exact absurd ⟨rfl, nofun, nofun⟩ hnot
          | left k' v' =>
              have hrest : s.iter.rest = (k', v') :: lefts rows := h.main
              rw [next_dev h.flag h.location hrest] at hnext
              cases hnext
              split at hread
              · exact read_main_ne hread horder' rfl (by simp [MainIter.next, hrest])
              · exact read_dev_ne hread horder' hne h.location hkey
      | both k v w =>
          cases r' with
          | both k' v' w' => exact absurd ⟨rfl, nofun, nofun⟩ hnot
          | left k' v' =>
              have hend : rights rows = [] := by
                by_contra hend
                exact hnot ⟨rfl, nofun, hend⟩
              rw [next_dev h.flag h.location h.main] at hnext
              cases hnext
              rw [if_neg] at hread
              · exact read_dev_ne hread horder' hne h.location hkey
              · rw [hkey, rights_both, List.tail_cons, rights_left, hend]
                exact not_before_nil k
          | right k' w' =>
              rw [next_dev h.flag h.location h.main] at hnext
              cases hnext
              rw [if_pos] at hread
              · exact read_main_ne hread horder' rfl (by simp [MainIter.next, h.main])
              · rw [hkey]
                exact horder.headKey_rights nofun

/-! ## The walk -/

theorem walk_zero {envs : Nat → D.Env} {reads : List (Key × Value)} :
    s.walk envs 0 = some reads ↔ ∃ x, s.read = some x ∧ reads = [x] := by
  rw [MasterIter.walk, Option.map_eq_some_iff]
  exact exists_congr fun x => and_congr_right fun _ => eq_comm

theorem walk_succ {envs : Nat → D.Env} {n : Nat} {reads : List (Key × Value)} :
    s.walk envs (n + 1) = some reads ↔ ∃ x s' rest, s.read = some x ∧
      s.iteratorNext (envs n) = some s' ∧ s'.walk envs n = some rest ∧
      reads = x :: rest := by
  simp only [MasterIter.walk, Option.bind_eq_some_iff, Option.map_eq_some_iff]
  constructor
  · rintro ⟨x, hread, s', hnext, rest, hwalk, rfl⟩
    exact ⟨x, s', rest, hread, hnext, hwalk, rfl⟩
  · rintro ⟨x, s', rest, hread, hnext, hwalk, rfl⟩
    exact ⟨x, hread, s', hnext, rest, hwalk, rfl⟩

theorem read_of_walk {envs : Nat → D.Env} {n : Nat} {reads : List (Key × Value)}
    (h : s.walk envs n = some reads) :
    ∃ x rest, s.read = some x ∧ reads = x :: rest ∧ rest.length = n := by
  induction n generalizing s reads with
  | zero =>
      obtain ⟨x, hread, rfl⟩ := walk_zero.mp h
      exact ⟨x, [], hread, rfl, rfl⟩
  | succ n ih =>
      obtain ⟨x, s', rest, hread, _, hwalk, rfl⟩ := walk_succ.mp h
      obtain ⟨y, rest, _, rfl, hlen⟩ := ih hwalk
      exact ⟨x, y :: rest, hread, rfl, by rw [List.length_cons, hlen]⟩

/-- A read that shows the row with the value of `get`. -/
def Shows (get : Key → Option Value) (x : Key × Value) (r : Row Key Value Value) : Prop :=
  get x.1 = some x.2 ∧ x.1 = r.key

theorem forall₂_shows {get : Key → Option Value} {reads : List (Key × Value)} :
    List.Forall₂ (Shows get) reads rows ↔
      (∀ x ∈ reads, get x.1 = some x.2) ∧ reads.map Prod.fst = rows.map Row.key := by
  rw [← congrFun₂ List.forall₂_eq_eq_eq, List.forall₂_map_left_iff,
    List.forall₂_map_right_iff]
  exact List.forall₂_and_left reads rows

theorem At.shows_iff {get : Key → Option Value} (h : At scan s side (r :: rows))
    {x : Key × Value} (hread : s.read = some x) :
    Shows get x r ↔ (side.value r).isSome ∧ get r.key = side.value r := by
  obtain ⟨v, hvalue, hx⟩ := h.read
  rw [hx] at hread
  cases hread
  simp [Shows, hvalue]

/-- From a row on, the reads show the rows exactly if the stores take turns. -/
theorem At.walk_iff (h : At scan s side (r :: rows)) (get : Key → Option Value)
    (horder : InOrder (r :: rows)) (hkeys : ∀ x ∈ rows, x.key ≠ [])
    (envs : Nat → D.Env) :
    (∃ reads, s.walk envs rows.length = some reads ∧
      List.Forall₂ (Shows get) reads (r :: rows)) ↔ TakesTurns get side (r :: rows) := by
  induction rows generalizing s side r with
  | nil =>
      obtain ⟨v, _, hread⟩ := h.read
      have hshared : r.left?.isSome ∧ r.right?.isSome := by
        cases r with
        | left k a => exact absurd rfl h.right
        | right k a => exact absurd rfl h.left
        | both k a b => exact ⟨rfl, rfl⟩
      simp [walk_zero, hread, TakesTurns, h.shows_iff hread, hshared]
  | cons r' rows ih =>
      obtain ⟨v, _, hread⟩ := h.read
      by_cases hgo : ((side.after r).value r').isSome ∧ lefts (r' :: rows) ≠ [] ∧
          rights (r' :: rows) ≠ []
      · obtain ⟨s', hnext, hat⟩ : ∃ s', s.iteratorNext (envs rows.length) = some s' ∧ _ :=
          h.next horder hgo.1 hgo.2.1 hgo.2.2
        rw [TakesTurns, ← ih hat (List.pairwise_cons.mp horder).2
          fun x hx => hkeys x (List.mem_cons_of_mem _ hx), ← h.shows_iff hread]
        simp only [List.length_cons, walk_succ, hread, hnext]
        constructor
        · rintro ⟨_, ⟨x, s', rest, hx, hs, hwalk, rfl⟩, hall⟩
          cases hx
          cases hs
          obtain ⟨hself, hall⟩ := List.forall₂_cons.mp hall
          exact ⟨hself, nofun, rest, hwalk, hall⟩
        · rintro ⟨hself, _, rest, hwalk, hall⟩
          exact ⟨_, ⟨_, s', rest, rfl, rfl, hwalk, rfl⟩, .cons hself hall⟩
      · refine iff_of_false ?_ ?_
        · rintro ⟨reads, hwalk, hall⟩
          obtain ⟨x, s', rest, _, hnext, hrest, rfl⟩ := walk_succ.mp hwalk
          obtain ⟨y, rest, hy, rfl, _⟩ := read_of_walk hrest
          obtain ⟨_, hall⟩ := List.forall₂_cons.mp hall
          obtain ⟨hy', _⟩ := List.forall₂_cons.mp hall
          exact h.astray horder (hkeys r' List.mem_cons_self) hgo hnext hy hy'.2
        · rintro ⟨_, _, hturns⟩
          exact hgo ⟨hturns.1.1, hturns.nonempty nofun⟩

end Walk

/-! ## The whole iteration -/

section Whole

variable {murmur : Murmur} {m : Master} {k : Key} {main dev : List (Key × Value)}
  {reads : List (Key × Value)}

theorem get_eq_ok {u : Key} {v : Value} :
    m.get murmur u = (.ok, some v) ↔ (m.get murmur u).2 = some v := by
  refine ⟨fun h => by rw [h], fun h => ?_⟩
  unfold Master.get at h ⊢
  simp only [] at h ⊢
  repeat' split
  all_goals simp_all

theorem Lists.mem_fromKey {map : Key → Option Value} {table : List (Key × Value)}
    (h : Lists map table) {u : Key} :
    u ∈ (fromKey Before k table).map Prod.fst ↔ ¬ Before u k ∧ (map u).isSome := by
  rw [List.mem_map, Option.isSome_iff_exists]
  constructor
  · rintro ⟨e, he, rfl⟩
    obtain ⟨he, hk⟩ := (Lib.mem_fromKey h.ascending).mp he
    exact ⟨hk, e.2, (h.records e.1 e.2).mpr he⟩
  · rintro ⟨hk, v, hv⟩
    exact ⟨(u, v), (Lib.mem_fromKey h.ascending).mpr ⟨(h.records u v).mp hv, hk⟩, rfl⟩

theorem inOrder_rowsFrom (hmain : Lists m.main main)
    (hdev : Lists (fun u => m.dev.lookup u) dev) : InOrder (rowsFrom k main dev) :=
  ascending_join (ascending_fromKey hmain.ascending) (ascending_fromKey hdev.ascending)

theorem mem_rowsFrom (hmain : Lists m.main main)
    (hdev : Lists (fun u => m.dev.lookup u) dev) {u : Key} :
    u ∈ (rowsFrom k main dev).map Row.key ↔
      ¬ Before u k ∧ ((m.main u).isSome ∨ (m.dev.lookup u).isSome) := by
  rw [rowsFrom, mem_keys, lefts_join, rights_join, hmain.mem_fromKey, hdev.mem_fromKey,
    ← and_or_left]

/-- The merged view is the rows, one read for each. -/
theorem merged_iff (hmain : Lists m.main main)
    (hdev : Lists (fun u => m.dev.lookup u) dev) :
    Merged murmur m k reads ↔
      List.Forall₂ (Shows fun u => (m.get murmur u).2) reads (rowsFrom k main dev) := by
  have hrows : ((rowsFrom k main dev).map Row.key).Pairwise Before :=
    List.pairwise_map.mpr (inOrder_rowsFrom hmain hdev)
  rw [forall₂_shows]
  constructor
  · intro h
    refine ⟨fun x hx => get_eq_ok.mp (h.values x hx), ?_⟩
    refine List.Pairwise.eq_of_mem_iff (r := Before) (List.pairwise_map.mpr h.ascending)
      hrows fun u => ?_
    rw [h.complete, mem_rowsFrom hmain hdev]
  · rintro ⟨hvalues, hkeys⟩
    refine ⟨?_, fun u => ?_, fun x hx => get_eq_ok.mpr (hvalues x hx)⟩
    · rw [← hkeys] at hrows
      exact List.pairwise_map.mp hrows
    · rw [hkeys, mem_rowsFrom hmain hdev]

variable {D : ScanLsm} {s : MasterIter D}

theorem location_first (e d : Key × Value) (es ds : List (Key × Value)) :
    (if sliceCompare e.1 d.1 ≤ 0 then 0 else 1) =
      (Side.first (join Before (e :: es) (d :: ds))).location := by
  rw [join, joinEntry]
  by_cases hlt : Before d.1 e.1
  · rw [if_pos hlt, if_neg (by have := lt_sliceCompare.mpr hlt; omega)]
    rfl
  · rw [if_neg hlt, if_pos (by have := mt lt_sliceCompare.mp hlt; omega)]
    split <;> rfl

theorem shown_first {rows : Rows} :
    ∀ r ∈ rows.head?, ((Side.first rows).value r).isSome := by
  cases rows with
  | nil => exact nofun
  | cons r rows =>
      rintro _ ⟨⟩
      cases r <;> rfl

/-- `IteratorSeek` positions the iterator at the first row. -/
theorem at_seek (scan : SortedScan D) (env env' : D.Env) (hflag : s.kacheFlag = 1)
    (hk : k.length = 4) (hmain : fromKey Before k main ≠ [])
    (hrecords : scan.records s.ilsm = dev) (hdev : fromKey Before k dev ≠ []) :
    ∃ s', (s.iteratorReset env main).iteratorSeek env' k = some s' ∧
      At scan s' (Side.first (rowsFrom k main dev)) (rowsFrom k main dev) := by
  obtain ⟨e, es, hes⟩ := List.exists_cons_of_ne_nil hmain
  obtain ⟨d, ds, hds⟩ := List.exists_cons_of_ne_nil hdev
  have hleft : lefts (rowsFrom k main dev) = e :: es := by rw [rowsFrom, lefts_join, hes]
  have hright : rights (rowsFrom k main dev) = d :: ds := by rw [rowsFrom, rights_join, hds]
  have hfrom : fromKey Before k
      (scan.records (D.createIter env s.ilsmIterId s.ilsm).2.2) = d :: ds := by
    rw [scan.create, hrecords, hds]
  obtain ⟨flag, st, hseek, hpending⟩ :=
    scan.seek env' (D.createIter env s.ilsmIterId s.ilsm).2.1 k [] _ d ds hk hfrom
  simp only [MasterIter.iteratorReset, MasterIter.iteratorSeek, if_pos hflag,
    MainIter.seek, MainIter.new, MainIter.key, hes, hseek]
  refine ⟨_, rfl, hflag, ?_, hleft.symm, ?_, ?_, ?_, ?_, ?_, shown_first⟩
  · rw [rowsFrom, hes, hds]
    exact location_first e d es ds
  · rw [hright]
    exact D.iterKeys_noteIter ..
  · rw [hright]
    exact D.iterValues_noteIter ..
  · rw [hright]
    exact scan.note _ _ _ _ _ hpending
  · rw [hleft]
    exact nofun
  · rw [hright]
    exact nofun

theorem fromKey_ne_nil {table : List (Key × Value)} (h : Ascending Before table)
    (hex : ∃ r ∈ table, ¬ Before r.1 k) : fromKey Before k table ≠ [] := by
  obtain ⟨r, hr, hk⟩ := hex
  exact List.ne_nil_of_mem ((Lib.mem_fromKey h).mpr ⟨hr, hk⟩)

theorem rowsFrom_ne_nil (dev : List (Key × Value)) (h : fromKey Before k main ≠ []) :
    rowsFrom k main dev ≠ [] := by
  intro hnil
  have hleft : lefts (rowsFrom k main dev) = fromKey Before k main := lefts_join _ _
  rw [hnil] at hleft
  exact h hleft.symm

theorem key_rowsFrom_ne_nil (hmain : Lists m.main main)
    (hdev : Lists (fun u => m.dev.lookup u) dev) :
    ∀ x ∈ rowsFrom k main dev, x.key ≠ [] := by
  intro x hx
  have hfour : x.key.length = 4 := by
    rcases ((mem_rowsFrom hmain hdev).mp (List.mem_map_of_mem hx)).2 with h | h
    · obtain ⟨v, hv⟩ := Option.isSome_iff_exists.mp h
      exact hmain.four _ ((hmain.records _ v).mp hv)
    · obtain ⟨v, hv⟩ := Option.isSome_iff_exists.mp h
      exact hdev.four _ ((hdev.records _ v).mp hv)
  intro hnil
  rw [hnil] at hfour
  cases hfour

/-- The composite iterator delivers the merged view exactly if the two stores
take turns. -/
theorem merged_iff_takesTurns (scan : SortedScan D) {envs : Nat → D.Env}
    (hmain : Lists m.main main) (hdev : Lists (fun u => m.dev.lookup u) dev)
    (hrecords : scan.records s.ilsm = dev) (hflag : m.kacheFlag = 1)
    (hsame : s.kacheFlag = m.kacheFlag) (hk : k.length = 4)
    (hm : ∃ r ∈ main, ¬ Before r.1 k) (hd : ∃ r ∈ dev, ¬ Before r.1 k) :
    (∃ n reads, s.scanFrom main k envs n = some reads ∧ Merged murmur m k reads) ↔
      TakesTurns (fun u => (m.get murmur u).2) (Side.first (rowsFrom k main dev))
        (rowsFrom k main dev) := by
  have hflag' : s.kacheFlag = 1 := hsame.trans hflag
  have hne := fromKey_ne_nil hmain.ascending hm
  have hseek := fun env env' => at_seek scan env env' hflag' hk hne hrecords
    (fromKey_ne_nil hdev.ascending hd)
  obtain ⟨r, rows, hrows⟩ := List.exists_cons_of_ne_nil (rowsFrom_ne_nil dev hne)
  have horder : InOrder (rowsFrom k main dev) := inOrder_rowsFrom hmain hdev
  have hkeys := key_rowsFrom_ne_nil (k := k) hmain hdev
  rw [hrows] at hseek horder hkeys
  have hwalk := fun s' (hat : At scan s' (Side.first (r :: rows)) (r :: rows)) =>
    hat.walk_iff (fun u => (m.get murmur u).2) horder
      (fun x hx => hkeys x (List.mem_cons_of_mem _ hx)) envs
  simp only [merged_iff hmain hdev, hrows]
  constructor
  · rintro ⟨n, reads, hscan, hall⟩
    obtain ⟨s', hs', hreads⟩ := Option.bind_eq_some_iff.mp hscan
    obtain ⟨_, hs'', hat⟩ := hseek (envs (n + 1)) (envs n)
    rw [hs'] at hs''
    cases hs''
    -- As many reads as rows.
    obtain ⟨x, rest, _, rfl, hlen⟩ := read_of_walk hreads
    obtain rfl : n = rows.length := by
      rw [← hlen]
      simpa using hall.length_eq
    exact (hwalk s' hat).mp ⟨_, hreads, hall⟩
  · intro hturns
    obtain ⟨s', hs', hat⟩ := hseek (envs (rows.length + 1)) (envs rows.length)
    obtain ⟨reads, hreads, hall⟩ := (hwalk s' hat).mpr hturns
    exact ⟨rows.length, reads, Option.bind_eq_some_iff.mpr ⟨s', hs', hreads⟩, hall⟩

end Whole

/-! ## Two stores -/

theorem lists_lookup {table : List (Key × Value)} (h : Ascending Before table)
    (hfour : ∀ r ∈ table, r.1.length = 4) : Lists (fun u => table.lookup u) table := by
  refine ⟨h, fun k v => ?_, hfour⟩
  clear hfour
  induction table with
  | nil => simp
  | cons r table ih =>
      obtain ⟨hr, htable⟩ := List.pairwise_cons.mp h
      rw [List.lookup_cons, List.mem_cons, Prod.ext_iff]
      by_cases hk : k = r.1
      · subst hk
        have hnot : (r.1, v) ∉ table := fun hmem => irrefl_of Before r.1 (hr (r.1, v) hmem)
        simp [hnot, eq_comm]
      · rw [beq_eq_false_iff_ne.mpr hk]
        simp [hk, ih htable]

def devOf (table : List (Key × Value)) : DevMap :=
  table.foldr (fun r d => d.insert r.1 r.2) ∅

theorem lookup_devOf (table : List (Key × Value)) (u : Key) :
    (devOf table).lookup u = table.lookup u := by
  induction table with
  | nil => rfl
  | cons r table ih =>
      rw [List.lookup_cons, devOf, List.foldr_cons, ← devOf]
      by_cases hu : u = r.1
      · subst hu
        rw [AList.lookup_insert, beq_self_eq_true]
      · rw [AList.lookup_insert_ne hu, ih, beq_eq_false_iff_ne.mpr hu]

/-- A state of the routing layer with these stores and tracked keys. -/
def storesOf (main dev : List (Key × Value)) (tracked : List Key) : Master where
  level := .low
  rollbackStatus := 0
  kacheFlag := 1
  rollbackFlag := 0
  keyTracker := tracked.foldl
    (fun t u => t.insert (doubleHash murmurHash3 u 1) u) HashMap.empty
  main := fun u => main.lookup u
  dev := devOf dev

theorem lists_storesOf (main dev : List (Key × Value)) (tracked : List Key)
    (hmain : Ascending Before main ∧ ∀ r ∈ main, r.1.length = 4)
    (hdev : Ascending Before dev ∧ ∀ r ∈ dev, r.1.length = 4) :
    Lists (storesOf main dev tracked).main main ∧
      Lists (fun u => (storesOf main dev tracked).dev.lookup u) dev := by
  refine ⟨lists_lookup hmain.1 hmain.2, ?_⟩
  simp only [storesOf, lookup_devOf]
  exact lists_lookup hdev.1 hdev.2

/-- A fresh iterator over a sorted scan. -/
def iterOf (dev : List (Key × Value)) : MasterIter sortedLsm where
  kacheFlag := 1
  iter := .new []
  ilsm := {
    records := dev
    cursor := fun _ => []
    iterKeys := fun _ => []
    iterValues := fun _ => [] }
  ilsmIterId := 0
  iterLocation := 0

instance (table : List (Key × Value)) : Decidable (Ascending Before table) :=
  inferInstanceAs (Decidable (List.Pairwise _ _))

/-- Main-LSM with 1, 2 and 4, Dev-LSM with 2, 3 and 4. -/
def turnsMain : List (Key × Value) :=
  [([0, 0, 0, 1], [1]), ([0, 0, 0, 2], [2]), ([0, 0, 0, 4], [4])]

def turnsDev : List (Key × Value) :=
  [([0, 0, 0, 2], [20]), ([0, 0, 0, 3], [30]), ([0, 0, 0, 4], [40])]

theorem merged_turns : ∃ n reads,
    (iterOf turnsDev).scanFrom turnsMain [0, 0, 0, 0] (fun _ => ()) n = some reads ∧
      Merged murmurHash3
        (storesOf turnsMain turnsDev [[0, 0, 0, 3], [0, 0, 0, 4]]) [0, 0, 0, 0] reads := by
  obtain ⟨hmain, hdev⟩ := lists_storesOf turnsMain turnsDev
    [[0, 0, 0, 3], [0, 0, 0, 4]] (by decide) (by decide)
  exact (merged_iff_takesTurns sortedScan hmain hdev rfl rfl rfl rfl (by decide)
    (by decide)).mpr (by decide)

/-- Main-LSM with 1 and 3, Dev-LSM with 2. -/
def splitMain : List (Key × Value) := [([0, 0, 0, 1], [1]), ([0, 0, 0, 3], [3])]

def splitDev : List (Key × Value) := [([0, 0, 0, 2], [2])]

/-- After 1 the iterator drops 2 and 3 and shows an empty record. -/
theorem not_merged_split :
    (iterOf splitDev).scanFrom splitMain [0, 0, 0, 0] (fun _ => ()) 2 =
        some [([0, 0, 0, 1], [1]), ([], []), ([], [])] ∧
      ¬ ∃ n reads,
        (iterOf splitDev).scanFrom splitMain [0, 0, 0, 0] (fun _ => ()) n = some reads ∧
          Merged murmurHash3 (storesOf splitMain splitDev [[0, 0, 0, 2]]) [0, 0, 0, 0]
            reads := by
  have hscan : (iterOf splitDev).scanFrom splitMain [0, 0, 0, 0] (fun _ => ()) 2 =
      some [([0, 0, 0, 1], [1]), ([], []), ([], [])] := rfl
  refine ⟨hscan, ?_⟩
  rintro ⟨n, reads, hreads, hmerged⟩
  obtain ⟨hmain, hdev⟩ := lists_storesOf splitMain splitDev [[0, 0, 0, 2]]
    (by decide) (by decide)
  have hall := (merged_iff hmain hdev).mp hmerged
  obtain ⟨s', _, hwalk⟩ := Option.bind_eq_some_iff.mp hreads
  obtain ⟨x, rest, _, rfl, hlen⟩ := read_of_walk hwalk
  obtain rfl : n = 2 := by
    have : rest.length + 1 = 3 := hall.length_eq
    omega
  rw [hscan] at hreads
  cases hreads
  have hkeys := (forall₂_shows.mp hall).2
  exact absurd hkeys (by decide)

end Kvaccel.Spec
