import Mathlib.Data.List.Nodup

/-!
# Tables with a primary key

A table is the list of its rows in rowid order, no two of them with the same key.  An inserted row goes to the end,
and every statement is a function on tables, so a table with two rows for one key cannot be built.  The lemmas say what
`find?` returns after each statement; what holds of single rows (`mem_*`) follows from them through
`find?_eq_some`.
-/

namespace Relational

universe u v

/-- The rows of a table, in the order of their rowids. -/
structure Table {ρ : Type u} {κ : Type v} (key : ρ → κ) where
  rows : List ρ
  nodup : (rows.map key).Nodup

namespace Table

variable {ρ : Type u} {κ : Type v} {key : ρ → κ}

theorem ext_rows {t t' : Table key} (h : t.rows = t'.rows) : t = t' := by
  cases t; cases t'; simpa using h

instance [DecidableEq ρ] : DecidableEq (Table key) := fun t t' =>
  decidable_of_iff (t.rows = t'.rows) ⟨ext_rows, fun h => by rw [h]⟩

instance : EmptyCollection (Table key) := ⟨⟨[], List.nodup_nil⟩⟩

@[simp] theorem rows_empty : (∅ : Table key).rows = [] := rfl

instance : Membership ρ (Table key) := ⟨fun t r => r ∈ t.rows⟩

@[simp] theorem mem_rows {t : Table key} {r : ρ} : r ∈ t.rows ↔ r ∈ t := Iff.rfl

/-- Two rows with the same key are the same row. -/
theorem eq_of_key_eq {t : Table key} {r r' : ρ} (h : r ∈ t) (h' : r' ∈ t) (hk : key r = key r') : r = r' :=
  List.inj_on_of_nodup_map t.nodup h h' hk

/-! ### Queries -/

/-- `SELECT * WHERE p`. -/
def select (t : Table key) (p : ρ → Bool) : List ρ :=
  t.rows.filter p

@[simp] theorem mem_select {t : Table key} {p : ρ → Bool} {r : ρ} : r ∈ t.select p ↔ r ∈ t ∧ p r = true :=
  List.mem_filter

variable [DecidableEq κ]

/-- The row with the given key. -/
def find? (t : Table key) (k : κ) : Option ρ :=
  t.rows.find? (fun r => decide (key r = k))

theorem find?_eq_some {t : Table key} {k : κ} {r : ρ} : t.find? k = some r ↔ r ∈ t ∧ key r = k := by
  constructor
  · intro h
    exact ⟨List.mem_of_find?_eq_some h, by simpa using List.find?_some h⟩
  · rintro ⟨hr, rfl⟩
    unfold find?
    cases h : t.rows.find? (fun r' => decide (key r' = key r)) with
    | none =>
      have := List.find?_eq_none.mp h r hr
      simp at this
    | some r' =>
      have hk : key r' = key r := by simpa using List.find?_some h
      rw [eq_of_key_eq (List.mem_of_find?_eq_some h) hr hk]

theorem find?_eq_none {t : Table key} {k : κ} : t.find? k = none ↔ ∀ r ∈ t, key r ≠ k := by
  unfold find?
  rw [List.find?_eq_none]
  simp only [decide_eq_true_eq, mem_rows, ne_eq]

theorem key_of_find? {t : Table key} {k : κ} {r : ρ} (h : t.find? k = some r) : key r = k :=
  (find?_eq_some.mp h).2

theorem mem_of_find? {t : Table key} {k : κ} {r : ρ} (h : t.find? k = some r) : r ∈ t :=
  (find?_eq_some.mp h).1

theorem mem_iff_find? {t : Table key} {r : ρ} : r ∈ t ↔ t.find? (key r) = some r := by
  rw [find?_eq_some]; simp

@[simp] theorem find?_empty (k : κ) : (∅ : Table key).find? k = none := rfl

/-- Tables with the same keys in the same order and the same row for each key are the same. -/
theorem ext_find? {t t' : Table key} (hkeys : t.rows.map key = t'.rows.map key) (h : ∀ k, t.find? k = t'.find? k) :
    t = t' := by
  apply ext_rows
  have hlen : t.rows.length = t'.rows.length := by simpa using congrArg List.length hkeys
  apply List.ext_getElem hlen
  intro i hi hi'
  have hkey : key t.rows[i] = key t'.rows[i] := by
    have := congrArg (fun l => l[i]?) hkeys
    simpa [hi, hi'] using this
  have hr : t.find? (key t.rows[i]) = some t.rows[i] := mem_iff_find?.mp (List.getElem_mem hi)
  have hr' : t'.find? (key t'.rows[i]) = some t'.rows[i] := mem_iff_find?.mp (List.getElem_mem hi')
  rw [h, hkey, hr'] at hr
  exact (Option.some.inj hr).symm

/-! ### Inserting -/

/-- `INSERT`, for a key that is free. -/
def insert (t : Table key) (r : ρ) (h : t.find? (key r) = none) : Table key where
  rows := t.rows ++ [r]
  nodup := by
    rw [List.map_append, List.nodup_append]
    refine ⟨t.nodup, by simp, ?_⟩
    intro a ha b hb
    simp only [List.map_cons, List.map_nil, List.mem_singleton] at hb
    obtain ⟨r', hr', rfl⟩ := List.mem_map.mp ha
    exact hb ▸ find?_eq_none.mp h r' hr'

/-- `INSERT`; `none` is a violated primary key. -/
def insert? (t : Table key) (r : ρ) : Option (Table key) :=
  if h : t.find? (key r) = none then some (t.insert r h) else none

/-- `INSERT OR IGNORE`. -/
def insertOrIgnore (t : Table key) (r : ρ) : Table key :=
  (t.insert? r).getD t

@[simp] theorem mem_insert {t : Table key} {r r' : ρ} {h : t.find? (key r) = none} :
    r' ∈ t.insert r h ↔ r' ∈ t ∨ r' = r := by
  change r' ∈ t.rows ++ [r] ↔ _
  simp

@[simp] theorem find?_insert {t : Table key} {r : ρ} {h : t.find? (key r) = none} (k : κ) :
    (t.insert r h).find? k = if key r = k then some r else t.find? k := by
  unfold find? insert at *
  rw [List.find?_append]
  split
  · next hk => subst hk; rw [h]; simp
  · next hk => simp [hk]

theorem insert?_eq_some {t t' : Table key} {r : ρ} :
    t.insert? r = some t' ↔ ∃ h : t.find? (key r) = none, t' = t.insert r h := by
  unfold insert?
  split
  · next h =>
    simp only [Option.some.injEq, h, exists_true_left]
    exact eq_comm
  · next h => simp [h]

theorem insert?_eq_none {t : Table key} {r : ρ} : t.insert? r = none ↔ t.find? (key r) ≠ none := by
  unfold insert?
  split <;> simp_all

theorem insert?_of_find? {t : Table key} {r : ρ} (h : t.find? (key r) = none) : t.insert? r = some (t.insert r h) := by
  simp [insert?, h]

theorem find?_of_insert? {t t' : Table key} {r : ρ} (h : t.insert? r = some t') (k : κ) :
    t'.find? k = if key r = k then some r else t.find? k := by
  obtain ⟨hk, rfl⟩ := insert?_eq_some.mp h
  exact find?_insert k

theorem mem_of_insert? {t t' : Table key} {r : ρ} (h : t.insert? r = some t') {r' : ρ} : r' ∈ t' ↔ r' ∈ t ∨ r' = r := by
  obtain ⟨hk, rfl⟩ := insert?_eq_some.mp h
  exact mem_insert

@[simp] theorem find?_insertOrIgnore {t : Table key} {r : ρ} (k : κ) :
    (t.insertOrIgnore r).find? k = if key r = k then some ((t.find? k).getD r) else t.find? k := by
  unfold insertOrIgnore
  cases h : t.insert? r with
  | none =>
    obtain ⟨r', hr'⟩ := Option.ne_none_iff_exists'.mp (insert?_eq_none.mp h)
    split
    · next hk => subst hk; simp [hr']
    · rfl
  | some t' =>
    have hfree := (insert?_eq_some.mp h).1
    rw [Option.getD_some, find?_of_insert? h]
    split
    · next hk => subst hk; simp [hfree]
    · rfl

theorem insertOrIgnore_of_find? {t : Table key} {r r' : ρ} (h : t.find? (key r) = some r') :
    t.insertOrIgnore r = t := by
  have hnone : t.insert? r = none := insert?_eq_none.mpr (by simp [h])
  rw [insertOrIgnore, hnone, Option.getD_none]

theorem insertOrIgnore_of_free {t : Table key} {r : ρ} (h : t.find? (key r) = none) :
    t.insertOrIgnore r = t.insert r h := by
  rw [insertOrIgnore, insert?_of_find? h, Option.getD_some]

theorem mem_of_insertOrIgnore {t : Table key} {r r' : ρ} (h : r' ∈ t.insertOrIgnore r) : r' ∈ t ∨ r' = r := by
  cases hfree : t.find? (key r) with
  | none =>
    rw [insertOrIgnore_of_free hfree] at h
    exact mem_insert.mp h
  | some r₀ =>
    rw [insertOrIgnore_of_find? hfree] at h
    exact .inl h

/-! ### Deleting -/

/-- `DELETE WHERE p`. -/
def deleteWhere (t : Table key) (p : ρ → Bool) : Table key where
  rows := t.rows.filter (fun r => !p r)
  nodup := (List.Sublist.map key List.filter_sublist).nodup t.nodup

omit [DecidableEq κ] in
@[simp] theorem mem_deleteWhere {t : Table key} {p : ρ → Bool} {r : ρ} :
    r ∈ t.deleteWhere p ↔ r ∈ t ∧ p r = false := by
  change r ∈ t.rows.filter _ ↔ _
  simp

@[simp] theorem find?_deleteWhere {t : Table key} {p : ρ → Bool} (k : κ) :
    (t.deleteWhere p).find? k = (t.find? k).filter (fun r => !p r) := by
  cases h : t.find? k with
  | none =>
    rw [Option.filter_none, find?_eq_none]
    intro r hr
    exact find?_eq_none.mp h r (mem_deleteWhere.mp hr).1
  | some r =>
    obtain ⟨hr, hk⟩ := find?_eq_some.mp h
    cases hp : p r with
    | true =>
      rw [Option.filter_some, hp]
      simp only [Bool.not_true, Bool.false_eq_true, if_false]
      rw [find?_eq_none]
      intro r' hr' hk'
      obtain ⟨hr', hp'⟩ := mem_deleteWhere.mp hr'
      rw [eq_of_key_eq hr' hr (hk'.trans hk.symm), hp] at hp'
      exact Bool.noConfusion hp'
    | false =>
      rw [Option.filter_some, hp]
      simp only [Bool.not_false, if_true]
      exact find?_eq_some.mpr ⟨mem_deleteWhere.mpr ⟨hr, hp⟩, hk⟩

/-- `INSERT OR REPLACE`: the row with the key, if any, is deleted first. -/
def insertOrReplace (t : Table key) (r : ρ) : Table key :=
  (t.deleteWhere (fun r' => decide (key r' = key r))).insert r (by
    rw [find?_deleteWhere]
    cases h : t.find? (key r) with
    | none => rfl
    | some r' => simp [key_of_find? h])

@[simp] theorem find?_insertOrReplace {t : Table key} {r : ρ} (k : κ) :
    (t.insertOrReplace r).find? k = if key r = k then some r else t.find? k := by
  unfold insertOrReplace
  rw [find?_insert]
  split
  · rfl
  · next hk =>
    rw [find?_deleteWhere]
    cases h : t.find? k with
    | none => rfl
    | some r' =>
      have hne : ¬ key r' = key r := fun e => hk (e ▸ key_of_find? h)
      simp [hne]

theorem mem_insertOrReplace {t : Table key} {r r' : ρ} :
    r' ∈ t.insertOrReplace r ↔ r' = r ∨ r' ∈ t ∧ key r' ≠ key r := by
  unfold insertOrReplace
  rw [mem_insert, mem_deleteWhere]
  simp only [decide_eq_false_iff_not]
  exact or_comm

/-! ### Updating -/

/-- `UPDATE SET f WHERE p`, for an assignment that leaves the key columns alone. -/
def updateWhere (t : Table key) (p : ρ → Bool) (f : ρ → ρ) (hf : ∀ r, key (f r) = key r) : Table key where
  rows := t.rows.map (fun r => if p r then f r else r)
  nodup := by
    have h : key ∘ (fun r => if p r then f r else r) = key := by
      funext r
      simp only [Function.comp_apply]
      split <;> simp [hf]
    rw [List.map_map, h]
    exact t.nodup

omit [DecidableEq κ] in
theorem keys_updateWhere (t : Table key) (p : ρ → Bool) (f : ρ → ρ) (hf : ∀ r, key (f r) = key r) :
    (t.updateWhere p f hf).rows.map key = t.rows.map key := by
  simp only [updateWhere, List.map_map]
  apply List.map_congr_left
  intro r _
  simp only [Function.comp_apply]
  split <;> simp [hf]

@[simp] theorem find?_updateWhere {t : Table key} {p : ρ → Bool} {f : ρ → ρ} {hf : ∀ r, key (f r) = key r} (k : κ) :
    (t.updateWhere p f hf).find? k = (t.find? k).map (fun r => if p r then f r else r) := by
  have hkey : ∀ r, key (if p r then f r else r) = key r := by
    intro r
    split <;> simp [hf]
  unfold find? updateWhere
  simp only [List.find?_map]
  congr 2
  funext r
  simp [hkey]

/-- `UPDATE` of every column but the key: the row with `r`'s key becomes `r`. -/
def replace (t : Table key) (r : ρ) : Table key where
  rows := t.rows.map (fun r' => if key r' = key r then r else r')
  nodup := by
    have h : key ∘ (fun r' => if key r' = key r then r else r') = key := by
      funext r'
      simp only [Function.comp_apply]
      split
      · next hk => exact hk.symm
      · rfl
    rw [List.map_map, h]
    exact t.nodup

@[simp] theorem find?_replace {t : Table key} {r : ρ} (k : κ) :
    (t.replace r).find? k = if key r = k then (t.find? k).map (fun _ => r) else t.find? k := by
  have hkey : ∀ r', key (if key r' = key r then r else r') = key r' := by
    intro r'
    split
    · next hk => exact hk.symm
    · rfl
  have hfind : (t.replace r).find? k = (t.find? k).map (fun r' => if key r' = key r then r else r') := by
    unfold find? replace
    simp only [List.find?_map]
    congr 2
    funext r'
    simp [hkey]
  rw [hfind]
  cases h : t.find? k with
  | none => simp
  | some r' =>
    have hk' := key_of_find? h
    by_cases hk : key r = k
    · simp [hk, hk']
    · have : ¬ key r' = key r := fun e => hk (e ▸ hk')
      simp [hk, this]

/-- The rows around the one with a key, which an update or a deletion of that row leaves alone. -/
theorem split_of_find? {t : Table key} {k : κ} {r : ρ} (h : t.find? k = some r) :
    ∃ before after, t.rows = before ++ r :: after ∧
      (∀ r', key r' = k → (t.replace r').rows = before ++ r' :: after) ∧
      ∀ p : ρ → Bool, (∀ r', p r' = true ↔ key r' = k) → (t.deleteWhere p).rows = before ++ after := by
  obtain ⟨hmem, hkey⟩ := find?_eq_some.mp h
  obtain ⟨before, after, hrows⟩ := List.append_of_mem hmem
  have hnodup := t.nodup
  rw [hrows, List.map_append, List.map_cons, List.nodup_append, List.nodup_cons] at hnodup
  obtain ⟨-, ⟨hafter, -⟩, hbefore⟩ := hnodup
  have hne : ∀ r' ∈ before ++ after, key r' ≠ k := by
    intro r' hr' he
    rcases List.mem_append.mp hr' with hr' | hr'
    · exact hbefore (key r') (List.mem_map_of_mem hr') (key r) List.mem_cons_self (he.trans hkey.symm)
    · exact hafter ((he.trans hkey.symm) ▸ List.mem_map_of_mem hr')
  refine ⟨before, after, hrows, ?_, ?_⟩
  · intro r' hr'
    have hsame : ∀ l : List ρ, (∀ x ∈ l, key x ≠ k) → l.map (fun x => if key x = key r' then r' else x) = l := by
      intro l hl
      refine (List.map_congr_left fun x hx => ?_).trans (List.map_id l)
      rw [if_neg (by rw [hr']; exact hl x hx), id]
    change t.rows.map (fun x => if key x = key r' then r' else x) = _
    rw [hrows, List.map_append, List.map_cons, if_pos (hkey.trans hr'.symm),
      hsame before fun x hx => hne x (List.mem_append_left _ hx),
      hsame after fun x hx => hne x (List.mem_append_right _ hx)]
  · intro p hp
    have hkeep : ∀ l : List ρ, (∀ x ∈ l, key x ≠ k) → l.filter (fun x => !p x) = l := by
      intro l hl
      refine List.filter_eq_self.mpr fun x hx => ?_
      have hnot : p x = false := Bool.eq_false_iff.mpr fun hpx => hl x hx ((hp x).mp hpx)
      rw [hnot]
      rfl
    change t.rows.filter (fun x => !p x) = _
    rw [hrows, List.filter_append, List.filter_cons_of_neg (by simp [(hp r).mpr hkey]),
      hkeep before fun x hx => hne x (List.mem_append_left _ hx),
      hkeep after fun x hx => hne x (List.mem_append_right _ hx)]

/-- `UPDATE` that may change the key columns; `none` is a violated primary key. -/
def rekeyWhere? (t : Table key) (p : ρ → Bool) (f : ρ → ρ) : Option (Table key) :=
  let rows := t.rows.map (fun r => if p r then f r else r)
  if h : (rows.map key).Nodup then some ⟨rows, h⟩ else none

theorem mem_of_rekeyWhere? {t t' : Table key} {p : ρ → Bool} {f : ρ → ρ} (h : t.rekeyWhere? p f = some t') {r : ρ} :
    r ∈ t' ↔ ∃ r₀ ∈ t, (if p r₀ then f r₀ else r₀) = r := by
  unfold rekeyWhere? at h
  simp only at h
  split at h
  · simp only [Option.some.injEq] at h
    subst h
    change r ∈ t.rows.map _ ↔ _
    simp [List.mem_map]
  · simp at h

/-- The row with the key `k` gets the key `k'`. -/
theorem find?_of_rekeyWhere? {t t' : Table key} {p : ρ → Bool} {f : ρ → ρ} {k k' : κ}
    (h : t.rekeyWhere? p f = some t') (hp : ∀ r, p r = true ↔ key r = k) (hf : ∀ r, key r = k → key (f r) = k')
    (hne : k ≠ k') (i : κ) :
    t'.find? i = if i = k then none else if i = k' then ((t.find? k).map f).or (t.find? k') else t.find? i := by
  have hnone : ∀ r ∈ t', key r ≠ k := by
    intro r hr hkey
    obtain ⟨r₀, _, rfl⟩ := (mem_of_rekeyWhere? h).mp hr
    by_cases hr₀ : p r₀ = true
    · rw [if_pos hr₀, hf r₀ ((hp r₀).mp hr₀)] at hkey
      exact hne hkey.symm
    · rw [if_neg hr₀] at hkey
      exact hr₀ ((hp r₀).mpr hkey)
  -- only the row of `k` moves, to `k'`
  have hkept : ∀ {j r}, j ≠ k → t.find? j = some r → t'.find? j = some r := by
    intro j r hj hr
    rw [find?_eq_some] at hr ⊢
    have hr₀ : ¬ p r = true := fun hpr => hj (hr.2.symm.trans ((hp r).mp hpr))
    exact ⟨(mem_of_rekeyWhere? h).mpr ⟨r, hr.1, if_neg hr₀⟩, hr.2⟩
  have hold : ∀ {j r}, j ≠ k' → t'.find? j = some r → t.find? j = some r := by
    intro j r hj hr
    rw [find?_eq_some] at hr ⊢
    obtain ⟨r₀, hmem, rfl⟩ := (mem_of_rekeyWhere? h).mp hr.1
    by_cases hr₀ : p r₀ = true
    · rw [if_pos hr₀, hf r₀ ((hp r₀).mp hr₀)] at hr
      exact absurd hr.2.symm hj
    · rw [if_neg hr₀] at hr ⊢
      exact ⟨hmem, hr.2⟩
  by_cases hi : i = k
  · rw [if_pos hi, find?_eq_none, hi]
    exact hnone
  · rw [if_neg hi]
    by_cases hi' : i = k'
    · rw [if_pos hi', hi']
      cases hk : t.find? k with
      | some r =>
        have hkey := key_of_find? hk
        rw [Option.map_some, Option.some_or, find?_eq_some]
        exact ⟨(mem_of_rekeyWhere? h).mpr ⟨r, mem_of_find? hk, if_pos ((hp r).mpr hkey)⟩, hf r hkey⟩
      | none =>
        rw [Option.map_none, Option.none_or]
        apply Option.ext
        intro r
        refine ⟨?_, hkept (Ne.symm hne)⟩
        intro hr
        rw [find?_eq_some] at hr ⊢
        obtain ⟨r₀, hmem, rfl⟩ := (mem_of_rekeyWhere? h).mp hr.1
        have hr₀ : ¬ p r₀ = true := fun hpr => find?_eq_none.mp hk r₀ hmem ((hp r₀).mp hpr)
        rw [if_neg hr₀] at hr ⊢
        exact ⟨hmem, hr.2⟩
    · rw [if_neg hi']
      apply Option.ext
      intro r
      exact ⟨hold hi', hkept hi⟩

theorem find?_of_rows_append {t t' : Table key} {r : ρ} (h : t'.rows = t.rows ++ [r]) (k : κ) :
    t'.find? k = (t.find? k).or (if key r = k then some r else none) := by
  unfold find?
  rw [h, List.find?_append]
  by_cases hk : key r = k <;> simp [hk]

/-! ### Changing keys one after the other -/

theorem rekeyWhere?_of_nodup {t : Table key} {p : ρ → Bool} {f : ρ → ρ}
    (h : ((t.rows.map (fun r => if p r then f r else r)).map key).Nodup) :
    t.rekeyWhere? p f = some ⟨t.rows.map (fun r => if p r then f r else r), h⟩ := by
  unfold rekeyWhere?
  exact dif_pos h

/-- The rows with the keys `ks` can be given their keys under `f`, in any order: the new keys are free and differ. -/
structure Movable (t : Table key) (ks : List κ) (f : ρ → ρ) : Prop where
  nodup : ks.Nodup
  away : ∀ r ∈ t, key r ∈ ks → key (f r) ∉ ks
  free : ∀ r ∈ t, key r ∈ ks → ∀ r' ∈ t, key (f r) ≠ key r'
  inj : ∀ r ∈ t, key r ∈ ks → ∀ r' ∈ t, key r' ∈ ks → key (f r) = key (f r') → r = r'

/-- The row after the keys `ks` were changed. -/
def moved (ks : List κ) (f : ρ → ρ) (key : ρ → κ) (r : ρ) : ρ := if key r ∈ ks then f r else r

@[simp] theorem moved_nil (f : ρ → ρ) : moved [] f key = id := by
  funext r
  simp [moved]

theorem Movable.rekey {t : Table key} {k : κ} {ks : List κ} {f : ρ → ρ} (h : Movable t (k :: ks) f) {p : ρ → Bool}
    (hp : ∀ r, p r = true ↔ key r = k) :
    ∃ t', t.rekeyWhere? p f = some t' ∧ t'.rows = t.rows.map (moved [k] f key) ∧ Movable t' ks f := by
  obtain ⟨hk, hks⟩ := List.nodup_cons.mp h.nodup
  have hmap : (fun r => if p r then f r else r) = moved [k] f key := by
    funext r
    unfold moved
    by_cases hr : key r = k
    · rw [if_pos ((hp r).mpr hr), if_pos (by simp [hr])]
    · rw [if_neg (fun h => hr ((hp r).mp h)), if_neg (by simp [hr])]
  have hin : ∀ r, key r = k → key r ∈ k :: ks := fun r hr => by simp [hr]
  have hnodup : ((t.rows.map (fun r => if p r then f r else r)).map key).Nodup := by
    rw [hmap, List.map_map]
    refine List.Nodup.map_on ?_ (List.Nodup.of_map key t.nodup)
    intro r hr r' hr' heq
    simp only [Function.comp_apply, moved, List.mem_singleton] at heq
    by_cases hrk : key r = k <;> by_cases hrk' : key r' = k
    · exact eq_of_key_eq hr hr' (hrk.trans hrk'.symm)
    · rw [if_pos hrk, if_neg hrk'] at heq
      exact absurd heq (h.free r hr (hin r hrk) r' hr')
    · rw [if_neg hrk, if_pos hrk'] at heq
      exact absurd heq.symm (h.free r' hr' (hin r' hrk') r hr)
    · rw [if_neg hrk, if_neg hrk'] at heq
      exact eq_of_key_eq hr hr' heq
  refine ⟨_, rekeyWhere?_of_nodup hnodup, congrArg (fun g => t.rows.map g) hmap, ?_⟩
  -- a row of the new table with a key that is still to be changed was there before
  have hold : ∀ r ∈ t.rows.map (fun r => if p r then f r else r),
      r ∈ t ∧ key r ≠ k ∨ ∃ r₀ ∈ t, key r₀ = k ∧ r = f r₀ := by
    intro r hr
    rw [hmap] at hr
    obtain ⟨r₀, hr₀, rfl⟩ := List.mem_map.mp hr
    unfold moved
    by_cases hk₀ : key r₀ = k
    · exact .inr ⟨r₀, hr₀, hk₀, by simp [hk₀]⟩
    · exact .inl (by simpa [hk₀] using hr₀)
  have hstill : ∀ r ∈ t.rows.map (fun r => if p r then f r else r), key r ∈ ks → r ∈ t := by
    intro r hr hrks
    rcases hold r hr with ⟨hr, _⟩ | ⟨r₀, hr₀, hk₀, rfl⟩
    · exact hr
    · exact absurd (List.mem_cons_of_mem k hrks) (h.away r₀ hr₀ (hin r₀ hk₀))
  constructor
  · exact hks
  · intro r hr hrks hmem
    exact h.away r (hstill r hr hrks) (List.mem_cons_of_mem k hrks) (List.mem_cons_of_mem k hmem)
  · intro r hr hrks r' hr' heq
    have hr := hstill r hr hrks
    rcases hold r' hr' with ⟨hr', _⟩ | ⟨r₀, hr₀, hk₀, rfl⟩
    · exact h.free r hr (List.mem_cons_of_mem k hrks) r' hr' heq
    · have hsame := h.inj r hr (List.mem_cons_of_mem k hrks) r₀ hr₀ (hin r₀ hk₀) heq
      rw [hsame, hk₀] at hrks
      exact hk hrks
  · intro r hr hrks r' hr' hrks' heq
    exact h.inj r (hstill r hr hrks) (List.mem_cons_of_mem k hrks) r' (hstill r' hr' hrks') (List.mem_cons_of_mem k hrks')
      heq

/-- Changing one key after the other. -/
theorem map_moved {t : Table key} {k : κ} {ks : List κ} {f : ρ → ρ} (h : Movable t (k :: ks) f) :
    (t.rows.map (moved [k] f key)).map (moved ks f key) = t.rows.map (moved (k :: ks) f key) := by
  rw [List.map_map]
  apply List.map_congr_left
  intro r hr
  simp only [Function.comp_apply, moved]
  by_cases hk : key r = k
  · have hout := h.away r hr (by simp [hk])
    rw [List.mem_cons, not_or] at hout
    simp [hk, hout.2]
  · simp [hk]

end Table

end Relational
