import Mathlib.Data.List.Basic

/-!
# Lists of keyed records

A table is a list of records in file order.  `locate` is the position of the
first record with a key, `lookup` that record, and `upsert` overwrites the
first record with the key of a given one, or appends it.
-/

namespace BankingSystem.Foundation

namespace Table

variable {ρ κ : Type} [DecidableEq κ] (key : ρ → κ)

def locate (k : κ) (table : List ρ) : Option Nat :=
  table.findIdx? fun r => key r = k

def lookup (k : κ) (table : List ρ) : Option ρ :=
  table.find? fun r => key r = k

def upsert (r : ρ) (table : List ρ) : List ρ :=
  match locate key (key r) table with
  | some i => table.set i r
  | none => table ++ [r]

/-- A write at a position: over the record there, or at the end of the table. -/
def put (table : List ρ) (pos : Nat) (r : ρ) : List ρ :=
  if pos < table.length then table.set pos r else table ++ [r]

def modify (k : κ) (f : ρ → Option ρ) (table : List ρ) : Option (List ρ) := do
  let i ← locate key k table
  let r ← table[i]?
  let r' ← f r
  some (table.set i r')

variable {key} {k k' : κ} {table : List ρ} {i j : Nat} {r r' : ρ}

theorem locate_eq_some_iff :
    locate key k table = some i ↔
      ∃ r, table[i]? = some r ∧ key r = k ∧
        ∀ j r', j < i → table[j]? = some r' → key r' ≠ k := by
  unfold locate
  rw [List.findIdx?_eq_some_iff_getElem]
  constructor
  · rintro ⟨hi, hkey, hbefore⟩
    refine ⟨table[i], List.getElem?_eq_getElem hi, by simpa using hkey, ?_⟩
    intro j r' hj hr'
    obtain ⟨hlt, rfl⟩ := List.getElem?_eq_some_iff.mp hr'
    simpa using hbefore j hj
  · rintro ⟨r, hr, hkey, hbefore⟩
    obtain ⟨hi, rfl⟩ := List.getElem?_eq_some_iff.mp hr
    refine ⟨hi, by simpa using hkey, fun j hj => ?_⟩
    simpa using hbefore j _ hj (List.getElem?_eq_getElem (Nat.lt_trans hj hi))

theorem locate_eq_none_iff :
    locate key k table = none ↔ ∀ r ∈ table, key r ≠ k := by
  simp [locate]

theorem lookup_eq_none_iff :
    lookup key k table = none ↔ ∀ r ∈ table, key r ≠ k := by
  simp [lookup]

theorem lookup_key (h : lookup key k table = some r) : key r = k := by
  simpa using List.find?_some h

theorem lookup_mem (h : lookup key k table = some r) : r ∈ table :=
  List.mem_of_find?_eq_some h

theorem lookup_of_mem (hnodup : (table.map key).Nodup) (h : r ∈ table) :
    lookup key (key r) table = some r := by
  induction table with
  | nil => cases h
  | cons head table ih =>
      rw [List.map_cons, List.nodup_cons] at hnodup
      rcases List.mem_cons.mp h with rfl | hr
      · simp [lookup]
      · have hne : key head ≠ key r := fun heq =>
          hnodup.1 (heq ▸ List.mem_map_of_mem hr)
        simpa [lookup, hne] using ih hnodup.2 hr

theorem filter_key_of_mem (hnodup : (table.map key).Nodup) (h : r ∈ table) :
    table.filter (fun r' => key r' = key r) = [r] := by
  induction table with
  | nil => cases h
  | cons head table ih =>
      rw [List.map_cons, List.nodup_cons] at hnodup
      rcases List.mem_cons.mp h with rfl | hr
      · have hnone : ∀ r' ∈ table, key r' ≠ key r := fun r' hr' hkey =>
          hnodup.1 (hkey ▸ List.mem_map_of_mem hr')
        simpa [List.filter_cons] using hnone
      · have hne : key head ≠ key r := fun heq =>
          hnodup.1 (heq ▸ List.mem_map_of_mem hr)
        simpa [List.filter_cons, hne] using ih hnodup.2 hr

theorem lookup_of_locate (h : locate key k table = some i) :
    lookup key k table = table[i]? := by
  induction table generalizing i with
  | nil => simp [locate] at h
  | cons head table ih =>
      by_cases hk : key head = k
      · have hi : i = 0 := by
          simpa [locate, List.findIdx?_cons, hk] using h.symm
        simp [lookup, hk, hi]
      · simp only [locate, List.findIdx?_cons, hk, decide_false,
          Bool.false_eq_true, if_false, Option.map_eq_some_iff] at h
        obtain ⟨j, hj, rfl⟩ := h
        simpa [lookup, hk] using ih hj

theorem lookup_of_locate_none (h : locate key k table = none) :
    lookup key k table = none :=
  lookup_eq_none_iff.mpr (locate_eq_none_iff.mp h)

theorem getElem?_of_locate (h : locate key k table = some i) :
    ∃ r, table[i]? = some r ∧ key r = k := by
  obtain ⟨r, hr, hk, -⟩ := locate_eq_some_iff.mp h
  exact ⟨r, hr, hk⟩

theorem locate_of_lookup (h : lookup key k table = some r) :
    ∃ i, locate key k table = some i ∧ table[i]? = some r := by
  cases hloc : locate key k table with
  | none => rw [lookup_of_locate_none hloc] at h; cases h
  | some i => exact ⟨i, rfl, by rw [← lookup_of_locate hloc, h]⟩

/-! ## Overwriting a record in place -/

theorem getElem?_set_of_locate (h : locate key k table = some i) :
    (table.set i r)[j]? = if j = i then some r else table[j]? := by
  obtain ⟨r', hr', -⟩ := getElem?_of_locate h
  have hi : i < table.length := (List.getElem?_eq_some_iff.mp hr').1
  by_cases hji : j = i
  · simp [hji, hi]
  · simp [hji, List.getElem?_set_ne (Ne.symm hji)]

omit [DecidableEq κ] in
theorem map_key_set (h : table[i]? = some r') (hkey : key r = key r') :
    (table.set i r).map key = table.map key := by
  obtain ⟨hi, rfl⟩ := List.getElem?_eq_some_iff.mp h
  apply List.ext_getElem?
  intro j
  simp only [List.getElem?_map, List.getElem?_set]
  by_cases hij : i = j
  · subst hij
    simp [hkey, hi]
  · simp [hij]

theorem locate_eq_map : locate key k table = locate id k (table.map key) := by
  simp [locate, List.findIdx?_map, Function.comp_def]

theorem locate_congr {table' : List ρ} (h : table.map key = table'.map key) :
    locate key k table = locate key k table' := by
  rw [locate_eq_map, h]
  exact locate_eq_map.symm

theorem locate_set (h : table[i]? = some r') (hkey : key r = key r') :
    locate key k (table.set i r) = locate key k table :=
  locate_congr (map_key_set h hkey)

theorem lookup_set_self (h : locate key k table = some i) (hkey : key r = k) :
    lookup key k (table.set i r) = some r := by
  obtain ⟨r', hr', hk⟩ := getElem?_of_locate h
  have hset := (locate_set (k := k) hr' (hkey.trans hk.symm)).trans h
  rw [lookup_of_locate hset, getElem?_set_of_locate h, if_pos rfl]

theorem lookup_set_ne (h : locate key k table = some i) (hkey : key r = k)
    (hne : k' ≠ k) : lookup key k' (table.set i r) = lookup key k' table := by
  obtain ⟨r', hr', hk⟩ := getElem?_of_locate h
  have hset := locate_set (k := k') hr' (hkey.trans hk.symm)
  cases hloc : locate key k' table with
  | none =>
      rw [lookup_of_locate_none hloc, lookup_of_locate_none (hset.trans hloc)]
  | some j =>
      have hji : j ≠ i := by
        rintro rfl
        obtain ⟨r'', hr'', hk''⟩ := getElem?_of_locate hloc
        rw [hr'] at hr''
        cases hr''
        exact hne (hk''.symm.trans hk)
      rw [lookup_of_locate (hset.trans hloc), lookup_of_locate hloc,
        getElem?_set_of_locate h, if_neg hji]

theorem mem_set (h : r' ∈ table.set i r) : r' = r ∨ r' ∈ table :=
  (List.mem_or_eq_of_mem_set h).symm

theorem modify_eq_some_iff {f : ρ → Option ρ} {table' : List ρ} :
    modify key k f table = some table' ↔
      ∃ i r r', locate key k table = some i ∧ table[i]? = some r ∧
        f r = some r' ∧ table' = table.set i r' := by
  simp only [modify, Option.bind_eq_bind, Option.bind_eq_some_iff,
    Option.some.injEq]
  constructor
  · rintro ⟨i, hloc, r, hr, r', hf, rfl⟩
    exact ⟨i, r, r', hloc, hr, hf, rfl⟩
  · rintro ⟨i, r, r', hloc, hr, hf, rfl⟩
    exact ⟨i, hloc, r, hr, r', hf, rfl⟩

theorem modify_eq_none_iff {f : ρ → Option ρ} :
    modify key k f table = none ↔
      ∀ r, lookup key k table = some r → f r = none := by
  cases hloc : locate key k table with
  | none => simp [modify, hloc, lookup_of_locate_none hloc]
  | some i =>
      obtain ⟨r, hr, -⟩ := getElem?_of_locate hloc
      cases hf : f r <;> simp [modify, hloc, lookup_of_locate hloc, hr, hf]

omit [DecidableEq κ] in
theorem put_of_lt (h : i < table.length) : put table i r = table.set i r :=
  if_pos h

omit [DecidableEq κ] in
theorem put_length : put table table.length r = table ++ [r] :=
  if_neg (Nat.lt_irrefl _)

omit [DecidableEq κ] in
theorem mem_put (h : r' ∈ put table i r) : r' = r ∨ r' ∈ table := by
  unfold put at h
  split at h
  · exact mem_set h
  · simpa [or_comm] using h

omit [DecidableEq κ] in
theorem length_le_put : table.length ≤ (put table i r).length := by
  unfold put
  split <;> simp

omit [DecidableEq κ] in
theorem getElem?_key_inj (hnodup : (table.map key).Nodup) (hi : table[i]? = some r)
    (hj : table[j]? = some r') (hkey : key r' = key r) : j = i := by
  have hmap : (table.map key)[j]? = (table.map key)[i]? := by simp [hi, hj, hkey]
  obtain ⟨hlt, -⟩ := List.getElem?_eq_some_iff.mp hj
  exact (List.getElem?_inj (by simpa using hlt) hnodup).mp hmap

/-! ## Changing the record with a key -/

/-- What becomes of one record when the record with key `k` is changed by `f`. -/
def revise (key : ρ → κ) (k : κ) (f : ρ → Option ρ) (r : ρ) : ρ :=
  if key r = k then (f r).getD r else r

theorem key_revise {f : ρ → Option ρ} (hf : ∀ r r', f r = some r' → key r' = key r) (r : ρ) :
    key (revise key k f r) = key r := by
  unfold revise
  split
  · cases hr : f r with
    | none => rfl
    | some r' => exact hf r r' hr
  · rfl

theorem revise_comm {f g : ρ → Option ρ} (hf : ∀ r r', f r = some r' → key r' = key r)
    (hg : ∀ r r', g r = some r' → key r' = key r) (hne : k ≠ k') (r : ρ) :
    revise key k f (revise key k' g r) = revise key k' g (revise key k f r) := by
  by_cases hk : key r = k
  · have hk' : key r ≠ k' := hk ▸ hne
    have hrevised : key (revise key k f r) ≠ k' := by rwa [key_revise hf]
    rw [revise.eq_def key k' g r, if_neg hk', revise.eq_def key k' g, if_neg hrevised]
  · have hrevised : key (revise key k' g r) ≠ k := by rwa [key_revise hg]
    rw [revise.eq_def key k f r, if_neg hk, revise.eq_def key k f, if_neg hrevised]

theorem lookup_map {g : ρ → ρ} (hg : ∀ r, key (g r) = key r) :
    lookup key k (table.map g) = (lookup key k table).map g := by
  have hkeys : (fun r => decide (key r = k)) ∘ g = fun r => decide (key r = k) := by
    funext r
    rw [Function.comp_apply, hg]
  rw [lookup, lookup, List.find?_map, hkeys]

theorem modify_getD (hnodup : (table.map key).Nodup) (f : ρ → Option ρ) :
    (modify key k f table).getD table = table.map (revise key k f) := by
  have hsame : ∀ r, (key r = k → f r = none) → revise key k f r = r := by
    intro r hnone
    unfold revise
    split
    · rw [hnone ‹_›, Option.getD_none]
    · rfl
  cases hmod : modify key k f table with
  | none =>
      rw [modify_eq_none_iff] at hmod
      refine (List.map_id table).symm.trans (List.map_congr_left fun r hr => ?_)
      refine (hsame r fun hkey => hmod r ?_).symm
      rw [← hkey]
      exact lookup_of_mem hnodup hr
  | some table' =>
      obtain ⟨i, r, r', hloc, hr, hf, rfl⟩ := modify_eq_some_iff.mp hmod
      obtain ⟨r₀, hr₀, hkey⟩ := getElem?_of_locate hloc
      rw [hr] at hr₀
      cases hr₀
      apply List.ext_getElem?
      intro j
      rw [Option.getD_some, getElem?_set_of_locate hloc, List.getElem?_map]
      by_cases hji : j = i
      · rw [if_pos hji, hji, hr, Option.map_some, revise, if_pos hkey, hf, Option.getD_some]
      · rw [if_neg hji]
        cases hj : table[j]? with
        | none => rfl
        | some other =>
            refine congrArg some (hsame other fun hother => ?_).symm
            exact absurd (getElem?_key_inj hnodup hr hj (hother.trans hkey.symm)) hji

theorem isSome_modify (f : ρ → Option ρ) :
    (modify key k f table).isSome = ((lookup key k table).bind f).isSome := by
  cases hmod : modify key k f table with
  | none =>
      rw [modify_eq_none_iff] at hmod
      cases hlookup : lookup key k table with
      | none => rfl
      | some r => simp [hmod r hlookup]
  | some table' =>
      obtain ⟨i, r, r', hloc, hr, hf, -⟩ := modify_eq_some_iff.mp hmod
      simp [lookup_of_locate hloc, hr, hf]

/-! ## Appending and upserting -/

theorem lookup_append_singleton :
    lookup key k (table ++ [r]) =
      (lookup key k table).or (if key r = k then some r else none) := by
  by_cases hk : key r = k <;> simp [lookup, List.find?_append, hk]

theorem upsert_of_locate (h : locate key (key r) table = some i) :
    upsert key r table = table.set i r := by
  simp [upsert, h]

theorem upsert_of_fresh (h : ∀ r' ∈ table, key r' ≠ key r) :
    upsert key r table = table ++ [r] := by
  simp [upsert, locate_eq_none_iff.mpr h]

theorem mem_upsert (h : r' ∈ upsert key r table) : r' = r ∨ r' ∈ table := by
  unfold upsert at h
  split at h
  · exact mem_set h
  · simpa [or_comm] using h

theorem mem_upsert_self : r ∈ upsert key r table := by
  cases hloc : locate key (key r) table with
  | some i =>
      obtain ⟨r', hr', -⟩ := getElem?_of_locate hloc
      obtain ⟨hi, -⟩ := List.getElem?_eq_some_iff.mp hr'
      rw [upsert_of_locate hloc]
      exact List.mem_set hi r
  | none =>
      rw [upsert_of_fresh (locate_eq_none_iff.mp hloc)]
      exact List.mem_append_right _ (List.mem_singleton_self r)

theorem upsert_eq_self_iff : upsert key r table = table ↔ lookup key (key r) table = some r := by
  cases hloc : locate key (key r) table with
  | some i =>
      obtain ⟨r', hr', -⟩ := getElem?_of_locate hloc
      obtain ⟨hi, hget⟩ := List.getElem?_eq_some_iff.mp hr'
      rw [upsert_of_locate hloc, lookup_of_locate hloc]
      constructor
      · intro h
        rw [← h, List.getElem?_set_self hi]
      · intro h
        rw [hr'] at h
        cases h
        rw [← hget, List.set_getElem_self]
  | none =>
      rw [upsert_of_fresh (locate_eq_none_iff.mp hloc), lookup_of_locate_none hloc]
      simp

theorem forall_mem_upsert_iff {P : ρ → Prop} (h : ∀ r' ∈ table, P r') :
    (∀ r' ∈ upsert key r table, P r') ↔ P r := by
  refine ⟨fun hall => hall r mem_upsert_self, fun hr r' hmem => ?_⟩
  rcases mem_upsert hmem with rfl | hold
  · exact hr
  · exact h r' hold

theorem forall_mem_set_iff {P : ρ → Prop} (h : ∀ r' ∈ table, P r') (hi : i < table.length) :
    (∀ r' ∈ table.set i r, P r') ↔ P r := by
  refine ⟨fun hall => hall r (List.mem_set hi r), fun hr r' hmem => ?_⟩
  rcases mem_set hmem with rfl | hold
  · exact hr
  · exact h r' hold

theorem map_key_prefix_upsert : table.map key <+: (upsert key r table).map key := by
  cases hloc : locate key (key r) table with
  | some i =>
      obtain ⟨r', hr', hkey⟩ := getElem?_of_locate hloc
      have hsame : (upsert key r table).map key = table.map key := by
        rw [upsert_of_locate hloc, map_key_set hr' hkey.symm]
      exact hsame ▸ List.prefix_refl _
  | none =>
      rw [upsert_of_fresh (locate_eq_none_iff.mp hloc), List.map_append]
      exact List.prefix_append _ _

theorem length_le_upsert : table.length ≤ (upsert key r table).length := by
  unfold upsert
  split <;> simp

theorem lookup_upsert_self : lookup key (key r) (upsert key r table) = some r := by
  cases hloc : locate key (key r) table with
  | none =>
      rw [upsert_of_fresh (locate_eq_none_iff.mp hloc), lookup_append_singleton,
        lookup_of_locate_none hloc]
      simp
  | some i => rw [upsert_of_locate hloc, lookup_set_self hloc rfl]

variable (key table) in
theorem lookup_upsert_ne (hne : k ≠ key r) :
    lookup key k (upsert key r table) = lookup key k table := by
  cases hloc : locate key (key r) table with
  | none =>
      rw [upsert_of_fresh (locate_eq_none_iff.mp hloc), lookup_append_singleton,
        if_neg hne.symm, Option.or_none]
  | some i => rw [upsert_of_locate hloc, lookup_set_ne hloc rfl hne]

theorem filter_set {p : ρ → Bool} (h : table[i]? = some r) (hr : p r = false)
    (hr' : p r' = false) : (table.set i r').filter p = table.filter p := by
  induction table generalizing i with
  | nil => rfl
  | cons first rest ih =>
      cases i with
      | zero =>
          obtain rfl : first = r := by simpa using h
          simp [hr, hr']
      | succ i => simp [List.filter_cons, ih (by simpa using h)]

end Table

end BankingSystem.Foundation
