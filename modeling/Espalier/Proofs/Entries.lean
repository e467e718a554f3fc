import Espalier.Entries
import Mathlib.Data.List.Induction
import Mathlib.Data.List.Nodup

/-!
# Look-up in ordered entries

Membership and look-up agree when no key is repeated, and writing pairs whose keys are new and
distinct only appends them.
-/

namespace Espalier
namespace Entries

variable {α : Type}

/-! ## Membership -/

/-- What a mapping holds after a change it held before, or it is what was written. -/
theorem mem_of_mem_put {es : Entries α} {key : String} {value : α} {e : String × α}
    (h : e ∈ put es key value) : e ∈ es ∨ e = (key, value) := by
  induction es with
  | nil => exact .inr (List.mem_singleton.1 h)
  | cons p rest ih =>
    rcases p with ⟨k, v⟩
    rw [put] at h
    split at h
    · rename_i hk
      rcases List.mem_cons.1 h with rfl | h
      · exact .inr (hk ▸ rfl)
      · exact .inl (List.mem_cons_of_mem _ h)
    · rcases List.mem_cons.1 h with rfl | h
      · exact .inl List.mem_cons_self
      · exact (ih h).imp (List.mem_cons_of_mem _) id

theorem mem_of_get? {es : Entries α} {key : String} {value : α} (h : get? es key = some value) :
    (key, value) ∈ es := by
  induction es with
  | nil => simp [get?] at h
  | cons e rest ih =>
    rcases e with ⟨k, v⟩
    by_cases hk : k = key
    · subst hk
      have hv : v = value := by simpa [get?] using h
      simp [hv]
    · rw [get?, if_neg hk] at h
      exact List.mem_cons_of_mem _ (ih h)

/-- An entry is found under its key if no key is repeated. -/
theorem get?_of_mem {es : Entries α} (hn : (keys es).Nodup) {key : String} {value : α}
    (h : (key, value) ∈ es) : get? es key = some value := by
  induction es with
  | nil => cases h
  | cons e rest ih =>
    rcases e with ⟨k, v⟩
    have hk : k ∉ keys rest := (List.nodup_cons.1 hn).1
    have hrest : (keys rest).Nodup := (List.nodup_cons.1 hn).2
    rcases List.mem_cons.1 h with heq | hmem
    · cases heq
      simp [get?]
    · have hne : k ≠ key := by
        intro hkey
        exact hk (hkey ▸ List.mem_map_of_mem (f := Prod.fst) hmem)
      rw [get?, if_neg hne]
      exact ih hrest hmem

/-- A key that is not found is none of the keys. -/
theorem get?_eq_none {es : Entries α} {key : String} : get? es key = none ↔ key ∉ keys es := by
  induction es with
  | nil => simp [get?, keys]
  | cons e rest ih =>
    rcases e with ⟨k, v⟩
    by_cases hk : k = key
    · simp [get?, keys, hk]
    · have hk' : key ≠ k := fun h => hk h.symm
      have hcons : keys ((k, v) :: rest) = k :: keys rest := rfl
      rw [get?, if_neg hk, ih, hcons]
      simp [hk']

/-! ## Writing pairs -/

/-- Pairs with new and distinct keys are appended. -/
theorem merge_eq_append {es : Entries α} {pairs : List (String × α)}
    (h : (keys es ++ pairs.map Prod.fst).Nodup) : merge es pairs = es ++ pairs := by
  induction pairs generalizing es with
  | nil => simp [merge]
  | cons p rest ih =>
    have hp : p.1 ∉ keys es := by
      intro hmem
      exact (List.nodup_append.1 h).2.2 _ hmem _ (by simp) rfl
    have hkeys : keys (es ++ [(p.1, p.2)]) = keys es ++ [p.1] := by simp [keys]
    have hrest : (keys (es ++ [(p.1, p.2)]) ++ rest.map Prod.fst).Nodup := by
      rw [hkeys, List.append_assoc]
      exact h
    calc
      merge es (p :: rest) = merge (put es p.1 p.2) rest := rfl
      _ = merge (es ++ [(p.1, p.2)]) rest := by rw [put_of_notMem hp]
      _ = es ++ [(p.1, p.2)] ++ rest := ih hrest
      _ = es ++ p :: rest := by simp

/-- Of pairs with distinct keys, those with new keys go to the end. -/
theorem keys_merge {es : Entries α} {pairs : List (String × α)}
    (h : (pairs.map Prod.fst).Nodup) :
    keys (merge es pairs) = keys es ++ (pairs.map Prod.fst).filter (fun k => k ∉ keys es) := by
  induction pairs generalizing es with
  | nil => simp [merge]
  | cons p rest ih =>
    rw [List.map_cons, List.nodup_cons] at h
    -- One pair is written first; the others meet the keys that it leaves behind.
    have hstep : keys (merge es (p :: rest)) = keys (merge (put es p.1 p.2) rest) := rfl
    rw [hstep, ih h.2, keys_put]
    by_cases hp : p.1 ∈ keys es
    · simp [hp]
    · have hrest : (rest.map Prod.fst).filter (fun k => k ∉ keys es ++ [p.1]) =
          (rest.map Prod.fst).filter (fun k => k ∉ keys es) := by
        refine List.filter_congr fun k hk => ?_
        have hne : k ≠ p.1 := fun heq => h.1 (heq ▸ hk)
        simp [hne]
      rw [if_neg hp, hrest]
      simp [hp]

/-- The pairs hide what was under their keys. -/
theorem get?_merge {es : Entries α} {pairs : List (String × α)}
    (h : (pairs.map Prod.fst).Nodup) (key : String) :
    get? (merge es pairs) key = (get? pairs key).or (get? es key) := by
  induction pairs generalizing es with
  | nil => rfl
  | cons p rest ih =>
    rcases p with ⟨k, v⟩
    rw [List.map_cons, List.nodup_cons] at h
    have hstep : merge es ((k, v) :: rest) = merge (put es k v) rest := rfl
    rw [hstep, ih h.2]
    by_cases hk : k = key
    · subst hk
      have hnone : get? rest k = none := get?_eq_none.2 h.1
      simp [get?, hnone, get?_put_self]
    · rw [get?_put_of_ne es v hk, get?, if_neg hk]

/-- Whatever stands under the first key, the pairs do the same to the entries after it. -/
theorem exists_merge_cons (key : String) (es : Entries α) (pairs : List (String × α)) :
    ∃ rest, ∀ value, ∃ value', merge ((key, value) :: es) pairs = (key, value') :: rest := by
  induction pairs generalizing es with
  | nil => exact ⟨es, fun value => ⟨value, rfl⟩⟩
  | cons p pairs ih =>
    by_cases hp : key = p.1
    · rcases ih es with ⟨rest, hrest⟩
      refine ⟨rest, fun value => ?_⟩
      rcases hrest p.2 with ⟨value', hvalue⟩
      refine ⟨value', ?_⟩
      rw [← hvalue, merge, List.foldl_cons, put, if_pos hp]
      rfl
    · rcases ih (put es p.1 p.2) with ⟨rest, hrest⟩
      refine ⟨rest, fun value => ?_⟩
      rcases hrest value with ⟨value', hvalue⟩
      refine ⟨value', ?_⟩
      rw [← hvalue, merge, List.foldl_cons, put, if_neg hp]
      rfl

/-- What stands in merged entries was there or came with the pairs. -/
theorem mem_of_mem_merge {es : Entries α} {pairs : List (String × α)} {e : String × α}
    (h : e ∈ merge es pairs) : e ∈ es ∨ e ∈ pairs := by
  induction pairs generalizing es with
  | nil => exact .inl h
  | cons p rest ih =>
    rcases ih h with hput | hrest
    · rcases mem_of_mem_put hput with hes | rfl
      · exact .inl hes
      · exact .inr List.mem_cons_self
    · exact .inr (List.mem_cons_of_mem p hrest)

/-! ## Entries of some keys -/

/-- The entries whose keys are kept. -/
def restrict (keep : String → Bool) (es : Entries α) : Entries α :=
  es.filter fun e => keep e.1

section Restrict

variable {keep : String → Bool} {key : String}

theorem restrict_cons (e : String × α) (es : Entries α) :
    restrict keep (e :: es) = if keep e.1 then e :: restrict keep es else restrict keep es :=
  List.filter_cons

/-- A key that is kept can be written before or after. -/
theorem restrict_put_of_kept (h : keep key = true) (es : Entries α) (value : α) :
    restrict keep (put es key value) = put (restrict keep es) key value := by
  induction es with
  | nil => rw [put, restrict_cons, if_pos h]; rfl
  | cons e rest ih =>
    rcases e with ⟨k, v⟩
    by_cases hk : k = key
    · subst hk
      rw [put, if_pos rfl, restrict_cons, restrict_cons, if_pos h, if_pos h, put, if_pos rfl]
    · rw [put, if_neg hk, restrict_cons, restrict_cons, ih]
      split
      · rw [put, if_neg hk]
      · rfl

/-- A key that is not kept might as well not be written. -/
theorem restrict_put_of_dropped (h : keep key = false) (es : Entries α) (value : α) :
    restrict keep (put es key value) = restrict keep es := by
  have hkey : ¬ keep key = true := Bool.not_eq_true _ ▸ h
  induction es with
  | nil => rw [put, restrict_cons, if_neg hkey]
  | cons e rest ih =>
    rcases e with ⟨k, v⟩
    by_cases hk : k = key
    · subst hk
      rw [put, if_pos rfl, restrict_cons, restrict_cons, if_neg hkey, if_neg hkey]
    · rw [put, if_neg hk, restrict_cons, restrict_cons, ih]

end Restrict

/-! ## Other values under the same keys -/

variable {β : Type}

theorem get?_map (f : α → β) (es : Entries α) (key : String) :
    get? (es.map fun e => (e.1, f e.2)) key = (get? es key).map f := by
  induction es with
  | nil => rfl
  | cons e rest ih =>
    rw [List.map_cons, get?, get?, ih]
    split <;> rfl

theorem put_map (f : α → β) (es : Entries α) (key : String) (value : α) :
    put (es.map fun e => (e.1, f e.2)) key (f value) =
      (put es key value).map fun e => (e.1, f e.2) := by
  induction es with
  | nil => rfl
  | cons e rest ih =>
    rw [List.map_cons, put, put, ih]
    split <;> rfl

theorem merge_map (f : α → β) (es : Entries α) (pairs : List (String × α)) :
    merge (es.map fun e => (e.1, f e.2)) (pairs.map fun e => (e.1, f e.2)) =
      (merge es pairs).map fun e => (e.1, f e.2) := by
  induction pairs generalizing es with
  | nil => rfl
  | cons p rest ih =>
    rw [List.map_cons, merge, List.foldl_cons, put_map]
    exact ih (put es p.1 p.2)

/-- Pairs without a repeated key are a mapping as they stand. -/
theorem ofPairs_eq_self {pairs : List (String × α)} (h : (pairs.map Prod.fst).Nodup) :
    ofPairs pairs = pairs := by
  have hmerge : merge [] pairs = [] ++ pairs := merge_eq_append (by simpa [keys] using h)
  simpa [ofPairs] using hmerge

/-! ## Entries known by their keys and values -/

/-- Entries with one value a key are what stands under each key, in the order of the keys. -/
theorem ext_keys {es es' : Entries α} (hn : (keys es).Nodup) (hkeys : keys es = keys es')
    (hget : ∀ key, get? es key = get? es' key) : es = es' := by
  induction es generalizing es' with
  | nil => exact (List.map_eq_nil_iff.1 hkeys.symm).symm
  | cons e es ih =>
    rcases e with ⟨k, v⟩
    rcases es' with _ | ⟨⟨k', v'⟩, es'⟩
    · cases hkeys
    have hkeys' := List.cons.inj hkeys
    obtain rfl : k = k' := hkeys'.1
    have hnotMem : k ∉ keys es := (List.nodup_cons.1 hn).1
    have hvalue : v = v' := by simpa [get?] using hget k
    have hrest : es = es' := by
      refine ih (List.nodup_cons.1 hn).2 hkeys'.2 fun key => ?_
      by_cases hk : k = key
      · subst hk
        have hnotMem' : k ∉ keys es' := by
          rw [keys, ← hkeys'.2]
          exact hnotMem
        rw [get?_eq_none.2 hnotMem, get?_eq_none.2 hnotMem']
      · simpa [get?, hk] using hget key
    rw [hvalue, hrest]

theorem ofPairs_append_singleton (pairs : List (String × α)) (p : String × α) :
    ofPairs (pairs ++ [p]) = put (ofPairs pairs) p.1 p.2 :=
  List.foldl_append

/-- Every key has the place at which it comes first. -/
theorem keys_ofPairs (pairs : List (String × α)) :
    keys (ofPairs pairs) = (pairs.map Prod.fst).eraseDups := by
  induction pairs using List.reverseRecOn with
  | nil => rfl
  | append_singleton pairs p ih =>
    rw [ofPairs_append_singleton, keys_put, ih, List.map_append, List.eraseDups_append]
    by_cases hp : p.1 ∈ pairs.map Prod.fst
    · rw [if_pos (List.mem_eraseDups.2 hp)]
      simp [List.removeAll, hp]
    · rw [if_neg (mt List.mem_eraseDups.1 hp)]
      simp [List.removeAll, hp, List.eraseDups_cons]

/-- Every key has the value with which it comes last. -/
theorem get?_ofPairs (pairs : List (String × α)) (key : String) :
    get? (ofPairs pairs) key = get? pairs.reverse key := by
  induction pairs using List.reverseRecOn with
  | nil => rfl
  | append_singleton pairs p ih =>
    rw [ofPairs_append_singleton, List.reverse_append]
    by_cases hp : p.1 = key
    · subst hp
      simp [get?_put_self, get?]
    · rw [get?_put_of_ne _ _ hp, ih]
      simp [get?, hp]

/-- The entries of pairs are those with the first place and the last value of every key. -/
theorem eq_ofPairs_iff {es : Entries α} {pairs : List (String × α)} :
    es = ofPairs pairs ↔
      keys es = (pairs.map Prod.fst).eraseDups ∧ ∀ key, get? es key = get? pairs.reverse key := by
  constructor
  · rintro rfl
    exact ⟨keys_ofPairs pairs, get?_ofPairs pairs⟩
  · rintro ⟨hkeys, hget⟩
    have hkeys' := hkeys.trans (keys_ofPairs pairs).symm
    refine ext_keys (hkeys' ▸ nodup_keys_ofPairs pairs) hkeys' fun key => ?_
    rw [hget, get?_ofPairs]

/-- Two entries and no more, in either order. -/
theorem perm_pair_iff {es : Entries α} {a b : String} {x y : α} (hab : a ≠ b) :
    es.Perm [(a, x), (b, y)] ↔ (keys es).Nodup ∧ (∀ key ∈ keys es, key ∈ [a, b]) ∧
      get? es a = some x ∧ get? es b = some y := by
  constructor
  · intro h
    have hkeys : (keys es).Perm [a, b] := h.map Prod.fst
    have hn : (keys es).Nodup := hkeys.nodup_iff.2 (by simpa using hab)
    exact ⟨hn, fun key hkey => hkeys.mem_iff.1 hkey, get?_of_mem hn (h.mem_iff.2 (by simp)),
      get?_of_mem hn (h.mem_iff.2 (by simp))⟩
  · rintro ⟨hn, hkeys, hx, hy⟩
    have hpair : [(a, x), (b, y)].Nodup := by simp [hab]
    refine (List.perm_ext_iff_of_nodup (List.Nodup.of_map Prod.fst hn) hpair).2 fun e => ?_
    rcases e with ⟨key, value⟩
    constructor
    · intro he
      have hvalue := get?_of_mem hn he
      have hkey := hkeys key (List.mem_map_of_mem he)
      rcases List.mem_cons.1 hkey with rfl | hkey
      · cases hx.symm.trans hvalue
        exact List.mem_cons_self
      · obtain rfl := List.mem_singleton.1 hkey
        cases hy.symm.trans hvalue
        exact List.mem_cons_of_mem _ List.mem_cons_self
    · intro he
      rcases List.mem_cons.1 he with he | he
      · cases he
        exact mem_of_get? hx
      · cases List.mem_singleton.1 he
        exact mem_of_get? hy

end Entries
end Espalier
