/-!
# Ordered entries

A mapping whose keys keep the order in which they first appeared is a list of key and value pairs.
Writing a key that is already there changes its value in place; a new key goes to the end.  The
lemmas say what a write does to the keys and to look-up.
-/

namespace Espalier

abbrev Entries (α : Type) := List (String × α)

namespace Entries

variable {α : Type}

def get? : Entries α → String → Option α
  | [], _ => none
  | (k, v) :: rest, key => if k = key then some v else get? rest key

/-- Writes a value under a key: in place if the key is there, otherwise at the end. -/
def put : Entries α → String → α → Entries α
  | [], key, value => [(key, value)]
  | (k, v) :: rest, key, value =>
    if k = key then (k, value) :: rest else (k, v) :: put rest key value

/-- Writes pairs one after the other, so a repeated key keeps its first place and its last value. -/
def merge (base : Entries α) (pairs : List (String × α)) : Entries α :=
  pairs.foldl (fun es p => put es p.1 p.2) base

/-- The mapping that a list of pairs, read in order, describes. -/
def ofPairs (pairs : List (String × α)) : Entries α :=
  merge [] pairs

def keys (es : Entries α) : List String :=
  es.map Prod.fst

theorem get?_put_self (es : Entries α) (key : String) (value : α) :
    get? (put es key value) key = some value := by
  induction es with
  | nil => simp [put, get?]
  | cons e rest ih =>
    obtain ⟨k, v⟩ := e
    by_cases h : k = key <;> simp [put, get?, h, ih]

theorem get?_put_of_ne (es : Entries α) {key other : String} (value : α) (h : key ≠ other) :
    get? (put es key value) other = get? es other := by
  induction es with
  | nil => simp [put, get?, h]
  | cons e rest ih =>
    obtain ⟨k, v⟩ := e
    by_cases hk : k = key
    · subst hk
      simp [put, get?, h]
    · rw [put, if_neg hk, get?, get?, ih]

/-- A key that is there keeps its place, and any other one comes last. -/
theorem keys_put (es : Entries α) (key : String) (value : α) :
    keys (put es key value) = if key ∈ keys es then keys es else keys es ++ [key] := by
  induction es with
  | nil => simp [put, keys]
  | cons e rest ih =>
    obtain ⟨k, v⟩ := e
    by_cases hk : k = key
    · subst hk
      simp [put, keys]
    · have hcons : ∀ es : Entries α, keys ((k, v) :: es) = k :: keys es := fun _ => rfl
      have hk' : key ≠ k := fun h => hk h.symm
      rw [put, if_neg hk, hcons, hcons, ih]
      by_cases hm : key ∈ keys rest <;> simp [hm, hk']

theorem put_of_notMem {es : Entries α} {key : String} (h : key ∉ keys es) (value : α) :
    put es key value = es ++ [(key, value)] := by
  induction es with
  | nil => rfl
  | cons e rest ih =>
    obtain ⟨k, v⟩ := e
    have hk : k ≠ key := fun hk => h (by simp [keys, hk])
    have hr : key ∉ keys rest := fun hr => h (List.mem_cons_of_mem k hr)
    simp [put, hk, ih hr]

theorem nodup_keys_put {es : Entries α} (h : (keys es).Nodup) (key : String) (value : α) :
    (keys (put es key value)).Nodup := by
  rw [keys_put]
  by_cases hm : key ∈ keys es
  · simpa [hm] using h
  · rw [if_neg hm, List.nodup_append]
    refine ⟨h, by simp, ?_⟩
    intro a ha b hb hab
    have hb' : b = key := by simpa using hb
    exact hm (hb' ▸ hab ▸ ha)

theorem nodup_keys_merge {es : Entries α} (h : (keys es).Nodup) (pairs : List (String × α)) :
    (keys (merge es pairs)).Nodup := by
  induction pairs generalizing es with
  | nil => exact h
  | cons p rest ih => exact ih (nodup_keys_put h p.1 p.2)

/-- A mapping made of pairs has no key twice. -/
theorem nodup_keys_ofPairs (pairs : List (String × α)) : (keys (ofPairs pairs)).Nodup :=
  nodup_keys_merge (by simp [keys]) pairs

end Entries
end Espalier
