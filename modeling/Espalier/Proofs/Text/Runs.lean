import Mathlib.Data.List.TakeWhile

/-!
# Runs of characters

A run of characters of one kind ends where the first other character stands, so it can be taken from
the text that it opens, and it opens no other text with another end.
-/

namespace Espalier
namespace Text

/-- What follows does not go on with characters of a kind. -/
def Stops (p : Char → Bool) (rest : List Char) : Prop :=
  ∀ c ∈ rest.head?, p c = false

theorem stops_nil (p : Char → Bool) : Stops p [] :=
  nofun

theorem stops_cons {p : Char → Bool} {c : Char} (h : p c = false) (rest : List Char) :
    Stops p (c :: rest) := by
  rintro _ ⟨⟩
  exact h

theorem stops_append {p : Char → Bool} {ds : List Char} (hne : ds ≠ [])
    (h : ∀ c ∈ ds, p c = false) (rest : List Char) : Stops p (ds ++ rest) := by
  obtain ⟨d, ds, rfl⟩ := List.exists_cons_of_ne_nil hne
  exact stops_cons (h d List.mem_cons_self) _

variable {p : Char → Bool} {ds ds' rest rest' : List Char}

/-- Leaving out a run stops where the run does. -/
theorem dropWhile_append (hds : ∀ c ∈ ds, p c = true) (hrest : Stops p rest) :
    (ds ++ rest).dropWhile p = rest := by
  rw [List.dropWhile_append_of_pos hds]
  cases rest with
  | nil => rfl
  | cons c rest => rw [List.dropWhile_cons_of_neg (by simp [hrest c rfl])]

/-- Taking a run stops where the run does. -/
theorem takeWhile_append (hds : ∀ c ∈ ds, p c = true) (hrest : Stops p rest) :
    (ds ++ rest).takeWhile p = ds := by
  rw [List.takeWhile_append_of_pos hds]
  cases rest with
  | nil => simp
  | cons c rest => rw [List.takeWhile_cons_of_neg (by simp [hrest c rfl]), List.append_nil]

/-- A run of characters of one kind ends in one place. -/
theorem eq_of_append_eq (hds : ∀ c ∈ ds, p c = true) (hds' : ∀ c ∈ ds', p c = true)
    (hrest : Stops p rest) (hrest' : Stops p rest') (h : ds ++ rest = ds' ++ rest') :
    ds = ds' ∧ rest = rest' := by
  constructor
  · rw [← takeWhile_append hds hrest, h, takeWhile_append hds' hrest']
  · rw [← dropWhile_append hds hrest, h, dropWhile_append hds' hrest']

end Text
end Espalier
