import Espalier.Text.Blank
import Mathlib.Data.List.DropRight

/-!
# Blanks at the ends of a text

A text consists of blanks, of what trimming leaves, and of blanks again.  What trimming leaves is
tight, that is, it has no blank at either end, and whatever stands tight between blanks is what
trimming leaves.
-/

namespace Espalier
namespace Blank

/-- The first and the last character, if there are any, are not blank. -/
structure Tight (cs : List Char) : Prop where
  head : ∀ c ∈ cs.head?, isBlank c = false
  last : ∀ c ∈ cs.getLast?, isBlank c = false

variable {core after : List Char}

/-- Trimming leaves out blanks at the start and at the end. -/
theorem toList_trim (s : String) :
    (trim s).toList = (s.toList.dropWhile isBlank).rdropWhile isBlank := by
  rw [trim, String.toList_ofList, List.rdropWhile]

theorem dropWhile_of_tight (h : Tight core) : core.dropWhile isBlank = core := by
  cases core with
  | nil => rfl
  | cons c cs =>
    have hc := h.head c rfl
    rw [List.dropWhile_cons_of_neg (by simp [hc])]

theorem rdropWhile_append (hafter : ∀ c ∈ after, isBlank c = true) (cs : List Char) :
    (cs ++ after).rdropWhile isBlank = cs.rdropWhile isBlank := by
  rw [List.rdropWhile, List.reverse_append,
    List.dropWhile_append_of_pos fun c hc => hafter c (List.mem_reverse.1 hc)]
  rfl

/-- What stands tight between blanks is what trimming leaves. -/
theorem trim_of_tight {s : String} (before after : List Char)
    (hs : s.toList = before ++ (core ++ after))
    (hbefore : ∀ c ∈ before, isBlank c = true) (hafter : ∀ c ∈ after, isBlank c = true)
    (hcore : Tight core) : (trim s).toList = core := by
  rw [toList_trim, hs, List.dropWhile_append_of_pos hbefore]
  cases core with
  | nil =>
    have hblank : after.dropWhile isBlank = [] := List.dropWhile_eq_nil_iff.2 hafter
    rw [List.nil_append, hblank, List.rdropWhile_nil]
  | cons c cs =>
    have hlast : ¬ isBlank ((c :: cs).getLast (List.cons_ne_nil c cs)) = true := by
      have h := hcore.last _ (List.getLast?_eq_some_getLast (List.cons_ne_nil c cs))
      rw [h]
      exact Bool.false_ne_true
    rw [List.cons_append, List.dropWhile_cons_of_neg (by simp [hcore.head c rfl]),
      ← List.cons_append, rdropWhile_append hafter]
    exact List.rdropWhile_eq_self_iff.2 fun _ => hlast

/-- A text is what trimming leaves, between blanks. -/
theorem exists_trim (s : String) :
    ∃ before after, (∀ c ∈ before, isBlank c = true) ∧ (∀ c ∈ after, isBlank c = true) ∧
      s.toList = before ++ ((trim s).toList ++ after) := by
  refine ⟨s.toList.takeWhile isBlank, (s.toList.dropWhile isBlank).rtakeWhile isBlank,
    fun c hc => List.mem_takeWhile_imp hc, fun c hc => List.mem_rtakeWhile_imp hc, ?_⟩
  rw [toList_trim, List.rdropWhile_append_rtakeWhile, List.takeWhile_append_dropWhile]

theorem tight_trim (s : String) : Tight (trim s).toList := by
  rw [toList_trim]
  constructor
  · intro c hc
    obtain ⟨rest, hrest⟩ := List.rdropWhile_prefix isBlank (s.toList.dropWhile isBlank)
    have hhead : (s.toList.dropWhile isBlank).head? = some c := by
      rw [← hrest, List.head?_append, Option.mem_def.1 hc]
      rfl
    have h := List.head?_dropWhile_not isBlank s.toList
    rwa [hhead] at h
  · intro c hc
    obtain ⟨hne, hlast⟩ := List.mem_getLast?_eq_getLast hc
    have h := List.rdropWhile_last_not isBlank (s.toList.dropWhile isBlank) hne
    rw [hlast]
    exact Bool.eq_false_iff.2 h

/-- Blanks at the ends do not change what trimming leaves. -/
theorem trim_between {s t : String} (before after : List Char)
    (hs : s.toList = before ++ (t.toList ++ after))
    (hbefore : ∀ c ∈ before, isBlank c = true) (hafter : ∀ c ∈ after, isBlank c = true) :
    trim s = trim t := by
  obtain ⟨first, last, hfirst, hlast, ht⟩ := exists_trim t
  refine String.toList_injective (trim_of_tight (before ++ first) (last ++ after)
    ?_ ?_ ?_ (tight_trim t))
  · rw [hs, ht]
    simp only [List.append_assoc]
  · exact List.forall_mem_append.2 ⟨hbefore, hfirst⟩
  · exact List.forall_mem_append.2 ⟨hlast, hafter⟩

end Blank
end Espalier
