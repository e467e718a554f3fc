import Espalier.Proofs.Database.Formation
import Mathlib.Data.List.Perm.Subperm

/-!
# When a table takes a row

A row that leaves its number to the table is stored unless the numbers are used up, a column that
needs a value gets none, or a row that it refers to is missing.  `HasRoom` counts the numbers that
are left: every insertion takes one of them at most, so room for many rows is room for each of them
in turn.
-/

namespace Espalier

namespace Database
namespace Table

/-! ## Numbers that are left -/

def positives (t : Table) : Nat :=
  t.rows.countP fun r => 0 < r.number.toInt

/-- The table has numbers left for so many more rows.  A table that gives none twice counts on from
the greatest it ever gave; any other comes back for the positive numbers that it left out. -/
def HasRoom (t : Table) (k : Nat) : Prop :=
  if t.autoincrements then max t.counter.toInt t.greatest + k ≤ Int64.maxValue.toInt
  else (t.positives : Int) + k ≤ Int64.maxValue.toInt

instance (t : Table) (k : Nat) : Decidable (t.HasRoom k) :=
  inferInstanceAs (Decidable (if t.autoincrements = true
    then max t.counter.toInt t.greatest + k ≤ Int64.maxValue.toInt
    else (t.positives : Int) + k ≤ Int64.maxValue.toInt))

variable {t : Table}

/-- No row has a number greater than the greatest. -/
theorem Numbered.le_greatest (h : t.Numbered) {r : Row} (hr : r ∈ t.rows) :
    r.number.toInt ≤ t.greatest := by
  have hsorted := h.sorted
  rw [greatest]
  rcases List.eq_nil_or_concat t.rows with hnil | ⟨rows, last, hrows⟩
  · rw [hnil] at hr
    cases hr
  · rw [List.concat_eq_append] at hrows
    rw [hrows, List.pairwise_append] at hsorted
    rw [hrows, List.mem_append, List.mem_singleton] at hr
    rw [hrows, List.getLast?_concat]
    rcases hr with hr | rfl
    · exact Int.le_of_lt (hsorted.2.2 r hr last List.mem_cons_self)
    · exact Int.le_refl _

/-- Where there are rows, the greatest number is that of one. -/
theorem exists_greatest (h : t.rows ≠ []) : ∃ r ∈ t.rows, r.number.toInt = t.greatest := by
  rw [greatest, List.getLast?_eq_some_getLast h]
  exact ⟨_, List.getLast_mem h, rfl⟩

theorem le_greatest_word (t : Table) : Int64.minValue.toInt ≤ t.greatest := by
  by_cases hrows : t.rows = []
  · rw [greatest, hrows]
    decide
  · rcases exists_greatest hrows with ⟨r, -, hr⟩
    rw [← hr]
    exact Int64.minValue_le_toInt r.number

/-- The search ends with a free number if there is one in its reach. -/
theorem hasNumber_freeNumber {fuel : Nat} {n m : Int64} (hfree : t.hasNumber m = false)
    (hlow : n.toInt ≤ m.toInt) (hhigh : m.toInt ≤ n.toInt + fuel) :
    t.hasNumber (t.freeNumber fuel n) = false := by
  -- Induction on the fuel: as long as the number at hand is taken, the free one lies ahead.
  induction fuel generalizing n with
  | zero =>
    have heq : n = m := Int64.toInt_inj.1 (by omega)
    exact heq ▸ hfree
  | succ fuel ih =>
    rw [freeNumber]
    cases htaken : t.hasNumber n with
    | false => exact htaken
    | true =>
      have hne : n.toInt ≠ m.toInt := by
        intro heq
        rw [Int64.toInt_inj.1 heq, hfree] at htaken
        cases htaken
      have hbound := m.toInt_lt
      have hlower := n.le_toInt
      have hnext : (n + 1).toInt = n.toInt + 1 := by
        have hone : (1 : Int64).toInt = 1 := rfl
        rw [Int64.toInt_add, hone]
        exact Int.bmod_eq_of_le (by omega) (by omega)
      rw [if_pos rfl]
      exact ih (by omega) (by omega)

/-- Among the first positive numbers, one more than there are positive rows, some number is free. -/
theorem exists_free (h : (t.positives : Int) + 1 ≤ Int64.maxValue.toInt) :
    ∃ m, t.hasNumber m = false ∧ 1 ≤ m.toInt ∧ m.toInt ≤ t.positives + 1 := by
  by_contra hnone
  -- Otherwise all these numbers are those of positive rows, and those are too few.
  have htaken : ∀ i ∈ List.range' 1 (t.positives + 1),
      i ∈ (t.rows.filter fun r => 0 < r.number.toInt).map fun r => r.number.toInt.toNat := by
    intro i hi
    rw [List.mem_range'_1] at hi
    rcases exists_int64? (n := (i : Int)) (by omega) (by omega) with ⟨m, hm⟩
    have hm : m.toInt = i := toInt_of_int64? hm
    have hrow : t.hasNumber m = true := by
      by_contra hfree
      exact hnone ⟨m, Bool.not_eq_true _ ▸ hfree, by omega, by omega⟩
    rcases List.any_eq_true.1 hrow with ⟨r, hr, hnumber⟩
    rw [beq_iff_eq.1 hnumber |>.symm] at hm
    refine List.mem_map.2 ⟨r, List.mem_filter.2 ⟨hr, decide_eq_true ?_⟩, ?_⟩
    · omega
    · omega
  have hnodup : (List.range' 1 (t.positives + 1)).Nodup := List.nodup_range' 1
  have hlength := (hnodup.subperm htaken).length_le
  rw [List.length_range', List.length_map, ← List.countP_eq_length_filter] at hlength
  exact absurd hlength (Nat.not_succ_le_self _)

theorem positives_le (t : Table) : t.positives ≤ t.rows.length :=
  List.countP_le_length

/-- A drawn number is free if any of the first positive numbers is. -/
theorem hasNumber_drawnNumber (h : (t.positives : Int) + 1 ≤ Int64.maxValue.toInt) (draw : Nat) :
    t.hasNumber (t.drawnNumber draw) = false := by
  rw [drawnNumber]
  cases hdrawn : t.hasNumber (Int64.ofNat (draw % 0x4000000000000000 + 1)) with
  | false => exact hdrawn
  | true =>
    rcases exists_free h with ⟨m, hfree, hlow, hhigh⟩
    have hlength := t.positives_le
    have hone : (1 : Int64).toInt = 1 := rfl
    rw [if_pos rfl]
    exact hasNumber_freeNumber hfree (by omega) (by omega)

/-- With room for a row there is a next number, and no row has it. -/
theorem Numbered.exists_nextNumber? (h : t.Numbered) {k : Nat} (hroom : t.HasRoom (k + 1))
    (draw : Nat) :
    ∃ n, t.nextNumber? draw = some n ∧ t.hasNumber n = false ∧
      (t.autoincrements = true → n.toInt = max t.counter.toInt t.greatest + 1) := by
  have hlow : Int64.minValue.toInt = -9223372036854775808 := by decide
  have hgreatest := t.le_greatest_word
  have hcounter := t.counter.le_toInt
  have hfresh : ∀ n : Int64, t.greatest < n.toInt → t.hasNumber n = false := by
    intro n hn
    rw [hasNumber_eq_false]
    rintro r hr rfl
    exact absurd (h.le_greatest hr) (Int.not_le.2 hn)
  unfold HasRoom at hroom
  unfold nextNumber?
  cases hauto : t.autoincrements with
  | true =>
    rw [hauto, if_pos rfl] at hroom
    rcases exists_int64? (n := max t.counter.toInt t.greatest + 1) (by omega) (by omega)
      with ⟨n, hn⟩
    have hvalue := toInt_of_int64? hn
    refine ⟨n, ?_, hfresh n (by omega), fun _ => hvalue⟩
    simp only [if_true, hn]
  | false =>
    rw [hauto, if_neg Bool.false_ne_true] at hroom
    simp only [Bool.false_eq_true, if_false]
    cases hn : int64? (t.greatest + 1) with
    | some n =>
      have hvalue := toInt_of_int64? hn
      exact ⟨n, rfl, hfresh n (by omega), nofun⟩
    | none =>
      -- The greatest number is taken, but a smaller one is not.
      exact ⟨_, rfl, hasNumber_drawnNumber (by omega) draw, nofun⟩

theorem place_perm (r : Row) (rows : List Row) : (place r rows).Perm (r :: rows) := by
  rw [place]
  refine List.perm_middle.trans (List.Perm.cons r ?_)
  rw [List.takeWhile_append_dropWhile]

/-- A row under the next number takes up one place at most. -/
theorem HasRoom.add {k : Nat} (hnumbered : t.Numbered) (h : t.HasRoom (k + 1)) {n : Int64}
    (cells : List Cell)
    (hn : t.autoincrements = true → n.toInt = max t.counter.toInt t.greatest + 1) :
    (t.add ⟨n, cells⟩).HasRoom k := by
  have hauto : (t.add ⟨n, cells⟩).autoincrements = t.autoincrements := rfl
  unfold HasRoom at h ⊢
  rw [hauto]
  cases hcounts : t.autoincrements with
  | true =>
    rw [hcounts, if_pos rfl] at h
    have hn := hn hcounts
    rw [if_pos rfl]
    -- Neither the counter nor a row gets past the new number.
    have hcounter : (t.add ⟨n, cells⟩).counter = n := by
      have hle : t.counter ≤ n := Int64.le_iff_toInt_le.2 (by omega)
      have hmax : max t.counter n = n := if_pos hle
      rw [Table.add, hcounts, if_pos rfl, hmax]
    have hgreatest : (t.add ⟨n, cells⟩).greatest ≤ n.toInt := by
      have hinhabited : (t.add ⟨n, cells⟩).rows ≠ [] :=
        List.ne_nil_of_mem (mem_place.2 (.inl rfl))
      rcases exists_greatest hinhabited with ⟨r, hr, hnumber⟩
      rw [← hnumber]
      rcases mem_place.1 hr with rfl | hr
      · exact Int.le_refl _
      · have hle := hnumbered.le_greatest hr
        omega
    rw [hcounter]
    omega
  | false =>
    rw [hcounts, if_neg Bool.false_ne_true] at h
    rw [if_neg Bool.false_ne_true]
    have hcount : (t.add ⟨n, cells⟩).positives ≤ t.positives + 1 := by
      rw [positives, Table.add, (place_perm _ _).countP_eq, List.countP_cons]
      split
      · exact Nat.le_refl _
      · exact Nat.le_succ _
    omega

/-! ## Values that are needed -/

/-- A new row is complete if it has a value in every column that needs one. -/
theorem isComplete_iff {n : Int64} {assigned : List (Target × Cell)} :
    t.isComplete ⟨n, t.cellsOf n assigned⟩ = true ↔ ∀ (i : Nat) (c : Sql.ColumnSpec),
      t.columns[i]? = some c → c.notNull = true →
        (Row.mk n (t.cellsOf n assigned)).cell i ≠ .null := by
  have hlength : (t.cellsOf n assigned).length = t.columns.length := by
    simp [cellsOf]
  rw [isComplete, List.all_eq_true]
  -- The check goes over columns paired with cells, the other side over positions.
  constructor
  · intro h i c hc hneeds
    rcases List.getElem?_eq_some_iff.1 hc with ⟨hi, rfl⟩
    have hi' : i < (t.cellsOf n assigned).length := hlength ▸ hi
    have hzip : (t.columns[i], (t.cellsOf n assigned)[i]) ∈ t.columns.zip (t.cellsOf n assigned) :=
      List.mem_of_getElem? (List.getElem?_zip_eq_some.2
        ⟨List.getElem?_eq_getElem hi, List.getElem?_eq_getElem hi'⟩)
    have hvalue := h _ hzip
    rw [Row.cell, List.getD_eq_getElem?_getD, List.getElem?_eq_getElem hi']
    simpa [hneeds] using hvalue
  · rintro h ⟨c, v⟩ hzip
    rcases List.getElem?_of_mem hzip with ⟨i, hi⟩
    rw [List.getElem?_zip_eq_some] at hi
    have hvalue := h i c hi.1
    rw [Row.cell, List.getD_eq_getElem?_getD, hi.2] at hvalue
    cases hneeds : c.notNull with
    | false => simp [hneeds]
    | true => simpa [hneeds] using hvalue hneeds

/-! ## Arguments -/

/-- Where no target is given twice, a column takes the argument that is given for it. -/
theorem argument_of_mem {assigned : List (Target × Cell)}
    (hdistinct : (assigned.map Prod.fst).Nodup) {i : Nat} {v : Cell}
    (h : (Target.column i, v) ∈ assigned) : argument assigned (.column i) = v := by
  have hfind : assigned.find? (fun a => a.1 = .column i) = some (.column i, v) := by
    induction assigned with
    | nil => cases h
    | cons a rest ih =>
      rw [List.map_cons, List.nodup_cons] at hdistinct
      rcases List.mem_cons.1 h with rfl | h
      · exact List.find?_cons_of_pos (decide_eq_true rfl)
      · have hne : a.1 ≠ .column i := by
          intro heq
          exact hdistinct.1 (List.mem_map.2 ⟨_, h, heq.symm⟩)
        rw [List.find?_cons_of_neg (by simpa using hne)]
        exact ih hdistinct.2 h
  rw [argument, if_neg (by simp), hfind]
  rfl

/-- Without an argument for the row number it is left open. -/
theorem argument_number {assigned : List (Target × Cell)} (h : ∀ a ∈ assigned, a.1 ≠ .number) :
    argument assigned .number = .null := by
  have hfind : assigned.reverse.find? (fun a => a.1 = .number) = none :=
    List.find?_eq_none.2 fun a ha => by simpa using h a (List.mem_reverse.1 ha)
  rw [argument, if_pos rfl, hfind]
  rfl

end Table

/-! ## Insertions -/

/-- A table that takes the place of one with the same columns leaves all columns as they were. -/
theorem columns_replace {db : Database} {name : String} {t t' : Table}
    (ht : db.table? name = some t) (hname : t'.name = t.name) (hcolumns : t'.columns = t.columns)
    (other : String) : (db.replace t').columns other = db.columns other := by
  rw [Database.columns, Database.columns, table?_replace]
  cases hu : db.table? other with
  | none => rfl
  | some u =>
    rw [Option.map_some]
    dsimp only
    split
    · -- A look-up under either name finds the same table.
      rename_i hsame
      have hother : Ascii.sameName name other = true := by
        rw [← Ascii.sameName_congr_left (table?_name ht), ← hname,
          ← Ascii.sameName_congr_left hsame]
        exact table?_name hu
      have hfound : some u = some t :=
        calc some u = db.table? other := hu.symm
          _ = db.table? name := (table?_congr hother db).symm
          _ = some t := ht
      rw [hcolumns, Option.some.inj hfound]
    · rfl

/-- A table with numbers left takes a row that leaves its number open and whose references are
there, unless a column that needs a value gets none. -/
theorem insert_of_room {db : Database} {s : Sql.Insert} {t : Table}
    (ht : db.table? s.table = some t) (hnumbered : t.Numbered) (hkey : t.keyColumn? = none)
    {targets : List Target} (htargets : s.columns.mapM t.target = .ok targets)
    {parents : List (Nat × Table × ReferenceKey)} (hparents : db.parents t = .ok parents)
    {arguments : List Cell} (hopen : Table.argument (targets.zip arguments) .number = .null)
    (hreferences : ∀ n, ∀ x ∈ parents, x.2.1.hasReferenced x.2.2
      ((Row.mk n (t.cellsOf n (targets.zip arguments))).cell x.1) = true)
    {k : Nat} (hroom : t.HasRoom (k + 1)) :
    ∃ n, (t.add ⟨n, t.cellsOf n (targets.zip arguments)⟩).Numbered ∧
      (t.add ⟨n, t.cellsOf n (targets.zip arguments)⟩).HasRoom k ∧
      db.insert s arguments =
        if t.isComplete ⟨n, t.cellsOf n (targets.zip arguments)⟩ then
          .ok (n, db.replace (t.add ⟨n, t.cellsOf n (targets.zip arguments)⟩))
        else .error .notNull := by
  rcases hnumbered.exists_nextNumber? hroom db.draw with ⟨n, hnext, hfree, hvalue⟩
  -- The number is new and there is no other key, so only values can be missing.
  refine ⟨n, hnumbered.add hfree _, hroom.add hnumbered _ hvalue, ?_⟩
  have hnumber : t.numberFor db.draw (Table.argument (targets.zip arguments) .number) = .ok n := by
    rw [hopen]
    simp only [Table.numberFor, Cell.toNumeric, hnext]
  have hnew : t.repeated? ⟨n, t.cellsOf n (targets.zip arguments)⟩ = none := by
    rw [Table.repeated?, hfree, if_neg Bool.false_ne_true, hkey]
  cases hcomplete : t.isComplete ⟨n, t.cellsOf n (targets.zip arguments)⟩ with
  | true =>
    have hcheck : checkRow t parents ⟨n, t.cellsOf n (targets.zip arguments)⟩ = .ok () :=
      checkRow_eq_ok.2 ⟨hcomplete, hnew, fun x hx => .inr (hreferences n x hx)⟩
    exact insert_eq_ok.2 ⟨t, targets, parents, ht, htargets, hparents, hnumber, hcheck, rfl⟩
  | false =>
    have htable : db.table s.table = .ok t := table_eq_ok.2 ht
    simp only [insert, htable, htargets, hparents, hnumber, checkRow, hcomplete, bind, Except.bind]
    rfl

end Database
end Espalier
