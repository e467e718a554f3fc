import Espalier.Proofs.Json.Doubles
import Espalier.Proofs.Json.Strings

/-!
# Reading compact text

What the reader makes of the compact text of a value: the same value with every double as its text
is read, or nothing if a double is not read or the value is nested too deeply.  The proof follows
the value; at each level the text read so far ends where the next part begins.
-/

namespace Espalier
namespace Json

/-! ## Values with their doubles read again -/

mutual

/-- The value in which every double is what its numeral is read as, if each is read. -/
def reread? : Json → Option Json
  | real x => x.val.numeral.double?.map ofDouble
  | array items => (rereadItems? items).map array
  | object members => (rereadMembers? members).map object
  | j => some j

def rereadItems? : List Json → Option (List Json)
  | [] => some []
  | j :: rest => (reread? j).bind fun j => (rereadItems? rest).map (j :: ·)

def rereadMembers? : List (String × Json) → Option (List (String × Json))
  | [] => some []
  | (k, j) :: rest => (reread? j).bind fun j => (rereadMembers? rest).map ((k, j) :: ·)

end

mutual

def nesting : Json → Nat
  | array items => itemsNesting items + 1
  | object members => membersNesting members + 1
  | _ => 0

def itemsNesting : List Json → Nat
  | [] => 0
  | j :: rest => max (nesting j) (itemsNesting rest)

def membersNesting : List (String × Json) → Nat
  | [] => 0
  | (_, j) :: rest => max (nesting j) (membersNesting rest)

end

theorem itemsNesting_le_iff {items : List Json} {n : Nat} :
    itemsNesting items ≤ n ↔ ∀ j ∈ items, j.nesting ≤ n := by
  induction items with
  | nil => simp [itemsNesting]
  | cons j rest ih => rw [itemsNesting, Nat.max_le, List.forall_mem_cons, ih]

theorem membersNesting_le_iff {members : List (String × Json)} {n : Nat} :
    membersNesting members ≤ n ↔ ∀ m ∈ members, m.2.nesting ≤ n := by
  induction members with
  | nil => simp [membersNesting]
  | cons m rest ih => rw [membersNesting, Nat.max_le, List.forall_mem_cons, ih]

/-! ## Scalars -/

def OpensNumber (c : Char) : Prop :=
  c = '-' ∨ c.isDigit = true

theorem OpensNumber.ne {c d : Char} (h : OpensNumber c) (hminus : d ≠ '-')
    (hdigit : d.isDigit = false) : c ≠ d := by
  rintro rfl
  rcases h with rfl | h
  · exact hminus rfl
  · rw [hdigit] at h
    cases h

theorem OpensNumber.isBlank {c : Char} (h : OpensNumber c) : isBlank c = false := by
  simp [Json.isBlank, h.ne (d := ' ') (by decide) (by decide),
    h.ne (d := '\n') (by decide) (by decide), h.ne (d := '\t') (by decide) (by decide),
    h.ne (d := '\r') (by decide) (by decide)]

theorem skipBlanks_cons {c : Char} (h : isBlank c = false) (rest : List Char) :
    skipBlanks (c :: rest) = c :: rest := by
  rw [skipBlanks, List.dropWhile_cons, h]
  rfl

/-- A numeral opens with its sign or with its first digit. -/
theorem Numeral.Text.exists_cons {n : Numeral} {cs rest : List Char} (h : n.Text cs rest) :
    ∃ c cs', cs = c :: cs' ∧ OpensNumber c := by
  rcases h with ⟨hn, text, -, rfl⟩
  rcases List.exists_cons_of_ne_nil hn.whole_ne_nil with ⟨d, ds, hds⟩
  have hdigit := hn.whole d (hds ▸ List.mem_cons_self)
  rw [Numeral.signChars, hds]
  cases n.negative
  · exact ⟨d, _, rfl, .inr hdigit⟩
  · exact ⟨'-', _, rfl, .inl rfl⟩

theorem Numeral.WellFormed.exists_cons {n : Numeral} (hn : n.WellFormed) :
    ∃ c cs, n.chars = c :: cs ∧ OpensNumber c := by
  have htext := Numeral.text_chars hn []
  rw [List.append_nil] at htext
  exact htext.exists_cons

/-- A numeral is read as a value by the rule for numbers. -/
theorem value?_numeral {n : Numeral} {cs start rest : List Char} (h : n.Text start rest)
    (hskip : skipBlanks cs = start) (fuel depth : Nat) (hrest : EndsNumber rest) :
    value? (fuel + 1) depth cs = n.value?.map fun j => (j, rest) := by
  rcases h.exists_cons with ⟨c, cs', rfl, hc⟩
  rw [value?, hskip]
  simp only [hc.ne (d := '"') (by decide) (by decide), hc.ne (d := '[') (by decide) (by decide),
    hc.ne (d := '\x7b') (by decide) (by decide), hc.ne (d := 'n') (by decide) (by decide),
    hc.ne (d := 't') (by decide) (by decide), hc.ne (d := 'f') (by decide) (by decide), if_false,
    h.read? hrest]
  simp only [Option.bind_eq_bind, Option.bind_some]
  cases n.value? <;> rfl

/-- A number in its text is read as its value, whatever ends it. -/
theorem value?_chars {n : Numeral} (hn : n.WellFormed) (fuel depth : Nat) {rest : List Char}
    (hrest : EndsNumber rest) :
    value? (fuel + 1) depth (n.chars ++ rest) = n.value?.map fun j => (j, rest) := by
  refine value?_numeral (Numeral.text_chars hn rest) ?_ fuel depth hrest
  rcases hn.exists_cons with ⟨c, cs, hchars, hc⟩
  rw [hchars, List.cons_append, skipBlanks_cons hc.isBlank]

theorem endsNumber_of_cons {c : Char} (rest : List Char)
    (h : c.isDigit = false ∧ c ≠ '.' ∧ c ≠ 'e' ∧ c ≠ 'E') : EndsNumber (c :: rest) := by
  rintro _ ⟨⟩
  exact h

/-- The text of a value opens with no blank and no closing bracket. -/
theorem exists_compactChars (j : Json) :
    ∃ c cs, j.compactChars = c :: cs ∧ isBlank c = false ∧ c ≠ ']' := by
  have hnumber : ∀ n : Numeral, n.WellFormed →
      ∃ c cs, n.chars = c :: cs ∧ isBlank c = false ∧ c ≠ ']' := by
    intro n hn
    rcases hn.exists_cons with ⟨c, cs, hchars, hc⟩
    exact ⟨c, cs, hchars, hc.isBlank, hc.ne (by decide) (by decide)⟩
  cases j with
  | null => exact ⟨_, _, rfl, by decide, by decide⟩
  | bool b => cases b <;> exact ⟨_, _, rfl, by decide, by decide⟩
  | integer n =>
    rw [compactChars, ← Numeral.chars_ofInt]
    exact hnumber _ (Numeral.wellFormed_ofInt _)
  | real x =>
    rw [compactChars, ← Double.chars_numeral]
    exact hnumber _ (Double.wellFormed_numeral x.property)
  | text s => exact ⟨_, _, rfl, by decide, by decide⟩
  | array items => cases items <;> exact ⟨_, _, rfl, by decide, by decide⟩
  | object members =>
    rcases members with _ | ⟨⟨k, j⟩, rest⟩ <;> exact ⟨_, _, rfl, by decide, by decide⟩

theorem skipBlanks_compactChars (j : Json) (rest : List Char) :
    skipBlanks (j.compactChars ++ rest) = j.compactChars ++ rest := by
  rcases j.exists_compactChars with ⟨c, cs, hcs, hblank, -⟩
  rw [hcs, List.cons_append, skipBlanks_cons hblank]

/-- What follows an item ends a number. -/
theorem endsNumber_compactItems (items : List Json) (rest : List Char) :
    EndsNumber (compactItems items ++ rest) := by
  cases items <;> exact endsNumber_of_cons _ (by decide)

theorem endsNumber_compactMembers (members : List (String × Json)) (rest : List Char) :
    EndsNumber (compactMembers members ++ rest) := by
  rcases members with _ | ⟨⟨k, j⟩, members⟩ <;> exact endsNumber_of_cons _ (by decide)

/-! ## Nested values -/

theorem value?_text (fuel depth : Nat) (s : String) (rest : List Char) :
    value? (fuel + 1) depth (quotedChars s ++ rest) = some (.text s, rest) := by
  rw [quotedChars_append, value?, skipBlanks_cons (by decide)]
  simp [string?_quoted]

/-- An array with items is read item by item, one level down. -/
theorem value?_array (fuel depth : Nat) (j : Json) (rest : List Char) :
    value? (fuel + 1) (depth + 1) ('[' :: (j.compactChars ++ rest)) =
      (items? fuel depth (j.compactChars ++ rest)).map fun p => (.array p.1, p.2) := by
  rcases j.exists_compactChars with ⟨c, cs, hcs, -, hclose⟩
  have hskip := skipBlanks_compactChars j rest
  -- No value starts with the bracket that closes, so the reader goes on to the items.
  have hitems : ∀ rest', j.compactChars ++ rest = ']' :: rest' → False := by
    rw [hcs]
    exact fun rest' h => hclose (List.cons.inj h).1
  rw [value?, skipBlanks_cons (by decide)]
  simp only [show ¬ '[' = '"' by decide, if_false, if_true, hskip]
  cases items? fuel depth (j.compactChars ++ rest) <;> rfl

/-- An object with members is read member by member, one level down. -/
theorem value?_object (fuel depth : Nat) (k : String) (rest : List Char) :
    value? (fuel + 1) (depth + 1) ('\x7b' :: (quotedChars k ++ rest)) =
      (members? fuel depth (quotedChars k ++ rest)).map fun p => (.object p.1, p.2) := by
  have hskip : skipBlanks (quotedChars k ++ rest) = quotedChars k ++ rest :=
    skipBlanks_cons (by decide) _
  rw [value?, skipBlanks_cons (by decide)]
  simp only [show ¬ '\x7b' = '"' by decide, show ¬ '\x7b' = '[' by decide, if_false, if_true,
    hskip]
  split
  · rename_i h
    cases h
  · cases members? fuel depth (quotedChars k ++ rest) <;> rfl

/-- The name of a member and the colon after it are read before its value. -/
theorem members?_quoted (fuel depth : Nat) (k : String) (rest : List Char) :
    members? (fuel + 1) depth (quotedChars k ++ ':' :: rest) =
      (value? fuel depth rest).bind fun p =>
        match skipBlanks p.2 with
        | '\x7d' :: rest => some ([(k, p.1)], rest)
        | ',' :: rest => (members? fuel depth rest).bind fun q => some ((k, p.1) :: q.1, q.2)
        | _ => none := by
  rw [quotedChars_append, members?, skipBlanks_cons (by decide)]
  simp only [string?_quoted, Option.bind_eq_bind, Option.bind_some,
    skipBlanks_cons (c := ':') (by decide)]
  rfl

mutual

/-- The text of a value is read up to its end.  The induction is on the fuel: two units a character
are enough, since no two calls in a row read nothing. -/
theorem value?_compactChars (j : Json) (fuel depth : Nat) (rest : List Char)
    (hfuel : 2 * j.compactChars.length ≤ fuel) (hdepth : j.nesting ≤ depth)
    (hrest : EndsNumber rest) :
    value? fuel depth (j.compactChars ++ rest) = j.reread?.map fun j => (j, rest) := by
  -- Every value is written with a character at least, so there is fuel for a step.
  obtain ⟨fuel, rfl⟩ : ∃ n, fuel = n + 1 := by
    rcases j.exists_compactChars with ⟨c, cs, hcs, -⟩
    rw [hcs, List.length_cons] at hfuel
    exact ⟨fuel - 1, by omega⟩
  cases j with
  | null => rfl
  | bool b => cases b <;> rfl
  | integer n =>
    rw [compactChars, ← Numeral.chars_ofInt, value?_chars (Numeral.wellFormed_ofInt _) _ _ hrest,
      Numeral.value?_ofInt]
    rfl
  | real x =>
    rw [compactChars, ← Double.chars_numeral,
      value?_chars (Double.wellFormed_numeral x.property) _ _ hrest, Double.value?_numeral]
    rfl
  | text s => exact value?_text fuel depth s rest
  | array items =>
    rw [nesting] at hdepth
    obtain ⟨depth, rfl⟩ : ∃ n, depth = n + 1 := ⟨depth - 1, by omega⟩
    cases items with
    | nil => rfl
    | cons j items =>
      rw [compactChars, List.length_append, List.length_cons] at hfuel
      rw [compactChars, List.cons_append, List.cons_append, List.append_assoc, value?_array,
        items?_compactItems j items _ _ _ (by rw [List.length_append]; omega) (by omega), reread?,
        Option.map_map, Option.map_map]
      rfl
  | object members =>
    rw [nesting] at hdepth
    obtain ⟨depth, rfl⟩ : ∃ n, depth = n + 1 := ⟨depth - 1, by omega⟩
    rcases members with _ | ⟨⟨k, j⟩, members⟩
    · rfl
    · have hchars : (object ((k, j) :: members)).compactChars ++ rest =
          '\x7b' :: (quotedChars k ++
            ':' :: (j.compactChars ++ (compactMembers members ++ rest))) := by
        simp [compactChars]
      have hlength : (object ((k, j) :: members)).compactChars.length = 1 +
          (quotedChars k ++ ':' :: (j.compactChars ++ compactMembers members)).length := by
        simp [compactChars]
        omega
      rw [hchars, value?_object,
        members?_compactMembers k j members _ _ _ (by omega) (by omega), reread?, Option.map_map,
        Option.map_map]
      rfl
termination_by fuel

/-- The items of an array are read up to its bracket, by induction on the fuel. -/
theorem items?_compactItems (j : Json) (items : List Json) (fuel depth : Nat) (rest : List Char)
    (hfuel : 2 * (j.compactChars ++ compactItems items).length ≤ fuel)
    (hdepth : itemsNesting (j :: items) ≤ depth) :
    items? fuel depth (j.compactChars ++ (compactItems items ++ rest)) =
      (rereadItems? (j :: items)).map fun items => (items, rest) := by
  rw [List.length_append] at hfuel
  obtain ⟨fuel, rfl⟩ : ∃ n, fuel = n + 1 := by
    rcases j.exists_compactChars with ⟨c, cs, hcs, -⟩
    rw [hcs, List.length_cons] at hfuel
    exact ⟨fuel - 1, by omega⟩
  have hlength : 0 < (compactItems items).length := by
    cases items <;> simp [compactItems]
  rw [itemsNesting] at hdepth
  rw [items?,
    value?_compactChars j _ _ _ (by omega) (by omega) (endsNumber_compactItems items rest),
    rereadItems?]
  cases j.reread? with
  | none => rfl
  | some j' =>
    cases items with
    | nil => rfl
    | cons i items =>
      have hlength : (compactItems (i :: items)).length =
          1 + (i.compactChars ++ compactItems items).length := by
        simp [compactItems]
        omega
      have hitems := items?_compactItems i items fuel depth rest (by omega) (by omega)
      simp only [compactItems, Option.map_some, Option.bind_eq_bind, Option.bind_some,
        List.cons_append, List.append_assoc, skipBlanks_cons (c := ',') (by decide), hitems]
      cases rereadItems? (i :: items) <;> rfl
termination_by fuel

/-- The members of an object are read up to its brace, by induction on the fuel. -/
theorem members?_compactMembers (k : String) (j : Json) (members : List (String × Json))
    (fuel depth : Nat) (rest : List Char)
    (hfuel : 2 * (quotedChars k ++ ':' :: (j.compactChars ++ compactMembers members)).length ≤ fuel)
    (hdepth : membersNesting ((k, j) :: members) ≤ depth) :
    members? fuel depth
        (quotedChars k ++ ':' :: (j.compactChars ++ (compactMembers members ++ rest))) =
      (rereadMembers? ((k, j) :: members)).map fun members => (members, rest) := by
  have hlength : 2 ≤ (quotedChars k).length := by simp [quotedChars]
  rw [List.length_append, List.length_cons, List.length_append] at hfuel
  obtain ⟨fuel, rfl⟩ : ∃ n, fuel = n + 1 := ⟨fuel - 1, by omega⟩
  rw [membersNesting] at hdepth
  rw [members?_quoted,
    value?_compactChars j _ _ _ (by omega) (by omega) (endsNumber_compactMembers members rest),
    rereadMembers?]
  cases j.reread? with
  | none => rfl
  | some j' =>
    rcases members with _ | ⟨⟨k', i⟩, members⟩
    · rfl
    · have hlength : (compactMembers ((k', i) :: members)).length =
          1 + (quotedChars k' ++ ':' :: (i.compactChars ++ compactMembers members)).length := by
        simp [compactMembers]
        omega
      have hmembers := members?_compactMembers k' i members fuel depth rest (by omega) (by omega)
      simp only [compactMembers, Option.map_some, Option.bind_some, List.cons_append,
        List.append_assoc, skipBlanks_cons (c := ',') (by decide), hmembers]
      cases rereadMembers? ((k', i) :: members) <;> rfl
termination_by fuel

end

/-- The compact text of a value that is not nested too deeply is read as the value with its doubles
read again. -/
theorem read?_compact {j : Json} (hdepth : j.nesting ≤ nestingLimit) :
    read? j.compact = j.reread? := by
  have hvalue := value?_compactChars j (2 * j.compactChars.length + 2) nestingLimit []
    (by omega) hdepth fun c hc => by cases hc
  rw [List.append_nil] at hvalue
  rw [read?, compact, String.toList_ofList]
  simp only [hvalue]
  cases j.reread? <;> rfl

end Json
end Espalier
