import Espalier.Proofs.Json.Scaling
import Espalier.Proofs.Json.Source
import Espalier.Yaml.Scalar

/-!
# JSON numbers as plain scalars

What a plain scalar stands for if it is the text of a JSON number.  Digits alone are an integer,
also after a minus; every other number is the double nearest to it, rounded once.  The reader of
JSON makes minus zero a double and rounds in its own way, so the two agree on some numbers only.
-/

namespace Espalier

namespace Json.Numeral

variable {n : Numeral} {chars : List Char}

def isWhole (n : Numeral) : Bool :=
  n.fraction.isEmpty && n.exponent.isNone

def integer (n : Numeral) : Int :=
  if n.negative then -(Ascii.decimalValue n.whole : Int) else Ascii.decimalValue n.whole

/-- The tree of the nearest double, or the text of one that is not finite. -/
def nearestTree (n : Numeral) : Tree :=
  if n.nearest.isFinite then .float n.nearest else .text (Yaml.specialText (some n.negative))

/-- The tree of the number as a plain scalar. -/
def lenientTree (n : Numeral) : Tree :=
  if n.isWhole then
    match int64? n.integer with
    | some i => .int i
    | none =>
      if 0 ≤ n.integer ∧ n.integer < UInt64.size then .float (Double.ofInt n.integer)
      else n.nearestTree
  else n.nearestTree

/-! ## Digits -/

theorem mem_of_isDigit {c : Char} (h : c.isDigit = true) :
    c ∈ ['0', '1', '2', '3', '4', '5', '6', '7', '8', '9'] := by
  have hall : ∀ n < 58, 48 ≤ n →
      Char.ofNat n ∈ ['0', '1', '2', '3', '4', '5', '6', '7', '8', '9'] := by decide
  simp only [Char.isDigit, Bool.and_eq_true, decide_eq_true_eq, ge_iff_le,
    UInt32.le_iff_toNat_le] at h
  rw [← Char.ofNat_toNat c]
  exact hall c.toNat (Nat.lt_succ_of_le h.2) h.1

/-- What has been checked for the ten digits. -/
theorem of_isDigit {p : Char → Bool}
    (h : ['0', '1', '2', '3', '4', '5', '6', '7', '8', '9'].all p = true) {c : Char}
    (hc : c.isDigit = true) : p c = true :=
  List.all_eq_true.1 h c (mem_of_isDigit hc)

/-- A text that opens with a digit or a minus is no word that does not. -/
theorem contains_fold_of_opens {cs : List Char} {c : Char} {after : List Char}
    (hcs : cs = c :: after) (hc : c.isDigit = true ∨ c = '-') {words : List String}
    (hwords : words.all
      (fun word => word.toList.head?.all fun d => !d.isDigit && d != '-') = true) :
    words.contains (Ascii.fold (String.ofList cs)) = false := by
  have hlower : c.toLower = c := by
    rcases hc with hc | rfl
    · have hall : ['0', '1', '2', '3', '4', '5', '6', '7', '8', '9'].all
          (fun c => c.toLower == c) = true := by decide
      exact eq_of_beq (of_isDigit hall hc)
    · rfl
  rw [List.contains_eq_mem, decide_eq_false_iff_not]
  intro hmem
  have hother := List.all_eq_true.1 hwords _ hmem
  have hhead : (Ascii.fold (String.ofList cs)).toList.head? = some c := by
    simp [Ascii.fold, hcs, hlower]
  rw [hhead] at hother
  rcases hc with hc | rfl
  · simp [hc] at hother
  · cases hother

/-- A digit is no sign. -/
theorem signed_of_isDigit {c : Char} (h : c.isDigit = true) (cs : List Char) :
    Espalier.Numeral.signed (c :: cs) = (false, c :: cs) := by
  unfold Espalier.Numeral.signed
  split
  · rename_i heq
    cases heq
    cases h
  · rename_i heq
    cases heq
    cases h
  · rfl

/-- The value of a decimal digit is what stands between it and zero. -/
theorem digitValue?_eq {c : Char} (h : c.isDigit = true) :
    Ascii.digitValue? 10 c = some (c.toNat - '0'.toNat) := by
  have hall : ['0', '1', '2', '3', '4', '5', '6', '7', '8', '9'].all
      (fun c => Ascii.digitValue? 10 c == some (c.toNat - '0'.toNat)) = true := by decide
  exact eq_of_beq (of_isDigit hall h)

theorem mapM_digitValue? {ds : List Char} (h : ∀ c ∈ ds, c.isDigit = true) :
    ds.mapM (Ascii.digitValue? 10) = some (ds.map fun c => c.toNat - '0'.toNat) := by
  induction ds with
  | nil => rfl
  | cons c ds ih =>
    rw [List.forall_mem_cons] at h
    rw [List.mapM_cons, digitValue?_eq h.1, ih h.2]
    rfl

theorem mapM_digitValue?_eq_none {cs : List Char} {c : Char} (hc : c ∈ cs)
    (h : Ascii.digitValue? 10 c = none) : cs.mapM (Ascii.digitValue? 10) = none := by
  induction cs with
  | nil => cases hc
  | cons d cs ih =>
    rw [List.mapM_cons]
    rcases List.mem_cons.1 hc with rfl | hc
    · rw [h]
      rfl
    · rw [ih hc]
      cases Ascii.digitValue? 10 d <;> rfl

/-- Digits have their decimal value. -/
theorem digitsValue?_eq {ds : List Char} (hne : ds ≠ []) (h : ∀ c ∈ ds, c.isDigit = true) :
    Yaml.digitsValue? 10 ds = some (Ascii.decimalValue ds) := by
  have hfilter : ds.filter (· ≠ '_') = ds := by
    rw [List.filter_eq_self]
    intro c hc
    rw [decide_eq_true_eq]
    rintro rfl
    cases h _ hc
  have hfold : ∀ m, (ds.map fun c => c.toNat - '0'.toNat).foldl (fun n d => n * 10 + d) m =
      ds.foldl (fun n c => 10 * n + (c.toNat - '0'.toNat)) m := by
    intro m
    rw [List.foldl_map]
    simp only [Nat.mul_comm]
  rw [Yaml.digitsValue?, hfilter, mapM_digitValue? h]
  simp only [List.isEmpty_eq_false_iff.2 hne, Bool.false_eq_true, if_false, Option.bind_eq_bind,
    Option.bind_some, hfold, Ascii.decimalValue]
  rfl

/-! ## Integers -/

def body (n : Numeral) (text : List Char) : List Char :=
  n.whole ++ (fractionChars n.fraction ++ text)

/-- The mark of an exponent that is written. -/
theorem opens_of_exponentText {e : Option (Bool × List Char)} {text : List Char}
    (h : ExponentText e text) (he : e ≠ none) :
    ∃ mark after, text = mark :: after ∧ (mark = 'e' ∨ mark = 'E') := by
  cases h with
  | absent => exact absurd rfl he
  | unsigned hmark ds => exact ⟨_, _, rfl, hmark⟩
  | signed hmark negative ds => exact ⟨_, _, rfl, hmark⟩

section Written

variable {text : List Char} (hn : n.WellFormed) (htext : ExponentText n.exponent text)
include hn

theorem exists_body (text : List Char) : ∃ d ds, n.body text = d :: ds ∧ d.isDigit = true := by
  obtain ⟨d, ds, hwhole⟩ := List.exists_cons_of_ne_nil hn.whole_ne_nil
  exact ⟨d, _, by rw [body, hwhole]; rfl, hn.whole d (hwhole ▸ List.mem_cons_self)⟩

theorem exists_signed (text : List Char) : ∃ d ds, signChars n.negative ++ n.body text = d :: ds ∧
    (d.isDigit = true ∨ d = '-') := by
  rcases exists_body hn text with ⟨d, ds, hbody, hd⟩
  cases n.negative with
  | true => exact ⟨'-', _, rfl, .inr rfl⟩
  | false => exact ⟨d, ds, hbody, .inl hd⟩

/-- The sign is split from the body of a numeral. -/
theorem signed_eq (text : List Char) :
    Espalier.Numeral.signed (signChars n.negative ++ n.body text) = (n.negative, n.body text) := by
  rcases exists_body hn text with ⟨d, ds, hbody, hd⟩
  cases n.negative with
  | true => rfl
  | false =>
    rw [signChars, hbody]
    exact signed_of_isDigit hd ds

/-- No numeral is one of the special words. -/
theorem specialWord?_eq (text : List Char) :
    Yaml.specialWord? (String.ofList (signChars n.negative ++ n.body text)) = none := by
  rcases exists_body hn text with ⟨d, ds, hbody, hd⟩
  rw [Yaml.specialWord?, String.toList_ofList, signed_eq hn]
  have hinf : [".inf", "inf", "infinity"].contains (Ascii.fold (String.ofList (n.body text))) =
      false := contains_fold_of_opens hbody (.inl hd) (by decide)
  have hnan : [".nan", "nan"].contains (Ascii.fold (String.ofList (n.body text))) = false :=
    contains_fold_of_opens hbody (.inl hd) (by decide)
  simp only [hinf, hnan, Bool.false_eq_true, if_false]

include htext

theorem forall_mem_body : ∀ c ∈ n.body text,
    c.isDigit = true ∨ ['-', '+', '.', 'e', 'E'].contains c = true := by
  have hall := Text.forall_mem ⟨hn, text, htext, rfl⟩
  rw [List.forall_mem_append, List.append_nil] at hall
  exact hall.2

theorem based_body : Yaml.based (n.body text) = (10, n.body text) := by
  have hmark : ∀ c ∈ n.body text, (c = 'x' || c = 'X') = false ∧ (c = 'o' || c = 'O') = false ∧
      (c = 'b' || c = 'B') = false := by
    intro c hc
    have hletter : ∀ d, d.isDigit = false → ['-', '+', '.', 'e', 'E'].contains d = false →
        decide (c = d) = false := by
      intro d hdigit hmark
      rw [decide_eq_false_iff_not]
      rintro rfl
      rcases forall_mem_body hn htext c hc with h | h
      · rw [h] at hdigit
        cases hdigit
      · rw [h] at hmark
        cases hmark
    simp only [hletter 'x' rfl rfl, hletter 'X' rfl rfl, hletter 'o' rfl rfl, hletter 'O' rfl rfl,
      hletter 'b' rfl rfl, hletter 'B' rfl rfl, Bool.or_self, and_self]
  unfold Yaml.based
  split
  · rename_i c rest heq
    rcases hmark c (heq ▸ List.mem_cons_of_mem _ List.mem_cons_self) with ⟨hx, ho, hb⟩
    simp only [hx, ho, hb, Bool.false_eq_true, if_false, heq]
  · rfl

/-- Digits alone are an integer, all others are not. -/
theorem integer?_eq : Yaml.integer? (String.ofList (signChars n.negative ++ n.body text)) =
    if n.isWhole then some n.integer else none := by
  rw [Yaml.integer?, String.toList_ofList, signed_eq hn]
  simp only [based_body hn htext]
  cases hwhole : n.isWhole with
  | true =>
    rw [isWhole, Bool.and_eq_true, List.isEmpty_iff, Option.isNone_iff_eq_none] at hwhole
    have hbody : n.body text = n.whole := by
      rw [hwhole.2] at htext
      cases htext
      rw [body, hwhole.1]
      simp [fractionChars]
    rw [hbody, digitsValue?_eq hn.whole_ne_nil hn.whole]
    rfl
  | false =>
    -- A point or the mark of an exponent is no digit.
    have hmark : ∃ c ∈ n.body text, Ascii.digitValue? 10 c = none ∧ c ≠ '_' := by
      by_cases hfraction : n.fraction = []
      · have hexponent : n.exponent ≠ none := by
          intro hnone
          rw [isWhole, hfraction, hnone] at hwhole
          cases hwhole
        rcases opens_of_exponentText htext hexponent with ⟨mark, after, rfl, hmark⟩
        refine ⟨mark, by simp [body], ?_⟩
        rcases hmark with rfl | rfl <;> decide
      · exact ⟨'.', by simp [body, fractionChars, hfraction], by decide⟩
    rcases hmark with ⟨c, hc, hnone, hne⟩
    have hfilter : c ∈ (n.body text).filter (· ≠ '_') := by simp [hc, hne]
    rw [Yaml.digitsValue?]
    simp only [mapM_digitValue?_eq_none hfilter hnone, Option.bind_eq_bind, Option.bind_none,
      ite_self, Bool.false_eq_true, if_false]

theorem exponent?_eq : Espalier.Numeral.exponent? text =
    some (n.exponent.map fun _ => n.writtenExponent) := by
  have hdigits := hn.exponent
  unfold writtenExponent
  generalize n.exponent = e at htext hdigits
  have hmark : ∀ {mark : Char}, mark = 'e' ∨ mark = 'E' → (mark = 'e' || mark = 'E') = true := by
    rintro _ (rfl | rfl) <;> rfl
  have hall : ∀ {negative : Bool} {ds : List Char}, e = some (negative, ds) →
      (ds.isEmpty || !ds.all Char.isDigit) = false := by
    rintro negative ds rfl
    rcases hdigits _ rfl with ⟨hne, hds⟩
    rw [List.isEmpty_eq_false_iff.2 hne, List.all_eq_true.2 hds]
    rfl
  cases htext with
  | absent => rfl
  | unsigned h ds =>
    obtain ⟨d, ds, rfl⟩ := List.exists_cons_of_ne_nil (hdigits _ rfl).1
    have hd : d.isDigit = true := (hdigits _ rfl).2 d List.mem_cons_self
    rw [Espalier.Numeral.exponent?, if_pos (hmark h), signed_of_isDigit hd]
    simp only [hall rfl, Bool.false_eq_true, if_false]
    rfl
  | signed h negative ds =>
    have hsigned : Espalier.Numeral.signed ((if negative then '-' else '+') :: ds) =
        (negative, ds) := by cases negative <;> rfl
    rw [Espalier.Numeral.exponent?, if_pos (hmark h), hsigned]
    simp only [hall rfl, Bool.false_eq_true, if_false]
    rfl

/-- A numeral is read into its parts. -/
theorem ofChars?_eq : Espalier.Numeral.ofChars? (signChars n.negative ++ n.body text) =
    some ⟨n.negative, n.whole, n.fraction, n.writtenExponent, n.isWhole⟩ := by
  -- The digits end where the fraction or the exponent begins, so both runs are taken whole.
  have htextStops : ∀ c ∈ text.head?, c.isDigit = false ∧ c ≠ '.' := by
    cases hnone : n.exponent with
    | none =>
      rw [hnone] at htext
      cases htext
      exact nofun
    | some e =>
      rcases opens_of_exponentText htext (by simp [hnone]) with ⟨mark, after, rfl, hmark⟩
      rintro _ ⟨⟩
      rcases hmark with rfl | rfl <;> decide
  have hwholeStops : ∀ c ∈ (fractionChars n.fraction ++ text).head?, c.isDigit = false := by
    cases n.fraction with
    | nil => exact fun c hc => (htextStops c hc).1
    | cons d ds =>
      rintro _ ⟨⟩
      rfl
  have hwhole := digits_append hn.whole hwholeStops
  rw [digits, Prod.mk.injEq] at hwhole
  have hnonempty : n.whole.isEmpty = false := List.isEmpty_eq_false_iff.2 hn.whole_ne_nil
  have hdefault : (n.exponent.map fun _ => n.writtenExponent).getD 0 = n.writtenExponent := by
    unfold writtenExponent
    cases n.exponent <;> rfl
  rw [Espalier.Numeral.ofChars?, signed_eq hn]
  simp only [body, hwhole, hnonempty, Bool.false_and, Bool.false_eq_true, if_false]
  by_cases hfraction : n.fraction = []
  · have hsplit : fractionChars n.fraction ++ text = text := by rw [hfraction]; rfl
    have hnone : (n.exponent.map fun _ => n.writtenExponent).isNone = n.isWhole := by
      rw [isWhole, hfraction, Option.isNone_map]
      rfl
    rw [hsplit]
    split
    · exact absurd rfl (htextStops '.' rfl).2
    · simp only [exponent?_eq hn htext, Option.bind_eq_bind, Option.bind_some, hdefault, hnone,
        Bool.not_false, Bool.true_and, hfraction]
  · have hsplit : fractionChars n.fraction ++ text = '.' :: (n.fraction ++ text) := by
      rw [fractionChars, if_neg hfraction, List.cons_append]
    have htail := digits_append hn.fraction fun c hc => (htextStops c hc).1
    rw [digits, Prod.mk.injEq] at htail
    have hwhole : n.isWhole = false := by
      rw [isWhole, List.isEmpty_eq_false_iff.2 hfraction, Bool.false_and]
    rw [hsplit]
    simp only [htail, exponent?_eq hn htext, Option.bind_eq_bind, Option.bind_some, hdefault,
      hwhole, Bool.not_true, Bool.false_and]

/-- A numeral is read as the nearest number. -/
theorem number?_eq : Yaml.number? (String.ofList (signChars n.negative ++ n.body text)) =
    some n.nearestTree := by
  rw [Yaml.number?, specialWord?_eq hn, String.toList_ofList, ofChars?_eq hn htext]
  rfl

end Written

/-- A JSON number as a plain scalar. -/
theorem plainTree_of_text (h : n.Text chars []) :
    Yaml.plainTree (String.ofList chars) = n.lenientTree := by
  rcases h with ⟨hn, text, htext, rfl⟩
  have hchars : signChars n.negative ++ (n.whole ++ (fractionChars n.fraction ++ (text ++ []))) =
      signChars n.negative ++ n.body text := by
    rw [List.append_nil, body]
  rw [hchars]
  rcases exists_signed hn text with ⟨d, ds, hopens, hd⟩
  have hnull : Yaml.isNullWord (String.ofList (signChars n.negative ++ n.body text)) = false := by
    rw [Yaml.isNullWord, contains_fold_of_opens hopens hd (by decide)]
  have hbool : Yaml.boolWord? (String.ofList (signChars n.negative ++ n.body text)) = none := by
    rw [Yaml.boolWord?]
    have htrue : ["true", "yes", "y", "on"].contains
        (Ascii.fold (String.ofList (signChars n.negative ++ n.body text))) = false :=
      contains_fold_of_opens hopens hd (by decide)
    have hfalse : ["false", "no", "n", "off"].contains
        (Ascii.fold (String.ofList (signChars n.negative ++ n.body text))) = false :=
      contains_fold_of_opens hopens hd (by decide)
    simp only [htrue, hfalse, Bool.false_eq_true, if_false]
  rw [Yaml.plainTree, hnull, hbool, integer?_eq hn htext, number?_eq hn htext, lenientTree]
  cases n.isWhole <;> rfl

end Json.Numeral
end Espalier
