import Espalier.Sql.Statement
import Espalier.Text.Ascii

/-!
# Reading the tokens of a statement

How SQL takes a text apart: blanks separate, a name between double quotes goes up to the next single
double quote (two of them stand for one), a bare word is a keyword in any case or stands for itself,
and parentheses, commas and semicolons are marks.  Whatever else SQL has is refused.  The reader
goes character by character, so a text can be read part by part: `tokens?_append` says where one
part may follow another.
-/

namespace Espalier
namespace Sql

/-! ## Tokens -/

inductive Keyword where
  | CREATE
  | TABLE
  | INDEX
  | IF
  | NOT
  | EXISTS
  | ON
  | PRIMARY
  | KEY
  | AUTOINCREMENT
  | NULL
  | REFERENCES
deriving DecidableEq

namespace Keyword

def spelling : Keyword → String
  | CREATE => "CREATE"
  | TABLE => "TABLE"
  | INDEX => "INDEX"
  | IF => "IF"
  | NOT => "NOT"
  | EXISTS => "EXISTS"
  | ON => "ON"
  | PRIMARY => "PRIMARY"
  | KEY => "KEY"
  | AUTOINCREMENT => "AUTOINCREMENT"
  | NULL => "NULL"
  | REFERENCES => "REFERENCES"

def all : List Keyword :=
  [CREATE, TABLE, INDEX, IF, NOT, EXISTS, ON, PRIMARY, KEY, AUTOINCREMENT, NULL, REFERENCES]

end Keyword

/-- What a text of statements is made of. -/
inductive Token where
  | keyword (k : Keyword)
  /-- A bare word that is no keyword, as it is written. -/
  | word (s : String)
  /-- A name between double quotes. -/
  | name (s : String)
  | opening
  | closing
  | comma
  | semicolon
deriving DecidableEq

def Token.ofWord (w : List Char) : Token :=
  match Keyword.all.find? fun k => Ascii.sameName k.spelling (String.ofList w) with
  | some k => .keyword k
  | none => .word (String.ofList w)

/-! ## The reader -/

/-- Where the reader is: between tokens, in a bare word, in a name, or behind a quote that ends a
name unless another one follows. -/
inductive Scan where
  | between
  | word (w : List Char)
  | quoted (q : List Char)
  | quote (q : List Char)
deriving DecidableEq

namespace Scan

def isBlank (c : Char) : Bool :=
  c == ' ' || c == '\t' || c == '\n' || c == '\r' || c.toNat == 12

/-- A character after a token: the tokens that it makes up, and where the reader is then. -/
def start (c : Char) : Option (List Token × Scan) :=
  if isBlank c then some ([], between)
  else if c = '"' then some ([], quoted [])
  else if Ascii.opensIdentifier c then some ([], word [c])
  else
    match c with
    | '(' => some ([.opening], between)
    | ')' => some ([.closing], between)
    | ',' => some ([.comma], between)
    | ';' => some ([.semicolon], between)
    | _ => none

def step : Scan → Char → Option (List Token × Scan)
  | between, c => start c
  | word w, c =>
    if Ascii.continuesIdentifier c then some ([], word (w ++ [c]))
    else (start c).map fun x => (.ofWord w :: x.1, x.2)
  | quoted q, c => some ([], if c = '"' then quote q else quoted (q ++ [c]))
  | quote q, c =>
    if c = '"' then some ([], quoted (q ++ [c]))
    else (start c).map fun x => (.name (String.ofList q) :: x.1, x.2)

/-- The tokens that are complete at the end of the text; a name must be. -/
def finish : Scan → Option (List Token)
  | between => some []
  | word w => some [.ofWord w]
  | quoted _ => none
  | quote q => some [.name (String.ofList q)]

def run : Scan → List Char → Option (List Token × Scan)
  | st, [] => some ([], st)
  | st, c :: cs =>
    (step st c).bind fun x => (run x.2 cs).map fun y => (x.1 ++ y.1, y.2)

end Scan

def tokens? (cs : List Char) : Option (List Token) :=
  (Scan.run .between cs).bind fun x => x.2.finish.map (x.1 ++ ·)

/-! ## Reading part by part -/

namespace Scan

theorem run_append (st : Scan) (a b : List Char) :
    run st (a ++ b) = (run st a).bind fun x => (run x.2 b).map fun y => (x.1 ++ y.1, y.2) := by
  induction a generalizing st with
  | nil => simp [run]
  | cons c a ih =>
    rw [List.cons_append, run, run]
    cases step st c with
    | none => rfl
    | some x =>
      simp only [Option.bind_some, ih]
      cases run x.2 a with
      | none => rfl
      | some y =>
        simp only [Option.bind_some, Option.map_some]
        cases run y.2 b <;> simp

/-- A character that ends a bare word and a name. -/
def separates (c : Char) : Bool :=
  !Ascii.continuesIdentifier c && c != '"'

/-- A separating character completes what was read before it. -/
theorem step_of_separates {st : Scan} {c : Char} (hc : separates c = true) {ts : List Token}
    (h : st.finish = some ts) : step st c = (start c).map fun x => (ts ++ x.1, x.2) := by
  simp only [separates, Bool.and_eq_true, Bool.not_eq_true', bne_iff_ne, ne_eq] at hc
  cases st with
  | between =>
    cases h
    rw [step]
    cases start c <;> rfl
  | word w =>
    cases h
    rw [step, hc.1, if_neg Bool.false_ne_true]
    rfl
  | quoted q => cases h
  | quote q =>
    cases h
    rw [step, if_neg hc.2]
    rfl

end Scan

/-- Whether a part may follow any other: it is empty or begins with a separating character. -/
def follows (cs : List Char) : Bool :=
  cs.head?.all Scan.separates

/-- A text has tokens just if a scan of it can be finished. -/
theorem tokens?_eq_some {cs : List Char} {ts : List Token} :
    tokens? cs = some ts ↔ ∃ us st vs, Scan.run .between cs = some (us, st) ∧
      st.finish = some vs ∧ us ++ vs = ts := by
  unfold tokens?
  rw [Option.bind_eq_some_iff]
  constructor
  · rintro ⟨⟨us, st⟩, hrun, h⟩
    rcases Option.map_eq_some_iff.1 h with ⟨vs, hfinish, rfl⟩
    exact ⟨us, st, vs, hrun, hfinish, rfl⟩
  · rintro ⟨us, st, vs, hrun, hfinish, rfl⟩
    exact ⟨(us, st), hrun, Option.map_eq_some_iff.2 ⟨vs, hfinish, rfl⟩⟩

/-- A part that begins with a separating character is read as if it stood alone. -/
theorem tokens?_append {a b : List Char} {ts us : List Token} (ha : tokens? a = some ts)
    (hb : tokens? b = some us) (hfollows : follows b = true) :
    tokens? (a ++ b) = some (ts ++ us) := by
  cases b with
  | nil =>
    obtain rfl : us = [] := (Option.some.inj hb).symm
    rw [List.append_nil, List.append_nil, ha]
  | cons c b =>
    obtain ⟨ts₁, st, ts₂, hrun, hfinish, rfl⟩ := tokens?_eq_some.1 ha
    obtain ⟨us₁, st', us₂, hrun', hfinish', rfl⟩ := tokens?_eq_some.1 hb
    refine tokens?_eq_some.2 ⟨ts₁ ++ (ts₂ ++ us₁), st', us₂, ?_, hfinish', by simp⟩
    rw [Scan.run, Scan.step] at hrun'
    rw [Scan.run_append, hrun, Option.bind_some, Scan.run,
      Scan.step_of_separates (by simpa [follows] using hfollows) hfinish]
    cases hstart : Scan.start c with
    | none =>
      rw [hstart] at hrun'
      cases hrun'
    | some x =>
      rw [hstart, Option.bind_some] at hrun'
      rcases Option.map_eq_some_iff.1 hrun' with ⟨y, hy, hyx⟩
      cases hyx
      simp only [Option.map_some, Option.bind_some, hy, List.append_assoc]

/-- After a part that ends between tokens any other may follow. -/
theorem tokens?_append_of_between (a : List Char) (ts : List Token) {b : List Char}
    {us : List Token} (ha : Scan.run .between a = some (ts, .between)) (hb : tokens? b = some us) :
    tokens? (a ++ b) = some (ts ++ us) := by
  obtain ⟨us₁, st, us₂, hrun, hfinish, rfl⟩ := tokens?_eq_some.1 hb
  refine tokens?_eq_some.2 ⟨ts ++ us₁, st, us₂, ?_, hfinish, List.append_assoc _ _ _⟩
  rw [Scan.run_append, ha, Option.bind_some, hrun]
  rfl

/-- Between two parts may stand one that begins with a separating character and ends between
tokens. -/
theorem tokens?_append_append (l : List Char) (ls : List Token) {a b : List Char}
    {ts us : List Token} (ha : tokens? a = some ts) (hl : Scan.run .between l = some (ls, .between))
    (hfollows : l.head?.any Scan.separates = true) (hb : tokens? b = some us) :
    tokens? (a ++ (l ++ b)) = some (ts ++ (ls ++ us)) := by
  refine tokens?_append ha (tokens?_append_of_between l ls hl hb) ?_
  cases l with
  | nil => cases hfollows
  | cons c l => simpa [follows] using hfollows

/-! ## Names -/

/-- A name that can be written between double quotes as it is. -/
def Plain (name : String) : Prop :=
  '"' ∉ name.toList

/-- A quoted name runs to the quote that closes it. -/
theorem run_quoted (q : List Char) {n : List Char} (hn : '"' ∉ n) :
    Scan.run (.quoted q) (n ++ ['"']) = some ([], .quote (q ++ n)) := by
  induction n generalizing q with
  | nil => simp [Scan.run, Scan.step]
  | cons c n ih =>
    rw [List.mem_cons, not_or] at hn
    have hc : c ≠ '"' := fun h => hn.1 h.symm
    rw [List.cons_append, Scan.run, Scan.step, if_neg hc, Option.bind_some, ih _ hn.2]
    simp

/-- A quoted name is one token, whatever it holds but double quotes. -/
theorem tokens?_quoted {n : String} (hn : Plain n) :
    tokens? (quoted n).toList = some [.name n] := by
  have htext : (quoted n).toList = '"' :: (n.toList ++ ['"']) := by
    simp [quoted]
  have hstart : Scan.step .between '"' = some ([], .quoted []) := by decide
  refine tokens?_eq_some.2 ⟨[], .quote n.toList, _, ?_, rfl, ?_⟩
  · rw [htext, Scan.run, hstart, Option.bind_some, run_quoted [] hn]
    rfl
  · simp

end Sql
end Espalier
