import Espalier.Proofs.Sql.Statements

/-!
# Reading statements about rows back

The statements that insert and select rows take arguments, one for each question mark of their
text, from the left.  The reader gives every question mark its argument as it comes to it, so what
it reads is the request as a whole: which value goes to which column, and which argument the key and
the window have.  It refuses a text with too few or too many arguments.
-/

namespace Espalier
namespace Sql

/-! ## Lexemes -/

/-- What a text with arguments is made of: tokens, question marks and equals signs. -/
inductive Lexeme where
  | token (t : Token)
  | mark
  | equals
deriving DecidableEq

namespace Lexeme

/-- What a character stands for by itself, outside names. -/
def sign? (c : Char) : Option Lexeme :=
  if c = '?' then some mark else if c = '=' then some equals else none

/-- Reads one character; a sign completes what was read before it. -/
def step (st : Scan) (c : Char) : Option (List Lexeme × Scan) :=
  match sign? c, st.finish with
  | some sign, some ts => some (ts.map token ++ [sign], .between)
  | _, _ => (st.step c).map fun x => (x.1.map token, x.2)

/-- Reads characters one after the other. -/
def run : Scan → List Char → Option (List Lexeme × Scan)
  | st, [] => some ([], st)
  | st, c :: cs =>
    (step st c).bind fun x => (run x.2 cs).map fun y => (x.1 ++ y.1, y.2)

end Lexeme

def lexemes? (cs : List Char) : Option (List Lexeme) :=
  (Lexeme.run .between cs).bind fun x => x.2.finish.map fun ts => x.1 ++ ts.map .token

/-- The number of question marks of a text, those in names not counted. -/
def marks (text : String) : Option Nat :=
  (lexemes? text.toList).map (List.count .mark)

/-! ## The grammar -/

/-- What a statement about rows asks for once its arguments are in place. -/
inductive Request (α : Type) where
  /-- A new row with values for some columns. -/
  | insert (table : String) (values : List (String × α))
  /-- Columns of the rows whose key equals an argument, in the order of a column, and of those a
  window with a limit and an offset. -/
  | select (table : String) (columns : List String) (key : Option (String × α))
      (orderBy : Option String) (window : Option (α × α))
deriving DecidableEq

section Grammar

variable {α : Type}

/-- Reads names with commas between them, one at least. -/
def names? : List Lexeme → Option (List String × List Lexeme)
  | .token (.name n) :: .token .comma :: rest => (names? rest).map fun x => (n :: x.1, x.2)
  | .token (.name n) :: rest => some ([n], rest)
  | _ => none

/-- Reads question marks with commas between them, one at least, each of which takes the next
argument. -/
def values? : List Lexeme → List α → Option (List α × List Lexeme × List α)
  | .mark :: .token .comma :: rest, a :: arguments =>
    (values? rest arguments).map fun x => (a :: x.1, x.2)
  | .mark :: rest, a :: arguments => some ([a], rest, arguments)
  | _, _ => none

def condition : List Lexeme → List α → Option (String × α) × List Lexeme × List α
  | .token (.word "WHERE") :: .token (.name k) :: .equals :: .mark :: rest, a :: arguments =>
    (some (k, a), rest, arguments)
  | rest, arguments => (none, rest, arguments)

def ordering : List Lexeme → Option String × List Lexeme
  | .token (.word "ORDER") :: .token (.word "BY") :: .token (.name n) :: rest => (some n, rest)
  | rest => (none, rest)

def bounds : List Lexeme → List α → Option (α × α) × List Lexeme × List α
  | .token (.word "LIMIT") :: .mark :: .token (.word "OFFSET") :: .mark :: rest,
    a :: b :: arguments => (some (a, b), rest, arguments)
  | rest, arguments => (none, rest, arguments)

def insertion? (table : String) (arguments : List α) : List Lexeme → Option (Request α)
  | [.token (.word "DEFAULT"), .token (.word "VALUES")] =>
    if arguments.isEmpty then some (.insert table []) else none
  | .token .opening :: rest => do
    let (columns, rest) ← names? rest
    match rest with
    | .token .closing :: .token (.word "VALUES") :: .token .opening :: rest => do
      let (values, rest, arguments) ← values? rest arguments
      if rest = [.token .closing] ∧ arguments.isEmpty ∧ values.length = columns.length then
        some (.insert table (columns.zip values))
      else none
    | _ => none
  | _ => none

def selection? (table : String) (columns : List String) (arguments : List α)
    (lexemes : List Lexeme) : Option (Request α) :=
  let (key, lexemes, arguments) := condition lexemes arguments
  let (orderBy, lexemes) := ordering lexemes
  let (window, lexemes, arguments) := bounds lexemes arguments
  if lexemes.isEmpty ∧ arguments.isEmpty then some (.select table columns key orderBy window)
  else none

def statement? (arguments : List α) : List Lexeme → Option (Request α)
  | .token (.word "INSERT") :: .token (.word "INTO") :: .token (.name table) :: rest =>
    insertion? table arguments rest
  | .token (.word "SELECT") :: rest => do
    let (columns, rest) ← names? rest
    match rest with
    | .token (.word "FROM") :: .token (.name table) :: rest =>
      selection? table columns arguments rest
    | _ => none
  | _ => none

/-- What a text asks for with arguments. -/
def request? (text : String) (arguments : List α) : Option (Request α) :=
  (lexemes? text.toList).bind (statement? arguments)

/-- A text has a question mark for each of its arguments and asks for something with them. -/
def Asks (text : String) (arguments : List α) (r : Request α) : Prop :=
  marks text = some arguments.length ∧ request? text arguments = some r

end Grammar

/-! ## One argument for each question mark -/

section Counting

variable {α : Type}

/-- Names take no argument. -/
theorem count_names? {ls rest : List Lexeme} {ns : List String} (h : names? ls = some (ns, rest)) :
    ls.count .mark = rest.count .mark := by
  fun_induction names? ls generalizing ns with
  | case1 n tail ih =>
    rcases Option.map_eq_some_iff.1 h with ⟨x, hx, heq⟩
    cases heq
    simpa using ih hx
  | case2 n tail =>
    cases h
    simp
  | case3 => cases h

/-- Reading the values takes one argument for each mark. -/
theorem count_values? {ls rest : List Lexeme} {arguments values left : List α}
    (h : values? ls arguments = some (values, rest, left)) :
    ls.count .mark + left.length = rest.count .mark + arguments.length := by
  fun_induction values? ls arguments generalizing values with
  | case1 tail a arguments ih =>
    rcases Option.map_eq_some_iff.1 h with ⟨⟨values, tail', left'⟩, hx, heq⟩
    cases heq
    have hcount := ih hx
    simp
    omega
  | case2 tail a arguments =>
    cases h
    simp
    omega
  | case3 => cases h

/-- Reading the condition takes one argument for each mark. -/
theorem count_condition (ls : List Lexeme) (arguments : List α) :
    ls.count .mark + (condition ls arguments).2.2.length =
      (condition ls arguments).2.1.count .mark + arguments.length := by
  fun_cases condition ls arguments
  · simp
    omega
  · rfl

theorem count_ordering (ls : List Lexeme) : ls.count .mark = (ordering ls).2.count .mark := by
  fun_cases ordering ls
  · simp
  · rfl

/-- Reading the window takes one argument for each mark. -/
theorem count_bounds (ls : List Lexeme) (arguments : List α) :
    ls.count .mark + (bounds ls arguments).2.2.length =
      (bounds ls arguments).2.1.count .mark + arguments.length := by
  fun_cases bounds ls arguments
  · simp
    omega
  · rfl

/-- An insertion that is read has a mark for each argument. -/
theorem count_insertion? {table : String} {arguments : List α} {ls : List Lexeme} {r : Request α}
    (h : insertion? table arguments ls = some r) : ls.count .mark = arguments.length := by
  unfold insertion? at h
  split at h
  · rcases Option.ite_none_right_eq_some.1 h with ⟨hempty, -⟩
    rw [List.isEmpty_iff.1 hempty]
    rfl
  · rcases Option.bind_eq_some_iff.1 h with ⟨⟨columns, tail⟩, hnames, h⟩
    have hcolumns := count_names? hnames
    dsimp only at h
    split at h
    · rcases Option.bind_eq_some_iff.1 h with ⟨⟨values, rest, left⟩, hvalues, h⟩
      rcases Option.ite_none_right_eq_some.1 h with ⟨⟨hrest, hleft, -⟩, -⟩
      obtain rfl : rest = [.token .closing] := hrest
      obtain rfl : left = [] := List.isEmpty_iff.1 hleft
      have hcount := count_values? hvalues
      simp at hcolumns hcount ⊢
      omega
    · cases h
  · cases h

/-- A selection that is read has a mark for each argument. -/
theorem count_selection? {table : String} {columns : List String} {arguments : List α}
    {ls : List Lexeme} {r : Request α} (h : selection? table columns arguments ls = some r) :
    ls.count .mark = arguments.length := by
  unfold selection? at h
  dsimp only at h
  have hcondition := count_condition ls arguments
  have horder := count_ordering (condition ls arguments).2.1
  have hwindow :=
    count_bounds (ordering (condition ls arguments).2.1).2 (condition ls arguments).2.2
  rcases Option.ite_none_right_eq_some.1 h with ⟨⟨hls, hleft⟩, -⟩
  rw [List.isEmpty_iff.1 hls, List.isEmpty_iff.1 hleft] at hwindow
  simp at hwindow
  omega

/-- A text is read only if it has a question mark for each argument. -/
theorem marks_of_request? {text : String} {arguments : List α} {r : Request α}
    (h : request? text arguments = some r) : marks text = some arguments.length := by
  rcases Option.bind_eq_some_iff.1 h with ⟨ls, hls, hr⟩
  rw [marks, hls, Option.map_some, Option.some_inj]
  unfold statement? at hr
  split at hr
  · simpa using count_insertion? hr
  · rcases Option.bind_eq_some_iff.1 hr with ⟨⟨columns, tail⟩, hnames, hr⟩
    have hcolumns := count_names? hnames
    dsimp only at hr
    split at hr
    · have hrest := count_selection? hr
      simp at hcolumns ⊢
      omega
    · cases hr
  · cases hr

theorem asks_of_request? {text : String} {arguments : List α} {r : Request α}
    (h : request? text arguments = some r) : Asks text arguments r :=
  ⟨marks_of_request? h, h⟩

end Counting

/-! ## Reading part by part -/

namespace Lexeme

/-- Scanning two parts after each other joins what each of them gives. -/
theorem run_append (st : Scan) (a b : List Char) :
    run st (a ++ b) = (run st a).bind fun x => (run x.2 b).map fun y => (x.1 ++ y.1, y.2) := by
  induction a generalizing st with
  | nil => simp [run]
  | cons c a ih =>
    rw [List.cons_append, run, run]
    cases step st c with
    | none => rfl
    | some x =>
      simp only [Option.bind_some, ih]
      cases run x.2 a with
      | none => rfl
      | some y =>
        simp only [Option.bind_some, Option.map_some]
        cases run y.2 b <;> simp

/-- A separating character completes what was read before it. -/
theorem step_of_separates {st : Scan} {c : Char} (hc : Scan.separates c = true) {ts : List Token}
    (h : st.finish = some ts) :
    step st c = (step .between c).map fun x => (ts.map token ++ x.1, x.2) := by
  unfold step
  rw [h, Scan.step_of_separates hc h]
  cases sign? c with
  | some sign => simp [Scan.finish]
  | none =>
    have hbetween : Scan.step .between c = Scan.start c := rfl
    rw [hbetween]
    cases Scan.start c <;> simp

/-- Where a character is read as part of tokens it is no sign. -/
theorem step_of_scan {st : Scan} {c : Char} {x : List Token × Scan} (h : st.step c = some x) :
    step st c = some (x.1.map token, x.2) := by
  have hsign : ∀ sign, sign? c = some sign → st.finish = none := by
    intro sign hsign
    have hc : c = '?' ∨ c = '=' := by
      unfold sign? at hsign
      split at hsign
      · exact .inl ‹_›
      · split at hsign
        · exact .inr ‹_›
        · cases hsign
    -- Neither character is a token or goes on with one, but a name may hold both.
    cases st with
    | quoted q => rfl
    | _ => rcases hc with rfl | rfl <;> cases h
  unfold step
  rw [h]
  cases hc : sign? c with
  | none => rfl
  | some sign => rw [hsign sign hc]; rfl

/-- What the tokens of a definition are to one scanner, they are to that of statements. -/
theorem run_of_scan {st : Scan} {cs : List Char} {x : List Token × Scan}
    (h : st.run cs = some x) : run st cs = some (x.1.map token, x.2) := by
  induction cs generalizing st x with
  | nil =>
    cases h
    rfl
  | cons c cs ih =>
    rcases Option.bind_eq_some_iff.1 h with ⟨y, hy, h⟩
    rcases Option.map_eq_some_iff.1 h with ⟨z, hz, rfl⟩
    rw [run, step_of_scan hy, Option.bind_some, ih hz]
    simp

end Lexeme

/-- A text of tokens has no other lexemes. -/
theorem lexemes?_of_tokens? {cs : List Char} {ts : List Token} (h : tokens? cs = some ts) :
    lexemes? cs = some (ts.map .token) := by
  obtain ⟨us, st, vs, hrun, hfinish, rfl⟩ := tokens?_eq_some.1 h
  rw [lexemes?, Lexeme.run_of_scan hrun, Option.bind_some, hfinish]
  simp

/-- A text has lexemes just if a scan of it can be finished. -/
theorem lexemes?_eq_some {cs : List Char} {ls : List Lexeme} :
    lexemes? cs = some ls ↔ ∃ ms st ts, Lexeme.run .between cs = some (ms, st) ∧
      st.finish = some ts ∧ ms ++ ts.map .token = ls := by
  unfold lexemes?
  rw [Option.bind_eq_some_iff]
  constructor
  · rintro ⟨⟨ms, st⟩, hrun, h⟩
    rcases Option.map_eq_some_iff.1 h with ⟨ts, hfinish, rfl⟩
    exact ⟨ms, st, ts, hrun, hfinish, rfl⟩
  · rintro ⟨ms, st, ts, hrun, hfinish, rfl⟩
    exact ⟨(ms, st), hrun, Option.map_eq_some_iff.2 ⟨ts, hfinish, rfl⟩⟩

/-- A part that begins with a separating character is read as if it stood alone. -/
theorem lexemes?_append {a b : List Char} {ls ms : List Lexeme} (ha : lexemes? a = some ls)
    (hb : lexemes? b = some ms) (hfollows : follows b = true) :
    lexemes? (a ++ b) = some (ls ++ ms) := by
  cases b with
  | nil =>
    obtain rfl : ms = [] := (Option.some.inj hb).symm
    rw [List.append_nil, List.append_nil, ha]
  | cons c b =>
    obtain ⟨ls, st, ts, hrun, hfinish, rfl⟩ := lexemes?_eq_some.1 ha
    obtain ⟨ms, st', us, hrun', hfinish', rfl⟩ := lexemes?_eq_some.1 hb
    refine lexemes?_eq_some.2 ⟨ls ++ (ts.map .token ++ ms), st', us, ?_, hfinish', by simp⟩
    rw [Lexeme.run] at hrun'
    rcases Option.bind_eq_some_iff.1 hrun' with ⟨x, hx, hrun'⟩
    rcases Option.map_eq_some_iff.1 hrun' with ⟨y, hy, hyx⟩
    cases hyx
    rw [Lexeme.run_append, hrun, Option.bind_some, Lexeme.run,
      Lexeme.step_of_separates (by simpa [follows] using hfollows) hfinish, hx]
    simp only [Option.map_some, Option.bind_some, hy, List.append_assoc]

/-! ## The lexemes of the texts -/

/-- The tokens of names with commas between them. -/
def nameTokens (n : String) (ns : List String) : List Token :=
  .name n :: ns.flatMap fun n => [.comma, .name n]

def markLexemes {α : Type} (as : List α) : List Lexeme :=
  .mark :: as.flatMap fun _ => [.token .comma, .mark]

/-- A list of quoted names reads as the names with commas between. -/
theorem tokens?_names {n : String} {ns : List String} (h : ∀ m ∈ n :: ns, Plain m) :
    tokens? (commaSeparated ((n :: ns).map quoted)).toList = some (nameTokens n ns) := by
  rw [List.forall_mem_cons] at h
  rw [List.map_cons, toList_commaSeparated, List.flatMap_map]
  have hrest : tokens? (ns.flatMap fun m => ", ".toList ++ (quoted m).toList) =
      some (ns.flatMap fun m => [.comma, .name m]) ∧
        follows (ns.flatMap fun m => ", ".toList ++ (quoted m).toList) = true := by
    rcases h with ⟨-, h⟩
    induction ns with
    | nil => decide
    | cons m ns ih =>
      rw [List.forall_mem_cons] at h
      obtain ⟨htokens, hfollows⟩ := ih h.2
      have hname := tokens?_append (tokens?_quoted h.1) htokens hfollows
      rw [List.flatMap_cons, List.append_assoc]
      exact ⟨tokens?_append_of_between ", ".toList [.comma] (by decide) hname, rfl⟩
  exact tokens?_append (tokens?_quoted h.1) hrest.1 hrest.2

/-- A list of marks reads as as many marks. -/
theorem lexemes?_marks {α : Type} (a : α) (as : List α) :
    lexemes? (commaSeparated ((a :: as).map fun _ => "?")).toList = some (markLexemes as) ∧
      follows (commaSeparated ((a :: as).map fun _ => "?")).toList = true := by
  rw [List.map_cons, toList_commaSeparated, List.flatMap_map]
  have hrest : lexemes? (as.flatMap fun _ => ", ".toList ++ "?".toList) =
      some (as.flatMap fun _ => [.token .comma, .mark]) ∧
        follows (as.flatMap fun _ => ", ".toList ++ "?".toList) = true := by
    induction as with
    | nil => exact ⟨rfl, rfl⟩
    | cons b as ih =>
      have hmark : lexemes? (", ".toList ++ "?".toList) = some [.token .comma, .mark] := by decide
      rw [List.flatMap_cons]
      exact ⟨lexemes?_append hmark ih.1 ih.2, rfl⟩
  have hmark : lexemes? "?".toList = some [.mark] := by decide
  exact ⟨lexemes?_append hmark hrest.1 hrest.2, rfl⟩

/-- The tokens of an insertion up to the name of its table. -/
theorem tokens?_into {table : String} (h : Plain table) :
    tokens? ("INSERT INTO ".toList ++ (quoted table).toList) =
      some [.word "INSERT", .word "INTO", .name table] :=
  tokens?_append_of_between "INSERT INTO ".toList [.word "INSERT", .word "INTO"] (by decide)
    (tokens?_quoted h)

/-- An insertion without columns has its own form. -/
theorem lexemes?_insert_nil {table : String} (h : Plain table) :
    lexemes? (Insert.mk table []).text.toList =
      some ([.word "INSERT", .word "INTO", .name table, .word "DEFAULT", .word "VALUES"].map
        .token) := by
  have htokens := tokens?_append (tokens?_into h)
    (show tokens? " DEFAULT VALUES".toList = some [.word "DEFAULT", .word "VALUES"] by decide) rfl
  have htext : (Insert.mk table []).text =
      "INSERT INTO " ++ quoted table ++ " DEFAULT VALUES" := rfl
  rw [htext, String.toList_append, String.toList_append]
  exact lexemes?_of_tokens? htokens

/-- The text of an insertion reads as its words, its names and its marks. -/
theorem lexemes?_insert_cons {table c : String} {cs : List String} (h : Plain table)
    (hcs : ∀ d ∈ c :: cs, Plain d) :
    lexemes? (Insert.mk table (c :: cs)).text.toList =
      some ([.word "INSERT", .word "INTO", .name table, .opening].map .token ++
        ((nameTokens c cs).map .token ++
          ([.closing, .word "VALUES", .opening].map .token ++
            (markLexemes cs ++ [.token .closing])))) := by
  have hcolumns := tokens?_append_append " (".toList [.opening] (tokens?_into h) (by decide)
    (by decide) (tokens?_names hcs)
  have hvalues := tokens?_append hcolumns
    (show tokens? ") VALUES (".toList = some [.closing, .word "VALUES", .opening] by decide) rfl
  obtain ⟨hmarks, hfollows⟩ := lexemes?_marks c cs
  have hclosing : lexemes? ")".toList = some [.token .closing] := by decide
  have hall := lexemes?_append (lexemes?_append (lexemes?_of_tokens? hvalues) hmarks hfollows)
    hclosing rfl
  have hsplit : ∀ v w x y z : String,
      (v ++ quoted table ++ (w ++ commaSeparated ((c :: cs).map quoted) ++ x ++ y ++ z)).toList =
        v.toList ++ (quoted table).toList ++
          (w.toList ++ (commaSeparated ((c :: cs).map quoted)).toList) ++ x.toList ++ y.toList ++
            z.toList := by
    intro v w x y z
    simp only [String.toList_append, List.append_assoc]
  have htext : (Insert.mk table (c :: cs)).text.toList = _ := hsplit _ _ _ _ _
  rw [htext, hall]
  simp

def conditionText : Option String → String
  | none => ""
  | some k => " WHERE " ++ quoted k ++ " = ?"

def conditionLexemes : Option String → List Lexeme
  | none => []
  | some k => [.token (.word "WHERE"), .token (.name k), .equals, .mark]

def orderingText : Option String → String
  | none => ""
  | some n => " ORDER BY " ++ quoted n

def orderingLexemes : Option String → List Lexeme
  | none => []
  | some n => [.token (.word "ORDER"), .token (.word "BY"), .token (.name n)]

def boundsLexemes (window : Bool) : List Lexeme :=
  if window then [.token (.word "LIMIT"), .mark, .token (.word "OFFSET"), .mark] else []

/-- The condition of a selection reads as the key and a mark, and ends at a token. -/
theorem lexemes?_condition {key : Option String} (h : ∀ k ∈ key, Plain k) :
    lexemes? (conditionText key).toList = some (conditionLexemes key) ∧
      follows (conditionText key).toList = true := by
  cases key with
  | none => exact ⟨rfl, rfl⟩
  | some k =>
    have hname := tokens?_append_of_between " WHERE ".toList [.word "WHERE"] (by decide)
      (tokens?_quoted (h k rfl))
    have hmark : lexemes? " = ?".toList = some [.equals, .mark] := by decide
    rw [conditionText, String.toList_append, String.toList_append]
    exact ⟨lexemes?_append (lexemes?_of_tokens? hname) hmark rfl, rfl⟩

/-- The order of a selection reads as the column it names, and ends at a token. -/
theorem lexemes?_ordering {orderBy : Option String} (h : ∀ n ∈ orderBy, Plain n) :
    lexemes? (orderingText orderBy).toList = some (orderingLexemes orderBy) ∧
      follows (orderingText orderBy).toList = true := by
  cases orderBy with
  | none => exact ⟨rfl, rfl⟩
  | some n =>
    have hname := tokens?_append_of_between " ORDER BY ".toList [.word "ORDER", .word "BY"]
      (by decide) (tokens?_quoted (h n rfl))
    rw [orderingText, String.toList_append]
    exact ⟨lexemes?_of_tokens? hname, rfl⟩

/-- The window of a selection reads as its two marks, and ends at a token. -/
theorem lexemes?_bounds (window : Bool) :
    lexemes? (if window then " LIMIT ? OFFSET ?" else "").toList = some (boundsLexemes window) ∧
      follows (if window then " LIMIT ? OFFSET ?" else "").toList = true := by
  cases window <;> decide

/-- A selection whose text can be read: its names are plain, and it asks for a column. -/
structure Select.Readable (s : Select) : Prop where
  table : Plain s.table
  columns : ∀ c ∈ s.columns, Plain c
  nonempty : s.columns ≠ []
  key : ∀ k ∈ s.key, Plain k
  orderBy : ∀ n ∈ s.orderBy, Plain n

/-- The text of a selection has its names, its table and its clauses in order. -/
theorem lexemes?_select {s : Select} (hs : s.Readable) : ∃ c cs, s.columns = c :: cs ∧
    lexemes? s.text.toList = some (.token (.word "SELECT") :: ((nameTokens c cs).map .token ++
      (.token (.word "FROM") :: .token (.name s.table) :: (conditionLexemes s.key ++
        (orderingLexemes s.orderBy ++ boundsLexemes s.window))))) := by
  obtain ⟨c, cs, hcolumns⟩ := List.exists_cons_of_ne_nil hs.nonempty
  have hnames := tokens?_names (hcolumns ▸ hs.columns)
  have hprojection := tokens?_append_of_between "SELECT ".toList [.word "SELECT"] (by decide) hnames
  have htable := tokens?_append_append " FROM ".toList [.word "FROM"] hprojection (by decide)
    (by decide) (tokens?_quoted hs.table)
  obtain ⟨hcondition, hconditionFollows⟩ := lexemes?_condition hs.key
  obtain ⟨hordering, horderingFollows⟩ := lexemes?_ordering hs.orderBy
  obtain ⟨hbounds, hboundsFollows⟩ := lexemes?_bounds s.window
  have hall := lexemes?_append (lexemes?_append (lexemes?_append (lexemes?_of_tokens? htable)
    hcondition hconditionFollows) hordering horderingFollows) hbounds hboundsFollows
  have htext : s.text = "SELECT " ++ commaSeparated (s.columns.map quoted) ++ " FROM " ++
    quoted s.table ++ conditionText s.key ++ orderingText s.orderBy ++
      (if s.window then " LIMIT ? OFFSET ?" else "") := rfl
  refine ⟨c, cs, hcolumns, ?_⟩
  rw [htext, hcolumns]
  simp only [String.toList_append, List.append_assoc] at hall ⊢
  rw [hall]
  simp

/-! ## Requests that are read back -/

section Requests

variable {α : Type}

/-- Names are read up to what is no comma. -/
theorem names?_nameTokens (n : String) (ns : List String) {l : Lexeme} (hl : l ≠ .token .comma)
    (rest : List Lexeme) :
    names? ((nameTokens n ns).map .token ++ l :: rest) = some (n :: ns, l :: rest) := by
  induction ns generalizing n with
  | nil =>
    have hlist : (nameTokens n []).map .token ++ l :: rest = .token (.name n) :: l :: rest := rfl
    rw [hlist, names?]
    intro rest' heq
    exact hl (List.cons.inj heq).1
  | cons m ns ih =>
    have hlist : (nameTokens n (m :: ns)).map .token ++ l :: rest = .token (.name n) ::
        .token .comma :: ((nameTokens m ns).map .token ++ l :: rest) := rfl
    rw [hlist, names?, ih]
    rfl

/-- Question marks are read up to what is no comma. -/
theorem values?_markLexemes {β : Type} (a : α) (as left : List α) {bs : List β}
    (hlength : as.length = bs.length) {l : Lexeme} (hl : l ≠ .token .comma) (rest : List Lexeme) :
    values? (markLexemes bs ++ l :: rest) (a :: as ++ left) =
      some (a :: as, l :: rest, left) := by
  induction bs generalizing a as with
  | nil =>
    obtain rfl := List.length_eq_zero_iff.1 hlength
    have hlist : markLexemes ([] : List β) ++ l :: rest = .mark :: l :: rest := rfl
    rw [hlist, List.cons_append, values?]
    · rfl
    · intro rest' heq
      exact hl (List.cons.inj heq).1
  | cons b bs ih =>
    rcases as with _ | ⟨a', as⟩
    · cases hlength
    have hlist : markLexemes (b :: bs) ++ l :: rest =
        .mark :: .token .comma :: (markLexemes bs ++ l :: rest) := rfl
    rw [hlist, List.cons_append, values?, ih a' as (Nat.succ.inj hlength)]
    rfl

/-- The text of an insertion takes one argument for each column and gives it to that column. -/
theorem request?_insert {s : Insert} (htable : Plain s.table) (hcolumns : ∀ c ∈ s.columns, Plain c)
    {arguments : List α} (h : arguments.length = s.columns.length) :
    request? s.text arguments = some (.insert s.table (s.columns.zip arguments)) := by
  rcases s with ⟨table, _ | ⟨c, cs⟩⟩
  · obtain rfl := List.length_eq_zero_iff.1 h
    rw [request?, lexemes?_insert_nil htable]
    rfl
  · rcases arguments with _ | ⟨a, as⟩
    · cases h
    have hlength : as.length = cs.length := Nat.succ.inj h
    have hnames := names?_nameTokens c cs (l := .token .closing) (by decide)
      (.token (.word "VALUES") :: .token .opening :: (markLexemes cs ++ [.token .closing]))
    have hvalues := values?_markLexemes a as [] hlength (l := .token .closing) (by decide) []
    rw [List.append_nil] at hvalues
    rw [request?, lexemes?_insert_cons htable hcolumns, Option.bind_some]
    have hlist : ∀ ls : List Lexeme,
        statement? (a :: as) ([.word "INSERT", .word "INTO", .name table, .opening].map .token ++
          ls) = insertion? table (a :: as) (.token .opening :: ls) := fun _ => rfl
    rw [hlist, insertion?]
    simp [hnames, hvalues, hlength]

/-- The arguments of a selection in the order of its text. -/
def selectArguments (key : Option (String × α)) (window : Option (α × α)) : List α :=
  key.toList.map Prod.snd ++ window.toList.flatMap fun w => [w.1, w.2]

/-- The clauses of a selection take the argument of the key, the limit and the offset. -/
theorem selection?_clauses (table : String) (columns : List String) (key : Option (String × α))
    (orderBy : Option String) (window : Option (α × α)) :
    selection? table columns (selectArguments key window)
        (conditionLexemes (key.map Prod.fst) ++
          (orderingLexemes orderBy ++ boundsLexemes window.isSome)) =
      some (.select table columns key orderBy window) := by
  rcases key with _ | ⟨k, a⟩ <;> rcases orderBy with _ | n <;>
    rcases window with _ | ⟨l, o⟩ <;> rfl

/-- The text of a selection takes the argument of its key and those of its window. -/
theorem request?_select {s : Select} (hs : s.Readable) {key : Option (String × α)}
    {window : Option (α × α)} (hkey : s.key = key.map Prod.fst)
    (hwindow : s.window = window.isSome) : request? s.text (selectArguments key window) =
      some (.select s.table s.columns key s.orderBy window) := by
  obtain ⟨c, cs, hcolumns, htext⟩ := lexemes?_select hs
  have hnames := names?_nameTokens c cs (l := .token (.word "FROM")) (by decide)
    (.token (.name s.table) :: (conditionLexemes s.key ++
      (orderingLexemes s.orderBy ++ boundsLexemes s.window)))
  rw [request?, htext, Option.bind_some, statement?, hnames, hcolumns, hkey, hwindow]
  exact selection?_clauses s.table (c :: cs) key s.orderBy window

end Requests

end Sql
end Espalier
