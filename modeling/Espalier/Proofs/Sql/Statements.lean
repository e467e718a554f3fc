import Espalier.Proofs.Sql.Tokens

/-!
# Reading definitions back

The grammar of the statements that create tables and indexes, as a reader of tokens, and what it
makes of the texts of definitions.  Text and reader are apart: the reader knows nothing of how a
definition is printed, takes the constraints of a column in any order, and reads a script statement
by statement up to the semicolons.
-/

namespace Espalier
namespace Sql

/-! ## The grammar -/

/-- Reads the rest of a list of columns: the constraints of the current column, then further columns
up to the closing parenthesis. -/
def columns? (done : List ColumnSpec) (c : ColumnSpec) :
    List Token → Option (List ColumnSpec × List Token)
  | .closing :: rest => some (done ++ [c], rest)
  | .comma :: .name n :: .word t :: rest => columns? (done ++ [c]) { name := n, declared := t } rest
  | .keyword .PRIMARY :: .keyword .KEY :: .keyword .AUTOINCREMENT :: rest =>
    columns? done { c with primaryKey := true, autoincrement := true } rest
  | .keyword .PRIMARY :: .keyword .KEY :: rest => columns? done { c with primaryKey := true } rest
  | .keyword .NOT :: .keyword .NULL :: rest => columns? done { c with notNull := true } rest
  | .keyword .REFERENCES :: .name t :: .opening :: .name k :: .closing :: rest =>
    if k = referenced then columns? done { c with references := some t } rest else none
  | _ => none

def table? (ifAbsent : Bool) : List Token → Option Definition
  | .name n :: .opening :: .name c :: .word t :: rest =>
    match columns? [] { name := c, declared := t } rest with
    | some (columns, []) => some (.table ⟨ifAbsent, n, columns⟩)
    | _ => none
  | _ => none

def definition? : List Token → Option Definition
  | .keyword .CREATE :: .keyword .TABLE :: .keyword .IF :: .keyword .NOT :: .keyword .EXISTS ::
    rest => table? true rest
  | .keyword .CREATE :: .keyword .TABLE :: rest => table? false rest
  | [.keyword .CREATE, .keyword .INDEX, .keyword .IF, .keyword .NOT, .keyword .EXISTS, .name i,
    .keyword .ON, .name t, .opening, .name c, .closing] => some (.index ⟨i, t, c⟩)
  | _ => none

/-- Splits tokens at the semicolons. -/
def statements : List Token → List (List Token)
  | [] => [[]]
  | .semicolon :: rest => [] :: statements rest
  | t :: rest =>
    match statements rest with
    | s :: ss => (t :: s) :: ss
    | [] => [[t]]

/-- The definitions of a text of statements; a statement without tokens is none. -/
def script? (text : String) : Option (List Definition) :=
  (tokens? text.toList).bind fun ts =>
    ((statements ts).filter fun s => !s.isEmpty).mapM definition?

/-! ## Tokens of definitions -/

def referenceText : Option String → String
  | none => ""
  | some t => " REFERENCES " ++ quoted t ++ " (" ++ quoted referenced ++ ")"

def referenceTokens : Option String → List Token
  | none => []
  | some t => [.keyword .REFERENCES, .name t, .opening, .name referenced, .closing]

def ColumnSpec.constraints (c : ColumnSpec) : List Token :=
  (if c.primaryKey then [.keyword .PRIMARY, .keyword .KEY] else []) ++
    ((if c.autoincrement then [.keyword .AUTOINCREMENT] else []) ++
      ((if c.notNull then [.keyword .NOT, .keyword .NULL] else []) ++
        referenceTokens c.references))

def ColumnSpec.tokens (c : ColumnSpec) : List Token :=
  .name c.name :: .word c.declared :: c.constraints

def furtherTokens (cs : List ColumnSpec) : List Token :=
  cs.flatMap fun c => .comma :: c.tokens

/-- A column whose text can be read: its names are plain, its type is a bare word, and only a
primary key counts on. -/
structure ColumnSpec.Readable (c : ColumnSpec) : Prop where
  name : Plain c.name
  declared : tokens? c.declared.toList = some [.word c.declared]
  autoincrement : c.autoincrement = c.primaryKey
  references : ∀ t ∈ c.references, Plain t

def Definition.tokens : Definition → List Token
  | .table ⟨ifAbsent, n, columns⟩ =>
    [.keyword .CREATE, .keyword .TABLE] ++
      ((if ifAbsent then [.keyword .IF, .keyword .NOT, .keyword .EXISTS] else []) ++
        (.name n :: .opening ::
          (match columns with
            | [] => []
            | c :: cs => c.tokens ++ furtherTokens cs) ++ [.closing]))
  | .index ⟨i, t, c⟩ =>
    [.keyword .CREATE, .keyword .INDEX, .keyword .IF, .keyword .NOT, .keyword .EXISTS, .name i,
      .keyword .ON, .name t, .opening, .name c, .closing]

/-- A definition whose text can be read: its names are plain, and a table has columns. -/
inductive Definition.Readable : Definition → Prop where
  | table {ifAbsent : Bool} {n : String} {c : ColumnSpec} {cs : List ColumnSpec} : Plain n →
      (∀ d ∈ c :: cs, d.Readable) → Readable (.table ⟨ifAbsent, n, c :: cs⟩)
  | index {i t c : String} : Plain i → Plain t → Plain c → Readable (.index ⟨i, t, c⟩)

/-! ## Reading columns -/

/-- The constraints of a column make it up from its name and its type. -/
theorem columns?_constraints {c : ColumnSpec} (hc : c.autoincrement = c.primaryKey)
    (done : List ColumnSpec) (rest : List Token) :
    columns? done { name := c.name, declared := c.declared } (c.constraints ++ rest) =
      columns? done c rest := by
  rcases c with ⟨name, declared, primaryKey, autoincrement, notNull, references⟩
  obtain rfl : autoincrement = primaryKey := hc
  -- The flags and the reference are read one after the other.
  cases autoincrement <;> cases notNull <;> cases references <;>
    simp [ColumnSpec.constraints, referenceTokens, columns?]

/-- A list of columns is read up to its end. -/
theorem columns?_tokens {c : ColumnSpec} {cs : List ColumnSpec}
    (hcs : ∀ d ∈ c :: cs, d.autoincrement = d.primaryKey) (done : List ColumnSpec)
    (rest : List Token) :
    columns? done { name := c.name, declared := c.declared }
        (c.constraints ++ (furtherTokens cs ++ .closing :: rest)) =
      some (done ++ c :: cs, rest) := by
  induction cs generalizing c done with
  | nil =>
    rw [columns?_constraints (hcs c List.mem_cons_self) done]
    rfl
  | cons d cs ih =>
    rw [columns?_constraints (hcs c List.mem_cons_self) done]
    have hnext := ih (fun e he => hcs e (List.mem_cons_of_mem c he)) (done ++ [c])
    rw [List.append_assoc, List.singleton_append] at hnext
    rw [← hnext]
    simp [furtherTokens, ColumnSpec.tokens, columns?]

/-! ## The tokens of the texts -/

/-- A reference reads as the table and its key, and ends at a token. -/
theorem tokens?_reference {references : Option String} (h : ∀ t ∈ references, Plain t) :
    tokens? (referenceText references).toList = some (referenceTokens references) ∧
      follows (referenceText references).toList = true := by
  cases references with
  | none => exact ⟨by decide, by decide⟩
  | some t =>
    have hreferenced : tokens? ((quoted referenced).toList ++ ")".toList) =
        some [.name referenced, .closing] := by
      decide
    have hrest := tokens?_append_append " (".toList [.opening] (tokens?_quoted (h t rfl))
      (by decide) (by decide) hreferenced
    have hall := tokens?_append_of_between " REFERENCES ".toList [.keyword .REFERENCES]
      (by decide) hrest
    -- With variables for the words around the names there is nothing to compute.
    have hsplit : ∀ w x y : String, (w ++ quoted t ++ x ++ quoted referenced ++ y).toList =
        w.toList ++ ((quoted t).toList ++ (x.toList ++ ((quoted referenced).toList ++
          y.toList))) := by
      intro w x y
      simp only [String.toList_append, List.append_assoc]
    have htext : (referenceText (some t)).toList = _ := hsplit _ _ _
    rw [htext]
    exact ⟨hall, rfl⟩

/-- The text of a column has the tokens of the column. -/
theorem tokens?_column {c : ColumnSpec} (hc : c.Readable) :
    tokens? c.text.toList = some c.tokens := by
  have htype := tokens?_append_append " ".toList [] (tokens?_quoted hc.name) (by decide)
    (by decide) hc.declared
  have hprimary : tokens? (if c.primaryKey then " PRIMARY KEY" else "").toList =
      some (if c.primaryKey then [.keyword .PRIMARY, .keyword .KEY] else []) ∧
      follows (if c.primaryKey then " PRIMARY KEY" else "").toList = true := by
    cases c.primaryKey <;> decide
  have hcounting : tokens? (if c.autoincrement then " AUTOINCREMENT" else "").toList =
      some (if c.autoincrement then [.keyword .AUTOINCREMENT] else []) ∧
      follows (if c.autoincrement then " AUTOINCREMENT" else "").toList = true := by
    cases c.autoincrement <;> decide
  have hnull : tokens? (if c.notNull then " NOT NULL" else "").toList =
      some (if c.notNull then [.keyword .NOT, .keyword .NULL] else []) ∧
      follows (if c.notNull then " NOT NULL" else "").toList = true := by
    cases c.notNull <;> decide
  have hreferences := tokens?_reference hc.references
  -- Every part ends at a token, so the parts can be read one after another.
  have hall := tokens?_append (tokens?_append (tokens?_append
    (tokens?_append htype hprimary.1 hprimary.2) hcounting.1 hcounting.2) hnull.1 hnull.2)
    hreferences.1 hreferences.2
  have htext : c.text = quoted c.name ++ " " ++ c.declared ++
    (if c.primaryKey then " PRIMARY KEY" else "") ++
    (if c.autoincrement then " AUTOINCREMENT" else "") ++
    (if c.notNull then " NOT NULL" else "") ++ referenceText c.references := rfl
  rw [htext]
  simp only [String.toList_append, List.append_assoc] at hall ⊢
  rw [hall]
  rfl

/-- The texts of columns that follow another one. -/
theorem tokens?_further {cs : List ColumnSpec} (hcs : ∀ c ∈ cs, c.Readable) :
    tokens? (cs.flatMap fun c => ", ".toList ++ c.text.toList) = some (furtherTokens cs) ∧
      follows (cs.flatMap fun c => ", ".toList ++ c.text.toList) = true := by
  induction cs with
  | nil => decide
  | cons c cs ih =>
    rw [List.forall_mem_cons] at hcs
    obtain ⟨htokens, hfollows⟩ := ih hcs.2
    have hfirst := tokens?_append (tokens?_column hcs.1) htokens hfollows
    have hall := tokens?_append_of_between ", ".toList [.comma] (by decide) hfirst
    rw [List.flatMap_cons, List.append_assoc]
    refine ⟨?_, rfl⟩
    rw [hall]
    simp [furtherTokens]

theorem toList_commaSeparated (part : String) (parts : List String) :
    (commaSeparated (part :: parts)).toList =
      part.toList ++ parts.flatMap fun p => ", ".toList ++ p.toList := by
  rw [commaSeparated, String.toList_intercalate, List.map_cons]
  induction parts generalizing part with
  | nil => simp [List.intercalate]
  | cons p parts ih =>
    have hrest := ih p
    simp only [List.intercalate] at hrest ⊢
    rw [List.map_cons, List.intersperse_cons_cons, List.flatten_cons, List.flatten_cons, hrest]
    simp

theorem tokens?_closing : tokens? ")".toList = some [.closing] := by
  decide

/-- The definition of a table reads as its tokens. -/
theorem tokens?_table {ifAbsent : Bool} {n : String} {c : ColumnSpec} {cs : List ColumnSpec}
    (hn : Plain n) (hcs : ∀ d ∈ c :: cs, d.Readable) :
    tokens? (Definition.table ⟨ifAbsent, n, c :: cs⟩).text.toList =
      some (Definition.table ⟨ifAbsent, n, c :: cs⟩).tokens := by
  rw [List.forall_mem_cons] at hcs
  obtain ⟨hfurther, hfollows⟩ := tokens?_further hcs.2
  have hcolumns := tokens?_append (tokens?_append (tokens?_column hcs.1) hfurther hfollows)
    tokens?_closing rfl
  have hbody := tokens?_append_append " (".toList [.opening] (tokens?_quoted hn) (by decide)
    (by decide) hcolumns
  have hhead : Scan.run .between ("CREATE TABLE " ++
      if ifAbsent then "IF NOT EXISTS " else "").toList =
        some ([.keyword .CREATE, .keyword .TABLE] ++
          (if ifAbsent then [.keyword .IF, .keyword .NOT, .keyword .EXISTS] else []),
          .between) := by
    cases ifAbsent <;> decide
  have hall := tokens?_append_of_between _ _ hhead hbody
  have hsplit : ∀ w x y z : String, (w ++ quoted n ++ x ++ y ++ z).toList =
      w.toList ++ ((quoted n).toList ++ (x.toList ++ (y.toList ++ z.toList))) := by
    intro w x y z
    simp only [String.toList_append, List.append_assoc]
  have htext : (Definition.table ⟨ifAbsent, n, c :: cs⟩).text.toList = _ := hsplit _ _ _ _
  rw [htext, List.map_cons, toList_commaSeparated, List.flatMap_map, hall]
  simp [Definition.tokens]

/-- The definition of an index reads as its tokens. -/
theorem tokens?_index {i t c : String} (hi : Plain i) (ht : Plain t) (hc : Plain c) :
    tokens? (Definition.index ⟨i, t, c⟩).text.toList =
      some (Definition.index ⟨i, t, c⟩).tokens := by
  have hcolumn := tokens?_append (tokens?_quoted hc) tokens?_closing rfl
  have htable := tokens?_append_append " (".toList [.opening] (tokens?_quoted ht) (by decide)
    (by decide) hcolumn
  have hindex := tokens?_append_append " ON ".toList [.keyword .ON] (tokens?_quoted hi)
    (by decide) (by decide) htable
  have hall := tokens?_append_of_between "CREATE INDEX IF NOT EXISTS ".toList
    [.keyword .CREATE, .keyword .INDEX, .keyword .IF, .keyword .NOT, .keyword .EXISTS]
    (by decide) hindex
  have hsplit : ∀ w x y z : String,
      (w ++ quoted i ++ x ++ quoted t ++ y ++ quoted c ++ z).toList = w.toList ++
        ((quoted i).toList ++ (x.toList ++ ((quoted t).toList ++ (y.toList ++
          ((quoted c).toList ++ z.toList))))) := by
    intro w x y z
    simp only [String.toList_append, List.append_assoc]
  exact (congrArg tokens? (hsplit _ _ _ _)).trans hall

/-- The text of a definition has the tokens of the definition. -/
theorem tokens?_definition {d : Definition} (hd : d.Readable) :
    tokens? d.text.toList = some d.tokens := by
  cases hd with
  | table hn hcs => exact tokens?_table hn hcs
  | index hi ht hc => exact tokens?_index hi ht hc

/-! ## Whole statements -/

/-- The tokens of a definition make up the definition and nothing else. -/
theorem definition?_tokens {d : Definition} (hd : d.Readable) : definition? d.tokens = some d := by
  cases hd with
  | @table ifAbsent n c cs hn hcs =>
    have hcolumns := columns?_tokens (fun e he => (hcs e he).autoincrement) [] []
    have htable : ∀ b, table? b (.name n :: .opening :: (c.tokens ++ furtherTokens cs ++
        [.closing])) = some (.table ⟨b, n, c :: cs⟩) := by
      intro b
      simp only [table?, ColumnSpec.tokens, List.cons_append, List.append_assoc, hcolumns,
        List.nil_append]
    cases ifAbsent with
    | true => exact htable true
    | false => exact htable false
  | index => rfl

theorem semicolon_notMem_constraints (c : ColumnSpec) : .semicolon ∉ c.constraints := by
  rcases c with ⟨name, declared, primaryKey, autoincrement, notNull, references⟩
  cases primaryKey <;> cases autoincrement <;> cases notNull <;> cases references <;>
    simp [ColumnSpec.constraints, referenceTokens]

/-- No token of a definition ends a statement. -/
theorem semicolon_notMem_tokens (d : Definition) : .semicolon ∉ d.tokens := by
  cases d with
  | table d =>
    rcases d with ⟨ifAbsent, n, columns⟩
    have hcolumn : ∀ c : ColumnSpec, .semicolon ∉ c.tokens := by
      intro c
      simp [ColumnSpec.tokens, semicolon_notMem_constraints]
    cases columns <;> cases ifAbsent <;> simp [Definition.tokens, furtherTokens, hcolumn]
  | index d => simp [Definition.tokens]

/-- Tokens without a semicolon are one statement. -/
theorem statements_of_notMem {s : List Token} (hs : .semicolon ∉ s) : statements s = [s] := by
  induction s with
  | nil => rfl
  | cons t s ih =>
    rw [List.mem_cons, not_or] at hs
    rw [statements, ih hs.2]
    exact fun h => hs.1 h.symm

/-- A statement ends at the first semicolon. -/
theorem statements_append {s : List Token} (hs : .semicolon ∉ s) (rest : List Token) :
    statements (s ++ .semicolon :: rest) = s :: statements rest := by
  induction s with
  | nil => rfl
  | cons t s ih =>
    rw [List.mem_cons, not_or] at hs
    rw [List.cons_append, statements, ih hs.2]
    exact fun h => hs.1 h.symm

theorem tokens_ne_nil (d : Definition) : d.tokens.isEmpty = false := by
  cases d <;> rfl

/-! ## Scripts -/

/-- The text of a definition is one statement, and it reads as the definition. -/
theorem script?_text {d : Definition} (hd : d.Readable) : script? d.text = some [d] := by
  rw [script?, tokens?_definition hd, Option.bind_some,
    statements_of_notMem (semicolon_notMem_tokens d), List.filter_cons, tokens_ne_nil]
  simp [definition?_tokens hd]

/-- A script reads as its definitions, each with a semicolon behind it. -/
theorem tokens?_script {ds : List Definition} (hds : ∀ d ∈ ds, d.Readable) :
    tokens? (ds.flatMap fun d => d.text.toList ++ ";\n".toList) =
      some (ds.flatMap fun d => d.tokens ++ [.semicolon]) := by
  induction ds with
  | nil => rfl
  | cons d ds ih =>
    rw [List.forall_mem_cons] at hds
    rw [List.flatMap_cons, List.append_assoc, List.flatMap_cons, List.append_assoc]
    exact tokens?_append_append ";\n".toList [.semicolon] (tokens?_definition hds.1) (by decide)
      (by decide) (ih hds.2)

/-- Cut at its semicolons, a script falls into its definitions. -/
theorem filter_statements (ds : List Definition) :
    (statements (ds.flatMap fun d => d.tokens ++ [.semicolon])).filter (fun s => !s.isEmpty) =
      ds.map Definition.tokens := by
  induction ds with
  | nil => rfl
  | cons d ds ih =>
    rw [List.flatMap_cons, List.append_assoc, List.singleton_append,
      statements_append (semicolon_notMem_tokens d), List.filter_cons, tokens_ne_nil, ih]
    rfl

/-- Every statement of a script is read back as the definition it came from. -/
theorem mapM_tokens {ds : List Definition} (hds : ∀ d ∈ ds, d.Readable) :
    (ds.map Definition.tokens).mapM definition? = some ds := by
  induction ds with
  | nil => rfl
  | cons d ds ih =>
    rw [List.forall_mem_cons] at hds
    rw [List.map_cons, List.mapM_cons, definition?_tokens hds.1, ih hds.2]
    rfl

/-- The texts of definitions, each ended by a semicolon, read as those definitions in order. -/
theorem script?_join {ds : List Definition} (hds : ∀ d ∈ ds, d.Readable) :
    script? (String.join (ds.map fun d => d.text ++ ";\n")) = some ds := by
  have htext : (String.join (ds.map fun d => d.text ++ ";\n")).toList =
      ds.flatMap fun d => d.text.toList ++ ";\n".toList := by
    simp only [String.toList_join, List.flatMap_map, String.toList_append]
  rw [script?, htext, tokens?_script hds, Option.bind_some, filter_statements, mapM_tokens hds]

end Sql
end Espalier
