import Espalier.Proofs.Schema.Documents
import Espalier.Proofs.Settings.Notations
import Espalier.Proofs.Text.Letters
import Espalier.Proofs.Time.Durations

/-!
# Settings of a database written and read again

What is written of the settings of a database is read as the same settings, in every notation that
shows the tree.  The names of a journal mode and of a level may stand in any case of letters there;
with any other name in their place nothing is read.
-/

namespace Espalier

open Document

/-! ## Names of choices -/

/-- The choices of a setting are written in capitals and read in any case of letters, and any other
name is an error that shows it and the choices. -/
structure NamedBy {α : Type} (name : α → String) (ofName : String → Except PragmaError α)
    (key : String) (choices : List α) : Prop where
  complete : ∀ m, m ∈ choices
  raised : ∀ m, Ascii.raise (name m) = name m
  ok : ∀ given m, ofName given = .ok m ↔ Ascii.fold given = Ascii.fold (name m)
  error : ∀ given, (∀ m, Ascii.fold given ≠ Ascii.fold (name m)) →
    ofName given = .error ⟨key, choices.map name, given⟩

section

variable {α : Type} {name : α → String} {ofName : String → Except PragmaError α} {key : String}
  {choices : List α}

/-- Names in capitals, no two of them alike, can be looked up in any case. -/
theorem namedBy_of_find?
    (hfind : ∀ given, ofName given =
      match choices.find? fun m => name m = Ascii.raise given with
      | some m => .ok m
      | none => .error ⟨key, choices.map name, given⟩)
    (hcomplete : ∀ m, m ∈ choices) (hraised : ∀ m, Ascii.raise (name m) = name m)
    (hinjective : Function.Injective name) : NamedBy name ofName key choices := by
  have hsame : ∀ given m, name m = Ascii.raise given ↔ Ascii.fold given = Ascii.fold (name m) := by
    intro given m
    rw [← Ascii.raise_eq_raise_iff, hraised, eq_comm]
  -- Names are distinct, so the first choice of a name is the only one.
  have hfound : ∀ given m, choices.find? (fun m => name m = Ascii.raise given) = some m ↔
      name m = Ascii.raise given := by
    intro given m
    constructor
    · intro h
      simpa using List.find?_some h
    · intro h
      cases hother : choices.find? fun m => name m = Ascii.raise given with
      | none => exact absurd h (by simpa using List.find?_eq_none.1 hother m (hcomplete m))
      | some other =>
        have hname : name other = Ascii.raise given := by simpa using List.find?_some hother
        rw [hinjective (hname.trans h.symm)]
  refine ⟨hcomplete, hraised, fun given m => ?_, fun given hother => ?_⟩
  · rw [← hsame, ← hfound, hfind]
    cases choices.find? fun m => name m = Ascii.raise given <;> simp
  · have hnone : choices.find? (fun m => name m = Ascii.raise given) = none := by
      rw [Option.eq_none_iff_forall_ne_some]
      intro m hm
      exact hother m ((hsame given m).1 ((hfound given m).1 hm))
    rw [hfind, hnone]

/-- A name that may be absent is read as a choice that may be absent. -/
theorem NamedBy.mapM_eq_some (h : NamedBy name ofName key choices) {given : Option String}
    {m : Option α} :
    given.mapM (fun word => (ofName word).toOption) = some m ↔
      given.map Ascii.fold = m.map fun m => Ascii.fold (name m) := by
  have hok : ∀ word m, (ofName word).toOption = some m ↔ Ascii.fold word = Ascii.fold (name m) := by
    intro word m
    rw [← h.ok]
    cases ofName word <;> simp [Except.toOption]
  cases given with
  | none => cases m <;> simp
  | some word =>
    cases m with
    | none => simp
    | some m => simp [hok]

end

theorem JournalMode.namedBy : NamedBy name ofName "journal_mode" all := by
  refine namedBy_of_find? (fun given => ?_) (fun m => ?_) (fun m => ?_) fun a b => ?_
  · rw [ofName]
    split <;> rename_i hfind <;> simp only [hfind]
  · cases m <;> decide
  · cases m <;> decide
  · cases a <;> cases b <;> decide

theorem Synchronous.namedBy : NamedBy name ofName "synchronous" all := by
  refine namedBy_of_find? (fun given => ?_) (fun m => ?_) (fun m => ?_) fun a b => ?_
  · rw [ofName]
    split <;> rename_i hfind <;> simp only [hfind]
  · cases m <;> decide
  · cases m <;> decide
  · cases a <;> cases b <;> decide

/-! ## Members -/

section

variable {δ : Type} [Document δ]

theorem uint32?_toNat (n : UInt32) : uint32? n.toNat = some n := by
  simp [uint32?]

theorem toInt_ofCount (n : UInt32) : (Int64.ofNat n.toNat).toInt = n.toNat := by
  have hsize : UInt32.size ≤ 2 ^ 63 := by decide
  exact Int64.toInt_ofNat_of_lt (n.toNat_lt_size.trans_le hsize)

theorem flag?_of_shows (b : Bool) (d : δ) (h : Shows (.bool b) d) : flag? d = some b :=
  h

theorem text?_of_shows (s : String) (d : δ) (h : Shows (.text s) d) : text? d = some s :=
  h.2

/-- A count is read from what shows it, and is not taken for nothing. -/
theorem count?_of_shows (n : UInt32) (d : δ) (h : Shows (Tree.ofCount n) d) :
    isNull d = false ∧ count? d = some n := by
  refine ⟨h.1, ?_⟩
  rw [h.2, toInt_ofCount, uint32?_toNat]

/-- A duration is read from what shows its text. -/
theorem Duration.read?_of_shows (x : Duration) (d : δ) (h : Shows (Tree.ofDuration x) d) :
    isNull d = false ∧ Duration.read? d = some x := by
  refine ⟨h.1, ?_⟩
  rw [Duration.read?, h.2, Option.bind_some, ofText?_text]

/-- The settings of a pool are read from what shows them. -/
theorem PoolSettings.read?_of_shows (p : PoolSettings) (d : δ) (h : Shows p.toTree d) :
    PoolSettings.read? d = some p := by
  obtain ⟨members, hmembers, hshows⟩ := h.exists_members?
    ["max_conns", "min_conns", "acquire_timeout", "idle_timeout", "max_lifetime",
      "test_before_acquire"] (by decide) (List.Sublist.refl _)
  have hmax : optional? none (nullable? count?) members "max_conns" = some p.maxConnections :=
    optional?_of_shows hshows none rfl (nullable?_of_shows _ count?_of_shows)
  have hmin : optional? none (nullable? count?) members "min_conns" = some p.minConnections :=
    optional?_of_shows hshows none rfl (nullable?_of_shows _ count?_of_shows)
  have hacquire : optional? none (nullable? Duration.read?) members "acquire_timeout" =
      some p.acquireTimeout :=
    optional?_of_shows hshows none rfl (nullable?_of_shows _ Duration.read?_of_shows)
  have hidle : optional? none (nullable? Duration.read?) members "idle_timeout" =
      some p.idleTimeout :=
    optional?_of_shows hshows none rfl (nullable?_of_shows _ Duration.read?_of_shows)
  have hlifetime : optional? none (nullable? Duration.read?) members "max_lifetime" =
      some p.maxLifetime :=
    optional?_of_shows hshows none rfl (nullable?_of_shows _ Duration.read?_of_shows)
  have htest : optional? false flag? members "test_before_acquire" = some p.testBeforeAcquire :=
    optional?_of_shows hshows false rfl (flag?_of_shows _)
  rw [PoolSettings.read?, hmembers]
  simp only [Option.bind_eq_bind, Option.bind_some, hmax, hmin, hacquire, hidle, hlifetime, htest]
  rfl

/-- The tree of the settings with names in place of those of the journal mode and the level. -/
def DatabaseSettings.spelled (s : DatabaseSettings) (journal level : Option String) : Tree :=
  .map
    ([("dsn", .text s.dsn), ("create_if_missing", .bool s.createIfMissing),
        ("foreign_keys", .bool s.foreignKeys), ("busy_timeout", .ofDuration s.busyTimeout)] ++
      (journal.toList.map fun name => ("journal_mode", .text name)) ++
      (level.toList.map fun name => ("synchronous", .text name)) ++
      [("pool", s.pool.toTree)])

/-- With their own names in place the settings are as they are written. -/
theorem DatabaseSettings.spelled_names (s : DatabaseSettings) :
    s.spelled (s.journalMode.map JournalMode.name) (s.synchronous.map Synchronous.name) =
      s.toTree := by
  rw [spelled, toTree]
  cases s.journalMode <;> cases s.synchronous <;> rfl

/-- The settings that the names are read as, if they are. -/
def DatabaseSettings.named? (s : DatabaseSettings) (journal level : Option String) :
    Option DatabaseSettings := do
  let journalMode ← journal.mapM fun name => (JournalMode.ofName name).toOption
  let synchronous ← level.mapM fun name => (Synchronous.ofName name).toOption
  return { s with journalMode, synchronous }

/-- The names of a choice are read where they are shown, and a default where none is. -/
theorem optional?_of_names {α : Type} {entries : List (String × Tree)}
    {members : List (String × δ)} (h : ShowsEntries entries members)
    {ofName : String → Except PragmaError α} {name : String} {given : Option String}
    (hname : Entries.get? entries name = given.map .text) :
    optional? none (nullable? fun d => (text? d).bind fun word => (ofName word).toOption)
      members name = given.mapM fun word => (ofName word).toOption := by
  cases given with
  | none => exact optional?_of_absent h none hname
  | some word =>
    refine optional?_of_shows h none hname fun d hd => ?_
    rw [nullable?, hd.1, if_neg Bool.false_ne_true, hd.2]
    cases ofName word <;> rfl

/-- Settings are read from what shows them, with the choices that the names stand for. -/
theorem DatabaseSettings.read?_of_shows (s : DatabaseSettings) (journal level : Option String)
    (d : δ) (h : Shows (s.spelled journal level) d) :
    DatabaseSettings.read? d = s.named? journal level := by
  obtain ⟨members, hmembers, hshows⟩ := h.exists_members?
    ["dsn", "create_if_missing", "foreign_keys", "busy_timeout", "journal_mode",
      "synchronous", "pool"] (by decide)
    (by cases journal <;> cases level <;> exact List.isSublist_iff_sublist.1 rfl)
  have hdsn : optional? ({} : DatabaseSettings).dsn text? members "dsn" = some s.dsn :=
    optional?_of_shows hshows _ rfl (text?_of_shows _)
  have hcreate : optional? true flag? members "create_if_missing" = some s.createIfMissing :=
    optional?_of_shows hshows true rfl (flag?_of_shows _)
  have hkeys : optional? true flag? members "foreign_keys" = some s.foreignKeys :=
    optional?_of_shows hshows true rfl (flag?_of_shows _)
  have hbusy : optional? ({} : DatabaseSettings).busyTimeout Duration.read? members
      "busy_timeout" = some s.busyTimeout :=
    optional?_of_shows hshows _ rfl fun d hd => (Duration.read?_of_shows s.busyTimeout d hd).2
  -- The two modes are given by name or not at all, and the reader takes both for what they are.
  have hjournal : optional? none (nullable? JournalMode.read?) members "journal_mode" =
      journal.mapM fun name => (JournalMode.ofName name).toOption :=
    optional?_of_names hshows (by cases journal <;> cases level <;> rfl)
  have hlevel : optional? none (nullable? Synchronous.read?) members "synchronous" =
      level.mapM fun name => (Synchronous.ofName name).toOption :=
    optional?_of_names hshows (by cases journal <;> cases level <;> rfl)
  have hpool : optional? {} PoolSettings.read? members "pool" = some s.pool :=
    optional?_of_shows hshows _ (by cases journal <;> cases level <;> rfl)
      (PoolSettings.read?_of_shows s.pool)
  rw [DatabaseSettings.read?, hmembers]
  simp only [Option.bind_eq_bind, Option.bind_some, hdsn, hcreate, hkeys, hbusy, hjournal, hlevel,
    hpool, named?]

end

/-! ## Texts -/

theorem Json.plain_ofOption {α : Type} {write : α → Tree} (h : ∀ a, (Json.ofTree (write a)).Plain 0)
    (a : Option α) : (Json.ofTree (Tree.ofOption write a)).Plain 0 := by
  cases a with
  | none => exact ⟨rfl, Nat.le_refl 0⟩
  | some a => exact h a

/-- The settings of a pool are nested one level deep. -/
theorem PoolSettings.plain_toTree (p : PoolSettings) : (Json.ofTree p.toTree).Plain 1 := by
  have hcount : ∀ n, (Json.ofTree (Tree.ofCount n)).Plain 0 := fun n => ⟨rfl, Nat.le_refl 0⟩
  have hduration : ∀ x, (Json.ofTree (Tree.ofDuration x)).Plain 0 := fun x => Json.plain_text 0 _
  refine Json.plain_object ?_
  simp only [Json.ofTreeEntries, List.forall_mem_cons]
  exact ⟨Json.plain_ofOption hcount _, Json.plain_ofOption hcount _,
    Json.plain_ofOption hduration _, Json.plain_ofOption hduration _,
    Json.plain_ofOption hduration _, Json.plain_bool 0 _, nofun⟩

theorem Tree.distinct_ofOption {α : Type} {write : α → Tree} (h : ∀ a, (write a).Distinct)
    (a : Option α) : (Tree.ofOption write a).Distinct := by
  cases a with
  | none => trivial
  | some a => exact h a

theorem PoolSettings.distinct_toTree (p : PoolSettings) : p.toTree.Distinct := by
  have hcount : ∀ n, (Tree.ofCount n).Distinct := fun _ => trivial
  have hduration : ∀ x, (Tree.ofDuration x).Distinct := fun _ => trivial
  have hkeys : ["max_conns", "min_conns", "acquire_timeout", "idle_timeout", "max_lifetime",
      "test_before_acquire"].Nodup := by decide
  exact ⟨hkeys, Tree.distinct_ofOption hcount _, Tree.distinct_ofOption hcount _,
    Tree.distinct_ofOption hduration _, Tree.distinct_ofOption hduration _,
    Tree.distinct_ofOption hduration _, trivial, trivial⟩

theorem Yaml.isRecord_ofOption {α : Type} {write : α → Tree} (h : ∀ a, IsRecord (write a))
    (a : Option α) : IsRecord (Tree.ofOption write a) := by
  cases a with
  | none => trivial
  | some a => exact h a

theorem PoolSettings.isRecord_toTree (p : PoolSettings) : Yaml.IsRecord p.toTree := by
  have hcount : ∀ n, Yaml.IsRecord (Tree.ofCount n) := fun _ => trivial
  have hduration : ∀ x, Yaml.IsRecord (Tree.ofDuration x) := fun _ => trivial
  exact ⟨List.cons_ne_nil _ _, by decide, Yaml.isRecord_ofOption hcount _, by decide,
    Yaml.isRecord_ofOption hcount _, by decide, Yaml.isRecord_ofOption hduration _, by decide,
    Yaml.isRecord_ofOption hduration _, by decide, Yaml.isRecord_ofOption hduration _, by decide,
    trivial, trivial⟩

namespace DatabaseSettings

section

variable (s : DatabaseSettings) (journal level : Option String)

theorem isRecord_spelled : Yaml.IsRecord (s.spelled journal level) := by
  have hpool : Yaml.IsRecord s.pool.toTree := s.pool.isRecord_toTree
  have hlast : Yaml.AreRecords [("pool", s.pool.toTree)] := ⟨by decide, hpool, trivial⟩
  have hlevel : Yaml.AreRecords ((level.toList.map fun name => ("synchronous", Tree.text name)) ++
      [("pool", s.pool.toTree)]) := by
    cases level with
    | none => exact hlast
    | some name => exact ⟨by decide, trivial, hlast⟩
  have hjournal : Yaml.AreRecords ((journal.toList.map fun name =>
      ("journal_mode", Tree.text name)) ++ ((level.toList.map fun name =>
      ("synchronous", Tree.text name)) ++ [("pool", s.pool.toTree)])) := by
    cases journal with
    | none => exact hlevel
    | some name => exact ⟨by decide, trivial, hlevel⟩
  rw [spelled, List.append_assoc, List.append_assoc]
  exact ⟨List.cons_ne_nil _ _, by decide, trivial, by decide, trivial, by decide, trivial,
    by decide, trivial, hjournal⟩

theorem plain_spelled : (Json.ofTree (s.spelled journal level)).Plain 2 := by
  have hpool : (Json.ofTree s.pool.toTree).Plain 1 := s.pool.plain_toTree
  refine Json.plain_object ?_
  cases journal <;> cases level <;>
    simp [Json.ofTreeEntries, Json.ofTree, Json.plain_text, Json.plain_bool, Tree.ofDuration, hpool]

theorem distinct_spelled : (s.spelled journal level).Distinct := by
  have hpool : s.pool.toTree.Distinct := s.pool.distinct_toTree
  cases journal <;> cases level <;>
    simp [spelled, Tree.Distinct, Tree.EntriesDistinct, Entries.keys, Tree.ofDuration, hpool]

end

/-- What settings a tree is read as: as it is, as a JSON value, from its JSON text by the readers of
JSON and of YAML, and from the YAML text that is written of its entries. -/
structure ReadAs (t : Tree) (r : Option DatabaseSettings) : Prop where
  tree : read? t = r
  json : read? (Json.ofTree t) = r
  jsonText : (Json.read? t.jsonText).bind read? = r
  yamlText : ((Yaml.Node.read? t.jsonText).bind Yaml.Node.flattened?).bind read? = r
  blockText : ∀ entries : Entries Tree, t = .map entries →
    ((Yaml.Node.read? entries.yamlText).bind Yaml.Node.flattened?).bind read? = r

/-- Settings with names in place are read in every notation as what the names stand for. -/
theorem readAs_spelled (s : DatabaseSettings) (journal level : Option String) :
    ReadAs (s.spelled journal level) (s.named? journal level) := by
  have hread : Json.read? (s.spelled journal level).jsonText =
      some (Json.ofTree (s.spelled journal level)) :=
    (s.plain_spelled journal level).read?_compact (by decide)
  have hjson := s.read?_of_shows journal level _ (shows_json _)
  obtain ⟨node, hnode, hshows⟩ := exists_node_jsonText (s.distinct_spelled journal level) hread
  refine ⟨s.read?_of_shows journal level _ (shows_tree _), hjson, ?_, ?_, ?_⟩
  · rw [hread, Option.bind_some, hjson]
  · rw [hnode, Option.bind_some, s.read?_of_shows journal level node hshows]
  · intro entries hentries
    have hrecord := s.isRecord_spelled journal level
    have hdistinct := s.distinct_spelled journal level
    rw [hentries] at hrecord hdistinct
    obtain ⟨node, hnode, hshows⟩ := exists_node_yamlText hrecord hdistinct
    rw [← hentries] at hshows
    rw [hnode, Option.bind_some, s.read?_of_shows journal level node hshows]

/-- The names are read as the choices that they are in some case of letters, and all else is as in
the settings. -/
theorem named?_eq_some {s r : DatabaseSettings} {journal level : Option String} :
    s.named? journal level = some r ↔
      r = { s with journalMode := r.journalMode, synchronous := r.synchronous } ∧
      journal.map Ascii.fold = r.journalMode.map (fun m => Ascii.fold m.name) ∧
      level.map Ascii.fold = r.synchronous.map fun m => Ascii.fold m.name := by
  rw [← JournalMode.namedBy.mapM_eq_some, ← Synchronous.namedBy.mapM_eq_some, named?]
  simp only [Option.bind_eq_bind, Option.bind_eq_some_iff]
  constructor
  · rintro ⟨journalMode, hjournal, synchronous, hlevel, hr⟩
    obtain rfl := Option.some.inj hr
    exact ⟨rfl, hjournal, hlevel⟩
  · rintro ⟨hr, hjournal, hlevel⟩
    exact ⟨_, hjournal, _, hlevel, congrArg some hr.symm⟩

/-- The choices of settings are read from their own names. -/
theorem named?_names (s : DatabaseSettings) :
    s.named? (s.journalMode.map JournalMode.name) (s.synchronous.map Synchronous.name) =
      some s := by
  refine named?_eq_some.2 ⟨rfl, ?_, ?_⟩
  · rw [Option.map_map]
    rfl
  · rw [Option.map_map]
    rfl

/-- What is written of any settings is read as the same settings.  With other names in place of
those of the journal mode and the level, settings are read just if each is the name of a choice in
some case of letters: the same settings with those choices, whose names are written in capitals. -/
theorem restored (s : DatabaseSettings) :
    ReadAs s.toTree (some s) ∧
      (∀ journal level, ∃ r?, ReadAs (s.spelled journal level) r? ∧ ∀ r, r? = some r ↔
        r = { s with journalMode := r.journalMode, synchronous := r.synchronous } ∧
        journal.map Ascii.fold = r.journalMode.map (fun m => Ascii.fold m.name) ∧
        level.map Ascii.fold = r.synchronous.map fun m => Ascii.fold m.name) ∧
      NamedBy JournalMode.name JournalMode.ofName "journal_mode" JournalMode.all ∧
      NamedBy Synchronous.name Synchronous.ofName "synchronous" Synchronous.all := by
  refine ⟨?_, fun journal level => ⟨_, s.readAs_spelled journal level, fun r => named?_eq_some⟩,
    JournalMode.namedBy, Synchronous.namedBy⟩
  rw [← s.spelled_names, ← s.named?_names]
  exact s.readAs_spelled _ _

/-- A mode in mixed case is read, a name that is none is not. -/
theorem restored_mixed :
    ReadAs (spelled {} (some "wAl") none) (some { journalMode := some .wal }) ∧
      ReadAs (spelled {} (some "fast") (some "full")) none := by
  refine ⟨?_, ?_⟩
  · obtain ⟨r?, hread, hsome⟩ := (restored {}).2.1 (some "wAl") none
    have hr : r? = some { journalMode := some .wal } := (hsome _).2 ⟨rfl, by decide, rfl⟩
    exact hr ▸ hread
  · obtain ⟨r?, hread, hsome⟩ := (restored {}).2.1 (some "fast") (some "full")
    have hnone : r? = none := by
      rw [Option.eq_none_iff_forall_ne_some]
      intro r hr
      have hjournal := ((hsome r).1 hr).2.1
      cases hmode : r.journalMode with
      | none => rw [hmode] at hjournal; cases hjournal
      | some m =>
        rw [hmode] at hjournal
        revert hjournal
        cases m <;> decide
    exact hnone ▸ hread

end DatabaseSettings
end Espalier
