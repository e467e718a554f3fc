import Espalier.Proofs.Store.Atomicity
import Espalier.Proofs.Store.Completing
import Espalier.Proofs.Store.Growing
import Espalier.Proofs.Store.Numbering
import Mathlib.Data.List.Induction

/-!
# Runs from an empty database

A step does one of three things: it leaves all rows and counters alone, it puts in one document, or
it takes rows away.  `effect_step` says so once, and what every step keeps is read off the three
cases: a database stays tended, its tables stay complete, and no step gives an id twice or touches
the rows of a document but to delete them.  So the same is true of every run that starts from an
empty database.
-/

namespace Espalier
namespace Store

open Database (Action Reachable Row)

theorem reads_get (s : Store) (id : Int64) : (s.get id).Reads :=
  s.plan.reads_growTree id

theorem reads_list (s : Store) (w : Window) : (s.list w).Reads := by
  refine ((Action.reads_select _ _).reporting _).bind fun rows => ?_
  cases rows.mapM s.plan.main.decodeMain with
  | ok items => exact Action.reads_pure _
  | error cause => exact Action.reads_throw _

/-! ## Steps as statements -/

/-- Writings lead from reachable databases to reachable ones. -/
theorem reachable_written {p q : Progress} {ws : List Writing} (h : Written p ws q)
    (hp : Reachable p.db) : Reachable q.db := by
  induction h with
  | nil => exact hp
  | cons hw _ ih =>
    rcases Writing.write_eq_ok.1 hw with ⟨cells, n, -, hinsert, -⟩
    exact ih (hp.insert hinsert)

/-- A step sends statements and does nothing else. -/
theorem reachable_step (s : Store) {db : Database} (h : Reachable db) (a : Step) :
    Reachable (s.step db a).2 := by
  cases a with
  | provision => exact s.reachable_provision h
  | verify => exact h
  | insert tree =>
    rw [step]
    cases hinsert : (s.insert tree).result db with
    | error f =>
      rw [after_insert_of_error hinsert]
      exact h
    | ok id =>
      have hrun : (s.insert tree).run db = (.ok id, (s.insert tree).after db) :=
        Prod.ext hinsert rfl
      exact reachable_written (((s.run_insert tree db).1 _ _).1 hrun) h
  | get id =>
    have hafter : (s.step db (.get id)).2 = db := s.reads_get id db
    rw [hafter]
    exact h
  | list w =>
    have hafter : (s.step db (.list w)).2 = db := s.reads_list w db
    rw [hafter]
    exact h
  | delete table id =>
    rw [step, deleteRows, Action.after_eq]
    exact Action.change_keeps (p := Reachable) (fun _ _ hdelete => h.delete hdelete) h

/-- Steps of a store lead from reachable databases to reachable ones. -/
theorem reachable_reached (s : Store) {db : Database} (h : Reachable db) (steps : List Step) :
    Reachable (s.reached db steps) := by
  induction steps generalizing db with
  | nil => exact h
  | cons a steps ih => exact ih (s.reachable_step h a)

/-! ## What a step does -/

/-- What a step does to a database, with the document that it puts in. -/
inductive Effect (s : Store) (db : Database) (a : Step) :
    Option (Int64 × Tree) → Database → Prop where
  | idle {db' : Database} : s.schema.Defines db db' →
      (s.schema.Complete db → s.schema.Complete db') → Effect s db a none db'
  | grew {db' : Database} {entries : Entries Tree} {id : Int64} {xs : List (String × Row)} :
      s.schema.Tended db' → s.schema.Grew entries id db db' → Schema.Sown db xs db' →
      Effect s db a (some (id, .map entries)) db'
  | thinned {db' : Database} : a.deletes = true → Schema.Thins db db' → Effect s db a none db'

theorem Effect.refl (s : Store) (db : Database) (a : Step) : s.Effect db a none db :=
  .idle (.refl _ db) fun h => h

/-- A provision adds tables at most, and if it succeeds all of them are there. -/
theorem defines_provision (s : Store) (db : Database) :
    s.schema.Defines db (s.provision.after db) ∧
      (s.provision.result db = .ok () → s.schema.Furnished (s.provision.after db)) := by
  rcases s.run_provision db with ⟨hgood, hbad⟩
  by_cases hvacant : s.schema.Vacant s.schema.tables db
  · rw [Action.after_eq, Action.result_eq, hgood hvacant]
    exact ⟨.completed s.schema_sound db, fun _ u hu => Schema.isSome_table?_completed hu⟩
  · rcases hbad hvacant with ⟨n, hn⟩
    rw [Action.after_eq, Action.result_eq, hn]
    refine ⟨.refl _ db, ?_⟩
    intro h
    cases h

/-- A provision is a step that returns no document. -/
theorem effect_provision (s : Store) (db : Database) (a : Step) :
    s.Effect db a none (s.provision.after db) := by
  rcases s.defines_provision db with ⟨hdefines, hfurnished⟩
  cases hresult : s.provision.result db with
  | ok _ => exact .idle hdefines fun _ _ => hfurnished hresult
  | error f =>
    have hafter : s.provision.after db = db :=
      Action.after_transaction_of_error ((Action.result_transaction _ db).symm.trans hresult)
    rw [hafter]
    exact .refl s db a

/-- An insertion that succeeds puts in a mapping, row by row. -/
theorem grew_of_insert {s : Store} {db : Database} (h : s.schema.Tended db) {tree : Tree}
    {id : Int64} (hinsert : (s.insert tree).result db = .ok id) :
    ∃ entries xs, tree = .map entries ∧ s.schema.Tended ((s.insert tree).after db) ∧
      s.schema.Grew entries id db ((s.insert tree).after db) ∧
      Schema.Sown db xs ((s.insert tree).after db) := by
  have hrun : (s.insert tree).run db = (.ok id, (s.insert tree).after db) := Prod.ext hinsert rfl
  have hwritten := ((s.run_insert tree db).1 _ _).1 hrun
  rcases h.written hwritten with ⟨htended, entries, rfl, hgrew⟩
  rw [s.plan_eq, Plan.writings_map] at hwritten
  obtain ⟨_, _, xs, -, -, hsown, -⟩ :=
    h.sown_document s.schema_sound (fun w hw => List.mem_flatMap.1 hw) hwritten
  exact ⟨entries, _, rfl, htended, hgrew, hsown⟩

/-- Every step has one of the effects that steps can have. -/
theorem effect_step {s : Store} {db : Database} (h : s.schema.Tended db) (a : Step) :
    s.Effect db a (a.inserted? (s.step db a).1) (s.step db a).2 := by
  -- Only a provision, an insertion that succeeds and a deletion change anything.
  cases a with
  | provision => exact s.effect_provision db _
  | verify => exact .refl s db _
  | insert tree =>
    rw [step]
    cases hinsert : (s.insert tree).result db with
    | error f =>
      rw [after_insert_of_error hinsert]
      exact .refl s db _
    | ok id =>
      rcases grew_of_insert h hinsert with ⟨entries, xs, rfl, htended, hgrew, hsown⟩
      exact .grew htended hgrew hsown
  | get id =>
    have hafter : (s.step db (.get id)).2 = db := s.reads_get id db
    rw [hafter]
    exact .refl s db _
  | list w =>
    have hafter : (s.step db (.list w)).2 = db := s.reads_list w db
    rw [hafter]
    exact .refl s db _
  | delete table id =>
    rw [step, deleteRows, Action.after_eq, Action.delete, Action.run_change]
    cases hdelete : db.delete ⟨table, idColumn⟩ (.int id) with
    | error f => exact .refl s db _
    | ok x => exact .thinned rfl (.delete hdelete)

/-! ## What every step keeps -/

/-- A step keeps the database tended and complete, and leaves alone what was there. -/
structure Keeps (s : Store) (db db' : Database) : Prop where
  tended : s.schema.Tended db'
  complete : s.schema.Complete db'
  follows : s.schema.Follows db db'

theorem Keeps.refl {s : Store} {db : Database} (h : s.schema.Tended db)
    (hc : s.schema.Complete db) : s.Keeps db db :=
  ⟨h, hc, .refl _ db⟩

section Effect

variable {s : Store} {db db' : Database} {a : Step} {doc : Option (Int64 × Tree)}

/-- A database stays tended and complete in every effect. -/
theorem Effect.keeps (heffect : s.Effect db a doc db') (h : s.schema.Tended db)
    (hc : s.schema.Complete db) : s.Keeps db db' := by
  cases heffect with
  | idle hdefines hcomplete =>
    exact ⟨hdefines.tended h, hcomplete hc, .of_eq hdefines.rows hdefines.counter⟩
  | grew htended hgrew _ => exact ⟨htended, hc.of_eq hgrew.tables, hgrew.follows⟩
  | thinned _ hthins => exact ⟨hthins.tended h, hc.of_eq hthins.isSome_table?, hthins.follows⟩

/-- No step removes a table. -/
theorem Effect.isSome_table? (heffect : s.Effect db a doc db') {name : String}
    (hsome : (db.table? name).isSome = true) : (db'.table? name).isSome = true := by
  cases heffect with
  | idle hdefines _ => exact hdefines.kept name hsome
  | grew _ hgrew _ => exact (hgrew.tables name).trans hsome
  | thinned _ hthins => exact (hthins.isSome_table? name).trans hsome

/-- No step makes a table under a name that is not the schema's. -/
theorem Effect.table?_eq_none (heffect : s.Effect db a doc db') {name : String}
    (hforeign : ∀ u ∈ s.schema.tables, Ascii.fold u.1 ≠ Ascii.fold name)
    (hnone : db.table? name = none) : db'.table? name = none := by
  rw [← Option.not_isSome_iff_eq_none] at hnone ⊢
  cases heffect with
  | idle hdefines _ => rwa [hdefines.own name hforeign]
  | grew _ hgrew _ => rwa [hgrew.tables name]
  | thinned _ hthins => rwa [hthins.isSome_table? name]

end Effect

/-! ## Whole runs -/

/-- A database stays tended and complete along every run. -/
theorem keeps_reached {s : Store} {db : Database} (h : s.schema.Tended db)
    (hc : s.schema.Complete db) (steps : List Step) : s.Keeps db (s.reached db steps) := by
  -- Each step hands its invariants to the next one.
  induction steps generalizing db with
  | nil => exact .refl h hc
  | cons a steps ih =>
    rcases (effect_step h a).keeps h hc with ⟨htended, hcomplete, hfollows⟩
    rcases ih htended hcomplete with ⟨htended', hcomplete', hfollows'⟩
    exact ⟨htended', hcomplete', hfollows.trans hfollows'⟩

/-- Tables that are there stay, whatever a store does. -/
theorem isSome_table?_of_run {s : Store} {db : Database} (h : s.schema.Tended db)
    (hc : s.schema.Complete db) (steps : List Step) {name : String}
    (hsome : (db.table? name).isSome = true) :
    ((s.reached db steps).table? name).isSome = true := by
  induction steps generalizing db with
  | nil => exact hsome
  | cons a steps ih =>
    have heffect := effect_step h a
    rcases heffect.keeps h hc with ⟨htended, hcomplete, -⟩
    exact ih htended hcomplete (heffect.isSome_table? hsome)

section Runs

variable (s : Store) (checked : Bool) (steps : List Step)

/-- Whatever a store does from an empty database on, the database stays tended and complete. -/
theorem keeps_reached_empty : s.Keeps { checked } (s.reached { checked } steps) :=
  keeps_reached (s.schema.tended_empty checked) (s.schema.complete_empty checked) steps

/-- The effect of one more step. -/
theorem effect_reached (a : Step) :
    ∃ doc, s.Effect (s.reached { checked } steps) a doc (s.reached { checked } (steps ++ [a])) ∧
      s.inserted { checked } (steps ++ [a]) = s.inserted { checked } steps ++ doc.toList := by
  rw [reached_concat, inserted_concat]
  exact ⟨_, effect_step (s.keeps_reached_empty checked steps).tended a, rfl⟩

/-- Tables that are there stay. -/
theorem isSome_table?_reached {name : String} (later : List Step)
    (hsome : ((s.reached { checked } steps).table? name).isSome = true) :
    ((s.reached { checked } (steps ++ later)).table? name).isSome = true := by
  rcases s.keeps_reached_empty checked steps with ⟨htended, hcomplete, -⟩
  rw [reached_append]
  exact isSome_table?_of_run htended hcomplete later hsome

/-- A store makes no tables but those of its schema. -/
theorem table?_reached_eq_none {name : String}
    (hforeign : ∀ u ∈ s.schema.tables, Ascii.fold u.1 ≠ Ascii.fold name) :
    (s.reached { checked } steps).table? name = none := by
  -- Induction over the run from its end, so that the effect of the last step is known.
  induction steps using List.reverseRecOn with
  | nil => rfl
  | append_singleton steps a ih =>
    rcases s.effect_reached checked steps a with ⟨doc, heffect, -⟩
    exact heffect.table?_eq_none hforeign ih

/-- After a provision that succeeded every table is there, whatever came later. -/
theorem furnished_reached (later : List Step)
    (hprovision : s.provision.result (s.reached { checked } steps) = .ok ()) :
    s.schema.Furnished (s.reached { checked } (steps ++ .provision :: later)) := by
  intro u hu
  rw [← List.singleton_append, ← List.append_assoc]
  refine s.isSome_table?_reached checked _ later ?_
  rw [reached_concat]
  exact (s.defines_provision _).2 hprovision u hu

end Runs

end Store
end Espalier
