import Espalier.Database.Action
import Mathlib.Data.List.Forall2

/-!
# Sequences of fallible steps

Rules that take runs of fallible steps apart: binds and `mapM` of `Except`, and the same for actions
on a database.  An action is read as a function from a database to a result and a database, so its
rules are equations about `act db`.
-/

namespace Espalier

/-! ## Results -/

namespace Outcome

variable {ε α β : Type}

/-- A sequence succeeds if its parts do, one with the answer of the other. -/
theorem bind_eq_ok {x : Except ε α} {f : α → Except ε β} {b : β} :
    (x >>= f) = .ok b ↔ ∃ a, x = .ok a ∧ f a = .ok b := by
  cases x with
  | error e => simp [bind, Except.bind]
  | ok a => simp [bind, Except.bind]

theorem unit_bind_eq_ok {x : Except ε Unit} {f : Unit → Except ε β} {b : β} :
    (x >>= f) = .ok b ↔ x = .ok () ∧ f () = .ok b := by
  cases x with
  | error e => simp [bind, Except.bind]
  | ok a => simp [bind, Except.bind]

/-- Sequences that begin alike go on alike, each answer of one being the image of the other's. -/
theorem bind_eq_map_bind {γ : Type} {x : Except ε α} {f : α → Except ε β} {g : α → Except ε γ}
    {r : γ → β} (h : ∀ a, x = .ok a → f a = (g a).map r) : (x >>= f) = (x >>= g).map r := by
  cases x with
  | error e => rfl
  | ok a => exact h a rfl

theorem map_eq_ok {x : Except ε α} {f : α → β} {b : β} :
    x.map f = .ok b ↔ ∃ a, x = .ok a ∧ f a = b := by
  cases x with
  | error e => simp [Except.map]
  | ok a => simp [Except.map]

theorem mapError_eq_ok {δ : Type} {x : Except ε α} {f : ε → δ} {a : α} :
    x.mapError f = .ok a ↔ x = .ok a := by
  cases x with
  | error e => simp [Except.mapError]
  | ok b => simp [Except.mapError]

/-- A list is mapped when each of its elements is. -/
theorem mapM_eq_ok {f : α → Except ε β} {l : List α} {r : List β} :
    l.mapM f = .ok r ↔ List.Forall₂ (fun a b => f a = .ok b) l r := by
  induction l generalizing r with
  | nil => simp [pure, Except.pure, eq_comm]
  | cons a l ih =>
    rw [List.mapM_cons, bind_eq_ok]
    constructor
    · rintro ⟨b, hb, hrest⟩
      rcases bind_eq_ok.1 hrest with ⟨bs, hbs, hr⟩
      cases hr
      exact .cons hb (ih.1 hbs)
    · intro h
      cases h with
      | cons hb hbs => exact ⟨_, hb, bind_eq_ok.2 ⟨_, ih.2 hbs, rfl⟩⟩

theorem mapM_congr {f g : α → Except ε β} {l : List α} (h : ∀ a ∈ l, f a = g a) :
    l.mapM f = l.mapM g := by
  induction l with
  | nil => rfl
  | cons a l ih =>
    rw [List.forall_mem_cons] at h
    rw [List.mapM_cons, List.mapM_cons, h.1, ih h.2]

/-- Steps that can only answer one thing answer the image of the list. -/
theorem eq_map_of_mapM {f : α → Except ε β} {g : α → β} {l : List α} {r : List β}
    (hf : ∀ a ∈ l, ∀ b, f a = .ok b → b = g a) (h : l.mapM f = .ok r) :
    r = l.map g ∧ ∀ a ∈ l, f a = .ok (g a) := by
  have hr := mapM_eq_ok.1 h
  clear h
  induction hr with
  | nil => simp
  | @cons a b l r hab _ ih =>
    rcases ih fun c hc => hf c (List.mem_cons_of_mem a hc) with ⟨hr, hl⟩
    have hb : b = g a := hf a List.mem_cons_self b hab
    subst hr hb
    simpa using ⟨hab, hl⟩

def error? : Except ε α → Option ε
  | .ok _ => none
  | .error e => some e

theorem error?_eq_none {x : Except ε α} : error? x = none ↔ ∃ a, x = .ok a := by
  cases x <;> simp [error?]

theorem error?_eq_some {x : Except ε α} {e : ε} : error? x = some e ↔ x = .error e := by
  cases x <;> simp [error?]

/-- A result fails at its first step or at the next one. -/
theorem error?_bind (x : Except ε α) (f : α → Except ε β) :
    error? (x >>= f) = match x with
      | .error e => some e
      | .ok a => error? (f a) := by
  cases x <;> rfl

/-- A last step that cannot fail adds no error. -/
theorem error?_bind_pure (x : Except ε α) (g : α → β) :
    error? (x >>= fun a => pure (g a)) = error? x := by
  cases x <;> rfl

/-- Steps that all succeed answer the image of the list. -/
theorem mapM_eq_map {f : α → Except ε β} {g : α → β} {l : List α} (h : ∀ a ∈ l, f a = .ok (g a)) :
    l.mapM f = .ok (l.map g) := by
  rw [mapM_eq_ok, List.forall₂_map_right_iff, List.forall₂_same]
  exact h

/-- Steps over a list fail with the first error among them. -/
theorem error?_mapM (f : α → Except ε β) (l : List α) :
    error? (l.mapM f) = l.findSome? fun a => error? (f a) := by
  induction l with
  | nil => rfl
  | cons a l ih =>
    rw [List.mapM_cons, List.findSome?_cons, ← ih]
    cases f a with
    | error e => rfl
    | ok b => cases l.mapM f <;> rfl

/-- Steps over a list fail only with an error of one of them. -/
theorem exists_of_mapM_eq_error {f : α → Except ε β} {l : List α} {e : ε}
    (h : l.mapM f = .error e) : ∃ a ∈ l, f a = .error e := by
  rw [← error?_eq_some, error?_mapM, List.findSome?_eq_some_iff] at h
  rcases h with ⟨before, a, after, rfl, ha, -⟩
  exact ⟨a, List.mem_append_right _ List.mem_cons_self, error?_eq_some.1 ha⟩

/-- Steps without answers fail with the first error among them. -/
theorem error?_forM (f : α → Except ε Unit) (l : List α) :
    error? (l.forM f) = l.findSome? fun a => error? (f a) := by
  induction l with
  | nil => rfl
  | cons a l ih =>
    rw [List.forM_eq_forM] at ih ⊢
    rw [List.forM_cons, List.findSome?_cons, ← ih]
    cases f a <;> rfl

end Outcome

/-! ## Actions -/

namespace Database
namespace Action

variable {ε δ α β : Type}

/-- The result of an action together with the database that it leaves. -/
def run (act : Action ε α) (db : Database) : Except ε α × Database :=
  act db

theorem result_eq (act : Action ε α) (db : Database) : act.result db = (act.run db).1 :=
  rfl

theorem after_eq (act : Action ε α) (db : Database) : act.after db = (act.run db).2 :=
  rfl

/-- A run is a result together with a database. -/
theorem run_eq (act : Action ε α) (db : Database) : act.run db = (act.result db, act.after db) :=
  rfl

/-- The rest of a sequence runs in the database that its first part leaves, unless that fails. -/
theorem run_bind (act : Action ε α) (f : α → Action ε β) (db : Database) :
    (act >>= f).run db =
      match act.run db with
      | (.ok a, db') => (f a).run db'
      | (.error e, db') => (.error e, db') := by
  -- Both layers of the monad unfold to one look at the pair that `act` answers.
  have hbind : (act >>= f).run db = ExceptT.bindCont f (act db).1 (act db).2 := rfl
  rcases h : act.run db with ⟨e | a, db'⟩
  · have h' : act db = (.error e, db') := h
    rw [hbind, h']
    rfl
  · have h' : act db = (.ok a, db') := h
    rw [hbind, h']
    rfl

/-- A sequence succeeds if its parts do, each in the database of the one before. -/
theorem bind_eq_ok {act : Action ε α} {f : α → Action ε β} {db db'' : Database} {b : β} :
    (act >>= f).run db = (.ok b, db'') ↔
      ∃ a db', act.run db = (.ok a, db') ∧ (f a).run db' = (.ok b, db'') := by
  rw [run_bind]
  rcases h : act.run db with ⟨e | a, db'⟩ <;> simp

theorem run_reporting (act : Action δ α) (report : δ → ε) (db : Database) :
    (act.reporting report).run db = ((act.run db).1.mapError report, (act.run db).2) := by
  rcases h : act.run db with ⟨e | a, db'⟩
  · have h' : act db = (.error e, db') := h
    simp [run, reporting, h', Except.mapError]
  · have h' : act db = (.ok a, db') := h
    simp [run, reporting, h', Except.mapError]

theorem run_discard (act : Action ε α) (db : Database) :
    Action.run (discard act) db = ((act.run db).1.map fun _ => (), (act.run db).2) := by
  have hmap : (discard act : Action ε Unit) = act >>= fun _ => pure () :=
    map_eq_pure_bind (fun _ => ()) act
  rw [hmap, run_bind]
  rcases act.run db with ⟨e | a, db'⟩ <;> rfl

/-- A change that is refused leaves the database alone. -/
theorem run_change (f : Database → Except ε (α × Database)) (db : Database) :
    (change f).run db =
      match f db with
      | .ok (a, db') => (.ok a, db')
      | .error e => (.error e, db) := by
  unfold run change
  rcases f db with e | ⟨a, db'⟩ <;> rfl

/-- A transaction leaves the database alone if it fails. -/
theorem run_transaction (act : Action ε α) (db : Database) :
    act.transaction.run db =
      match act.run db with
      | (.ok a, db') => (.ok a, db')
      | (.error e, _) => (.error e, db) :=
  rfl

theorem run_ask (f : Database → Except ε α) (db : Database) : (ask f).run db = (f db, db) :=
  rfl

theorem run_define_of_ok {d : Sql.Definition} {db db' : Database} (h : db.define d = .ok db') :
    (define d).run db = (.ok (), db') := by
  rw [define, run_change, h]
  rfl

theorem run_define_of_error {d : Sql.Definition} {db : Database} {f : Failure}
    (h : db.define d = .error f) : (define d).run db = (.error f, db) := by
  rw [define, run_change, h]
  rfl

/-- A transaction succeeds like the action in it. -/
theorem transaction_eq_ok {act : Action ε α} {db db' : Database} {a : α} :
    act.transaction.run db = (.ok a, db') ↔ act.run db = (.ok a, db') := by
  rw [run_transaction]
  rcases act.run db with ⟨e | a, db'⟩ <;> simp

/-- A statement that is refused changes nothing, so only its success has to keep something. -/
theorem change_keeps {p : Database → Prop} {f : Database → Except ε (α × Database)}
    {db : Database} (hf : ∀ a db', f db = .ok (a, db') → p db') (h : p db) :
    p ((change f).run db).2 := by
  rw [run_change]
  rcases hdb : f db with e | ⟨a, db'⟩
  · exact h
  · exact hf a db' hdb

/-- What each step of a list keeps, all of them together keep. -/
theorem run_forM_keeps {p : Database → Prop} {f : α → Action ε Unit} {l : List α}
    (hf : ∀ a ∈ l, ∀ db, p db → p ((f a).run db).2) {db : Database} (h : p db) :
    p (Action.run (l.forM f) db).2 := by
  induction l generalizing db with
  | nil => exact h
  | cons a l ih =>
    have hfirst := hf a List.mem_cons_self db h
    rw [List.forM_eq_forM, List.forM_cons, run_bind]
    rcases hrun : (f a).run db with ⟨e | _, db'⟩
    · rw [hrun] at hfirst
      exact hfirst
    · rw [hrun] at hfirst
      exact ih (fun b hb => hf b (List.mem_cons_of_mem a hb)) hfirst

/-! ## Actions that only read -/

def Reads (act : Action ε α) : Prop :=
  ∀ db, act.after db = db

/-- What only reads leaves the database as it is. -/
theorem Reads.run {act : Action ε α} (h : act.Reads) (db : Database) :
    act.run db = (act.result db, db) :=
  Prod.ext rfl (h db)

theorem reads_pure (a : α) : (pure a : Action ε α).Reads :=
  fun _ => rfl

theorem reads_throw (e : ε) : (throw e : Action ε α).Reads :=
  fun _ => rfl

theorem reads_ask (f : Database → Except ε α) : (ask f).Reads :=
  fun _ => rfl

theorem reads_select (s : Sql.Select) (arguments : List Cell) : (select s arguments).Reads :=
  reads_ask _

theorem Reads.reporting {act : Action δ α} (h : act.Reads) (report : δ → ε) :
    (act.reporting report).Reads := by
  intro db
  rw [after_eq, run_reporting]
  exact h db

/-- Reading after reading is reading. -/
theorem Reads.bind {act : Action ε α} {f : α → Action ε β} (h : act.Reads)
    (hf : ∀ a, (f a).Reads) : (act >>= f).Reads := by
  intro db
  rw [after_eq, run_bind, h.run db]
  cases hr : act.result db with
  | error e => rfl
  | ok a => exact hf a db

theorem reads_foldlM {f : β → α → Action ε β} {l : List α} {b : β}
    (hf : ∀ b a, (f b a).Reads) : (l.foldlM f b).Reads := by
  induction l generalizing b with
  | nil => exact reads_pure b
  | cons a l ih =>
    rw [List.foldlM_cons]
    exact (hf b a).bind fun b => ih

/-- A sequence of readings succeeds if each does in the same database. -/
theorem Reads.bind_eq_ok {act : Action ε α} {f : α → Action ε β} (h : act.Reads)
    {db : Database} {b : β} :
    (act >>= f).result db = .ok b ↔ ∃ a, act.result db = .ok a ∧ (f a).result db = .ok b := by
  rw [result_eq, run_bind, h.run db]
  cases hr : act.result db with
  | error e => simp
  | ok a =>
    simp only [Except.ok.injEq, exists_eq_left']
    rfl

/-- After an action that only read, the next one starts from the same database. -/
theorem Reads.result_bind {act : Action ε α} {f : α → Action ε β} (h : act.Reads)
    {db : Database} {a : α} (ha : act.result db = .ok a) :
    (act >>= f).result db = (f a).result db := by
  rw [result_eq, run_bind, h.run db, ha]
  rfl

/-- The results of actions that only read are those of steps on one database. -/
theorem Reads.result_bind_eq {act : Action ε α} {f : α → Action ε β} (h : act.Reads)
    (db : Database) : (act >>= f).result db = act.result db >>= fun a => (f a).result db := by
  cases ha : act.result db with
  | error e =>
    rw [result_eq, run_bind, h.run db, ha]
    rfl
  | ok a => exact h.result_bind ha

/-- A reading action fails at its first step or at the next one. -/
theorem Reads.bind_eq_error {act : Action ε α} {f : α → Action ε β} (h : act.Reads)
    {db : Database} {e : ε} (hbind : (act >>= f).result db = .error e) :
    act.result db = .error e ∨ ∃ a, act.result db = .ok a ∧ (f a).result db = .error e := by
  cases hr : act.result db with
  | error e' =>
    rw [result_eq, run_bind, h.run db, hr] at hbind
    exact .inl (congrArg Except.error (Except.error.inj hbind))
  | ok a => exact .inr ⟨a, rfl, (h.result_bind hr).symm.trans hbind⟩

/-! ## Actions and their errors -/

def FailsOnly (p : ε → Prop) (act : Action ε α) : Prop :=
  ∀ db e, act.result db = .error e → p e

section FailsOnly

variable {p : ε → Prop}

theorem failsOnly_pure (a : α) : (pure a : Action ε α).FailsOnly p := by
  intro db e h
  cases h

theorem failsOnly_throw {e : ε} (h : p e) : (throw e : Action ε α).FailsOnly p := by
  intro db e' he
  cases he
  exact h

theorem failsOnly_reporting (act : Action δ α) {report : δ → ε} (h : ∀ d, p (report d)) :
    (act.reporting report).FailsOnly p := by
  intro db e he
  rw [result_eq, run_reporting] at he
  cases hact : (act.run db).1 with
  | ok a =>
    rw [hact] at he
    cases he
  | error d =>
    rw [hact] at he
    cases he
    exact h d

/-- Two actions whose errors are of a kind have such errors one after the other. -/
theorem FailsOnly.bind {act : Action ε α} {f : α → Action ε β} (h : act.FailsOnly p)
    (hf : ∀ a, (f a).FailsOnly p) : (act >>= f).FailsOnly p := by
  intro db e he
  rw [result_eq, run_bind] at he
  rcases hact : act.run db with ⟨d | a, db'⟩
  · rw [hact] at he
    cases he
    exact h db _ (congrArg Prod.fst hact)
  · rw [hact] at he
    exact hf a db' e he

theorem failsOnly_foldlM {f : β → α → Action ε β} {l : List α} {b : β}
    (hf : ∀ b, ∀ a ∈ l, (f b a).FailsOnly p) : (l.foldlM f b).FailsOnly p := by
  induction l generalizing b with
  | nil => exact failsOnly_pure b
  | cons a l ih =>
    rw [List.foldlM_cons]
    exact (hf b a List.mem_cons_self).bind fun b =>
      ih fun b a ha => hf b a (List.mem_cons_of_mem _ ha)

end FailsOnly

theorem result_reporting_eq_ok {act : Action δ α} {report : δ → ε} {db : Database} {a : α} :
    (act.reporting report).result db = .ok a ↔ act.result db = .ok a := by
  rw [result_eq, run_reporting, run_eq]
  cases act.result db <;> simp [Except.mapError]

end Action
end Database
end Espalier
