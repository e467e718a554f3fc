import Espalier.Connection
import Espalier.Proofs.Settings.Sources
import Espalier.Workspace

/-!
# Opening a database

Opening a database makes the directories above it, asks the driver where the database is, and hands
out a connection with the settings in force.  How the database is treated on the way goes by the
sight of its name, while the driver takes the name apart; the treatment is the one that the opened
database needs just if both readings agree.
-/

namespace Espalier

/-! ## Directories of a workspace -/

namespace Workspace

variable {w w' : Workspace}

/-- The parts of a path with one more, which may lead up. -/
def advance (before : List String) (part : String) : List String :=
  if part = ".." then Path.above before else before ++ [part]

theorem parts_eq (path : String) : Path.parts path = (Path.segments path).foldl advance [] :=
  rfl

/-- What is no directory stands in the entries. -/
theorem entry?_of_not_directory {parts : List String} (h : w.entry? parts ≠ some .directory)
    (w' : Workspace) : w'.entry? parts = Entries.get? w'.entries (pathOf parts) := by
  unfold entry? at h ⊢
  split at h
  · exact absurd rfl h
  · rename_i hroot
    rw [if_neg hroot]

/-- Making directories leaves one at the end of the way. -/
theorem entry?_makeDirectories {before segments : List String}
    (h : w.makeDirectories before segments = .ok w') (hbefore : w.entry? before = some .directory) :
    w'.entry? (segments.foldl advance before) = some .directory := by
  induction segments generalizing w before with
  | nil =>
    cases h
    exact hbefore
  | cons part rest ih =>
    rw [makeDirectories] at h
    split at h
    · rename_i hthere
      exact ih h hthere
    · cases h
    · rename_i hnone
      have hmissing : w.entry? (advance before part) ≠ some .directory := by
        rw [advance, hnone]
        exact nofun
      refine ih h ?_
      rw [← advance, entry?_of_not_directory hmissing]
      exact Entries.get?_put_self _ _ _

/-- The same paths name directories. -/
def SameDirectories (w w' : Workspace) : Prop :=
  ∀ path, w'.entry? path = some .directory ↔ w.entry? path = some .directory

theorem SameDirectories.refl (w : Workspace) : SameDirectories w w :=
  fun _ => Iff.rfl

/-- Writing a file makes no directory and takes none away. -/
theorem sameDirectories_write {parts : List String} {text : String}
    (h : w.write parts text = .ok w') : SameDirectories w w' := by
  obtain ⟨hparts, rfl⟩ : w.entry? parts ≠ some .directory ∧
      w' = { w with entries := Entries.put w.entries (pathOf parts) (.file text) } := by
    rw [write] at h
    split at h
    · cases h
    · cases h
    · cases h
    · rename_i hfree
      exact ⟨hfree, (Except.ok.inj h).symm⟩
  have hold : Entries.get? w.entries (pathOf parts) ≠ some .directory := by
    rwa [← entry?_of_not_directory hparts]
  intro path
  unfold entry?
  split
  · exact Iff.rfl
  · by_cases hsame : pathOf parts = pathOf path
    · rw [← hsame, Entries.get?_put_self]
      exact iff_of_false nofun hold
    · rw [Entries.get?_put_of_ne _ _ hsame]

/-- Neither does an attempt to write one. -/
theorem sameDirectories_update_write (w : Workspace) (parts : List String) (text : String) :
    SameDirectories w (update (fun w => w.write parts text) w).2 := by
  rw [update]
  split
  · rename_i hwritten
    exact sameDirectories_write hwritten
  · exact SameDirectories.refl w

theorem update_of_ok {f : Workspace → Except FileError Workspace} (h : f w = .ok w') :
    update f w = (.ok (), w') := by
  rw [update, h]

theorem update_of_error {f : Workspace → Except FileError Workspace} {e : FileError}
    (h : f w = .error e) : update f w = (.error e, w) := by
  rw [update, h]

end Workspace

namespace Connection

open Workspace (SameDirectories)

variable {s : DatabaseSettings} {t : Dsn.Target} {w : Workspace} {location : Dsn.Location}

/-! ## How opening ends -/

/-- The workspace with the directories above a database, which are made if it may come into being
and does not look like one in memory. -/
def makeParents (s : DatabaseSettings) (t : Dsn.Target) (w : Workspace) :
    Except FileError Workspace :=
  if Dsn.isMemory s.dsn = false ∧ s.createIfMissing = true ∧ Path.parent t.path ≠ "" then
    w.makeDirectories [] (Path.segments (Path.parent t.path))
  else .ok w

/-- The pool for the settings hands out connections, and the time to wait for a lock can be set. -/
def Permitted (s : DatabaseSettings) : Prop :=
  (Pool.ofSettings s.pool (Dsn.isMemory s.dsn)).maxConnections ≠ 0 ∧
    (Pool.ofSettings s.pool (Dsn.isMemory s.dsn)).acquireTimeout ≠ Duration.zero ∧
    s.busyTimeout.milliseconds ≤ busyLimit

def ofSettings (s : DatabaseSettings) (location : Dsn.Location) (database : Database) :
    Connection where
  dsn := s.dsn
  inMemory := Dsn.isMemory s.dsn
  location := location
  journalMode := journalModeAt (s.effectiveJournalMode (Dsn.isMemory s.dsn)) location
  synchronous := s.synchronous.getD .full
  busyMilliseconds := s.busyTimeout.milliseconds
  pool := Pool.ofSettings s.pool (Dsn.isMemory s.dsn)
  database := database

def openedAt (s : DatabaseSettings) (t : Dsn.Target) (location : Dsn.Location) :
    StateM Workspace (Except ConnectError Database) :=
  openAt location s.createIfMissing t.readOnly s (s.effectiveJournalMode (Dsn.isMemory s.dsn))

/-- How opening the database of a target ends on a workspace. -/
inductive Opening (s : DatabaseSettings) (t : Dsn.Target) (w : Workspace) :
    Except ConnectError Connection × Workspace → Prop
  | blocked {e : FileError} (hparents : makeParents s t w = .error e) :
      Opening s t w (.error (.files e), w)
  | refused {w₁ : Workspace} (hparents : makeParents s t w = .ok w₁)
      (hrefused : t.location? = none ∨ ¬ Permitted s) : Opening s t w (.error .driver, w₁)
  | failed {w₁ w₂ : Workspace} {location : Dsn.Location} {e : ConnectError}
      (hparents : makeParents s t w = .ok w₁) (hlocation : t.location? = some location)
      (hpermitted : Permitted s) (hopen : openedAt s t location w₁ = (.error e, w₂)) :
      Opening s t w (.error e, w₂)
  | opened {w₁ w₂ : Workspace} {location : Dsn.Location} {database : Database}
      (hparents : makeParents s t w = .ok w₁) (hlocation : t.location? = some location)
      (hpermitted : Permitted s) (hopen : openedAt s t location w₁ = (.ok database, w₂)) :
      Opening s t w (.ok (ofSettings s location database), w₂)

def openOn (s : DatabaseSettings) (w : Workspace) : Except ConnectError Connection × Workspace :=
  (open? s : StateM Workspace _) w

def openBelow (s : DatabaseSettings) (t : Dsn.Target) :
    StateM Workspace (Except ConnectError Connection) := do
  match t.location? with
  | none => return .error .driver
  | some location =>
    let pool := Pool.ofSettings s.pool (Dsn.isMemory s.dsn)
    if pool.maxConnections = 0 || pool.acquireTimeout = Duration.zero ||
        busyLimit < s.busyTimeout.milliseconds then
      return .error .driver
    match ← openedAt s t location with
    | .error e => return .error e
    | .ok database => return .ok (ofSettings s location database)

/-- A part of an action that is done gives way to the rest of it. -/
theorem bind_run {α β : Type} {made : StateM Workspace α} {a : α} {w₁ : Workspace}
    (h : made w = (a, w₁)) (k : α → StateM Workspace β) : (made >>= k) w = k a w₁ := by
  change (match made w with | (a, w') => k a w') = k a w₁
  rw [h]

/-- Opening makes directories first and then goes on below them. -/
theorem openOn_eq (hknown : Dsn.isKnown (Blank.trim s.dsn) = true)
    (htarget : Dsn.target? (Blank.trim s.dsn) = some t) (w : Workspace) :
    openOn s w = match makeParents s t w with
      | .error e => (.error (.files e), w)
      | .ok w₁ => openBelow s t w₁ := by
  -- The guard of the code is a single condition; the definition states its parts.
  have hparents : makeParents s t w =
      if (!Dsn.isMemory s.dsn && s.createIfMissing && Path.parent t.path ≠ "") = true then
        w.makeDirectories [] (Path.segments (Path.parent t.path))
      else .ok w := by
    simp only [makeParents, Bool.and_eq_true, Bool.not_eq_true', decide_eq_true_eq, and_assoc]
  rw [openOn, open?, hknown, htarget, hparents, if_neg (by decide)]
  dsimp only
  split
  · cases hdirectories : w.makeDirectories [] (Path.segments (Path.parent t.path)) with
    | error e =>
      have hmade : (Host.makeDirectories (Path.parent t.path) : StateM Workspace _) w =
          (.error e, w) := Workspace.update_of_error hdirectories
      rw [bind_run hmade]
      rfl
    | ok w₁ =>
      have hmade : (Host.makeDirectories (Path.parent t.path) : StateM Workspace _) w =
          (.ok (), w₁) := Workspace.update_of_ok hdirectories
      rw [bind_run hmade]
      dsimp only [openBelow]
      cases t.location? <;> rfl
  · have hmade : (pure (.ok ()) : StateM Workspace (Except FileError Unit)) w = (.ok (), w) := rfl
    rw [bind_run hmade]
    dsimp only [openBelow]
    cases t.location? <;> rfl

/-- What the pool or the driver refuses is refused before anything is opened. -/
theorem not_permitted_iff :
    ¬ Permitted s ↔
      ((Pool.ofSettings s.pool (Dsn.isMemory s.dsn)).maxConnections = 0 ||
        (Pool.ofSettings s.pool (Dsn.isMemory s.dsn)).acquireTimeout = Duration.zero ||
        busyLimit < s.busyTimeout.milliseconds) = true := by
  simp only [Permitted, Bool.or_eq_true, decide_eq_true_eq, ne_eq, not_and_or, not_not, not_le,
    or_assoc]

/-- Opening the database of a name that the driver takes ends in one of these ways. -/
theorem opening_openOn (hknown : Dsn.isKnown (Blank.trim s.dsn) = true)
    (htarget : Dsn.target? (Blank.trim s.dsn) = some t) (w : Workspace) :
    Opening s t w (openOn s w) := by
  rw [openOn_eq hknown htarget]
  cases hparents : makeParents s t w with
  | error e => exact .blocked hparents
  | ok w₁ =>
    dsimp only [openBelow]
    cases hlocation : t.location? with
    | none => exact .refused hparents (.inl hlocation)
    | some location =>
      dsimp only
      split
      · rename_i hforbidden
        exact .refused hparents (.inr (not_permitted_iff.2 hforbidden))
      · rename_i hallowed
        have hpermitted : Permitted s := not_not.1 (not_permitted_iff.not.2 hallowed)
        rcases hopen : openedAt s t location w₁ with ⟨result, w₂⟩
        rw [bind_run hopen]
        cases result with
        | error e => exact .failed hparents hlocation hpermitted hopen
        | ok database => exact .opened hparents hlocation hpermitted hopen

/-! ## What opening leaves of the directories -/

/-- Reading a database may write its file, which makes no directory. -/
theorem sameDirectories_openFile (s : DatabaseSettings) (w : Workspace) (path : String)
    (create readOnly logged : Bool) : SameDirectories w
      ((openFile path create readOnly logged s : StateM Workspace (Except ConnectError Database))
        w).2 := by
  have hfind : (Host.find path : StateM Workspace _) w = (w.find [] (Path.parts path), w) := rfl
  dsimp only [openFile]
  rw [bind_run hfind]
  -- A file may be written where there is none, a directory never.
  rcases w.find [] (Path.parts path) with (_ | _ | _ | _ | _) | (_ | text) <;>
    dsimp only
  case error.missing =>
    split
    · have hsame := Workspace.sameDirectories_update_write w (Path.parts path) ""
      rcases hrun : Workspace.update (fun w => w.write (Path.parts path) "") w with ⟨_ | _, w₁⟩
      all_goals
        rw [hrun] at hsame
        have hwrite : (Host.write path "" : StateM Workspace _) w = (_, w₁) := hrun
        rw [bind_run hwrite]
        exact hsame
    · exact SameDirectories.refl w
  case ok.file =>
    cases Database.ofImage? s.foreignKeys text with
    | none => exact SameDirectories.refl w
    | some db =>
      dsimp only
      split <;> exact SameDirectories.refl w
  all_goals exact SameDirectories.refl w

/-- Reading a database makes no directory and takes none away. -/
theorem sameDirectories_openedAt {w' : Workspace} {result : Except ConnectError Database}
    (h : openedAt s t location w = (result, w')) : SameDirectories w w' := by
  suffices hsame : SameDirectories w (openedAt s t location w).2 by
    rwa [h] at hsame
  cases location with
  | file path => exact sameDirectories_openFile s w path _ _ _
  | unlogged path => exact sameDirectories_openFile s w path _ _ _
  | _ => exact SameDirectories.refl w

/-- The parents of a database are a directory once it is made. -/
theorem entry?_makeParents {w₁ : Workspace} (hsight : Dsn.isMemory s.dsn = false)
    (hcreate : s.createIfMissing = true) (h : makeParents s t w = .ok w₁) :
    w₁.entry? (Path.parts (Path.parent t.path)) = some .directory := by
  by_cases hparent : Path.parent t.path = ""
  · rw [hparent]
    rfl
  · rw [makeParents, if_pos ⟨hsight, hcreate, hparent⟩] at h
    rw [Workspace.parts_eq]
    exact Workspace.entry?_makeDirectories h rfl

/-- No directory is made for what looks like a database in memory, for what may not come into being,
and for what stands in none. -/
theorem makeParents_eq (h : Dsn.isMemory s.dsn = true ∨ s.createIfMissing = false ∨
    Path.parent t.path = "") : makeParents s t w = .ok w := by
  refine if_neg ?_
  rintro ⟨hsight, hcreate, hparent⟩
  rcases h with h | h | h
  · exact Bool.false_ne_true (hsight.symm.trans h)
  · exact Bool.false_ne_true (h.symm.trans hcreate)
  · exact hparent h

/-! ## Treatments -/

/-- A connection as a database in memory needs it: it is the only one, it is kept for ever, and no
write-ahead log is asked for. -/
structure Pinned (s : DatabaseSettings) (c : Connection) : Prop where
  marked : c.inMemory = true
  pool : c.pool =
    { maxConnections := 1, minConnections := 1,
      acquireTimeout := s.pool.acquireTimeout.getD (Duration.ofSeconds 30),
      idleTimeout := none, maxLifetime := none, testBeforeAcquire := s.pool.testBeforeAcquire }
  journal : c.journalMode = journalModeAt s.journalMode c.location

/-- A connection with the limits of the settings, and a write-ahead log unless the settings say
otherwise. -/
structure Configured (s : DatabaseSettings) (c : Connection) : Prop where
  unmarked : c.inMemory = false
  pool : c.pool =
    { maxConnections := s.pool.maxConnections.getD 10
      minConnections := s.pool.minConnections.getD 0
      acquireTimeout := s.pool.acquireTimeout.getD (Duration.ofSeconds 30)
      idleTimeout := some (s.pool.idleTimeout.getD (Duration.ofSeconds 600))
      maxLifetime := some (s.pool.maxLifetime.getD (Duration.ofSeconds 1800))
      testBeforeAcquire := s.pool.testBeforeAcquire }
  journal : c.journalMode = journalModeAt (some (s.journalMode.getD .wal)) c.location

/-- By sight alone a name gets the pool of a database in memory. -/
theorem pinned_ofSettings (hsight : Dsn.isMemory s.dsn = true) (location : Dsn.Location)
    (database : Database) : Pinned s (ofSettings s location database) where
  marked := by rw [ofSettings, hsight]
  pool := by
    rw [ofSettings, hsight]
    rcases s.pool with ⟨_, _, _ | _, _, _, _⟩ <;> rfl
  journal := by
    have hmode : s.effectiveJournalMode true = s.journalMode := by
      rw [DatabaseSettings.effectiveJournalMode]
      cases s.journalMode <;> rfl
    rw [ofSettings, hsight, hmode]

/-- Any other name gets the pool of the settings. -/
theorem configured_ofSettings (hsight : Dsn.isMemory s.dsn = false) (location : Dsn.Location)
    (database : Database) : Configured s (ofSettings s location database) where
  unmarked := by rw [ofSettings, hsight]
  pool := by
    rw [ofSettings, hsight]
    rcases s.pool with ⟨_ | _, _ | _, _ | _, _ | _, _ | _, _⟩ <;> rfl
  journal := by
    have hmode : s.effectiveJournalMode false = some (s.journalMode.getD .wal) := by
      rw [DatabaseSettings.effectiveJournalMode]
      cases s.journalMode <;> rfl
    rw [ofSettings, hsight, hmode]

/-- No connection is treated both ways, as one of its pools lets connections expire. -/
theorem not_configured_of_pinned {c : Connection} (h : Pinned s c) : ¬ Configured s c := by
  intro hconfigured
  have hidle := congrArg Pool.idleTimeout (h.pool.symm.trans hconfigured.pool)
  cases hidle

/-- Opening treats a database as one in memory, or as a file. -/
structure Treated (s : DatabaseSettings) (t : Dsn.Target) (memory : Bool) (w : Workspace)
    (result : Except ConnectError Connection × Workspace) : Prop where
  pinned : memory = true → ∀ c, result.1 = .ok c → Pinned s c
  configured : memory = false → ∀ c, result.1 = .ok c → Configured s c
  unmade : memory = true ∨ s.createIfMissing = false ∨ Path.parent t.path = "" →
    SameDirectories w result.2
  /-- Only an error on the way, which leaves all as it was, keeps the parents from being made. -/
  made : memory = false → s.createIfMissing = true →
    (∃ e, makeParents s t w = .error e ∧ result = (.error (.files e), w)) ∨
      Workspace.entry? result.2 (Path.parts (Path.parent t.path)) = some .directory

/-- Either the directories cannot be made, or nothing but them has come about afterwards. -/
theorem Opening.cases_directories {result : Except ConnectError Connection × Workspace}
    (h : Opening s t w result) :
    (∃ e, makeParents s t w = .error e ∧ result = (.error (.files e), w)) ∨
      ∃ w₁, makeParents s t w = .ok w₁ ∧ SameDirectories w₁ result.2 := by
  cases h with
  | blocked hparents => exact .inl ⟨_, hparents, rfl⟩
  | refused hparents => exact .inr ⟨_, hparents, SameDirectories.refl _⟩
  | failed hparents _ _ hopen => exact .inr ⟨_, hparents, sameDirectories_openedAt hopen⟩
  | opened hparents _ _ hopen => exact .inr ⟨_, hparents, sameDirectories_openedAt hopen⟩

/-- A connection that opens is the one that the settings ask for at the location of the target. -/
theorem Opening.eq_ofSettings {result : Except ConnectError Connection × Workspace}
    (h : Opening s t w result) {c : Connection} (hc : result.1 = .ok c) :
    ∃ location database, t.location? = some location ∧ c = ofSettings s location database := by
  cases h with
  | blocked => cases hc
  | refused => cases hc
  | failed => cases hc
  | opened _ hlocation => exact ⟨_, _, hlocation, (Except.ok.inj hc).symm⟩

/-- However opening ends, the database is treated by the sight of its name. -/
theorem Opening.treated {result : Except ConnectError Connection × Workspace}
    (h : Opening s t w result) : Treated s t (Dsn.isMemory s.dsn) w result where
  pinned := by
    intro hsight c hc
    obtain ⟨location, database, -, rfl⟩ := h.eq_ofSettings hc
    exact pinned_ofSettings hsight location database
  configured := by
    intro hsight c hc
    obtain ⟨location, database, -, rfl⟩ := h.eq_ofSettings hc
    exact configured_ofSettings hsight location database
  unmade := by
    intro hunmade
    have hparents : makeParents s t w = .ok w := makeParents_eq hunmade
    obtain ⟨e, herror, -⟩ | ⟨w₁, hok, hsame⟩ := h.cases_directories
    · cases hparents.symm.trans herror
    · obtain rfl := Except.ok.inj (hparents.symm.trans hok)
      exact hsame
  made := by
    intro hsight hcreate
    refine h.cases_directories.imp_right ?_
    rintro ⟨w₁, hok, hsame⟩
    exact (hsame _).2 (entry?_makeParents hsight hcreate hok)

/-- How a database is treated goes by sight alone. -/
theorem Opening.treated_iff {result : Except ConnectError Connection × Workspace}
    (h : Opening s t w result) {c : Connection} (hc : result.1 = .ok c) (memory : Bool) :
    Treated s t memory w result ↔ Dsn.isMemory s.dsn = memory := by
  constructor
  · intro htreated
    cases hsight : Dsn.isMemory s.dsn <;> cases memory
    · rfl
    · exact absurd (h.treated.configured hsight c hc)
        (not_configured_of_pinned (htreated.pinned rfl c hc))
    · exact absurd (htreated.configured rfl c hc)
        (not_configured_of_pinned (h.treated.pinned hsight c hc))
    · rfl
  · rintro rfl
    exact h.treated

theorem location_of_inMemory (hmemory : t.inMemory = true)
    (hlocation : t.location? = some location) : location = .memory := by
  rw [Dsn.Target.location?] at hlocation
  split at hlocation
  · cases hlocation
  · exact (Option.some.inj hlocation).symm

end Connection
end Espalier
