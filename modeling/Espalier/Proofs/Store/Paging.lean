import Espalier.Program.Basic
import Espalier.Proofs.Database.Taking
import Espalier.Proofs.Store.Gathering
import Espalier.Proofs.Store.Keys

/-!
# Pages of main rows

The offset and the limit of a page have no sign, and the statement that selects it takes integers
with one.  Both are cut to the greatest such integer, and no limit is a negative number.  As long as
the rows can be counted by such an integer nothing of this is seen: `list_window` says that a page
shows the main rows in the order of their ids without the first offset ones, as many as the limit
says.
-/

namespace Espalier

open Database (Action Cell Reachable Row)

/-! ## Windows of a list -/

/-- What a window shows of a list. -/
def Store.Window.shown {α : Type} (w : Window) (l : List α) : List α :=
  if w.limit = 0 then l.drop w.offset.toNat else (l.drop w.offset.toNat).take w.limit.toNat

/-- The window of a page, if pages of one limit are counted from zero. -/
def Store.Window.nth (limit : UInt64) (i : Nat) : Window :=
  ⟨UInt64.ofNat (i * limit.toNat), limit⟩

namespace Store.Window

theorem toNat_clamp (n : UInt64) : (clamp n).toInt.toNat = min n.toNat (2 ^ 63 - 1) := by
  have hmax : Int64.maxValue.toInt = 2 ^ 63 - 1 := by decide
  -- A word that is an integer stays, any other is beyond the greatest one.
  by_cases hn : n.toNat < 2 ^ 63
  · rcases exists_int64? (n := (n.toNat : Int)) (by omega) (by omega) with ⟨m, hm⟩
    rw [clamp, hm, Option.getD_some, toInt_of_int64? hm]
    omega
  · rw [clamp, int64?_eq_none_of_lt (by omega), Option.getD_none, hmax]
    omega

theorem clamp_nonneg (n : UInt64) : ¬ clamp n < 0 := by
  rw [Int64.lt_iff_toInt_lt, Int64.toInt_zero, Int.not_lt]
  cases hn : int64? (n.toNat : Int) with
  | none =>
    rw [clamp, hn]
    decide
  | some m =>
    rw [clamp, hn, Option.getD_some, toInt_of_int64? hn]
    omega

section Lists

variable {α : Type} {l : List α}

theorem drop_min {n m : Nat} (h : l.length ≤ m) : l.drop (min n m) = l.drop n := by
  rcases Nat.le_total n m with hn | hn
  · rw [Nat.min_eq_left hn]
  · rw [Nat.min_eq_right hn, List.drop_eq_nil_of_le h, List.drop_eq_nil_of_le (h.trans hn)]

theorem take_min {n m : Nat} (h : l.length ≤ m) : l.take (min n m) = l.take n := by
  rcases Nat.le_total n m with hn | hn
  · rw [Nat.min_eq_left hn]
  · rw [Nat.min_eq_right hn, List.take_of_length_le h, List.take_of_length_le (h.trans hn)]

/-- What integers with a sign cut off is beyond the end of the list. -/
theorem windowed_eq (w : Window) (hfew : l.length < 2 ^ 63) :
    Database.windowed (if w.limit = 0 then -1 else clamp w.limit) (clamp w.offset) l =
      w.shown l := by
  have hlast : l.length ≤ 2 ^ 63 - 1 := by omega
  have hdrop : l.drop (clamp w.offset).toInt.toNat = l.drop w.offset.toNat := by
    rw [toNat_clamp, drop_min hlast]
  have hrest : (l.drop w.offset.toNat).length ≤ 2 ^ 63 - 1 := by
    rw [List.length_drop]
    omega
  rw [Database.windowed, hdrop, shown]
  by_cases hlimit : w.limit = 0
  · -- A negative limit is none.
    rw [if_pos hlimit, if_pos hlimit]
    rfl
  · rw [if_neg hlimit, if_neg hlimit, if_neg (clamp_nonneg w.limit), toNat_clamp, take_min hrest]

/-- A window that shows something ends before the list does. -/
theorem add_length_shown {w : Window} (h : w.shown l ≠ []) :
    w.offset.toNat + (w.shown l).length ≤ l.length := by
  have hsome : 0 < (w.shown l).length := List.length_pos_of_ne_nil h
  have hrest : (w.shown l).length ≤ l.length - w.offset.toNat := by
    rw [shown, ← List.length_drop]
    split
    · exact Nat.le_refl _
    · exact (List.take_sublist _ _).length_le
  omega

/-- A window shows related rows of related lists. -/
theorem forall₂_shown {β : Type} {r : α → β → Prop} {l' : List β} (w : Window)
    (h : List.Forall₂ r l l') : List.Forall₂ r (w.shown l) (w.shown l') := by
  unfold shown
  split
  · exact List.forall₂_drop _ h
  · exact List.forall₂_take _ (List.forall₂_drop _ h)

/-- Consecutive pieces of one length put together are the beginning of the list. -/
theorem flatMap_drop_take (l : List α) (k n : Nat) :
    ((List.range n).flatMap fun i => (l.drop (i * k)).take k) = l.take (n * k) := by
  induction n with
  | zero => simp
  | succ n ih =>
    rw [List.range_succ, List.flatMap_append, ih, List.flatMap_singleton, Nat.succ_mul,
      List.take_add]

section Pages

variable {limit : UInt64}

/-- Page by page, the offset grows by the limit. -/
theorem offset_nth {i : Nat} (h : i * limit.toNat < 2 ^ 64) :
    (nth limit i).offset.toNat = i * limit.toNat := by
  rw [nth, UInt64.toNat_ofNat']
  exact Nat.mod_eq_of_lt h

/-- Each page shows the rows that the pages before it leave. -/
theorem shown_nth (hlimit : limit ≠ 0) {i : Nat} (h : i * limit.toNat < 2 ^ 64) :
    (nth limit i).shown l = (l.drop (i * limit.toNat)).take limit.toNat := by
  have hlimit : (nth limit i).limit ≠ 0 := hlimit
  rw [shown, if_neg hlimit, offset_nth h]
  rfl

/-- Pages of one limit show every element once. -/
theorem flatMap_shown_nth (hlimit : limit ≠ 0) {n : Nat} (hn : ∀ i < n, i * limit.toNat < 2 ^ 64)
    (hall : l.length ≤ n * limit.toNat) :
    ((List.range n).flatMap fun i => (nth limit i).shown l) = l := by
  have hpieces : ((List.range n).flatMap fun i => (nth limit i).shown l) =
      (List.range n).flatMap fun i => (l.drop (i * limit.toNat)).take limit.toNat :=
    List.flatMap_congr fun i hi => shown_nth hlimit (hn i (List.mem_range.1 hi))
  rw [hpieces, flatMap_drop_take, List.take_of_length_le hall]

end Pages

end Lists

end Store.Window

/-! ## Main rows -/

/-- A name stands for the column that has exactly this name. -/
theorem Database.Table.Shows.value_eq {t : Table} (ht : t.Formed) {name : String} {r : Row}
    {v : Cell} (h : t.Shows name r v) : (t.operand name).value r = v := by
  rcases h with ⟨i, c, hc, rfl, rfl⟩
  rw [operand, column?_of_getElem? ht.distinct hc]
  rfl

/-- The trunk of the document of a main row: its number as the id, then each main field with the
value that the row shows in its column. -/
def Schema.Trunk (s : Schema) (t : Database.Table) (r : Row) (trunk : Entries Tree) : Prop :=
  ∃ entries, trunk = (idColumn, .int r.number) :: entries ∧
    List.Forall₂ (fun f e => e.1 = f.name ∧
      ∃ v, t.Shows f.name r v ∧ f.codec.decode v = .ok e.2) s.mainFields entries

namespace Store

section Rows

variable {s : Store} {m : Table} {t : Database.Table}
  (hfitted : t.Fitted (s.schema.planted s.schema.mainTable m))

include hfitted

/-- A main row is decoded into its trunk. -/
theorem decodeMain_of_trunk {r : Row} {trunk : Entries Tree} (h : s.schema.Trunk t r trunk) :
    s.schema.mainPlan.decodeMain (s.mainCells t r) = .ok trunk := by
  rcases h with ⟨entries, rfl, hentries⟩
  have hnames : entries.map Prod.fst = s.schema.mainFields.map Field.name := by
    rw [← List.forall₂_eq_eq_eq, List.forall₂_map_left_iff, List.forall₂_map_right_iff]
    exact hentries.flip.imp fun e f h => h.1
  have hdata : s.schema.mainPlan.decodeEntries
      (s.schema.mainFields.map fun f => (t.operand f.name).value r) = .ok entries := by
    have hcolumns : s.schema.mainPlan.columns = s.schema.mainFields.map Field.dataColumn := rfl
    rw [TablePlan.decodeEntries, hcolumns, List.zip_map', Outcome.mapM_eq_ok,
      List.forall₂_map_left_iff]
    refine hentries.imp ?_
    rintro f ⟨name, value⟩ ⟨rfl, v, hshows, hdecode⟩
    refine Outcome.bind_eq_ok.2 ⟨value, ?_, rfl⟩
    rw [hshows.value_eq hfitted.formed]
    exact hdecode
  refine Outcome.bind_eq_ok.2 ⟨entries, hdata, ?_⟩
  refine congrArg Except.ok (Entries.merge_eq_append ?_)
  rw [hnames]
  exact Schema.nodup_mainNames s.schema_sound

variable {db : Database} (ht : db.table? s.schema.mainTable = some t)
  (hfew : t.rows.length < 2 ^ 63) {trunks : List (Entries Tree)}
  (htrunks : List.Forall₂ (s.schema.Trunk t) t.rows trunks)

include ht hfew htrunks

/-- A page is the window of the trunks of all main rows. -/
theorem list_of_trunks (w : Window) : (s.list w).result db = .ok ⟨w.shown trunks, w.offset⟩ := by
  have hrows : w.rows t.rows = w.shown t.rows := w.windowed_eq hfew
  have hdecode : ((w.shown t.rows).map (s.mainCells t)).mapM s.schema.mainPlan.decodeMain =
      .ok (w.shown trunks) := by
    rw [Outcome.mapM_eq_ok, List.forall₂_map_left_iff]
    refine w.forall₂_shown (htrunks.imp ?_)
    exact fun r trunk htrunk => decodeMain_of_trunk hfitted htrunk
  rw [list, s.plan_eq, Plan.listPage_eq_ok (select_list ht hfitted w), hrows]
  exact ⟨hdecode, rfl⟩

end Rows

/-- The line above a page that ends before the greatest word names its first and its last place. -/
theorem pageHeading_of_ne_nil {page : Page} (hsome : page.items ≠ [])
    (hend : page.offset.toNat + page.count < UInt64.size) :
    ∃ last, Program.pageHeading page = s!"Listing objects {page.offset.toNat}-{last}" ∧
      page.offset.toNat ≤ last ∧ last - page.offset.toNat + 1 = page.count := by
  have hcount : 0 < page.count := List.length_pos_of_ne_nil hsome
  refine ⟨page.offset.toNat + page.count - 1, ?_, by omega, by omega⟩
  have hmin : min (page.offset.toNat + page.count) (UInt64.size - 1) =
      page.offset.toNat + page.count := by omega
  rw [Program.pageHeading, if_neg (by simpa using hsome), hmin]

/--
In a database that statements have led to and that verifies, with fewer than `2 ^ 63` main rows, all
of which can be read, a page shows the main rows in the order of their ids without the first offset
ones, as many as the limit says or all of them if it is zero, and tells their number and its offset.
The range above a page that shows something has as many places as the page has items.  The pages of
one limit, put one after the other until the rows are used up, show every main row once.
-/
theorem list_window (s : Store) {db : Database} (h : Reachable db)
    (hverify : s.verify.result db = .ok ()) {t : Database.Table}
    (ht : db.table? s.schema.mainTable = some t) (hfew : t.rows.length < 2 ^ 63)
    {trunks : List (Entries Tree)} (htrunks : List.Forall₂ (s.schema.Trunk t) t.rows trunks) :
    (t.rows.Pairwise fun r r' => r.number.toInt < r'.number.toInt) ∧
    (∀ w, ∃ page, (s.list w).result db = .ok page ∧ page.items = w.shown trunks ∧
      page.count = (w.shown trunks).length ∧ page.offset = w.offset ∧
      (page.items ≠ [] → page.offset.toNat + page.count < UInt64.size ∧
        ∃ last, Program.pageHeading page = s!"Listing objects {page.offset.toNat}-{last}" ∧
          page.offset.toNat ≤ last ∧ last - page.offset.toNat + 1 = page.count)) ∧
    ∀ limit : UInt64, limit ≠ 0 → ∃ least, (∀ i < least, i * limit.toNat < 2 ^ 64) ∧
      ∀ n ≥ least, (∀ i < n, i * limit.toNat < 2 ^ 64) → ∃ pages,
        List.Forall₂ (fun i page => (s.list (.nth limit i)).result db = .ok page ∧
          page.offset.toNat = i * limit.toNat) (List.range n) pages ∧
        pages.flatMap Page.items = trunks := by
  rcases s.schema_sound.main with ⟨m, hm, -⟩
  rcases s.exists_fitted h hverify (Schema.mem_of_table? hm) with ⟨t', ht', hfitted⟩
  obtain rfl : t = t' := Option.some.inj (ht.symm.trans ht')
  have hlength : t.rows.length = trunks.length := htrunks.length_eq
  have hlist := list_of_trunks hfitted ht hfew htrunks
  refine ⟨hfitted.numbered.sorted, ?_, ?_⟩
  · intro w
    refine ⟨_, hlist w, rfl, rfl, rfl, fun hsome => ?_⟩
    have hend : w.offset.toNat + (w.shown trunks).length < UInt64.size := by
      have hlast := Window.add_length_shown hsome
      have hsize : UInt64.size = 2 ^ 64 := rfl
      omega
    exact ⟨hend, pageHeading_of_ne_nil hsome hend⟩
  · intro limit hlimit
    have hpos : 0 < limit.toNat := Nat.pos_of_ne_zero fun hzero =>
      hlimit (UInt64.toNat_inj.1 hzero)
    -- One page more than there are full ones.
    refine ⟨trunks.length / limit.toNat + 1, ?_, ?_⟩
    · intro i hi
      have hfull : i * limit.toNat ≤ trunks.length :=
        (Nat.le_div_iff_mul_le hpos).1 (Nat.le_of_lt_succ hi)
      omega
    · intro n hn hoffsets
      have hall : trunks.length ≤ n * limit.toNat :=
        (Nat.lt_mul_of_div_lt hn hpos).le
      refine ⟨(List.range n).map fun i => ⟨(Window.nth limit i).shown trunks,
        (Window.nth limit i).offset⟩, ?_, ?_⟩
      · rw [List.forall₂_map_right_iff, List.forall₂_same]
        intro i hi
        exact ⟨hlist _, Window.offset_nth (hoffsets i (List.mem_range.1 hi))⟩
      · rw [List.flatMap_map]
        exact Window.flatMap_shown_nth hlimit hoffsets hall

/-- The scribbled garden with a moss, which others wrote too. -/
def mossy : Database :=
  (Action.insert ⟨"plant", ["name"]⟩ [.text "moss"]).after scribbled

def mossyPlants : Database.Table where
  name := "plant"
  columns :=
    (Schema.plants.layout "plant" ⟨[⟨"name", .string⟩, ⟨"height", .float⟩], false, none⟩).map
      Column.spec
  rows := [⟨-4, [.int (-4), .text "fern", .null]⟩, ⟨1, [.int 1, .text "moss", .null]⟩]
  counter := 1

/-- The fern comes first, its id being negative, and the moss is all that a page shows after it. -/
theorem list_window_mossy : Reachable mossy ∧ plants.verify.result mossy = .ok () ∧
    mossyPlants.rows.length < 2 ^ 63 ∧
    ∃ page, (plants.list ⟨1, 18446744073709551615⟩).result mossy = .ok page ∧
      page.items = [[("id", .int 1), ("name", .text "moss"), ("height", .null)]] := by
  have hprovisioned : Reachable (plants.provision.after {}) :=
    plants.reachable_provision (.empty true)
  have hreachable : Reachable mossy :=
    ((hprovisioned.after_insert _ _).after_insert _ _).after_insert _ _
  have hverify : plants.verify.result mossy = .ok () := by decide +kernel
  have htable : mossy.table? "plant" = some mossyPlants := by decide +kernel
  have hfields : Schema.plants.mainFields = [⟨"name", .string⟩, ⟨"height", .float⟩] := by decide
  have hfew : mossyPlants.rows.length < 2 ^ 63 := by decide
  have htrunk : ∀ (id : Int64) (name : String),
      Schema.plants.Trunk mossyPlants ⟨id, [.int id, .text name, .null]⟩
        [("id", .int id), ("name", .text name), ("height", .null)] := by
    intro id name
    refine ⟨_, rfl, ?_⟩
    rw [hfields]
    exact .cons ⟨rfl, .text name, ⟨1, _, rfl, rfl, rfl⟩, rfl⟩
      (.cons ⟨rfl, .null, ⟨2, _, rfl, rfl, rfl⟩, rfl⟩ .nil)
  rcases (list_window plants hreachable hverify htable hfew
    (.cons (htrunk (-4) "fern") (.cons (htrunk 1 "moss") .nil))).2.1 ⟨1, 18446744073709551615⟩ with
    ⟨page, hpage, hitems, -⟩
  exact ⟨hreachable, hverify, hfew, page, hpage, hitems⟩

end Store
end Espalier
