import Espalier.Proofs.Settings.Sources
import Espalier.Proofs.Text.Percent

/-!
# Paths on the command line

A path becomes a data source name by a scheme before it, and nothing in it is quoted.  So the name
is trimmed, cut at a question mark, freed of percent codes, and searched for markers, all of which
can make the driver open something else.  `Dsn.opensFile_ofArgument` says for which paths it opens
the file: those that are taken literally at each of these steps.
-/

namespace Espalier
namespace Dsn

open Search

/-- A name for which the driver opens the file of a path, and which does not look like that of a
database in memory. -/
def OpensFile (dsn path : String) : Prop :=
  ∃ t, target? (Blank.trim dsn) = some t ∧ t.inMemory = false ∧ isMemory dsn = false ∧
    t.location? = some (.file path)

/-- Nothing in a path is taken for anything but the path. -/
structure Literal (path : String) : Prop where
  nonempty : path ≠ ""
  query : '?' ∉ path.toList
  code : ¬ Percent.HasCode path.toList
  blank : ∀ c ∈ path.toList.getLast?, Blank.isBlank c = false
  address : startsWith path "file:" = false
  marker : endsWith path ":memory:" = false
  mode : occursIn "mode=memory" path = false

/-! ## The name of a path -/

def trimmedPath (path : String) : List Char :=
  path.toList.rdropWhile Blank.isBlank

variable {path : String}

theorem trimmedPath_prefix_path (path : String) : trimmedPath path <+: path.toList :=
  List.rdropWhile_prefix _ _

/-- Blanks at the end of a path are lost with those at the end of the name. -/
theorem toList_trim_url (path : String) :
    (Blank.trim ("sqlite://" ++ path)).toList = "sqlite://".toList ++ trimmedPath path := by
  have htext : ("sqlite://" ++ path).toList = [] ++ (("sqlite://".toList ++ trimmedPath path) ++
      path.toList.rtakeWhile Blank.isBlank) := by
    rw [List.nil_append, List.append_assoc, trimmedPath, List.rdropWhile_append_rtakeWhile,
      String.toList_append]
  refine Blank.trim_of_tight [] _ htext nofun (fun c hc => List.mem_rtakeWhile_imp hc)
    ⟨fun c hc => ?_, fun c hc => ?_⟩
  · cases hc
    decide
  · by_cases hne : trimmedPath path = []
    · rw [hne] at hc
      cases hc
      decide
    · have hnot := List.rdropWhile_last_not Blank.isBlank path.toList hne
      rw [List.getLast?_append_of_ne_nil _ hne, List.getLast?_eq_some_getLast hne] at hc
      exact Bool.eq_false_iff.2 (Option.some.inj hc ▸ hnot)

section

variable (h : startsWith path scheme = false)
include h

theorem ofArgument_eq : ofArgument path = "sqlite://" ++ path := by
  rw [ofArgument, h]
  rfl

/-- Behind the scheme of an argument stands its path. -/
theorem afterSchemes_ofArgument :
    afterSchemes (Blank.trim (ofArgument path)) = trimmedPath path := by
  have hscheme : ¬ scheme.toList <+: trimmedPath path := by
    intro hprefix
    have hpath : scheme.toList <+: path.toList := hprefix.trans (trimmedPath_prefix_path path)
    rw [startsWith, List.isPrefixOf_iff_prefix.2 hpath] at h
    cases h
  have hurl : ¬ "sqlite://".toList <+: trimmedPath path := by
    intro hprefix
    have hopens : scheme.toList <+: "sqlite://".toList := ⟨"//".toList, rfl⟩
    exact hscheme (hopens.trans hprefix)
  rw [afterSchemes, ofArgument_eq h, toList_trim_url, stripStart_append (by decide),
    stripStart_of_not_prefix hurl, stripStart_of_not_prefix hscheme]

theorem startsWith_trim_ofArgument :
    startsWith (Blank.trim (ofArgument path)) scheme = true := by
  rw [startsWith, ofArgument_eq h, toList_trim_url]
  rfl

theorem isKnown_ofArgument : isKnown (Blank.trim (ofArgument path)) = true := by
  rw [isKnown_trim]
  exact startsWith_trim_ofArgument h

end

/-! ## What is opened -/

/-- The path of a file address has no more bytes than the address. -/
theorem length_addressPath? {address : List Char} {p : String} (h : addressPath? address = some p) :
    (Percent.bytes p.toList).length ≤ (Percent.bytes address).length := by
  obtain ⟨cs, hcs, hp⟩ := Option.bind_eq_some_iff.1 h
  have hsub : cs.Sublist address := by
    split at hcs
    · dsimp only at hcs
      split at hcs
      · cases hcs
        exact (List.dropWhile_sublist _).trans
          ((List.sublist_cons_self _ _).trans (List.sublist_cons_self _ _))
      · cases hcs
    · cases hcs
      exact List.Sublist.refl _
  have hdecoded := Percent.length_bytes_le_of_decode? hp
  rw [String.toList_ofList] at hdecoded
  exact hdecoded.trans (Percent.bytes_sublist ((List.takeWhile_sublist _).trans hsub)).1

/-- A file that a layer opens is that of the path. -/
theorem Location.ofPath_eq_file {layer path p : String} (h : ofPath layer path = .file p) :
    p = path ∧ p ≠ "" := by
  unfold ofPath at h
  repeat' split at h
  all_goals cases h
  rename_i hempty _ _
  exact ⟨rfl, by simpa using hempty⟩

/-- What is opened is the path of the target, or something with fewer bytes. -/
theorem Target.location?_eq_file {t : Target} {p : String} (h : t.location? = some (.file p)) :
    (p = t.path ∧ p ≠ "" ∧ startsWith p "file:" = false) ∨
      (Percent.bytes p.toList).length < (Percent.bytes t.path.toList).length := by
  rw [location?] at h
  split at h
  · cases h
  · split at h
    · cases h
    · split at h
      · rename_i haddress
        obtain ⟨q, hq, h⟩ := Option.map_eq_some_iff.1 h
        obtain rfl := (Location.ofPath_eq_file h).1
        have hle := length_addressPath? hq
        have hprefix : "file:".toList <+: t.path.toList := List.isPrefixOf_iff_prefix.1 haddress
        -- An address loses its scheme, so what it names is shorter than itself.
        have hdrop : t.path.toList.drop 5 ≠ t.path.toList := by
          intro heq
          have hlength := congrArg List.length heq
          have hfive : 5 ≤ t.path.toList.length := hprefix.length_le
          rw [List.length_drop] at hlength
          omega
        have hsub := Percent.bytes_sublist (List.drop_sublist 5 t.path.toList)
        refine .inr (Nat.lt_of_le_of_ne (hle.trans hsub.1) fun heq => hdrop (hsub.2 ?_))
        rw [← heq]
        exact hle
      · rename_i haddress
        obtain ⟨rfl, hempty⟩ := Location.ofPath_eq_file (Option.some.inj h)
        exact .inl ⟨rfl, hempty, by simpa using haddress⟩

section

variable (h : startsWith path scheme = false)
include h

/-- By sight, a path without a query and without blanks after it is searched for both markers. -/
theorem isMemory_ofArgument (htrimmed : trimmedPath path = path.toList)
    (hquery : '?' ∉ path.toList) :
    isMemory (ofArgument path) = true ↔
      occursIn "mode=memory" path = true ∨ endsWith path ":memory:" = true := by
  have hrest : afterSchemes (Blank.trim (ofArgument path)) = path.toList := by
    rw [afterSchemes_ofArgument h, htrimmed]
  obtain ⟨hraw, hnone⟩ := rawPath_of_notMem (hrest ▸ hquery)
  rw [isMemory_iff (startsWith_trim_ofArgument h), hraw, hnone, hrest, occursIn, occursInChars_iff,
    endsWith, List.isSuffixOf_iff_suffix]
  refine or_congr_right (or_iff_left ?_)
  rintro ⟨hpath, hsuffix⟩
  rw [ofArgument_eq h, toList_trim_url, htrimmed, hpath] at hsuffix
  revert hsuffix
  decide

/-- If the file of the path is opened, nothing was left out of the path on the way to it. -/
theorem literal_of_opensFile (hopens : OpensFile (ofArgument path) path) : Literal path := by
  obtain ⟨t, ht, hmemory, hsight, hlocation⟩ := hopens
  have hrest := afterSchemes_ofArgument h
  have hdecode := decode?_rawPath ht hmemory
  have hbytes := Percent.length_bytes_le_of_decode? hdecode
  rw [String.toList_ofList] at hbytes
  -- Decoding, cutting at the query and trimming make a path shorter or leave it as it is.  The file
  -- that is opened has the whole path for its name, so that none of them did anything.
  have hend := Percent.bytes_sublist (trimmedPath_prefix_path path).sublist
  have hcut := Percent.bytes_sublist (hrest ▸ rawPath_sublist (Blank.trim (ofArgument path)))
  rcases Target.location?_eq_file hlocation with ⟨hpath, hnonempty, haddress⟩ | hlt
  · rw [← hpath] at hdecode hbytes
    have htrimmed : trimmedPath path = path.toList := hend.2 (hbytes.trans hcut.1)
    have hraw : rawPath (Blank.trim (ofArgument path)) = path.toList := by
      rw [← htrimmed]
      exact hcut.2 (hend.1.trans hbytes)
    have hquery : '?' ∉ path.toList := by
      rw [← hraw]
      exact notMem_rawPath _
    have hneither := (isMemory_ofArgument h htrimmed hquery).not.1 (by simp [hsight])
    rw [not_or, Bool.not_eq_true, Bool.not_eq_true] at hneither
    rw [hraw, String.ofList_toList] at hdecode
    exact
      { nonempty := hnonempty
        query := hquery
        code := Percent.not_hasCode_of_decode? hdecode (Nat.le_refl _)
        blank := fun c hc => by
          have hne : path.toList ≠ [] := by
            intro hnil
            rw [hnil] at hc
            cases hc
          have hlast := List.rdropWhile_eq_self_iff.1 htrimmed hne
          rw [List.getLast?_eq_some_getLast hne] at hc
          exact Bool.eq_false_iff.2 (Option.some.inj hc ▸ hlast)
        address := haddress
        marker := hneither.2
        mode := hneither.1 }
  · omega

/-- A literal path is opened as it stands. -/
theorem opensFile_of_literal (hpath : Literal path) : OpensFile (ofArgument path) path := by
  have htrimmed : trimmedPath path = path.toList := by
    refine List.rdropWhile_eq_self_iff.2 fun hne => ?_
    rw [hpath.blank _ (List.getLast?_eq_some_getLast hne)]
    exact Bool.false_ne_true
  have hrest : afterSchemes (Blank.trim (ofArgument path)) = path.toList := by
    rw [afterSchemes_ofArgument h, htrimmed]
  obtain ⟨hraw, hquery⟩ := rawPath_of_notMem (hrest ▸ hpath.query)
  rw [hrest] at hraw
  have hmemory : path ≠ ":memory:" := by
    rintro rfl
    exact absurd hpath.marker (by decide)
  have htarget : target? (Blank.trim (ofArgument path)) = some { path } := by
    rw [target?_eq, hraw, hquery, if_neg (by rwa [String.toList_inj]), String.ofList_toList,
      Percent.decode?_of_not_hasCode hpath.code]
    rfl
  have hsight : isMemory (ofArgument path) = false := by
    rw [← Bool.not_eq_true, isMemory_ofArgument h htrimmed hpath.query, hpath.mode, hpath.marker]
    decide
  have hlocation : ({ path } : Target).location? = some (.file path) := by
    have hempty : path.isEmpty = false := by simpa using hpath.nonempty
    simp [Target.location?, Location.ofPath, layers, hmemory, hpath.address, hempty]
  exact ⟨{ path }, htarget, rfl, hsight, hlocation⟩

/-- A name made of a path has the scheme, and by it the driver opens exactly the file of that path
just if the path is literal. -/
theorem opensFile_ofArgument :
    isKnown (Blank.trim (ofArgument path)) = true ∧
      (OpensFile (ofArgument path) path ↔ Literal path) :=
  ⟨isKnown_ofArgument h, literal_of_opensFile h, opensFile_of_literal h⟩

end

/-- A path with a percent code makes the driver open the file of another path. -/
theorem opensFile_ofArgument_coded :
    startsWith "50%25.db" scheme = false ∧ ¬ OpensFile (ofArgument "50%25.db") "50%25.db" ∧
      OpensFile (ofArgument "50%25.db") "50%.db" ∧
      OpensFile (ofArgument "plants.db") "plants.db" := by
  have hother : target? (Blank.trim (ofArgument "50%25.db")) = some { path := "50%.db" } := by
    decide +kernel
  refine ⟨by decide, fun hopens => ?_, ⟨_, hother, rfl, by decide, by decide⟩, ?_⟩
  · have hliteral := (opensFile_ofArgument (by decide)).2.1 hopens
    exact hliteral.code ⟨"50".toList, '2', '5', ".db".toList, rfl, by decide, by decide⟩
  · refine (opensFile_ofArgument (by decide)).2.2 ⟨by decide, by decide, ?code, ?blank, by decide,
      by decide, by decide⟩
    case code =>
      rintro ⟨before, high, low, after, htext, -⟩
      have hpercent : '%' ∈ "plants.db".toList := by
        rw [htext]
        exact List.mem_append_right _ List.mem_cons_self
      revert hpercent
      decide
    case blank =>
      intro c hc
      cases hc
      decide

end Dsn
end Espalier
