import TapeMachine.Files
import TapeMachine.Proofs.Outcome
import TapeMachine.Proofs.TextParts

/-!
# Paths

Every location that a path leads to has a shortest path, and this one leads back to it. So
what is written to a file is found again at the path that it was written to.
-/

namespace TapeMachine

namespace Location

/-- Whether a name stands for something in a directory. -/
def IsName (name : List Char) : Prop := name ≠ [] ∧ '/' ∉ name ∧ Files.isDots name = false

/-- A location of which every name stands for something. -/
def Proper (l : Location) : Prop := ∀ name ∈ l.names, IsName name

/-- A path starts at a proper location. -/
private theorem proper_startOf (path : String) : Proper (startOf path) := by
  unfold startOf
  split
  · exact fun name hname => nomatch hname
  · exact fun name hname => nomatch hname

/-- The location above a proper one is proper. -/
theorem Proper.parent {l : Location} (hl : Proper l) : Proper l.parent := by
  unfold Location.parent
  split
  · exact hl
  · exact fun name hname => nomatch hname
  · exact fun name hname => hl name (List.dropLast_subset _ hname)

/-- A name that is no dots is added to a location. -/
theorem step_of_isName {name : List Char} (hname : IsName name) (l : Location) :
    l.step name = { l with names := l.names ++ [name] } := by
  obtain ⟨_, _, hdots⟩ := hname
  rw [Files.isDots, Bool.or_eq_false_iff] at hdots
  unfold step
  rw [if_neg (by simpa using hdots.1), if_neg (by simpa using hdots.2)]

/-- A step by a name or dots from a proper location is proper. -/
theorem Proper.step {l : Location} (hl : Proper l) {name : List Char} (hne : name ≠ [])
    (hslash : '/' ∉ name) : Proper (l.step name) := by
  by_cases hdots : Files.isDots name = true
  · rw [Files.isDots, Bool.or_eq_true, beq_iff_eq, beq_iff_eq] at hdots
    rcases hdots with rfl | rfl
    · exact hl
    · exact hl.parent
  · have hname : IsName name := ⟨hne, hslash, by simpa using hdots⟩
    rw [step_of_isName hname]
    intro other hother
    rcases List.mem_append.mp hother with hother | hother
    · exact hl other hother
    · rwa [List.mem_singleton.mp hother]

/-- The names in a path are not empty, and free of slashes. -/
theorem mem_namesOf {path : String} {name : List Char} (hname : name ∈ namesOf path) :
    name ≠ [] ∧ '/' ∉ name := by
  obtain ⟨hne, hslash⟩ := Text.mem_fieldsBy hname
  exact ⟨hne, fun hmem => nomatch hslash '/' hmem⟩

/-- Steps by names append these names. -/
theorem foldl_step_of_isName {names : List (List Char)} (hnames : ∀ name ∈ names, IsName name)
    (l : Location) : names.foldl step l = { l with names := l.names ++ names } := by
  induction names generalizing l with
  | nil => simp
  | cons name names ih =>
    obtain ⟨hname, hrest⟩ := List.forall_mem_cons.mp hnames
    rw [List.foldl_cons, step_of_isName hname, ih hrest]
    simp

/-- Steps by dots go up from where a path starts. -/
private theorem foldl_step_dots (levels more : Nat) :
    (List.replicate more ['.', '.']).foldl step ⟨.above levels, []⟩ =
      ⟨.above (levels + more), []⟩ := by
  induction more generalizing levels with
  | zero => rfl
  | succ more ih =>
    rw [List.replicate_succ, List.foldl_cons]
    have hup : step ⟨.above levels, []⟩ ['.', '.'] = ⟨.above (levels + 1), []⟩ := rfl
    rw [hup, ih, Nat.add_assoc, Nat.add_comm 1]

/-- Names between slashes are the fields. -/
private theorem fieldsBy_slash_names {names : List (List Char)}
    (hnames : ∀ name ∈ names, IsName name) :
    Text.fieldsBy (· == '/') (['/'].intercalate names) = names :=
  Text.fieldsBy_intercalate fun name hname => ⟨(hnames name hname).1, (hnames name hname).2.1⟩

/-- Dots in front of a path are the first fields. -/
private theorem fieldsBy_slash_dots (levels : Nat) (cs : List Char) :
    Text.fieldsBy (· == '/') ((List.replicate levels ['.', '.', '/']).flatten ++ cs) =
      List.replicate levels ['.', '.'] ++ Text.fieldsBy (· == '/') cs := by
  induction levels with
  | zero => rfl
  | succ levels ih =>
    have hslash : Text.fieldsBy (· == '/') (['.', '.'] ++
        '/' :: ((List.replicate levels ['.', '.', '/']).flatten ++ cs)) = _ :=
      Text.fieldsBy_append_cons rfl _ _
    rw [List.replicate_succ, List.flatten_cons, List.append_assoc]
    exact hslash.trans (congrArg (['.', '.'] :: ·) ih)

/-- A path that begins with a slash starts at the root. -/
private theorem startOf_root (cs : List Char) : startOf (String.ofList ('/' :: cs)) =
    ⟨.root, []⟩ := by
  unfold startOf
  rw [String.toList_ofList]
  rfl

/-- A text that is joined from names does not begin with a slash. -/
private theorem head?_intercalate_ne {names : List (List Char)}
    (hnames : ∀ name ∈ names, IsName name) : (['/'].intercalate names).head? ≠ some '/' := by
  cases names with
  | nil => simp
  | cons name names =>
    obtain ⟨hne, hslash, _⟩ := hnames name List.mem_cons_self
    obtain ⟨c, cs, rfl⟩ := List.exists_cons_of_ne_nil hne
    have hc : c ≠ '/' := fun h => hslash (h ▸ List.mem_cons_self)
    cases names with
    | nil => simpa using hc
    | cons other others => simpa [List.intercalate_cons_cons] using hc

/-- The shortest path to a location leads there. -/
theorem Proper.ofPath_path {l : Location} (hl : Proper l) : ofPath l.path = l := by
  obtain ⟨base, names⟩ := l
  have hnames := fieldsBy_slash_names hl
  unfold ofPath namesOf path
  cases base with
  | root =>
    have hslash : Text.fieldsBy (· == '/') ([] ++ '/' :: ['/'].intercalate names) = _ :=
      Text.fieldsBy_append_cons rfl _ _
    dsimp only at hnames ⊢
    rw [List.singleton_append, startOf_root, String.toList_ofList]
    rw [List.nil_append, hnames] at hslash
    rw [hslash]
    exact foldl_step_of_isName hl _
  | above levels =>
    dsimp only at hnames ⊢
    have hstart : startOf (String.ofList ((List.replicate levels ['.', '.', '/']).flatten ++
        ['/'].intercalate names)) = working := by
      unfold startOf
      rw [String.toList_ofList]
      cases levels with
      | zero => exact if_neg (head?_intercalate_ne hl)
      | succ levels => rfl
    rw [hstart, String.toList_ofList, fieldsBy_slash_dots, hnames, List.foldl_append, working,
      foldl_step_dots, foldl_step_of_isName hl]
    simp

end Location

namespace Files

variable {files : Files} {key text : String}

/-- Files with a text under a key. -/
def put (files : Files) (key text : String) : Files :=
  { files with contents := files.contents.insert key text }

/-- A text that is written to an empty file is all that it holds. -/
theorem append_put (files : Files) (key text : String) :
    (files.put key "").append key text = files.put key text := by
  unfold put append
  congr 1
  refine Std.ExtTreeMap.ext_getElem? fun other => ?_
  simp only [Std.ExtTreeMap.getElem?_modify, Std.ExtTreeMap.getElem?_insert]
  split
  · simp
  · rfl

/-! ## Directories stay -/

/-- A file makes directories, and removes none. -/
theorem isDirectory_put {l : Location} (hl : files.isDirectory l = true) (key text : String) :
    (files.put key text).isDirectory l = true := by
  simp only [isDirectory, Bool.or_eq_true, List.any_eq_true] at hl ⊢
  rcases hl with hl | ⟨other, hother, hfront⟩
  · exact .inl hl
  · refine .inr ⟨other, ?_, hfront⟩
    rw [Std.ExtTreeMap.mem_keys] at hother ⊢
    exact Std.ExtTreeMap.mem_insert.mpr (.inr hother)

/-- A directory is still one when a file is written. -/
theorem kind?_put_of_directory {l : Location} (hl : files.kind? l = some .directory)
    (key text : String) : (files.put key text).kind? l = some .directory := by
  unfold kind? at hl ⊢
  split at hl
  · cases hl
  · split at hl
    · next hdirectory => rw [if_pos (isDirectory_put hdirectory key text)]
    · split at hl
      · cases hl
      · cases hl

/-- A directory is entered by the step to it. -/
theorem enter_eq_ok_iff {here l : Location} {name : List Char} :
    files.enter here name = .ok l ↔
      Text.byteLength name ≤ nameLimit ∧ files.kind? (here.step name) = some .directory ∧
        l = here.step name := by
  unfold enter find
  by_cases hlong : nameLimit < Text.byteLength name
  · rw [if_pos hlong]
    simp [Nat.not_le.mpr hlong]
  · rw [if_neg hlong]
    dsimp only
    have hfits : Text.byteLength name ≤ nameLimit := Nat.not_lt.mp hlong
    cases files.kind? (here.step name) with
    | none => simp
    | some kind => cases kind <;> simp [hfits, eq_comm]

/-- A directory can still be entered when a file is written. -/
private theorem enter_put {here l : Location} {name : List Char}
    (henter : files.enter here name = .ok l)
    (key text : String) : (files.put key text).enter here name = .ok l := by
  obtain ⟨hfits, hkind, hl⟩ := enter_eq_ok_iff.mp henter
  exact enter_eq_ok_iff.mpr ⟨hfits, kind?_put_of_directory hkind key text, hl⟩

/-- Directories can still be entered one after the other when a file is written. -/
private theorem foldlM_enter_put {names : List (List Char)} {start here : Location}
    (hfold : names.foldlM files.enter start = .ok here) (key text : String) :
    names.foldlM (files.put key text).enter start = .ok here := by
  induction names generalizing start with
  | nil => exact hfold
  | cons name names ih =>
    rw [List.foldlM_cons, Outcome.bind_eq_ok_iff] at hfold ⊢
    obtain ⟨l, henter, hrest⟩ := hfold
    exact ⟨l, enter_put henter key text, ih hrest⟩

/-- Entering directories leads from a proper location to a proper one. -/
theorem proper_of_foldlM_enter {names : List (List Char)} {start here : Location}
    (hfold : names.foldlM files.enter start = .ok here) (hstart : start.Proper)
    (hnames : ∀ name ∈ names, name ≠ [] ∧ '/' ∉ name) : here.Proper := by
  induction names generalizing start with
  | nil =>
    cases hfold
    exact hstart
  | cons name names ih =>
    rw [List.foldlM_cons, Outcome.bind_eq_ok_iff] at hfold
    obtain ⟨l, henter, hrest⟩ := hfold
    obtain ⟨_, _, rfl⟩ := enter_eq_ok_iff.mp henter
    obtain ⟨hname, hothers⟩ := List.forall_mem_cons.mp hnames
    exact ih hrest (hstart.step hname.1 hname.2) hothers

/-- How the way to the last name of a path is found. -/
theorem approach_eq_ok_iff {path : String} {here : Location} {last : List Char} :
    files.approach path = .ok (here, some last) ↔
      path.isEmpty = false ∧ path.toList.contains '\x00' = false ∧
        Text.byteLength path.toList ≤ pathLimit ∧
        (Location.namesOf path).getLast? = some last ∧ isDots last = false ∧
        (Location.namesOf path).dropLast.foldlM files.enter (Location.startOf path) = .ok here := by
  unfold approach
  constructor
  · intro hok
    by_cases hempty : path.isEmpty = true
    · rw [if_pos hempty] at hok
      cases hok
    by_cases hnull : path.toList.contains '\x00' = true
    · rw [if_neg hempty, if_pos hnull] at hok
      cases hok
    by_cases hlong : pathLimit < Text.byteLength path.toList
    · rw [if_neg hempty, if_neg hnull, if_pos hlong] at hok
      cases hok
    rw [if_neg hempty, if_neg hnull, if_neg hlong] at hok
    dsimp only at hok
    cases hlast : (Location.namesOf path).getLast? with
    | none =>
      rw [hlast] at hok
      cases hok
    | some name =>
      rw [hlast] at hok
      dsimp only at hok
      by_cases hdots : isDots name = true
      · rw [if_pos hdots] at hok
        obtain ⟨l, _, hl⟩ := Outcome.bind_eq_ok_iff.mp hok
        cases hl
      · rw [if_neg hdots] at hok
        obtain ⟨l, hfold, hl⟩ := Outcome.bind_eq_ok_iff.mp hok
        cases hl
        exact ⟨by simpa using hempty, by simpa using hnull, Nat.not_lt.mp hlong, rfl,
          by simpa using hdots, hfold⟩
  · rintro ⟨hempty, hnull, hlong, hlast, hdots, hfold⟩
    rw [if_neg (by simp [hempty]), if_neg (by simp only [hnull]; decide),
      if_neg (Nat.not_lt.mpr hlong)]
    dsimp only
    rw [hlast]
    dsimp only
    rw [if_neg (by simp [hdots]), hfold]
    rfl

/-- A path still leads to the same place when a file is written. -/
private theorem approach_put {path : String} {here : Location} {last : List Char}
    (happroach : files.approach path = .ok (here, some last)) (key text : String) :
    (files.put key text).approach path = .ok (here, some last) := by
  obtain ⟨hempty, hnull, hlong, hlast, hdots, hfold⟩ := approach_eq_ok_iff.mp happroach
  exact approach_eq_ok_iff.mpr
    ⟨hempty, hnull, hlong, hlast, hdots, foldlM_enter_put hfold key text⟩

/-- The last name of a path leads to a location with a path of its own. -/
theorem proper_of_approach {path : String} {here : Location} {last : List Char}
    (happroach : files.approach path = .ok (here, some last)) : (here.step last).Proper := by
  obtain ⟨_, _, _, hlast, _, hfold⟩ := approach_eq_ok_iff.mp happroach
  have hnames : ∀ name ∈ (Location.namesOf path).dropLast, name ≠ [] ∧ '/' ∉ name :=
    fun name hname => Location.mem_namesOf (List.dropLast_subset _ hname)
  have hhere := proper_of_foldlM_enter hfold (Location.proper_startOf path) hnames
  obtain ⟨hne, hslash⟩ := Location.mem_namesOf (List.mem_of_getLast? hlast)
  exact hhere.step hne hslash

/-! ## Files that were written -/

/-- What is found under a name. -/
theorem find_eq_ok_iff {here l : Location} {name : List Char} {kind : Option EntryKind} :
    files.find here name = .ok (l, kind) ↔
      Text.byteLength name ≤ nameLimit ∧ l = here.step name ∧ files.kind? l = kind := by
  unfold find
  by_cases hlong : nameLimit < Text.byteLength name
  · rw [if_pos hlong]
    simp [Nat.not_le.mpr hlong]
  · rw [if_neg hlong]
    simp only [Except.ok.injEq, Prod.mk.injEq, Nat.not_lt.mp hlong, true_and]
    constructor
    · rintro ⟨rfl, rfl⟩
      exact ⟨rfl, rfl⟩
    · rintro ⟨rfl, rfl⟩
      exact ⟨rfl, rfl⟩

/-- What is neither a directory nor a device is a file or missing. -/
theorem kind?_cases {l : Location} (hdirectory : files.kind? l ≠ some .directory)
    (hdevice : ∀ d, files.kind? l ≠ some (.device d)) :
    device? l.path = none ∧ files.isDirectory l = false := by
  unfold kind? at hdirectory hdevice
  cases hd : device? l.path with
  | some d =>
    rw [hd] at hdevice
    exact absurd rfl (hdevice d)
  | none =>
    rw [hd] at hdirectory
    refine ⟨rfl, ?_⟩
    by_contra hl
    rw [Bool.not_eq_false] at hl
    dsimp only at hdirectory
    rw [if_pos hl] at hdirectory
    exact hdirectory rfl

/-- A path that can be written to leads to no device and no directory. -/
theorem target_eq_file {path : String} (htarget : files.target path = .ok (.file key)) :
    ∃ here last, files.approach path = .ok (here, some last) ∧ endsInSlash path = false ∧
      Text.byteLength last ≤ nameLimit ∧ key = (here.step last).path ∧
      device? (here.step last).path = none ∧ files.isDirectory (here.step last) = false := by
  unfold target at htarget
  obtain ⟨⟨here, found⟩, happroach, htarget⟩ := Outcome.bind_eq_ok_iff.mp htarget
  cases found with
  | none => cases htarget
  | some last =>
    dsimp only at htarget
    by_cases hslash : endsInSlash path = true
    · rw [if_pos hslash] at htarget
      cases htarget
    rw [if_neg hslash] at htarget
    obtain ⟨⟨l, kind⟩, hfind, htarget⟩ := Outcome.bind_eq_ok_iff.mp htarget
    obtain ⟨hfits, rfl, rfl⟩ := find_eq_ok_iff.mp hfind
    have hkind : files.kind? (here.step last) ≠ some .directory ∧
        (∀ d, files.kind? (here.step last) ≠ some (.device d)) ∧ key = (here.step last).path := by
      dsimp only at htarget
      split at htarget
      · cases htarget
      · cases htarget
      · next hkind =>
        cases htarget
        simp [hkind]
      · next hkind =>
        cases htarget
        simp [hkind]
    obtain ⟨hdirectory, hdevice, hkey⟩ := hkind
    exact ⟨here, last, happroach, by simpa using hslash, hfits, hkey,
      kind?_cases hdirectory hdevice⟩

/-- A location that holds no directory is not made one by a file at it. -/
theorem kind?_put {l : Location} (hl : l.Proper) (hdevice : device? l.path = none)
    (hdirectory : files.isDirectory l = false) (text : String) :
    (files.put l.path text).kind? l = some .file := by
  have hfile : (files.put l.path text).isDirectory l = false := by
    simp only [isDirectory, Bool.or_eq_false_iff, List.any_eq_false] at hdirectory ⊢
    refine ⟨hdirectory.1, fun other hother => ?_⟩
    rw [Std.ExtTreeMap.mem_keys] at hother
    rcases Std.ExtTreeMap.mem_insert.mp hother with hsame | hother
    · -- The path of the new file leads to the location itself, not below it.
      obtain rfl : l.path = other := by simpa using hsame
      simp [hl.ofPath_path]
    · exact hdirectory.2 other (Std.ExtTreeMap.mem_keys.mpr hother)
  unfold kind?
  rw [hdevice]
  dsimp only
  rw [hfile, if_neg (by decide)]
  exact if_pos Std.ExtTreeMap.contains_insert_self

/-- What was written to a path is read there. -/
theorem openRead_put {path : String} (htarget : files.target path = .ok (.file key))
    (text stdin : String) : (files.put key text).openRead stdin path = .ok { text } := by
  obtain ⟨here, last, happroach, hslash, hfits, rfl, hdevice, hdirectory⟩ := target_eq_file htarget
  have hkind := kind?_put (proper_of_approach happroach) hdevice hdirectory text
  have hfind : (files.put (here.step last).path text).find here last =
      .ok (here.step last, some .file) := find_eq_ok_iff.mpr ⟨hfits, rfl, hkind⟩
  have hplace : (files.put (here.step last).path text).place path =
      .ok (here.step last, some .file) := by
    unfold place
    rw [approach_put happroach]
    change (files.put (here.step last).path text).find here last >>= _ = _
    rw [hfind]
    change (if endsInSlash path = true then _ else _) = _
    rw [if_neg (by simp [hslash])]
    rfl
  have htext :
      (files.put (here.step last).path text).contents[(here.step last).path]? = some text :=
    Std.ExtTreeMap.getElem?_insert_self
  unfold openRead
  rw [hplace]
  dsimp only
  rw [htext, Option.getD_some]

/-- Nothing is at the empty path. -/
theorem openRead_of_isEmpty {path : String} (hpath : path.isEmpty = true) (files : Files)
    (stdin : String) : files.openRead stdin path = .error ⟨"open", path, .missing⟩ := by
  unfold openRead place approach
  rw [if_pos hpath]
  rfl

/-- A path to a file is not empty. -/
theorem isEmpty_of_target {path : String} (htarget : files.target path = .ok (.file key)) :
    path.isEmpty = false := by
  obtain ⟨_, _, happroach, _⟩ := target_eq_file htarget
  exact (approach_eq_ok_iff.mp happroach).1

end Files

end TapeMachine
