import ComponentFile.Discovery.Search
import ComponentFile.Proofs.Discovery.Paths
import Mathlib.Data.List.Forall2
import Mathlib.Data.List.Lex
import Mathlib.Data.List.Sort

/-!
# What a search finds

A path stands for the file it leads to, or for the files with a wanted ending below the directory it
leads to, except those behind a hidden entry. The search lists what its arguments stand for, each
path once up to the way it is written, in the order of paths. So neither the order of the arguments
nor that of the entries of a directory matters.
-/

namespace ComponentFile.Discovery

/-! ## Files below a directory -/

/-- The names of entries, one after the other, lead from a tree to a file. -/
inductive LeadsTo : FileTree → List Text → ByteArray → Prop
  | here (content : ByteArray) : LeadsTo (.file content) [] content
  | entry {entries : List (Text × FileTree)} {name : Text} {tree : FileTree} {names : List Text}
      {content : ByteArray}
      (hentry : (name, tree) ∈ entries) (h : LeadsTo tree names content) :
      LeadsTo (.directory entries) (name :: names) content

/-- The names lead to a file with a wanted ending, and none of them is hidden. -/
structure Reaches (extensions : List Text) (tree : FileTree) (names : List Text)
    (content : ByteArray) : Prop where
  leads : LeadsTo tree names content
  visible : ∀ name ∈ names, name.head? ≠ some '.'
  ending : ∃ last ∈ names.getLast?, EndsIn extensions last

/-- The path of what the names lead to from a directory. -/
def pathBelow (directory : Text) (names : List Text) : Text := names.foldl entryPath directory

theorem isHidden_eq_false_iff {name : Text} : isHidden name = false ↔ name.head? ≠ some '.' := by
  rw [isHidden, beq_eq_false_iff_ne]

section

variable {extensions : List Text} {name : Text} {tree : FileTree} {rest : List (Text × FileTree)}
  {names : List Text}
  {content found : ByteArray}

/-- The first name is that of an entry, and the others lead on from there. -/
theorem leadsTo_directory_cons_iff :
    LeadsTo (.directory ((name, tree) :: rest)) names content ↔
      (∃ below, names = name :: below ∧ LeadsTo tree below content) ∨
        LeadsTo (.directory rest) names content := by
  constructor
  · rintro ⟨⟩
    next hentry h =>
    rcases List.mem_cons.mp hentry with he | hentry
    · obtain ⟨rfl, rfl⟩ := Prod.mk.inj he
      exact .inl ⟨_, rfl, h⟩
    · exact .inr (.entry hentry h)
  · rintro (⟨below, rfl, h⟩ | h)
    · exact .entry List.mem_cons_self h
    · cases h with
      | entry hentry h => exact .entry (List.mem_cons_of_mem _ hentry) h

private theorem not_reaches_nil : ¬Reaches extensions (.directory []) names content := by
  rintro ⟨⟨⟩, -, -⟩
  next hentry _ => exact List.not_mem_nil hentry

/-- A file among the entries is reached by its name. -/
theorem reaches_file_cons_iff :
    Reaches extensions (.directory ((name, .file found) :: rest)) names content ↔
      (names = [name] ∧ content = found ∧ name.head? ≠ some '.' ∧ EndsIn extensions name) ∨
        Reaches extensions (.directory rest) names content := by
  constructor
  · rintro ⟨hleads, hvisible, hending⟩
    rcases leadsTo_directory_cons_iff.mp hleads with ⟨below, rfl, hbelow⟩ | hleads
    · cases hbelow
      obtain ⟨last, hlast, hends⟩ := hending
      obtain rfl : name = last := Option.some.inj hlast
      exact .inl ⟨rfl, rfl, hvisible name List.mem_cons_self, hends⟩
    · exact .inr ⟨hleads, hvisible, hending⟩
  · rintro (⟨rfl, rfl, hvisible, hends⟩ | h)
    · refine ⟨leadsTo_directory_cons_iff.mpr (.inl ⟨[], rfl, .here _⟩), ?_, name, rfl, hends⟩
      exact List.forall_mem_singleton.mpr hvisible
    · exact ⟨leadsTo_directory_cons_iff.mpr (.inr h.leads), h.visible, h.ending⟩

/-- What is below a directory among the entries is reached by its name and then from there. -/
theorem reaches_directory_cons_iff {entries : List (Text × FileTree)} :
    Reaches extensions (.directory ((name, .directory entries) :: rest)) names content ↔
      (name.head? ≠ some '.' ∧ ∃ below, names = name :: below ∧
        Reaches extensions (.directory entries) below content) ∨
      Reaches extensions (.directory rest) names content := by
  constructor
  · rintro ⟨hleads, hvisible, hending⟩
    rcases leadsTo_directory_cons_iff.mp hleads with ⟨below, rfl, hbelow⟩ | hleads
    · obtain ⟨hname, hothers⟩ := List.forall_mem_cons.mp hvisible
      cases hbelow with
      | entry hentry h => exact .inl ⟨hname, _, rfl, .entry hentry h, hothers, hending⟩
    · exact .inr ⟨hleads, hvisible, hending⟩
  · rintro (⟨hname, below, rfl, hleads, hvisible, hending⟩ | h)
    · refine ⟨leadsTo_directory_cons_iff.mpr (.inl ⟨below, rfl, hleads⟩),
        List.forall_mem_cons.mpr ⟨hname, hvisible⟩, ?_⟩
      cases hleads with
      | entry hentry h => exact hending
    · exact ⟨leadsTo_directory_cons_iff.mpr (.inr h.leads), h.visible, h.ending⟩

end

/-- The search below a directory finds what can be reached from it. -/
theorem mem_searchEntries_iff (extensions : List Text) (file : SourceFile) :
    ∀ (entries : List (Text × FileTree)) (path : Text),
        file ∈ searchEntries extensions path entries ↔
      ∃ names, Reaches extensions (.directory entries) names file.content ∧
        file.path = pathBelow path names
  | [], path => by
    rw [searchEntries]
    exact iff_of_false List.not_mem_nil fun ⟨_, hreaches, _⟩ => not_reaches_nil hreaches
  | (name, .file content) :: rest, path => by
    have hrest := mem_searchEntries_iff extensions file rest path
    rw [searchEntries]
    simp only [reaches_file_cons_iff, or_and_right, exists_or, ← hrest]
    split
    · next hkept =>
      rw [Bool.and_eq_true, Bool.not_eq_true', isHidden_eq_false_iff] at hkept
      rw [hasExtension_iff hkept.1] at hkept
      rw [List.mem_cons]
      refine or_congr_left ?_
      constructor
      · rintro rfl
        exact ⟨[name], ⟨rfl, rfl, hkept⟩, rfl⟩
      · rintro ⟨_, ⟨rfl, hcontent, -⟩, hpath⟩
        cases file
        cases hcontent
        cases hpath
        rfl
    · next hleft =>
      refine (or_iff_right ?_).symm
      rintro ⟨_, ⟨rfl, -, hvisible, hends⟩, -⟩
      refine hleft ?_
      rw [Bool.and_eq_true, Bool.not_eq_true', isHidden_eq_false_iff, hasExtension_iff hvisible]
      exact ⟨hvisible, hends⟩
  | (name, .directory entries) :: rest, path => by
    have hrest := mem_searchEntries_iff extensions file rest path
    have hbelow := mem_searchEntries_iff extensions file entries (entryPath path name)
    rw [searchEntries]
    simp only [reaches_directory_cons_iff, or_and_right, exists_or, ← hrest]
    split
    · next hhidden =>
      refine (or_iff_right ?_).symm
      rintro ⟨_, ⟨hvisible, -⟩, -⟩
      rw [← isHidden_eq_false_iff, hhidden] at hvisible
      cases hvisible
    · next hvisible =>
      rw [Bool.not_eq_true, isHidden_eq_false_iff] at hvisible
      rw [List.mem_append, search, hbelow]
      refine or_congr_left ?_
      constructor
      · rintro ⟨below, hreaches, hpath⟩
        exact ⟨name :: below, ⟨hvisible, below, rfl, hreaches⟩, hpath⟩
      · rintro ⟨_, ⟨-, below, rfl, hreaches⟩, hpath⟩
        exact ⟨below, hreaches, hpath⟩

/-! ## Order and repeats -/

/-- Sorted files are in order, though paths may repeat. -/
theorem pairwise_sortFiles (files : List SourceFile) :
    (sortFiles files).Pairwise fun left right => pathKey left.path ≤ pathKey right.path := by
  have hle (left right : SourceFile) :
      (!decide (pathKey right.path < pathKey left.path)) = true ↔
        pathKey left.path ≤ pathKey right.path := by
    rw [Bool.not_eq_true', decide_eq_false_iff_not, not_lt]
  have htrans (first second third : SourceFile)
      (h₁ : (!decide (pathKey second.path < pathKey first.path)) = true)
      (h₂ : (!decide (pathKey third.path < pathKey second.path)) = true) :
      (!decide (pathKey third.path < pathKey first.path)) = true := by
    rw [hle] at h₁ h₂ ⊢
    exact h₁.trans h₂
  have htotal (left right : SourceFile) : (!decide (pathKey right.path < pathKey left.path) ||
      !decide (pathKey left.path < pathKey right.path)) = true := by
    rw [Bool.or_eq_true, hle, hle]
    exact le_total _ _
  exact (List.pairwise_mergeSort htrans htotal files).imp fun h => (hle _ _).mp h

theorem mem_sortFiles_iff {files : List SourceFile} {file : SourceFile} :
    file ∈ sortFiles files ↔ file ∈ files :=
  (List.mergeSort_perm files _).mem_iff

/-- Dropping repeats leaves some of the files, in their order. -/
theorem dropRepeats_sublist (files : List SourceFile) : (dropRepeats files).Sublist files := by
  fun_induction dropRepeats files with
  | case1 => exact .slnil
  | case2 file rest hnil ih => exact List.singleton_sublist.mpr List.mem_cons_self
  | case3 file rest next others hnext hsame ih =>
    rw [hnext] at ih
    exact ((List.sublist_cons_self next others).trans ih).cons_cons file
  | case4 file rest next others hnext hdifferent ih =>
    rw [hnext] at ih
    exact ih.cons_cons file

/-- Every path that is dropped is kept in another way of writing it. -/
private theorem exists_mem_dropRepeats {files : List SourceFile} {file : SourceFile}
    (h : file ∈ files) :
    ∃ kept ∈ dropRepeats files, pathKey kept.path = pathKey file.path := by
  fun_induction dropRepeats files with
  | case1 => cases h
  | case2 first rest hnil ih =>
    rcases List.mem_cons.mp h with rfl | h
    · exact ⟨_, List.mem_cons_self, rfl⟩
    · obtain ⟨kept, hkept, -⟩ := ih h
      rw [hnil] at hkept
      cases hkept
  | case3 first rest next others hnext hsame ih =>
    rcases List.mem_cons.mp h with rfl | h
    · exact ⟨_, List.mem_cons_self, rfl⟩
    · obtain ⟨kept, hkept, hkey⟩ := ih h
      rw [hnext] at hkept
      rcases List.mem_cons.mp hkept with rfl | hkept
      · exact ⟨first, List.mem_cons_self, hsame.trans hkey⟩
      · exact ⟨kept, List.mem_cons_of_mem _ hkept, hkey⟩
  | case4 first rest next others hnext hdifferent ih =>
    rcases List.mem_cons.mp h with rfl | h
    · exact ⟨_, List.mem_cons_self, rfl⟩
    · obtain ⟨kept, hkept, hkey⟩ := ih h
      rw [hnext] at hkept
      exact ⟨kept, List.mem_cons_of_mem _ hkept, hkey⟩

/-- Of files in order no two are left with the same path. -/
theorem pairwise_dropRepeats {files : List SourceFile}
    (h : files.Pairwise fun left right => pathKey left.path ≤ pathKey right.path) :
    (dropRepeats files).Pairwise fun left right => pathKey left.path < pathKey right.path := by
  fun_induction dropRepeats files with
  | case1 => exact .nil
  | case2 file rest hnil ih => exact List.pairwise_singleton _ _
  | case3 file rest next others hnext hsame ih =>
    obtain ⟨-, hrest⟩ := List.pairwise_cons.mp h
    have hkept := ih hrest
    rw [hnext] at hkept
    obtain ⟨hlater, hothers⟩ := List.pairwise_cons.mp hkept
    exact List.pairwise_cons.mpr ⟨fun other hm => hsame ▸ hlater other hm, hothers⟩
  | case4 file rest next others hnext hdifferent ih =>
    obtain ⟨hfirst, hrest⟩ := List.pairwise_cons.mp h
    have hkept := ih hrest
    have hsub := dropRepeats_sublist rest
    rw [hnext] at hkept hsub
    have hless : pathKey file.path < pathKey next.path :=
      lt_of_le_of_ne (hfirst next (hsub.subset List.mem_cons_self)) hdifferent
    refine List.pairwise_cons.mpr ⟨fun other hm => ?_, hkept⟩
    rcases List.mem_cons.mp hm with rfl | hm
    · exact hless
    · exact hless.trans ((List.pairwise_cons.mp hkept).1 other hm)

/-! ## What arguments stand for -/

/-- The paths that the arguments stand for: an argument that leads to a file, and the files that can
be reached from an argument that leads to a directory. -/
inductive StandsFor (lookup : Text → Option FileTree) (extensions arguments : List Text) :
    Text → ByteArray → Prop
  | file {path : Text} {content : ByteArray} (hmem : path ∈ arguments)
      (h : lookup path = some (.file content)) :
      StandsFor lookup extensions arguments path content
  | below {directory : Text} {entries : List (Text × FileTree)} {names : List Text}
      {content : ByteArray}
      (hmem : directory ∈ arguments) (h : lookup directory = some (.directory entries))
      (hreaches : Reaches extensions (.directory entries) names content) :
      StandsFor lookup extensions arguments (pathBelow directory names) content

/-- The files listed are what the arguments stand for: in the order of paths, no two of them with
the same components, and each path that the arguments stand for in some way of writing it. -/
structure Lists (lookup : Text → Option FileTree) (extensions arguments : List Text)
    (files : List SourceFile) : Prop where
  increasing : files.Pairwise fun left right => PathBefore left.path right.path
  sound : ∀ file ∈ files, StandsFor lookup extensions arguments file.path file.content
  complete : ∀ path content, StandsFor lookup extensions arguments path content →
    ∃ file ∈ files, components file.path = components path

section

variable {lookup : Text → Option FileTree} {extensions arguments : List Text} {path : Text}
  {content : ByteArray}

private theorem not_standsFor_nil : ¬StandsFor lookup extensions [] path content := by
  rintro (⟨hmem, -⟩ | ⟨hmem, -, -⟩)
  all_goals exact List.not_mem_nil hmem

/-- The first argument stands for something, or the others do. -/
theorem standsFor_cons_iff {first : Text} :
    StandsFor lookup extensions (first :: arguments) path content ↔
      StandsFor lookup extensions [first] path content ∨
        StandsFor lookup extensions arguments path content := by
  constructor
  · rintro (⟨hmem, h⟩ | ⟨hmem, h, hreaches⟩)
    · rcases List.mem_cons.mp hmem with rfl | hmem
      · exact .inl (.file List.mem_cons_self h)
      · exact .inr (.file hmem h)
    · rcases List.mem_cons.mp hmem with rfl | hmem
      · exact .inl (.below List.mem_cons_self h hreaches)
      · exact .inr (.below hmem h hreaches)
  · rintro ((⟨hmem, h⟩ | ⟨hmem, h, hreaches⟩) | (⟨hmem, h⟩ | ⟨hmem, h, hreaches⟩))
    · exact .file (List.mem_singleton.mp hmem ▸ List.mem_cons_self) h
    · exact .below (List.mem_singleton.mp hmem ▸ List.mem_cons_self) h hreaches
    · exact .file (List.mem_cons_of_mem _ hmem) h
    · exact .below (List.mem_cons_of_mem _ hmem) h hreaches

/-- An argument that leads to a file stands for itself. -/
theorem standsFor_file_iff {argument : Text} {found : ByteArray}
    (h : lookup argument = some (.file found)) :
    StandsFor lookup extensions [argument] path content ↔ path = argument ∧ content = found := by
  constructor
  · rintro (⟨hmem, hlookup⟩ | ⟨hmem, hlookup, -⟩)
    all_goals
      obtain rfl := List.mem_singleton.mp hmem
      rw [h] at hlookup
      cases hlookup
    exact ⟨rfl, rfl⟩
  · rintro ⟨rfl, rfl⟩
    exact .file List.mem_cons_self h

/-- An argument that leads to a directory stands for what can be reached from it. -/
theorem standsFor_directory_iff {argument : Text} {entries : List (Text × FileTree)}
    (h : lookup argument = some (.directory entries)) :
    StandsFor lookup extensions [argument] path content ↔
      ∃ names, Reaches extensions (.directory entries) names content ∧
        path = pathBelow argument names := by
  constructor
  · rintro (⟨hmem, hlookup⟩ | ⟨hmem, hlookup, hreaches⟩)
    all_goals
      obtain rfl := List.mem_singleton.mp hmem
      rw [h] at hlookup
      cases hlookup
    exact ⟨_, hreaches, rfl⟩
  · rintro ⟨names, hreaches, rfl⟩
    exact .below List.mem_cons_self h hreaches

/-- An argument that leads somewhere gives the files that it stands for. -/
theorem exists_filesAt (extensions : List Text) {argument : Text} (h : lookup argument ≠ none) :
    ∃ files, filesAt lookup extensions argument = .ok files ∧
      ∀ file, file ∈ files ↔ StandsFor lookup extensions [argument] file.path file.content := by
  rw [filesAt]
  cases hlookup : lookup argument with
  | none => exact absurd hlookup h
  | some tree =>
    cases tree with
    | file content =>
      refine ⟨_, rfl, fun file => ?_⟩
      rw [standsFor_file_iff hlookup, List.mem_singleton]
      cases file
      simp only [SourceFile.mk.injEq]
    | directory entries =>
      refine ⟨_, rfl, fun file => ?_⟩
      rw [standsFor_directory_iff hlookup, search, mem_searchEntries_iff]

/-- Arguments that all lead somewhere give the files that they stand for. -/
theorem exists_mapM_filesAt (extensions : List Text)
    (h : ∀ argument ∈ arguments, lookup argument ≠ none) :
    ∃ found, arguments.mapM (filesAt lookup extensions) = .ok found ∧
      ∀ file, file ∈ found.flatten ↔
        StandsFor lookup extensions arguments file.path file.content := by
  induction arguments with
  | nil =>
    exact ⟨[], rfl, fun file => iff_of_false List.not_mem_nil not_standsFor_nil⟩
  | cons first arguments ih =>
    obtain ⟨hfirst, hothers⟩ := List.forall_mem_cons.mp h
    obtain ⟨files, hfiles, hmem⟩ := exists_filesAt extensions hfirst
    obtain ⟨found, hfound, hall⟩ := ih hothers
    refine ⟨files :: found, ?_, fun file => ?_⟩
    · rw [List.mapM_cons, hfiles, hfound]
      rfl
    · rw [List.flatten_cons, List.mem_append, hmem, hall, ← standsFor_cons_iff]

/-- The first argument that leads nowhere is reported, whatever follows it. -/
theorem mapM_filesAt_eq_error {before after : List Text} {missing : Text}
    (hmissing : lookup missing = none) (h : ∀ argument ∈ before, lookup argument ≠ none) :
    (before ++ missing :: after).mapM (filesAt lookup extensions) = .error ⟨missing⟩ := by
  induction before with
  | nil =>
    rw [List.nil_append, List.mapM_cons, filesAt, hmissing]
    rfl
  | cons first before ih =>
    obtain ⟨hfirst, hothers⟩ := List.forall_mem_cons.mp h
    obtain ⟨files, hfiles, -⟩ := exists_filesAt extensions hfirst
    rw [List.cons_append, List.mapM_cons, hfiles, ih hothers]
    rfl

/-- Sorted files without repeats list what the files before stood for. -/
theorem lists_dropRepeats {found : List SourceFile}
    (h : ∀ file, file ∈ found ↔ StandsFor lookup extensions arguments file.path file.content) :
    Lists lookup extensions arguments (dropRepeats (sortFiles found)) where
  increasing := (pairwise_dropRepeats (pairwise_sortFiles found)).imp fun hless =>
    (pathKey_lt_iff _ _).mp hless
  sound file hm := (h file).mp (mem_sortFiles_iff.mp ((dropRepeats_sublist _).subset hm))
  complete path content hstands := by
    have hmem : (⟨path, content⟩ : SourceFile) ∈ sortFiles found :=
      mem_sortFiles_iff.mpr ((h _).mpr hstands)
    obtain ⟨kept, hkept, hkey⟩ := exists_mem_dropRepeats hmem
    exact ⟨kept, hkept, (pathKey_eq_iff _ _).mp hkey⟩

/-- The keys of the files listed are the keys of the paths that the arguments stand for. -/
theorem Lists.mem_map_pathKey_iff {files : List SourceFile}
    (h : Lists lookup extensions arguments files) (key : List (List Nat)) :
    key ∈ files.map (fun file => pathKey file.path) ↔
      ∃ path content, StandsFor lookup extensions arguments path content ∧ pathKey path = key := by
  rw [List.mem_map]
  constructor
  · rintro ⟨file, hfile, hkey⟩
    exact ⟨file.path, file.content, h.sound file hfile, hkey⟩
  · rintro ⟨path, content, hstands, rfl⟩
    obtain ⟨file, hfile, hsame⟩ := h.complete path content hstands
    exact ⟨file, hfile, (pathKey_eq_iff _ _).mpr hsame⟩

/-- Two lists of the same paths list them in one order, up to the way they are written. -/
theorem Lists.map_components_eq {other : Text → Option FileTree} {others : List Text}
    {files found : List SourceFile} (hfiles : Lists lookup extensions arguments files)
    (hfound : Lists other extensions others found)
    (h : ∀ {path content}, StandsFor lookup extensions arguments path content ↔
      StandsFor other extensions others path content) :
    files.map (fun file => components file.path) = found.map fun file => components file.path := by
  have hsorted {lookup : Text → Option FileTree} {arguments : List Text} {files : List SourceFile}
      (h : Lists lookup extensions arguments files) :
      (files.map fun file => pathKey file.path).Pairwise (· < ·) :=
    List.pairwise_map.mpr (h.increasing.imp fun hless => (pathKey_lt_iff _ _).mpr hless)
  have hkeys : files.map (fun file => pathKey file.path) = found.map fun file =>
      pathKey file.path := by
    refine (hsorted hfiles).eq_of_mem_iff (hsorted hfound) fun key => ?_
    simp only [hfiles.mem_map_pathKey_iff, hfound.mem_map_pathKey_iff, h]
  refine List.map_injective_iff.mpr (List.map_injective_iff.mpr Component.key_injective) ?_
  rw [List.map_map, List.map_map]
  exact hkeys

end

end ComponentFile.Discovery
