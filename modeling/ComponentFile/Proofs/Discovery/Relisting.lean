import ComponentFile.Proofs.Discovery.Search

/-!
# Searching whatever the order

Neither the order of the arguments nor the order in which the entries of a directory are listed has
a say in what is found. A tree with its entries listed in another order is the same tree for every
path, so the same arguments stand for the same files there.
-/

namespace ComponentFile.Discovery

/-! ## Entries in another order -/

/-- The same tree with the entries of its directories listed in another order. -/
inductive Relisted : FileTree → FileTree → Prop
  | file (content : ByteArray) : Relisted (.file content) (.file content)
  | directory {entries order others : List (Text × FileTree)} (hperm : entries.Perm order)
      (hnames : order.map Prod.fst = others.map Prod.fst)
      (htrees : List.Forall₂ Relisted (order.map Prod.snd) (others.map Prod.snd)) :
      Relisted (.directory entries) (.directory others)

/-- In lists that belong together one by one each element has its fellow. -/
theorem exists_mem_of_forall₂ {α β : Type} {r : α → β → Prop} {left : List α} {right : List β}
    (h : List.Forall₂ r left right) {a : α} (ha : a ∈ left) : ∃ b ∈ right, r a b := by
  induction h with
  | nil => cases ha
  | cons hr _ ih =>
    rcases List.mem_cons.mp ha with rfl | ha
    · exact ⟨_, List.mem_cons_self, hr⟩
    · obtain ⟨b, hb, hr⟩ := ih ha
      exact ⟨b, List.mem_cons_of_mem _ hb, hr⟩

namespace Relisted

section

variable {entries others : List (Text × FileTree)}

/-- The entries of the two directories belong together one by one, by name and by what they lead
to. -/
theorem exists_forall₂ (h : Relisted (.directory entries) (.directory others)) :
    ∃ order, entries.Perm order ∧
      List.Forall₂ (fun entry other => entry.1 = other.1 ∧ Relisted entry.2 other.2)
        order others := by
  have hzip {order others : List (Text × FileTree)}
      (hnames : order.map Prod.fst = others.map Prod.fst)
      (htrees : List.Forall₂ Relisted (order.map Prod.snd) (others.map Prod.snd)) :
      List.Forall₂ (fun entry other => entry.1 = other.1 ∧ Relisted entry.2 other.2)
        order others := by
    rw [← List.forall₂_eq_eq_eq, List.forall₂_map_left_iff, List.forall₂_map_right_iff] at hnames
    rw [List.forall₂_map_left_iff, List.forall₂_map_right_iff] at htrees
    induction hnames with
    | nil => exact .nil
    | cons hname _ ih =>
      obtain ⟨htree, htrees⟩ := List.forall₂_cons.mp htrees
      exact .cons ⟨hname, htree⟩ (ih htrees)
  cases h with
  | directory hperm hnames htrees => exact ⟨_, hperm, hzip hnames htrees⟩

/-- An entry of the one directory has its fellow among those of the other. -/
theorem exists_entry (h : Relisted (.directory entries) (.directory others)) {name : Text}
    {tree : FileTree} (hentry : (name, tree) ∈ entries) :
    ∃ other, (name, other) ∈ others ∧ Relisted tree other := by
  obtain ⟨order, hperm, hpairs⟩ := h.exists_forall₂
  obtain ⟨⟨_, other⟩, hother, rfl, htree⟩ := exists_mem_of_forall₂ hpairs (hperm.mem_iff.mp hentry)
  exact ⟨other, hother, htree⟩

/-- An entry of the other directory has its fellow among those of the one. -/
theorem exists_entry_of_mem (h : Relisted (.directory entries) (.directory others)) {name : Text}
    {other : FileTree} (hentry : (name, other) ∈ others) :
    ∃ tree, (name, tree) ∈ entries ∧ Relisted tree other := by
  obtain ⟨order, hperm, hpairs⟩ := h.exists_forall₂
  obtain ⟨⟨_, tree⟩, htree, rfl, hrelisted⟩ := exists_mem_of_forall₂ hpairs.flip hentry
  exact ⟨tree, hperm.mem_iff.mpr htree, hrelisted⟩

private theorem perm_map_fst (h : Relisted (.directory entries) (.directory others)) :
    (entries.map Prod.fst).Perm (others.map Prod.fst) := by
  cases h with
  | directory hperm hnames _ => exact hnames ▸ hperm.map Prod.fst

end

/-- The same names lead to the same file. -/
theorem leadsTo_iff {tree other : FileTree} (h : Relisted tree other) {names : List Text}
    {content : ByteArray} :
    LeadsTo tree names content ↔ LeadsTo other names content := by
  induction names generalizing tree other with
  | nil =>
    constructor
    · rintro ⟨⟩
      cases h
      exact .here content
    · rintro ⟨⟩
      cases h
      exact .here content
  | cons name names ih =>
    constructor
    · intro hleads
      cases hleads with
      | entry hentry hleads =>
        cases other with
        | file => cases h
        | directory others =>
          obtain ⟨next, hnext, hrelisted⟩ := h.exists_entry hentry
          exact .entry hnext ((ih hrelisted).mp hleads)
    · intro hleads
      cases hleads with
      | entry hentry hleads =>
        cases tree with
        | file => cases h
        | directory entries =>
          obtain ⟨next, hnext, hrelisted⟩ := h.exists_entry_of_mem hentry
          exact .entry hnext ((ih hrelisted).mpr hleads)

/-- The same names reach the same file. -/
theorem reaches_iff {tree other : FileTree} (h : Relisted tree other) {extensions names : List Text}
    {content : ByteArray} :
    Reaches extensions tree names content ↔ Reaches extensions other names content :=
  ⟨fun hreaches => ⟨h.leadsTo_iff.mp hreaches.leads, hreaches.visible, hreaches.ending⟩,
    fun hreaches => ⟨h.leadsTo_iff.mpr hreaches.leads, hreaches.visible, hreaches.ending⟩⟩

end Relisted

section

variable {lookup other : Text → Option FileTree}
  {extensions arguments others : List Text} {path : Text}
  {content : ByteArray}

/-- Where one order of entries leads to a file the other leads to the same file. -/
private theorem eq_file_iff_of_relisted (h : Option.Rel Relisted (lookup path) (other path)) :
    lookup path = some (.file content) ↔ other path = some (.file content) := by
  generalize lookup path = tree, other path = tree' at h ⊢
  cases h with
  | none => rfl
  | some h =>
    cases h with
    | file => rfl
    | directory => exact iff_of_false nofun nofun

/-- Where one order of entries leads to a directory the other leads to one from which the same files
are reached. -/
private theorem exists_reaches_iff_of_relisted {names : List Text}
    (h : Option.Rel Relisted (lookup path) (other path)) :
    (∃ entries, lookup path = some (.directory entries) ∧
        Reaches extensions (.directory entries) names content) ↔
      ∃ entries, other path = some (.directory entries) ∧
        Reaches extensions (.directory entries) names content := by
  generalize lookup path = tree, other path = tree' at h ⊢
  cases h with
  | none => rfl
  | some h =>
    cases h with
    | file => rfl
    | @directory entries order others hperm hnames htrees =>
      have hreaches : Reaches extensions (.directory entries) names content ↔
          Reaches extensions (.directory others) names content :=
            (Relisted.directory hperm hnames htrees).reaches_iff
      simp only [Option.some.injEq, FileTree.directory.injEq, exists_eq_left', hreaches]

/-- What arguments stand for depends neither on the order of the arguments nor on that of the
entries. -/
theorem standsFor_iff_of_relisted (harguments : ∀ path, path ∈ arguments ↔ path ∈ others)
    (hlookup : ∀ path, Option.Rel Relisted (lookup path) (other path)) :
    StandsFor lookup extensions arguments path content ↔
      StandsFor other extensions others path content := by
  have hcases {lookup : Text → Option FileTree} {arguments : List Text} :
      StandsFor lookup extensions arguments path content ↔
        path ∈ arguments ∧ lookup path = some (.file content) ∨
          ∃ directory names, directory ∈ arguments ∧
            (∃ entries, lookup directory = some (.directory entries) ∧
              Reaches extensions (.directory entries) names content) ∧
                path = pathBelow directory names := by
    constructor
    · rintro (⟨hmem, h⟩ | ⟨hmem, h, hreaches⟩)
      · exact .inl ⟨hmem, h⟩
      · exact .inr ⟨_, _, hmem, ⟨_, h, hreaches⟩, rfl⟩
    · rintro (⟨hmem, h⟩ | ⟨directory, names, hmem, ⟨entries, h, hreaches⟩, rfl⟩)
      · exact .file hmem h
      · exact .below hmem h hreaches
  simp only [hcases, harguments, eq_file_iff_of_relisted (hlookup path),
    exists_reaches_iff_of_relisted (hlookup _)]

end

/-! ## Paths in a tree -/

/-- No directory of the tree has two entries of one name. -/
inductive FileTree.Distinct : FileTree → Prop
  | file (content : ByteArray) : Distinct (.file content)
  | directory {entries : List (Text × FileTree)} (hnames : (entries.map Prod.fst).Nodup)
      (htrees : ∀ entry ∈ entries, Distinct entry.2) : Distinct (.directory entries)

/-- A name leads to its only entry. -/
theorem lookup_eq_some_iff_mem {entries : List (Text × FileTree)}
    (hnames : (entries.map Prod.fst).Nodup) {name : Text} {tree : FileTree} :
    entries.lookup name = some tree ↔ (name, tree) ∈ entries := by
  induction entries with
  | nil => exact iff_of_false nofun List.not_mem_nil
  | cons entry entries ih =>
    obtain ⟨first, found⟩ := entry
    obtain ⟨hfirst, hothers⟩ := List.nodup_cons.mp hnames
    rw [List.lookup_cons, List.mem_cons, Prod.mk.injEq]
    by_cases hname : name = first
    · have hlater : (name, tree) ∉ entries := fun hm => hfirst (List.mem_map.mpr ⟨_, hm, hname⟩)
      rw [beq_iff_eq.mpr hname, or_iff_left hlater, and_iff_right hname]
      dsimp only
      rw [Option.some.injEq, eq_comm]
    · rw [beq_eq_false_iff_ne.mpr hname, or_iff_right fun he => hname he.1]
      exact ih hothers

/-- One name leads to the same in whatever order the entries are listed. -/
theorem Relisted.lookup {entries others : List (Text × FileTree)}
    (h : Relisted (.directory entries) (.directory others)) (hnames : (entries.map Prod.fst).Nodup)
    (name : Text) :
    Option.Rel Relisted (entries.lookup name) (others.lookup name) := by
  have hothers : (others.map Prod.fst).Nodup := h.perm_map_fst.nodup_iff.mp hnames
  cases hfound : entries.lookup name with
  | some tree =>
    obtain ⟨other, hother, hrelisted⟩ := h.exists_entry ((lookup_eq_some_iff_mem hnames).mp hfound)
    rw [(lookup_eq_some_iff_mem hothers).mpr hother]
    exact .some hrelisted
  | none =>
    cases hother : others.lookup name with
    | none => exact .none
    | some other =>
      obtain ⟨tree, htree, -⟩ := h.exists_entry_of_mem ((lookup_eq_some_iff_mem hothers).mp hother)
      rw [(lookup_eq_some_iff_mem hnames).mpr htree] at hfound
      cases hfound

/-- Following the parts of a path leads to the same in whatever order the entries are listed. -/
theorem FileTree.follow_relisted {above others : List FileTree}
    (h : List.Forall₂ Relisted above others) (hdistinct : ∀ tree ∈ above, tree.Distinct)
    (parts : List Text) :
    Option.Rel Relisted (follow above parts) (follow others parts) := by
  induction parts generalizing above others with
  | nil =>
    cases h with
    | nil => exact .none
    | cons hhere _ => exact .some hhere
  | cons part parts ih =>
    cases h with
    | nil => exact .none
    | @cons here there above others hhere hrest =>
      obtain ⟨hfirst, hothers⟩ := List.forall_mem_cons.mp hdistinct
      cases hhere with
      | file => exact .none
      | @directory entries order listed hperm hnames htrees =>
        have hhere := Relisted.directory hperm hnames htrees
        have hall : List.Forall₂ Relisted (.directory entries :: above)
            (.directory listed :: others) :=
          .cons hhere hrest
        rw [follow, follow]
        split
        · exact ih hall hdistinct
        split
        · exact ih hrest hothers
        cases hfirst with
        | directory hdistinctNames hdistinctTrees =>
          have hnext := hhere.lookup hdistinctNames part
          have hbelow (next : FileTree) (hfound : entries.lookup part = some next) :
              next.Distinct :=
            hdistinctTrees _ ((lookup_eq_some_iff_mem hdistinctNames).mp hfound)
          generalize entries.lookup part = found, listed.lookup part = found' at hnext hbelow
          cases hnext with
          | none => exact .none
          | some hrelisted =>
            exact ih (.cons hrelisted hall) (List.forall_mem_cons.mpr ⟨hbelow _ rfl, hdistinct⟩)

/-- A path leads to the same in whatever order the entries of a tree are listed. -/
theorem FileTree.find?_relisted {tree other : FileTree} (h : Relisted tree other)
    (hdistinct : tree.Distinct) (path : Text) :
    Option.Rel Relisted (tree.find? path) (other.find? path) := by
  have hfollow (parts : List Text) :
      Option.Rel Relisted (follow [tree] parts) (follow [other] parts) :=
    follow_relisted (.cons h .nil) (List.forall_mem_singleton.mpr hdistinct) parts
  unfold find?
  split
  · exact .none
  · exact .none
  · exact hfollow _

/-! ## The search as a whole -/

/-- The arguments of a search: without a path, the working directory. -/
def argumentsOf (paths : List Text) : List Text := if paths = [] then [['.']] else paths

theorem findDocuments_eq (lookup : Text → Option FileTree) (paths extensions : List Text) :
    findDocuments lookup paths extensions =
      ((argumentsOf paths).mapM (filesAt lookup extensions)).map fun found =>
        dropRepeats (sortFiles found.flatten) := by
  have hpaths : (if paths.isEmpty then [['.']] else paths) = argumentsOf paths := by
    simp only [argumentsOf, List.isEmpty_iff]
  rw [findDocuments, hpaths]
  cases (argumentsOf paths).mapM (filesAt lookup extensions) <;> rfl

section

variable {lookup : Text → Option FileTree} {paths : List Text}

/-- Arguments that all lead somewhere have what they stand for listed. -/
theorem exists_lists (extensions : List Text) (h : ∀ path ∈ argumentsOf paths, lookup path ≠ none) :
    ∃ files, findDocuments lookup paths extensions = .ok files ∧
      Lists lookup extensions (argumentsOf paths) files := by
  obtain ⟨found, hfound, hall⟩ := exists_mapM_filesAt extensions h
  refine ⟨_, ?_, lists_dropRepeats hall⟩
  rw [findDocuments_eq, hfound]
  rfl

/-- Some argument is the first that leads nowhere, unless all of them lead somewhere. -/
private theorem exists_missing_or_forall (lookup : Text → Option FileTree) (arguments : List Text) :
    (∃ before missing after, arguments = before ++ missing :: after ∧ lookup missing = none ∧
      ∀ path ∈ before, lookup path ≠ none) ∨ ∀ path ∈ arguments, lookup path ≠ none := by
  induction arguments with
  | nil => exact .inr fun _ hm => absurd hm List.not_mem_nil
  | cons first arguments ih =>
    by_cases hfirst : lookup first = none
    · exact .inl ⟨[], first, arguments, rfl, hfirst, fun _ hm => absurd hm List.not_mem_nil⟩
    · rcases ih with ⟨before, missing, after, rfl, hmissing, hbefore⟩ | hall
      · exact .inl ⟨first :: before, missing, after, rfl, hmissing,
          List.forall_mem_cons.mpr ⟨hfirst, hbefore⟩⟩
      · exact .inr (List.forall_mem_cons.mpr ⟨hfirst, hall⟩)

/-- A search fails at the first argument that leads nowhere. -/
theorem findDocuments_eq_error_iff {extensions : List Text} {missing : Text} :
    findDocuments lookup paths extensions = .error ⟨missing⟩ ↔
      ∃ before after, argumentsOf paths = before ++ missing :: after ∧ lookup missing = none ∧
        ∀ path ∈ before, lookup path ≠ none := by
  have herror {before after : List Text} {missing : Text}
      (hpaths : argumentsOf paths = before ++ missing :: after)
      (hmissing : lookup missing = none) (hbefore : ∀ path ∈ before, lookup path ≠ none) :
      findDocuments lookup paths extensions = .error ⟨missing⟩ := by
    rw [findDocuments_eq, hpaths, mapM_filesAt_eq_error hmissing hbefore]
    rfl
  constructor
  · intro h
    rcases exists_missing_or_forall lookup (argumentsOf paths) with
      ⟨before, first, after, hpaths, hmissing, hbefore⟩ | hall
    · rw [herror hpaths hmissing hbefore] at h
      obtain rfl : first = missing := by simpa using h
      exact ⟨before, after, hpaths, hmissing, hbefore⟩
    · obtain ⟨files, hfiles, -⟩ := exists_lists extensions hall
      rw [hfiles] at h
      cases h
  · rintro ⟨before, after, hpaths, hmissing, hbefore⟩
    exact herror hpaths hmissing hbefore

/-- The same paths are the same arguments. -/
theorem mem_argumentsOf_iff {others : List Text} (h : ∀ path, path ∈ paths ↔ path ∈ others)
    (path : Text) :
    path ∈ argumentsOf paths ↔ path ∈ argumentsOf others := by
  have hempty : paths = [] ↔ others = [] := by simp only [List.eq_nil_iff_forall_not_mem, h]
  by_cases hnil : paths = []
  · rw [argumentsOf, argumentsOf, if_pos hnil, if_pos (hempty.mp hnil)]
  · rw [argumentsOf, argumentsOf, if_neg hnil, if_neg fun he => hnil (hempty.mpr he), h]

end

/-- A search fails with the first argument that leads neither to a file nor to a directory, if there
is one. Otherwise it lists what its arguments stand for, and lists the same paths, up to the way
they are written, for the same arguments in another order or repeated and for directories whose
entries are listed in another order. -/
theorem findDocuments_exact (lookup : Text → Option FileTree) (paths extensions : List Text) :
    (∀ missing, findDocuments lookup paths extensions = .error ⟨missing⟩ ↔
      ∃ before after, argumentsOf paths = before ++ missing :: after ∧ lookup missing = none ∧
        ∀ path ∈ before, lookup path ≠ none) ∧
    ((∀ path ∈ argumentsOf paths, lookup path ≠ none) →
      ∃ files, findDocuments lookup paths extensions = .ok files ∧
        Lists lookup extensions (argumentsOf paths) files ∧
        ∀ (other : Text → Option FileTree) (others : List Text),
            (∀ path, path ∈ paths ↔ path ∈ others) →
          (∀ path, Option.Rel Relisted (lookup path) (other path)) →
          ∃ found, findDocuments other others extensions = .ok found ∧
            found.map (fun file => components file.path) = files.map fun file =>
              components file.path) := by
  refine ⟨fun missing => findDocuments_eq_error_iff, fun hall => ?_⟩
  obtain ⟨files, hfiles, hlists⟩ := exists_lists extensions hall
  refine ⟨files, hfiles, hlists, fun other others hothers hrelisted => ?_⟩
  have harguments := mem_argumentsOf_iff hothers
  have hpresent : ∀ path ∈ argumentsOf others, other path ≠ none := by
    intro path hmem hnone
    have hrel := hrelisted path
    have hsome := hall path ((harguments path).mpr hmem)
    rw [hnone] at hrel
    generalize lookup path = tree at hrel hsome
    cases hrel
    exact hsome rfl
  obtain ⟨found, hfound, hsame⟩ := exists_lists extensions hpresent
  exact ⟨found, hfound,
    (hlists.map_components_eq hsame (standsFor_iff_of_relisted harguments hrelisted)).symm⟩

/-- A directory and one of its files, given in two ways, are searched in a tree whose entries are
listed in another order: the file comes once, and the hidden one not at all. -/
theorem findDocuments_exact_overlapping :
    let tree := FileTree.directory [(['n'], .directory
      [("b.x".toList, .file .empty), (".c.x".toList, .file .empty), ("a.x".toList, .file .empty)])]
    let other := FileTree.directory [(['n'], .directory
      [("a.x".toList, .file .empty), ("b.x".toList, .file .empty), (".c.x".toList, .file .empty)])]
    Relisted tree other ∧
    ∃ found, findDocuments other.find? ["n//a.x".toList, ['n'], ['n']] [".x".toList] = .ok found ∧
      found.map (fun file => components file.path) =
        [[.entry ['n'], .entry "a.x".toList], [.entry ['n'], .entry "b.x".toList]] := by
  intro tree other
  have hrelisted : Relisted tree other := by
    refine .directory (.refl _) rfl (.cons ?_ .nil)
    refine .directory ?_ rfl (.cons (.file _) (.cons (.file _) (.cons (.file _) .nil)))
    exact List.perm_append_singleton ("a.x".toList, FileTree.file .empty)
      [("b.x".toList, .file .empty), (".c.x".toList, .file .empty)]
  have hdistinct : tree.Distinct := by
    refine .directory (by decide) (List.forall_mem_singleton.mpr (.directory (by decide) ?_))
    simp only [List.forall_mem_cons]
    exact ⟨.file _, .file _, .file _, fun _ hm => absurd hm List.not_mem_nil⟩
  have hsort (content : ByteArray) :
      dropRepeats (sortFiles [⟨"n/b.x".toList, content⟩, ⟨"n/a.x".toList, content⟩,
        ⟨"n//a.x".toList, content⟩]) = [⟨"n/a.x".toList, content⟩, ⟨"n/b.x".toList, content⟩] := by
    simp only [sortFiles, List.mergeSort, List.length_cons, List.length_nil, Nat.reduceAdd,
      Nat.reduceDiv, List.MergeSort.Internal.splitInTwo_fst, List.take_succ_cons, List.take_zero,
      List.MergeSort.Internal.splitInTwo_snd, List.drop_succ_cons, List.drop_zero]
    cbv
  have hfiles : findDocuments tree.find? [['n'], "n//a.x".toList] [".x".toList] =
      .ok [⟨"n/a.x".toList, .empty⟩, ⟨"n/b.x".toList, .empty⟩] :=
    congrArg Except.ok (hsort .empty)
  obtain ⟨files, hok, -, hsame⟩ :=
    (findDocuments_exact tree.find? [['n'], "n//a.x".toList] [".x".toList]).2 (by
    intro path hmem
    have hcases : path = ['n'] ∨ path = "n//a.x".toList := by simpa [argumentsOf] using hmem
    rcases hcases with rfl | rfl
    · exact Option.some_ne_none (FileTree.directory _)
    · exact Option.some_ne_none (FileTree.file _))
  obtain rfl := Except.ok.inj (hfiles.symm.trans hok)
  obtain ⟨found, hfound, hmap⟩ := hsame other.find? ["n//a.x".toList, ['n'], ['n']]
    (by simp [or_comm])
    (FileTree.find?_relisted hrelisted hdistinct)
  exact ⟨hrelisted, found, hfound, hmap⟩

end ComponentFile.Discovery
