import JvmLint.Input.Load
import JvmLint.Proofs.Outcome
import Mathlib.Data.String.Basic
import Mathlib.Data.List.Perm.Basic

/-!
# Directories as inputs

Of a directory all unit files are loaded, however deep they lie. In each directory the
entries are sorted by their whole paths, and what lies under an entry is read before the
next one. As the paths of the entries start alike, this is the order of the lists of names
below the root (`Proper.exists_lists`), though not that of the paths as texts: `a/x.json`
comes before `a-b.json`.

So what is loaded depends on the files alone (`loadUnits_directory`): each unit file is
there once, the files stand in the order of their names, and no directory's own order of
listing its entries matters.
-/
namespace JvmLint

/-! ## Names and paths -/

/-- The name has the extension of unit files, behind something else. -/
def IsUnitFileName (name : String) : Prop :=
  ∃ stem, stem ≠ "" ∧ name = stem ++ ".json"

theorem forall_ne_of_not_mem {stop : Char} {cs : List Char} (h : stop ∉ cs) :
    ∀ c ∈ cs.reverse, decide (c ≠ stop) = true := by
  intro c hc
  exact decide_eq_true fun heq => h (heq ▸ List.mem_reverse.1 hc)

/-- A name has an extension if something stands before its last dot. -/
theorem fileExtension?_eq_some_iff {name extension : String} :
    fileExtension? name = some extension ↔
      '.' ∉ extension.toList ∧ ∃ stem, stem ≠ "" ∧ name = stem ++ "." ++ extension := by
  simp only [fileExtension?]
  constructor
  · intro h
    split at h
    · rename_i dot last before hdrop
      cases h
      have hdot : dot = '.' := by
        have hstop := List.head?_dropWhile_not (fun c => decide (c ≠ '.')) name.toList.reverse
        rw [hdrop] at hstop
        exact not_not.1 (of_decide_eq_false hstop)
      have hsplit := List.takeWhile_append_dropWhile (p := fun c => decide (c ≠ '.'))
        (l := name.toList.reverse)
      refine ⟨?_, String.ofList (last :: before).reverse, by simp, ?_⟩
      · intro hmem
        rw [String.toList_ofList, List.mem_reverse] at hmem
        simpa using List.all_eq_true.1 List.all_takeWhile _ hmem
      · rw [hdrop, hdot] at hsplit
        generalize List.takeWhile _ _ = ending at hsplit ⊢
        have hname : name.toList = (ending ++ '.' :: last :: before).reverse := by
          rw [hsplit, List.reverse_reverse]
        apply String.toList_injective
        rw [hname]
        simp
    · cases h
  · rintro ⟨hdot, stem, hstem, rfl⟩
    have hextension := forall_ne_of_not_mem hdot
    obtain ⟨last, before, hbefore⟩ : ∃ last before, stem.toList.reverse = last :: before := by
      refine List.exists_cons_of_ne_nil fun hnil => hstem ?_
      exact String.toList_injective (List.reverse_eq_nil_iff.1 hnil)
    have hreversed : (stem ++ "." ++ extension).toList.reverse =
        extension.toList.reverse ++ '.' :: last :: before := by
      simp [hbefore]
    rw [hreversed, List.takeWhile_append_of_pos hextension,
      List.dropWhile_append_of_pos hextension]
    simp

theorem isUnitName_iff {name : String} : isUnitName name = true ↔ IsUnitFileName name := by
  have hjson : ∀ stem : String, stem ++ "." ++ "json" = stem ++ ".json" := by
    intro stem
    rw [String.append_assoc]
    rfl
  rw [isUnitName, beq_iff_eq, fileExtension?_eq_some_iff]
  simp only [hjson]
  exact and_iff_right (by decide)

/-- All entries of a directory have the same text before their names, which ends in a slash. -/
theorem exists_joinPath (path : String) :
    ∃ base : List Char, ∀ name, (joinPath path name).toList = base ++ '/' :: name.toList := by
  by_cases hslash : path.endsWith "/" = true
  · have hsuffix : ['/'] <:+ path.toList := by
      simpa using String.Slice.endsWith_string_iff.1 hslash
    obtain ⟨base, hbase⟩ := hsuffix
    refine ⟨base, fun name => ?_⟩
    rw [joinPath, if_pos hslash, String.toList_append, ← hbase, List.append_assoc]
    rfl
  · refine ⟨path.toList, fun name => ?_⟩
    rw [joinPath, if_neg hslash]
    simp

theorem append_lt_append_iff (base a b : List Char) : base ++ a < base ++ b ↔ a < b := by
  induction base with
  | nil => rfl
  | cons c base ih => simp [ih]

theorem joinPath_le_joinPath_iff {path a b : String} :
    joinPath path a ≤ joinPath path b ↔ a ≤ b := by
  obtain ⟨base, hbase⟩ := exists_joinPath path
  have hlt : ∀ a b, joinPath path a < joinPath path b ↔ a < b := by
    intro a b
    rw [String.lt_iff_toList_lt, String.lt_iff_toList_lt, hbase, hbase, append_lt_append_iff]
    simp
  rw [← not_lt, ← not_lt, hlt]

theorem fileName_joinPath (path : String) {name : String} (h : '/' ∉ name.toList) :
    fileName (joinPath path name) = name := by
  obtain ⟨base, hbase⟩ := exists_joinPath path
  rw [fileName, hbase, List.reverse_append, List.reverse_cons, List.append_assoc,
    List.takeWhile_append_of_pos (forall_ne_of_not_mem h)]
  simp

/-- The path of what lies below a path under some names, one inside the other. -/
def pathBelow (path : String) (names : List String) : String :=
  names.foldl joinPath path

/-! ## The files of a tree -/

/-- The names that lead to a file, and what is in it. -/
abbrev NamedFile := List String × List UInt8

namespace FileTree

/-- The tree holds a file with this content under these names, one inside the other. -/
inductive Holds : FileTree → List String → List UInt8 → Prop where
  | file (content : List UInt8) : Holds (.file content) [] content
  | entry {entries : List (String × FileTree)} {name : String} {tree : FileTree}
    {names : List String} {content : List UInt8} :
    (name, tree) ∈ entries → Holds tree names content →
      Holds (.directory entries) (name :: names) content

/-- A tree as it can stand in a file system: in each directory the names are distinct, and
no name has a slash in it. -/
inductive Proper : FileTree → Prop where
  | file (content : List UInt8) : Proper (.file content)
  | directory {entries : List (String × FileTree)} : (entries.map Prod.fst).Nodup →
    (∀ entry ∈ entries, '/' ∉ entry.1.toList) → (∀ entry ∈ entries, Proper entry.2) →
      Proper (.directory entries)

/-- The second tree is the first with some directories, at any depth, listing their entries
in another order. -/
inductive Relists : FileTree → FileTree → Prop where
  | refl (tree : FileTree) : Relists tree tree
  | here {entries entries' : List (String × FileTree)} : entries.Perm entries' →
    Relists (.directory entries) (.directory entries')
  | inside {before after : List (String × FileTree)} {name : String} {tree tree' : FileTree} :
    Relists tree tree' → Relists (.directory (before ++ (name, tree) :: after))
      (.directory (before ++ (name, tree') :: after))
  | trans {tree tree' tree'' : FileTree} :
    Relists tree tree' → Relists tree' tree'' → Relists tree tree''

variable {tree tree' : FileTree} {entries : List (String × FileTree)} {own : String}
  {files files' : List NamedFile}

theorem holds_file_iff {text content : List UInt8} {names : List String} :
    Holds (.file text) names content ↔ names = [] ∧ content = text := by
  constructor
  · rintro ⟨⟩
    exact ⟨rfl, rfl⟩
  · rintro ⟨rfl, rfl⟩
    exact .file _

theorem holds_directory_iff {names : List String} {content : List UInt8} :
    Holds (.directory entries) names content ↔ ∃ name inner rest,
      names = name :: rest ∧ (name, inner) ∈ entries ∧ inner.Holds rest content := by
  constructor
  · rintro ⟨⟩
    exact ⟨_, _, _, rfl, ‹_›, ‹_›⟩
  · rintro ⟨name, inner, rest, rfl, hentry, hholds⟩
    exact .entry hentry hholds

/-- These are the unit files of a tree that has a name of its own, each once, in the order
of the names that lead to them. -/
structure Lists (tree : FileTree) (own : String) (files : List NamedFile) : Prop where
  sorted : files.Pairwise fun a b => a.1 < b.1
  mem_iff : ∀ names content, (names, content) ∈ files ↔
    tree.Holds names content ∧ IsUnitFileName (names.getLast?.getD own)

theorem Lists.nodup (h : tree.Lists own files) : files.Nodup := by
  refine h.sorted.imp ?_
  rintro a _ hlt rfl
  exact lt_irrefl _ hlt

theorem Lists.unique (h : tree.Lists own files) (h' : tree'.Lists own files')
    (hsame : ∀ names content, tree.Holds names content ↔ tree'.Holds names content) :
    files = files' := by
  have hperm : files.Perm files' := by
    rw [List.perm_ext_iff_of_nodup h.nodup h'.nodup]
    rintro ⟨names, content⟩
    rw [h.mem_iff, h'.mem_iff, hsame]
  exact hperm.eq_of_pairwise (fun a b _ _ hab hba => absurd hba (lt_asymm hab)) h.sorted h'.sorted

/-! ## Reading a directory -/

theorem entryFiles_eq_map (path : String) (entries : List (String × FileTree)) :
    entryFiles path entries = entries.map fun entry =>
      (joinPath path entry.1, unitFiles (joinPath path entry.1) entry.2) := by
  induction entries with
  | nil => rw [entryFiles, List.map_nil]
  | cons entry rest ih => rw [entryFiles, ih, List.map_cons]

/-- The entries of a directory in the order of their names. -/
def sortedEntries (entries : List (String × FileTree)) : List (String × FileTree) :=
  entries.mergeSort fun a b => decide (a.1 ≤ b.1)

/-- To sort the entries by their whole paths is to sort them by their names. -/
theorem unitFiles_directory (path : String) (entries : List (String × FileTree)) :
    unitFiles path (.directory entries) = (sortedEntries entries).flatMap fun entry =>
      unitFiles (joinPath path entry.1) entry.2 := by
  rw [unitFiles, entryFiles_eq_map, sortedEntries,
    ← List.map_mergeSort (r := fun a b => decide (a.1 ≤ b.1)), List.flatMap_map]
  intro a _ b _
  rw [decide_eq_decide, joinPath_le_joinPath_iff]

theorem pairwise_sortedEntries (h : (entries.map Prod.fst).Nodup) :
    (sortedEntries entries).Pairwise fun a b => a.1 < b.1 := by
  have hperm : (sortedEntries entries).Perm entries := List.mergeSort_perm entries _
  have hle : (sortedEntries entries).Pairwise fun a b => a.1 ≤ b.1 := by
    refine (List.pairwise_mergeSort ?_ ?_ entries).imp of_decide_eq_true
    · intro a b c hab hbc
      exact decide_eq_true (le_trans (of_decide_eq_true hab) (of_decide_eq_true hbc))
    · intro a b
      simpa using le_total a.1 b.1
  have hne : (sortedEntries entries).Pairwise fun a b => a.1 ≠ b.1 :=
    List.pairwise_map.1 ((hperm.map Prod.fst).nodup_iff.2 h)
  exact hle.imp₂ (fun _ _ => lt_of_le_of_ne) hne

/-- The files under an entry, with the name of the entry in front. -/
def under (name : String) (files : List NamedFile) : List NamedFile :=
  files.map fun file => (name :: file.1, file.2)

theorem mem_under {name : String} {names : List String} {content : List UInt8} :
    (names, content) ∈ under name files ↔
      ∃ rest, names = name :: rest ∧ (rest, content) ∈ files := by
  rw [under, List.mem_map]
  constructor
  · rintro ⟨⟨rest, content⟩, hmem, heq⟩
    cases heq
    exact ⟨rest, rfl, hmem⟩
  · rintro ⟨rest, rfl, hmem⟩
    exact ⟨(rest, content), hmem, rfl⟩

/-- What the entries list, one after the other in the order of their names, is what their
directory lists. -/
theorem lists_directory {below : String × FileTree → List NamedFile}
    (hnodup : (entries.map Prod.fst).Nodup)
    (hbelow : ∀ entry ∈ entries, entry.2.Lists entry.1 (below entry)) (own : String) :
    Lists (.directory entries) own
      ((sortedEntries entries).flatMap fun entry => under entry.1 (below entry)) := by
  have hentries : ∀ entry, entry ∈ sortedEntries entries ↔ entry ∈ entries :=
    fun _ => List.mem_mergeSort
  refine ⟨List.pairwise_flatMap.2 ⟨?_, ?_⟩, fun names content => ?_⟩
  · intro entry hentry
    refine List.pairwise_map.2 ((hbelow entry ((hentries entry).1 hentry)).sorted.imp ?_)
    intro a b hlt
    exact List.cons_lt_cons_iff.2 (.inr ⟨rfl, hlt⟩)
  · refine (pairwise_sortedEntries hnodup).imp ?_
    rintro a b hlt ⟨names, content⟩ hmem ⟨names', content'⟩ hmem'
    obtain ⟨rest, rfl, -⟩ := mem_under.1 hmem
    obtain ⟨rest', rfl, -⟩ := mem_under.1 hmem'
    exact List.cons_lt_cons_iff.2 (.inl hlt)
  · rw [List.mem_flatMap]
    constructor
    · rintro ⟨⟨name, tree⟩, hentry, hmem⟩
      obtain ⟨rest, rfl, hrest⟩ := mem_under.1 hmem
      have hinside := (hentries _).1 hentry
      obtain ⟨hholds, hname⟩ := ((hbelow _ hinside).mem_iff rest content).1 hrest
      exact ⟨.entry hinside hholds, by rwa [List.getLast?_cons, Option.getD_some]⟩
    · rintro ⟨hholds, hname⟩
      obtain ⟨name, inner, rest, rfl, hinside, hrest⟩ := holds_directory_iff.1 hholds
      rw [List.getLast?_cons, Option.getD_some] at hname
      have hmem := ((hbelow _ hinside).mem_iff rest content).2 ⟨hrest, hname⟩
      exact ⟨(name, inner), (hentries _).2 hinside, mem_under.2 ⟨rest, rfl, hmem⟩⟩

theorem lists_file (content : List UInt8) (own : String) :
    Lists (.file content) own (if isUnitName own then [([], content)] else []) := by
  by_cases hname : isUnitName own = true
  · rw [if_pos hname]
    refine ⟨List.pairwise_singleton _ _, fun names content' => ?_⟩
    rw [List.mem_singleton, Prod.mk.injEq, holds_file_iff]
    constructor
    · rintro ⟨rfl, rfl⟩
      exact ⟨⟨rfl, rfl⟩, isUnitName_iff.1 hname⟩
    · exact And.left
  · rw [if_neg hname]
    refine ⟨.nil, fun names content' => ⟨fun h => absurd h List.not_mem_nil, ?_⟩⟩
    rw [holds_file_iff]
    rintro ⟨⟨rfl, rfl⟩, hown⟩
    exact absurd (isUnitName_iff.2 hown) hname

/-- A tree is read in the order of the names below it: what its directories do to whole
paths comes to that. -/
theorem Proper.exists_lists (h : tree.Proper) (path : String) :
    ∃ files, tree.Lists (fileName path) files ∧
      tree.unitFiles path = files.map fun file => (pathBelow path file.1, file.2) := by
  -- The path changes from a directory to its entries, and with it the tree's own name.
  induction h generalizing path with
  | file content =>
    refine ⟨_, lists_file content (fileName path), ?_⟩
    rw [unitFiles, apply_ite (List.map _)]
    rfl
  | @directory entries hnodup hslash _ ih =>
    choose! below hbelow using fun entry hentry => ih entry hentry (joinPath path entry.1)
    have hlists : ∀ entry ∈ entries, entry.2.Lists entry.1 (below entry) := by
      intro entry hentry
      rw [← fileName_joinPath path (hslash entry hentry)]
      exact (hbelow entry hentry).1
    refine ⟨_, lists_directory hnodup hlists (fileName path), ?_⟩
    rw [unitFiles_directory, List.map_flatMap]
    refine List.flatMap_congr fun entry hentry => ?_
    rw [(hbelow entry (List.mem_mergeSort.1 hentry)).2, under, List.map_map]
    rfl

/-! ## Another order of listing -/

theorem Relists.symm (h : tree.Relists tree') : tree'.Relists tree := by
  induction h with
  | refl tree => exact .refl tree
  | here hperm => exact .here hperm.symm
  | inside _ ih => exact .inside ih
  | trans _ _ ih ih' => exact .trans ih' ih

theorem Relists.holds (h : tree.Relists tree') {names : List String} {content : List UInt8}
    (hholds : tree.Holds names content) : tree'.Holds names content := by
  induction h generalizing names with
  | refl => exact hholds
  | here hperm =>
    obtain ⟨name, inner, rest, rfl, hentry, hrest⟩ := holds_directory_iff.1 hholds
    exact .entry (hperm.mem_iff.1 hentry) hrest
  | inside _ ih =>
    obtain ⟨name, inner, rest, rfl, hentry, hrest⟩ := holds_directory_iff.1 hholds
    rw [List.mem_append, List.mem_cons] at hentry
    obtain hbefore | heq | hafter := hentry
    · exact .entry (List.mem_append_left _ hbefore) hrest
    · cases heq
      exact .entry (List.mem_append_right _ List.mem_cons_self) (ih hrest)
    · exact .entry (List.mem_append_right _ (List.mem_cons_of_mem _ hafter)) hrest
  | trans _ _ ih ih' => exact ih' (ih hholds)

theorem Relists.proper (h : tree.Relists tree') (hproper : tree.Proper) : tree'.Proper := by
  induction h with
  | refl => exact hproper
  | here hperm =>
    cases hproper with
    | directory hnodup hslash hinner =>
      refine .directory ((hperm.map Prod.fst).nodup_iff.1 hnodup) ?_ ?_
      · exact fun entry hentry => hslash entry (hperm.mem_iff.2 hentry)
      · exact fun entry hentry => hinner entry (hperm.mem_iff.2 hentry)
  | inside _ ih =>
    cases hproper with
    | directory hnodup hslash hinner =>
      rw [List.forall_mem_append, List.forall_mem_cons] at hslash hinner
      rw [List.map_append, List.map_cons] at hnodup
      refine .directory ?_ ?_ ?_
      · rwa [List.map_append, List.map_cons]
      · rw [List.forall_mem_append, List.forall_mem_cons]
        exact hslash
      · rw [List.forall_mem_append, List.forall_mem_cons]
        exact ⟨hinner.1, ih hinner.2.1, hinner.2.2⟩
  | trans _ _ ih ih' => exact ih' (ih hproper)

theorem Relists.isDirectory_eq (h : tree.Relists tree') : tree'.isDirectory = tree.isDirectory := by
  induction h with
  | refl => rfl
  | here => rfl
  | inside => rfl
  | trans _ _ ih ih' => rw [ih', ih]

/-- Whatever order the directories list their entries in, the same files are read. -/
theorem Relists.unitFiles_eq (h : tree.Relists tree') (hproper : tree.Proper) (path : String) :
    tree'.unitFiles path = tree.unitFiles path := by
  obtain ⟨files, hlists, hfiles⟩ := hproper.exists_lists path
  obtain ⟨files', hlists', hfiles'⟩ := (h.proper hproper).exists_lists path
  have hsame : files = files' :=
    hlists.unique hlists' fun _ _ => ⟨h.holds, h.symm.holds⟩
  rw [hfiles, hfiles', hsame]

end FileTree

/-! ## The units -/

/-- The unit that stands in a file below a path. The artifact of the unit is that file. -/
structure LoadedFrom (path : String) (file : NamedFile) (loaded : LoadedUnit) : Prop where
  unit : SourceUnit.ofBytes file.2 = .ok loaded.unit
  artifact : ∀ base, loaded.artifact base = ⟨fileUri base (pathBelow path file.1), file.2.length⟩

theorem ofFile_eq_ok {path : String} {file : NamedFile} {loaded : LoadedUnit}
    (h : LoadedUnit.ofFile (pathBelow path file.1, file.2) = .ok loaded) :
    LoadedFrom path file loaded := by
  simp only [LoadedUnit.ofFile] at h
  split at h
  · cases h
    exact ⟨‹_›, fun _ => rfl⟩
  · cases h

theorem ofFile_eq_error {path : String} {content : List UInt8} {error : LoadError}
    (h : LoadedUnit.ofFile (path, content) = .error error) :
    ∃ cause, SourceUnit.ofBytes content = .error cause ∧ error = .undecodable path cause := by
  simp only [LoadedUnit.ofFile] at h
  split at h
  · cases h
  · cases h
    exact ⟨_, ‹_›, rfl⟩

theorem loadUnits_of_isDirectory {tree : FileTree} (h : tree.isDirectory = true) (path : String) :
    loadUnits path (some tree) = (tree.unitFiles path).mapM LoadedUnit.ofFile := by
  cases tree with
  | file content => cases h
  | directory entries => rfl

/-- **Directories as inputs.** The unit files below a directory, each once and in the order of
the names that lead to them, decide what is loaded: one unit and one artifact for each of them
in that order, or, if some of them cannot be decoded, the fault of the first of these. In what
order the directories list their entries does not matter. -/
theorem loadUnits_directory {tree : FileTree} (hdirectory : tree.isDirectory = true)
    (hproper : tree.Proper) (path : String) :
    (∃ files, tree.Lists (fileName path) files ∧
      ((∃ loaded, loadUnits path (some tree) = .ok loaded ∧
          List.Forall₂ (LoadedFrom path) files loaded) ∨
        ∃ before file after cause, files = before ++ file :: after ∧
          (∀ earlier ∈ before, ∃ unit, SourceUnit.ofBytes earlier.2 = .ok unit) ∧
          SourceUnit.ofBytes file.2 = .error cause ∧
          loadUnits path (some tree) = .error (.undecodable (pathBelow path file.1) cause))) ∧
      ∀ tree', tree.Relists tree' → loadUnits path (some tree') = loadUnits path (some tree) := by
  obtain ⟨files, hlists, hfiles⟩ := hproper.exists_lists path
  refine ⟨⟨files, hlists, ?_⟩, fun tree' hrelists => ?_⟩
  · rw [loadUnits_of_isDirectory hdirectory, hfiles, List.mapM_map]
    obtain ⟨loaded, hloaded, hall⟩ |
        ⟨before, file, after, error, hsplit, hbefore, hfailed, herror⟩ :=
      mapM_except_cases (fun file : NamedFile =>
        LoadedUnit.ofFile (pathBelow path file.1, file.2)) files
    · exact .inl ⟨loaded, hloaded, hall.imp fun _ _ => ofFile_eq_ok⟩
    · obtain ⟨cause, hcause, rfl⟩ := ofFile_eq_error hfailed
      refine .inr ⟨before, file, after, cause, hsplit, fun earlier hearlier => ?_, hcause, herror⟩
      obtain ⟨loaded, hloaded⟩ := hbefore earlier hearlier
      exact ⟨loaded.unit, (ofFile_eq_ok hloaded).unit⟩
  · rw [loadUnits_of_isDirectory hdirectory,
      loadUnits_of_isDirectory (hrelists.isDirectory_eq.trans hdirectory),
      hrelists.unitFiles_eq hproper]

/-- A unit with nothing in it. -/
def emptyUnitText : List UInt8 :=
  "\x7b\"source_file\":\"A.java\"\x7d".toUTF8.toList

def innerEntries : List (String × FileTree) :=
  [("x.json", .file emptyUnitText), ("notes.txt", .file [])]

/-- As texts, `a-b.json` comes before `a/x.json`. The file `.json` has no extension. -/
def outerEntries (inner : List (String × FileTree)) : List (String × FileTree) :=
  [("a-b.json", .file emptyUnitText), (".json", .file emptyUnitText)] ++ [("a", .directory inner)]

def mixedTree : FileTree := .directory (outerEntries innerEntries)

/-- Both directories list their entries the other way round. -/
def mixedTreeRelisted : FileTree := .directory (outerEntries innerEntries.reverse).reverse

theorem proper_mixedTree : mixedTree.Proper := by
  refine .directory (by decide) (by decide) ?_
  simp only [outerEntries, innerEntries, List.forall_mem_append, List.forall_mem_cons]
  refine ⟨⟨.file _, .file _, List.forall_mem_nil _⟩, .directory (by decide) (by decide) ?_,
    List.forall_mem_nil _⟩
  simp only [List.forall_mem_cons]
  exact ⟨.file _, .file _, List.forall_mem_nil _⟩

theorem relists_mixedTree : mixedTree.Relists mixedTreeRelisted := by
  have hinner : FileTree.Relists (.directory (outerEntries innerEntries))
      (.directory (outerEntries innerEntries.reverse)) :=
    .inside (.here (List.reverse_perm innerEntries).symm)
  exact hinner.trans (.here (List.reverse_perm _).symm)

theorem lists_mixedTree : mixedTree.Lists (fileName "in")
    [(["a", "x.json"], emptyUnitText), (["a-b.json"], emptyUnitText)] := by
  refine ⟨List.pairwise_pair.2 (by decide), fun names content => ⟨fun hmem => ?_, ?_⟩⟩
  · simp only [List.mem_cons, List.not_mem_nil, or_false, Prod.mk.injEq] at hmem
    obtain ⟨rfl, rfl⟩ | ⟨rfl, rfl⟩ := hmem
    · have hinner : FileTree.Holds (.directory innerEntries) ["x.json"] emptyUnitText :=
        .entry List.mem_cons_self (.file _)
      exact ⟨.entry (List.mem_append_right _ List.mem_cons_self) hinner,
        isUnitName_iff.1 (by decide +kernel)⟩
    · exact ⟨.entry List.mem_cons_self (.file _), isUnitName_iff.1 (by decide +kernel)⟩
  · rintro ⟨hholds, hname⟩
    obtain ⟨name, inner, rest, rfl, hentry, hrest⟩ := FileTree.holds_directory_iff.1 hholds
    rw [← isUnitName_iff] at hname
    simp only [outerEntries, List.mem_append, List.mem_cons, List.not_mem_nil, or_false,
      Prod.mk.injEq] at hentry
    obtain (⟨rfl, rfl⟩ | ⟨rfl, rfl⟩) | ⟨rfl, rfl⟩ := hentry
    · obtain ⟨rfl, rfl⟩ := FileTree.holds_file_iff.1 hrest
      exact List.mem_cons_of_mem _ List.mem_cons_self
    · obtain ⟨rfl, rfl⟩ := FileTree.holds_file_iff.1 hrest
      exact absurd hname (by decide +kernel)
    · obtain ⟨name, inner, rest, rfl, hentry, hrest⟩ := FileTree.holds_directory_iff.1 hrest
      simp only [innerEntries, List.mem_cons, List.not_mem_nil, or_false, Prod.mk.injEq] at hentry
      obtain ⟨rfl, rfl⟩ | ⟨rfl, rfl⟩ := hentry
      · obtain ⟨rfl, rfl⟩ := FileTree.holds_file_iff.1 hrest
        exact List.mem_cons_self
      · obtain ⟨rfl, rfl⟩ := FileTree.holds_file_iff.1 hrest
        exact absurd hname (by decide +kernel)

/-- Two of the four files are loaded, and the order is that of the names. -/
theorem loadUnits_directory_mixedTree : mixedTree.isDirectory = true ∧ mixedTree.Proper ∧
    mixedTree.Relists mixedTreeRelisted ∧ ∃ loaded,
      loadUnits "in" (some mixedTree) = .ok loaded ∧
      loadUnits "in" (some mixedTreeRelisted) = .ok loaded ∧
      loaded.map (LoadedUnit.artifact "/work") =
        [⟨"file:///work/in/a/x.json", 24⟩, ⟨"file:///work/in/a-b.json", 24⟩] := by
  obtain ⟨⟨files, hlists, hresult⟩, hrelisted⟩ := loadUnits_directory rfl proper_mixedTree "in"
  obtain rfl := hlists.unique lists_mixedTree fun _ _ => Iff.rfl
  refine ⟨rfl, proper_mixedTree, relists_mixedTree, ?_⟩
  obtain ⟨loaded, hloaded, hall⟩ | ⟨before, file, after, cause, hsplit, -, hcause, -⟩ := hresult
  · refine ⟨loaded, hloaded, (hrelisted _ relists_mixedTree).trans hloaded, ?_⟩
    obtain ⟨_, _, hfirst, hrest, rfl⟩ := List.forall₂_cons_left_iff.1 hall
    obtain ⟨_, _, hsecond, hnone, rfl⟩ := List.forall₂_cons_left_iff.1 hrest
    obtain rfl := List.forall₂_nil_left_iff.1 hnone
    rw [List.map_cons, List.map_cons, hfirst.artifact, hsecond.artifact]
    decide +kernel
  · -- Both files hold the text of a unit.
    have hdecodes : (SourceUnit.ofBytes emptyUnitText).toOption.isSome = true := by decide +kernel
    have hfile : file ∈ before ++ file :: after := List.mem_append_right _ List.mem_cons_self
    rw [← hsplit, List.mem_pair] at hfile
    have htext : file.2 = emptyUnitText := by
      obtain rfl | rfl := hfile <;> rfl
    rw [htext] at hcause
    rw [hcause] at hdecodes
    cases hdecodes

end JvmLint
