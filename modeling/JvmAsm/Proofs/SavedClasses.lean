import JvmAsm.Proofs.ClassFilePaths
import JvmAsm.Proofs.FileStorage
import JvmAsm.Registry

/-! # Saving many classes

Classes that are saved in one directory share the way to it, and behind that each has
the directories of its packages and its file.  The file of a class has a dot in its name
and a directory of packages has none, so saving one class neither blocks the way to
another one nor takes its place (`BinaryName.storable_iff`).  Hence a set of classes can be saved
if and only if each of them could be saved alone, and every class is then found in a
file of its own (`exists_saveAll`, `saved_of_saveAll`). -/

namespace JvmAsm

/-! ## Paths seen from a directory -/

namespace Path

/-- A path seen from a directory ends like the path itself, and begins like the directory but for
texts that are no names. -/
theorem exists_names_join (directory : String) {path : String}
    (relative : isAbsolute path = false) :
    ∃ front, names (join directory path) = front ++ names path ∧
      front.filter (fun part => part != "" && part != ".") = FileTree.parts directory := by
  unfold join
  rw [relative, Bool.false_or]
  by_cases empty : directory = ""
  · subst empty
    exact ⟨[], rfl, rfl⟩
  · rw [if_neg (by simpa using empty)]
    by_cases closed : directory.back? = some '/'
    · rw [if_pos (by simpa using closed)]
      rw [String.back?_eq] at closed
      obtain ⟨chars, hchars⟩ := List.getLast?_eq_some_iff.mp closed
      obtain rfl : directory = String.ofList chars ++ "/" := by
        rw [← String.toList_inj, String.toList_append, String.toList_ofList, hchars]
        rfl
      refine ⟨names (String.ofList chars), names_append _ _, ?_⟩
      -- Behind the last slash stands an empty text, which `parts` leaves out.
      have closing := names_append (String.ofList chars) ""
      rw [String.append_empty] at closing
      rw [FileTree.parts, closing, List.filter_append]
      exact (List.append_nil _).symm
    · rw [if_neg (by simpa using closed)]
      exact ⟨names directory, names_append _ _, rfl⟩

theorem isAbsolute_join (directory : String) {path : String} (relative : isAbsolute path = false) :
    isAbsolute (join directory path) = isAbsolute directory := by
  unfold join
  rw [relative, Bool.false_or]
  by_cases empty : directory = ""
  · subst empty
    exact relative
  · have filled : directory.toList ≠ [] := fun none => empty (String.toList_eq_nil_iff.mp none)
    have front (rest : String) : (directory ++ rest).front? = directory.front? := by
      rw [String.front?_eq, String.front?_eq, String.toList_append, List.head?_append,
        List.head?_eq_some_head filled, Option.some_or]
    rw [if_neg (by simpa using empty)]
    unfold isAbsolute
    split
    · rw [front]
    · rw [String.append_assoc, front]

end Path

/-- The place of a directory. -/
def FileTree.target (directory : String) : Route :=
  (parts directory).foldl step (origin directory)

namespace BinaryName

open FileTree JvmAsm.Path

variable (name : BinaryName) (directory : String)

theorem parts_filePath : parts name.filePath = names name.filePath := by
  unfold parts
  refine List.filter_eq_self.mpr fun part hpart => ?_
  obtain ⟨filled, elsewhere, -⟩ := proper_of_mem hpart
  simp [filled, elsewhere]

theorem parts_pathIn :
    parts (name.pathIn directory) =
      parts directory ++ name.components.dropLast ++ [name.fileName] := by
  obtain ⟨front, hnames, hfront⟩ := exists_names_join directory name.spelled_filePath.relative
  rw [List.append_assoc, ← name.names_filePath, ← name.parts_filePath, ← hfront]
  unfold parts pathIn
  rw [hnames, List.filter_append]

theorem origin_pathIn : origin (name.pathIn directory) = origin directory := by
  unfold origin pathIn
  rw [isAbsolute_join directory name.spelled_filePath.relative]

/-- **A class file stays inside the directory**, below which it has the path of its name. -/
theorem place_pathIn : place (name.pathIn directory) = target directory ++ names name.filePath := by
  have onward : ∀ part ∈ names name.filePath, part ≠ ".." :=
    fun part hpart => (proper_of_mem hpart).2.2
  unfold place target
  rw [parts_pathIn, origin_pathIn, List.dropLast_concat, List.getLastD_concat,
    ← foldl_step _ onward, names_filePath, List.foldl_append, List.foldl_append]
  rfl

/-- The way to a class file goes through the directory and then through packages. -/
theorem way_pathIn : way (name.pathIn directory) =
    routes (origin directory) (parts directory) ++
      routes (target directory) name.components.dropLast := by
  unfold way target
  rw [parts_pathIn, origin_pathIn, List.dropLast_concat, routes_append]

theorem place_pathIn_injective :
    Function.Injective fun name : BinaryName => place (name.pathIn directory) := by
  intro name other same
  dsimp only at same
  rw [place_pathIn, place_pathIn] at same
  exact filePath_injective (names_injective (List.append_cancel_left same))

/-- **Packages lead past all class files**, so one in the way is in the way of all classes. -/
theorem place_mem_way_iff (other : BinaryName) :
    place (name.pathIn directory) ∈ way (other.pathIn directory) ↔
    place (name.pathIn directory) ∈ routes (origin directory) (parts directory) := by
  rw [way_pathIn, List.mem_append, or_iff_left]
  intro package
  have onward : ∀ part ∈ other.components.dropLast, part ≠ ".." := by
    rintro part hpart rfl
    exact (isPlain_of_mem_package hpart).2 (by decide)
  obtain ⟨front, last, hlast, same⟩ := exists_of_mem_routes onward package
  rw [place_pathIn, names_filePath, ← List.append_assoc] at same
  -- The last names would be the same, but only that of a file has a dot.
  obtain ⟨-, rfl⟩ := List.append_singleton_inj.mp same
  exact (isPlain_of_mem_package hlast).2 name.isName_fileName.2

/-- **Storing one class does not decide about another.** -/
theorem storable_iff {name : BinaryName} {directory : String} {tree tree' : FileTree}
    {bytes : Bytes}
    (stored : tree.Stored (name.pathIn directory) bytes tree')
    (storable : tree.Storable (name.pathIn directory)) (other : BinaryName) :
    tree'.Storable (other.pathIn directory) ↔ tree.Storable (other.pathIn directory) := by
  have ahead : place (name.pathIn directory) ∉ way (other.pathIn directory) := by
    rw [place_mem_way_iff, ← place_mem_way_iff name directory name]
    exact storable.apart
  -- That the other file is not in the way either is part of both sides.
  have either (tree₀ : FileTree) (h : tree₀.Storable (other.pathIn directory)) :
      tree'.Storable (other.pathIn directory) ↔ tree.Storable (other.pathIn directory) := by
    refine stored.storable_iff storable ahead ?_
    rw [place_mem_way_iff, ← place_mem_way_iff other directory other]
    exact h.apart
  exact ⟨fun h => (either tree' h).mp h, fun h => (either tree h).mpr h⟩

end BinaryName

namespace Registry

open FileTree

variable {classes : List (BinaryName × Bytes)} {name : BinaryName} {bytes : Bytes}
  {directory : String}
  {tree tree' : FileTree} {paths : List String}

/-! ## Saving -/

theorem saveAll_nil : saveAll ⟨[]⟩ directory tree = .ok [] tree := rfl

/-- The first class is stored, and then the others. -/
theorem saveAll_cons : saveAll ⟨(name, bytes) :: classes⟩ directory tree = .ok paths tree' ↔
    ∃ middle rest, store (name.pathIn directory) bytes true tree = .ok () middle ∧
      saveAll ⟨classes⟩ directory middle = .ok rest tree' ∧
        paths = name.pathIn directory :: rest := by
  unfold saveAll
  rw [List.mapM_cons, Attempt.bind_eq_ok]
  dsimp only
  cases run : store (name.pathIn directory) bytes true tree with
  | error cause middle => simp
  | ok answer middle =>
    simp only [EStateM.Result.ok.injEq, Attempt.bind_eq_ok, Attempt.pure_eq_ok]
    constructor
    · rintro ⟨path, state, ⟨rfl, rfl⟩, rest, last, run, rfl, rfl⟩
      exact ⟨middle, rest, ⟨trivial, rfl⟩, run, rfl⟩
    · rintro ⟨state, rest, ⟨-, rfl⟩, run, rfl⟩
      exact ⟨_, _, ⟨rfl, rfl⟩, rest, tree', run, rfl, rfl⟩

/-- **What saving makes of a tree**: each class is in the file at its path, and there is no change
to other files. -/
structure Saved (registry : Registry) (directory : String) (tree : FileTree) (paths : List String)
    (tree' : FileTree) : Prop where
  paths : paths = registry.names.map (·.pathIn directory)
  files : ∀ entry ∈ registry.classes,
    tree'.bytesAt? (place (entry.1.pathIn directory)) = some entry.2
  others : ∀ route, (∀ name ∈ registry.names, route ≠ place (name.pathIn directory)) →
    tree'.bytesAt? route = tree.bytesAt? route

theorem saved_of_saveAll (distinct : (names ⟨classes⟩).Nodup)
    (h : saveAll ⟨classes⟩ directory tree = .ok paths tree') :
    (∀ entry ∈ classes, tree.Storable (entry.1.pathIn directory)) ∧
      Saved ⟨classes⟩ directory tree paths tree' := by
  induction classes generalizing tree paths with
  | nil =>
    cases h
    exact ⟨by simp, rfl, by simp, fun _ _ => rfl⟩
  | cons entry classes ih =>
    obtain ⟨name, bytes⟩ := entry
    obtain ⟨middle, rest, first, later, rfl⟩ := saveAll_cons.mp h
    obtain ⟨storable, stored⟩ := stored_of_store first
    obtain ⟨fresh, distinct⟩ := List.nodup_cons.mp distinct
    obtain ⟨storables, saved⟩ := ih distinct later
    refine ⟨List.forall_mem_cons.mpr ⟨storable, ?_⟩, ?_,
      List.forall_mem_cons.mpr ⟨?_, saved.files⟩, ?_⟩
    · -- The other classes find a tree that has the first one in it.
      intro entry hentry
      exact (BinaryName.storable_iff stored storable entry.1).mp (storables entry hentry)
    · exact congrArg (name.pathIn directory :: ·) saved.paths
    · have untouched : ∀ other ∈ names ⟨classes⟩,
          place (name.pathIn directory) ≠ place (other.pathIn directory) := by
        intro other hother same
        exact fresh (BinaryName.place_pathIn_injective directory same ▸ hother)
      rw [saved.others _ untouched, stored.files, if_pos rfl]
    · intro route elsewhere
      obtain ⟨here, elsewhere⟩ := List.forall_mem_cons.mp elsewhere
      rw [saved.others route elsewhere, stored.files, if_neg here]

theorem exists_saveAll (storable : ∀ entry ∈ classes, tree.Storable (entry.1.pathIn directory)) :
    ∃ paths tree', saveAll ⟨classes⟩ directory tree = .ok paths tree' := by
  induction classes generalizing tree with
  | nil => exact ⟨[], tree, saveAll_nil⟩
  | cons entry classes ih =>
    obtain ⟨name, bytes⟩ := entry
    obtain ⟨here, storable⟩ := List.forall_mem_cons.mp storable
    obtain ⟨middle, first⟩ := exists_store bytes here
    have stored := (stored_of_store first).2
    obtain ⟨rest, tree', later⟩ := ih fun entry hentry =>
      (BinaryName.storable_iff stored here entry.1).mpr (storable entry hentry)
    exact ⟨_, tree', saveAll_cons.mpr ⟨middle, rest, first, later, rfl⟩⟩

/-- **Class files stay inside the directory and never clash.**  However a name came about:

* the path of its class file is relative and spells the name, with one directory for each package
  segment, the simple name and the extension at the end, and nothing that stays in place or goes up,
  so seen from a directory the file is below it;
* for two names the paths differ, neither leads through the other, and in a directory they are
  different places;
* any set of classes can be saved if and only if each of them can be stored alone, and then each is
  in the file at its own path and no other file has changed.

No name is twice in a registry that classes were added to (`LastWriterMap.names`). -/
theorem class_files_never_clash (registry : Registry) (distinct : registry.names.Nodup)
    (directory : String) (tree : FileTree) :
    (∀ name : BinaryName, name.Spelled name.filePath ∧
        place (name.pathIn directory) = target directory ++ Path.names name.filePath) ∧
      (∀ text name, BinaryName.ofString text = .ok name → name.filePath = text ++ ".class") ∧
      (∀ text name, BinaryName.ofDotted text = .ok name → name.filePath =
        String.ofList (text.toList.map fun c => if c = '.' then '/' else c) ++ ".class") ∧
      (∀ name other : BinaryName, name ≠ other → name.filePath ≠ other.filePath ∧
        ¬ Path.names name.filePath <+: Path.names other.filePath ∧
        place (name.pathIn directory) ≠ place (other.pathIn directory)) ∧
      ((∃ paths tree', registry.saveAll directory tree = .ok paths tree') ↔
        ∀ entry ∈ registry.classes, ∃ tree',
          store (entry.1.pathIn directory) entry.2 true tree = .ok () tree') ∧
      ∀ paths tree', registry.saveAll directory tree = .ok paths tree' →
        Saved registry directory tree paths tree' := by
  refine ⟨fun name => ⟨name.spelled_filePath, name.place_pathIn directory⟩, ?_, ?_, ?_, ?_, ?_⟩
  · intro text name valid
    rw [name.filePath_eq, BinaryName.ofString_eq_ok.mp valid]
  · intro text name valid
    rw [name.filePath_eq, BinaryName.ofDotted_eq_ok.mp valid]
  · intro name other differ
    exact ⟨BinaryName.filePath_injective.ne differ, BinaryName.not_prefix_of_ne differ,
      (BinaryName.place_pathIn_injective directory).ne differ⟩
  · simp only [exists_store_iff]
    constructor
    · rintro ⟨paths, tree', run⟩
      exact (saved_of_saveAll distinct run).1
    · exact exists_saveAll
  · intro paths tree' run
    exact (saved_of_saveAll distinct run).2

end Registry

namespace Sample

/-- A class whose name is that of a package too. -/
def outer : BinaryName := ⟨"p/A", by decide⟩

/-- A class in that package. -/
def inner : BinaryName := ⟨"p/A/B", by decide⟩

def nested : Registry := ⟨[(outer, [1]), (inner, [2])]⟩

/-- Both are saved, with the way to the directory going up once. -/
theorem nested_classes_are_saved :
    nested.names.Nodup ∧ BinaryName.ofDotted "p.A" = .ok outer ∧ outer.filePath = "p/A.class" ∧
      ¬ Path.names outer.filePath <+: Path.names inner.filePath ∧
      ∃ tree', nested.saveAll "gen/../out/" .empty =
          .ok ["gen/../out/p/A.class", "gen/../out/p/A/B.class"] tree' ∧
        tree'.bytesAt? ["out", "p", "A.class"] = some [1] ∧
        tree'.bytesAt? ["out", "p", "A", "B.class"] = some [2] := by
  have distinct : nested.names.Nodup := by decide
  have dotted : BinaryName.ofDotted "p.A" = .ok outer := by cbv
  obtain ⟨-, -, ofDotted, apart, possible, saved⟩ :=
    Registry.class_files_never_clash nested distinct "gen/../out/" .empty
  have alone : ∀ entry ∈ nested.classes, ∃ tree',
      FileTree.store (entry.1.pathIn "gen/../out/") entry.2 true .empty = .ok () tree' := by
    refine List.forall_mem_cons.mpr ⟨?_, List.forall_mem_singleton.mpr ?_⟩
    · exact FileTree.exists_store [1] (by decide +kernel)
    · exact FileTree.exists_store [2] (by decide +kernel)
  obtain ⟨paths, tree', run⟩ := possible.mpr alone
  obtain ⟨rfl, files, -⟩ := saved paths tree' run
  have first := files (outer, [1]) List.mem_cons_self
  have second := files (inner, [2]) (List.mem_cons_of_mem _ List.mem_cons_self)
  have spelled : nested.names.map (·.pathIn "gen/../out/") =
      ["gen/../out/p/A.class", "gen/../out/p/A/B.class"] := by decide +kernel
  have outerPlace : FileTree.place (outer.pathIn "gen/../out/") = ["out", "p", "A.class"] := by
    decide +kernel
  have innerPlace : FileTree.place (inner.pathIn "gen/../out/") = ["out", "p", "A", "B.class"] := by
    decide +kernel
  exact ⟨distinct, dotted, ofDotted _ _ dotted, (apart outer inner (by decide)).2.1, tree',
    spelled ▸ run, outerPlace ▸ first, innerPlace ▸ second⟩

end Sample

end JvmAsm
