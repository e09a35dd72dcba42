import JvmAsm.FileTree
import Mathlib.Logic.Basic
import Mathlib.Tactic.MkIffOfInductiveProp

/-! # Storing files

Storing a file leads along a way of directories to a place.  Both are read off the path
alone (`way`, `place`), so what is needed of the tree can be said beforehand
(`Storable`), and what becomes of it as well (`Stored`): storing succeeds if and only if
nothing on the way is a file and no directory is at the place, and then one file has
changed and the way is open. -/

namespace JvmAsm.FileTree

variable {tree tree' tree'' : FileTree} {route next : Route} {name path : String}
  {names : List String}
  {bytes : Bytes}

/-! ## What is in a tree -/

/-- The bytes of the file at a place. -/
def bytesAt? (tree : FileTree) (route : Route) : Option Bytes := tree.files.lookup route

theorem isFile_eq (tree : FileTree) (route : Route) :
    tree.isFile route = (tree.bytesAt? route).isSome := by
  rw [Bool.eq_iff_iff, isFile, List.any_eq_true, bytesAt?, List.lookup_isSome_iff]
  refine exists_congr fun file => and_congr_right fun _ => ?_
  exact beq_iff_eq.trans (eq_comm.trans beq_iff_eq.symm)

/-- Nothing keeps a directory from being entered or made here. -/
def Passable (tree : FileTree) (route : Route) : Prop :=
  tree.isDirectory route = true ∨ tree.isFile route = false

instance : Decidable (tree.Passable route) := inferInstanceAs (Decidable (_ ∨ _))

/-- Where directories could be made, making them leaves passable what was. -/
theorem passable_iff_of_made {made : List Route}
    (directories : tree'.isDirectory route = true ↔ tree.isDirectory route = true ∨ route ∈ made)
    (files : tree'.isFile route = tree.isFile route)
    (passable : ∀ route ∈ made, tree.Passable route) :
    tree'.Passable route ↔ tree.Passable route := by
  unfold Passable
  rw [directories, files]
  constructor
  · rintro ((there | made) | none)
    · exact .inl there
    · exact passable route made
    · exact .inr none
  · rintro (there | none)
    · exact .inl (.inl there)
    · exact .inr none

/-- The same files, and some directories more. -/
structure Opened (tree : FileTree) (routes : List Route) (tree' : FileTree) : Prop where
  files : tree'.files = tree.files
  directories :
    ∀ route, tree'.isDirectory route = true ↔ tree.isDirectory route = true ∨ route ∈ routes

namespace Opened

variable {routes routes' : List Route}

theorem refl (tree : FileTree) : Opened tree [] tree := ⟨rfl, fun _ => by simp⟩

theorem trans (first : Opened tree routes tree') (second : Opened tree' routes' tree'') :
    Opened tree (routes ++ routes') tree'' where
  files := second.files.trans first.files
  directories route := by rw [second.directories, first.directories, List.mem_append, or_assoc]

theorem bytesAt?_eq (h : Opened tree routes tree') (route : Route) :
    tree'.bytesAt? route = tree.bytesAt? route := by
  unfold bytesAt?
  rw [h.files]

theorem passable_iff (h : Opened tree routes tree')
    (passable : ∀ route ∈ routes, tree.Passable route) :
    tree'.Passable route ↔ tree.Passable route := by
  refine passable_iff_of_made (h.directories route) ?_ passable
  rw [isFile_eq, isFile_eq, h.bytesAt?_eq]

end Opened

/-! ## Walking -/

/-- The tree with a directory made where there is none. -/
def withDirectory (route : Route) (tree : FileTree) : FileTree :=
  if tree.isDirectory route then tree else { tree with directories := route :: tree.directories }

theorem opened_withDirectory (route : Route) (tree : FileTree) :
    Opened tree [route] (tree.withDirectory route) := by
  unfold withDirectory
  by_cases there : tree.isDirectory route = true
  · rw [if_pos there]
    refine ⟨rfl, fun other => ⟨.inl, ?_⟩⟩
    rintro (known | same)
    · exact known
    · exact List.mem_singleton.mp same ▸ there
  · rw [if_neg there]
    refine ⟨rfl, fun other => ?_⟩
    simp only [isDirectory, Bool.or_eq_true, List.contains_eq_mem, decide_eq_true_eq, List.mem_cons,
      List.not_mem_nil, or_false]
    exact or_left_comm.trans or_comm

/-- **When a directory can be entered**, and what that makes of the tree. -/
theorem enter_eq_ok : enter true route name tree = .ok next tree' ↔
    name.utf8ByteSize ≤ maxNameBytes ∧ tree.Passable (step route name) ∧
      next = step route name ∧ tree' = tree.withDirectory (step route name) := by
  unfold enter Passable withDirectory
  dsimp only
  by_cases long : maxNameBytes < name.utf8ByteSize
  · rw [if_pos long]
    constructor
    · intro refused
      cases refused
    · rintro ⟨short, -⟩
      exact absurd long (Nat.not_lt.mpr short)
  · rw [if_neg long]
    have short := Nat.le_of_not_lt long
    by_cases there : tree.isDirectory (step route name) = true
    · rw [if_pos there, if_pos there, EStateM.Result.ok.injEq]
      constructor
      · rintro ⟨rfl, rfl⟩
        exact ⟨short, .inl there, rfl, rfl⟩
      · rintro ⟨-, -, rfl, rfl⟩
        exact ⟨rfl, rfl⟩
    · rw [if_neg there, if_neg there]
      by_cases file : tree.isFile (step route name) = true
      · rw [if_pos file]
        constructor
        · intro refused
          cases refused
        · rintro ⟨-, directory | none, -⟩
          · exact absurd directory there
          · rw [none] at file
            cases file
      · rw [if_neg file, if_pos rfl, EStateM.Result.ok.injEq]
        constructor
        · rintro ⟨rfl, rfl⟩
          exact ⟨short, .inr (Bool.eq_false_iff.mpr file), rfl, rfl⟩
        · rintro ⟨-, -, rfl, rfl⟩
          exact ⟨rfl, rfl⟩

/-- The places that are passed on the way along names. -/
def routes : Route → List String → List Route
  | _, [] => []
  | route, name :: names => step route name :: routes (step route name) names

theorem routes_append (route : Route) (names rest : List String) :
    routes route (names ++ rest) = routes route names ++ routes (names.foldl step route) rest := by
  induction names generalizing route with
  | nil => rfl
  | cons name names ih => exact congrArg (step route name :: ·) (ih _)

/-- Names that do not go up lead further from where one is. -/
theorem foldl_step (route : Route) (onward : ∀ name ∈ names, name ≠ "..") :
    names.foldl step route = route ++ names := by
  induction names generalizing route with
  | nil => exact (List.append_nil _).symm
  | cons name names ih =>
    obtain ⟨further, onward⟩ := List.forall_mem_cons.mp onward
    have first : step route name = route ++ [name] := if_pos (bne_iff_ne.mpr further)
    rw [List.foldl_cons, first, ih _ onward, List.append_assoc, List.singleton_append]

theorem exists_of_mem_routes (onward : ∀ name ∈ names, name ≠ "..")
    (h : next ∈ routes route names) :
    ∃ front, ∃ last ∈ names, next = front ++ [last] := by
  induction names generalizing route with
  | nil => cases h
  | cons name names ih =>
    obtain ⟨further, onward⟩ := List.forall_mem_cons.mp onward
    rcases List.mem_cons.mp h with rfl | later
    · exact ⟨route, name, List.mem_cons_self, if_pos (bne_iff_ne.mpr further)⟩
    · obtain ⟨front, last, hlast, rfl⟩ := ih onward later
      exact ⟨front, last, List.mem_cons_of_mem _ hlast, rfl⟩

/-- **When a way can be walked**, and what that makes of the tree. -/
theorem walk_eq_ok {last : Route} (h : names.foldlM (enter true) route tree = .ok last tree') :
    (∀ name ∈ names, name.utf8ByteSize ≤ maxNameBytes) ∧
      (∀ place ∈ routes route names, tree.Passable place) ∧
      last = names.foldl step route ∧ Opened tree (routes route names) tree' := by
  induction names generalizing route tree with
  | nil =>
    obtain ⟨rfl, rfl⟩ := Attempt.pure_eq_ok.mp h
    exact ⟨by simp, by simp [routes], rfl, .refl _⟩
  | cons name names ih =>
    rw [List.foldlM_cons] at h
    obtain ⟨next, middle, first, rest⟩ := Attempt.bind_eq_ok.mp h
    obtain ⟨short, passable, rfl, rfl⟩ := enter_eq_ok.mp first
    have opened := opened_withDirectory (step route name) tree
    obtain ⟨shorts, passables, rfl, opened'⟩ := ih rest
    have here : ∀ place ∈ [step route name], tree.Passable place := by simpa using passable
    refine ⟨List.forall_mem_cons.mpr ⟨short, shorts⟩, List.forall_mem_cons.mpr ⟨passable, ?_⟩, rfl,
      opened.trans opened'⟩
    -- What can be passed behind the first directory could be passed before it was made.
    intro place hplace
    exact (opened.passable_iff here).mp (passables place hplace)

theorem exists_walk (short : ∀ name ∈ names, name.utf8ByteSize ≤ maxNameBytes)
    (passable : ∀ place ∈ routes route names, tree.Passable place) :
    ∃ tree', names.foldlM (enter true) route tree = .ok (names.foldl step route) tree' := by
  induction names generalizing route tree with
  | nil => exact ⟨tree, rfl⟩
  | cons name names ih =>
    obtain ⟨short, shorts⟩ := List.forall_mem_cons.mp short
    obtain ⟨here, passable⟩ := List.forall_mem_cons.mp passable
    have first := enter_eq_ok.mpr ⟨short, here, rfl, rfl⟩
    have passables : ∀ place ∈ routes (step route name) names,
        (tree.withDirectory (step route name)).Passable place := by
      intro place hplace
      refine ((opened_withDirectory _ tree).passable_iff ?_).mpr (passable place hplace)
      simpa using here
    obtain ⟨tree', rest⟩ := ih shorts passables
    rw [List.foldlM_cons]
    exact ⟨tree', Attempt.bind_eq_ok.mpr ⟨_, _, first, rest⟩⟩

/-! ## Storing -/

/-- The directories on the way to the last name of a path. -/
def way (path : String) : List Route := routes (origin path) (parts path).dropLast

/-- Where the file of a path is. -/
def place (path : String) : Route :=
  step ((parts path).dropLast.foldl step (origin path)) ((parts path).getLastD "")

/-- **What a tree must be like for a file to be stored.**  Besides the limits on texts: a last name,
a way that can be walked, and no directory at its end. -/
@[mk_iff] structure Storable (tree : FileTree) (path : String) : Prop where
  text : path.toList.contains '\x00' = false
  size : path.utf8ByteSize ≤ maxPathBytes
  short : ∀ name ∈ (parts path).dropLast, name.utf8ByteSize ≤ maxNameBytes
  last : ((parts path).getLastD "").utf8ByteSize ≤ maxNameBytes
  named : endsAsDirectory path = false
  passable : ∀ route ∈ way path, tree.Passable route
  free : tree.isDirectory (place path) = false
  apart : place path ∉ way path

instance : Decidable (tree.Storable path) := decidable_of_iff' _ (storable_iff tree path)

/-- **What storing a file makes of a tree.** -/
structure Stored (tree : FileTree) (path : String) (bytes : Bytes) (tree' : FileTree) : Prop where
  files : ∀ route, tree'.bytesAt? route =
    if route = place path then some bytes else tree.bytesAt? route
  directories : ∀ route, tree'.isDirectory route = true ↔
    tree.isDirectory route = true ∨ route ∈ way path

/-- **A file is written if its name is not too long and no directory is there**, and then nothing
happens to other files and to directories. -/
theorem write_eq_ok {directory : Route} (h : write directory name bytes tree = .ok () tree') :
    name.utf8ByteSize ≤ maxNameBytes ∧ tree.isDirectory (step directory name) = false ∧
      tree'.directories = tree.directories ∧
      tree'.files = (step directory name, bytes) ::
        tree.files.filter fun file => file.1 != step directory name := by
  unfold write at h
  dsimp only at h
  by_cases long : maxNameBytes < name.utf8ByteSize
  · rw [if_pos long] at h
    cases h
  · rw [if_neg long] at h
    by_cases there : tree.isDirectory (step directory name) = true
    · rw [if_pos there] at h
      cases h
    · rw [if_neg there] at h
      obtain ⟨-, rfl⟩ := EStateM.Result.ok.inj h
      exact ⟨Nat.le_of_not_lt long, Bool.eq_false_iff.mpr there, rfl, rfl⟩

theorem exists_write {directory : Route} (bytes : Bytes) (short : name.utf8ByteSize ≤ maxNameBytes)
    (free : tree.isDirectory (step directory name) = false) :
    ∃ tree', write directory name bytes tree = .ok () tree' := by
  unfold write
  dsimp only
  rw [if_neg (Nat.not_lt.mpr short), free]
  exact ⟨_, rfl⟩

/-- Leaving out the files at one place does not matter elsewhere. -/
theorem lookup_filter {place : Route} (files : List (Route × Bytes)) (h : route ≠ place) :
    (files.filter fun file => file.1 != place).lookup route = files.lookup route := by
  induction files with
  | nil => rfl
  | cons file files ih =>
    by_cases there : file.1 = place
    · have other : (route == file.1) = false := beq_eq_false_iff_ne.mpr (there ▸ h)
      rw [List.filter_cons_of_neg (by simpa using there), ih, List.lookup_cons, other]
    · rw [List.filter_cons_of_pos (by simpa using there), List.lookup_cons, List.lookup_cons, ih]

theorem bytesAt?_of_write {directory : Route} (h : write directory name bytes tree = .ok () tree')
    (route : Route) :
    tree'.bytesAt? route =
      if route = step directory name then some bytes else tree.bytesAt? route := by
  obtain ⟨-, -, -, files⟩ := write_eq_ok h
  unfold bytesAt?
  rw [files, List.lookup_cons]
  by_cases here : route = step directory name
  · rw [if_pos here, here, beq_self_eq_true]
  · rw [if_neg here, beq_eq_false_iff_ne.mpr here]
    exact lookup_filter tree.files here

/-- A store that passes its checks walks and writes. -/
theorem store_eq (text : path.toList.contains '\x00' = false)
    (size : path.utf8ByteSize ≤ maxPathBytes)
    (named : endsAsDirectory path = false) :
    store path bytes true =
      (parts path).dropLast.foldlM (enter true) (origin path) >>= fun directory =>
      write directory ((parts path).getLastD "") bytes := by
  unfold store
  rw [text, if_neg Bool.false_ne_true, if_neg (Nat.not_lt.mpr size), named]
  rfl

theorem checked_of_store (h : store path bytes true tree = .ok () tree') :
    path.toList.contains '\x00' = false ∧ path.utf8ByteSize ≤ maxPathBytes ∧
      endsAsDirectory path = false := by
  unfold store at h
  by_cases nul : path.toList.contains '\x00' = true
  · rw [if_pos nul] at h
    cases h
  · rw [if_neg nul] at h
    by_cases long : maxPathBytes < path.utf8ByteSize
    · rw [if_pos long] at h
      cases h
    · rw [if_neg long] at h
      refine ⟨Bool.eq_false_iff.mpr nul, Nat.le_of_not_lt long, ?_⟩
      obtain ⟨directory, middle, -, last⟩ := Attempt.bind_eq_ok.mp h
      by_cases ends : endsAsDirectory path = true
      · rw [if_pos ends] at last
        cases last
      · exact Bool.eq_false_iff.mpr ends

/-- **Storing succeeds only on such trees, and does just this.** -/
theorem stored_of_store (h : store path bytes true tree = .ok () tree') :
    tree.Storable path ∧ tree.Stored path bytes tree' := by
  obtain ⟨text, size, named⟩ := checked_of_store h
  rw [store_eq text size named] at h
  obtain ⟨directory, middle, walk, last⟩ := Attempt.bind_eq_ok.mp h
  obtain ⟨short, passable, rfl, opened⟩ := walk_eq_ok walk
  obtain ⟨shortLast, free, directories, -⟩ := write_eq_ok last
  -- The file is written when the way is open already, so it is at none of the places on it.
  have nowhere : ¬ (tree.isDirectory (place path) = true ∨ place path ∈ way path) := by
    rw [way, ← opened.directories]
    exact Bool.eq_false_iff.mp free
  obtain ⟨free, apart⟩ := not_or.mp nowhere
  refine ⟨⟨text, size, short, shortLast, named, passable, Bool.eq_false_iff.mpr free, apart⟩,
    ?_, ?_⟩
  · intro route
    rw [bytesAt?_of_write last, opened.bytesAt?_eq]
    rfl
  · intro route
    rw [way, ← opened.directories, isDirectory, isDirectory, directories]

/-- **Storing succeeds on all of them.** -/
theorem exists_store (bytes : Bytes) (h : tree.Storable path) :
    ∃ tree', store path bytes true tree = .ok () tree' := by
  obtain ⟨middle, walk⟩ := exists_walk h.short h.passable
  have opened := (walk_eq_ok walk).2.2.2
  have free : middle.isDirectory (place path) = false := by
    rw [Bool.eq_false_iff, Ne, opened.directories]
    exact not_or.mpr ⟨Bool.eq_false_iff.mp h.free, h.apart⟩
  obtain ⟨tree', last⟩ := exists_write bytes h.last free
  rw [store_eq h.text h.size h.named]
  exact ⟨tree', Attempt.bind_eq_ok.mpr ⟨_, middle, walk, last⟩⟩

theorem exists_store_iff (bytes : Bytes) :
    (∃ tree', store path bytes true tree = .ok () tree') ↔ tree.Storable path :=
  ⟨fun ⟨_, h⟩ => (stored_of_store h).1, exists_store bytes⟩

namespace Stored

variable {other : String}

theorem passable_iff (stored : tree.Stored path bytes tree') (storable : tree.Storable path)
    (elsewhere : route ≠ place path) : tree'.Passable route ↔ tree.Passable route := by
  refine passable_iff_of_made (stored.directories route) ?_ storable.passable
  rw [isFile_eq, isFile_eq, stored.files, if_neg elsewhere]

/-- **Storing one file does not decide about another**, if neither is on the way to the other. -/
theorem storable_iff (stored : tree.Stored path bytes tree') (storable : tree.Storable path)
    (apart : place path ∉ way other) (apart' : place other ∉ way path) :
    tree'.Storable other ↔ tree.Storable other := by
  have passable : (∀ route ∈ way other, tree'.Passable route) ↔
      ∀ route ∈ way other, tree.Passable route := by
    refine forall₂_congr fun route hroute => stored.passable_iff storable ?_
    rintro rfl
    exact apart hroute
  have free : tree'.isDirectory (place other) = tree.isDirectory (place other) := by
    rw [Bool.eq_iff_iff, stored.directories, or_iff_left apart']
  constructor
  · intro h
    exact { h with passable := passable.mp h.passable, free := free ▸ h.free }
  · intro h
    exact { h with passable := passable.mpr h.passable, free := free ▸ h.free }

end Stored

end JvmAsm.FileTree
