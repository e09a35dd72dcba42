import JvmAsm.Path
import JvmAsm.Proofs.Descriptors

/-! # Where class files go

The path of a class file comes out of operations that know nothing of class names:
joining names starts anew at a name with a slash in front, and setting an extension
takes away what stands behind the last dot.  What a valid name excludes is just enough
that none of this happens (`BinaryName.isPlain_of_mem`): its segments are not empty and hold
neither slash nor dot.  So the path spells the name (`filePath_eq`), its names are the
segments with the extension on the last one (`names_filePath`), and it stays below where
it starts.

Only the last name of such a path has a dot.  That keeps the file of one class from
being a directory on the way to another one. -/

namespace JvmAsm

/-! ## Cutting at slashes -/

namespace BinaryName

theorem segments_eq (chars : List Char) : segments chars = chars.splitOn '/' := by
  induction chars with
  | nil => rfl
  | cons c rest ih =>
    rw [List.splitOn_cons_eq_if_modifyHead]
    by_cases slash : c = '/'
    · subst slash
      rw [segments_slash, ih, if_pos (beq_self_eq_true '/')]
    · obtain ⟨part, parts, hrest, hsegments⟩ := segments_cons slash rest
      rw [hsegments, ← ih, hrest, if_neg (by simpa using slash)]
      rfl

theorem segments_append (chars rest : List Char) :
    segments (chars ++ '/' :: rest) = segments chars ++ segments rest := by
  rw [segments_eq, segments_eq, segments_eq, List.splitOn_append_cons_self]

theorem slash_notMem_segment {chars segment : List Char} (h : segment ∈ segments chars) :
    '/' ∉ segment := by
  induction chars generalizing segment with
  | nil =>
    obtain rfl := List.mem_singleton.mp h
    exact List.not_mem_nil
  | cons c rest ih =>
    by_cases slash : c = '/'
    · subst slash
      rw [segments_slash] at h
      rcases List.mem_cons.mp h with rfl | later
      · exact List.not_mem_nil
      · exact ih later
    · obtain ⟨part, parts, hrest, hsegments⟩ := segments_cons slash rest
      rw [hsegments] at h
      rw [hrest] at ih
      rcases List.mem_cons.mp h with rfl | later
      · rw [List.mem_cons, not_or]
        exact ⟨Ne.symm slash, ih List.mem_cons_self⟩
      · exact ih (List.mem_cons_of_mem part later)

end BinaryName

namespace Path

/-- A text that can stand between two slashes of a path and name something there. -/
def IsName (text : String) : Prop := text ≠ "" ∧ '/' ∉ text.toList

theorem intercalate_names (path : String) : "/".intercalate (names path) = path := by
  rw [← String.toList_inj, String.toList_intercalate, names, List.map_map]
  have same : String.toList ∘ String.ofList = id := funext fun chars => String.toList_ofList
  rw [same, List.map_id, BinaryName.segments_eq]
  exact List.intercalate_splitOn '/'

theorem names_injective : Function.Injective names :=
  Function.LeftInverse.injective intercalate_names

/-- Names are found again between the slashes. -/
theorem names_intercalate {texts : List String} (filled : texts ≠ [])
    (slashless : ∀ text ∈ texts, '/' ∉ text.toList) : names ("/".intercalate texts) = texts := by
  unfold names
  rw [String.toList_intercalate, BinaryName.segments_eq]
  have cut :
      (['/'].intercalate (texts.map String.toList)).splitOn '/' = texts.map String.toList := by
    refine List.splitOn_intercalate '/' ?_ (by simpa using filled)
    intro chars hchars
    obtain ⟨text, htext, rfl⟩ := List.mem_map.mp hchars
    exact slashless text htext
  have same : String.ofList ∘ String.toList = id := funext fun text => String.ofList_toList
  exact (congrArg (List.map String.ofList) cut).trans (by rw [List.map_map, same, List.map_id])

theorem names_append (path rest : String) :
    names (path ++ "/" ++ rest) = names path ++ names rest := by
  unfold names
  rw [String.toList_append, String.toList_append, List.append_assoc]
  exact (congrArg (List.map String.ofList) (BinaryName.segments_append _ _)).trans List.map_append

/-- A path with no empty names does not start at the root. -/
theorem isAbsolute_of_names {path : String} (filled : ∀ name ∈ names path, name ≠ "") :
    isAbsolute path = false := by
  refine beq_eq_false_iff_ne.mpr fun first => ?_
  rw [String.front?_eq] at first
  obtain ⟨rest, hpath⟩ := List.head?_eq_some_iff.mp first
  refine filled "" ?_ rfl
  unfold names
  rw [hpath, BinaryName.segments_slash]
  exact List.mem_cons_self

/-! ## Joining names -/

theorem isAbsolute_eq_false {text : String} (h : '/' ∉ text.toList) : isAbsolute text = false := by
  unfold isAbsolute
  rw [String.front?_eq]
  exact beq_eq_false_iff_ne.mpr fun first => h (List.mem_of_head? first)

theorem back?_ne {text : String} (h : '/' ∉ text.toList) : text.back? ≠ some '/' := by
  rw [String.back?_eq]
  exact fun last => h (List.mem_of_getLast? last)

/-- Below a path that does not end in a slash, one is put in between. -/
theorem join_of_isName {path name : String} (filled : path ≠ "") (unclosed : path.back? ≠ some '/')
    (h : IsName name) : join path name = path ++ "/" ++ name := by
  unfold join
  rw [isAbsolute_eq_false h.2, Bool.false_or, if_neg (by simpa using filled),
    if_neg (by simpa using unclosed)]

/-- What is joined ends like its last name. -/
theorem back?_append {path name : String} (h : IsName name) :
    (path ++ name).back? = name.back? := by
  have filled : name.toList ≠ [] := fun empty => h.1 (String.toList_eq_nil_iff.mp empty)
  rw [String.back?_eq, String.back?_eq, String.toList_append, List.getLast?_append,
    List.getLast?_eq_some_getLast filled, Option.some_or]

theorem foldl_join {path : String} {names : List String} (filled : path ≠ "")
    (unclosed : path.back? ≠ some '/') (h : ∀ name ∈ names, IsName name) :
    names.foldl join path = "/".intercalate (path :: names) := by
  induction names generalizing path with
  | nil => exact String.intercalate_singleton.symm
  | cons name names ih =>
    obtain ⟨hname, hnames⟩ := List.forall_mem_cons.mp h
    have longer : path ++ "/" ++ name ≠ "" := by
      intro empty
      exact hname.1 (String.append_eq_empty_iff.mp empty).2
    have ending : (path ++ "/" ++ name).back? ≠ some '/' := by
      rw [back?_append hname]
      exact back?_ne hname.2
    rw [List.foldl_cons, join_of_isName filled unclosed hname, ih longer ending hnames,
      String.intercalate_cons_append, String.intercalate_cons_cons]

/-- **Joined names stand in a row.** -/
theorem ofNames_eq {names : List String} (h : ∀ name ∈ names, IsName name) :
    ofNames names = "/".intercalate names := by
  cases names with
  | nil => rfl
  | cons name names =>
    obtain ⟨hname, hnames⟩ := List.forall_mem_cons.mp h
    have first : join "" name = name := by simp [join]
    unfold ofNames
    rw [List.foldl_cons, first, foldl_join hname.1 (back?_ne hname.2) hnames]

/-! ## Setting the extension -/

/-- A name with no dot in it. -/
def IsPlain (text : String) : Prop := IsName text ∧ '.' ∉ text.toList

theorem stem_of_isPlain {text : String} (h : IsPlain text) : stem text = text := by
  have none : text.toList.reverse.dropWhile (· != '.') = [] := by
    refine List.dropWhile_eq_nil_iff.mpr fun c hc => bne_iff_ne.mpr ?_
    rintro rfl
    exact h.2 (List.mem_reverse.mp hc)
  unfold stem
  rw [none]

/-- **The extension goes behind the last name**, if there is no dot in it. -/
theorem withExtension_of_isPlain {before : List String} {last : String} (extension : String)
    (slashless : ∀ name ∈ before, '/' ∉ name.toList) (h : IsPlain last) :
    withExtension extension ("/".intercalate (before ++ [last])) =
      "/".intercalate (before ++ [last ++ "." ++ extension]) := by
  have cut : names ("/".intercalate (before ++ [last])) = before ++ [last] := by
    refine names_intercalate (by simp) fun name hname => ?_
    rcases List.mem_append.mp hname with earlier | here
    · exact slashless name earlier
    · exact List.mem_singleton.mp here ▸ h.1.2
  have other (text : String) (dotted : '.' ∈ text.toList) : last ≠ text := by
    rintro rfl
    exact h.2 dotted
  have kept : ((names ("/".intercalate (before ++ [last]))).reverse.dropWhile fun name =>
      name == "" || name == ".") = last :: before.reverse := by
    rw [cut, List.reverse_append, List.reverse_singleton, List.singleton_append]
    refine List.dropWhile_cons_of_neg ?_
    simp [h.1.1, other "." (by decide)]
  unfold withExtension
  rw [kept]
  dsimp only
  rw [if_neg (other ".." (by decide)), List.reverse_reverse, stem_of_isPlain h]

end Path

/-! ## Class files -/

namespace BinaryName

open JvmAsm.Path

/-- **Segments are names without dots.** -/
theorem isPlain_of_mem {name : BinaryName} {part : String} (h : part ∈ name.components) :
    IsPlain part := by
  obtain ⟨segment, hsegment, rfl⟩ := List.mem_map.mp h
  have valid := List.all_eq_true.mp name.valid segment hsegment
  obtain ⟨filled, allowed⟩ := Bool.and_eq_true_iff.mp valid
  refine ⟨⟨?_, ?_⟩, ?_⟩
  · intro empty
    obtain rfl : segment = [] := by simpa using empty
    cases filled
  · rw [String.toList_ofList]
    exact slash_notMem_segment hsegment
  · rw [String.toList_ofList]
    intro dot
    have plain := List.all_eq_true.mp allowed '.' dot
    exact absurd plain (by decide)

/-- The package segments and the simple name make up the name. -/
theorem components_eq (name : BinaryName) :
    name.components = name.components.dropLast ++ [name.simpleName] := by
  have filled : name.components ≠ [] := by
    simpa [components] using segments_ne_nil name.text.toList
  have last : name.simpleName = name.components.getLast filled := by
    unfold simpleName
    rw [List.getLastD_eq_getLast?, List.getLast?_eq_some_getLast filled, Option.getD_some]
  rw [last, List.dropLast_concat_getLast]

theorem isPlain_of_mem_package {name : BinaryName} {part : String}
    (h : part ∈ name.components.dropLast) : IsPlain part :=
  isPlain_of_mem ((List.dropLast_sublist _).subset h)

theorem isPlain_simpleName (name : BinaryName) : IsPlain name.simpleName := by
  have last : name.simpleName ∈ name.components := by
    rw [components_eq]
    exact List.mem_append_right _ (List.mem_singleton.mpr rfl)
  exact isPlain_of_mem last

/-- The name of the class file. -/
def fileName (name : BinaryName) : String := name.simpleName ++ ".class"

theorem filePath_eq_intercalate (name : BinaryName) :
    name.filePath = "/".intercalate (name.components.dropLast ++ [name.fileName]) := by
  have joined : ofNames name.components =
      "/".intercalate (name.components.dropLast ++ [name.simpleName]) := by
    rw [← components_eq]
    exact ofNames_eq fun part hpart => (isPlain_of_mem hpart).1
  unfold filePath
  rw [joined, withExtension_of_isPlain _ (fun part hpart => (isPlain_of_mem_package hpart).1.2)
    name.isPlain_simpleName, String.append_assoc]
  rfl

/-- **The path of a class file spells its name.** -/
theorem filePath_eq (name : BinaryName) : name.filePath = name.text ++ ".class" := by
  have text : name.text = "/".intercalate (name.components.dropLast ++ [name.simpleName]) := by
    rw [← components_eq]
    exact (intercalate_names name.text).symm
  rw [filePath_eq_intercalate, text, fileName]
  cases package : name.components.dropLast with
  | nil =>
    rw [List.nil_append, List.nil_append, String.intercalate_singleton,
      String.intercalate_singleton]
  | cons first rest =>
    rw [String.intercalate_append_of_ne_nil (List.cons_ne_nil _ _) (List.cons_ne_nil _ _),
      String.intercalate_append_of_ne_nil (List.cons_ne_nil _ _) (List.cons_ne_nil _ _),
      String.intercalate_singleton, String.intercalate_singleton, ← String.append_assoc]

/-- The name of a file is a name, and the dot tells it from all packages. -/
theorem isName_fileName (name : BinaryName) :
    IsName name.fileName ∧ '.' ∈ name.fileName.toList := by
  have plain := name.isPlain_simpleName.1
  unfold fileName IsName
  rw [String.toList_append, List.mem_append, List.mem_append]
  refine ⟨⟨fun empty => plain.1 (String.append_eq_empty_iff.mp empty).1, ?_⟩, .inr (by decide)⟩
  rintro (inside | extension)
  · exact plain.2 inside
  · exact absurd extension (by decide)

theorem names_filePath (name : BinaryName) :
    names name.filePath = name.components.dropLast ++ [name.fileName] := by
  rw [filePath_eq_intercalate]
  refine names_intercalate (by simp) fun part hpart => ?_
  rcases List.mem_append.mp hpart with package | file
  · exact (isPlain_of_mem_package package).1.2
  · exact List.mem_singleton.mp file ▸ name.isName_fileName.1.2

/-- No name on the path of a class file stays where it is or goes up. -/
theorem proper_of_mem {name : BinaryName} {part : String} (h : part ∈ names name.filePath) :
    part ≠ "" ∧ part ≠ "." ∧ part ≠ ".." := by
  rw [names_filePath] at h
  rcases List.mem_append.mp h with package | file
  · have plain := isPlain_of_mem_package package
    refine ⟨plain.1.1, ?_, ?_⟩ <;> rintro rfl <;> exact plain.2 (by decide)
  · obtain rfl := List.mem_singleton.mp file
    have long : 6 ≤ name.fileName.toList.length := by
      rw [fileName, String.toList_append, List.length_append]
      exact Nat.le_add_left _ _
    refine ⟨?_, ?_, ?_⟩ <;> intro short <;> rw [short] at long <;> exact absurd long (by decide)

/-- **The path of a class file**: the text of the name with the extension behind it, seen from where
one is, through the packages and nowhere else to the file. -/
structure Spelled (name : BinaryName) (path : String) : Prop where
  text : path = name.text ++ ".class"
  relative : isAbsolute path = false
  names : names path = name.components.dropLast ++ [name.simpleName ++ ".class"]
  proper : ∀ part ∈ Path.names path, part ≠ "" ∧ part ≠ "." ∧ part ≠ ".."

theorem spelled_filePath (name : BinaryName) : name.Spelled name.filePath where
  text := name.filePath_eq
  relative := isAbsolute_of_names fun _ hpart => (proper_of_mem hpart).1
  names := name.names_filePath
  proper _ hpart := proper_of_mem hpart

theorem filePath_injective : Function.Injective filePath := by
  intro name other same
  rw [filePath_eq, filePath_eq] at same
  exact text_injective ((String.append_left_inj _).mp same)

/-- **No class file is on the way to another one.**  Its own name has a dot, and those of packages
have none. -/
theorem not_prefix_of_ne {name other : BinaryName} (h : name ≠ other) :
    ¬ names name.filePath <+: names other.filePath := by
  rintro ⟨rest, same⟩
  rcases List.eq_nil_or_concat rest with rfl | ⟨front, last, rfl⟩
  · rw [List.append_nil] at same
    exact h (filePath_injective (names_injective same))
  · rw [names_filePath other, List.concat_eq_append, ← List.append_assoc] at same
    have package : name.fileName ∈ other.components.dropLast := by
      rw [← (List.append_singleton_inj.mp same).1, names_filePath]
      simp
    exact (isPlain_of_mem_package package).2 name.isName_fileName.2

theorem ofDotted_eq_ok {text : String} {name : BinaryName} : ofDotted text = .ok name ↔
    name.text = String.ofList (text.toList.map fun c => if c = '.' then '/' else c) :=
  ofString_eq_ok

end BinaryName

end JvmAsm
