import JvmAsm.Proofs.ClassLifecycle
import JvmAsm.Proofs.PoolDistinctness
import JvmAsm.Proofs.TextOrder
import JvmAsm.Proofs.WriteLog
import Mathlib.Data.String.Basic

/-! # A registry keeps what was added last

Classes are added to a registry one after the other, some of them under the same name,
and some cannot be written.  Compared with the log of those that could, a registry
answers for each name what was written last, and lists the names in order (`Mirrors`).
Both are kept by `put`, the first without any order among the classes, and they determine
the registry: since no two names in ascending order are the same, looking a name up and
finding it in the list are one (`Sorted.mem_iff`).

Names are compared by their characters, and listed in the order of their bytes
(`Text.utf8_lt_utf8`). -/

namespace JvmAsm

namespace Class

variable {α : Type} {cls final : Class} {bytes : Bytes}

/-! ## Writing keeps the name -/

/-- The class kept its name. -/
def SameName (cls cls' : Class) : Prop := cls'.name = cls.name

instance : IsPreorder Class SameName where
  refl _ := rfl
  trans _ _ _ h h' := h'.trans h

theorem sameName_onPool (action : Pool.Action α) : (onPool action).Keeps SameName := by
  refine Attempt.keeps_of ?_ ?_
  · intro cls answer cls' run
    obtain ⟨pool, -, rfl⟩ := onPool_eq_ok.mp run
    rfl
  · intro cls cause cls' run
    obtain ⟨pool, -, rfl⟩ := onPool_eq_error.mp run
    rfl

theorem sameName_onFields (action : MemberAction (Array Field) α) :
    (onFields action).Keeps SameName := by
  refine Attempt.keeps_of ?_ ?_
  · intro cls answer cls' run
    obtain ⟨fields, pool, -, rfl⟩ := onFields_eq_ok.mp run
    rfl
  · intro cls cause cls' run
    obtain ⟨fields, pool, -, rfl⟩ := onFields_eq_error.mp run
    rfl

theorem sameName_onMethods (action : MemberAction (Array Method) α) :
    (onMethods action).Keeps SameName := by
  refine Attempt.keeps_of ?_ ?_
  · intro cls answer cls' run
    obtain ⟨methods, pool, -, rfl⟩ := onMethods_eq_ok.mp run
    rfl
  · intro cls cause cls' run
    obtain ⟨methods, pool, -, rfl⟩ := onMethods_eq_error.mp run
    rfl

theorem sameName_recordSource : recordSource.Keeps SameName := by
  have put (name : String) (value : AttributeValue) : (addAttribute name value).Keeps SameName := by
    intro cls
    have kept := sameName_onPool (cls.attributes.add name value)
    unfold Attempt.after addAttribute
    dsimp only
    cases run : onPool (cls.attributes.add name value) cls with
    | ok attributes cls' =>
      have same : cls'.name = cls.name := kept.ok run
      exact same
    | error e cls' => exact kept.error run
  intro cls
  unfold Attempt.after recordSource
  cases cls.sourceFile with
  | none => exact refl_of SameName cls
  | some file =>
    dsimp only
    by_cases present : cls.attributes.contains sourceFileName = true
    · rw [if_pos present]
      exact refl_of SameName cls
    · rw [if_neg present]
      exact ((sameName_onPool _).bind fun entry => put _ _) cls

/-- No part of a preparation touches the name. -/
theorem sameName_prepare : prepare.Keeps SameName := by
  have names : internNames.Keeps SameName := fun cls => sameName_onPool _ cls
  exact names.bind fun _ => sameName_recordSource.bind fun _ => (sameName_onPool _).bind fun _ =>
    (sameName_onMethods _).bind fun _ => (sameName_onFields _).bind fun _ => sameName_onPool _

theorem name_of_toBytes (h : toBytes cls = .ok bytes final) : final.name = cls.name := by
  obtain ⟨run, -⟩ := toBytes_eq_ok h
  by_cases prepared : cls.prepared = true
  · cases (prepareOnce_of_prepared prepared).symm.trans run
    rfl
  · have starts : prepareOnce cls = prepare { cls with prepared := true } := if_neg prepared
    have kept : SameName { cls with prepared := true } final := sameName_prepare.ok (starts ▸ run)
    exact kept

/-- The name and the bytes of a class that can be written. -/
def written? (cls : Class) : Option (BinaryName × Bytes) :=
  match cls.toBytes with
  | .ok bytes _ => some (cls.name, bytes)
  | .error _ _ => none

end Class

namespace Registry

variable {classes : List (BinaryName × Bytes)} {name other : BinaryName} {bytes old : Bytes}

/-! ## Putting bytes under a name -/

theorem resolve_cons : resolve ⟨(other, old) :: classes⟩ name =
    if other = name then some old else resolve ⟨classes⟩ name := by
  unfold resolve
  by_cases same : other = name
  · rw [if_pos same, List.find?_cons_of_pos (by simpa using same)]
    rfl
  · rw [if_neg same, List.find?_cons_of_neg (by simpa using same)]

/-- **Where bytes go in a list that is not empty**: before its first name, in place of it, or
further on. -/
theorem put_cons (name first : BinaryName) (bytes old : Bytes) (rest : List (BinaryName × Bytes)) :
    name.text < first.text ∧
        put name bytes ((first, old) :: rest) = (name, bytes) :: (first, old) :: rest ∨
      name = first ∧ put name bytes ((first, old) :: rest) = (name, bytes) :: rest ∨
      first.text < name.text ∧
        put name bytes ((first, old) :: rest) = (first, old) :: put name bytes rest := by
  rw [put]
  cases order : compare name first with
  | lt =>
    have texts : compare name.text first.text = .lt := order
    exact .inl ⟨compare_lt_iff_lt.mp texts, rfl⟩
  | eq =>
    have texts : compare name.text first.text = .eq := order
    exact .inr (.inl ⟨BinaryName.text_injective (compare_eq_iff_eq.mp texts), rfl⟩)
  | gt =>
    have texts : compare name.text first.text = .gt := order
    exact .inr (.inr ⟨compare_gt_iff_gt.mp texts, rfl⟩)

/-- **One name changes its bytes**, whatever the order of the others. -/
theorem resolve_put (classes : List (BinaryName × Bytes)) (name other : BinaryName)
    (bytes : Bytes) :
    resolve ⟨put name bytes classes⟩ other =
      if name = other then some bytes else resolve ⟨classes⟩ other := by
  induction classes with
  | nil => rw [put, resolve_cons]
  | cons entry rest ih =>
    obtain ⟨first, old⟩ := entry
    rcases put_cons name first bytes old rest with ⟨-, at_front⟩ | ⟨rfl, in_place⟩ | ⟨lower, behind⟩
    · rw [at_front, resolve_cons]
    · rw [in_place, resolve_cons, resolve_cons]
      by_cases same : name = other
      · rw [if_pos same, if_pos same]
      · rw [if_neg same, if_neg same, if_neg same]
    · rw [behind, resolve_cons, resolve_cons, ih]
      by_cases here : first = other
      · have apart : name ≠ other := by
          rintro rfl
          exact lt_irrefl _ (here ▸ lower)
        rw [if_pos here, if_pos here, if_neg apart]
      · rw [if_neg here, if_neg here]

/-- Names in ascending order. -/
def Sorted (classes : List (BinaryName × Bytes)) : Prop :=
  (classes.map Prod.fst).Pairwise fun name other => name.text < other.text

theorem eq_or_mem_of_mem_put (h : other ∈ (put name bytes classes).map Prod.fst) :
    other = name ∨ other ∈ classes.map Prod.fst := by
  induction classes with
  | nil => exact .inl (List.mem_singleton.mp h)
  | cons entry rest ih =>
    obtain ⟨first, old⟩ := entry
    rcases put_cons name first bytes old rest with ⟨-, at_front⟩ | ⟨rfl, in_place⟩ | ⟨-, behind⟩
    · rw [at_front] at h
      exact List.mem_cons.mp h
    · rw [in_place] at h
      exact .inr h
    · rw [behind] at h
      rcases List.mem_cons.mp h with rfl | later
      · exact .inr List.mem_cons_self
      · exact (ih later).imp_right (List.mem_cons_of_mem _)

/-- **Names stay in order.** -/
theorem Sorted.put (h : Sorted classes) (name : BinaryName) (bytes : Bytes) :
    Sorted (put name bytes classes) := by
  induction classes with
  | nil => exact List.pairwise_singleton _ _
  | cons entry rest ih =>
    obtain ⟨first, old⟩ := entry
    obtain ⟨least, sorted⟩ := List.pairwise_cons.mp h
    rcases put_cons name first bytes old rest with
      ⟨lower, at_front⟩ | ⟨rfl, in_place⟩ | ⟨lower, behind⟩
    · rw [at_front]
      refine List.pairwise_cons.mpr ⟨fun other hother => ?_, h⟩
      rcases List.mem_cons.mp hother with rfl | later
      · exact lower
      · exact lt_trans lower (least other later)
    · rw [in_place]
      exact h
    · rw [behind]
      refine List.pairwise_cons.mpr ⟨fun other hother => ?_, ih sorted⟩
      rcases eq_or_mem_of_mem_put hother with rfl | later
      · exact lower
      · exact least other later

/-- In order, what is found under a name is all there is. -/
theorem Sorted.mem_iff (h : Sorted classes) :
    (name, bytes) ∈ classes ↔ resolve ⟨classes⟩ name = some bytes := by
  induction classes with
  | nil => simp [resolve]
  | cons entry rest ih =>
    obtain ⟨first, old⟩ := entry
    obtain ⟨least, sorted⟩ := List.pairwise_cons.mp h
    rw [List.mem_cons, resolve_cons, Prod.mk.injEq, ih sorted]
    by_cases here : first = name
    · have absent : resolve ⟨rest⟩ name ≠ some bytes := by
        intro found
        have later := List.mem_map_of_mem (f := Prod.fst) ((ih sorted).mpr found)
        exact lt_irrefl _ (here ▸ least name later)
      simp [here, absent, eq_comm]
    · simp [here, Ne.symm here]

/-! ## Histories -/

/-- The registry after classes were added one after the other, whatever failed on the way.  A class
that is added again comes as it is by then. -/
def after (registry : Registry) (history : List Class) : Registry :=
  history.foldl (fun registry cls => (add.after (registry, cls)).1) registry

/-- The additions that succeeded. -/
def accepted (history : List Class) : WriteLog BinaryName Bytes := history.filterMap Class.written?

/-- **What an addition does**: bytes are put under the name of the class, if there are any. -/
theorem add_cases (registry : Registry) (cls : Class) :
    (∃ bytes cls', cls.written? = some (cls.name, bytes) ∧
        add (registry, cls) = .ok () (⟨put cls.name bytes registry.classes⟩, cls')) ∨
      ∃ cause cls', cls.written? = none ∧ add (registry, cls) = .error cause (registry, cls') := by
  unfold Class.written? add
  dsimp only
  cases run : cls.toBytes with
  | ok bytes cls' =>
    refine .inl ⟨bytes, cls', rfl, ?_⟩
    rw [← Class.name_of_toBytes run]
  | error cause cls' => exact .inr ⟨cause, cls', rfl, rfl⟩

/-- **The registry answers what was written last**, with names in order. -/
structure Mirrors (log : WriteLog BinaryName Bytes) (registry : Registry) : Prop where
  sorted : Sorted registry.classes
  last : ∀ name, registry.resolve name = log.last? name

theorem mirrors_empty : Mirrors [] empty where
  sorted := .nil
  last _ := rfl

/-- A class that was written takes the place of its name; another leaves the registry as it is. -/
theorem Mirrors.add {log : WriteLog BinaryName Bytes} {registry : Registry}
    (h : Mirrors log registry)
    (cls : Class) : Mirrors (log ++ cls.written?.toList) (add.after (registry, cls)).1 := by
  rcases add_cases registry cls with ⟨bytes, cls', written, run⟩ | ⟨cause, cls', unwritten, run⟩
  · rw [Attempt.after_of_ok run, written, Option.toList_some]
    refine ⟨h.sorted.put cls.name bytes, fun name => ?_⟩
    rw [resolve_put, WriteLog.last?_concat, ← h.last]
    simp only [eq_comm]
  · rw [Attempt.after_of_error run, unwritten, Option.toList_none, List.append_nil]
    exact h

theorem mirrors_after (history : List Class) :
    Mirrors (accepted history) (empty.after history) := by
  induction history using List.reverseRec with
  | nil => exact mirrors_empty
  | append_singleton history cls ih =>
    have log : accepted (history ++ [cls]) = accepted history ++ cls.written?.toList := by
      unfold accepted
      rw [List.filterMap_append]
      cases written : cls.written? with
      | none => rw [List.filterMap_cons_none written]; rfl
      | some write => rw [List.filterMap_cons_some written]; rfl
    have folded : empty.after (history ++ [cls]) = (add.after (empty.after history, cls)).1 :=
      List.foldl_append
    rw [log, folded]
    exact ih.add cls

/-- **A registry is a map of what was written last**, listed in order. -/
structure LastWriterMap (log : WriteLog BinaryName Bytes) (registry : Registry) : Prop where
  resolve : ∀ name, registry.resolve name = log.last? name
  size : registry.size = log.keys.length
  /-- Each name that was written is listed once. -/
  names : registry.names.Perm log.keys
  ascending : registry.names.Pairwise fun name other => Text.utf8 name.text < Text.utf8 other.text
  classes : ∀ name bytes, (name, bytes) ∈ registry.classes ↔ registry.resolve name = some bytes

/-- Names are sorted, and each has the bytes that were accepted last. -/
theorem Mirrors.lastWriterMap {log : WriteLog BinaryName Bytes} {registry : Registry}
    (h : Mirrors log registry) : LastWriterMap log registry := by
  have distinct : registry.names.Nodup := by
    refine h.sorted.imp ?_
    rintro name other lower rfl
    exact lt_irrefl _ lower
  have listed (name : BinaryName) : name ∈ registry.names ↔ name ∈ log.keys := by
    rw [WriteLog.mem_keys_iff, ← h.last]
    simp only [names, List.mem_map, Prod.exists, exists_and_right, exists_eq_right,
      h.sorted.mem_iff]
  have perm : registry.names.Perm log.keys :=
    (List.perm_ext_iff_of_nodup distinct log.nodup_keys).mpr listed
  refine ⟨h.last, ?_, perm, h.sorted.imp Text.utf8_lt_utf8, fun name bytes => h.sorted.mem_iff⟩
  rw [← perm.length_eq, names, List.length_map]
  rfl

/-- **A registry keeps the last class under each name.**  Whatever classes were added, and whichever
of them could not be written:

* a name stands for the bytes of the last class under it that could be written, and names of no such
  class stand for nothing;
* there are as many classes as names that were written, and these are listed once each, in ascending
  order of their bytes and with what they stand for;
* a class that cannot be written leaves the registry as it is. -/
theorem registry_keeps_last_classes (history : List Class) :
    LastWriterMap (accepted history) (empty.after history) ∧
      ∀ cls cause state, add (empty.after history, cls) = .error cause state →
        state.1 = empty.after history := by
  refine ⟨(mirrors_after history).lastWriterMap, fun cls cause state failed => ?_⟩
  rcases add_cases (empty.after history) cls with ⟨bytes, cls', -, run⟩ | ⟨cause', cls', -, run⟩
  · cases run.symm.trans failed
  · cases run.symm.trans failed
    rfl

end Registry

namespace Sample

def accented : BinaryName := ⟨"é", by decide⟩

def capital : BinaryName := ⟨"Z", by decide⟩

/-- A class without members. -/
def bare (name : BinaryName) (version : Version) : Class := { start with name, version }

/-- One name twice, another one that comes before it, and a class that cannot be written. -/
def mixed : List Class :=
  [bare accented .java1_1, bare capital .java1_1, start.after unsupported, bare accented .java8]

theorem written?_bare {name : BinaryName} {version : Version}
    (h : (bare name version).written?.isSome = true) :
    ∃ bytes, (bare name version).written? = some (name, bytes) := by
  rcases Registry.add_cases .empty (bare name version) with ⟨bytes, -, written, -⟩ | ⟨-, -, none, -⟩
  · exact ⟨bytes, written⟩
  · rw [none] at h
    cases h

/-- The later class takes over, and behind the other one; the third leaves nothing, not even when it
is added again. -/
theorem later_class_takes_over :
    ∃ old other new, Registry.accepted mixed =
      [(accented, old), (capital, other), (accented, new)] ∧
      (Registry.empty.after mixed).resolve accented = some new ∧
      (Registry.empty.after mixed).size = 2 ∧
      (Registry.empty.after mixed).names = [capital, accented] ∧
      ∃ cause state, Registry.add (Registry.empty.after mixed, start.after unsupported) =
        .error cause state ∧ state.1 = Registry.empty.after mixed := by
  obtain ⟨old, first⟩ := written?_bare (by cbv : (bare accented .java1_1).written?.isSome = true)
  obtain ⟨other, second⟩ := written?_bare (by cbv : (bare capital .java1_1).written?.isSome = true)
  obtain ⟨new, fourth⟩ := written?_bare (by cbv : (bare accented .java8).written?.isSome = true)
  have refused :
      (start.after unsupported).toBytes = .error (.unsupportedOpcode 0 0xba) (broken true) := by
    exact Class.toBytes_of_refused prepareOnce_unsupported
  have third : (start.after unsupported).written? = none := by
    simp only [Class.written?, refused]
  have accepted :
      Registry.accepted mixed = [(accented, old), (capital, other), (accented, new)] := by
    simp only [Registry.accepted, mixed, List.filterMap_cons, List.filterMap_nil, first, second,
      third, fourth]
  have failed : Registry.add (Registry.empty.after mixed, start.after unsupported) =
      .error (.unsupportedOpcode 0 0xba) (Registry.empty.after mixed, broken true) := by
    simp only [Registry.add, refused]
  obtain ⟨map, unchanged⟩ := Registry.registry_keeps_last_classes mixed
  rw [accepted] at map
  have keys : WriteLog.keys [(accented, old), (capital, other), (accented, new)] =
      [accented, capital] := by
    show [accented, capital, accented].eraseDups = [accented, capital]
    decide
  refine ⟨old, other, new, accepted, map.resolve accented, ?_, ?_, _, _, failed,
    unchanged _ _ _ failed⟩
  · rw [map.size, keys]
    rfl
  · have perm : (Registry.empty.after mixed).names.Perm [capital, accented] :=
      (keys ▸ map.names).trans (.swap _ _ _)
    have ascending : [capital, accented].Pairwise fun name other =>
        Text.utf8 name.text < Text.utf8 other.text := by decide
    refine perm.eq_of_pairwise (fun name other _ _ lower higher => ?_) map.ascending ascending
    exact absurd higher (List.lt_asymm lower)

end Sample

end JvmAsm
