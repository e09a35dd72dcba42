import JvmAsm.Proofs.Preparation

/-! # Pools in lockstep

Which constants a pool gets, and under which entries, does not depend on when or how its
indices are fixed.  Two pools that hold the same constants in the same order
(`Pool.Alike`) may differ in their state and in every index; but if both take the same
constants, they answer the same entries and are alike again.

Preparing a class asks the pool for constants that can be named before it starts, since they
are determined by the class and not by the pool: `Class.namesAsked` before indices are
fixed, and `Class.titlesAsked` after.  So the preparations of a class with one pool and with
another that is alike stay in lockstep to the end, although the code that is assembled on
the way has other bytes (`Class.alike_of_prepareOnce`). -/

namespace JvmAsm

namespace Pool

/-! ## Additions -/

theorem Alike.symm {pool pool' : Pool} (h : Alike pool pool') : Alike pool' pool :=
  ⟨h.bodies.symm, h.lookup.symm, h.nextSlot.symm⟩

/-- **Both runs of the action, if both succeed, answer the same and leave pools alike.** -/
def Lockstep {α : Type} (action : Action α) : Prop :=
  ∀ ⦃pool pool' next next' : Pool⦄ ⦃a a' : α⦄, Alike pool pool' → action pool = .ok a next →
    action pool' = .ok a' next' → a' = a ∧ Alike next next'

section

variable {α β : Type}

theorem lockstep_pure (a : α) : Lockstep (pure a) := by
  intro pool pool' next next' b b' alike run run'
  obtain ⟨rfl, rfl⟩ := Attempt.pure_eq_ok.mp run
  obtain ⟨rfl, rfl⟩ := Attempt.pure_eq_ok.mp run'
  exact ⟨rfl, alike⟩

/-- The second action starts from pools alike, and with the same answer in both runs. -/
theorem Lockstep.bind {first : Action α} {following : α → Action β} (h : Lockstep first)
    (hnext : ∀ a, Lockstep (following a)) : Lockstep (first >>= following) := by
  intro pool pool' next next' b b' alike run run'
  obtain ⟨a, middle, hfirst, rest⟩ := Attempt.bind_eq_ok.mp run
  obtain ⟨a', middle', hfirst', rest'⟩ := Attempt.bind_eq_ok.mp run'
  obtain ⟨rfl, alike⟩ := h alike hfirst hfirst'
  exact hnext a' alike rest rest'

/-- So lists of actions are in lockstep too. -/
theorem lockstep_mapM {action : α → Action β} (h : ∀ item, Lockstep (action item))
    (items : List α) :
    Lockstep (items.mapM action) := by
  induction items with
  | nil => exact lockstep_pure []
  | cons item items ih =>
    rw [List.mapM_cons]
    exact (h item).bind fun b => ih.bind fun bs => lockstep_pure (b :: bs)

end

/-- Whether a constant goes in, and as which entry, depends on slots and not on indices. -/
theorem lockstep_push (constant : Constant) (children : List Entry) :
    Lockstep (push constant children) := by
  intro pool pool' next next' entry entry' alike run run'
  rw [push_eq] at run run'
  split at run
  · cases run
  split at run'
  · cases run'
  cases run
  cases run'
  refine ⟨by rw [alike.size], ?_, ?_, ?_⟩
  · have bodies := alike.bodies
    unfold Pool.bodies at bodies
    simp only [Pool.bodies, pushed, Array.toList_push, List.map_append, bodies, List.map_cons,
      List.map_nil]
  · simp only [pushed, alike.lookup, alike.size]
  · simp only [pushed, alike.nextSlot]

/-- A constant is found in both pools or in none, since their tables are the same. -/
theorem lockstep_intern {parts : List Constant → Action (List Entry)}
    (h : ∀ constants, Lockstep (parts constants)) (constant : Constant) :
    Lockstep (intern parts constant) := by
  intro pool pool' next next' entry entry' alike run run'
  have found : pool'.get? constant = pool.get? constant := by rw [get?, get?, alike.lookup]
  rcases intern_cases parts constant pool with ⟨-, done⟩ | ⟨-, ⟨known, hknown, done⟩ |
    ⟨fresh, ⟨_, -, done⟩ | ⟨short, done⟩⟩⟩ <;> rw [done] at run
  · cases run
  · -- The constant is in both pools, and both count one more use of it.
    rcases intern_cases parts constant pool' with ⟨-, done'⟩ | ⟨-, ⟨known', hknown', done'⟩ |
      ⟨fresh', -⟩⟩
    · cases run'.symm.trans done'
    · rw [done'] at run'
      cases run
      cases run'
      obtain rfl := Option.some.inj (hknown'.symm.trans (found.trans hknown))
      exact ⟨rfl, ((alike_bump pool _).symm.trans alike).trans (alike_bump pool' _)⟩
    · cases (fresh'.symm.trans found).trans hknown
  · cases run
  · rcases intern_cases parts constant pool' with ⟨-, done'⟩ | ⟨-, ⟨known', hknown', -⟩ |
      ⟨-, ⟨_, -, done'⟩ | ⟨-, done'⟩⟩⟩
    · cases run'.symm.trans done'
    · cases (hknown'.symm.trans found).trans fresh
    · cases run'.symm.trans done'
    · rw [done'] at run'
      exact (h _).bind (lockstep_push constant) alike run run'

/-- By induction on the height: the constituents of a constant are added first. -/
theorem lockstep_addWithin (depth : Nat) (constant : Constant) :
    Lockstep (addWithin depth constant) := by
  induction depth generalizing constant with
  | zero => exact lockstep_intern (fun _ => lockstep_pure []) constant
  | succ depth ih => exact lockstep_intern (fun parts => lockstep_mapM ih parts) constant

/-- **Pools that are alike give a constant the same entry, and stay alike.** -/
theorem lockstep_add (constant : Constant) : Lockstep (add constant) :=
  lockstep_addWithin constant.height constant

/-! ## Lists of constants -/

/-- The pool took these constants, one after the other. -/
inductive Took : List Constant → Pool → Pool → Prop
  | nil (pool : Pool) : Took [] pool pool
  | cons {constant : Constant} {constants : List Constant} {entry : Entry}
    {pool middle pool' : Pool}
    (head : add constant pool = .ok entry middle) (tail : Took constants middle pool') :
    Took (constant :: constants) pool pool'

namespace Took

variable {pool middle pool' next next' : Pool} {constants constants' : List Constant}

theorem single {constant : Constant} {entry : Entry} (h : add constant pool = .ok entry pool') :
    Took [constant] pool pool' :=
  .cons h (.nil pool')

/-- One list of constants after another. -/
theorem append (h : Took constants pool middle) (h' : Took constants' middle pool') :
    Took (constants ++ constants') pool pool' := by
  induction h with
  | nil => exact h'
  | cons head _ ih => exact .cons head (ih h')

/-- Pools that take the same constants stay alike. -/
theorem alike (h : Took constants pool next) (h' : Took constants pool' next')
    (start : Alike pool pool') : Alike next next' := by
  induction h generalizing pool' with
  | nil =>
    cases h'
    exact start
  | cons head _ ih =>
    cases h' with
    | cons head' tail' => exact ih tail' (lockstep_add _ start head head').2

end Took

/-- Fixing indices does not touch what a pool holds… -/
theorem alike_stabilize (pool : Pool) : Alike pool pool.stabilize := by
  unfold stabilize
  split
  · exact alike_layOut pool _
  · exact .refl pool

/-- …and neither does sealing it. -/
theorem alike_close {pool pool' : Pool} (run : close pool = .ok () pool') : Alike pool pool' := by
  unfold close at run
  split at run
  · cases run
  · cases run
  · cases run
    exact ⟨rfl, rfl, rfl⟩

end Pool

open Pool (Took)

/-! ## What preparing a class asks for -/

/-- The pool takes the name of a new attribute; its contents are there already. -/
theorem Attributes.took_of_add {attributes result : Attributes} {name : String}
    {value : AttributeValue} {pool pool' : Pool}
    (run : attributes.add name value pool = .ok result pool') :
    Took [.utf8 name] pool pool' := by
  obtain ⟨entry, middle, hadd, rest⟩ := Attempt.bind_eq_ok.mp run
  split at rest
  · obtain ⟨-, rfl⟩ := Attempt.pure_eq_ok.mp rest
    exact .single hadd
  · split at rest
    · cases rest
    · obtain ⟨-, rfl⟩ := Attempt.pure_eq_ok.mp rest
      exact .single hadd

/-- The names of the attributes that finalizing the field generates. -/
def Field.titlesAsked (field : Field) : List Constant :=
  if field.finalized then [] else
    (field.constantValue.map fun _ => Constant.utf8 constantValueName).toList

theorem Field.took_of_finalize {field field' : Field} {pool pool' : Pool}
    (run : finalize (field, pool) = .ok () (field', pool')) :
    Took field.titlesAsked pool pool' := by
  unfold finalize at run
  unfold titlesAsked
  dsimp only at run
  split at run
  · rename_i finalized
    cases run
    rw [if_pos finalized]
    exact .nil pool
  · rename_i unfinished
    rw [if_neg unfinished]
    cases hvalue : field.constantValue with
    | none =>
      simp only [hvalue] at run
      cases run
      exact .nil pool
    | some entry =>
      simp only [hvalue, putAttribute] at run
      split at run
      · rename_i attributes pool₁ hadd
        cases run
        exact Attributes.took_of_add hadd
      · cases run

namespace Method

variable {method method' : Method} {pool pool' : Pool}

/-- The names of the attributes that finalizing the method generates. -/
def titlesAsked (method : Method) : List Constant :=
  if method.finalized then [] else
    (method.code.map fun _ => Constant.utf8 codeName).toList ++
      if method.throws.isEmpty then [] else [.utf8 exceptionsName]

theorem took_of_putAttribute {name : String} {value : AttributeValue}
    (run : putAttribute name value (method, pool) = .ok () (method', pool')) :
    Took [.utf8 name] pool pool' ∧ method'.throws = method.throws := by
  unfold putAttribute at run
  dsimp only at run
  split at run
  · rename_i attributes pool₁ hadd
    cases run
    exact ⟨Attributes.took_of_add hadd, rfl⟩
  · cases run

theorem took_of_assembleCode (run : assembleCode (method, pool) = .ok () (method', pool')) :
    Took (method.code.map fun _ => Constant.utf8 codeName).toList pool pool' ∧
      method'.throws = method.throws := by
  unfold assembleCode at run
  cases hcode : method.code with
  | none =>
    simp only [hcode] at run
    cases run
    exact ⟨.nil pool, rfl⟩
  | some code =>
    simp only [hcode] at run
    split at run
    · cases run
    · exact took_of_putAttribute run

theorem took_of_declareThrows (run : declareThrows (method, pool) = .ok () (method', pool')) :
    Took (if method.throws.isEmpty then [] else [.utf8 exceptionsName]) pool pool' := by
  unfold declareThrows at run
  dsimp only at run
  split at run
  · rename_i none_declared
    cases run
    rw [if_pos none_declared]
    exact .nil pool
  · rename_i some_declared
    rw [if_neg some_declared]
    split at run
    · cases run
    · exact (took_of_putAttribute run).1

/-- Finalizing a method asks for the names of the attributes it generates. -/
theorem took_of_finalize (run : finalize (method, pool) = .ok () (method', pool')) :
    Took method.titlesAsked pool pool' := by
  unfold finalize at run
  unfold titlesAsked
  dsimp only at run
  split at run
  · rename_i finalized
    cases run
    rw [if_pos finalized]
    exact .nil pool
  · rename_i unfinished
    rw [if_neg unfinished]
    obtain ⟨_, ⟨middle, pool₁⟩, first, second⟩ := Attempt.bind_eq_ok.mp run
    obtain ⟨took, same⟩ := took_of_assembleCode first
    have took' := took_of_declareThrows second
    rw [same] at took'
    exact took.append took'

end Method

/-- Members are finalized one after the other, so the pool takes what each of them asks for, in the
order of the members. -/
theorem MemberAction.took_of_finalizeFrom {μ : Type} {finalize : MemberAction μ Unit}
    {titles : μ → List Constant}
    (step : ∀ {member member' : μ} {pool pool' : Pool},
      finalize (member, pool) = .ok () (member', pool') → Took (titles member) pool pool')
    {members : List μ} {done members' : Array μ} {pool pool' : Pool}
    (run : finalizeFrom finalize done members pool = .ok () (members', pool')) :
    Took (members.flatMap titles) pool pool' := by
  induction members generalizing done pool with
  | nil =>
    cases run
    exact .nil _
  | cons member members ih =>
    unfold finalizeFrom at run
    split at run
    · rename_i member' pool₁ hfinalize
      rw [List.flatMap_cons]
      exact (step hfinalize).append (ih run)
    · cases run

namespace Class

variable {cls cls' : Class}

/-- The constants of the attribute of the source file, if one is generated. -/
def sourceAsked (cls : Class) : List Constant :=
  match cls.sourceFile with
  | none => []
  | some file =>
    if cls.attributes.contains sourceFileName then [] else [.utf8 file, .utf8 sourceFileName]

/-- The constants that preparing the class asks for while indices are not fixed. -/
def namesAsked (cls : Class) : List Constant :=
  (cls.name :: cls.superName :: cls.interfaces).map Constant.classNamed ++ cls.sourceAsked

/-- The constants that preparing the class asks for once indices are fixed. -/
def titlesAsked (cls : Class) : List Constant :=
  cls.methods.toList.flatMap Method.titlesAsked ++ cls.fields.toList.flatMap Field.titlesAsked

theorem took_names {pool pool' : Pool} {names : List BinaryName}
    (run : (names.forM fun name => do let _ ← Pool.addClass name) pool = .ok () pool') :
    Took (names.map Constant.classNamed) pool pool' := by
  induction names generalizing pool with
  | nil =>
    cases run
    exact .nil _
  | cons name names ih =>
    obtain ⟨_, middle, first, rest⟩ := Attempt.bind_eq_ok.mp run
    obtain ⟨entry, middle', hadd, done⟩ := Attempt.bind_eq_ok.mp first
    obtain ⟨-, rfl⟩ := Attempt.pure_eq_ok.mp done
    exact .cons hadd (ih rest)

/-- First come the class itself, its superclass and its interfaces. -/
theorem took_of_internNames (run : internNames cls = .ok () cls') :
    ∃ pool, cls' = { cls with pool } ∧
      Took ((cls.name :: cls.superName :: cls.interfaces).map Constant.classNamed)
        cls.pool pool := by
  obtain ⟨pool, hintern, rfl⟩ := onPool_eq_ok.mp run
  exact ⟨pool, rfl, took_names hintern⟩

theorem took_of_addAttribute {name : String} {value : AttributeValue}
    (run : addAttribute name value cls = .ok () cls') :
    ∃ pool attributes, cls' = { cls with pool, attributes } ∧ Took [.utf8 name] cls.pool pool := by
  unfold addAttribute at run
  dsimp only at run
  split at run
  · rename_i attributes cls₁ hadd
    cases run
    obtain ⟨pool, hpool, rfl⟩ := onPool_eq_ok.mp hadd
    exact ⟨pool, attributes, rfl, Attributes.took_of_add hpool⟩
  · cases run

/-- A source file is recorded unless there is an attribute of that name. -/
theorem took_of_recordSource (run : recordSource cls = .ok () cls') :
    ∃ pool attributes, cls' = { cls with pool, attributes } ∧
      Took cls.sourceAsked cls.pool pool := by
  unfold recordSource at run
  split at run
  · rename_i unnamed
    cases run
    have asked : cls.sourceAsked = [] := by simp only [sourceAsked, unnamed]
    rw [asked]
    exact ⟨cls.pool, cls.attributes, rfl, .nil _⟩
  · rename_i file named
    split at run
    · rename_i present
      cases run
      have asked : cls.sourceAsked = [] := by simp only [sourceAsked, named, present, if_true]
      rw [asked]
      exact ⟨cls.pool, cls.attributes, rfl, .nil _⟩
    · rename_i absent
      have asked : cls.sourceAsked = [.utf8 file, .utf8 sourceFileName] := by
        simp only [sourceAsked, named, if_neg absent]
      obtain ⟨entry, cls₁, hfile, hadd⟩ := Attempt.bind_eq_ok.mp run
      obtain ⟨pool₁, hpool, rfl⟩ := onPool_eq_ok.mp hfile
      obtain ⟨pool, attributes, rfl, took⟩ := took_of_addAttribute hadd
      rw [asked]
      exact ⟨pool, attributes, rfl, .cons hpool took⟩

/-- **What preparing a class does to its pool**, as far as constants are concerned. -/
theorem took_of_prepareOnce (unprepared : cls.prepared = false)
    (run : prepareOnce cls = .ok () cls') :
    ∃ named titled, Took cls.namesAsked cls.pool named ∧
      Took cls.titlesAsked named.stabilize titled ∧ titled.Alike cls'.pool := by
  unfold prepareOnce at run
  rw [unprepared] at run
  simp only [Bool.false_eq_true, if_false] at run
  obtain ⟨_, cls₁, hnames, run₁⟩ := Attempt.bind_eq_ok.mp run
  obtain ⟨_, cls₂, hsource, run₂⟩ := Attempt.bind_eq_ok.mp run₁
  obtain ⟨_, cls₃, hstabilize, run₃⟩ := Attempt.bind_eq_ok.mp run₂
  obtain ⟨_, cls₄, hmethods, run₄⟩ := Attempt.bind_eq_ok.mp run₃
  obtain ⟨_, cls₅, hfields, hclose⟩ := Attempt.bind_eq_ok.mp run₄
  -- Each part in turn.  None of them changes what a later one asks for.
  obtain ⟨pool₁, rfl, names⟩ := took_of_internNames hnames
  obtain ⟨pool₂, attributes, rfl, source⟩ := took_of_recordSource hsource
  obtain ⟨_, ⟨⟩, rfl⟩ := onPool_eq_ok.mp hstabilize
  obtain ⟨methods, pool₄, hall, rfl⟩ := onMethods_eq_ok.mp hmethods
  obtain ⟨fields, pool₅, hall', rfl⟩ := onFields_eq_ok.mp hfields
  obtain ⟨pool₆, hpool₆, rfl⟩ := onPool_eq_ok.mp hclose
  refine ⟨pool₂, pool₅, names.append source, ?_, ?_⟩
  · exact (MemberAction.took_of_finalizeFrom Method.took_of_finalize hall).append
      (MemberAction.took_of_finalizeFrom Field.took_of_finalize hall')
  · exact Pool.alike_close hpool₆

/-- **Preparing a class takes the same constants into every pool.**  If a class can be prepared
with its pool and with another that is alike, both pools are alike in the end. -/
theorem alike_of_prepareOnce {pool : Pool} {final final' : Class}
    (unprepared : cls.prepared = false)
    (start : cls.pool.Alike pool) (run : prepareOnce cls = .ok () final)
    (run' : prepareOnce { cls with pool } = .ok () final') : final.pool.Alike final'.pool := by
  obtain ⟨named, titled, names, titles, last⟩ := took_of_prepareOnce unprepared run
  have unprepared' : { cls with pool }.prepared = false := unprepared
  obtain ⟨named', titled', names', titles', last'⟩ := took_of_prepareOnce unprepared' run'
  have beforeFixing : named.Alike named' := names.alike names' start
  have afterFixing : named.stabilize.Alike named'.stabilize :=
    ((Pool.alike_stabilize named).symm.trans beforeFixing).trans (Pool.alike_stabilize named')
  exact (last.symm.trans (titles.alike titles' afterFixing)).trans last'

end Class

end JvmAsm
