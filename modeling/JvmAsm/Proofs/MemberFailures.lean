import JvmAsm.Field
import JvmAsm.Method
import JvmAsm.Proofs.Attempts
import JvmAsm.Proofs.PoolExtension
import Mathlib.Data.Set.Insert

/-! # Failures of members

An edit of a field or method works in a fixed order: it asks whether the member can be changed at
all, then puts constants into the pool, and changes the member last.  So if it fails, it has not
yet changed the member, although the pool may have grown; and if the member refused it, not even
the pool has.

Three relations say so.  `Spared` is what the first two parts do in any case: the member is the
same, and the pool has grown by constants that were wanted.  `Clean` is what a failure behind the
first part looks like: besides, the cause is no refusal, provided that the member could be
changed.  `Unharmed` is what a failed edit as a whole does (`Field.fails_perform`,
`Method.fails_perform`). -/

namespace JvmAsm

/-- The member could not be changed: a method has no code, or the member is finalized. -/
def Error.Refusal : Error → Prop
  | .methodHasNoCode | .memberFinalized => True
  | _ => False

/-- The constant of a class by its name. -/
abbrev Constant.classNamed (name : BinaryName) : Constant := .refType (.object name)

/-! ## Actions on the pool -/

namespace Pool

variable {α β : Type} {wanted : Set Constant}

/-- Parts of wanted constants, and these themselves. -/
def Among (wanted : Set Constant) (part : Constant) : Prop :=
  ∃ constant ∈ wanted, Constant.Within part constant

/-- The pool grew by what was wanted. -/
def Draws (wanted : Set Constant) (pool pool' : Pool) : Prop :=
  pool.Invariant → Grows (Among wanted) pool pool'

instance (wanted : Set Constant) : IsPreorder Pool (Draws wanted) where
  refl _ _ := .refl
  trans _ _ _ h h' hpool := (h hpool).trans (h' ((h hpool).invariant hpool))

/-- **An action that only adds wanted constants**, and whose failures are those of the pool. -/
structure Interning (wanted : Set Constant) (action : Action α) : Prop where
  keeps : action.Keeps (Draws wanted)
  fails : action.Fails fun cause _ _ => ¬ cause.Refusal

/-- What a failure leaves behind is some of what was wanted. -/
theorem Interning.spares {action : Action α} (h : Interning wanted action) :
    action.Fails fun cause pool pool' => pool.Draws wanted pool' ∧ ¬ cause.Refusal :=
  fun _ _ _ run => ⟨h.keeps.error run, h.fails run⟩

theorem fails_intern {parts : List Constant → Action (List Entry)} {constant : Constant}
    (hparts : (parts constant.constituents).Fails fun cause _ _ => ¬ cause.Refusal) :
    (intern parts constant).Fails fun cause _ _ => ¬ cause.Refusal := by
  intro pool cause pool' run
  rcases intern_cases parts constant pool with ⟨-, done⟩ | ⟨-, ⟨entry, -, done⟩ |
    ⟨-, ⟨length, -, done⟩ | ⟨-, done⟩⟩⟩
  · cases done.symm.trans run
    exact id
  · cases done.symm.trans run
  · cases done.symm.trans run
    exact id
  · rcases Attempt.bind_eq_error.mp (done.symm.trans run) with first | ⟨children, middle, -, second⟩
    · exact hparts first
    · rw [push_eq] at second
      split at second
      · cases second
        exact id
      · cases second

/-- By induction on the height: a constituent fails for the same causes. -/
theorem fails_addWithin (depth : Nat) (constant : Constant) :
    (addWithin depth constant).Fails fun cause _ _ => ¬ cause.Refusal := by
  induction depth generalizing constant with
  | zero => exact fails_intern (Attempt.fails_pure [])
  | succ depth ih => exact fails_intern (Attempt.fails_mapM constant.constituents ih)

/-- An addition leaves at most parts of its constant, also where it fails. -/
theorem interning_add {constant : Constant} (h : constant ∈ wanted) :
    Interning wanted (add constant) where
  keeps := by
    refine Attempt.keeps_of (fun pool entry pool' run hpool => ?_)
      fun pool cause pool' run hpool => ?_
    · obtain ⟨grows, -⟩ := (adds_add constant hpool).ok entry pool' run
      exact grows.mono fun part within => ⟨constant, h, within⟩
    · have grows := (adds_add constant hpool).error cause pool' run
      exact grows.mono fun part isPart => ⟨constant, h, isPart.within⟩
  fails := fails_addWithin constant.height constant

theorem interning_pure (answer : α) : Interning wanted (pure answer) :=
  ⟨Attempt.keeps_pure answer, Attempt.fails_pure answer⟩

theorem interning_fail {cause : Error} (h : ¬ cause.Refusal) :
    Interning wanted (Attempt.fail cause : Action α) :=
  ⟨Attempt.keeps_fail cause, Attempt.fails_fail fun _ => h⟩

/-- Sequences want what their parts want. -/
theorem Interning.bind {first : Action α} {next : α → Action β} (hfirst : Interning wanted first)
    (hnext : ∀ answer, Interning wanted (next answer)) : Interning wanted (first >>= next) where
  keeps := hfirst.keeps.bind fun answer => (hnext answer).keeps
  fails := hfirst.fails.bind hfirst.keeps (fun answer => (hnext answer).fails)
    fun _ _ _ _ _ failed => failed

end Pool

open Pool (Draws Interning interning_add interning_pure interning_fail)

theorem Attributes.interning_add (attributes : Attributes) {wanted : Set Constant} {name : String}
    (value : AttributeValue) (h : .utf8 name ∈ wanted) :
    Interning wanted (attributes.add name value) := by
  refine (Pool.interning_add h).bind fun entry => ?_
  split
  · exact interning_pure _
  · split
    · exact interning_fail id
    · exact interning_pure _

namespace Instruction

/-- A constant that an instruction has inline is not wanted in the pool. -/
theorem interning_push {constant : Constant} {wanted : Set Constant}
    (h : ¬ constant.Inline → constant ∈ wanted) : Interning wanted (push constant) := by
  rcases push_spec constant with ⟨-, instruction, same, -⟩ | ⟨pooled, same⟩
  · rw [same]
    exact interning_pure _
  · rw [same]
    exact (interning_add (h pooled)).bind fun _ => interning_pure _

end Instruction

/-! ## Actions on a member and the pool -/

namespace MemberAction

variable {μ α β : Type} {member member' : μ} {pool pool' : Pool} {wanted : Set Constant}

/-- Actions on the pool are those of the pool, next to a member that stays. -/
theorem onPool_eq_ok {action : Pool.Action α} {answer : α} :
    (onPool action : MemberAction μ α) (member, pool) = .ok answer (member', pool') ↔
      member' = member ∧ action pool = .ok answer pool' := by
  unfold onPool
  dsimp only
  cases action pool with
  | ok a middle =>
    constructor
    · intro h
      cases h
      exact ⟨rfl, rfl⟩
    · rintro ⟨rfl, h⟩
      cases h
      rfl
  | error e middle => simp

theorem onPool_eq_error {action : Pool.Action α} {cause : Error} :
    (onPool action : MemberAction μ α) (member, pool) = .error cause (member', pool') ↔
      member' = member ∧ action pool = .error cause pool' := by
  unfold onPool
  dsimp only
  cases action pool with
  | ok a middle => simp
  | error e middle =>
    constructor
    · intro h
      cases h
      exact ⟨rfl, rfl⟩
    · rintro ⟨rfl, h⟩
      cases h
      rfl

/-- **Only the pool changed**, by what was wanted. -/
structure Spared (wanted : Set Constant) (s s' : μ × Pool) : Prop where
  member : s'.1 = s.1
  pool : s.2.Draws wanted s'.2

instance (wanted : Set Constant) : IsPreorder (μ × Pool) (Spared wanted) where
  refl s := ⟨rfl, refl_of (Draws wanted) s.2⟩
  trans _ _ _ h h' := ⟨h'.member.trans h.member, trans_of (Draws wanted) h.pool h'.pool⟩

/-- A failure that spares the member, and is no refusal if the member was `ready`. -/
structure Clean (ready : μ → Prop) (wanted : Set Constant) (cause : Error) (s s' : μ × Pool) :
    Prop where
  spared : Spared wanted s s'
  accepted : ready s.1 → ¬ cause.Refusal

/-- **What a failed edit does**: if the member refused it, nothing at all. -/
structure Unharmed (wanted : Set Constant) (cause : Error) (s s' : μ × Pool) : Prop where
  spared : Spared wanted s s'
  refused : cause.Refusal → s' = s

/-- If the member was ready, then it did not refuse. -/
theorem Clean.unharmed {ready : μ → Prop} {cause : Error} {s s' : μ × Pool}
    (h : Clean ready wanted cause s s') (hready : ready s.1) : Unharmed wanted cause s s' :=
  ⟨h.spared, fun refusal => absurd refusal (h.accepted hready)⟩

theorem unharmed_self (cause : Error) (s : μ × Pool) : Unharmed wanted cause s s :=
  ⟨refl_of (Spared wanted) s, fun _ => rfl⟩

section

variable {ready : μ → Prop} {action : Pool.Action α} (h : Interning wanted action)

include h

theorem spared_onPool : (onPool action : MemberAction μ α).Keeps (Spared wanted) := by
  refine Attempt.keeps_of ?_ ?_
  · rintro ⟨member, pool⟩ a ⟨member', pool'⟩ run
    obtain ⟨rfl, run'⟩ := onPool_eq_ok.mp run
    exact ⟨rfl, h.keeps.ok run'⟩
  · rintro ⟨member, pool⟩ e ⟨member', pool'⟩ run
    obtain ⟨rfl, run'⟩ := onPool_eq_error.mp run
    exact ⟨rfl, h.keeps.error run'⟩

/-- Where only the pool was at work, only the pool can have changed. -/
theorem clean_of_interning {cause : Error} (failed : action pool = .error cause pool') :
    Clean ready wanted cause (member, pool) (member, pool') := by
  obtain ⟨draws, accepted⟩ := h.spares failed
  exact ⟨⟨rfl, draws⟩, fun _ => accepted⟩

/-- An action that only adds constants fails cleanly, whatever the member is like. -/
theorem clean_onPool : (onPool action : MemberAction μ α).Fails (Clean ready wanted) := by
  rintro ⟨member, pool⟩ e ⟨member', pool'⟩ run
  obtain ⟨rfl, failed⟩ := onPool_eq_error.mp run
  exact clean_of_interning h failed

/-- A change of the member that needs a constant. -/
theorem clean_onPool_bind {next : α → MemberAction μ β}
    (hnext : ∀ answer, (next answer).Fails (Clean ready wanted)) :
    (onPool action >>= next).Fails (Clean ready wanted) := by
  refine (clean_onPool h).bind (spared_onPool h) hnext fun cause s s' s'' spared clean => ?_
  exact ⟨trans_of (Spared wanted) spared clean.spared, spared.member ▸ clean.accepted⟩

end

end MemberAction

open MemberAction (Clean Unharmed unharmed_self clean_of_interning clean_onPool clean_onPool_bind)

/-! ## Fields -/

namespace Field

variable {α : Type} {wanted : Set Constant}

theorem interning_declare (name : UnqualifiedName) (type : FieldType) (flags : AccessFlags .field) :
    Interning {.utf8 name.text, .utf8 type.render} (declare name type flags) := by
  unfold declare
  cases flags.check with
  | error cause => exact interning_fail id
  | ok flags =>
    refine (interning_add (.inl rfl)).bind fun nameEntry => ?_
    exact (interning_add (.inr rfl)).bind fun typeEntry => interning_pure _

/-- The container changes last, so a failure leaves it as it was. -/
theorem clean_putAttribute {ready : Field → Prop} {name : String} {value : AttributeValue}
    (h : .utf8 name ∈ wanted) : (putAttribute name value).Fails (Clean ready wanted) := by
  rintro ⟨field, pool⟩ cause s' run
  unfold putAttribute at run
  dsimp only at run
  split at run
  · cases run
  · rename_i failed
    cases run
    exact clean_of_interning (Attributes.interning_add field.attributes value h) failed

/-- If the field is finalized, the action is refused before it starts. -/
theorem unharmed_whileOpen {action : Action α}
    (h : action.Fails (Clean (fun _ => True) wanted)) :
    (whileOpen action).Fails (Unharmed wanted) := by
  rintro ⟨field, pool⟩ cause s' run
  unfold whileOpen at run
  dsimp only at run
  split at run
  · cases run
    exact unharmed_self _ _
  · exact (h run).unharmed trivial

/-- The constants an edit puts into the pool. -/
def Edit.interned : Edit → Set Constant
  | setConstant constant => {constant}
  | addAttribute name _ => {.utf8 name}

/-- **A failed edit of a field** leaves it as it was. -/
theorem fails_perform (edit : Edit) : edit.perform.Fails (Unharmed edit.interned) := by
  cases edit with
  | setConstant constant =>
    refine unharmed_whileOpen
      (clean_onPool_bind (interning_add (Set.mem_singleton _)) fun entry => ?_)
    exact Attempt.fails_of_ok fun _ => ⟨_, _, rfl⟩
  | addAttribute name value =>
    exact unharmed_whileOpen (clean_putAttribute (Set.mem_singleton _)).bind_pure

end Field

/-! ## Code -/

namespace Code

/-- A failed change of code leaves it as it was, and is no refusal. -/
def Kept (cause : Error) (code code' : Code) : Prop := code' = code ∧ ¬ cause.Refusal

/-- The only failure: there is no instruction at the position. -/
theorem fails_set (position : Nat) (instruction : SourceInstruction) :
    (set position instruction).Fails Kept := by
  intro code cause code' run
  unfold set at run
  split at run
  split at run
  · cases run
  · cases run
    exact ⟨rfl, id⟩

theorem fails_perform (edit : Edit) : edit.perform.Fails Kept := by
  cases edit with
  | set position instruction => exact (fails_set position instruction).bind_pure
  | placeLabel label =>
    refine Attempt.Fails.bind_pure fun code cause code' run => ?_
    unfold placeLabel at run
    split at run
    · cases run
      exact ⟨rfl, id⟩
    · cases run
  | append _ | freshLabel | addHandler _ | setMaxStack _ | setMaxLocals _ =>
    exact Attempt.fails_of_ok fun _ => ⟨_, _, rfl⟩

end Code

/-! ## Methods -/

namespace Method

variable {α : Type} {method method' : Method} {pool pool' : Pool} {wanted : Set Constant}

/-- The code of the method can be changed. -/
def Open (method : Method) : Prop := method.code.isSome = true ∧ method.finalized = false

/-! ### Taking changes of a method apart -/

/-- A change of code succeeds if there is code, the method is open and the code takes it. -/
theorem onCode_eq_ok {action : Code.Action α} {answer : α} :
    onCode action (method, pool) = .ok answer (method', pool') ↔
      pool' = pool ∧ method.finalized = false ∧ ∃ code code', method.code = some code ∧
        action code = .ok answer code' ∧ method' = { method with code := some code' } := by
  obtain ⟨name, descriptor, flags, nameEntry, descriptorEntry, code, throws, attributes,
    finalized⟩ := method
  cases code with
  | none => simp [onCode]
  | some code =>
    cases finalized with
    | true => simp [onCode]
    | false =>
      unfold onCode
      dsimp only
      cases run : action code with
      | error e code' => simp [run]
      | ok a code' =>
        simp only [EStateM.Result.ok.injEq, Prod.mk.injEq, Option.some.injEq, true_and]
        constructor
        · rintro ⟨rfl, rfl, rfl⟩
          exact ⟨rfl, code, code', rfl, run, rfl⟩
        · rintro ⟨rfl, _, _, rfl, run', rfl⟩
          cases run.symm.trans run'
          exact ⟨rfl, rfl, rfl⟩

/-- Where the code cannot be changed, nothing is tried. -/
theorem onCode_eq_error {action : Code.Action α} {cause : Error}
    (h : onCode action (method, pool) = .error cause (method', pool')) :
    pool' = pool ∧ (¬ method.Open ∧ method' = method ∨ ∃ code code', method.code = some code ∧
      action code = .error cause code' ∧ method' = { method with code := some code' }) := by
  obtain ⟨name, descriptor, flags, nameEntry, descriptorEntry, code, throws, attributes,
    finalized⟩ := method
  cases code with
  | none =>
    cases h
    exact ⟨rfl, .inl ⟨nofun, rfl⟩⟩
  | some code =>
    cases finalized with
    | true =>
      cases h
      exact ⟨rfl, .inl ⟨nofun, rfl⟩⟩
    | false =>
      unfold onCode at h
      dsimp only at h
      split at h
      · cases h
      · rename_i run
        cases h
        exact ⟨rfl, .inr ⟨code, _, rfl, run, rfl⟩⟩

/-- A change of code that leaves it alone when it fails leaves the method alone. -/
theorem fails_onCode {action : Code.Action α} (h : action.Fails Code.Kept) :
    (onCode action).Fails fun cause s s' => s' = s ∧ (s.1.Open → ¬ cause.Refusal) := by
  rintro ⟨method, pool⟩ cause ⟨method', pool'⟩ run
  obtain ⟨rfl, ⟨closed, rfl⟩ | ⟨code, code', hcode, failed, rfl⟩⟩ := onCode_eq_error run
  · exact ⟨rfl, fun ready => absurd ready closed⟩
  · obtain ⟨rfl, accepted⟩ := h failed
    rw [← hcode]
    exact ⟨rfl, fun _ => accepted⟩

theorem checkCode_ok (h : checkCode (method, pool) = .ok () (method', pool')) :
    pool' = pool ∧ method' = method ∧ method.Open := by
  obtain ⟨hpool, unfinished, code, code', hcode, run, rfl⟩ := onCode_eq_ok.mp h
  obtain ⟨-, rfl⟩ := Attempt.pure_eq_ok.mp run
  have ready : method.Open := ⟨by rw [hcode]; rfl, unfinished⟩
  rw [← hcode]
  exact ⟨hpool, rfl, ready⟩

/-- A method that is not finalized is no obstacle. -/
theorem whileOpen_of_open {action : Action α} (h : method.finalized = false) :
    whileOpen action (method, pool) = action (method, pool) := by
  unfold whileOpen
  simp [h]

/-! ### Failures -/

theorem interning_declare (name : UnqualifiedName) (descriptor : MethodDescriptor)
    (flags : AccessFlags .method) (inInterface : Bool) :
    Interning {.utf8 name.text, .utf8 descriptor.render}
      (declare name descriptor flags inInterface) := by
  unfold declare
  cases flags.check with
  | error cause => exact interning_fail id
  | ok flags =>
    dsimp only
    split
    · exact interning_fail id
    · refine (interning_add (.inl rfl)).bind fun nameEntry => ?_
      exact (interning_add (.inr rfl)).bind fun descriptorEntry => interning_pure _

theorem clean_putAttribute {ready : Method → Prop} {name : String} {value : AttributeValue}
    (h : .utf8 name ∈ wanted) : (putAttribute name value).Fails (Clean ready wanted) := by
  rintro ⟨method, pool⟩ cause s' run
  unfold putAttribute at run
  dsimp only at run
  split at run
  · cases run
  · rename_i failed
    cases run
    exact clean_of_interning (Attributes.interning_add method.attributes value h) failed

theorem unharmed_whileOpen {action : Action α}
    (h : action.Fails (Clean (fun _ => True) wanted)) :
    (whileOpen action).Fails (Unharmed wanted) := by
  rintro ⟨method, pool⟩ cause s' run
  unfold whileOpen at run
  dsimp only at run
  split at run
  · cases run
    exact unharmed_self _ _
  · exact (h run).unharmed trivial

/-- If the code can be changed, then what fails is the change itself. -/
theorem clean_onCode {action : Code.Action α} (h : action.Fails Code.Kept) :
    (onCode action).Fails (Clean Open wanted) := by
  refine (fails_onCode h).imp ?_
  rintro cause _ s ⟨rfl, accepted⟩
  exact ⟨refl_of (MemberAction.Spared wanted) s, accepted⟩

theorem unharmed_onCode {action : Code.Action α} (h : action.Fails Code.Kept) :
    (onCode action).Fails (Unharmed wanted) := by
  refine (fails_onCode h).imp ?_
  rintro cause _ s ⟨rfl, -⟩
  exact unharmed_self cause s

/-- What follows the check finds a method that can be changed. -/
theorem unharmed_checkCode_bind {next : Unit → Action α}
    (h : (next ()).Fails (Clean Open wanted)) : (checkCode >>= next).Fails (Unharmed wanted) := by
  rintro ⟨method, pool⟩ cause s' run
  rcases Attempt.bind_eq_error.mp run with refused | ⟨_, ⟨method₁, pool₁⟩, passed, run'⟩
  · exact unharmed_onCode (Attempt.fails_pure ()) refused
  · obtain ⟨rfl, rfl, ready⟩ := checkCode_ok passed
    exact (h run').unharmed ready

/-- The constants an edit puts into the pool. -/
def Edit.interned : Edit → Set Constant
  | code _ => ∅
  | push constant _ => {pooled | pooled = constant ∧ ¬ constant.Inline}
  | addHandler _ _ _ catchName => {pooled | ∃ name ∈ catchName, pooled = .classNamed name}
  | addThrows exception => {.classNamed exception}
  | addAttribute name _ | addCodeAttribute name _ => {.utf8 name}
  | intern constant => {constant}

/-- The code is checked before the pool is asked for a constant. -/
theorem fails_push (constant : Constant) (position : Option Nat) :
    (push constant position).Fails (Unharmed (Edit.push constant position).interned) := by
  have interning : Interning (Edit.push constant position).interned (Instruction.push constant) :=
    Instruction.interning_push fun pooled => ⟨rfl, pooled⟩
  refine unharmed_checkCode_bind (clean_onPool_bind interning fun answer => clean_onCode ?_)
  cases position with
  | none => exact Attempt.fails_of_ok fun _ => ⟨_, _, rfl⟩
  | some position => exact (Code.fails_set position answer).bind_pure

/-- All that a failure may leave in the pool is the class that would be caught. -/
theorem fails_addHandler (start stop handler : Target) (catchName : Option BinaryName) :
    (addHandler start stop handler catchName).Fails
      (Unharmed (Edit.addHandler start stop handler catchName).interned) := by
  refine unharmed_checkCode_bind ?_
  have added (catchType : Option Entry) :
      (Code.addHandler ⟨start, stop, handler, catchType⟩).Fails Code.Kept :=
    Attempt.fails_of_ok fun _ => ⟨_, _, rfl⟩
  cases catchName with
  | none => exact clean_onCode (added none)
  | some name =>
    have interning : Interning (Edit.addHandler start stop handler (some name)).interned
        (Pool.addClass name) := interning_add ⟨name, rfl, rfl⟩
    change ((some <$> MemberAction.onPool (Pool.addClass name)) >>= fun catchType =>
      onCode (Code.addHandler ⟨start, stop, handler, catchType⟩)).Fails _
    rw [bind_map_left]
    exact clean_onPool_bind interning fun entry => clean_onCode (added (some entry))

theorem fails_addThrows (exception : BinaryName) :
    (addThrows exception).Fails (Unharmed (Edit.addThrows exception).interned) := by
  refine unharmed_whileOpen
    (clean_onPool_bind (interning_add (Set.mem_singleton _)) fun entry => ?_)
  refine Attempt.fails_of_ok fun s => ?_
  dsimp only
  split
  · exact ⟨_, _, rfl⟩
  · exact ⟨_, _, rfl⟩

theorem fails_addCodeAttribute (name : String) (value : AttributeValue) :
    (addCodeAttribute name value).Fails (Unharmed (Edit.addCodeAttribute name value).interned) := by
  refine unharmed_checkCode_bind ?_
  rintro ⟨method, pool⟩ cause s' run
  dsimp only at run
  split at run
  · rename_i none
    cases run
    refine ⟨refl_of (MemberAction.Spared _) _, fun ready => ?_⟩
    have some := ready.1
    rw [none] at some
    cases some
  · rename_i code hcode
    split at run
    · cases run
    · rename_i failed
      cases run
      exact clean_of_interning (Attributes.interning_add code.attributes value
        (Set.mem_singleton _)) failed

/-- **A failed edit of a method** leaves it as it was. -/
theorem fails_perform (edit : Edit) : edit.perform.Fails (Unharmed edit.interned) := by
  cases edit with
  | code edit => exact unharmed_onCode (Code.fails_perform edit)
  | push constant position => exact (fails_push constant position).bind_pure
  | addHandler start stop handler catchName =>
    exact (fails_addHandler start stop handler catchName).bind_pure
  | addThrows exception => exact (fails_addThrows exception).bind_pure
  | addAttribute name value =>
    exact unharmed_whileOpen (clean_putAttribute (Set.mem_singleton _)).bind_pure
  | addCodeAttribute name value => exact (fails_addCodeAttribute name value).bind_pure
  | intern constant =>
    have clean : (MemberAction.onPool (Pool.add constant) : Action Entry).Fails
        (Clean (fun _ => True) {constant}) := clean_onPool (interning_add (Set.mem_singleton _))
    exact (clean.imp fun cause s s' clean => clean.unharmed trivial).bind_pure

end Method

end JvmAsm
