import JvmAsm.Proofs.MemberFailures

/-! # What changes of methods are made of

However many ways there are to change a method, they come down to three: a constant is
added to the pool, an attribute is put into the method's container, or the code, the
declared exceptions and the mark of a finalized method change, while the container and
the pool stay as they are.  So a preorder that each of the three keeps (`Steady`) is kept
by every edit and by finalizing, whether they succeed or fail on the way. -/

namespace JvmAsm

namespace MemberAction

variable {μ α β : Type} {R : μ × Pool → μ × Pool → Prop} [IsPreorder (μ × Pool) R]

theorem after_onPool (action : Pool.Action α) (member : μ) (pool : Pool) :
    (onPool action : MemberAction μ α).after (member, pool) = (member, action.after pool) := by
  cases run : action pool with
  | ok answer pool' =>
    rw [Attempt.after_of_ok run]
    exact Attempt.after_of_ok (onPool_eq_ok.mpr ⟨rfl, run⟩)
  | error cause pool' =>
    rw [Attempt.after_of_error run]
    exact Attempt.after_of_error (onPool_eq_error.mpr ⟨rfl, run⟩)

/-- Two actions on the pool are one. -/
theorem onPool_bind (first : Pool.Action α) (next : α → Pool.Action β) :
    (onPool (first >>= next) : MemberAction μ β) =
      onPool first >>= fun answer => onPool (next answer) := by
  funext ⟨member, pool⟩
  simp only [onPool, bind, EStateM.bind]
  cases first pool with
  | ok answer pool' => rfl
  | error cause pool' => rfl

theorem keeps_onPool_bind {first : Pool.Action α} {next : α → Pool.Action β}
    (hfirst : (onPool first : MemberAction μ α).Keeps R)
    (hnext : ∀ answer, (onPool (next answer) : MemberAction μ β).Keeps R) :
    (onPool (first >>= next) : MemberAction μ β).Keeps R := by
  rw [onPool_bind]
  exact hfirst.bind hnext

end MemberAction

namespace Method

open MemberAction (onPool keeps_onPool_bind)

variable {α : Type} {R : Method × Pool → Method × Pool → Prop} [IsPreorder (Method × Pool) R]

/-- **The three kinds of change keep the relation.** -/
structure Steady (R : Method × Pool → Method × Pool → Prop) : Prop where
  add : ∀ constant, (onPool (Pool.add constant) : Action Entry).Keeps R
  put : ∀ name value, (putAttribute name value).Keeps R
  /-- Neither the container nor the pool changes. -/
  rest : ∀ method pool code throws finalized,
    R (method, pool) ({ method with code, throws, finalized }, pool)

/-- A finalized method refuses the action and stays as it is. -/
theorem keeps_whileOpen {action : Action α} (h : action.Keeps R) : (whileOpen action).Keeps R := by
  refine h.guarded ?_
  rintro ⟨method, pool⟩
  by_cases closed : method.finalized = true
  · exact .inl ⟨.memberFinalized, if_pos closed⟩
  · exact .inr (if_neg closed)

namespace Steady

/-! ## Edits -/

/-- Changes of code touch neither the container of attributes nor the pool. -/
theorem onCode (h : Steady R) (action : Code.Action α) : (onCode action).Keeps R := by
  refine Attempt.keeps_of ?_ ?_
  · rintro ⟨method, pool⟩ a ⟨method', pool'⟩ run
    obtain ⟨rfl, -, code, code', -, -, rfl⟩ := onCode_eq_ok.mp run
    exact h.rest method pool' _ _ _
  · rintro ⟨method, pool⟩ e ⟨method', pool'⟩ run
    rcases onCode_eq_error run with ⟨rfl, ⟨-, rfl⟩ | ⟨code, code', -, -, rfl⟩⟩
    · exact refl_of R _
    · exact h.rest method pool' _ _ _

/-- At most one constant is added, as the instruction says (`Instruction.push_spec`). -/
theorem push (h : Steady R) (constant : Constant) :
    (onPool (Instruction.push constant) : Action SourceInstruction).Keeps R := by
  rcases Instruction.push_spec constant with ⟨-, instruction, same, -⟩ | ⟨-, same⟩
  · rw [same]
    exact Attempt.keeps_pure instruction
  · rw [same]
    exact keeps_onPool_bind (h.add constant) fun _ => Attempt.keeps_pure _

theorem addAttribute (h : Steady R) (attributes : Attributes) (name : String)
    (value : AttributeValue) :
    (onPool (attributes.add name value) : Action Attributes).Keeps R := by
  refine keeps_onPool_bind (h.add _) fun entry => ?_
  split
  · exact Attempt.keeps_pure _
  · split
    · exact Attempt.keeps_fail _
    · exact Attempt.keeps_pure _

/-- The class that is caught, if one is, is the only constant that is added. -/
theorem addHandler (h : Steady R) (start stop handler : Target) (catchName : Option BinaryName) :
    (addHandler start stop handler catchName).Keeps R := by
  refine (h.onCode _).bind fun _ => ?_
  cases catchName with
  | none => exact (Attempt.keeps_pure none).bind fun _ => h.onCode _
  | some name =>
    have caught : (some <$> onPool (Pool.addClass name) : Action (Option Entry)).Keeps R :=
      (h.add _).bind fun _ => Attempt.keeps_pure _
    exact caught.bind fun _ => h.onCode _

theorem addThrows (h : Steady R) (exception : BinaryName) : (addThrows exception).Keeps R := by
  refine keeps_whileOpen ((h.add _).bind fun entry => ?_)
  rintro ⟨method, pool⟩
  unfold Attempt.after
  dsimp only
  by_cases known : method.throws.contains entry = true
  · rw [if_pos known]
    exact refl_of R _
  · rw [if_neg known]
    exact h.rest method pool _ _ _

theorem addCodeAttribute (h : Steady R) (name : String) (value : AttributeValue) :
    (addCodeAttribute name value).Keeps R := by
  refine (h.onCode _).bind fun _ => ?_
  rintro ⟨method, pool⟩
  unfold Attempt.after
  dsimp only
  cases method.code with
  | none => exact refl_of R _
  | some code =>
    have interned := h.addAttribute code.attributes name value
    dsimp only
    cases run : code.attributes.add name value pool with
    | ok attributes pool' =>
      exact trans_of R (interned.ok (MemberAction.onPool_eq_ok.mpr ⟨rfl, run⟩))
        (h.rest method pool' _ _ _)
    | error e pool' => exact interned.error (MemberAction.onPool_eq_error.mpr ⟨rfl, run⟩)

/-- **Every edit keeps it.** -/
theorem perform (h : Steady R) (edit : Edit) : edit.perform.Keeps R := by
  cases edit with
  | code edit => exact h.onCode edit.perform
  | push constant position =>
    have placed : (Method.push constant position).Keeps R :=
      (h.onCode _).bind fun _ => (h.push constant).bind fun _ => h.onCode _
    exact placed.bind fun _ => Attempt.keeps_pure _
  | addHandler start stop handler catchName =>
    exact (h.addHandler start stop handler catchName).bind fun _ => Attempt.keeps_pure _
  | addThrows exception => exact (h.addThrows exception).bind fun _ => Attempt.keeps_pure _
  | addAttribute name value =>
    exact keeps_whileOpen ((h.put name value).bind fun _ => Attempt.keeps_pure _)
  | addCodeAttribute name value =>
    exact (h.addCodeAttribute name value).bind fun _ => Attempt.keeps_pure _
  | intern constant => exact (h.add constant).bind fun _ => Attempt.keeps_pure _

/-! ## Finalizing -/

/-- Assembled code becomes an attribute; there is nothing to do without code. -/
theorem assembleCode (h : Steady R) : assembleCode.Keeps R := by
  rintro ⟨method, pool⟩
  unfold Attempt.after Method.assembleCode
  dsimp only
  cases method.code with
  | none => exact refl_of R _
  | some code =>
    dsimp only
    cases code.assemble pool with
    | error e => exact refl_of R _
    | ok payload => exact h.put codeName _ (method, pool)

theorem declareThrows (h : Steady R) : declareThrows.Keeps R := by
  rintro ⟨method, pool⟩
  unfold Attempt.after Method.declareThrows
  dsimp only
  by_cases none_declared : method.throws.isEmpty = true
  · rw [if_pos none_declared]
    exact refl_of R _
  · rw [if_neg none_declared]
    cases method.throws.mapM pool.index with
    | error e => exact refl_of R _
    | ok indices =>
      exact h.put exceptionsName _ (method, pool)

/-- **Finalizing keeps it.** -/
theorem finalize (h : Steady R) : finalize.Keeps R := by
  rintro ⟨method, pool⟩
  by_cases closed : method.finalized = true
  · have run : Method.finalize (method, pool) = .ok () (method, pool) := if_pos closed
    rw [Attempt.after_of_ok run]
    exact refl_of R _
  · -- The method is marked before its attributes are made.
    have run : Method.finalize (method, pool) = (do Method.assembleCode; Method.declareThrows :
        Action Unit) ({ method with finalized := true }, pool) := if_neg closed
    rw [Attempt.after_congr run]
    exact trans_of R (h.rest method pool _ _ true)
      ((h.assembleCode.bind fun _ => h.declareThrows) _)

end Steady

end Method

end JvmAsm
