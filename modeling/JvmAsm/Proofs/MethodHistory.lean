import Mathlib.Data.List.Induction
import JvmAsm.Proofs.FieldHistory

/-! # Methods reflect the edits they accepted

The counterpart for methods.  Two things in a method depend on the order of its
edits: the exceptions it declares, each once and in the order of their first
declaration, and the classes its handlers catch, one for each handler.  There is one
lemma for each kind of edit that was accepted, and `Reflects.perform_ok` puts them
together. -/

namespace JvmAsm

open Pool (Grown Interns)

/-! ## Code -/

namespace Code

/-- An edit of code keeps its attributes, and handlers are only ever added. -/
theorem perform_ok {edit : Edit} {code code' : Code} {reply : Reply}
    (run : edit.perform code = .ok reply code') :
    code'.attributes = code.attributes ∧ reply ≠ .absent ∧
      code'.handlers = match edit with
        | .addHandler handler => code.handlers.push handler
        | _ => code.handlers := by
  obtain ⟨instructions, labels, handlers, maxStack, maxLocals, attributes⟩ := code
  cases edit with
  | append instruction =>
    cases run
    exact ⟨rfl, nofun, rfl⟩
  | set position instruction =>
    obtain ⟨_, first, rfl⟩ := Attempt.bind_pure_eq_ok.mp run
    unfold set at first
    dsimp only at first
    split at first
    · cases first
      exact ⟨rfl, nofun, rfl⟩
    · cases first
  | freshLabel =>
    cases run
    exact ⟨rfl, nofun, rfl⟩
  | placeLabel label =>
    obtain ⟨_, first, rfl⟩ := Attempt.bind_pure_eq_ok.mp run
    unfold placeLabel at first
    split at first
    · cases first
    · cases first
      exact ⟨rfl, nofun, rfl⟩
  | addHandler handler =>
    cases run
    exact ⟨rfl, nofun, rfl⟩
  | setMaxStack depth =>
    cases run
    exact ⟨rfl, nofun, rfl⟩
  | setMaxLocals count =>
    cases run
    exact ⟨rfl, nofun, rfl⟩

end Code

namespace Instruction

variable {pool : Pool}

theorem interns_load (opcode : Opcode) (constant : Constant) (hpool : pool.Invariant) :
    Interns (load opcode constant) pool fun _ _ => True :=
  Pool.interns_bind (Pool.interns_add constant hpool) fun _ _ _ _ => Pool.interns_pure trivial

theorem interns_push (constant : Constant) (hpool : pool.Invariant) :
    Interns (push constant) pool fun _ _ => True := by
  rcases push_spec constant with ⟨-, instruction, same, -⟩ | ⟨-, same⟩
  · rw [same]
    exact Pool.interns_pure trivial
  · rw [same]
    exact interns_load constant.loader constant hpool

end Instruction

/-! ## Methods -/

/-- What a handler was asked to catch. -/
inductive Catch where
  | everything
  /-- The class of this name. -/
  | named (name : BinaryName)
  /-- Whatever this entry stands for. -/
  | held (entry : Entry)
  deriving DecidableEq

namespace Catch

/-- The entry in a handler is what was asked for. -/
def Means (pool : Pool) : Catch → Option Entry → Prop
  | everything, catchType => catchType = none
  | named name, catchType =>
    ∃ entry, catchType = some entry ∧ pool.constant? entry = some (.classNamed name)
  | held entry, catchType => catchType = some entry

theorem Means.mono {pool pool' : Pool} {asked : Catch} {catchType : Option Entry}
    (h : asked.Means pool catchType) (more : pool.Extends pool') : asked.Means pool' catchType := by
  cases asked with
  | everything => exact h
  | named name =>
    obtain ⟨entry, hentry, hclass⟩ := h
    exact ⟨entry, hentry, more.constant? hclass⟩
  | held entry => exact h

end Catch

theorem filterMap_concat_none {α β : Type} {f : α → Option β} {item : α} (h : f item = none)
    (items : List α) : (items ++ [item]).filterMap f = items.filterMap f := by
  rw [List.filterMap_append, List.filterMap_cons_none h, List.filterMap_nil, List.append_nil]

/-- Each once, in the order of their first occurrence: one more item. -/
theorem eraseDups_concat {α : Type} [DecidableEq α] (items : List α) (item : α) :
    (items ++ [item]).eraseDups =
      if item ∈ items then items.eraseDups else items.eraseDups ++ [item] := by
  rw [List.eraseDups_append]
  by_cases known : item ∈ items
  · rw [if_pos known]
    simp [List.removeAll, known]
  · rw [if_neg known]
    simp [List.removeAll, known, List.eraseDups_cons]

theorem nodup_eraseDups {α : Type} [DecidableEq α] (items : List α) : items.eraseDups.Nodup := by
  induction items using List.reverseRec with
  | nil => exact List.nodup_nil
  | append_singleton items item ih =>
    rw [eraseDups_concat]
    split
    · exact ih
    · rename_i fresh
      refine List.nodup_append.mpr ⟨ih, List.nodup_singleton item, ?_⟩
      rintro other hother _ hitem rfl
      obtain rfl := List.mem_singleton.mp hitem
      exact fresh (List.mem_eraseDups.mp hother)

namespace Method

variable {α : Type} {method method' : Method} {pool pool' : Pool} {asked : List Edit}

/-- The exception an edit declares. -/
def Edit.throws? : Edit → Option BinaryName
  | .addThrows exception => some exception
  | _ => none

/-- What the handler that an edit adds is to catch. -/
def Edit.catch? : Edit → Option Catch
  | .addHandler _ _ _ none => some .everything
  | .addHandler _ _ _ (some name) => some (.named name)
  | .code (.addHandler handler) => some (handler.catchType.elim .everything .held)
  | _ => none

/-- **The method is what the edits it accepted asked for.** -/
structure Reflects (pool : Pool) (asked : List Edit) (method : Method) : Prop where
  name : pool.constant? method.nameEntry = some (.utf8 method.name.text)
  descriptor : pool.constant? method.descriptorEntry = some (.utf8 method.descriptor.render)
  attributes : method.attributes.Sound pool
  /-- The exceptions are those declared, each once, in the order of their first declaration. -/
  throws : method.throws.map pool.constant? =
    ((asked.filterMap Edit.throws?).eraseDups.map Constant.classNamed).map some
  nested : ∀ code, method.code = some code → code.attributes.Sound pool
  /-- Handlers catch what they were asked to, in the order in which they were added. -/
  catches : ∀ code, method.code = some code →
    List.Forall₂ (Catch.Means pool) (asked.filterMap Edit.catch?)
      (code.handlers.toList.map Handler.catchType)
  unfinished : method.finalized = false

theorem Reflects.mono (h : method.Reflects pool asked) (more : pool.Extends pool') :
    method.Reflects pool' asked where
  name := more.constant? h.name
  descriptor := more.constant? h.descriptor
  attributes := h.attributes.mono more
  throws := more.map_constant? h.throws
  nested code hcode := (h.nested code hcode).mono more
  catches code hcode := (h.catches code hcode).imp fun _ _ means => means.mono more
  unfinished := h.unfinished

/-- The declared exceptions are distinct, and so there are not too many. -/
theorem Reflects.few_throws (h : method.Reflects pool asked) (hpool : pool.Invariant) :
    method.throws.length ≤ 65535 := by
  have known := h.throws
  rw [List.map_map] at known
  have apart : (method.throws.map pool.constant?).Nodup := by
    rw [known]
    refine (nodup_eraseDups _).map fun name name' same => ?_
    simpa [Constant.classNamed] using same
  refine hpool.few apart.of_map fun entry hentry => ?_
  have listed := List.mem_map_of_mem (f := pool.constant?) hentry
  rw [known] at listed
  obtain ⟨name, -, hname⟩ := List.mem_map.mp listed
  exact ⟨_, hname.symm⟩

theorem interns_declare {name : UnqualifiedName} {descriptor : MethodDescriptor}
    {flags : AccessFlags .method} {inInterface : Bool} (hpool : pool.Invariant) :
    Interns (declare name descriptor flags inInterface) pool fun method pool' =>
      method.Reflects pool' [] := by
  unfold declare
  cases flags.check with
  | error cause => exact Pool.interns_fail _
  | ok flags =>
    dsimp only
    split
    · exact Pool.interns_fail _
    · refine Pool.interns_twoTexts hpool fun nameEntry descriptorEntry pool' _ hname hdescriptor =>
        ?_
      refine Pool.interns_pure ⟨hname, hdescriptor, Attributes.sound_empty pool', rfl, ?_, ?_, rfl⟩
      · intro code hcode
        obtain ⟨-, hempty⟩ := Option.ite_none_right_eq_some.mp hcode
        rw [← Option.some.inj hempty]
        exact Attributes.sound_empty pool'
      · intro code hcode
        obtain ⟨-, hempty⟩ := Option.ite_none_right_eq_some.mp hcode
        rw [← Option.some.inj hempty]
        exact .nil

/-! ### Accepted edits -/

/-- An edit that neither declares an exception nor adds a handler. -/
theorem Reflects.skip (h : method.Reflects pool asked) {edit : Edit} (hthrows : edit.throws? = none)
    (hcatch : edit.catch? = none) : method.Reflects pool (asked ++ [edit]) where
  name := h.name
  descriptor := h.descriptor
  attributes := h.attributes
  throws := by
    rw [filterMap_concat_none hthrows]
    exact h.throws
  nested := h.nested
  catches := by
    rw [filterMap_concat_none hcatch]
    exact h.catches
  unfinished := h.unfinished

/-- Other code, with the handlers and attributes of the code before. -/
theorem Reflects.recode (h : method.Reflects pool asked) {code code' : Code}
    (hcode : method.code = some code) (hattributes : code'.attributes.Sound pool)
    (hhandlers : code'.handlers = code.handlers) :
    { method with code := some code' }.Reflects pool asked where
  name := h.name
  descriptor := h.descriptor
  attributes := h.attributes
  throws := h.throws
  nested other hother := by
    obtain rfl := Option.some.inj hother
    exact hattributes
  catches other hother := by
    obtain rfl := Option.some.inj hother
    rw [hhandlers]
    exact h.catches code hcode
  unfinished := h.unfinished

/-- One more handler, which catches what it was asked to. -/
theorem Reflects.handle (h : method.Reflects pool asked) {edit : Edit} {code code' : Code}
    {handler : Handler} {asks : Catch} (hcode : method.code = some code)
    (hattributes : code'.attributes = code.attributes)
    (hhandlers : code'.handlers = code.handlers.push handler) (hthrows : edit.throws? = none)
    (hcatch : edit.catch? = some asks) (means : asks.Means pool handler.catchType) :
    { method with code := some code' }.Reflects pool (asked ++ [edit]) where
  name := h.name
  descriptor := h.descriptor
  attributes := h.attributes
  throws := by
    rw [filterMap_concat_none hthrows]
    exact h.throws
  nested other hother := by
    obtain rfl := Option.some.inj hother
    rw [hattributes]
    exact h.nested code hcode
  catches other hother := by
    obtain rfl := Option.some.inj hother
    rw [List.filterMap_append, List.filterMap_cons_some hcatch, List.filterMap_nil, hhandlers,
      Array.toList_push, List.map_append]
    exact List.rel_append (h.catches code hcode) (.cons means .nil)
  unfinished := h.unfinished

/-- One more declared exception, unless it was declared before.  Entries and constants of a
pool determine each other, so the entry is new if and only if the name is. -/
theorem Reflects.throw (hpool : pool.Invariant) (h : method.Reflects pool asked)
    {exception : BinaryName}
    {entry : Entry} (hentry : pool.constant? entry = some (.classNamed exception)) :
    { method with throws := if method.throws.contains entry then method.throws
        else method.throws ++ [entry] }.Reflects pool (asked ++ [Edit.addThrows exception]) where
  name := h.name
  descriptor := h.descriptor
  attributes := h.attributes
  throws := by
    -- The check compares entries; in terms of names it asks for an earlier declaration.
    have listed : entry ∈ method.throws ↔
        some (.classNamed exception) ∈ method.throws.map pool.constant? := by
      constructor
      · intro hmem
        exact hentry ▸ List.mem_map_of_mem hmem
      · intro hmem
        obtain ⟨other, hother, same⟩ := List.mem_map.mp hmem
        have unique := (hpool.lookup _ _).mpr same
        rw [(hpool.lookup _ _).mpr hentry] at unique
        exact Option.some.inj unique ▸ hother
    have known :
        method.throws.contains entry = true ↔ exception ∈ asked.filterMap Edit.throws? := by
      rw [List.contains_iff_mem, listed, h.throws]
      simp
    have declared : (asked ++ [Edit.addThrows exception]).filterMap Edit.throws? =
        asked.filterMap Edit.throws? ++ [exception] := by
      rw [List.filterMap_append]
      rfl
    dsimp only
    rw [declared, eraseDups_concat]
    by_cases again : exception ∈ asked.filterMap Edit.throws?
    · rw [if_pos again, if_pos (known.mpr again), h.throws]
    · rw [if_neg again, if_neg fun repeats => again (known.mp repeats), List.map_append, h.throws,
        List.map_append, List.map_append, List.map_singleton, hentry]
      rfl
  nested := h.nested
  catches := by
    rw [filterMap_concat_none rfl]
    exact h.catches
  unfinished := h.unfinished

/-- Handlers and attributes of the code stay when an instruction is pushed. -/
theorem place_ok {position : Option Nat} {instruction : SourceInstruction} {code code' : Code}
    {answer : Nat}
    (run : (match position with
      | none => Code.append instruction
      | some position => do
        Code.set position instruction
        return position : Code.Action Nat) code = .ok answer code') :
    code'.attributes = code.attributes ∧ code'.handlers = code.handlers := by
  cases position with
  | none =>
    cases run
    exact ⟨rfl, rfl⟩
  | some position =>
    obtain ⟨_, first, -⟩ := Attempt.bind_pure_eq_ok.mp run
    have edited : (Code.Edit.set position instruction).perform code = .ok .done code' :=
      Attempt.bind_pure_eq_ok.mpr ⟨(), first, rfl⟩
    obtain ⟨hattributes, -, hhandlers⟩ := Code.perform_ok edited
    exact ⟨hattributes, hhandlers⟩

theorem Reflects.perform_code {edit : Code.Edit} {reply : Reply} (h : method.Reflects pool asked)
    (run : (Edit.code edit).perform (method, pool) = .ok reply (method', pool')) :
    Grown pool pool' ∧ method'.Reflects pool' (asked ++ [.code edit]) ∧ reply ≠ .absent := by
  obtain ⟨rfl, -, code, code', hcode, hedit, rfl⟩ := onCode_eq_ok.mp run
  obtain ⟨hattributes, hreply, hhandlers⟩ := Code.perform_ok hedit
  refine ⟨.refl, ?_, hreply⟩
  have nested : code'.attributes.Sound pool' := hattributes ▸ h.nested code hcode
  cases edit with
  | addHandler handler =>
    have means : (handler.catchType.elim Catch.everything .held).Means pool' handler.catchType := by
      cases handler.catchType with
      | none => rfl
      | some entry => rfl
    exact h.handle hcode hattributes hhandlers rfl rfl means
  | append _ | set _ _ | freshLabel | placeLabel _ | setMaxStack _ | setMaxLocals _ =>
    exact (h.recode hcode nested hhandlers).skip rfl rfl

theorem Reflects.perform_push {constant : Constant} {position : Option Nat} {reply : Reply}
    (hpool : pool.Invariant) (h : method.Reflects pool asked)
    (run : (Edit.push constant position).perform (method, pool) = .ok reply (method', pool')) :
    Grown pool pool' ∧ method'.Reflects pool' (asked ++ [.push constant position]) ∧
      reply ≠ .absent := by
  obtain ⟨answer, body, rfl⟩ := Attempt.bind_pure_eq_ok.mp run
  obtain ⟨_, ⟨method₁, pool₁⟩, hcheck, rest⟩ := Attempt.bind_eq_ok.mp body
  obtain ⟨rfl, rfl, -⟩ := checkCode_ok hcheck
  obtain ⟨instruction, ⟨method₂, pool₂⟩, first, second⟩ := Attempt.bind_eq_ok.mp rest
  obtain ⟨rfl, hpush⟩ := MemberAction.onPool_eq_ok.mp first
  obtain ⟨rfl, -, code, code', hcode, hplace, rfl⟩ := onCode_eq_ok.mp second
  obtain ⟨hattributes, hhandlers⟩ := place_ok hplace
  have grown := ((Instruction.interns_push constant hpool).ok _ _ hpush).1
  have kept := h.mono grown.extends
  have nested : code'.attributes.Sound pool' := hattributes ▸ kept.nested code hcode
  exact ⟨grown, (kept.recode hcode nested hhandlers).skip rfl rfl, nofun⟩

theorem Reflects.perform_addHandler {start stop handler : Target} {catchName : Option BinaryName}
    {reply : Reply} (hpool : pool.Invariant) (h : method.Reflects pool asked)
    (run : (Edit.addHandler start stop handler catchName).perform (method, pool) =
      .ok reply (method', pool')) :
    Grown pool pool' ∧
      method'.Reflects pool' (asked ++ [.addHandler start stop handler catchName]) ∧
      reply ≠ .absent := by
  obtain ⟨answer, body, rfl⟩ := Attempt.bind_pure_eq_ok.mp run
  obtain ⟨_, ⟨method₁, pool₁⟩, hcheck, rest⟩ := Attempt.bind_eq_ok.mp body
  obtain ⟨rfl, rfl, -⟩ := checkCode_ok hcheck
  cases catchName with
  | none =>
    change onCode (Code.addHandler ⟨start, stop, handler, none⟩) (method₁, pool₁) = _ at rest
    obtain ⟨rfl, -, code, code', hcode, hadd, rfl⟩ := onCode_eq_ok.mp rest
    cases hadd
    exact ⟨.refl, h.handle hcode rfl rfl rfl rfl rfl, nofun⟩
  | some name =>
    obtain ⟨catchType, ⟨method₂, pool₂⟩, first, second⟩ := Attempt.bind_eq_ok.mp rest
    obtain ⟨entry, hentry, rfl⟩ := Attempt.map_eq_ok.mp first
    obtain ⟨rfl, hclass⟩ := MemberAction.onPool_eq_ok.mp hentry
    obtain ⟨rfl, -, code, code', hcode, hadd, rfl⟩ := onCode_eq_ok.mp second
    cases hadd
    obtain ⟨grown, present⟩ := (Pool.interns_add _ hpool).ok _ _ hclass
    have kept := h.mono grown.extends
    exact ⟨grown, kept.handle hcode rfl rfl rfl rfl ⟨entry, rfl, present⟩, nofun⟩

theorem Reflects.perform_addThrows {exception : BinaryName} {reply : Reply}
    (hpool : pool.Invariant) (h : method.Reflects pool asked)
    (run : (Edit.addThrows exception).perform (method, pool) = .ok reply (method', pool')) :
    Grown pool pool' ∧ method'.Reflects pool' (asked ++ [.addThrows exception]) ∧
      reply ≠ .absent := by
  obtain ⟨_, body, rfl⟩ := Attempt.bind_pure_eq_ok.mp run
  rw [addThrows, whileOpen_of_open h.unfinished] at body
  obtain ⟨entry, ⟨method₁, pool₁⟩, first, second⟩ := Attempt.bind_eq_ok.mp body
  obtain ⟨rfl, hclass⟩ := MemberAction.onPool_eq_ok.mp first
  obtain ⟨grown, present⟩ := (Pool.interns_add _ hpool).ok _ _ hclass
  have thrown := (h.mono grown.extends).throw (grown.invariant hpool) present
  dsimp only at second
  split at second
  · rename_i again
    cases second
    rw [if_pos again] at thrown
    exact ⟨grown, thrown, nofun⟩
  · rename_i new
    cases second
    rw [if_neg new] at thrown
    exact ⟨grown, thrown, nofun⟩

/-- Putting an attribute into the method's container. -/
theorem putAttribute_ok {name : String} {value : AttributeValue} (hpool : pool.Invariant)
    (h : method.attributes.Sound pool)
    (run : putAttribute name value (method, pool) = .ok () (method', pool')) :
    Grown pool pool' ∧ ∃ entry,
      method' = { method with attributes := method.attributes.put name entry value } ∧
      method'.attributes.Sound pool' := by
  unfold putAttribute at run
  dsimp only at run
  split at run
  · rename_i attributes pool₁ hadd
    cases run
    obtain ⟨grown, entry, rfl, sound⟩ := (Attributes.interns_add hpool h).ok attributes _ hadd
    exact ⟨grown, entry, rfl, sound⟩
  · cases run

theorem Reflects.perform_addAttribute {name : String} {value : AttributeValue} {reply : Reply}
    (hpool : pool.Invariant) (h : method.Reflects pool asked)
    (run : (Edit.addAttribute name value).perform (method, pool) = .ok reply (method', pool')) :
    Grown pool pool' ∧ method'.Reflects pool' (asked ++ [.addAttribute name value]) ∧
      reply ≠ .absent := by
  rw [Edit.perform, whileOpen_of_open h.unfinished] at run
  obtain ⟨_, body, rfl⟩ := Attempt.bind_pure_eq_ok.mp run
  obtain ⟨grown, entry, rfl, sound⟩ := putAttribute_ok hpool h.attributes body
  have kept := h.mono grown.extends
  have put : { method with attributes := method.attributes.put name entry value }.Reflects pool'
      asked := { kept with attributes := sound }
  exact ⟨grown, put.skip rfl rfl, nofun⟩

theorem Reflects.perform_addCodeAttribute {name : String} {value : AttributeValue} {reply : Reply}
    (hpool : pool.Invariant) (h : method.Reflects pool asked)
    (run : (Edit.addCodeAttribute name value).perform (method, pool) = .ok reply (method', pool')) :
    Grown pool pool' ∧ method'.Reflects pool' (asked ++ [.addCodeAttribute name value]) ∧
      reply ≠ .absent := by
  obtain ⟨_, body, rfl⟩ := Attempt.bind_pure_eq_ok.mp run
  obtain ⟨_, ⟨method₁, pool₁⟩, hcheck, rest⟩ := Attempt.bind_eq_ok.mp body
  obtain ⟨rfl, rfl, -⟩ := checkCode_ok hcheck
  dsimp only at rest
  split at rest
  · cases rest
  · rename_i code hcode
    split at rest
    · rename_i attributes pool₂ hadd
      cases rest
      obtain ⟨grown, entry, -, sound⟩ :=
        (Attributes.interns_add hpool (h.nested code hcode)).ok attributes _ hadd
      have kept := h.mono grown.extends
      have recoded : { method₁ with code := some { code with attributes } }.Reflects pool' asked :=
        kept.recode hcode sound rfl
      exact ⟨grown, recoded.skip rfl rfl, nofun⟩
    · cases rest

/-- **An accepted edit** leaves a method that reflects it. -/
theorem Reflects.perform_ok {edit : Edit} {reply : Reply} (hpool : pool.Invariant)
    (h : method.Reflects pool asked)
    (run : edit.perform (method, pool) = .ok reply (method', pool')) :
    Grown pool pool' ∧ method'.Reflects pool' (asked ++ [edit]) ∧ reply ≠ .absent := by
  cases edit with
  | code edit => exact h.perform_code run
  | push constant position => exact h.perform_push hpool run
  | addHandler start stop handler catchName => exact h.perform_addHandler hpool run
  | addThrows exception => exact h.perform_addThrows hpool run
  | addAttribute name value => exact h.perform_addAttribute hpool run
  | addCodeAttribute name value => exact h.perform_addCodeAttribute hpool run
  | intern constant =>
    obtain ⟨entry, body, rfl⟩ := Attempt.bind_pure_eq_ok.mp run
    obtain ⟨rfl, hadd⟩ := MemberAction.onPool_eq_ok.mp body
    have grown := ((Pool.interns_add constant hpool).ok _ _ hadd).1
    exact ⟨grown, (h.mono grown.extends).skip rfl rfl, nofun⟩

/-- **A refused edit** leaves the method as it was. -/
theorem perform_error {edit : Edit} {cause : Error} (hpool : pool.Invariant)
    (run : edit.perform (method, pool) = .error cause (method', pool')) :
    Grown pool pool' ∧ method' = method := by
  obtain ⟨⟨same, draws⟩, -⟩ := fails_perform edit run
  exact ⟨(draws hpool).mono fun _ _ => trivial, same⟩

end Method

end JvmAsm
