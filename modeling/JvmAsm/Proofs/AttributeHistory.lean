import JvmAsm.Proofs.AssemblyAcceptance
import JvmAsm.Proofs.FrozenClasses
import JvmAsm.Proofs.IndexLookup
import JvmAsm.Proofs.WriteLog

/-! # Containers of attributes are ordered maps

A container shares its pool with everything else in the class, and an addition can fail
after it has interned the name.  So a history of a container is one of the container and
the pool together: additions, and whatever else happens to the pool.  Compared with the
log of the additions that succeeded, a container has their names in the order of their
first additions, and under each name what was added last (`Mirrors`); from this and from
what the pool knows, it follows how the attributes are written (`OrderedMap`).

A method does nothing to its container but add to it.  So each event in the life of a
method is a history of its container (`Method.Carries`), and what holds of all histories
of containers holds of the container of a method. -/

namespace JvmAsm

open Check (Passes)

/-! ## Containers -/

namespace Attributes

variable {attributes : Attributes} {pool pool' : Pool} {log : WriteLog String AttributeValue}
  {name : String} {entry : Entry} {value : AttributeValue}

/-- One change of a container or of the pool that it shares.  A structured attribute is added as
the bytes of its encoding. -/
inductive Edit where
  | add (name : String) (value : AttributeValue)
  | pool (edit : Pool.Edit)

/-- Performs an edit.  An addition that fails leaves the container alone, but not the pool. -/
def step (s : Attributes × Pool) : Edit → Attributes × Pool
  | .add name value =>
    match s.1.add name value s.2 with
    | .ok attributes pool => (attributes, pool)
    | .error _ pool => (s.1, pool)
  | .pool edit => (s.1, edit.perform.after s.2)

/-- What an edit adds to the container. -/
def Edit.accepted (s : Attributes × Pool) : Edit → WriteLog String AttributeValue
  | .add name value =>
    match s.1.add name value s.2 with
    | .ok _ _ => [(name, value)]
    | .error _ _ => []
  | .pool _ => []

/-- The container and the pool after a history, whatever failed on the way. -/
def after (s : Attributes × Pool) (history : List Edit) : Attributes × Pool :=
  history.foldl step s

/-- The additions of a history that succeeded. -/
def accepted (s : Attributes × Pool) : List Edit → WriteLog String AttributeValue
  | [] => []
  | edit :: later => edit.accepted s ++ accepted (step s edit) later

/-! ### Putting a payload under a name -/

/-- The names, in order. -/
def names (attributes : Attributes) : List String := attributes.entries.map NamedAttribute.name

theorem names_replace : (attributes.replace name value).names = attributes.names := by
  unfold names replace
  rw [List.map_map]
  refine List.map_congr_left fun named _ => ?_
  dsimp only [Function.comp]
  split <;> rfl

/-- A name keeps its place, or is the last one. -/
theorem names_put : (attributes.put name entry value).names =
    if name ∈ attributes.names then attributes.names else attributes.names ++ [name] := by
  have present : attributes.contains name = true ↔ name ∈ attributes.names :=
    contains_iff.trans List.mem_map.symm
  unfold put
  by_cases known : name ∈ attributes.names
  · rw [if_pos (present.mpr known), if_pos known, names_replace]
  · rw [if_neg fun contained => known (present.mp contained), if_neg known]
    exact List.map_append

/-- If names are distinct, what is found under a name is all there is. -/
theorem filter_of_get? (distinct : attributes.names.Nodup)
    (found : attributes.get? name = some value) :
    ∃ entry, attributes.entries.filter (fun named => named.name == name) =
      [⟨name, entry, value⟩] := by
  obtain ⟨entries⟩ := attributes
  unfold get? at found
  unfold names at distinct
  dsimp only at distinct found ⊢
  induction entries with
  | nil => cases found
  | cons named entries ih =>
    obtain ⟨absent, distinct⟩ := List.nodup_cons.mp distinct
    by_cases here : named.name = name
    · rw [List.find?_cons_of_pos (by simpa using here)] at found
      rw [List.filter_cons_of_pos (by simpa using here)]
      have others : entries.filter (fun named => named.name == name) = [] := by
        refine List.filter_eq_nil_iff.mpr fun other hother same => absent ?_
        rw [here, ← beq_iff_eq.mp same]
        exact List.mem_map_of_mem hother
      obtain ⟨_, entry, _⟩ := named
      obtain rfl := Option.some.inj found
      obtain rfl := here
      exact ⟨entry, by rw [others]⟩
    · rw [List.find?_cons_of_neg (by simpa using here)] at found
      rw [List.filter_cons_of_neg (by simpa using here)]
      exact ih distinct found

/-! ### Histories -/

/-- **The container holds what was written last**, in the order of the first writes. -/
structure Mirrors (pool : Pool) (log : WriteLog String AttributeValue) (attributes : Attributes) :
    Prop where
  sound : attributes.Sound pool
  names : attributes.names = log.keys
  last : ∀ name, attributes.get? name = log.last? name

theorem mirrors_empty (pool : Pool) : Mirrors pool [] empty where
  sound := sound_empty pool
  names := rfl
  last _ := rfl

theorem Mirrors.nodup_names (h : Mirrors pool log attributes) : attributes.names.Nodup := by
  rw [h.names]
  exact log.nodup_keys

theorem Mirrors.mono (h : Mirrors pool log attributes) (more : pool.Extends pool') :
    Mirrors pool' log attributes :=
  { h with sound := h.sound.mono more }

/-- **One write more in the log, one payload put.** -/
theorem Mirrors.put (h : Mirrors pool log attributes)
    (sound : (attributes.put name entry value).Sound pool') :
    Mirrors pool' (log ++ [(name, value)]) (attributes.put name entry value) where
  sound := sound
  names := by rw [names_put, h.names, WriteLog.keys_concat]
  last other := by
    rw [WriteLog.last?_concat]
    by_cases same : other = name
    · rw [if_pos same, same, get?_put_self]
    · rw [if_neg same, get?_put_of_ne same, h.last]

/-- **One edit.** -/
theorem Mirrors.step (hpool : pool.Invariant) (h : Mirrors pool log attributes) (edit : Edit) :
    (step (attributes, pool) edit).2.Invariant ∧
      Mirrors (step (attributes, pool) edit).2 (log ++ edit.accepted (attributes, pool))
        (step (attributes, pool) edit).1 := by
  cases edit with
  | add name value =>
    have interns : Pool.Interns (attributes.add name value) pool _ := interns_add hpool h.sound
    unfold Attributes.step Edit.accepted
    dsimp only
    cases run : attributes.add name value pool with
    | ok attributes' pool' =>
      obtain ⟨grown, entry, rfl, sound⟩ := interns.ok _ _ run
      exact ⟨grown.invariant hpool, h.put sound⟩
    | error cause pool' =>
      have grown := interns.error cause pool' run
      dsimp only
      rw [List.append_nil]
      exact ⟨grown.invariant hpool, h.mono grown.extends⟩
  | pool edit =>
    refine ⟨hpool.perform edit, ?_⟩
    rw [Edit.accepted, List.append_nil]
    exact h.mono (Pool.extends_perform hpool edit)

/-- **A whole history.** -/
theorem Mirrors.after (hpool : pool.Invariant) (h : Mirrors pool log attributes)
    (history : List Edit) :
    (after (attributes, pool) history).2.Invariant ∧
      Mirrors (after (attributes, pool) history).2 (log ++ accepted (attributes, pool) history)
        (after (attributes, pool) history).1 := by
  induction history generalizing attributes pool log with
  | nil =>
    rw [accepted, List.append_nil]
    exact ⟨hpool, h⟩
  | cons edit later ih =>
    obtain ⟨hpool', h'⟩ := h.step hpool edit
    rw [accepted, ← List.append_assoc]
    exact ih hpool' h'

/-! ### Writing -/

/-- The payload of an attribute as it is written: its own bytes, or the index of a constant, high
byte first. -/
def Shows (pool : Pool) : AttributeValue → Bytes → Prop
  | .bytes bytes, info => info = bytes
  | .constant entry, info => ∃ index, pool.index entry = .ok index ∧
      info = [UInt8.ofNat (index.toNat / 256), UInt8.ofNat (index.toNat % 256)]

theorem encode_index (index : UInt16) :
    encode index = [UInt8.ofNat (index.toNat / 256), UInt8.ofNat (index.toNat % 256)] := by
  have low : UInt8.ofNat (index.toNat % 256) = UInt8.ofNat index.toNat := UInt8.ofNat_mod_size
  have high : index.toNat >>> 8 = index.toNat / 256 := Nat.shiftRight_eq_div_pow _ 8
  rw [low, ← high]
  rfl

theorem shows_of_payload {info : Bytes} (h : payload pool value = .ok info) :
    Shows pool value info := by
  cases value with
  | bytes bytes => exact (Except.ok.inj h).symm
  | constant entry =>
    obtain ⟨index, known, rfl⟩ := payload_constant_eq_ok.mp h
    exact ⟨index, known, encode_index index⟩

/-- The attribute is written under the index of its name, with its payload. -/
def Written (pool : Pool) (named : NamedAttribute) (seen : Attribute) : Prop :=
  pool.indexOf (.utf8 named.name) = .ok seen.nameIndex ∧ Shows pool named.value seen.info

/-- **A container is an ordered map**: from names to payloads, of what was written last, in the
order of the first writes; and it is written as such. -/
structure OrderedMap (pool : Pool) (log : WriteLog String AttributeValue)
    (attributes : Attributes) :
    Prop where
  distinct : attributes.names.Nodup
  order : attributes.names = log.keys
  few : attributes.count ≤ 65535
  last : ∀ name, attributes.get? name = log.last? name
  entries : ∀ named ∈ attributes.entries, pool.get? (.utf8 named.name) = some named.entry
  /-- With indices fixed, all that can be missing are constants in the place of payloads. -/
  resolves : pool.state ≠ .growing → (Passes (attributes.resolve pool) ↔
    ∀ named ∈ attributes.entries, ∀ entry, named.value = .constant entry → pool.Has entry)
  written : pool.state ≠ .growing → ∀ resolved, attributes.resolve pool = .ok resolved →
    List.Forall₂ (Written pool) attributes.entries resolved

/-- What is written shows the log: names by first write, payloads by last. -/
theorem Mirrors.orderedMap (hpool : pool.Invariant) (h : Mirrors pool log attributes) :
    OrderedMap pool log attributes where
  distinct := h.nodup_names
  order := h.names
  few := h.sound.few
  last := h.last
  entries named hnamed := (hpool.lookup _ _).mpr (h.sound.named named hnamed)
  resolves settled := by
    rw [passes_resolve hpool settled]
    refine forall₂_congr fun named hnamed => ?_
    rw [and_iff_right ⟨_, h.sound.named named hnamed⟩]
  written settled resolved run := by
    have each := (List.forall₂_and_left _ _).mpr ⟨h.sound.named, Check.forall₂_of_mapM run⟩
    refine each.imp ?_
    rintro named seen ⟨present, hseen⟩
    obtain ⟨known, shown⟩ := resolveOne_eq_ok hseen
    exact ⟨(Pool.indexOf_eq_ok_iff hpool settled).mpr ⟨_, present, known⟩, shows_of_payload shown⟩

/-! ### Containers of members -/

/-- One container and its pool come from another by some history. -/
def Reaches (s s' : Attributes × Pool) : Prop := ∃ history, after s history = s'

instance : IsPreorder (Attributes × Pool) Reaches where
  refl _ := ⟨[], rfl⟩
  trans _ _ _ := by
    rintro ⟨history, rfl⟩ ⟨later, rfl⟩
    exact ⟨history ++ later, List.foldl_append⟩

/-- What can be reached from an empty container mirrors some log. -/
theorem Reaches.mirrors {s : Attributes × Pool} (hpool : pool.Invariant)
    (h : Reaches (empty, pool) s) : s.2.Invariant ∧ ∃ log, Mirrors s.2 log s.1 := by
  obtain ⟨history, rfl⟩ := h
  obtain ⟨invariant, mirrors⟩ := (mirrors_empty pool).after hpool history
  exact ⟨invariant, _, mirrors⟩

end Attributes

/-! ## Methods -/

namespace Method

variable {α : Type} {method method' : Method} {pool pool' : Pool}

/-- What can happen to a method, and to the pool of its class. -/
inductive Event where
  | edit (edit : Edit)
  | pool (edit : Pool.Edit)
  | finalize

/-- The method and the pool after an event, whether it succeeds or not. -/
def step (s : Method × Pool) : Event → Method × Pool
  | .edit edit => edit.perform.after s
  | .pool edit => (s.1, edit.perform.after s.2)
  | .finalize => finalize.after s

/-- The method and the pool after some events. -/
def after (s : Method × Pool) (events : List Event) : Method × Pool := events.foldl step s

/-- **For the container, what happens to a method is a history of its own.** -/
def Carries (s s' : Method × Pool) : Prop :=
  Attributes.Reaches (s.1.attributes, s.2) (s'.1.attributes, s'.2)

instance : IsPreorder (Method × Pool) Carries where
  refl s := refl_of Attributes.Reaches (s.1.attributes, s.2)
  trans _ _ _ := trans_of Attributes.Reaches

theorem carries_putAttribute (name : String) (value : AttributeValue) :
    (putAttribute name value).Keeps Carries := by
  rintro ⟨method, pool⟩
  refine ⟨[.add name value], ?_⟩
  change Attributes.step (method.attributes, pool) (.add name value) = _
  unfold Attempt.after Attributes.step putAttribute
  dsimp only
  cases method.attributes.add name value pool with
  | ok attributes pool' => rfl
  | error e pool' => rfl

theorem carries_add (constant : Constant) :
    (MemberAction.onPool (Pool.add constant) : Action Entry).Keeps Carries := by
  rintro ⟨method, pool⟩
  refine ⟨[.pool (.add constant)], ?_⟩
  rw [MemberAction.after_onPool]
  exact congrArg (Prod.mk method.attributes) (Attempt.after_bind_pure _ _ pool)

/-- The three kinds of change of a method, each a step of its container. -/
theorem steady_carries : Steady Carries where
  add := carries_add
  put := carries_putAttribute
  rest method pool _ _ _ := refl_of Attributes.Reaches (method.attributes, pool)

theorem carries_step (s : Method × Pool) (event : Event) : Carries s (step s event) := by
  cases event with
  | edit edit => exact steady_carries.perform edit s
  | pool edit => exact ⟨[.pool edit], rfl⟩
  | finalize => exact steady_carries.finalize s

theorem carries_after (s : Method × Pool) (events : List Event) : Carries s (after s events) := by
  induction events generalizing s with
  | nil => exact refl_of Carries s
  | cons event later ih => exact trans_of Carries (carries_step s event) (ih (step s event))

/-! ### Finalized methods -/

/-- Nothing changes a method that is finalized. -/
theorem step_of_finalized {s : Method × Pool} (closed : s.1.finalized = true) (event : Event) :
    (step s event).1 = s.1 := by
  obtain ⟨method, pool⟩ := s
  cases event with
  | edit edit =>
    by_cases interns : ∃ constant, edit = .intern constant
    · obtain ⟨constant, rfl⟩ := interns
      rw [step, Edit.perform, Attempt.after_bind_pure, MemberAction.after_onPool]
    · rw [step, (refuses_alteration closed (not_exists.mp interns)).after_eq]
  | pool edit => rfl
  | finalize =>
    have run : finalize (method, pool) = .ok () (method, pool) := if_pos closed
    rw [step, Attempt.after_of_ok run]

/-- Nothing reaches a finalized method, by induction over the events. -/
theorem after_of_finalized {s : Method × Pool} (closed : s.1.finalized = true)
    (events : List Event) : (after s events).1 = s.1 := by
  induction events generalizing s with
  | nil => rfl
  | cons event later ih =>
    have same := step_of_finalized closed event
    exact (ih (same ▸ closed)).trans same

theorem attributes_of_declare {name : UnqualifiedName} {descriptor : MethodDescriptor}
    {flags : AccessFlags .method} {inInterface : Bool}
    (run : declare name descriptor flags inInterface pool = .ok method pool') :
    method.attributes = .empty := by
  unfold declare at run
  cases hflags : flags.check with
  | error cause =>
    rw [hflags] at run
    cases run
  | ok flags =>
    rw [hflags] at run
    dsimp only at run
    split at run
    · cases run
    · obtain ⟨nameEntry, pool₁, -, run⟩ := Attempt.bind_eq_ok.mp run
      obtain ⟨descriptorEntry, pool₂, -, run⟩ := Attempt.bind_eq_ok.mp run
      obtain ⟨rfl, -⟩ := Attempt.pure_eq_ok.mp run
      rfl

/-- **A method with code has one attribute of it**, once it is finalized. -/
theorem code_of_finalize {start : Pool} (hstart : start.Invariant)
    (reached : Attributes.Reaches (.empty, start) (method.attributes, pool))
    (unfinished : method.finalized = false) {code : Code} (hcode : method.code = some code)
    (run : finalize (method, pool) = .ok () (method', pool')) :
    ∃ payload entry, code.assemble pool' = .ok payload ∧
      ∀ later, (after (method', pool') later).1.attributes.entries.filter
        (fun named => named.name == codeName) = [⟨codeName, entry, .bytes (encode payload)⟩] := by
  obtain ⟨hpool, log, mirrors⟩ := reached.mirrors hstart
  obtain ⟨-, finished⟩ := Ready.finished hpool ⟨unfinished, mirrors.sound⟩ run
  obtain ⟨payload, assembled, found⟩ := finished.code hcode
  -- Finalizing only adds to the container, so its names are still distinct.
  have carried : Carries (method, pool) (method', pool') := steady_carries.finalize.ok run
  obtain ⟨-, log', mirrors'⟩ := (trans_of Attributes.Reaches reached carried).mirrors hstart
  obtain ⟨entry, only⟩ := Attributes.filter_of_get? mirrors'.nodup_names found
  refine ⟨payload, entry, assembled, fun later => ?_⟩
  rw [after_of_finalized (finalized_of_finalize run)]
  exact only

end Method

/-- **Containers of attributes are ordered maps.**

* Whatever is added to a container and done to its pool, and whatever of it fails, the container is
  the ordered map of the additions that succeeded.
* So whatever was done to a method that has code, also to its attributes: once it was finalized, it
  has one attribute for code, with the code assembled, and keeps it.  Only the first attempt
  finalizes a method, and it has to succeed. -/
theorem containers_are_ordered_maps {start : Pool} (reached : start.Reachable) :
    (∀ history, Attributes.OrderedMap (Attributes.after (.empty, start) history).2
      (Attributes.accepted (.empty, start) history) (Attributes.after (.empty, start) history).1) ∧
    ∀ name descriptor flags inInterface declared pool,
      Method.declare name descriptor flags inInterface start = .ok declared pool →
      ∀ events code final pool',
        (Method.after (declared, pool) events).1.code = some code →
        (Method.after (declared, pool) events).1.finalized = false →
        Method.finalize (Method.after (declared, pool) events) = .ok () (final, pool') →
        ∃ payload entry, code.assemble pool' = .ok payload ∧
          ∀ later, (Method.after (final, pool') later).1.attributes.entries.filter
            (fun named => named.name == codeName) =
              [⟨codeName, entry, .bytes (encode payload)⟩] := by
  have hstart := reached.invariant
  constructor
  · intro history
    obtain ⟨hpool, mirrors⟩ := (Attributes.mirrors_empty start).after hstart history
    exact mirrors.orderedMap hpool
  · intro name descriptor flags inInterface declared pool run events code final pool' hcode
      unfinished
    have hpool := ((Method.interns_declare hstart).ok declared pool run).1.invariant hstart
    have carried := Method.carries_after (declared, pool) events
    unfold Method.Carries at carried
    rw [Method.attributes_of_declare run] at carried
    exact Method.code_of_finalize hpool carried unfinished hcode

namespace Sample

/-- Two attributes, the first of which is replaced; the second stands for a constant that does not
exist. -/
def replacing : List Attributes.Edit :=
  [.add "B" (.bytes [1]), .add "A" (.constant ⟨9⟩), .add "B" (.bytes [2]), .pool .stabilize]

/-- A method without parameters, as it is declared. -/
def plain : Method :=
  ⟨methodName, ⟨[], none⟩, ⟨0x9⟩, ⟨0⟩, ⟨1⟩, some (Code.empty 0), [], .empty, false⟩

def plainPool : Pool := (Method.declare methodName ⟨[], none⟩ ⟨0x9⟩ false).after .empty

/-- The method with an attribute of its own under the name of the one for code. -/
def posing : Method × Pool :=
  Method.after (plain, plainPool) [.edit (.addAttribute codeName (.bytes [7])),
    .edit (.code (.append ⟨Opcode.ret, .none⟩)), .pool .stabilize]

def returning : Code := { Code.empty 0 with instructions := #[⟨Opcode.ret, .none⟩] }

theorem posing_ready : posing.1.code = some returning ∧ posing.1.finalized = false := by
  constructor
  · cbv
  · cbv

theorem finalize_posing : Method.finalize posing = .ok () (Method.finalize.after posing) := by
  obtain ⟨hcode, unfinished⟩ := posing_ready
  have assembled : returning.assemble posing.2 = .ok ⟨16, 0, ⟨[177]⟩, [], []⟩ := by decide +kernel
  have run := Method.finalize_of_assemble unfinished hcode assembled
  unfold Attempt.after
  rw [run]
  cbv

/-- The attribute that was replaced stays first, and the missing constant keeps the container from
being written.  The method loses the attribute that posed as its code. -/
theorem replacing_and_posing :
    Pool.empty.Reachable ∧
      (Attributes.after (.empty, .empty) replacing).1.names = ["B", "A"] ∧
      (Attributes.after (.empty, .empty) replacing).1.get? "B" = some (.bytes [2]) ∧
      ¬ Passes ((Attributes.after (.empty, .empty) replacing).1.resolve
        (Attributes.after (.empty, .empty) replacing).2) ∧
      Method.declare methodName ⟨[], none⟩ ⟨0x9⟩ false .empty = .ok plain plainPool ∧
      Method.finalize posing = .ok () (Method.finalize.after posing) ∧
      ∃ payload entry, returning.assemble (Method.finalize.after posing).2 = .ok payload ∧
        (Method.finalize.after posing).1.attributes.entries.filter
          (fun named => named.name == codeName) = [⟨codeName, entry, .bytes (encode payload)⟩] := by
  have reached : Pool.empty.Reachable := ⟨[], rfl⟩
  have accepted : Attributes.accepted (.empty, .empty) replacing =
      [("B", .bytes [1]), ("A", .constant ⟨9⟩), ("B", .bytes [2])] := by cbv
  have entries : (Attributes.after (.empty, .empty) replacing).1.entries =
      [⟨"B", ⟨0⟩, .bytes [2]⟩, ⟨"A", ⟨1⟩, .constant ⟨9⟩⟩] := by cbv
  have stable : (Attributes.after (.empty, .empty) replacing).2.state = .stable := by cbv
  have missing : (Attributes.after (.empty, .empty) replacing).2.constant? ⟨9⟩ = none := by cbv
  have declared :
      Method.declare methodName ⟨[], none⟩ ⟨0x9⟩ false .empty = .ok plain plainPool := by
    cbv
  obtain ⟨hcode, unfinished⟩ := posing_ready
  obtain ⟨ordered, methods⟩ := containers_are_ordered_maps reached
  have map := ordered replacing
  rw [accepted] at map
  refine ⟨reached, map.order.trans (by decide), (map.last "B").trans (by decide), ?_, declared,
    finalize_posing, ?_⟩
  · intro passes
    obtain ⟨constant, present⟩ :=
      (map.resolves (Pool.settled_of_state stable (by decide))).mp passes
      ⟨"A", ⟨1⟩, .constant ⟨9⟩⟩ (by rw [entries]; decide) ⟨9⟩ rfl
    cases missing.symm.trans present
  · obtain ⟨payload, entry, assembled, only⟩ :=
      methods _ _ _ _ _ _ declared _ _ _ _ hcode unfinished
      finalize_posing
    exact ⟨payload, entry, assembled, only []⟩

end Sample

end JvmAsm
