import JvmAsm.Attribute.Code
import JvmAsm.Proofs.Reading
import JvmAsm.Version

/-! # Writing loses nothing

A destination may give out in the middle of a file, and a file is handed to it in
hundreds of small pieces.  A piece could be lost or repeated around the failure.

`Writer.Faithful writer full` says what should happen instead, for every destination: with
enough room all of `full` is accepted, and with less the part of it that fits, no byte
more or less, before the failure is reported.  Handing over bytes in one piece is faithful
to them, and one faithful writer after the other is faithful to both together
(`Faithful.bind`), so it does not matter how a file is cut into pieces.

The values of a class file have one fixed form each, said once more by `encode`, and
their writers are faithful to it (`LawfulSerialize`). -/

namespace JvmAsm

namespace Sink

/-- An unlimited destination accepts everything. -/
theorem write_unlimited (bytes : Bytes) (accepted : Array UInt8) :
    write bytes ⟨accepted, none⟩ = (true, ⟨accepted ++ bytes.toArray, none⟩) := by
  induction bytes generalizing accepted with
  | nil => simp [write]
  | cons byte bytes ih =>
    rw [write, ih]
    simp

/-- A limited destination accepts the bytes that fit, and says whether these were all. -/
theorem write_limited (bytes : Bytes) (accepted : Array UInt8) (room : Nat) :
    write bytes ⟨accepted, some room⟩ =
      (decide (bytes.length ≤ room),
        ⟨accepted ++ (bytes.take room).toArray, some (room - bytes.length)⟩) := by
  induction bytes generalizing accepted room with
  | nil => simp [write]
  | cons byte bytes ih =>
    cases room with
    | zero => simp [write]
    | succ room =>
      rw [write, ih]
      simp

end Sink

namespace Writer

variable {α : Type} {writer : Writer} {full full' : Bytes}

/-- **Writes these bytes and loses none.**  Whatever was accepted before, a destination with enough
room accepts all of them, and one with less room as many as fit. -/
structure Faithful (writer : Writer) (full : Bytes) : Prop where
  unlimited : ∀ accepted, writer ⟨accepted, none⟩ = .ok () ⟨accepted ++ full.toArray, none⟩
  fits : ∀ accepted room, full.length ≤ room →
    writer ⟨accepted, some room⟩ = .ok () ⟨accepted ++ full.toArray, some (room - full.length)⟩
  refused : ∀ accepted room, room < full.length →
    writer ⟨accepted, some room⟩ =
      .error (.storage .full) ⟨accepted ++ (full.take room).toArray, some 0⟩

theorem faithful_put (bytes : Bytes) : (put bytes).Faithful bytes where
  unlimited accepted := by
    simp only [put, Sink.write_unlimited]
  fits accepted room enough := by
    simp only [put, Sink.write_limited, decide_eq_true enough, List.take_of_length_le enough]
  refused accepted room short := by
    have not_all : decide (bytes.length ≤ room) = false := decide_eq_false (by omega)
    have used_up : room - bytes.length = 0 := by omega
    simp only [put, Sink.write_limited, not_all, used_up]

theorem faithful_pure : Faithful (pure ()) [] where
  unlimited accepted := by simp [pure, EStateM.pure]
  fits accepted room _ := by simp [pure, EStateM.pure]
  refused accepted room short := absurd short (Nat.not_lt_zero room)

theorem append_both (accepted : Array UInt8) (bytes bytes' : Bytes) :
    accepted ++ bytes.toArray ++ bytes'.toArray = accepted ++ (bytes ++ bytes').toArray := by
  simp

/-- **One after the other, nothing is lost between them.** -/
theorem Faithful.bind {second : Writer} (h : writer.Faithful full) (h' : second.Faithful full') :
    Faithful (writer >>= fun _ => second) (full ++ full') where
  unlimited accepted := by
    refine Attempt.bind_eq_ok.mpr ⟨(), _, h.unlimited accepted, ?_⟩
    rw [h'.unlimited, append_both]
  fits accepted room enough := by
    rw [List.length_append] at enough
    refine Attempt.bind_eq_ok.mpr ⟨(), _, h.fits accepted room (by omega), ?_⟩
    rw [h'.fits _ _ (by omega), List.length_append, Nat.sub_sub, append_both]
  refused accepted room short := by
    rw [List.length_append] at short
    refine Attempt.bind_eq_error.mpr ?_
    -- The room gives out in the first part or in the second.
    by_cases enough : full.length ≤ room
    · refine .inr ⟨(), _, h.fits accepted room enough, ?_⟩
      rw [h'.refused _ _ (by omega), append_both, List.take_append, List.take_of_length_le enough]
    · refine .inl ?_
      rw [h.refused accepted room (by omega), List.take_append_of_le_length (by omega)]

theorem Faithful.forM {write : α → Writer} {bytes : α → Bytes} {elements : List α}
    (h : ∀ element ∈ elements, (write element).Faithful (bytes element)) :
    Faithful (elements.forM write) (elements.flatMap bytes) := by
  induction elements with
  | nil => exact faithful_pure
  | cons element elements ih =>
    rw [List.flatMap_cons]
    exact (h element List.mem_cons_self).bind
      (ih fun other hother => h other (List.mem_cons_of_mem element hother))

/-- There is one way to be faithful: no destination can tell the pieces. -/
theorem Faithful.eq_put (h : writer.Faithful full) : writer = put full := by
  have whole := faithful_put full
  funext ⟨accepted, room⟩
  cases room with
  | none => exact (h.unlimited accepted).trans (whole.unlimited accepted).symm
  | some room =>
    by_cases enough : full.length ≤ room
    · exact (h.fits accepted room enough).trans (whole.fits accepted room enough).symm
    · have short := Nat.lt_of_not_le enough
      exact (h.refused accepted room short).trans (whole.refused accepted room short).symm

theorem Faithful.contents_eq (h : writer.Faithful full) : writer.contents = full := by
  have run : writer .unbounded = .ok () ⟨#[] ++ full.toArray, none⟩ := h.unlimited #[]
  rw [contents, Attempt.after, run]
  simp

theorem put_append (bytes bytes' : Bytes) :
    put (bytes ++ bytes') = (put bytes >>= fun _ => put bytes') :=
  ((faithful_put bytes).bind (faithful_put bytes')).eq_put.symm

end Writer

/-! ## The forms of values -/

instance {α : Type} [Encode α] : Encode (List α) where
  encode values := Bytes.ofNat 2 values.length ++ values.flatMap encode

instance {kind : Declaration} : Encode (AccessFlags kind) where
  encode flags := encode flags.bits

instance : Encode Version where
  encode version := encode version.minor ++ encode version.major

instance : Encode Attribute where
  encode named :=
    encode named.nameIndex ++ Bytes.ofNat 4 named.info.length ++ named.info

instance : Encode ExceptionHandler where
  encode handler :=
    encode handler.startPc ++ encode handler.endPc ++ encode handler.handlerPc ++
      encode handler.catchType

instance : Encode Bytecode where
  encode code := Bytes.ofNat 4 code.bytes.length ++ code.bytes

instance : Encode CodeAttribute where
  encode payload :=
    encode payload.maxStack ++ encode payload.maxLocals ++ encode payload.code ++
      encode payload.exceptionTable ++ encode payload.attributes

instance : Encode Exceptions where
  encode exceptions := encode exceptions.indices

/-- Values are written in their form. -/
class LawfulSerialize (α : Type) [Encode α] [Serialize α] : Prop where
  faithful (value : α) : (serialize value).Faithful (encode value)

namespace LawfulSerialize

open Writer (Faithful faithful_put)

instance : LawfulSerialize UInt8 := ⟨fun _ => faithful_put _⟩
instance : LawfulSerialize UInt16 := ⟨fun _ => faithful_put _⟩
instance : LawfulSerialize UInt32 := ⟨fun _ => faithful_put _⟩
instance : LawfulSerialize UInt64 := ⟨fun _ => faithful_put _⟩
instance : LawfulSerialize Int8 := ⟨fun _ => faithful_put _⟩
instance : LawfulSerialize Int16 := ⟨fun _ => faithful_put _⟩
instance : LawfulSerialize Int32 := ⟨fun _ => faithful_put _⟩
instance : LawfulSerialize Int64 := ⟨fun _ => faithful_put _⟩

/-- A length is written modulo the range of its field. -/
theorem faithful_length16 (length : Nat) :
    (serialize (UInt16.ofNat length)).Faithful (Bytes.ofNat 2 length) := by
  rw [← Bytes.ofNat_mod 2 length]
  exact faithful (UInt16.ofNat length)

theorem faithful_length32 (length : Nat) :
    (serialize (UInt32.ofNat length)).Faithful (Bytes.ofNat 4 length) := by
  rw [← Bytes.ofNat_mod 4 length]
  exact faithful (UInt32.ofNat length)

instance {α : Type} [Encode α] [Serialize α] [LawfulSerialize α] : LawfulSerialize (List α) where
  faithful values := (faithful_length16 values.length).bind (.forM fun value _ => faithful value)

instance {kind : Declaration} : LawfulSerialize (AccessFlags kind) where
  faithful flags := faithful flags.bits

instance : LawfulSerialize Version where
  faithful version := (faithful version.minor).bind (faithful version.major)

instance : LawfulSerialize Attribute where
  faithful named := by
    have parts := (faithful named.nameIndex).bind
      ((faithful_length32 named.info.length).bind (faithful_put named.info))
    rwa [← List.append_assoc] at parts

instance : LawfulSerialize ExceptionHandler where
  faithful handler := by
    have parts := (faithful handler.startPc).bind ((faithful handler.endPc).bind
      ((faithful handler.handlerPc).bind (faithful handler.catchType)))
    rwa [← List.append_assoc, ← List.append_assoc] at parts

instance : LawfulSerialize Bytecode where
  faithful code := (faithful_length32 code.bytes.length).bind (faithful_put code.bytes)

instance : LawfulSerialize CodeAttribute where
  faithful payload := by
    have parts := (faithful payload.maxStack).bind ((faithful payload.maxLocals).bind
      ((faithful payload.code).bind ((faithful payload.exceptionTable).bind
        (faithful payload.attributes))))
    rwa [← List.append_assoc, ← List.append_assoc, ← List.append_assoc] at parts

instance : LawfulSerialize Exceptions where
  faithful exceptions := faithful exceptions.indices

end LawfulSerialize

/-- What a value is written as where there is no limit. -/
theorem contents_serialize {α : Type} [Encode α] [Serialize α] [LawfulSerialize α] (value : α) :
    (serialize value).contents = encode value :=
  (LawfulSerialize.faithful value).contents_eq

end JvmAsm
