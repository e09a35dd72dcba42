import JvmAsm.Proofs.ClassLifecycle

/-! # Writing to a destination that gives out

A destination may run out of room at any of the many small pieces in which a class file
is handed to it.  Then two things could go wrong: bytes could be lost or repeated around
the failure, and the class could be left in a state from which it is not written again.

The writer of a class is faithful to its file (`Class.faithful_write`), since all the
writers that it is made of are, so a destination has accepted the front of the file, as
far as there was room.  And the class itself changes only when it is prepared, which happens
before the first byte is handed over. -/

namespace JvmAsm.Class

open Writer (Faithful)

variable {cls final : Class} {full : Bytes}

/-- What a class that can be written sends, it sends again. -/
theorem toBytes_again (written : toBytes cls = .ok full final) :
    final.prepared = true ∧ toBytes final = .ok full final := by
  obtain ⟨hprepare, sent⟩ := toBytes_eq_ok written
  have prepared := prepared_of_prepareOnce hprepare
  refine ⟨prepared, ?_⟩
  rw [toBytes_of_prepareOnce (prepareOnce_of_prepared prepared), sent, Option.elim_none]

/-- **A class is written without a loss**, if it can be written. -/
theorem faithful_write (written : toBytes cls = .ok full final) : final.write.Faithful full := by
  obtain ⟨-, sent⟩ := toBytes_eq_ok written
  rw [write_eq, sent, Output.send_mk]
  exact Writer.faithful_put full

section

variable {sink sink' : Sink} (prepare : prepareOnce cls = .ok () final)

include prepare

/-- Writing a class is preparing it and then writing what was prepared. -/
theorem serialize_of_write_ok (write : final.write sink = .ok () sink') :
    serialize (cls, sink) = .ok () (final, sink') := by
  simp only [serialize, prepare, write]

theorem serialize_of_write_error {cause : Error} (write : final.write sink = .error cause sink') :
    serialize (cls, sink) = .error cause (final, sink') := by
  simp only [serialize, prepare, write]

end

/-- **A destination that gives out loses nothing.**  A class that can be written as `full` is
written to a destination with room for all of it; a destination with less room accepts the part of
`full` that fits before the failure is reported.  In both cases the class was prepared and is
written as `full` from then on.  The same holds of every value with a fixed form, of lists of them
and of lists of such lists: what a destination accepts is the front of the form that fits. -/
theorem limited_destination_loses_nothing (written : toBytes cls = .ok full final) :
    (∀ room, full.length ≤ room → serialize (cls, .limited room) =
      .ok () (final, ⟨full.toArray, some (room - full.length)⟩)) ∧
    (∀ room, room < full.length → serialize (cls, .limited room) =
      .error (.storage .full) (final, ⟨(full.take room).toArray, some 0⟩)) ∧
    (final.prepared = true ∧ toBytes final = .ok full final) ∧
    final.write.Faithful full ∧
    (LawfulSerialize UInt8 ∧ LawfulSerialize UInt16 ∧ LawfulSerialize UInt32 ∧
      LawfulSerialize UInt64 ∧ LawfulSerialize Int8 ∧ LawfulSerialize Int16 ∧
      LawfulSerialize Int32 ∧ LawfulSerialize Int64) ∧
    (∀ (α : Type) [Encode α] [Serialize α], LawfulSerialize α → LawfulSerialize (List α)) ∧
    (LawfulSerialize Version ∧ (∀ kind, LawfulSerialize (AccessFlags kind)) ∧
      LawfulSerialize Attribute ∧ LawfulSerialize ExceptionHandler ∧ LawfulSerialize Bytecode ∧
      LawfulSerialize CodeAttribute ∧ LawfulSerialize Exceptions) := by
  obtain ⟨hprepare, -⟩ := toBytes_eq_ok written
  have faithful := faithful_write written
  refine ⟨fun room enough => ?_, fun room short => ?_, toBytes_again written, faithful,
    ⟨inferInstance, inferInstance, inferInstance, inferInstance, inferInstance, inferInstance,
      inferInstance, inferInstance⟩,
    fun α _ _ _ => inferInstance,
    ⟨inferInstance, fun _ => inferInstance, inferInstance, inferInstance, inferInstance,
      inferInstance, inferInstance⟩⟩
  · have taken := faithful.fits #[] room enough
    rw [Array.empty_append] at taken
    exact serialize_of_write_ok hprepare taken
  · have taken := faithful.refused #[] room short
    rw [Array.empty_append] at taken
    exact serialize_of_write_error hprepare taken

end JvmAsm.Class

namespace JvmAsm.Sample

/-- With room for twenty bytes the writing of the sample stops inside its pool. -/
theorem sample_stops_after_twenty_bytes :
    (start.after history).toBytes = .ok final.output.bytes final ∧
      20 < final.output.bytes.length ∧
      Class.serialize (start.after history, .limited 20) =
        .error (.storage .full) (final, ⟨(final.output.bytes.take 20).toArray, some 0⟩) ∧
      final.toBytes = .ok final.output.bytes final := by
  have long : 20 < final.output.bytes.length := by cbv
  obtain ⟨-, short, ⟨-, again⟩, -⟩ := Class.limited_destination_loses_nothing toBytes_eq
  exact ⟨toBytes_eq, long, short 20 long, again⟩

end JvmAsm.Sample
