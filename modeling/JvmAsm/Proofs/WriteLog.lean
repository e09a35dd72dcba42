import JvmAsm.Proofs.MethodHistory

/-! # Logs of writes

A container that is written to by key is described by the log of its writes, earliest
first.  Two things are read off a log: its keys, each once and in the order in which
they were first written, and what was written last under a key.  One more write adds
its key at the end, unless it is there already, and decides what is last under it. -/

namespace JvmAsm

/-- Values written under keys, earliest first. -/
abbrev WriteLog (κ ν : Type) := List (κ × ν)

namespace WriteLog

variable {κ ν : Type} [DecidableEq κ]

/-- The keys, each once, in the order of their first writes. -/
def keys (log : WriteLog κ ν) : List κ := (log.map Prod.fst).eraseDups

/-- What was written last under a key. -/
def last? (log : WriteLog κ ν) (key : κ) : Option ν := log.reverse.lookup key

theorem mem_keys {log : WriteLog κ ν} {key : κ} : key ∈ log.keys ↔ key ∈ log.map Prod.fst :=
  List.mem_eraseDups

theorem nodup_keys (log : WriteLog κ ν) : log.keys.Nodup := nodup_eraseDups _

/-- A key has its place since it was written first… -/
theorem keys_concat (log : WriteLog κ ν) (key : κ) (value : ν) :
    keys (log ++ [(key, value)]) = if key ∈ log.keys then log.keys else log.keys ++ [key] := by
  unfold keys
  rw [List.map_append, List.map_singleton, eraseDups_concat]
  simp only [List.mem_eraseDups]

/-- …and the value that was written last. -/
theorem last?_concat (log : WriteLog κ ν) (key : κ) (value : ν) (other : κ) :
    last? (log ++ [(key, value)]) other = if other = key then some value else log.last? other := by
  unfold last?
  rw [List.reverse_append, List.reverse_singleton, List.singleton_append]
  by_cases same : other = key
  · rw [if_pos same, same, List.lookup_cons_self]
  · rw [if_neg same, List.lookup_cons, beq_eq_false_iff_ne.mpr same]

/-- A key was written if and only if there is a last value under it. -/
theorem mem_keys_iff {log : WriteLog κ ν} {key : κ} :
    key ∈ log.keys ↔ ∃ value, log.last? key = some value := by
  induction log using List.reverseRec with
  | nil => simp [keys, last?]
  | append_singleton log write ih =>
    obtain ⟨other, value⟩ := write
    rw [mem_keys, List.map_append, List.mem_append, ← mem_keys, ih, last?_concat]
    by_cases same : key = other
    · simp [same]
    · simp [same]

end WriteLog

end JvmAsm
