import JvmAsm.Proofs.PoolExtension

/-! # Containers of attributes

Adding an attribute does two things: it interns the name, and it puts the payload
into the container.  The second is `put`, a function of the container alone, and
`interns_add` says that an addition that succeeds is a `put` with the entry of the
name.  What a container answers after a `put` is settled by the name
(`get?_put_self`, `get?_put_of_ne`).

`Sound` is what all containers of a class have in common: every attribute's entry
is that of its name, and there are no more attributes than can be counted in two
bytes. -/

namespace JvmAsm.Attributes

variable {attributes : Attributes} {name other : String} {entry : Entry} {value : AttributeValue}

/-! ## Putting a payload under a name -/

/-- The container with a payload under a name: in place of the one that is there, or at the
end. -/
def put (name : String) (entry : Entry) (value : AttributeValue) (attributes : Attributes) :
    Attributes :=
  if attributes.contains name then attributes.replace name value
  else ⟨attributes.entries ++ [⟨name, entry, value⟩]⟩

theorem contains_iff : attributes.contains name = true ↔
    ∃ named ∈ attributes.entries, named.name = name := by
  simp [contains]

theorem get?_replace_self (h : attributes.contains name = true) :
    (attributes.replace name value).get? name = some value := by
  obtain ⟨entries⟩ := attributes
  unfold get? replace
  unfold contains at h
  dsimp only at h ⊢
  induction entries with
  | nil => cases h
  | cons named entries ih =>
    by_cases same : named.name = name
    · simp [same]
    · simp only [List.any_cons, beq_eq_false_iff_ne.mpr same, Bool.false_or] at h
      rw [List.map_cons, if_neg same, List.find?_cons_of_neg (by simpa using same)]
      exact ih h

theorem get?_replace_of_ne (apart : other ≠ name) :
    (attributes.replace name value).get? other = attributes.get? other := by
  obtain ⟨entries⟩ := attributes
  unfold get? replace
  dsimp only
  induction entries with
  | nil => rfl
  | cons named entries ih =>
    rw [List.map_cons]
    by_cases found : named.name = other
    · rw [if_neg (found ▸ apart), List.find?_cons_of_pos (by simpa using found),
        List.find?_cons_of_pos (by simpa using found)]
    · have missed : (if named.name = name then { named with value } else named).name ≠ other := by
        split
        · exact found
        · exact found
      rw [List.find?_cons_of_neg (by simpa using missed),
        List.find?_cons_of_neg (by simpa using found)]
      exact ih

/-- The last payload that was put under a name is the one found. -/
theorem get?_put_self : (attributes.put name entry value).get? name = some value := by
  unfold put
  split
  · rename_i present
    exact get?_replace_self present
  · rename_i absent
    have none_found : attributes.entries.find? (fun named => named.name == name) = none := by
      refine List.find?_eq_none.mpr fun named hmem same => absent ?_
      exact contains_iff.mpr ⟨named, hmem, by simpa using same⟩
    simp [get?, List.find?_append, none_found]

/-- Payloads under other names stay. -/
theorem get?_put_of_ne (apart : other ≠ name) :
    (attributes.put name entry value).get? other = attributes.get? other := by
  unfold put
  split
  · exact get?_replace_of_ne apart
  · have missed : (name == other) = false := beq_eq_false_iff_ne.mpr apart.symm
    simp [get?, List.find?_append, missed]

/-- Names and their entries, but for the payloads. -/
theorem mem_put {named : NamedAttribute} (h : named ∈ (attributes.put name entry value).entries) :
    named = ⟨name, entry, value⟩ ∨
      ∃ old ∈ attributes.entries, named.name = old.name ∧ named.entry = old.entry := by
  unfold put at h
  split at h
  · obtain ⟨old, hold, rfl⟩ := List.mem_map.mp h
    refine .inr ⟨old, hold, ?_⟩
    split
    · exact ⟨rfl, rfl⟩
    · exact ⟨rfl, rfl⟩
  · rcases List.mem_append.mp h with hold | hnew
    · exact .inr ⟨named, hold, rfl, rfl⟩
    · exact .inl (List.mem_singleton.mp hnew)

/-! ## Sound containers -/

/-- Names have their entries, and attributes can be counted in two bytes. -/
structure Sound (pool : Pool) (attributes : Attributes) : Prop where
  named : ∀ named ∈ attributes.entries, pool.constant? named.entry = some (.utf8 named.name)
  few : attributes.count ≤ 65535

theorem sound_empty (pool : Pool) : Sound pool empty where
  named _ h := nomatch h
  few := by decide

theorem Sound.mono {pool pool' : Pool} (h : attributes.Sound pool) (more : pool.Extends pool') :
    attributes.Sound pool' :=
  ⟨fun named hmem => more.constant? (h.named named hmem), h.few⟩

/-- A new name needs room, one that is there does not. -/
theorem Sound.put {pool : Pool} (h : attributes.Sound pool)
    (hentry : pool.constant? entry = some (.utf8 name))
    (room : attributes.contains name = true ∨ attributes.count < 65535) :
    (attributes.put name entry value).Sound pool := by
  constructor
  · intro named hmem
    rcases mem_put hmem with rfl | ⟨old, hold, hname, hsame⟩
    · exact hentry
    · rw [hname, hsame]
      exact h.named old hold
  · have few := h.few
    unfold count at few room ⊢
    unfold Attributes.put
    split
    · simpa [replace] using few
    · rename_i absent
      rcases room with present | room
      · exact absurd present absent
      · rw [List.length_append, List.length_singleton]
        omega

/-- **Adding an attribute** interns its name and puts its payload into the container. -/
theorem interns_add {pool : Pool} (hpool : pool.Invariant) (h : attributes.Sound pool) :
    Pool.Interns (attributes.add name value) pool fun result pool' =>
      ∃ entry, result = attributes.put name entry value ∧ result.Sound pool' := by
  refine Pool.interns_bind (Pool.interns_add _ hpool) fun entry pool' grown hentry => ?_
  have sound := h.mono grown.extends
  have put_eq : attributes.put name entry value = if attributes.contains name then
      attributes.replace name value else ⟨attributes.entries ++ [⟨name, entry, value⟩]⟩ := rfl
  by_cases present : attributes.contains name = true
  · rw [if_pos present] at put_eq ⊢
    exact Pool.interns_pure ⟨entry, put_eq.symm, put_eq ▸ sound.put hentry (.inl present)⟩
  · rw [if_neg present] at put_eq ⊢
    split
    · exact Pool.interns_fail _
    · rename_i room
      have room : attributes.count < 65535 := Nat.lt_of_not_le room
      exact Pool.interns_pure ⟨entry, put_eq.symm, put_eq ▸ sound.put hentry (.inr room)⟩

end JvmAsm.Attributes
