import JvmAsm.OffsetTable
import Mathlib.Algebra.Ring.Nat

/-! # Looking up offsets

Two views of a table of elements of different widths.  **Side by side**
(`Contiguous`): every element starts where the one before it ends.  It is what
pushing maintains, and what gives every offset its element.  **By halving**
(`OffsetTable.get?`): the search that finds the element at an offset.

The search is correct as soon as starts do not decrease (`Ascending`): it answers
an element that starts at the offset (`mem_of_get?`), and it fails only if there is
none (`get?_isSome_of_mem`).  In a table whose elements all have a positive width
starts strictly increase, and the search finds exactly what stands in the table
(`get?_eq_some_iff`). -/

namespace JvmAsm

/-! ## Side by side -/

/-- The cells stand side by side from `start` to `stop`, each as wide as its element. -/
def Contiguous {α : Type} (width : α → Nat) : (start : Nat) → List (Nat × α) → (stop : Nat) → Prop
  | start, [], stop => start = stop
  | start, (offset, element) :: cells, stop =>
    offset = start ∧ Contiguous width (start + width element) cells stop

namespace Contiguous

variable {α : Type} {width width' : α → Nat} {start stop : Nat} {cells : List (Nat × α)}

/-- One more cell at the end. -/
theorem concat (h : Contiguous width start cells stop) (element : α) :
    Contiguous width start (cells ++ [(stop, element)]) (stop + width element) := by
  induction cells generalizing start with
  | nil =>
    obtain rfl : start = stop := h
    exact ⟨rfl, rfl⟩
  | cons cell cells ih =>
    obtain ⟨hoffset, htail⟩ := h
    exact ⟨hoffset, ih htail⟩

/-- Only the widths of the elements in the table matter. -/
theorem congr (h : Contiguous width start cells stop)
    (same : ∀ cell ∈ cells, width' cell.2 = width cell.2) : Contiguous width' start cells stop := by
  induction cells generalizing start with
  | nil => exact h
  | cons cell cells ih =>
    obtain ⟨hoffset, htail⟩ := h
    refine ⟨hoffset, ?_⟩
    rw [same cell List.mem_cons_self]
    exact ih htail fun other hother => same other (List.mem_cons_of_mem cell hother)

theorem stop_eq (h : Contiguous width start cells stop) :
    stop = start + (cells.map fun cell => width cell.2).sum := by
  induction cells generalizing start with
  | nil => exact h.symm
  | cons cell cells ih =>
    rw [ih h.2, List.map_cons, List.sum_cons]
    omega

/-- Every cell lies between the ends. -/
theorem bounds (h : Contiguous width start cells stop) {cell : Nat × α} (hcell : cell ∈ cells) :
    start ≤ cell.1 ∧ cell.1 + width cell.2 ≤ stop := by
  induction cells generalizing start with
  | nil => cases hcell
  | cons head cells ih =>
    obtain ⟨hoffset, htail⟩ := h
    rcases List.mem_cons.mp hcell with rfl | hcell
    · have := stop_eq htail
      omega
    · have := ih htail hcell
      omega

/-- A cell ends before any later one starts. -/
theorem pairwise (h : Contiguous width start cells stop) :
    cells.Pairwise fun cell later => cell.1 + width cell.2 ≤ later.1 := by
  induction cells generalizing start with
  | nil => exact .nil
  | cons head cells ih =>
    obtain ⟨hoffset, htail⟩ := h
    refine .cons ?_ (ih htail)
    intro later hlater
    rw [hoffset]
    exact (bounds htail hlater).1

/-- Between the ends every offset is covered. -/
theorem exists_covers (h : Contiguous width start cells stop) {offset : Nat} (low : start ≤ offset)
    (high : offset < stop) :
    ∃ cell ∈ cells, cell.1 ≤ offset ∧ offset < cell.1 + width cell.2 := by
  induction cells generalizing start with
  | nil =>
    obtain rfl : start = stop := h
    omega
  | cons head cells ih =>
    obtain ⟨hoffset, htail⟩ := h
    by_cases inside : offset < start + width head.2
    · refine ⟨head, List.mem_cons_self, ?_⟩
      omega
    · obtain ⟨cell, hcell, covers⟩ := ih htail (Nat.le_of_not_lt inside)
      exact ⟨cell, List.mem_cons_of_mem head hcell, covers⟩

/-- No offset is covered twice. -/
theorem eq_of_covers (h : Contiguous width start cells stop) (offset : Nat) {cell other : Nat × α}
    (hcell : cell ∈ cells) (covers : cell.1 ≤ offset ∧ offset < cell.1 + width cell.2)
    (hother : other ∈ cells) (covers' : other.1 ≤ offset ∧ offset < other.1 + width other.2) :
    cell = other := by
  obtain ⟨i, hi, rfl⟩ := List.mem_iff_getElem.mp hcell
  obtain ⟨j, hj, rfl⟩ := List.mem_iff_getElem.mp hother
  have apart := List.pairwise_iff_getElem.mp h.pairwise
  rcases Nat.lt_trichotomy i j with hlt | rfl | hlt
  · have := apart i j hi hj hlt
    omega
  · rfl
  · have := apart j i hj hi hlt
    omega

end Contiguous

namespace OffsetTable

variable {α : Type} {cells : Array (UInt64 × α)} {offset : UInt64}

/-- The elements in order, each behind its offset as a number. -/
def row (table : OffsetTable α) : List (Nat × α) :=
  table.cells.toList.map fun cell => (cell.1.toNat, cell.2)

theorem mem_row {table : OffsetTable α} {element : α} :
    (offset.toNat, element) ∈ table.row ↔ (offset, element) ∈ table.cells.toList := by
  unfold row
  constructor
  · intro h
    obtain ⟨⟨start, other⟩, hcell, same⟩ := List.mem_map.mp h
    obtain ⟨sameOffset, rfl⟩ := Prod.mk.inj same
    obtain rfl : start = offset := UInt64.toNat_inj.mp sameOffset
    exact hcell
  · exact List.mem_map_of_mem

theorem row_push (width : UInt64) (element : α) (table : OffsetTable α) :
    (table.push width element).row = table.row ++ [(table.stop.toNat, element)] := by
  unfold row push
  rw [Array.toList_push, List.map_append]
  rfl

/-- Where no offset is lost, the next one is behind the width of the element. -/
theorem stop_push {width : UInt64} (element : α) {table : OffsetTable α}
    (fits : table.stop.toNat + width.toNat < 2 ^ 64) :
    (table.push width element).stop.toNat = table.stop.toNat + width.toNat := by
  have sum : (table.push width element).stop = table.stop + width := rfl
  rw [sum, UInt64.toNat_add, Nat.mod_eq_of_lt fits]

/-! ## By halving -/

/-- Starts do not decrease. -/
def Ascending (cells : Array (UInt64 × α)) : Prop :=
  ∀ (i j : Nat) (cell later : UInt64 × α), i ≤ j → cells[i]? = some cell →
    cells[j]? = some later → cell.1.toNat ≤ later.1.toNat

/-- The cell, if it exists, starts beyond the offset. -/
theorem startsBeyond_iff {i : Nat} : startsBeyond cells i offset = true ↔
    ∀ cell, cells[i]? = some cell → offset.toNat < cell.1.toNat := by
  unfold startsBeyond
  cases hcell : cells[i]? with
  | none => simp
  | some cell => simp [UInt64.lt_iff_toNat_lt]

/-- **What halving keeps.**  The cell at `first` starts at the offset or before it, unless it
is the very first, and whatever comes after the range starts beyond the offset; at the end the
range is one cell. -/
theorem seek_spec (ascending : Ascending cells) (first count : Nat)
    (low : first = 0 ∨ ∃ cell, cells[first]? = some cell ∧ cell.1.toNat ≤ offset.toNat)
    (high : ∀ i, first + count ≤ i → ∀ cell, cells[i]? = some cell →
      offset.toNat < cell.1.toNat) :
    (seek cells offset first count = 0 ∨
      ∃ cell, cells[seek cells offset first count]? = some cell ∧
        cell.1.toNat ≤ offset.toNat) ∧
    ∀ i, seek cells offset first count < i → ∀ cell, cells[i]? = some cell →
      offset.toNat < cell.1.toNat := by
  induction count using Nat.strongRecOn generalizing first with
  | ind count ih =>
    rw [seek]
    by_cases more : 1 < count
    · rw [if_pos more]
      by_cases middle : startsBeyond cells (first + count / 2) offset = true
      · rw [if_pos middle]
        refine ih (count - count / 2) (by omega) first low ?_
        intro i hi cell hcell
        cases hmiddle : cells[first + count / 2]? with
        | none =>
          have := Array.getElem?_eq_none_iff.mp hmiddle
          have := (Array.getElem?_eq_some_iff.mp hcell).1
          omega
        | some mid =>
          have beyond := startsBeyond_iff.mp middle mid hmiddle
          have order := ascending _ i mid cell (by omega) hmiddle hcell
          omega
      · rw [if_neg middle]
        refine ih (count - count / 2) (by omega) (first + count / 2) (.inr ?_) ?_
        · rw [startsBeyond_iff] at middle
          simp only [not_forall, Nat.not_lt] at middle
          obtain ⟨cell, hcell, low⟩ := middle
          exact ⟨cell, hcell, low⟩
        · intro i hi
          exact high i (by omega)
    · rw [if_neg more]
      exact ⟨low, fun i hi => high i (by omega)⟩

/-- What the search answers starts at the offset. -/
theorem mem_of_get? {table : OffsetTable α} {element : α} (h : table.get? offset = some element) :
    (offset.toNat, element) ∈ table.row := by
  rw [mem_row]
  unfold get? at h
  split at h
  · rename_i start found hfound
    split at h
    · rename_i hstart
      subst hstart
      obtain rfl := Option.some.inj h
      rw [← Array.getElem?_toList] at hfound
      exact List.mem_of_getElem? hfound
    · cases h
  · cases h

/-- The search finds an element wherever there is one. -/
theorem get?_isSome_of_mem {table : OffsetTable α} {element : α}
    (ascending : Ascending table.cells) (h : (offset.toNat, element) ∈ table.row) :
    (table.get? offset).isSome = true := by
  obtain ⟨i, hi⟩ := List.mem_iff_getElem?.mp (mem_row.mp h)
  rw [Array.getElem?_toList] at hi
  have outside : ∀ i, 0 + table.cells.size ≤ i → ∀ cell, table.cells[i]? = some cell →
      offset.toNat < cell.1.toNat := by
    intro i hi cell hcell
    have := (Array.getElem?_eq_some_iff.mp hcell).1
    omega
  obtain ⟨low, high⟩ := seek_spec ascending 0 table.cells.size (.inl rfl) outside
  unfold get?
  generalize seek table.cells offset 0 table.cells.size = found at *
  -- The element at hand does not start beyond the offset, so it is not after the one found.
  have before : i ≤ found := by
    rcases Nat.lt_or_ge found i with hlt | hle
    · exact absurd (high i hlt _ hi) (Nat.lt_irrefl _)
    · exact hle
  have exact : ∃ other, table.cells[found]? = some (offset, other) := by
    rcases low with rfl | ⟨cell, hcell, hle⟩
    · obtain rfl : i = 0 := Nat.le_zero.mp before
      exact ⟨element, hi⟩
    · have order := ascending i found _ cell before hi hcell
      obtain ⟨start, other⟩ := cell
      obtain rfl : start = offset := UInt64.toNat_inj.mp (Nat.le_antisymm hle order)
      exact ⟨other, hcell⟩
  obtain ⟨other, hother⟩ := exact
  simp only [hother, if_true, Option.isSome_some]

/-- Side by side, starts do not decrease. -/
theorem ascending_of_contiguous {table : OffsetTable α} {width : α → Nat} {start stop : Nat}
    (h : Contiguous width start table.row stop) : Ascending table.cells := by
  intro i j cell later hij hcell hlater
  rw [← Array.getElem?_toList] at hcell hlater
  rcases Nat.lt_or_eq_of_le hij with hlt | rfl
  · obtain ⟨hi, rfl⟩ := List.getElem?_eq_some_iff.mp hcell
    obtain ⟨hj, rfl⟩ := List.getElem?_eq_some_iff.mp hlater
    have apart := List.pairwise_map.mp h.pairwise
    have := List.pairwise_iff_getElem.mp apart i j hi hj hlt
    dsimp only at this
    omega
  · obtain rfl := Option.some.inj (hcell.symm.trans hlater)
    exact Nat.le_refl _

/-- Side by side and with positive widths, no two elements start at the same offset. -/
theorem eq_of_mem_contiguous {width : α → Nat} {start stop offset : Nat} {list : List (Nat × α)}
    (h : Contiguous width start list stop) (positive : ∀ cell ∈ list, 0 < width cell.2)
    {element other : α} (helement : (offset, element) ∈ list) (hother : (offset, other) ∈ list) :
    element = other := by
  have covers (cell : Nat × α) (hcell : cell ∈ list) (hoffset : cell.1 = offset) :
      cell.1 ≤ offset ∧ offset < cell.1 + width cell.2 := by
    have := positive cell hcell
    omega
  have same := h.eq_of_covers offset helement (covers _ helement rfl) hother (covers _ hother rfl)
  exact (Prod.mk.inj same).2

/-- **The search finds exactly what stands in the table.** -/
theorem get?_eq_some_iff {table : OffsetTable α} {width : α → Nat} {start stop : Nat}
    (h : Contiguous width start table.row stop)
    (positive : ∀ cell ∈ table.row, 0 < width cell.2) {element : α} :
    table.get? offset = some element ↔ (offset.toNat, element) ∈ table.row := by
  constructor
  · exact mem_of_get?
  · intro hmem
    obtain ⟨found, hfound⟩ := Option.isSome_iff_exists.mp
      (get?_isSome_of_mem (ascending_of_contiguous h) hmem)
    rw [hfound, eq_of_mem_contiguous h positive (mem_of_get? hfound) hmem]

end OffsetTable

end JvmAsm
