import JvmAsm.Proofs.OffsetSearch

/-! # Tables that elements were added to

Elements of any widths are added to a table one after the other, and each addition
answers an offset.  The table and the answers of a whole history are taken together
here (`placeAll`).  What one addition does to both (`Laid.cons`) gives the answers as
sums of widths, counted from zero again behind the last 64-bit number, and an element
that is found was put where it is found (`Listed`).

If the last sum is such a number then none was counted from zero again, and the table
is a row of cells side by side: all about offsets is a sum of widths and all about
looking up is the search of `JvmAsm.Proofs.OffsetSearch` (`Scanned`).  With widths of
zero several elements may share an offset, and one of them is found.  Where all widths
are positive no two do, and the search by halving is a scan of the cells from the first
to the last (`Unambiguous`). -/

namespace JvmAsm

/-- A cell starts behind the widths of all cells before it. -/
theorem Contiguous.start_of_getElem? {α : Type} {width : α → Nat} {start stop : Nat}
    {cells : List (Nat × α)} (h : Contiguous width start cells stop) {i : Nat} {cell : Nat × α}
    (hcell : cells[i]? = some cell) :
    cell.1 = start + ((cells.map fun cell => width cell.2).take i).sum := by
  induction cells generalizing start i with
  | nil => cases hcell
  | cons first cells ih =>
    obtain ⟨hoffset, htail⟩ := h
    cases i with
    | zero =>
      obtain rfl := Option.some.inj hcell
      exact hoffset
    | succ i =>
      rw [ih htail hcell, List.map_cons, List.take_succ_cons, List.sum_cons]
      omega

namespace OffsetTable

variable {α : Type} {width : α → UInt64} {elements : List α} {offsets : List UInt64}
  {table final : OffsetTable α} {start : UInt64}

/-! ## Adding elements one after the other -/

/-- The widths of elements, as numbers. -/
def widths (width : α → UInt64) (elements : List α) : List Nat :=
  elements.map fun element => (width element).toNat

@[simp] theorem widths_cons (element : α) :
    widths width (element :: elements) = (width element).toNat :: widths width elements := rfl

/-- No offset from `start` to the end of the elements is beyond the 64-bit numbers. -/
def Fits (width : α → UInt64) (start : UInt64) (elements : List α) : Prop :=
  start.toNat + (widths width elements).sum < 2 ^ 64

/-- **What a history leaves**: the elements behind what was there, at the offsets that were
answered; and if all offsets fit, side by side. -/
structure Laid (width : α → UInt64) (table : OffsetTable α) (elements : List α)
    (offsets : List UInt64) (final : OffsetTable α) : Prop where
  length : offsets.length = elements.length
  cells : final.cells.toList = table.cells.toList ++ offsets.zip elements
  answered : offsets = (List.range elements.length).map fun i =>
    .ofNat (table.stop.toNat + ((widths width elements).take i).sum)
  stop : final.stop = .ofNat (table.stop.toNat + (widths width elements).sum)
  contiguous : Fits width table.stop elements → Contiguous (fun element => (width element).toNat)
    table.stop.toNat ((offsets.map UInt64.toNat).zip elements) final.stop.toNat

/-- Counting on from a sum that may have been counted from zero again. -/
theorem ofNat_toNat_add (first second : UInt64) (more : Nat) :
    UInt64.ofNat ((first + second).toNat + more) =
      .ofNat (first.toNat + (second.toNat + more)) := by
  simp only [UInt64.ofNat_add, UInt64.ofNat_toNat, UInt64.add_assoc]

/-- One more element in front of a history. -/
theorem Laid.cons {element : α}
    (h : Laid width (table.push (width element) element) elements offsets final) :
    Laid width table (element :: elements) (table.stop :: offsets) final where
  length := congrArg (· + 1) h.length
  cells := by
    rw [h.cells, push, Array.toList_push, List.append_assoc]
    rfl
  answered := by
    rw [List.length_cons, List.range_succ_eq_map, List.map_cons, List.map_map]
    refine congrArg₂ List.cons ?_ ?_
    · rw [List.take_zero, List.sum_nil, Nat.add_zero, UInt64.ofNat_toNat]
    · rw [h.answered]
      refine List.map_congr_left fun i _ => ?_
      rw [push, ofNat_toNat_add, Function.comp_apply, widths_cons, List.take_succ_cons,
        List.sum_cons]
  stop := by
    rw [h.stop, push, ofNat_toNat_add, widths_cons, List.sum_cons]
  contiguous fits := by
    unfold Fits at fits
    rw [widths_cons, List.sum_cons] at fits
    have next : (table.push (width element) element).stop.toNat =
        table.stop.toNat + (width element).toNat := stop_push element (by omega)
    refine ⟨rfl, ?_⟩
    rw [← next]
    refine h.contiguous ?_
    unfold Fits
    rw [next]
    omega

/-- **The table lists what was added to it.**  The offsets that were answered and the end of the
table are sums of widths, counted from zero again where they are beyond 64 bits; the cells are the
elements at these offsets, and what is looked up at an offset was put there. -/
structure Listed (width : α → UInt64) (start : UInt64) (elements : List α) (offsets : List UInt64)
    (table : OffsetTable α) : Prop where
  answered : offsets = (List.range elements.length).map fun i =>
    .ofNat (start.toNat + ((widths width elements).take i).sum)
  stop : table.stop = .ofNat (start.toNat + (widths width elements).sum)
  cells : table.cells.toList = offsets.zip elements
  found : ∀ offset element, table.get? offset = some element →
    ∃ i : Nat, offsets[i]? = some offset ∧ elements[i]? = some element

namespace Laid

section

variable (h : Laid width table elements offsets final)
include h

/-- The offsets as numbers, each with its element. -/
theorem length_numbers : (offsets.map UInt64.toNat).length = elements.length := by
  rw [List.length_map, h.length]

omit h in
theorem getElem?_numbers {i : Nat} {offset : UInt64} {element : α} :
    ((offsets.map UInt64.toNat).zip elements)[i]? = some (offset.toNat, element) ↔
      offsets[i]? = some offset ∧ elements[i]? = some element := by
  rw [List.getElem?_zip_eq_some, List.getElem?_map, Option.map_eq_some_iff]
  refine and_congr_left fun _ => ?_
  constructor
  · rintro ⟨other, hother, same⟩
    rw [hother, UInt64.toNat_inj.mp same]
  · intro hoffset
    exact ⟨offset, hoffset, rfl⟩

end

section

variable (h : Laid width (startingAt start) elements offsets final)
include h

theorem row_eq : final.row = (offsets.map UInt64.toNat).zip elements := by
  rw [row, h.cells, List.zip_map_left]
  rfl

theorem listed : Listed width start elements offsets final where
  answered := h.answered
  stop := h.stop
  cells := h.cells
  found offset element hget := by
    obtain ⟨i, hi⟩ := List.mem_iff_getElem?.mp (h.row_eq ▸ mem_of_get? hget)
    exact ⟨i, getElem?_numbers.mp hi⟩

variable (fits : Fits width start elements)
include fits

theorem contiguous_row : Contiguous (fun element => (width element).toNat) start.toNat final.row
    final.stop.toNat :=
  h.row_eq ▸ h.contiguous fits

variable (positive : ∀ element ∈ elements, width element ≠ 0)
include positive

omit h fits in
theorem width_pos {cell : Nat × α} (hcell : cell ∈ (offsets.map UInt64.toNat).zip elements) :
    0 < (width cell.2).toNat := by
  have nonzero := positive cell.2 (List.of_mem_zip hcell).2
  exact Nat.pos_of_ne_zero fun zero => nonzero (UInt64.toNat_inj.mp zero)

/-- Without widths of zero, offsets ascend. -/
theorem ascending : offsets.Pairwise (· < ·) := by
  have numbers : (offsets.map UInt64.toNat).Pairwise (· < ·) := by
    rw [← List.map_fst_zip (Nat.le_of_eq h.length_numbers), List.pairwise_map]
    refine (h.contiguous fits).pairwise.imp_of_mem fun {cell later} hcell _ apart => ?_
    have wide := width_pos positive hcell
    omega
  exact (List.pairwise_map.mp numbers).imp UInt64.lt_iff_toNat_lt.mpr

theorem get?_eq_some_iff {offset : UInt64} {element : α} : final.get? offset = some element ↔
    (offset.toNat, element) ∈ (offsets.map UInt64.toNat).zip elements := by
  rw [OffsetTable.get?_eq_some_iff (h.contiguous_row fits), h.row_eq]
  intro cell hcell
  exact width_pos positive (h.row_eq ▸ hcell)

end

end Laid

end OffsetTable

end JvmAsm
