import JvmAsm.Proofs.PoolExtension
import Mathlib.Algebra.BigOperators.Ring.Finset
import Mathlib.Algebra.Order.BigOperators.Group.Finset

/-! # A pool holds what was asked for, with all its parts

An addition is a recursion that can stop half way, and what it does depends on what is
there already.  Seen from outside none of this matters: a pool that took all additions
holds exactly the constants that were asked for and whatever these are made of, their
`closure`, and whether it takes them all depends on that set alone.

Both halves are about `contents`, the constants of a pool as a set.  A successful addition
adds the closure of its constant (`contents_add`).  An addition fails only for want of
room, or because of a long text; so where a set of constants has room and the pool is
inside that set, an addition inside the set succeeds and stays inside
(`Inside.exists_add`).  The counter of a pool is one more than the widths of its contents,
which turns the question whether the next constant fits into one about sums over sets. -/

namespace JvmAsm

namespace Constant

/-! ## What a constant is made of -/

/-- All that the given constants are made of, themselves included. -/
def closure (constants : List Constant) : Finset Constant := (constants.flatMap parts).toFinset

/-- Apart from itself, a constant is made of what its constituents are made of. -/
theorem within_iff {part whole : Constant} :
    Within part whole ↔ part = whole ∨ ∃ middle ∈ whole.constituents, Within part middle := by
  constructor
  · intro h
    rcases Relation.ReflTransGen.cases_tail h with rfl | ⟨middle, hpart, direct⟩
    · exact .inl rfl
    · exact .inr ⟨middle, direct, hpart⟩
  · rintro (rfl | ⟨middle, direct, hpart⟩)
    · exact .refl
    · exact hpart.tail direct

theorem mem_partsWithin {depth : Nat} {part whole : Constant} (hdepth : whole.height ≤ depth) :
    part ∈ partsWithin depth whole ↔ Within part whole := by
  induction depth generalizing whole with
  | zero =>
    have atomic (middle : Constant) : middle ∉ whole.constituents := by
      intro direct
      have := height_lt_of_mem_constituents direct
      omega
    rw [partsWithin, List.mem_singleton, within_iff]
    simp [atomic]
  | succ depth ih =>
    rw [partsWithin, List.mem_cons, List.mem_flatMap, within_iff]
    refine or_congr Iff.rfl (exists_congr fun middle => and_congr_right fun direct => ih ?_)
    have := height_lt_of_mem_constituents direct
    omega

theorem mem_closure {constants : List Constant} {part : Constant} :
    part ∈ closure constants ↔ ∃ whole ∈ constants, Within part whole := by
  simp only [closure, List.mem_toFinset, List.mem_flatMap, parts,
    mem_partsWithin (Nat.le_refl _)]

end Constant

namespace Pool

open Constant (Within closure mem_closure)

/-! ## The constants of a pool as a set -/

/-- The constants of a pool. -/
def contents (pool : Pool) : Finset Constant := (pool.slots.toList.map PoolSlot.constant).toFinset

theorem mem_contents {pool : Pool} {constant : Constant} :
    constant ∈ pool.contents ↔ ∃ entry, pool.constant? entry = some constant := by
  rw [contents, List.mem_toFinset, List.mem_iff_getElem?]
  constructor
  · rintro ⟨rank, h⟩
    refine ⟨⟨rank⟩, ?_⟩
    rwa [List.getElem?_map, Array.getElem?_toList] at h
  · rintro ⟨entry, h⟩
    refine ⟨entry.rank, ?_⟩
    rwa [List.getElem?_map, Array.getElem?_toList]

theorem Alike.contents {pool pool' : Pool} (h : Alike pool pool') :
    pool'.contents = pool.contents := by
  ext constant
  simp only [mem_contents, h.constant?]

section

variable {pool : Pool} (h : pool.Content)

include h

theorem Content.mem_contents_iff {constant : Constant} :
    constant ∈ pool.contents ↔ pool.get? constant ≠ none := by
  rw [mem_contents, Option.ne_none_iff_exists']
  exact exists_congr fun entry => (h.lookup constant entry).symm

theorem Content.card_contents : pool.contents.card = pool.length := by
  rw [Pool.contents, List.toFinset_card_of_nodup h.nodup, List.length_map, Array.length_toList]
  rfl

/-- **The counter is one more than the widths of the contents.** -/
theorem Content.nextSlot_eq : pool.nextSlot = 1 + ∑ constant ∈ pool.contents, constant.width := by
  rw [h.nextSlot, Pool.contents, List.sum_toFinset _ h.nodup, List.map_map]
  rfl

/-- A pool holds all its constants are made of. -/
theorem Content.mem_of_within {part whole : Constant} (hpart : Within part whole)
    (hwhole : whole ∈ pool.contents) : part ∈ pool.contents := by
  induction hpart using Relation.ReflTransGen.head_induction_on with
  | refl => exact hwhole
  | head direct _ ih =>
    obtain ⟨entry, present⟩ := mem_contents.mp ih
    exact mem_contents.mpr (h.exists_part present direct)

end

/-! ## What a successful addition adds -/

theorem Grows.contents_subset {touched : Constant → Prop} {pool pool' : Pool}
    (h : Grows touched pool pool') : pool.contents ⊆ pool'.contents := by
  intro constant hconstant
  obtain ⟨entry, present⟩ := mem_contents.mp hconstant
  exact mem_contents.mpr ⟨entry, h.constant? present⟩

theorem Grows.touched_of_mem {touched : Constant → Prop} {pool pool' : Pool}
    (h : Grows touched pool pool') (hpool : pool.Invariant) {constant : Constant}
    (hconstant : constant ∈ pool'.contents) : constant ∈ pool.contents ∨ touched constant := by
  by_cases ours : touched constant
  · exact .inr ours
  · refine .inl ?_
    rw [hpool.toContent.mem_contents_iff, ← h.get?_of_not_touched ours]
    exact (h.invariant hpool).toContent.mem_contents_iff.mp hconstant

/-- **A successful addition adds the closure of its constant**, and nothing else. -/
theorem contents_add {pool pool' : Pool} {constant : Constant} {entry : Entry}
    (hpool : pool.Invariant) (run : add constant pool = .ok entry pool') :
    pool'.contents = pool.contents ∪ closure [constant] := by
  obtain ⟨grows, present⟩ := (adds_add constant hpool).ok entry pool' run
  have content := (grows.invariant hpool).toContent
  ext part
  simp only [Finset.mem_union, mem_closure, List.mem_singleton, exists_eq_left]
  constructor
  · exact grows.touched_of_mem hpool
  · rintro (old | new)
    · exact grows.contents_subset old
    · exact content.mem_of_within new (mem_contents.mpr ⟨entry, present⟩)

/-! ## Room -/

/-- Constants that one pool can hold together: no text is too long, and the indices suffice. -/
structure Roomy (allowed : Finset Constant) : Prop where
  short : ∀ constant ∈ allowed, excess? constant = none
  few : 1 + ∑ constant ∈ allowed, constant.width ≤ 65535

/-- A pool that takes constants and has none but the allowed ones. -/
structure Inside (allowed : Finset Constant) (pool : Pool) : Prop where
  invariant : pool.Invariant
  unsealed : pool.state ≠ .sealed
  contents : pool.contents ⊆ allowed

section

variable {allowed : Finset Constant} {pool pool' : Pool}

theorem Inside.grows {touched : Constant → Prop} (h : Inside allowed pool)
    (grows : Grows touched pool pool') (ours : ∀ constant, touched constant → constant ∈ allowed) :
    Inside allowed pool' := by
  refine ⟨grows.invariant h.invariant, grows.state_eq ▸ h.unsealed, ?_⟩
  intro constant hconstant
  rcases grows.touched_of_mem h.invariant hconstant with old | new
  · exact h.contents old
  · exact ours constant new

/-- **An allowed constant that is missing still fits**: together with the contents it is no more
than what has room. -/
theorem Inside.fits (h : Inside allowed pool) (roomy : Roomy allowed) {constant : Constant}
    (ours : constant ∈ allowed) (fresh : pool.get? constant = none) :
    pool.nextSlot + constant.width ≤ 65535 := by
  have absent : constant ∉ pool.contents := by
    rw [h.invariant.toContent.mem_contents_iff, fresh]
    exact fun missing => missing rfl
  calc pool.nextSlot + constant.width
      = 1 + ∑ other ∈ insert constant pool.contents, other.width := by
        rw [Finset.sum_insert absent, h.invariant.toContent.nextSlot_eq]
        omega
    _ ≤ 1 + ∑ other ∈ allowed, other.width := by
        refine Nat.add_le_add_left (Finset.sum_le_sum_of_subset ?_) 1
        exact Finset.insert_subset ours h.contents
    _ ≤ 65535 := roomy.few

/-- Allowed constants one after the other, if each can be added. -/
theorem Inside.exists_mapM (h : Inside allowed pool) (add : Constant → Action Entry)
    (constants : List Constant)
    (each : ∀ constant ∈ constants, ∀ pool, Inside allowed pool →
      ∃ entry pool', add constant pool = .ok entry pool' ∧ Inside allowed pool') :
    ∃ entries pool', constants.mapM add pool = .ok entries pool' := by
  induction constants generalizing pool with
  | nil => exact ⟨[], pool, rfl⟩
  | cons constant constants ih =>
    obtain ⟨entry, middle, hentry, inside⟩ := each constant List.mem_cons_self pool h
    obtain ⟨entries, last, hentries⟩ := ih inside fun other hother =>
      each other (List.mem_cons_of_mem constant hother)
    refine ⟨entry :: entries, last, ?_⟩
    rw [List.mapM_cons]
    exact Attempt.bind_eq_ok.mpr ⟨entry, middle, hentry,
      Attempt.bind_eq_ok.mpr ⟨entries, last, hentries, rfl⟩⟩

/-- One step of the recursion, if the one for the constituents succeeds. -/
theorem Inside.exists_intern (h : Inside allowed pool) (roomy : Roomy allowed)
    (parts : List Constant → Action (List Entry)) {constant : Constant} (ours : constant ∈ allowed)
    (hparts : ∃ entries pool', parts constant.constituents pool = .ok entries pool' ∧
      Inside allowed pool' ∧ pool'.get? constant = pool.get? constant) :
    ∃ entry pool', intern parts constant pool = .ok entry pool' := by
  rcases intern_cases parts constant pool with ⟨closed, -⟩ | ⟨-, ⟨entry, -, hrun⟩ |
    ⟨fresh, ⟨length, long, -⟩ | ⟨-, hrun⟩⟩⟩
  · exact absurd closed h.unsealed
  · exact ⟨entry, _, hrun⟩
  · cases (roomy.short constant ours).symm.trans long
  · obtain ⟨entries, middle, hentries, inside, same⟩ := hparts
    refine ⟨⟨middle.slots.size⟩, middle.pushed constant entries, hrun.trans ?_⟩
    refine Attempt.bind_eq_ok.mpr ⟨entries, middle, hentries, ?_⟩
    have fits : ¬ maxCount < middle.nextSlot + constant.width :=
      Nat.not_lt.mpr (inside.fits roomy ours (same.trans fresh))
    rw [push_eq, if_neg fits]

theorem Inside.exists_addWithin {depth : Nat} {constant : Constant}
    (hdepth : constant.height ≤ depth) (h : Inside allowed pool) (roomy : Roomy allowed)
    (ours : ∀ part, Within part constant → part ∈ allowed) :
    ∃ entry pool', addWithin depth constant pool = .ok entry pool' ∧ Inside allowed pool' := by
  induction depth generalizing constant pool with
  | zero =>
    obtain ⟨entry, pool', hrun⟩ := h.exists_intern roomy (fun _ => pure []) (ours constant .refl)
      ⟨[], pool, rfl, h, rfl⟩
    obtain ⟨grows, -⟩ := (adds_addWithin hdepth h.invariant).ok entry pool' hrun
    exact ⟨entry, pool', hrun, h.grows grows ours⟩
  | succ depth ih =>
    have lower {part : Constant} (direct : part ∈ constant.constituents) : part.height ≤ depth :=
      Constant.height_le_of_mem_constituents hdepth direct
    obtain ⟨entries, middle, hentries⟩ :=
      h.exists_mapM (addWithin depth) constant.constituents fun part direct pool inside =>
        ih (lower direct) inside fun other hother => ours other (hother.tail direct)
    -- The constituents touch proper parts only, so the constant itself is still missing.
    obtain ⟨proper, -⟩ := (adds_constituents h.invariant fun part direct pool hpool =>
      adds_addWithin (lower direct) hpool).ok entries middle hentries
    obtain ⟨entry, pool', hrun⟩ := h.exists_intern roomy
      (fun parts => parts.mapM (addWithin depth)) (ours constant .refl)
      ⟨entries, middle, hentries, h.grows proper fun part hpart => ours part hpart.within,
        proper.get?_of_not_touched constant.not_partOf_self⟩
    obtain ⟨grows, -⟩ := (adds_addWithin hdepth h.invariant).ok entry pool' hrun
    exact ⟨entry, pool', hrun, h.grows grows ours⟩

/-- **Where there is room an addition succeeds**, and the pool stays inside. -/
theorem Inside.exists_add (h : Inside allowed pool) (roomy : Roomy allowed) {constant : Constant}
    (ours : closure [constant] ⊆ allowed) :
    ∃ entry pool', add constant pool = .ok entry pool' ∧ Inside allowed pool' := by
  refine h.exists_addWithin (Nat.le_refl _) roomy fun part hpart => ours ?_
  exact mem_closure.mpr ⟨constant, List.mem_singleton_self constant, hpart⟩

end

theorem excess?_eq_none_iff {constant : Constant} : excess? constant = none ↔
    ∀ text, constant = .utf8 text → (ModifiedUtf8.encode text).length ≤ 65535 := by
  cases constant with
  | utf8 text =>
    show (if maxCount < (ModifiedUtf8.encode text).length then _ else _) = none ↔ _
    rw [ite_eq_right_iff]
    simp [maxCount]
  | _ => simp [excess?]

/-! ## Histories -/

/-- The constant that an edit asks for. -/
def Edit.constant? : Edit → Option Constant
  | .add constant => some constant
  | _ => none

/-- The constants that a history asks for, in order. -/
def asked (history : List Edit) : List Constant := history.filterMap Edit.constant?

/-- If the edit asks for a constant, the pool has it or takes it. -/
def Edit.Taken (pool : Pool) : Edit → Prop
  | .add constant => ∃ entry pool', Pool.add constant pool = .ok entry pool'
  | _ => True

/-- Every addition of the history succeeds when its turn comes. -/
def Takes (pool : Pool) : List Edit → Prop
  | [] => True
  | edit :: history => edit.Taken pool ∧ (edit.perform.after pool).Takes history

theorem closure_append (first second : List Constant) :
    closure (first ++ second) = closure first ∪ closure second := by
  simp only [Constant.closure, List.flatMap_append, List.toFinset_append]

/-- Only which constants are asked for matters, not how often or in which order. -/
theorem closure_congr {first second : List Constant} (same : first.toFinset = second.toFinset) :
    closure first = closure second := by
  ext part
  simp only [mem_closure, ← List.mem_toFinset, same]

/-- **What one edit adds**: a successful addition its closure, and anything else but sealing
nothing. -/
theorem Does.contents {pool pool' : Pool} {edit : Edit} (h : Does pool edit pool')
    (hpool : pool.Invariant) (unsealed : pool.state ≠ .sealed) (unclosed : edit ≠ .close)
    (taken : edit.Taken pool) :
    pool'.contents = pool.contents ∪ closure edit.constant?.toList ∧ pool'.state ≠ .sealed := by
  have nothing : closure [] = ∅ := rfl
  cases h with
  | add constant =>
    obtain ⟨entry, pool', run⟩ := taken
    obtain ⟨grows, -⟩ := (adds_add constant hpool).ok entry pool' run
    rw [Attempt.after, run]
    exact ⟨contents_add hpool run, grows.state_eq ▸ unsealed⟩
  | settle settles growing all =>
    have none : edit.constant? = none := by
      rcases settles with rfl | rfl <;> rfl
    have stable : PoolState.stable ≠ .sealed := by decide
    rw [none, Option.toList_none, nothing, Finset.union_empty]
    exact ⟨(alike_layOut pool _).contents, stable⟩
  | close stable => exact absurd rfl unclosed
  | idle untimely =>
    have none : edit.constant? = none := by
      rcases untimely with ⟨rfl | rfl, -⟩ | ⟨rfl, -⟩ <;> rfl
    rw [none, Option.toList_none, nothing, Finset.union_empty]
    exact ⟨rfl, unsealed⟩

theorem asked_cons (edit : Edit) (history : List Edit) :
    asked (edit :: history) = edit.constant?.toList ++ asked history := by
  cases h : edit.constant? <;> simp [asked, h]

/-- **What a history adds** whose additions all succeed. -/
theorem Takes.contents {history : List Edit} {pool : Pool} (h : pool.Takes history)
    (hpool : pool.Invariant) (unsealed : pool.state ≠ .sealed) (unclosed : Edit.close ∉ history) :
    (pool.after history).contents = pool.contents ∪ closure (asked history) := by
  induction history generalizing pool with
  | nil => exact (Finset.union_empty _).symm
  | cons edit history ih =>
    obtain ⟨taken, later⟩ := h
    obtain ⟨first, unsealed'⟩ := (does_perform pool edit).contents hpool unsealed
      (fun same => unclosed (same ▸ List.mem_cons_self)) taken
    have rest := ih later (hpool.perform edit) unsealed'
      fun hmem => unclosed (List.mem_cons_of_mem edit hmem)
    rw [asked_cons, closure_append, ← Finset.union_assoc, ← first]
    exact rest

/-- **Where there is room for all that a history asks for, its additions all succeed.** -/
theorem Inside.takes {allowed : Finset Constant} {history : List Edit} {pool : Pool}
    (h : Inside allowed pool) (roomy : Roomy allowed) (ours : closure (asked history) ⊆ allowed)
    (unclosed : Edit.close ∉ history) : pool.Takes history := by
  induction history generalizing pool with
  | nil => trivial
  | cons edit history ih =>
    rw [asked_cons, closure_append] at ours
    have first := Finset.union_subset_left ours
    have taken : edit.Taken pool := by
      cases edit with
      | add constant =>
        obtain ⟨entry, pool', run, -⟩ := h.exists_add roomy first
        exact ⟨entry, pool', run⟩
      | stabilize | optimize | close => trivial
    obtain ⟨contents, unsealed⟩ := (does_perform pool edit).contents h.invariant h.unsealed
      (fun same => unclosed (same ▸ List.mem_cons_self)) taken
    have inside : Inside allowed (edit.perform.after pool) := by
      refine ⟨h.invariant.perform edit, unsealed, ?_⟩
      rw [contents]
      exact Finset.union_subset h.contents first
    exact ⟨taken, ih inside (Finset.union_subset_right ours)
      fun hmem => unclosed (List.mem_cons_of_mem edit hmem)⟩

/-- Constants take one index or two. -/
theorem sum_width (constants : Finset Constant) :
    ∑ constant ∈ constants, constant.width =
      (constants.filter (·.width = 1)).card + 2 * (constants.filter (·.width = 2)).card := by
  rw [Finset.card_filter, Finset.card_filter, Finset.mul_sum, ← Finset.sum_add_distrib]
  refine Finset.sum_congr rfl fun constant _ => ?_
  cases constant <;> rfl

theorem roomy_iff (constants : Finset Constant) : Roomy constants ↔
    (∀ text, .utf8 text ∈ constants → (ModifiedUtf8.encode text).length ≤ 65535) ∧
      1 + ∑ constant ∈ constants, constant.width ≤ 65535 := by
  constructor
  · rintro ⟨short, few⟩
    exact ⟨fun text htext => excess?_eq_none_iff.mp (short _ htext) text rfl, few⟩
  · rintro ⟨short, few⟩
    refine ⟨fun constant hconstant => excess?_eq_none_iff.mpr ?_, few⟩
    rintro text rfl
    exact short text hconstant

/-- A fresh pool takes all additions if and only if there is room for their closure. -/
theorem takes_empty_iff {history : List Edit} (unclosed : Edit.close ∉ history) :
    empty.Takes history ↔ Roomy (closure (asked history)) := by
  constructor
  · intro taken
    have contents := taken.contents invariant_empty nofun unclosed
    rw [show empty.contents = ∅ from rfl, Finset.empty_union] at contents
    have hpool := invariant_empty.after history
    rw [← contents]
    refine ⟨fun constant hconstant => ?_, hpool.toContent.nextSlot_eq ▸ hpool.bound⟩
    obtain ⟨entry, present⟩ := mem_contents.mp hconstant
    exact hpool.short entry constant present
  · intro roomy
    have start : Inside (closure (asked history)) empty :=
      ⟨invariant_empty, nofun, Finset.empty_subset _⟩
    exact start.takes roomy subset_rfl unclosed

/-- **A pool holds exactly the closure of what was asked for, in any order.**  Constants are added
to a fresh pool, and its indices are fixed at any time, but it is not sealed.  All additions succeed
if and only if the closure of the constants has no text that is too long and its widths leave room;
the constants of the pool are then this closure.  So neither order nor repetition matters. -/
theorem additions_make_their_closure (history : List Edit) (unclosed : Edit.close ∉ history) :
    (empty.Takes history ↔
      (∀ text, .utf8 text ∈ closure (asked history) →
        (ModifiedUtf8.encode text).length ≤ 65535) ∧
      1 + ∑ constant ∈ closure (asked history), constant.width ≤ 65535) ∧
    (empty.Takes history →
      (empty.after history).contents = closure (asked history) ∧
      (empty.after history).length = (closure (asked history)).card ∧
      (empty.after history).size.toNat =
        1 + ((closure (asked history)).filter (·.width = 1)).card +
          2 * ((closure (asked history)).filter (·.width = 2)).card) ∧
    ∀ other : List Edit, Edit.close ∉ other →
      (asked other).toFinset = (asked history).toFinset →
      (empty.Takes other ↔ empty.Takes history) ∧
      (empty.Takes history →
        (empty.after other).contents = (empty.after history).contents ∧
        (empty.after other).length = (empty.after history).length ∧
        (empty.after other).size = (empty.after history).size) := by
  have holds (some : List Edit) (unclosed : Edit.close ∉ some) (taken : empty.Takes some) :
      (empty.after some).contents = closure (asked some) := by
    have contents := taken.contents invariant_empty nofun unclosed
    rwa [show empty.contents = ∅ from rfl, Finset.empty_union] at contents
  have counted (some : List Edit) : (empty.after some).Content :=
    (invariant_empty.after some).toContent
  refine ⟨(takes_empty_iff unclosed).trans (roomy_iff _), fun taken => ?_, ?_⟩
  · have contents := holds history unclosed taken
    rw [(invariant_empty.after history).toNat_size, (counted history).nextSlot_eq,
      ← (counted history).card_contents, contents, sum_width, Nat.add_assoc]
    exact ⟨rfl, rfl, rfl⟩
  · intro other unclosed' same
    have agree : empty.Takes other ↔ empty.Takes history := by
      rw [takes_empty_iff unclosed, takes_empty_iff unclosed', closure_congr same]
    refine ⟨agree, fun taken => ?_⟩
    have contents : (empty.after other).contents = (empty.after history).contents := by
      rw [holds history unclosed taken, holds other unclosed' (agree.mpr taken), closure_congr same]
    refine ⟨contents, ?_, ?_⟩
    · rw [← (counted other).card_contents, ← (counted history).card_contents, contents]
    · rw [size, size, (counted other).nextSlot_eq, (counted history).nextSlot_eq, contents]

/-- A quotation, its text and a wide number, asked for in two orders: a pool takes them either way,
as three constants with four indices. -/
theorem quotation_and_number_in_any_order :
    let history : List Edit := [.add (.string "a"), .optimize, .add (.long 1), .add (.utf8 "a")]
    let other : List Edit :=
      [.add (.utf8 "a"), .add (.long 1), .add (.string "a"), .add (.utf8 "a")]
    empty.Takes history ∧ empty.Takes other ∧
      (empty.after history).contents = {.string "a", .utf8 "a", .long 1} ∧
      (empty.after history).size.toNat = 5 ∧
      (empty.after other).size = (empty.after history).size := by
  intro history other
  obtain ⟨fits, holds, order⟩ := additions_make_their_closure history (by decide)
  have closed : closure (asked history) = {.string "a", .utf8 "a", .long 1} := by decide
  rw [closed] at fits holds
  have taken : empty.Takes history := by
    refine fits.mpr ⟨fun text htext => ?_, by decide⟩
    obtain rfl : text = "a" := by simpa using htext
    decide
  obtain ⟨agree, same⟩ := order other (by decide) (by decide)
  obtain ⟨contents, -, size⟩ := holds taken
  exact ⟨taken, agree.mpr taken, contents, size, (same taken).2.2⟩

end Pool

end JvmAsm
