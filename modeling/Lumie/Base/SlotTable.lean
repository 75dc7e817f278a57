import Mathlib.Data.List.Find
import Mathlib.Data.List.Forall2

/-!
# Tables kept in slots

A list of records stored in slots, of which some are live and hold the records
in order.  What is done with each live slot is done with each record, and a
search over all slots agrees with the search over the records as long as no
hidden slot comes in its way.
-/

set_option autoImplicit false

namespace SlotTable

variable {Slot Record : Type*}

/-- The live slots hold the records, in order. -/
def Keeps (live : Slot → Bool) (holds : Slot → Record → Prop)
    (slots : List Slot) (records : List Record) : Prop :=
  List.Forall₂ holds (slots.filter live) records

theorem rel_find? {holds : Slot → Record → Prop} {wanted : Slot → Bool}
    {named : Record → Bool}
    (agree : ∀ slot record, holds slot record → wanted slot = named record)
    {slots : List Slot} {records : List Record}
    (stored : List.Forall₂ holds slots records) :
    Option.Rel holds (slots.find? wanted) (records.find? named) := by
  induction stored with
  | nil => exact .none
  | @cons slot record slots records here rest ih =>
      rw [List.find?_cons, List.find?_cons, agree slot record here]
      cases named record with
      | true => exact .some here
      | false => exact ih

section Keeps

variable {live : Slot → Bool} {holds : Slot → Record → Prop}
  {slots : List Slot} {records : List Record}

theorem Keeps.flatMap_eq {Item : Type*} (keeps : Keeps live holds slots records)
    {shown : Slot → List Item} {shows : Record → List Item}
    (agree : ∀ slot record, holds slot record → shown slot = shows record) :
    (slots.filter live).flatMap shown = records.flatMap shows := by
  unfold Keeps at keeps
  generalize slots.filter live = stored at keeps
  induction keeps with
  | nil => rfl
  | cons here _ ih => rw [List.flatMap_cons, List.flatMap_cons, ih, agree _ _ here]

section Search

variable {wanted : Slot → Bool} {named : Record → Bool}

theorem Keeps.find_filter (keeps : Keeps live holds slots records)
    (agree : ∀ slot record, holds slot record → wanted slot = named record) :
    Option.Rel holds ((slots.filter live).find? wanted) (records.find? named) :=
  rel_find? agree keeps

/-- When all slots that the search accepts are live, it finds the slot of the
record. -/
theorem Keeps.find_live (keeps : Keeps live holds slots records)
    (agree : ∀ slot record, holds slot record → wanted slot = named record)
    (unhidden : ∀ slot ∈ slots, wanted slot = true → live slot = true) :
    Option.Rel holds (slots.find? wanted) (records.find? named) := by
  have both : ∀ slot ∈ slots,
      decide (live slot = true ∧ wanted slot = true) = wanted slot := by
    intro slot member
    cases accepted : wanted slot with
    | true => simp [unhidden slot member accepted]
    | false => simp
  have search := keeps.find_filter agree
  rwa [List.find?_filter, List.find?_congr both] at search

theorem Keeps.find_absent (keeps : Keeps live holds slots records)
    (agree : ∀ slot record, holds slot record → wanted slot = named record)
    (absent : records.find? named = none) {slot : Slot}
    (found : slots.find? wanted = some slot) : live slot = false := by
  have search := keeps.find_filter agree
  rw [absent] at search
  generalize stored : (slots.filter live).find? wanted = result at search
  cases search
  rw [List.find?_eq_none] at stored
  by_contra shown
  have member : slot ∈ slots.filter live :=
    List.mem_filter.mpr ⟨List.mem_of_find?_eq_some found, by simpa using shown⟩
  exact stored slot member (List.find?_some found)

end Search

end Keeps

end SlotTable
