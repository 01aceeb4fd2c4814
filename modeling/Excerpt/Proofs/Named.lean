import Mathlib.Data.List.Nodup
import Mathlib.Tactic.TypeStar

/-!
# Lists of named entries

What is found under a name in a list of entries is the first of them with that name. Where no name
is given twice, the order of the entries does not matter.
-/

namespace Excerpt

variable {α β : Type*} [BEq α] [LawfulBEq α] {name other : α} {x : β} {l : List (α × β)}

lemma lookup_cons_ite [DecidableEq α] (e : α × β) (l : List (α × β)) :
    (e :: l).lookup name = if name = e.1 then some e.2 else l.lookup name := by
  rw [List.lookup_cons]
  by_cases h : name = e.1
  · simp [h]
  · simp [h, beq_eq_false_iff_ne.mpr h]

/-- What is found is an entry. -/
lemma mem_of_lookup (h : l.lookup name = some x) : (name, x) ∈ l := by
  obtain ⟨front, back, he, -⟩ := List.lookup_eq_some_iff.mp h
  rw [he]
  simp

lemma lookup_eq_none_iff_forall_ne : l.lookup name = none ↔ ∀ e ∈ l, e.1 ≠ name := by
  rw [List.lookup_eq_none_iff]
  simp only [bne_iff_ne, ne_comm]

/-- Where no name is given twice, the name of the first entry is not given again. -/
lemma lookup_eq_none_of_nodup_cons {e : α × β} (hd : ((e :: l).map Prod.fst).Nodup)
    (h : name = e.1) : l.lookup name = none := by
  rw [List.map_cons, List.nodup_cons] at hd
  exact lookup_eq_none_iff_forall_ne.mpr fun other hother heq =>
    hd.1 (List.mem_map.mpr ⟨other, hother, heq.trans h⟩)

/-- Where no name is given twice, each entry is found. -/
lemma lookup_eq_some_of_mem (hd : (l.map Prod.fst).Nodup) (h : (name, x) ∈ l) :
    l.lookup name = some x := by
  classical
  induction l with
  | nil => cases h
  | cons e l ih =>
    rw [List.map_cons, List.nodup_cons] at hd
    rw [lookup_cons_ite]
    rcases List.mem_cons.mp h with rfl | h
    · rw [if_pos rfl]
    · rw [if_neg fun he => hd.1 (List.mem_map.mpr ⟨_, h, he⟩)]
      exact ih hd.2 h

end Excerpt
