import Excerpt.Proofs.Path.Order
import Excerpt.Trace.Monitor

/-!
# What a monitor notes

A monitor adds a file for each event that opens one, if it counts. So what it has noted at the end
depends on which events there were, and neither on their order nor on how often they came.
-/

namespace Excerpt

namespace Monitor

variable {w : Watch} {m : Monitor} {e : TraceEvent} {es : List TraceEvent} {p q : Path}

/-- An event adds the path of the object that it opens, if the object counts. -/
lemma addition?_eq_some :
    addition? w e = some p ↔ ∃ o, opened? w e = some o ∧ counts w o = true ∧ o.path = p := by
  simp only [addition?]
  rw [Option.bind_eq_some_iff]
  refine exists_congr fun o => and_congr_right fun _ => ?_
  split
  · rename_i h
    rw [h, Option.some.injEq]
    simp
  · rename_i h
    simp [h]

/-- The set after an event has the file that the event adds, if there is one. -/
lemma used_observe :
    (observe w m e).used = (addition? w e).elim m.used m.used.insert := by
  unfold observe
  split
  · rfl
  · cases addition? w e <;> rfl

lemma mem_observe (h : q ∈ (observe w m e).used.toList) :
    q ∈ m.used.toList ∨ addition? w e = some q := by
  rw [used_observe] at h
  cases ha : addition? w e with
  | none => rw [ha] at h; exact Or.inl h
  | some p =>
    rw [ha] at h
    rcases PathSet.mem_insert h with rfl | h
    · exact Or.inr rfl
    · exact Or.inl h

lemma contains_observe :
    (observe w m e).used.contains q = true ↔
      m.used.contains q = true ∨ ∃ p, addition? w e = some p ∧ p.same q = true := by
  rw [used_observe]
  cases ha : addition? w e with
  | none => simp
  | some p => simp [PathSet.contains_insert]

/-! ### Whole traces -/

lemma mem_foldl_observe (h : q ∈ (es.foldl (observe w) m).used.toList) :
    q ∈ m.used.toList ∨ ∃ e ∈ es, addition? w e = some q := by
  induction es generalizing m with
  | nil => exact Or.inl h
  | cons e es ih =>
    rcases ih h with h | ⟨d, hd, ha⟩
    · rcases mem_observe h with h | h
      · exact Or.inl h
      · exact Or.inr ⟨e, List.mem_cons_self, h⟩
    · exact Or.inr ⟨d, List.mem_cons_of_mem _ hd, ha⟩

lemma contains_foldl_observe :
    (es.foldl (observe w) m).used.contains q = true ↔
      m.used.contains q = true ∨ ∃ e ∈ es, ∃ p, addition? w e = some p ∧ p.same q = true := by
  induction es generalizing m with
  | nil => simp
  | cons e es ih =>
    rw [List.foldl_cons, ih, contains_observe, or_assoc]
    simp only [List.mem_cons, exists_eq_or_imp]

/-- A trace adds the files of its lines. -/
lemma mem_observeTrace {trace : Text} (h : q ∈ (observeTrace w m trace).used.toList) :
    q ∈ m.used.toList ∨
      ∃ line ∈ Text.lines trace, addition? w (TraceEvent.parse line) = some q := by
  rcases mem_foldl_observe h with h | ⟨e, he, ha⟩
  · exact Or.inl h
  · obtain ⟨line, hline, rfl⟩ := List.mem_map.mp he
    exact Or.inr ⟨line, hline, ha⟩

lemma contains_observeTrace {trace : Text} :
    (observeTrace w m trace).used.contains q = true ↔
      m.used.contains q = true ∨ ∃ line ∈ Text.lines trace, ∃ p,
        addition? w (TraceEvent.parse line) = some p ∧ p.same q = true := by
  rw [observeTrace, contains_foldl_observe]
  simp only [List.mem_map, exists_exists_and_eq_and]

/-- Traces that are taken in one after the other add the files of their lines. -/
lemma mem_foldl_observeTrace {traces : List Text}
    (h : q ∈ (traces.foldl (observeTrace w) m).used.toList) :
    q ∈ m.used.toList ∨ ∃ trace ∈ traces, ∃ line ∈ Text.lines trace,
      addition? w (TraceEvent.parse line) = some q := by
  induction traces generalizing m with
  | nil => exact Or.inl h
  | cons trace traces ih =>
    rcases ih h with h | ⟨t, ht, hline⟩
    · rcases mem_observeTrace h with h | hline
      · exact Or.inl h
      · exact Or.inr ⟨trace, List.mem_cons_self, hline⟩
    · exact Or.inr ⟨t, List.mem_cons_of_mem _ ht, hline⟩

end Monitor

end Excerpt
