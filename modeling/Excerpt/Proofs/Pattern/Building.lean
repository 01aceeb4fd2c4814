import Mathlib.Data.List.Forall2
import Excerpt.Proofs.Pattern.Recasting

/-!
# Building patterns of one form

Sequences, repetitions, groups and alternatives of patterns of one form are of one form. Putting the
alternatives of a pattern together once more changes nothing, so a pattern in a group of its own,
which does not capture, is the same pattern.
-/

namespace Excerpt

namespace Pattern

variable {L : Look → Look → Prop} {C : CharSet → CharSet → Prop} {p q r r' : Pattern}
  {ps qs : List Pattern}

/-! ### Sequences and repetitions -/

namespace Recast

lemma zeroWidth_eq (h : Recast L C p q) : q.zeroWidth = p.zeroWidth := by
  induction h with
  | empty | set | look | mark => rfl
  | seq _ _ iha ihb | alt _ _ iha ihb => rw [zeroWidth, zeroWidth, iha, ihb]
  | opt _ _ ih | plus _ _ ih | loop _ _ ih => rw [zeroWidth, zeroWidth, ih]

lemma nullable_eq (h : Recast L C p q) : q.nullable = p.nullable := by
  induction h with
  | empty | set | look | mark | opt | loop => rfl
  | seq _ _ iha ihb | alt _ _ iha ihb => rw [nullable, nullable, iha, ihb]
  | plus _ _ ih => rw [nullable, nullable, ih]

lemma inOrder (h : List.Forall₂ (Recast L C) ps qs) : Recast L C (inOrder ps) (inOrder qs) := by
  induction h with
  | nil => exact .empty
  | cons h _ ih => exact h.andThen ih

lemma star (greedy : Bool) (h : Recast L C r r') : Recast L C (star greedy r) (star greedy r') := by
  rw [Pattern.star, Pattern.star, h.nullable_eq]
  split
  · exact .opt greedy (.plus greedy h)
  · exact .loop greedy h

lemma upTo (greedy : Bool) (h : Recast L C r r') (n : Nat) :
    Recast L C (upTo greedy r n) (upTo greedy r' n) := by
  induction n with
  | zero => exact .empty
  | succ n ih => exact .opt greedy (h.andThen ih)

lemma copies (h : Recast L C r r') (n : Nat) :
    List.Forall₂ (Recast L C) (copies n r) (copies n r') := by
  induction n with
  | zero => exact .nil
  | succ n ih => exact .cons h ih

lemma «repeat» (greedy : Bool) (lo : Nat) (hi : Option Nat) (h : Recast L C r r') :
    Recast L C («repeat» greedy lo hi r) («repeat» greedy lo hi r') := by
  have hlast : ∀ (n : Nat) (p p' : Pattern), Recast L C p p' →
      Recast L C (Pattern.inOrder (Pattern.copies n r ++ [p]))
        (Pattern.inOrder (Pattern.copies n r' ++ [p'])) := by
    intro n p p' hp
    exact inOrder (List.rel_append (h.copies n) (.cons hp .nil))
  rw [Pattern.«repeat», Pattern.«repeat», h.zeroWidth_eq]
  generalize (if r.zeroWidth = true then
    (min lo 1, some ((hi.map (min · 1)).getD 1)) else (lo, hi)) = bounds
  obtain ⟨lo, _ | n⟩ := bounds
  · cases lo with
    | zero => exact h.star greedy
    | succ k => exact hlast k _ _ (.plus greedy h)
  · simp only
    split
    · exact h
    · exact hlast lo _ _ (h.upTo greedy _)

lemma group (index : Nat) (h : Recast L C r r') :
    Recast L C (group index r) (group index r') :=
  .seq (.mark _) (.seq h (.mark _))

/-! ### Alternatives -/

lemma branches (h : Recast L C p q) : List.Forall₂ (Recast L C) (branches p) (branches q) := by
  induction h with
  | alt _ _ iha ihb => exact List.rel_append iha ihb
  | empty => exact .cons .empty .nil
  | set hs => exact .cons (.set hs) .nil
  | look hl => exact .cons (.look hl) .nil
  | mark slot => exact .cons (.mark slot) .nil
  | seq ha hb => exact .cons (.seq ha hb) .nil
  | opt greedy h => exact .cons (.opt greedy h) .nil
  | plus greedy h => exact .cons (.plus greedy h) .nil
  | loop greedy h => exact .cons (.loop greedy h) .nil

lemma flatMap_branches (h : List.Forall₂ (Recast L C) ps qs) :
    List.Forall₂ (Recast L C) (ps.flatMap Pattern.branches) (qs.flatMap Pattern.branches) := by
  induction h with
  | nil => exact .nil
  | cons h _ ih => exact List.rel_append h.branches ih

lemma set?_eq (h : Recast L Eq p q) : q.set? = p.set? := by
  cases h with
  | set hs => rw [hs]
  | _ => rfl

lemma mapM_set?_eq (h : List.Forall₂ (Recast L Eq) ps qs) : qs.mapM set? = ps.mapM set? := by
  induction h with
  | nil => rfl
  | cons h _ ih => rw [List.mapM_cons, List.mapM_cons, h.set?_eq, ih]

lemma foldl_alt (h : List.Forall₂ (Recast L C) ps qs) (hr : Recast L C r r') :
    Recast L C (ps.foldl (fun rest q => Pattern.alt q rest) r)
      (qs.foldl (fun rest q => Pattern.alt q rest) r') := by
  induction h generalizing r r' with
  | nil => exact hr
  | cons h _ ih => exact ih (.alt h hr)

lemma oneOf (h : List.Forall₂ (Recast L Eq) ps qs) : Recast L Eq (oneOf ps) (oneOf qs) := by
  have hall := flatMap_branches h
  have hreverse := List.rel_reverse hall
  rw [Pattern.oneOf, Pattern.oneOf]
  simp only [mapM_set?_eq hall]
  split
  · exact .set rfl
  · generalize (ps.flatMap Pattern.branches).reverse = before at hreverse ⊢
    generalize (qs.flatMap Pattern.branches).reverse = before' at hreverse ⊢
    cases hreverse with
    | nil => exact .empty
    | cons hlast hbefore => exact foldl_alt hbefore hlast

end Recast

/-! ### Groups that do not capture -/

lemma branches_of_mem_branches (p : Pattern) : ∀ q ∈ branches p, branches q = [q] := by
  induction p with
  | alt a b iha ihb =>
    intro q hq
    exact (List.mem_append.mp hq).elim (iha q) (ihb q)
  | _ =>
    intro q hq
    cases List.mem_singleton.mp hq
    rfl

lemma branches_foldl_alt (h : ∀ q ∈ ps, branches q = [q]) (p : Pattern) :
    branches (ps.foldl (fun rest q => alt q rest) p) = ps.reverse ++ branches p := by
  induction ps generalizing p with
  | nil => rfl
  | cons q ps ih =>
    rw [List.foldl_cons, ih fun r hr => h r (List.mem_cons_of_mem _ hr), branches,
      h q List.mem_cons_self]
    simp

lemma oneOf_cases (ps : List Pattern) :
    (∃ s, oneOf ps = set s) ∨ oneOf ps = empty ∨ branches (oneOf ps) = ps.flatMap branches := by
  have halone : ∀ q ∈ ps.flatMap branches, branches q = [q] := by
    intro q hq
    obtain ⟨p, -, hmem⟩ := List.mem_flatMap.mp hq
    exact branches_of_mem_branches p q hmem
  rw [oneOf]
  split
  · exact Or.inl ⟨_, rfl⟩
  · split
    · exact Or.inr (Or.inl rfl)
    · rename_i last before hreverse
      have hall : ps.flatMap branches = before.reverse ++ [last] := by
        rw [← List.reverse_reverse (ps.flatMap branches), hreverse, List.reverse_cons]
      rw [hall] at halone
      refine Or.inr (Or.inr ?_)
      rw [branches_foldl_alt fun q hq => halone q (by simp [hq]), halone last (by simp), hall]

/-- Putting alternatives together twice is putting them together once. -/
theorem oneOf_oneOf (ps : List Pattern) : oneOf [oneOf ps] = oneOf ps := by
  rcases oneOf_cases ps with ⟨s, hs⟩ | hempty | hbranches
  · rw [hs]
    rfl
  · rw [hempty]
    rfl
  · have hall : [oneOf ps].flatMap branches = ps.flatMap branches := by simp [hbranches]
    conv_lhs => rw [oneOf, hall]
    rfl

@[simp] lemma inOrder_singleton (p : Pattern) : inOrder [p] = p := andThen_empty p

end Pattern

end Excerpt
