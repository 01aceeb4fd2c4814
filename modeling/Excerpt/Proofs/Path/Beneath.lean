import Excerpt.Proofs.Path.Operations

/-!
# Paths beneath a base

Stripping a base leaves the steps that go on from the base. What is left is relative, so it can be
joined to another base: this is how a file finds its place in a second tree.
-/

namespace Excerpt

namespace Path

/-! ### Stripping -/

lemma bodyComponents_dropSegment (b : Bytes) :
    bodyComponents ((trimFront b).dropWhile (· != slash)) = (bodyComponents b).drop 1 := by
  by_cases h : trimFront b = []
  · have hb : bodyComponents b = [] := by
      rw [← bodyComponents_trimFront, h]
      rfl
    rw [h, hb]
    rfl
  · obtain ⟨c, hc⟩ := exists_step_of_trimFront h
    have hb := bodyComponents_eq_takeWhile_append (trimFront b)
    rw [hc, bodyComponents_trimFront] at hb
    rw [hb]
    rfl

/-- Dropping segments drops as many steps. -/
lemma bodyComponents_dropSegments (n : Nat) (b : Bytes) :
    bodyComponents (dropSegments n b) = (bodyComponents b).drop n := by
  induction n generalizing b with
  | zero => rfl
  | succ n ih =>
    rw [dropSegments, ih, bodyComponents_dropSegment, List.drop_drop, Nat.add_comm]

/-- A trimmed spelling is relative. -/
lemma isAbsolute_trim (b : Bytes) : (⟨trimBack (trimFront b)⟩ : Path).isAbsolute = false := by
  rw [← Bool.not_eq_true, isAbsolute_iff_head]
  intro h
  rcases head?_of_prefix (trimBack_isPrefix (trimFront b)) with he | he
  · simp only [he, List.head?_nil, reduceCtorEq] at h
  · rw [h, eq_comm, List.head?_eq_some_iff] at he
    obtain ⟨rest, hr⟩ := he
    exact (trimFront_eq_cons hr).1 rfl

/-- What is left beneath an absolute base. -/
lemma of_strip?_eq_some {p base rel : Path} (hb : base.isAbsolute = true)
    (h : p.strip? base = some rel) :
    p.isAbsolute = true ∧ p.steps = base.steps ++ rel.steps ∧ rel.isAbsolute = false := by
  unfold strip? at h
  split at h
  · rename_i hs
    obtain ⟨hp, hinitial⟩ := (startsWith_iff hb).mp hs
    have hlen : base.components.length = base.steps.length + 1 := by
      rw [components_eq, lead_of_isAbsolute hb]
      rfl
    have hlead : ∃ rest, p.bytes = slash :: rest ∧ splitLead p.bytes = ([slash], rest) := by
      rw [isAbsolute_iff_head] at hp
      rcases splitLead_cases p.bytes with h | ⟨rest, hr, -, -⟩ | ⟨hn, -, -⟩
      · exact h
      · rw [hr] at hp
        exact absurd hp (by simp [slash, dot])
      · exact absurd hp hn
    obtain ⟨rest, hrest, hsplit⟩ := hlead
    simp only [hlen, hsplit, List.cons_ne_nil, if_false, Option.some.injEq] at h
    have hsteps : rel.steps = p.steps.drop base.steps.length := by
      have hp : p.steps = bodyComponents rest := by
        rw [steps, hrest, bodyComponents_slash_cons]
      rw [← h, hp]
      simp only [steps, bodyComponents_trimBack, bodyComponents_trimFront,
        bodyComponents_dropSegments]
    refine ⟨hp, ?_, by rw [← h]; exact isAbsolute_trim _⟩
    rw [hsteps]
    exact (List.prefix_iff_eq_append.mp hinitial).symm
  · cases h

/-- There is something left exactly beneath the base. -/
lemma strip?_isSome {p base : Path} : (p.strip? base).isSome = p.startsWith base := by
  unfold strip?
  split
  · rename_i h
    rw [h]
    simp only
    split <;> rfl
  · rename_i h
    simpa using h

/-! ### What is joined lies beneath -/

lemma splitLead_append_fst (b c : UInt8) (front rest : Bytes) :
    (splitLead (b :: c :: (front ++ rest))).1 = (splitLead (b :: c :: front)).1 := by
  simp only [splitLead]
  split_ifs <;> rfl

/-- A relative path behind a path leaves what the path starts with. -/
lemma lead_join {p q : Path} (hp : p.bytes ≠ []) (hq : q.isAbsolute = false) :
    (p.join q).lead = p.lead := by
  obtain ⟨b, rest, hb⟩ := List.exists_cons_of_ne_nil hp
  simp only [lead]
  rcases join_bytes (p := p) hq with ⟨h, -⟩ | ⟨front, hfront, h⟩ | ⟨-, hlast, h⟩
  · exact absurd h hp
  · rw [h, hfront]
    rcases front with _ | ⟨b, _ | ⟨c, front⟩⟩
    · rcases hbytes : q.bytes with _ | ⟨a, more⟩ <;> simp [splitLead]
    · exact congrArg leadComponents (splitLead_append_fst b slash [] q.bytes)
    · simp only [List.cons_append]
      rw [splitLead_append_fst, splitLead_append_fst]
  · rw [h, hb]
    rcases rest with _ | ⟨c, rest⟩
    · rw [hb] at hlast
      have hslash : b ≠ slash := by simpa using hlast
      simp only [List.cons_append, List.nil_append, splitLead]
      by_cases hdot : b = dot <;> simp [hslash, hdot]
    · exact congrArg leadComponents (splitLead_append_fst b c rest (slash :: q.bytes))

/-- What is joined to a path lies beneath it. -/
lemma startsWith_join {p q : Path} (hq : q.isAbsolute = false) : (p.join q).startsWith p = true := by
  by_cases hp : p.bytes = []
  · have hnil : p.components = [] := by
      rw [components, hp]
      rfl
    rw [startsWith, hnil]
    rfl
  · rw [startsWith, List.isPrefixOf_iff_prefix, components_eq, components_eq, lead_join hp hq,
      steps_join hq, ← List.append_assoc]
    exact List.prefix_append _ _

/-! ### File names -/

/-- The file name is the last step. -/
lemma of_fileName?_eq_some {p : Path} {n : Bytes} (h : p.fileName? = some n) :
    IsName n ∧ ∃ front, p.steps = front ++ [.name n] := by
  have hlast : p.components.getLast? = some (.name n) := by
    unfold fileName? at h
    split at h
    · rename_i m hm
      cases h
      exact hm
    · cases h
  rw [components_eq] at hlast
  rcases List.eq_nil_or_concat p.steps with hs | ⟨front, c, hs⟩
  · rw [hs, List.append_nil] at hlast
    cases ha : p.isAbsolute with
    | true =>
      rw [lead_of_isAbsolute ha] at hlast
      cases hlast
    | false => rcases lead_of_not_isAbsolute ha with hl | hl <;> rw [hl] at hlast <;> cases hlast
  · rw [List.concat_eq_append] at hs
    rw [hs, ← List.append_assoc, List.getLast?_concat] at hlast
    cases hlast
    have hmem : Component.name n ∈ p.steps := by rw [hs]; simp
    rcases of_mem_steps hmem with hn | ⟨m, hm, hname⟩
    · cases hn
    · cases hm
      exact ⟨hname, front, hs⟩

/-- A file name with an extension has a dot. -/
lemma dot_mem_of_hasExtension {p : Path} {ext : Text} (h : p.hasExtension ext = true) :
    ∃ n, p.fileName? = some n ∧ dot ∈ n := by
  unfold hasExtension extension? at h
  rw [beq_iff_eq, Option.bind_eq_some_iff] at h
  obtain ⟨n, hn, he⟩ := h
  refine ⟨n, hn, ?_⟩
  unfold nameExtension? at he
  cases hd : n.reverse.dropWhile (· != dot) with
  | nil => rw [hd] at he; cases he
  | cons a rest =>
    have ha : a = dot := by
      have := List.head_dropWhile_not (· != dot) (l := n.reverse) (by rw [hd]; simp)
      simpa [hd] using this
    have : a ∈ n.reverse := (List.dropWhile_suffix _).subset (by rw [hd]; exact List.mem_cons_self)
    rw [← ha]
    exact List.mem_reverse.mp this

end Path

end Excerpt
