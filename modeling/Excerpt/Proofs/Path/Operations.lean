import Excerpt.Proofs.Path.Steps

/-!
# Operations on paths, by their steps

Joining adds steps at the end, the parent drops the last one, and stripping a base drops those of
the base. With `components_eq` the relations between paths, which look at components, become
relations between lists of steps.
-/

namespace Excerpt

namespace Path

/-! ### Components -/

/-- What a path starts with: the root, a `.`, or nothing. -/
def lead (p : Path) : List Component := leadComponents (splitLead p.bytes).1

/-- The three ways in which a path starts. -/
lemma splitLead_cases (b : Bytes) :
    (∃ rest, b = slash :: rest ∧ splitLead b = ([slash], rest)) ∨
    (∃ rest, b = dot :: rest ∧ (rest = [] ∨ rest.head? = some slash) ∧
      splitLead b = ([dot], rest)) ∨
    (b.head? ≠ some slash ∧ (∀ rest, b = dot :: rest → rest ≠ [] ∧ rest.head? ≠ some slash) ∧
      splitLead b = ([], b)) := by
  match b with
  | [] => exact Or.inr (Or.inr ⟨by simp, by simp, rfl⟩)
  | [a] =>
    by_cases h : a = slash ∨ a = dot
    · rcases h with rfl | rfl
      · exact Or.inl ⟨[], rfl, rfl⟩
      · exact Or.inr (Or.inl ⟨[], rfl, Or.inl rfl, rfl⟩)
    · have hs : splitLead [a] = ([], [a]) := by rw [splitLead, if_neg h]
      rw [not_or] at h
      refine Or.inr (Or.inr ⟨by simpa using h.1, ?_, hs⟩)
      intro rest he
      rw [List.cons.injEq] at he
      exact absurd he.1 h.2
  | a :: c :: rest =>
    by_cases h : a = slash ∨ (a = dot ∧ c = slash)
    · rcases h with rfl | ⟨rfl, rfl⟩
      · exact Or.inl ⟨c :: rest, rfl, rfl⟩
      · exact Or.inr (Or.inl ⟨slash :: rest, rfl, Or.inr rfl, rfl⟩)
    · have hs : splitLead (a :: c :: rest) = ([], a :: c :: rest) := by rw [splitLead, if_neg h]
      rw [not_or, not_and] at h
      refine Or.inr (Or.inr ⟨by simpa using h.1, ?_, hs⟩)
      intro more he
      rw [List.cons.injEq] at he
      obtain ⟨rfl, rfl⟩ := he
      exact ⟨by simp, by simpa using h.2 rfl⟩

/-- The components of a path are what it starts with and its steps. -/
lemma components_eq (p : Path) : p.components = p.lead ++ p.steps := by
  simp only [components, lead, steps]
  rcases splitLead_cases p.bytes with ⟨rest, hb, hs⟩ | ⟨rest, hb, hr, hs⟩ | ⟨-, -, hs⟩
  · rw [hs, hb, bodyComponents_slash_cons]
  · rw [hs, hb]
    rcases hr with rfl | hr
    · simp
    · obtain ⟨more, rfl⟩ : ∃ more, rest = slash :: more := by
        cases rest with
        | nil => simp at hr
        | cons a more => exact ⟨more, by simpa using hr⟩
      simp
  · rw [hs]

lemma isAbsolute_iff_head (p : Path) : p.isAbsolute = true ↔ p.bytes.head? = some slash := by
  simp only [isAbsolute]
  exact beq_iff_eq

lemma lead_of_isAbsolute {p : Path} (h : p.isAbsolute = true) : p.lead = [.root] := by
  rw [isAbsolute_iff_head] at h
  simp only [lead]
  rcases splitLead_cases p.bytes with ⟨rest, -, hs⟩ | ⟨rest, hb, -, hs⟩ | ⟨hb, -, hs⟩
  · rw [hs]; rfl
  · rw [hb] at h
    exact absurd h (by simp [slash, dot])
  · exact absurd h hb

/-- A path that does not start at the root starts with `.` or with nothing. -/
lemma lead_of_not_isAbsolute {p : Path} (h : p.isAbsolute = false) :
    p.lead = [] ∨ p.lead = [.current] := by
  simp only [lead]
  rcases splitLead_cases p.bytes with ⟨rest, hb, hs⟩ | ⟨rest, -, -, hs⟩ | ⟨-, -, hs⟩
  · have : p.isAbsolute = true := (isAbsolute_iff_head p).mpr (by rw [hb]; rfl)
    rw [this] at h
    cases h
  · rw [hs]; exact Or.inr rfl
  · rw [hs]; exact Or.inl rfl

lemma isAbsolute_eq_of_lead {p q : Path} (h : p.lead = q.lead) : p.isAbsolute = q.isAbsolute := by
  have hroot : ∀ {p q : Path}, p.lead = q.lead → p.isAbsolute = true → q.isAbsolute = true := by
    intro p q h hp
    by_contra hq
    rw [lead_of_isAbsolute hp] at h
    rcases lead_of_not_isAbsolute (Bool.eq_false_iff.mpr hq) with hlead | hlead <;>
      rw [hlead] at h <;> cases h
  rw [Bool.eq_iff_iff]
  exact ⟨hroot h, hroot h.symm⟩

lemma step_ne_root {p : Path} {c : Component} (h : c ∈ p.steps) : c ≠ .root ∧ c ≠ .current := by
  rcases of_mem_steps h with rfl | ⟨n, rfl, -⟩ <;> simp

/-- Spellings of one path start at the same place and have the same steps. -/
lemma same_iff {p q : Path} : p.same q = true ↔ p.lead = q.lead ∧ p.steps = q.steps := by
  simp only [same]
  rw [beq_iff_eq, components_eq, components_eq]
  constructor
  · intro h
    have hleads : ∀ r : Path, r.lead = [] ∨ ∃ c, r.lead = [c] ∧ (c = .root ∨ c = .current) := by
      intro r
      cases hr : r.isAbsolute with
      | true => exact Or.inr ⟨_, lead_of_isAbsolute hr, Or.inl rfl⟩
      | false =>
        rcases lead_of_not_isAbsolute hr with hl | hl
        · exact Or.inl hl
        · exact Or.inr ⟨_, hl, Or.inr rfl⟩
    have hfirst : ∀ (r t : Path) (c : Component), (c = .root ∨ c = .current) →
        r.lead = [c] → t.lead = [] → r.lead ++ r.steps ≠ t.lead ++ t.steps := by
      intro r t c hc hr ht he
      rw [hr, ht, List.nil_append] at he
      have hmem : c ∈ t.steps := by rw [← he]; exact List.mem_cons_self
      rcases hc with rfl | rfl
      · exact (step_ne_root hmem).1 rfl
      · exact (step_ne_root hmem).2 rfl
    rcases hleads p with hp | ⟨c, hp, hc⟩ <;> rcases hleads q with hq | ⟨d, hq, hd⟩
    · rw [hp, hq] at h
      exact ⟨by rw [hp, hq], by simpa using h⟩
    · exact absurd h.symm (hfirst q p d hd hq hp)
    · exact absurd h (hfirst p q c hc hp hq)
    · rw [hp, hq, List.cons_append, List.cons_append, List.cons.injEq] at h
      exact ⟨by rw [hp, hq, h.1], by simpa using h.2⟩
  · rintro ⟨hl, hs⟩
    rw [hl, hs]

lemma same_iff_of_isAbsolute {p q : Path} (hp : p.isAbsolute = true) (hq : q.isAbsolute = true) :
    p.same q = true ↔ p.steps = q.steps := by
  rw [same_iff, lead_of_isAbsolute hp, lead_of_isAbsolute hq]
  simp

/-- Beneath an absolute path there are the absolute paths whose steps go on from its steps. -/
lemma startsWith_iff {p base : Path} (hb : base.isAbsolute = true) :
    p.startsWith base = true ↔ p.isAbsolute = true ∧ base.steps <+: p.steps := by
  simp only [startsWith]
  rw [List.isPrefixOf_iff_prefix, components_eq, components_eq, lead_of_isAbsolute hb]
  constructor
  · intro h
    cases hp : p.isAbsolute with
    | true =>
      rw [lead_of_isAbsolute hp, List.cons_append, List.cons_append, List.cons_prefix_cons] at h
      exact ⟨rfl, by simpa using h.2⟩
    | false =>
      have hmem : Component.root ∈ p.lead ++ p.steps := h.subset List.mem_cons_self
      rcases List.mem_append.mp hmem with hm | hm
      · rcases lead_of_not_isAbsolute hp with hl | hl <;> rw [hl] at hm <;> simp at hm
      · exact absurd rfl (step_ne_root hm).1
  · rintro ⟨hp, h⟩
    rw [lead_of_isAbsolute hp]
    simpa using h

/-! ### Joining -/

/-- A path that starts with another takes its steps first. -/
lemma of_startsWith {p base : Path} (h : p.startsWith base = true) (hb : base.steps ≠ []) :
    base.steps <+: p.steps ∧ p.isAbsolute = base.isAbsolute := by
  cases hbase : base.isAbsolute with
  | true =>
    obtain ⟨hp, hsteps⟩ := (startsWith_iff hbase).mp h
    exact ⟨hsteps, hp⟩
  | false =>
    obtain ⟨c, rest, hc⟩ := List.exists_cons_of_ne_nil hb
    have hstep : ∀ c ∈ base.steps, c ≠ .root ∧ c ≠ .current := fun c => step_ne_root
    have hstep' : ∀ c ∈ p.steps, c ≠ .root ∧ c ≠ .current := fun c => step_ne_root
    rw [startsWith, List.isPrefixOf_iff_prefix, components_eq, components_eq] at h
    cases hp : p.isAbsolute with
    | true =>
      rw [lead_of_isAbsolute hp] at h
      rcases lead_of_not_isAbsolute hbase with hl | hl <;> rw [hl] at h
      · rw [hc] at h hstep
        simp only [List.nil_append, List.cons_append, List.cons_prefix_cons] at h
        exact absurd h.1 (hstep c List.mem_cons_self).1
      · simp at h
    | false =>
      refine ⟨?_, rfl⟩
      rcases lead_of_not_isAbsolute hbase with hl | hl <;>
        rcases lead_of_not_isAbsolute hp with hl' | hl' <;> rw [hl, hl'] at h
      · simpa using h
      · rw [hc] at h hstep
        simp only [List.nil_append, List.cons_append, List.cons_prefix_cons] at h
        exact absurd h.1 (hstep c List.mem_cons_self).2
      · exact absurd rfl (hstep' .current (h.subset List.mem_cons_self)).2
      · simpa using h

/-- The spelling of a joined path. -/
lemma join_bytes {p q : Path} (hq : q.isAbsolute = false) :
    (p.bytes = [] ∧ p.join q = q) ∨
    (∃ front, p.bytes = front ++ [slash] ∧ p.join q = ⟨front ++ slash :: q.bytes⟩) ∨
    (p.bytes ≠ [] ∧ p.bytes.getLast? ≠ some slash ∧ p.join q = ⟨p.bytes ++ slash :: q.bytes⟩) := by
  simp only [join]
  rw [if_neg (by simp [hq])]
  cases hl : p.bytes.getLast? with
  | none => exact Or.inl ⟨List.getLast?_eq_none_iff.mp hl, rfl⟩
  | some b =>
    obtain ⟨front, hf⟩ := List.getLast?_eq_some_iff.mp hl
    by_cases hb : b = slash
    · subst hb
      exact Or.inr (Or.inl ⟨front, hf, by simp [hf]⟩)
    · exact Or.inr (Or.inr ⟨by simp [hf], by simpa using hb, by simp [hb]⟩)

@[simp] lemma steps_join {p q : Path} (hq : q.isAbsolute = false) :
    (p.join q).steps = p.steps ++ q.steps := by
  simp only [steps]
  rcases join_bytes (p := p) hq with ⟨hp, h⟩ | ⟨front, hp, h⟩ | ⟨-, -, h⟩
  · rw [h, hp]; rfl
  · rw [h, hp, bodyComponents_append_slash, bodyComponents_append_slash]
    simp
  · rw [h, bodyComponents_append_slash]

lemma join_bytes_ne_nil {p q : Path} (hp : p.bytes ≠ []) (hq : q.isAbsolute = false) :
    (p.join q).bytes ≠ [] := by
  rcases join_bytes (p := p) hq with ⟨h, -⟩ | ⟨front, -, h⟩ | ⟨-, -, h⟩
  · exact absurd h hp
  · rw [h]; simp
  · rw [h]; simp

lemma isAbsolute_join {p q : Path} (hp : p.bytes ≠ []) (hq : q.isAbsolute = false) :
    (p.join q).isAbsolute = p.isAbsolute := by
  have hhead : (p.join q).bytes.head? = p.bytes.head? := by
    obtain ⟨a, rest, ha⟩ := List.exists_cons_of_ne_nil hp
    rcases join_bytes (p := p) hq with ⟨h, -⟩ | ⟨front, hf, h⟩ | ⟨-, -, h⟩
    · exact absurd h hp
    · rw [h, hf]
      cases front <;> rfl
    · rw [h, ha]; rfl
  simp only [isAbsolute]
  rw [hhead]

/-- Joining works on the last piece of a spelling. -/
lemma join_behind_slash (front : Bytes) {q r : Path} (hr : r.isAbsolute = false) :
    (⟨front ++ slash :: q.bytes⟩ : Path).join r = ⟨front ++ slash :: (q.join r).bytes⟩ := by
  simp only [join, hr]
  cases hlast : q.bytes.getLast? with
  | none =>
    rw [List.getLast?_eq_none_iff.mp hlast]
    simp
  | some b =>
    obtain ⟨body, hbody⟩ := List.getLast?_eq_some_iff.mp hlast
    have hwhole : (front ++ slash :: q.bytes).getLast? = some b := by
      rw [hbody, ← List.cons_append, ← List.append_assoc, List.getLast?_concat]
    rw [hwhole]
    by_cases hb : b = slash <;> simp [hb]

/-- Relative paths can be joined in any order. -/
lemma join_join {p q r : Path} (hq : q.isAbsolute = false) (hr : r.isAbsolute = false) :
    (p.join q).join r = p.join (q.join r) := by
  have hqr : (q.join r).isAbsolute = false := by
    by_cases hne : q.bytes = []
    · rcases join_bytes (p := q) hr with ⟨-, h⟩ | ⟨front, hf, -⟩ | ⟨hne', -⟩
      · rw [h, hr]
      · simp [hne] at hf
      · exact absurd hne hne'
    · rw [isAbsolute_join hne hr, hq]
  rcases join_bytes (p := p) hq with ⟨hp, h⟩ | ⟨front, hp, h⟩ | ⟨hp, hlast, h⟩ <;>
    rcases join_bytes (p := p) hqr with ⟨hp', h'⟩ | ⟨front', hp', h'⟩ | ⟨hp', hlast', h'⟩
  · rw [h, h']
  · simp [hp] at hp'
  · exact absurd hp hp'
  · simp [hp'] at hp
  · obtain rfl : front = front' := by simpa [hp] using hp'
    rw [h, h', join_behind_slash front hr]
  · simp [hp] at hlast'
  · exact absurd hp' hp
  · simp [hp'] at hlast
  · rw [h, h', join_behind_slash p.bytes hr]

/-- Names are read relative to what they are joined to. -/
lemma IsName.isAbsolute {n : Bytes} (h : IsName n) : (⟨n⟩ : Path).isAbsolute = false := by
  obtain ⟨a, rest, rfl⟩ := List.exists_cons_of_ne_nil h.ne_nil
  have ha : a ≠ slash := fun he => h.noSlash (he ▸ List.mem_cons_self)
  rw [← Bool.not_eq_true, isAbsolute_iff_head]
  simpa using ha

lemma steps_child {p : Path} {n : Bytes} (h : IsName n) :
    (p.child n).steps = p.steps ++ [.name n] := by
  rw [child, steps_join h.isAbsolute]
  congr 1
  exact h.bodyComponents

lemma isAbsolute_child {p : Path} {n : Bytes} (hp : p.isAbsolute = true) (h : IsName n) :
    (p.child n).isAbsolute = true := by
  rw [child, isAbsolute_join _ h.isAbsolute, hp]
  rintro he
  rw [isAbsolute_iff_head, he] at hp
  cases hp

lemma bytes_ne_nil_of_isAbsolute {p : Path} (h : p.isAbsolute = true) : p.bytes ≠ [] := by
  intro he
  rw [isAbsolute_iff_head, he] at h
  cases h

/-- Whatever is joined to an absolute path gives an absolute path. -/
lemma isAbsolute_join_of_left {p : Path} (hp : p.isAbsolute = true) (q : Path) :
    (p.join q).isAbsolute = true := by
  cases hq : q.isAbsolute with
  | true => rwa [join, if_pos hq]
  | false => rw [isAbsolute_join (bytes_ne_nil_of_isAbsolute hp) hq, hp]

/-! ### The parent -/

/-- The steps of a spelling that was trimmed at its end, without its last segment. -/
lemma bodyComponents_dropLastSegment {b : Bytes} (h : trimBack b ≠ []) :
    bodyComponents (dropLastSegment (trimBack b)) = (bodyComponents b).dropLast := by
  have hne : trimFront b.reverse ≠ [] := fun he => h (by rw [trimBack, he]; rfl)
  obtain ⟨c, hc⟩ := exists_step_of_trimFront hne
  set t := trimFront b.reverse with ht
  have hlast : bodyComponents (t.takeWhile (· != slash)).reverse ≠ [] ∧
      (bodyComponents (t.takeWhile (· != slash)).reverse).length = 1 := by
    rw [bodyComponents_of_noSlash (fun hs => noSlash_takeWhile t (List.mem_reverse.mp hs))]
    have hsome : segmentComponent? (t.takeWhile (· != slash)).reverse ≠ none := by
      intro hn
      have := segmentComponent?_eq_none hn
      rcases segmentComponent?_eq_some hc with ⟨he, -⟩ | ⟨h1, h2, -, -⟩
      · rw [he] at this
        simp at this
      · simp [h1] at this
        exact h2 this
    obtain ⟨d, hd⟩ := Option.ne_none_iff_exists'.mp hsome
    rw [hd]
    simp
  have hbody : bodyComponents b = bodyComponents t.reverse := by
    rw [ht, bodyComponents_reverse_trimFront, List.reverse_reverse]
  have hdrop : dropLastSegment (trimBack b) = (t.dropWhile (· != slash)).reverse := by
    rw [dropLastSegment, trimBack, List.reverse_reverse]
  rw [hdrop, hbody]
  obtain ⟨last, hl⟩ := List.length_eq_one_iff.mp hlast.2
  have hsplit := List.takeWhile_append_dropWhile (p := (· != slash)) (l := t)
  cases hd : t.dropWhile (· != slash) with
  | nil =>
    rw [hd, List.append_nil] at hsplit
    rw [← hsplit, hl]
    rfl
  | cons a rest =>
    have ha : a = slash := by
      have := List.head_dropWhile_not (· != slash) (l := t) (by rw [hd]; simp)
      simpa [hd] using this
    subst ha
    have hrev : t.reverse = rest.reverse ++ slash :: (t.takeWhile (· != slash)).reverse := by
      conv_lhs => rw [← hsplit, hd]
      simp
    rw [hrev, bodyComponents_append_slash, hl, List.dropLast_concat, List.reverse_cons,
      bodyComponents_append_slash]
    simp

lemma trimFront_suffix (b : Bytes) : trimFront b <:+ b := by
  fun_induction trimFront b with
  | case1 => exact List.suffix_rfl
  | case2 => exact List.nil_suffix
  | case3 => exact List.suffix_rfl
  | case4 c rest ih => exact ih.trans (List.suffix_cons ..)
  | case5 b c rest _ _ ih => exact ih.trans ((List.suffix_cons ..).trans (List.suffix_cons ..))
  | case6 => exact List.suffix_rfl

lemma trimBack_isPrefix (b : Bytes) : trimBack b <+: b := by
  have := List.reverse_prefix.mpr (trimFront_suffix b.reverse)
  rwa [List.reverse_reverse] at this

lemma dropLastSegment_isPrefix (b : Bytes) : dropLastSegment b <+: b := by
  have := List.reverse_prefix.mpr (List.dropWhile_suffix (l := b.reverse) (· != slash))
  rwa [List.reverse_reverse] at this

/-- A shorter spelling that is not empty starts the same way. -/
lemma head?_of_prefix {a b : Bytes} (h : a <+: b) : a = [] ∨ a.head? = b.head? := by
  obtain ⟨c, rfl⟩ := h
  cases a with
  | nil => exact Or.inl rfl
  | cons x a => exact Or.inr rfl

/-- A path with a step has a parent. -/
lemma exists_parent {p : Path} (h : p.steps ≠ []) : ∃ q, p.parent? = some q := by
  have hcomp := components_eq p
  unfold components at hcomp
  rw [lead, List.append_cancel_left_eq] at hcomp
  simp only [parent?]
  split
  · rename_i hbody
    refine absurd ?_ h
    rw [← hcomp, ← bodyComponents_trimBack, hbody]
    rfl
  · exact ⟨_, rfl⟩

/-- The parent of a path lacks its last step, and starts at the root if the path does. -/
lemma of_parent?_eq_some {p q : Path} (h : p.parent? = some q) :
    q.steps = p.steps.dropLast ∧ q.isAbsolute = p.isAbsolute := by
  have hcomp := components_eq p
  unfold components at hcomp
  rw [lead, List.append_cancel_left_eq] at hcomp
  simp only [parent?] at h
  split at h
  · rename_i hbody
    split at h
    · rename_i hlead
      obtain rfl : empty = q := by simpa using h
      have hnil : p.steps = [] := by
        rw [← hcomp, ← bodyComponents_trimBack, hbody]
        rfl
      refine ⟨by rw [hnil]; rfl, ?_⟩
      rcases splitLead_cases p.bytes with ⟨rest, -, hs⟩ | ⟨rest, hb, -, -⟩ | ⟨-, -, hs⟩
      · rw [hs] at hlead
        exact absurd hlead (by simp [slash, dot])
      · rw [isAbsolute, isAbsolute, hb]
        rfl
      · rw [hs] at hlead
        exact absurd hlead (by simp)
    · cases h
  · rename_i hbody
    set x := trimBack (dropLastSegment (trimBack (splitLead p.bytes).2)) with hx
    have hsteps : bodyComponents x = p.steps.dropLast := by
      rw [hx, bodyComponents_trimBack, bodyComponents_dropLastSegment hbody, hcomp]
    have hinitial : x <+: (splitLead p.bytes).2 :=
      (trimBack_isPrefix _).trans ((dropLastSegment_isPrefix _).trans (trimBack_isPrefix _))
    obtain rfl : (⟨(splitLead p.bytes).1 ++ x⟩ : Path) = q := by simpa using h
    rcases splitLead_cases p.bytes with ⟨rest, hb, hs⟩ | ⟨rest, hb, hr, hs⟩ | ⟨hb, -, hs⟩
    · rw [hs] at hinitial ⊢
      refine ⟨by rw [← hsteps, steps]; exact bodyComponents_slash_cons x, ?_⟩
      rw [isAbsolute, isAbsolute, hb]
      rfl
    · rw [hs] at hinitial ⊢
      have hx' : x = [] ∨ x.head? = some slash := by
        rcases head?_of_prefix hinitial with he | he
        · exact Or.inl he
        · rcases hr with hr | hr
          · exact Or.inl (List.prefix_nil.mp (hr ▸ hinitial))
          · exact Or.inr (he.trans hr)
      refine ⟨?_, by rw [isAbsolute, isAbsolute, hb]; rfl⟩
      rw [← hsteps, steps]
      rcases hx' with he | he
      · rw [he]; rfl
      · obtain ⟨more, hm⟩ := List.head?_eq_some_iff.mp he
        rw [hm]
        simp
    · rw [hs] at hinitial ⊢
      refine ⟨by rw [← hsteps]; rfl, ?_⟩
      have hp : p.isAbsolute = false := by
        rw [← Bool.not_eq_true, isAbsolute_iff_head]
        exact hb
      rw [hp, ← Bool.not_eq_true, isAbsolute_iff_head]
      rcases head?_of_prefix hinitial with he | he
      · simp [he]
      · rw [List.nil_append, he]
        exact hb

end Path

end Excerpt
