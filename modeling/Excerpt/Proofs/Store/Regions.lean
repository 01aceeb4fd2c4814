import Excerpt.Proofs.Store.Growth

/-!
# Regions without links

Where there are no links, steps lead where their spelling says. This module follows steps by their
spelling alone, says when they stay in a region of locations, and has the two consequences for a
region without links: steps lead to the location that they spell, and two stores that agree on the
region give the same answers.
-/

namespace Excerpt

namespace Store

variable {s t : Store} {l m c : Location} {a b : List Component} {node : Node}
  {region region' : Location → Prop}

/-! ### Following the spelling -/

/-- The location that a step spells. -/
def move (l : Location) : Component → Location
  | .name n => l ++ [n]
  | .parent => l.dropLast
  | _ => l

/-- The location that steps spell. -/
def along (l : Location) (a : List Component) : Location := a.foldl move l

/-- Every step on the way ends in the region. -/
def Stays (region : Location → Prop) : Location → List Component → Prop
  | _, [] => True
  | l, c :: rest => region (move l c) ∧ Stays region (move l c) rest

/-- The steps never climb above where they start; `depth` is how far below they are. -/
def Inside : (depth : Nat) → List Component → Prop
  | _, [] => True
  | depth, .name _ :: rest => Inside (depth + 1) rest
  | depth + 1, .parent :: rest => Inside depth rest
  | 0, .parent :: _ => False
  | depth, _ :: rest => Inside depth rest

lemma along_append (l : Location) (a b : List Component) :
    along l (a ++ b) = along (along l a) b :=
  List.foldl_append

@[simp] lemma along_names (l names : Location) : along l (names.map .name) = l ++ names := by
  induction names generalizing l with
  | nil => simp [along]
  | cons n names ih =>
    have := ih (l ++ [n])
    unfold along at this ⊢
    rw [List.map_cons, List.foldl_cons, move, this, List.append_assoc]
    rfl

lemma stays_append :
    Stays region l (a ++ b) ↔ Stays region l a ∧ Stays region (along l a) b := by
  induction a generalizing l with
  | nil => simp [Stays, along]
  | cons c a ih =>
    rw [List.cons_append, Stays, Stays, ih, and_assoc]
    rfl

lemma Stays.mono (h : Stays region l a) (hr : ∀ m, region m → region' m) : Stays region' l a := by
  induction a generalizing l with
  | nil => trivial
  | cons c a ih => exact ⟨hr _ h.1, ih h.2⟩

lemma Stays.of_prefix (h : Stays region l b) (hp : a <+: b) : Stays region l a := by
  obtain ⟨rest, rfl⟩ := hp
  exact (stays_append.mp h).1

/-- Steps that stay in a region end in it. -/
lemma Stays.along (h : Stays region l a) (hl : region l) : region (along l a) := by
  induction a generalizing l with
  | nil => exact hl
  | cons c a ih => exact ih h.2 h.1

lemma stays_names {names : Location} :
    Stays region l (names.map .name) ↔
      ∀ front, front <+: names → front ≠ [] → region (l ++ front) := by
  induction names generalizing l with
  | nil =>
    refine ⟨fun _ front hf hne => absurd (List.prefix_nil.mp hf) hne, fun _ => trivial⟩
  | cons n names ih =>
    rw [List.map_cons, Stays, ih]
    constructor
    · rintro ⟨hn, hrest⟩ front hf hne
      obtain ⟨x, front, rfl⟩ := List.exists_cons_of_ne_nil hne
      obtain ⟨rfl, hf'⟩ := List.cons_prefix_cons.mp hf
      by_cases he : front = []
      · rw [he]
        exact hn
      · have := hrest front hf' he
        rwa [move, List.append_assoc] at this
    · intro h
      refine ⟨h [n] (by simp) (by simp), fun front hf hne => ?_⟩
      have := h (n :: front) (List.cons_prefix_cons.mpr ⟨rfl, hf⟩) (by simp)
      rwa [move, List.append_assoc]

/-- Steps that do not climb stay beneath where they start. -/
lemma Inside.stays {below : Location} (h : Inside below.length a) :
    Stays (c <+: ·) (c ++ below) a := by
  induction a generalizing below with
  | nil => trivial
  | cons step a ih =>
    cases step with
    | name n =>
      refine ⟨?_, ?_⟩
      · rw [move, List.append_assoc]
        exact List.prefix_append ..
      · rw [move, List.append_assoc]
        refine ih ?_
        rw [List.length_append]
        exact h
    | parent =>
      rcases List.eq_nil_or_concat below with rfl | ⟨front, x, rfl⟩
      · cases h
      · rw [List.concat_eq_append] at h ⊢
        have hmove : move (c ++ (front ++ [x])) .parent = c ++ front := by
          rw [move, ← List.append_assoc, List.dropLast_concat]
        rw [List.length_append, List.length_singleton] at h
        rw [Stays, hmove]
        exact ⟨List.prefix_append .., ih h⟩
    | root => exact ⟨List.prefix_append .., ih h⟩
    | current => exact ⟨List.prefix_append .., ih h⟩

/-- Steps that do not climb spell the same names beneath every start. -/
lemma Inside.exists_along (below : Location) (h : Inside below.length a) :
    ∃ names, ∀ c, along (c ++ below) a = c ++ names := by
  induction a generalizing below with
  | nil => exact ⟨below, fun c => rfl⟩
  | cons step a ih =>
    cases step with
    | name n =>
      obtain ⟨names, hnames⟩ := ih (below ++ [n]) (by rw [List.length_append]; exact h)
      refine ⟨names, fun c => ?_⟩
      rw [← hnames c, ← List.append_assoc]
      rfl
    | parent =>
      rcases List.eq_nil_or_concat below with rfl | ⟨front, x, rfl⟩
      · cases h
      · rw [List.concat_eq_append] at h ⊢
        rw [List.length_append, List.length_singleton] at h
        obtain ⟨names, hnames⟩ := ih front h
        refine ⟨names, fun c => ?_⟩
        rw [← hnames c, along, List.foldl_cons, move, ← List.append_assoc, List.dropLast_concat]
        rfl
    | root => exact ih below h
    | current => exact ih below h

lemma inside_names (depth : Nat) (names : Location) : Inside depth (names.map .name) := by
  induction names generalizing depth with
  | nil => trivial
  | cons n names ih => exact ih (depth + 1)

/-- Steps without `..` never climb. -/
lemma inside_of_forall {depth : Nat} (h : ∀ step ∈ a, step ≠ .parent) : Inside depth a := by
  induction a generalizing depth with
  | nil => trivial
  | cons step a ih =>
    have hrest : ∀ x ∈ a, x ≠ .parent := fun x hx => h x (List.mem_cons_of_mem _ hx)
    cases step with
    | name => exact ih hrest
    | parent => exact absurd rfl (h _ List.mem_cons_self)
    | root => cases depth <;> exact ih hrest
    | current => cases depth <;> exact ih hrest

lemma inside_of_notMem {depth : Nat} (h : .parent ∉ a) : Inside depth a :=
  inside_of_forall fun _ hstep hclimb => h (hclimb ▸ hstep)

/-- Steps without `..` only give room to climb afterwards. -/
lemma inside_append {depth : Nat} (h : ∀ step ∈ a, step ≠ .parent)
    (hb : ∀ deeper, depth ≤ deeper → Inside deeper b) : Inside depth (a ++ b) := by
  induction a generalizing depth with
  | nil => exact hb depth (Nat.le_refl depth)
  | cons step a ih =>
    have hrest : ∀ x ∈ a, x ≠ .parent := fun x hx => h x (List.mem_cons_of_mem _ hx)
    cases step with
    | name => exact ih hrest fun deeper hd => hb deeper (Nat.le_of_succ_le hd)
    | parent => exact absurd rfl (h _ List.mem_cons_self)
    | root => cases depth <;> exact ih hrest hb
    | current => cases depth <;> exact ih hrest hb

/-- Names first give room to climb afterwards. -/
lemma inside_names_append {depth : Nat} {names : Location} :
    Inside depth (names.map .name ++ b) ↔ Inside (depth + names.length) b := by
  induction names generalizing depth with
  | nil => rfl
  | cons n names ih =>
    rw [List.map_cons, List.cons_append, List.length_cons, Inside, ih]
    rw [Nat.add_assoc, Nat.add_comm 1]

lemma Inside.append_names {depth : Nat} (h : Inside depth a) (names : Location) :
    Inside depth (a ++ names.map .name) := by
  induction a generalizing depth with
  | nil => exact inside_names depth names
  | cons step a ih =>
    cases step with
    | name => exact ih h
    | parent =>
      cases depth with
      | zero => cases h
      | succ depth => exact ih h
    | root => cases depth <;> exact ih h
    | current => cases depth <;> exact ih h

lemma Inside.of_prefix {depth : Nat} (h : Inside depth b) (hp : a <+: b) : Inside depth a := by
  obtain ⟨rest, rfl⟩ := hp
  induction a generalizing depth with
  | nil => trivial
  | cons step a ih =>
    cases step with
    | name => exact ih h
    | parent =>
      cases depth with
      | zero => cases h
      | succ depth => exact ih h
    | root => cases depth <;> exact ih h
    | current => cases depth <;> exact ih h

/-! ### Without links -/

/-- There is no link in the region. -/
def LinkFree (s : Store) (region : Location → Prop) : Prop :=
  ∀ m, region m → ∀ target, s.get? m ≠ some (.link target)

lemma linkFree_of_entries (h : ∀ e ∈ s.entries, e.2.isLink = false) : LinkFree s region := by
  intro m _ target hn
  rcases eq_or_ne m [] with rfl | hne
  · cases hn
  · cases h _ (mem_of_get? hne hn)

/-- What is put into a region without links, and is none, leaves it without links. -/
lemma LinkFree.put (h : LinkFree s region) (hne : l ≠ []) (hnode : node.isLink = false) :
    LinkFree (s.put l node) region := by
  intro m hm target hn
  rw [get?_put hne] at hn
  split at hn
  · rw [Option.some.injEq] at hn
    rw [hn] at hnode
    cases hnode
  · exact h m hm target hn

/-- In a region without links steps lead to what they spell. -/
lemma LinkFree.eq_along (hfree : LinkFree s region) (hl : Leads s l a m) (h : Stays region l a) :
    m = along l a := by
  induction hl with
  | here => rfl
  | free => rfl
  | down _ _ _ ih => exact ih h.2
  | up _ _ ih => exact ih h.2
  | jump hn => exact absurd hn (hfree _ h.1 _)

/-- What lies on the way to a location or beneath it. -/
def Around (c m : Location) : Prop := m <+: c ∨ c <+: m

/-- A path goes to `c` by name and then stays beneath it. -/
def GoesBeneath (c : Location) (p : Path) (rest : List Component) : Prop :=
  p.isAbsolute = true ∧ p.steps = c.map .name ++ rest ∧ Stays (c <+: ·) c rest

lemma GoesBeneath.of_inside {p : Path} (hp : p.isAbsolute = true)
    (hsteps : p.steps = c.map .name ++ a) (h : Inside 0 a) : GoesBeneath c p a := by
  refine ⟨hp, hsteps, ?_⟩
  have : Stays (c <+: ·) (c ++ []) a := Inside.stays h
  rwa [List.append_nil] at this

/-- A path goes to `c` by name and does not climb out of it afterwards. -/
def Enters (c : Location) (p : Path) : Prop :=
  p.isAbsolute = true ∧ ∃ a, p.steps = c.map .name ++ a ∧ Inside 0 a

lemma Enters.goesBeneath {p : Path} (h : Enters c p) : ∃ a, GoesBeneath c p a := by
  obtain ⟨hp, a, hsteps, hinside⟩ := h
  exact ⟨a, .of_inside hp hsteps hinside⟩

/-- A path beneath `c` without `..` enters it. -/
lemma Enters.of_noParent {p : Path} (hp : p.isAbsolute = true) (hinitial : c.map .name <+: p.steps)
    (hparent : .parent ∉ p.steps) : Enters c p := by
  obtain ⟨a, ha⟩ := hinitial
  refine ⟨hp, a, ha.symm, inside_of_notMem fun hclimb => hparent ?_⟩
  rw [← ha]
  exact List.mem_append_right _ hclimb

/-- What is on the way of a path that enters `c` enters it, if it comes that far. -/
lemma Enters.of_prefix {p q : Path} (h : Enters c p) (hq : q.isAbsolute = true)
    (hinitial : c.map .name <+: q.steps) (hsteps : q.steps <+: p.steps) : Enters c q := by
  obtain ⟨-, a, ha, hinside⟩ := h
  obtain ⟨b, hb⟩ := hinitial
  rw [← hb, ha, List.prefix_append_right_inj] at hsteps
  exact ⟨hq, b, hb.symm, hinside.of_prefix hsteps⟩

/-- The location that an absolute path spells. -/
def spelled (p : Path) : Location := along [] p.steps

lemma GoesBeneath.spelled_eq {p : Path} (h : GoesBeneath c p a) : spelled p = along c a := by
  rw [spelled, h.2.1, along_append, along_names, List.nil_append]

lemma GoesBeneath.stays {p : Path} (h : GoesBeneath c p a) : Stays (Around c) [] p.steps := by
  rw [h.2.1, stays_append, along_names, List.nil_append]
  refine ⟨stays_names.mpr fun front hf _ => Or.inl ?_, h.2.2.mono fun _ => Or.inr⟩
  simpa using hf

/-- Around a directory beneath which there are no links, there are none. -/
lemma WellFormed.linkFree_around (hs : s.WellFormed) (hc : s.get? c = some .dir)
    (h : LinkFree s (c <+: ·)) : LinkFree s (Around c) := by
  rintro m (hm | hm) target hn
  · rcases hs.get?_of_prefix (by rw [hc]; simp) hm with rfl | hd
    · rw [hc] at hn
      cases hn
    · rw [hd] at hn
      cases hn
  · exact h m hm target hn

/-- What a path beneath `c` is found to lead to lies beneath `c`, where it spells. -/
lemma GoesBeneath.find (hs : s.WellFormed) (hc : s.get? c = some .dir)
    (hfree : LinkFree s (c <+: ·)) {p : Path} (hp : GoesBeneath c p a) {follow : Bool}
    (h : s.find follow p = .ok (l, node)) :
    l = along c a ∧ c <+: l ∧ s.get? l = some node ∧ node.isLink = false := by
  have hfree' := hs.linkFree_around hc hfree
  have hn := get?_of_find hs h
  have halong : along [] p.steps = along c a := by
    rw [hp.2.1, along_append, along_names, List.nil_append]
  have hbeneath : c <+: along c a := Stays.along hp.2.2 List.prefix_rfl
  by_cases hlink : node.isLink = true
  · cases node with
    | link target =>
      obtain ⟨front, n, d, hsteps, hl, rfl⟩ := of_find_link hs h
      rw [start_of_isAbsolute hp.1] at hl
      have hstays := hp.stays
      rw [hsteps, stays_append] at hstays
      obtain rfl := hfree'.eq_along hl hstays.1
      exact absurd hn (hfree' _ hstays.2.1 target)
    | _ => cases hlink
  · rw [Bool.not_eq_true] at hlink
    obtain ⟨hl, -⟩ := leads_of_find hs h hlink
    rw [start_of_isAbsolute hp.1] at hl
    obtain rfl := hfree'.eq_along hl hp.stays
    rw [halong] at hn ⊢
    exact ⟨rfl, hbeneath, hn, hlink⟩

/-- What a path on the way to a place beneath `c` leads to lies beneath `c`, or is a directory. -/
lemma GoesBeneath.of_leads (hs : s.WellFormed) (hc : s.get? c = some .dir)
    (hfree : LinkFree s (c <+: ·)) {p q : Path} (hp : GoesBeneath c p a)
    (hq : q.steps <+: p.steps) (hl : Leads s [] q.steps m) (hm : s.get? m ≠ some .dir) :
    c <+: m := by
  have hstays := hp.stays.of_prefix hq
  obtain rfl := (hs.linkFree_around hc hfree).eq_along hl hstays
  rcases hstays.along (Or.inl List.nil_prefix) with hbefore | hbeneath
  · rcases hs.get?_of_prefix (by rw [hc]; simp) hbefore with he | hd
    · exact he ▸ List.prefix_rfl
    · exact absurd hd hm
  · exact hbeneath

/-! ### Stores that agree -/

/-- Where two stores agree and have no links, a walk is the same and meets no link. -/
lemma LinkFree.descend_eq (hfree : LinkFree s region) (heq : ∀ m, region m → s.get? m = t.get? m)
    (follow : Bool) (todo : List Bytes) (dir : Location) (htodo : ∀ seg ∈ todo, IsSegment seg)
    (h : Stays region dir (stepsOf todo)) :
    s.descend follow todo dir = t.descend follow todo dir ∧
      ∀ d target rest, s.descend follow todo dir ≠ .jump d target rest := by
  induction todo, dir using descend_induction with
  | nil dir => exact ⟨rfl, fun _ _ _ h => by cases h⟩
  | dot rest dir ih =>
    rw [descend_dot, descend_dot]
    exact ih (fun x hx => htodo x (List.mem_cons_of_mem _ hx)) h
  | up rest dir ih =>
    rw [descend_up, descend_up]
    exact ih (fun x hx => htodo x (List.mem_cons_of_mem _ hx)) h.2
  | long seg rest dir hlong =>
    rw [descend_long hlong, descend_long hlong]
    exact ⟨rfl, fun _ _ _ h => by cases h⟩
  | name seg rest dir hseg ih =>
    rw [stepsOf_name ((htodo seg List.mem_cons_self).isName hseg.1 hseg.2.1)] at h
    have hsame := heq _ h.1
    rw [move] at hsame
    cases hn : s.get? (dir ++ [seg]) with
    | none =>
      rw [descend_none hseg follow rest hn, descend_none hseg follow rest (hsame ▸ hn)]
      exact ⟨rfl, fun _ _ _ h => by split at h <;> cases h⟩
    | some node =>
      cases node with
      | dir =>
        rw [descend_dir hseg follow rest hn, descend_dir hseg follow rest (hsame ▸ hn)]
        exact ih (fun x hx => htodo x (List.mem_cons_of_mem _ hx)) h.2
      | link target => exact absurd hn (hfree _ h.1 target)
      | file =>
        rw [descend_file hseg follow rest hn rfl, descend_file hseg follow rest (hsame ▸ hn) rfl]
        exact ⟨rfl, fun _ _ _ h => by split at h <;> cases h⟩

/-- Paths that stay where two stores agree and have no links lead to the same things in both. -/
lemma LinkFree.find_eq (hfree : LinkFree s region) (heq : ∀ m, region m → s.get? m = t.get? m)
    {p : Path} (hp : p.isAbsolute = true) (h : Stays region [] p.steps) (follow : Bool) :
    s.find follow p = t.find follow p := by
  have hlocate : s.locate follow p = t.locate follow p := locate_congr fun hlocatable => by
    rw [start_of_isAbsolute hp, start_of_isAbsolute hp, walk, walk]
    rw [← stepsOf_segments] at h
    obtain ⟨he, hjump⟩ := hfree.descend_eq heq (follow || wantsDir p) (segments p) []
      (fun seg hseg => isSegment_of_mem hlocatable.noNul hseg) h
    rw [← he]
    split
    · rfl
    · exact absurd ‹_› (hjump _ _ _)
    · rfl
    · rfl
  simp only [find]
  rw [hlocate]

end Store

end Excerpt
