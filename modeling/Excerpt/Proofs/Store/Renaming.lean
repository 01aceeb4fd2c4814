import Excerpt.Proofs.Store.Agreement
import Excerpt.Proofs.Store.Making

/-!
# Stores that differ in one name

In two stores the same tree stands at one place, but under different names. A path that mentions
neither name is looked up in the same way in both, by `Agree`. A path into the tree is looked up
alike when the one name is written for the other in it: each walk goes on in lockstep with the other
until it has passed the name, and from there both see the same.

The two names have one length, so that no path is too long in one store only.
-/

namespace Excerpt

namespace Store

/-- Two names that can stand for each other in a path. -/
structure Exchangeable (a b : Bytes) : Prop where
  left : IsEntryName a
  right : IsEntryName b
  length : b.length = a.length

/-- Neither name is mentioned. -/
def Avoids (a b : Bytes) (names : List Bytes) : Prop := ∀ n ∈ names, n ≠ a ∧ n ≠ b

/-- The second list is the first one with `b` for the first `a`, or neither name is in it. -/
inductive Renamed (a b : Bytes) : List Bytes → List Bytes → Prop where
  | same {l : List Bytes} : Avoids a b l → Renamed a b l l
  | within {front names : List Bytes} : Avoids a b front →
      Renamed a b (front ++ a :: names) (front ++ b :: names)

variable {a b n : Bytes} {s t t' u u' : Store} {d l l' m m' front names : Location}
  {todo todo' : List Bytes} {node : Node} {p p' target : Path}

/-! ### Locations -/

lemma Avoids.append {k : List Bytes} (hl : Avoids a b l) (hk : Avoids a b k) :
    Avoids a b (l ++ k) :=
  fun n hn => (List.mem_append.mp hn).elim (hl n) (hk n)

lemma Avoids.left (h : Avoids a b l) : a ∉ l := fun ha => (h a ha).1 rfl

lemma Avoids.right (h : Avoids a b l) : b ∉ l := fun hb => (h b hb).2 rfl

lemma Avoids.of_notMem (ha : a ∉ l) (hb : b ∉ l) : Avoids a b l :=
  fun _ hn => ⟨fun he => ha (he ▸ hn), fun he => hb (he ▸ hn)⟩

lemma Avoids.symm (h : Avoids a b l) : Avoids b a l := fun n hn => (h n hn).symm

/-- A list is cut in one way at the first place of a name. -/
lemma append_cons_unique {a : Bytes} {front front' names names' : List Bytes} (hf : a ∉ front)
    (hf' : a ∉ front') (h : front ++ a :: names = front' ++ a :: names') :
    front = front' ∧ names = names' := by
  induction front generalizing front' with
  | nil =>
    cases front' with
    | nil => exact ⟨rfl, (List.cons.inj h).2⟩
    | cons x front' =>
      obtain ⟨rfl, -⟩ := List.cons.inj h
      exact absurd List.mem_cons_self hf'
  | cons x front ih =>
    cases front' with
    | nil =>
      obtain ⟨rfl, -⟩ := List.cons.inj h
      exact absurd List.mem_cons_self hf
    | cons y front' =>
      obtain ⟨rfl, hrest⟩ := List.cons.inj h
      obtain ⟨rfl, rfl⟩ := ih (fun hm => hf (List.mem_cons_of_mem _ hm))
        (fun hm => hf' (List.mem_cons_of_mem _ hm)) hrest
      exact ⟨rfl, rfl⟩

namespace Renamed

lemma symm (h : Renamed a b l l') : Renamed b a l' l := by
  cases h with
  | same hl => exact .same hl.symm
  | within hf => exact .within hf.symm

lemma unique (h : Renamed a b l m) (h' : Renamed a b l m') : m = m' := by
  generalize hk : l = k at h'
  cases h with
  | same hl =>
    subst hk
    cases h' with
    | same => rfl
    | within => exact absurd (List.mem_append_right _ List.mem_cons_self) hl.left
  | within hf =>
    cases h' with
    | same hl => exact absurd (hk ▸ List.mem_append_right _ List.mem_cons_self) hl.left
    | within hf' =>
      obtain ⟨rfl, rfl⟩ := append_cons_unique hf.left hf'.left hk
      rfl

lemma eq_iff (h : Renamed a b l l') (h' : Renamed a b m m') : l' = m' ↔ l = m := by
  constructor
  · rintro rfl
    exact h.symm.unique h'.symm
  · rintro rfl
    exact h.unique h'

lemma ne_nil (h : Renamed a b l l') (hl : l ≠ []) : l' ≠ [] := by
  cases h with
  | same => exact hl
  | within => simp

lemma append (h : Renamed a b l l') (hm : Avoids a b m ∨ a ∈ l) : Renamed a b (l ++ m) (l' ++ m) := by
  cases h with
  | same hl => exact .same (hl.append (hm.resolve_right hl.left))
  | within hf =>
    rw [List.append_assoc, List.append_assoc]
    exact .within hf

end Renamed

/-! ### Stores -/

/-- The stores hold the same at locations of which one is the other renamed. Links mention neither
name, and in the renamed part they are absolute. -/
structure Corresponds (a b : Bytes) (t t' : Store) : Prop where
  get?_eq : ∀ l l', Renamed a b l l' → t'.get? l' = t.get? l
  targets : ∀ (l : Location) target, t.get? l = some (.link target) →
    Avoids a b (segments target) ∧ (a ∈ l → target.isAbsolute = true)
  cwd : t'.cwd = t.cwd
  avoids_cwd : Avoids a b t.cwd
  clock : t'.clock = t.clock

/-- Along names from `l` no link has something behind it. -/
structure Straight (t : Store) (l names : Location) : Prop where
  isName : ∀ n ∈ names, Path.IsName n
  noLink : ∀ front, front <+: names → front ≠ names → ∀ target, t.get? (l ++ front) ≠ some (.link target)

lemma Straight.tail (h : Straight t l (n :: names)) : Straight t (l ++ [n]) names := by
  refine ⟨fun m hm => h.isName m (List.mem_cons_of_mem _ hm), fun front hp hne target => ?_⟩
  rw [List.append_assoc]
  exact h.noLink (n :: front) (List.cons_prefix_cons.mpr ⟨rfl, hp⟩) (by simpa using hne) target

/-- Behind a link there is nothing. -/
lemma Straight.eq_nil (h : Straight t l names) (hn : t.get? l = some (.link target)) :
    names = [] := by
  by_contra hne
  refine h.noLink [] List.nil_prefix (Ne.symm hne) target ?_
  rwa [List.append_nil]

/-- How the segments of two paths are related. Behind the renamed segment there is nothing but names
that lead straight on. -/
inductive SegmentsMatch (a b : Bytes) (t : Store) : List Bytes → List Bytes → Prop where
  | same {todo : List Bytes} : Avoids a b todo → SegmentsMatch a b t todo todo
  | within {front names : List Bytes} : Avoids a b front →
      (∀ l, Avoids a b l → Straight t (l ++ [a]) names) →
      SegmentsMatch a b t (front ++ a :: names) (front ++ b :: names)

/-- How two places are related that two walks end at. -/
inductive PlacesMatch (a b : Bytes) : Place → Place → Prop where
  | found {l l' : Location} {node : Node} : Renamed a b l l' →
      PlacesMatch a b (.found l node) (.found l' node)
  | vacant {l l' : Location} {n n' : Bytes} : Renamed a b (l ++ [n]) (l' ++ [n']) →
      PlacesMatch a b (.vacant l n) (.vacant l' n')

/-- How two legs are related that two walks go. Whatever the renamed name leads through, a link
leads back to where the stores agree. -/
inductive LegsMatch (a b : Bytes) (t : Store) : Leg → Leg → Prop where
  | arrived {place place' : Place} : PlacesMatch a b place place' →
      LegsMatch a b t (.arrived place) (.arrived place')
  | refused {fault : Fault} : LegsMatch a b t (.refused fault) (.refused fault)
  | jump {l l' : Location} {target : Path} {rest rest' : List Bytes} :
      (target.isAbsolute = false → l' = l ∧ Avoids a b l) →
      SegmentsMatch a b t (segments target ++ rest) (segments target ++ rest') →
      (rest' = [] ↔ rest = []) → LegsMatch a b t (.jump l target rest) (.jump l' target rest')

namespace Corresponds

lemma agree (h : Corresponds a b t t') : Agree (fun n => n ≠ a ∧ n ≠ b) t t' :=
  ⟨fun l hl => h.get?_eq l l (.same hl), fun l target _ hn => (h.targets l target hn).1, h.cwd,
    h.avoids_cwd, h.clock⟩

/-! ### Walks -/

/-- One step on related names. What stands there is the same, and so is what a link leads to. -/
lemma descend_step (h : Corresponds a b t t') {n n' : Bytes} (hn : IsLookedUp n)
    (hn' : IsLookedUp n') (hdown : Renamed a b (l ++ [n]) (l' ++ [n'])) (ha : a ∈ l ++ [n])
    (follow : Bool)
    (hlink : ∀ target, t.get? (l ++ [n]) = some (.link target) → names = [])
    (hdir : LegsMatch a b t (t.descend follow names (l ++ [n]))
      (t'.descend follow names (l' ++ [n']))) :
    LegsMatch a b t (t.descend follow (n :: names) l) (t'.descend follow (n' :: names) l') := by
  have hsame := h.get?_eq _ _ hdown
  cases hnode : t.get? (l ++ [n]) with
  | none =>
    rw [descend_none hn follow names hnode, descend_none hn' follow names (hsame.trans hnode)]
    split
    · exact .arrived (.vacant hdown)
    · exact .refused
  | some node =>
    cases node with
    | dir =>
      rw [descend_dir hn follow names hnode, descend_dir hn' follow names (hsame.trans hnode)]
      exact hdir
    | link target =>
      obtain ⟨havoids, habs⟩ := h.targets _ target hnode
      rw [descend_link hn follow names hnode, descend_link hn' follow names (hsame.trans hnode)]
      split
      · exact .arrived (.found hdown)
      · refine .jump (fun hrel => ?_) ?_ Iff.rfl
        · rw [habs ha] at hrel
          cases hrel
        · rw [hlink target hnode, List.append_nil]
          exact .same havoids
    | file =>
      rw [descend_file hn follow names hnode rfl,
        descend_file hn' follow names (hsame.trans hnode) rfl]
      split
      · exact .arrived (.found hdown)
      · exact .refused

/-- Behind the renamed name both walks see the same. -/
lemma descend_within (h : Corresponds a b t t') (hl : Renamed a b l l') (ha : a ∈ l) (follow : Bool)
    (hstraight : Straight t l names) :
    LegsMatch a b t (t.descend follow names l) (t'.descend follow names l') := by
  induction names generalizing l l' with
  | nil => exact .arrived (.found hl)
  | cons n names ih =>
    have hname := hstraight.isName n List.mem_cons_self
    by_cases hlong : maxName < n.length
    · rw [descend_long hlong, descend_long hlong]
      exact .refused
    · have hlook := isLookedUp_of_isName hname (Nat.le_of_not_lt hlong)
      have hdown : Renamed a b (l ++ [n]) (l' ++ [n]) := hl.append (Or.inr ha)
      have hmem : a ∈ l ++ [n] := List.mem_append_left _ ha
      exact h.descend_step hlook hlook hdown hmem follow (fun _ hn => hstraight.tail.eq_nil hn)
        (ih hdown hmem hstraight.tail)

/-- Both walks go in lockstep towards the renamed name. -/
lemma descend_toward (h : Corresponds a b t t') (hab : Exchangeable a b) (hl : Avoids a b l)
    (follow : Bool) (hfront : Avoids a b front)
    (hstraight : ∀ l, Avoids a b l → Straight t (l ++ [a]) names) :
    LegsMatch a b t (t.descend follow (front ++ a :: names) l)
      (t'.descend follow (front ++ b :: names) l) := by
  induction front, l using descend_induction with
  | nil l =>
    have hmem : a ∈ l ++ [a] := List.mem_append_right l List.mem_cons_self
    exact h.descend_step (isLookedUp_of_isEntryName hab.left) (isLookedUp_of_isEntryName hab.right)
      (.within hl) hmem follow (fun _ hn => (hstraight l hl).eq_nil hn)
      (h.descend_within (.within hl) hmem follow (hstraight l hl))
  | dot front l ih =>
    rw [List.cons_append, List.cons_append, descend_dot, descend_dot]
    exact ih hl fun n hn => hfront n (List.mem_cons_of_mem _ hn)
  | up front l ih =>
    rw [List.cons_append, List.cons_append, descend_up, descend_up]
    exact ih (fun n hn => hl n (List.dropLast_subset l hn))
      fun n hn => hfront n (List.mem_cons_of_mem _ hn)
  | long seg front l hlong =>
    rw [List.cons_append, List.cons_append, descend_long hlong, descend_long hlong]
    exact .refused
  | name seg front l hseg ih =>
    have hrest : Avoids a b front := fun n hn => hfront n (List.mem_cons_of_mem _ hn)
    have hdown : Avoids a b (l ++ [seg]) :=
      hl.append (List.forall_mem_singleton.mpr (hfront seg List.mem_cons_self))
    have hsame := h.get?_eq (l ++ [seg]) (l ++ [seg]) (.same hdown)
    have hne : front ++ a :: names ≠ [] := by simp
    have hne' : front ++ b :: names ≠ [] := by simp
    rw [List.cons_append, List.cons_append]
    cases hn : t.get? (l ++ [seg]) with
    | none =>
      rw [descend_none hseg follow _ hn, descend_none hseg follow _ (hsame.trans hn),
        if_neg hne, if_neg hne']
      exact .refused
    | some node =>
      cases node with
      | dir =>
        rw [descend_dir hseg follow _ hn, descend_dir hseg follow _ (hsame.trans hn)]
        exact ih hdown hrest
      | link target =>
        rw [descend_link hseg follow _ hn, descend_link hseg follow _ (hsame.trans hn),
          if_neg fun hstop => hne hstop.1, if_neg fun hstop => hne' hstop.1]
        refine .jump (fun _ => ⟨rfl, hl⟩) ?_ (by simp)
        rw [← List.append_assoc, ← List.append_assoc]
        exact .within ((h.targets _ target hn).1.append hrest) hstraight
      | file =>
        rw [descend_file hseg follow _ hn rfl, descend_file hseg follow _ (hsame.trans hn) rfl,
          if_neg hne, if_neg hne']
        exact .refused

lemma descend (h : Corresponds a b t t') (hab : Exchangeable a b) (hl : Avoids a b l) (follow : Bool)
    (htodo : SegmentsMatch a b t todo todo') :
    LegsMatch a b t (t.descend follow todo l) (t'.descend follow todo' l) := by
  cases htodo with
  | within hfront hstraight => exact h.descend_toward hab hl follow hfront hstraight
  | same htodo =>
    obtain ⟨hsame, huses⟩ := h.agree.descend follow hl htodo
    rw [hsame]
    generalize t.descend follow todo l = leg at huses
    cases leg with
    | arrived place =>
      cases place with
      | found => exact .arrived (.found (.same huses))
      | vacant => exact .arrived (.vacant (.same huses))
    | refused => exact .refused
    | jump => exact .jump (fun _ => ⟨rfl, huses.1⟩) (.same huses.2) Iff.rfl

end Corresponds

/-- Both fail for the same reason, or both succeed with related results. -/
inductive Alike {ε α β : Type} (R : α → β → Prop) : Except ε α → Except ε β → Prop where
  | ok {x : α} {y : β} : R x y → Alike R (.ok x) (.ok y)
  | error {e : ε} : Alike R (.error e) (.error e)

lemma Alike.eq_error_iff {ε α β : Type} {R : α → β → Prop} {x : Except ε α} {y : Except ε β} {e : ε}
    (h : Alike R x y) : x = .error e ↔ y = .error e := by
  cases h with
  | ok => constructor <;> rintro ⟨⟩
  | error => rw [Except.error.injEq, Except.error.injEq]

namespace Corresponds

lemma walk (h : Corresponds a b t t') (hab : Exchangeable a b) {follow asDir : Bool} {links : Nat}
    (hl : Avoids a b l) (htodo : SegmentsMatch a b t todo todo') :
    Alike (fun x y => PlacesMatch a b x.1 y.1 ∧ y.2 = x.2)
      (t.walk follow links l todo asDir) (t'.walk follow links l todo' asDir) := by
  induction links generalizing l todo todo' asDir with
  | zero => exact .error
  | succ links ih =>
    have hleg := h.descend hab hl (follow || asDir) htodo
    rw [Store.walk, Store.walk]
    generalize t.descend (follow || asDir) todo l = leg at hleg
    generalize t'.descend (follow || asDir) todo' l = leg' at hleg
    cases hleg with
    | refused => exact .error
    | @jump k k' target rest rest' hrel hmatch hnil =>
      have hempty : rest'.isEmpty = rest.isEmpty := by
        rw [Bool.eq_iff_iff, List.isEmpty_iff, List.isEmpty_iff, hnil]
      simp only [hempty]
      by_cases habs : target.isAbsolute = true
      · rw [if_pos habs, if_pos habs]
        exact ih (fun n hn => by cases hn) hmatch
      · obtain ⟨rfl, hk⟩ := hrel (Bool.eq_false_iff.mpr habs)
        simp only [if_neg habs]
        exact ih hk hmatch
    | arrived hplace =>
      cases hplace with
      | found hk =>
        simp only
        split
        · exact .error
        · exact .ok ⟨.found hk, rfl⟩
      | vacant hk => exact .ok ⟨.vacant hk, rfl⟩

end Corresponds

/-! ### Paths -/

/-- How two paths are related that are looked up in two stores. -/
structure PathsMatch (a b : Bytes) (t : Store) (p p' : Path) : Prop where
  noNul : (0 : UInt8) ∈ p'.bytes ↔ (0 : UInt8) ∈ p.bytes
  length : p'.bytes.length = p.bytes.length
  isAbsolute : p'.isAbsolute = p.isAbsolute
  wantsDir : wantsDir p' = wantsDir p
  segments : SegmentsMatch a b t (segments p) (segments p')

/-- What stands in front of a name that is put behind a path. -/
def frontOf (p : Path) : Bytes :=
  match p.bytes.getLast? with
  | none => []
  | some c => if c = Path.slash then p.bytes else p.bytes ++ [Path.slash]

lemma bytes_child_eq (p : Path) (hn : Path.IsName n) : (p.child n).bytes = frontOf p ++ n := by
  unfold frontOf Path.child Path.join
  rw [hn.isAbsolute]
  cases p.bytes.getLast? with
  | none => rfl
  | some c =>
    simp only [Bool.false_eq_true, if_false]
    split
    · rfl
    · simp

lemma bytes_chain_child (p : Path) (hn : Path.IsName n) (hnames : ∀ m ∈ names, Path.IsName m) :
    (chain (p.child n) names).bytes = frontOf p ++ n ++ names.flatMap (Path.slash :: ·) := by
  induction names using List.reverseRecOn with
  | nil => rw [chain_nil, bytes_child_eq p hn, List.flatMap_nil, List.append_nil]
  | append_singleton names m ih =>
    have hfront : ∀ k ∈ names, Path.IsName k := fun k hk => hnames k (List.mem_append_left _ hk)
    have hall : ∀ k ∈ n :: names, Path.IsName k := List.forall_mem_cons.mpr ⟨hn, hfront⟩
    have hwants : wantsDir (chain p (n :: names)) = false :=
      wantsDir_chain p hall (List.cons_ne_nil n names)
    have hlast : frontOf (chain (p.child n) names) =
        (chain (p.child n) names).bytes ++ [Path.slash] := by
      have hne : (chain (p.child n) names).bytes ≠ [] := by simp [ih hfront, hn.ne_nil]
      change ((chain (p.child n) names).bytes.getLast? == some Path.slash) = false at hwants
      rw [beq_eq_false_iff_ne, List.getLast?_eq_some_getLast hne, ne_eq, Option.some.injEq] at hwants
      rw [frontOf, List.getLast?_eq_some_getLast hne]
      simp only [if_neg hwants]
    rw [chain_concat, bytes_child_eq _ (hnames m (by simp)), hlast, ih hfront]
    simp

/-- The one name is written for the other in a path. -/
lemma PathsMatch.chain (hab : Exchangeable a b) (hp : Avoids a b (Store.segments p))
    (hstraight : ∀ l, Avoids a b l → Straight t (l ++ [a]) names) :
    PathsMatch a b t (chain (p.child a) names) (chain (p.child b) names) := by
  have hnames := (hstraight [] fun n hn => by cases hn).isName
  have ha := hab.left.isName
  have hb := hab.right.isName
  have hbytes := bytes_chain_child p ha hnames
  have hbytes' := bytes_chain_child p hb hnames
  have hwants : ∀ n, Path.IsName n → Store.wantsDir (Store.chain (p.child n) names) = false :=
    fun n hn => wantsDir_chain p (List.forall_mem_cons.mpr ⟨hn, hnames⟩) (List.cons_ne_nil n names)
  have hhead : ∀ n, Path.IsName n → frontOf p = [] →
      (Store.chain (p.child n) names).isAbsolute = false := by
    intro n hn hf
    obtain ⟨c, rest, hc⟩ := List.exists_cons_of_ne_nil hn.ne_nil
    have hslash : c ≠ Path.slash := fun he => hn.noSlash (by rw [hc, he]; exact List.mem_cons_self)
    rw [← Bool.not_eq_true, Path.isAbsolute_iff_head, bytes_chain_child p hn hnames, hf, hc]
    simpa using hslash
  refine ⟨?_, ?_, ?_, (hwants b hb).trans (hwants a ha).symm, ?_⟩
  · rw [hbytes, hbytes']
    simp [hab.left.noNul, hab.right.noNul]
  · rw [hbytes, hbytes']
    simp [hab.length]
  · rcases eq_or_ne (frontOf p) [] with hf | hf
    · rw [hhead a ha hf, hhead b hb hf]
    · obtain ⟨c, rest, hc⟩ := List.exists_cons_of_ne_nil hf
      rw [Path.isAbsolute, Path.isAbsolute, hbytes, hbytes', hc]
      rfl
  · have hsegments : ∀ n, Path.IsName n →
        Store.segments (Store.chain (p.child n) names) = Store.segments p ++ n :: names :=
      fun n hn => segments_chain p (List.forall_mem_cons.mpr ⟨hn, hnames⟩)
    rw [hsegments a ha, hsegments b hb]
    exact .within hp hstraight

/-- A slash behind both paths. -/
lemma PathsMatch.join_empty (h : PathsMatch a b t p p') (hne : p.bytes ≠ [])
    (hwants : Store.wantsDir p = false) :
    PathsMatch a b t (p.join Path.empty) (p'.join Path.empty) := by
  have hne' : p'.bytes ≠ [] := by
    rw [← List.length_pos_iff, h.length, List.length_pos_iff]
    exact hne
  have hbytes : ∀ q : Path, q.bytes ≠ [] → Store.wantsDir q = false →
      (q.join Path.empty).bytes = q.bytes ++ [Path.slash] := by
    intro q hq hwants
    rcases Path.join_bytes (p := q) (q := Path.empty) rfl with ⟨hnil, -⟩ | ⟨front, hf, -⟩ | ⟨-, -, he⟩
    · exact absurd hnil hq
    · rw [Store.wantsDir, hf, List.getLast?_concat] at hwants
      simp at hwants
    · rw [he]
      rfl
  have hleft := hbytes p hne hwants
  have hright := hbytes p' hne' (h.wantsDir.trans hwants)
  refine ⟨?_, ?_, ?_, ?_, ?_⟩
  · rw [hleft, hright, List.mem_append, List.mem_append, h.noNul]
  · rw [hleft, hright, List.length_append, List.length_append, h.length]
  · rw [Path.isAbsolute_join hne rfl, Path.isAbsolute_join hne' rfl, h.isAbsolute]
  · rw [wantsDir_join_empty hne, wantsDir_join_empty hne']
  · rw [segments_join_empty, segments_join_empty]
    exact h.segments

namespace Corresponds

/-- Related paths are looked up alike. -/
theorem locate (h : Corresponds a b t t') (hab : Exchangeable a b) (follow : Bool)
    (hp : PathsMatch a b t p p') :
    Alike (fun x y => PlacesMatch a b x.1 y.1 ∧ y.2 = x.2) (t.locate follow p)
      (t'.locate follow p') := by
  have hnil : p'.bytes = [] ↔ p.bytes = [] := by
    rw [← List.length_eq_zero_iff, ← List.length_eq_zero_iff, hp.length]
  have hnul : p'.bytes.contains 0 = p.bytes.contains 0 := by
    rw [Bool.eq_iff_iff, List.contains_iff_mem, List.contains_iff_mem, hp.noNul]
  unfold Store.locate
  rw [hnul, hp.length, hp.isAbsolute, hp.wantsDir, h.cwd]
  simp only [hnil]
  split
  · exact .error
  · split
    · exact .error
    · split
      · exact .error
      · refine h.walk hab ?_ hp.segments
        split
        · exact fun n hn => by cases hn
        · exact h.avoids_cwd

lemma find (h : Corresponds a b t t') (hab : Exchangeable a b) (follow : Bool)
    (hp : PathsMatch a b t p p') :
    Alike (fun x y => Renamed a b x.1 y.1 ∧ y.2 = x.2) (t.find follow p) (t'.find follow p') := by
  have hlocate := h.locate hab follow hp
  unfold Store.find
  generalize t.locate follow p = x at hlocate
  generalize t'.locate follow p' = y at hlocate
  cases hlocate with
  | error => exact .error
  | @ok x y hxy =>
    obtain ⟨place, asDir⟩ := x
    obtain ⟨place', asDir'⟩ := y
    obtain ⟨hplace, hasDir⟩ := hxy
    obtain rfl : asDir = asDir' := hasDir.symm
    cases hplace with
    | found hl => exact .ok ⟨hl, rfl⟩
    | vacant => exact .error

lemma node? (h : Corresponds a b t t') (hab : Exchangeable a b) (hp : PathsMatch a b t p p') :
    t'.node? p' = t.node? p := by
  have hfind := h.find hab true hp
  unfold Store.node?
  generalize t.find true p = x at hfind
  generalize t'.find true p' = y at hfind
  cases hfind with
  | error => rfl
  | ok hxy => exact congrArg some hxy.2

lemma isDir (h : Corresponds a b t t') (hab : Exchangeable a b) (hp : PathsMatch a b t p p') :
    t'.isDir p' = t.isDir p := by
  rw [Store.isDir, Store.isDir, h.node? hab hp]

lemma ownNode? (h : Corresponds a b t t') (hab : Exchangeable a b) (hp : PathsMatch a b t p p') :
    t'.ownNode? p' = t.ownNode? p := by
  have hfind := h.find hab false hp
  unfold Store.ownNode?
  generalize t.find false p = x at hfind
  generalize t'.find false p' = y at hfind
  cases hfind with
  | error => rfl
  | ok hxy => exact congrArg some hxy.2

/-! ### Changes -/

/-- What is put at related locations. -/
lemma put (h : Corresponds a b t t') (hl : Renamed a b l l') (hne : l ≠ [])
    (htarget : ∀ target, node = .link target →
      Avoids a b (Store.segments target) ∧ target.isAbsolute = true) :
    Corresponds a b (t.put l node) (t'.put l' node) := by
  refine ⟨fun m m' hm => ?_, fun m target hn => ?_, h.cwd, h.avoids_cwd, h.clock⟩
  · rw [get?_put hne, get?_put (hl.ne_nil hne)]
    simp only [hm.eq_iff hl, h.get?_eq m m' hm]
  · rw [get?_put hne] at hn
    split at hn
    · obtain ⟨havoids, habs⟩ := htarget target (Option.some.inj hn)
      exact ⟨havoids, fun _ => habs⟩
    · exact h.targets m target hn

/-- What is taken away at related locations. -/
lemma erase (h : Corresponds a b t t') (hl : Renamed a b l l') (hne : l ≠ []) :
    Corresponds a b (t.erase l) (t'.erase l') := by
  refine ⟨fun m m' hm => ?_, fun m target hn => ?_, h.cwd, h.avoids_cwd, h.clock⟩
  · rw [get?_erase hne, get?_erase (hl.ne_nil hne)]
    simp only [hm.eq_iff hl, h.get?_eq m m' hm]
  · rw [get?_erase hne] at hn
    split at hn
    · cases hn
    · exact h.targets m target hn

/-- Where two changes put the same at related locations. -/
def PutAlike (a b : Bytes) (t t' : Store) (node : Node) (u u' : Store) : Prop :=
  ∃ l l', Renamed a b l l' ∧ l ≠ [] ∧ u = t.put l node ∧ u' = t'.put l' node

lemma PutAlike.corresponds (h : Corresponds a b t t') (hput : PutAlike a b t t' node u u')
    (htarget : ∀ target, node = .link target →
      Avoids a b (Store.segments target) ∧ target.isAbsolute = true) :
    Corresponds a b u u' := by
  obtain ⟨l, l', hl, hne, rfl, rfl⟩ := hput
  exact h.put hl hne htarget

lemma makeDir (h : Corresponds a b t t') (hab : Exchangeable a b) (hp : PathsMatch a b t p p') :
    Alike (PutAlike a b t t' .dir) (t.makeDir p) (t'.makeDir p') := by
  have hlocate := h.locate hab false hp
  unfold Store.makeDir
  generalize t.locate false p = x at hlocate
  generalize t'.locate false p' = y at hlocate
  cases hlocate with
  | error => exact .error
  | @ok x y hxy =>
    obtain ⟨place, asDir⟩ := x
    obtain ⟨place', asDir'⟩ := y
    obtain ⟨hplace, -⟩ := hxy
    cases hplace with
    | found => exact .error
    | vacant hl => exact .ok ⟨_, _, hl, by simp, rfl, rfl⟩

lemma makeLink (h : Corresponds a b t t') (hab : Exchangeable a b) (hp : PathsMatch a b t p p')
    (target : Path) :
    Alike (PutAlike a b t t' (.link target)) (t.makeLink target p) (t'.makeLink target p') := by
  have hlocate := h.locate hab false hp
  unfold Store.makeLink
  split
  · exact .error
  · split
    · exact .error
    · split
      · exact .error
      · generalize t.locate false p = x at hlocate
        generalize t'.locate false p' = y at hlocate
        cases hlocate with
        | error => exact .error
        | @ok x y hxy =>
          obtain ⟨place, asDir⟩ := x
          obtain ⟨place', asDir'⟩ := y
          obtain ⟨hplace, hasDir⟩ := hxy
          obtain rfl : asDir = asDir' := hasDir.symm
          cases hplace with
          | found => exact .error
          | vacant hl =>
            cases asDir with
            | true => exact .error
            | false => exact .ok ⟨_, _, hl, by simp, rfl, rfl⟩

lemma write (h : Corresponds a b t t') (hab : Exchangeable a b) (ht : t.WellFormed)
    (hp : PathsMatch a b t p p') (content : Bytes) :
    Alike (fun u u' => ∃ node, node.isFile = true ∧ PutAlike a b t t' node u u')
      (t.write p content) (t'.write p' content) := by
  have hlocate := h.locate hab true hp
  unfold Store.write Store.writeTarget
  rw [h.clock]
  have hfound : ∀ l node asDir, t.locate true p = .ok (.found l node, asDir) →
      t.get? l = some node := fun _ _ _ hl => get?_of_find ht (find_of_locate hl)
  generalize t.locate true p = x at hlocate hfound
  generalize t'.locate true p' = y at hlocate
  cases hlocate with
  | error => exact .error
  | @ok x y hxy =>
    obtain ⟨place, asDir⟩ := x
    obtain ⟨place', asDir'⟩ := y
    obtain ⟨hplace, hasDir⟩ := hxy
    obtain rfl : asDir = asDir' := hasDir.symm
    cases asDir with
    | true => cases hplace <;> exact .error
    | false =>
      cases hplace with
      | vacant hl => exact .ok ⟨_, rfl, _, _, hl, by simp, rfl, rfl⟩
      | @found l l' node hl =>
        cases node with
        | dir => exact .error
        | link => exact .error
        | file old mode stamp =>
          simp only
          by_cases hmode : writable mode = true
          · simp only [if_pos hmode]
            refine .ok ⟨_, rfl, _, _, hl, ?_, rfl, rfl⟩
            rintro rfl
            cases hfound [] _ _ rfl
          · simp only [if_neg hmode]
            exact .error

lemma removeFile (h : Corresponds a b t t') (hab : Exchangeable a b) (hp : PathsMatch a b t p p') :
    Alike (fun u u' => ∃ l l', Renamed a b l l' ∧ u = t.erase l ∧ u' = t'.erase l')
      (t.removeFile p) (t'.removeFile p') := by
  have hfind := h.find hab false hp
  unfold Store.removeFile
  generalize t.find false p = x at hfind
  generalize t'.find false p' = y at hfind
  cases hfind with
  | error => exact .error
  | @ok x y hxy =>
    obtain ⟨l, node⟩ := x
    obtain ⟨l', node'⟩ := y
    obtain ⟨hl, rfl⟩ := hxy
    cases node' with
    | dir => exact .error
    | _ => exact .ok ⟨l, l', hl, rfl, rfl⟩

end Corresponds

end Store

end Excerpt
