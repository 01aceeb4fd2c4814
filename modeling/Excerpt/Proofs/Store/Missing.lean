import Excerpt.Proofs.Store.Growth

/-!
# Where paths run into nothing

`Store.Misses` says at which place a walk looks for something and finds nothing. It is the
counterpart of `Store.Leads`: steps lead to something that is there or they miss, and never both.
When a store grows, a path can change its meaning only if something comes to the place that it
misses, so that where this place stays free, the path is looked up with the same outcome.
-/

namespace Excerpt

namespace Store

/-- From `l` the steps run into `q`, where nothing stands. A link that the last step comes to is
followed only if `follow` says so. -/
inductive Misses (s : Store) (follow : Bool) : Location → List Component → Location → Prop where
  | here {l n rest} : s.get? (l ++ [n]) = none → Misses s follow l (.name n :: rest) (l ++ [n])
  | down {l n rest q} : s.get? (l ++ [n]) = some .dir → Misses s follow (l ++ [n]) rest q →
      Misses s follow l (.name n :: rest) q
  | up {l rest q} : Misses s follow l.dropLast rest q → Misses s follow l (.parent :: rest) q
  | jump {l n target rest q} : s.get? (l ++ [n]) = some (.link target) →
      (rest = [] → follow = true) →
      Misses s follow (if target.isAbsolute then [] else l) (target.steps ++ rest) q →
      Misses s follow l (.name n :: rest) q

variable {s t : Store} {l m q dir : Location} {n : Bytes} {a b : List Component} {node : Node}
  {follow : Bool} {todo : List Bytes} {p : Path}

/-! ### Missing and leading -/

/-- What is missed is free. -/
lemma Misses.free (h : Misses s follow l a q) : s.get? q = none := by
  induction h with
  | here hfree => exact hfree
  | down _ _ ih => exact ih
  | up _ ih => exact ih
  | jump _ _ _ ih => exact ih

/-- What is missed without following a link at the end is also missed otherwise. -/
lemma Misses.following (h : Misses s follow l a q) : Misses s true l a q := by
  induction h with
  | here hfree => exact .here hfree
  | down hn _ ih => exact .down hn ih
  | up _ ih => exact .up ih
  | jump hn _ _ ih => exact .jump hn (fun _ => rfl) ih

/-- Steps that lead somewhere can only miss the place where they lead. -/
lemma Leads.eq_of_misses (hl : Leads s l a m) (h : Misses s follow l a q) : q = m := by
  induction hl with
  | here => cases h
  | free _ hfree =>
    cases h with
    | here => rfl
    | down hn => rw [hfree] at hn; cases hn
    | jump hn => rw [hfree] at hn; cases hn
  | down hn hlink _ ih =>
    cases h with
    | here hfree => rw [hfree] at hn; cases hn
    | down _ h => exact ih h
    | jump hn' => rw [hn] at hn'; cases hn'; cases hlink
  | up _ _ ih =>
    cases h with
    | up h => exact ih h
  | jump hn _ ih =>
    cases h with
    | here hfree => rw [hfree] at hn; cases hn
    | down hn' => rw [hn] at hn'; cases hn'
    | jump hn' _ h => rw [hn] at hn'; cases hn'; exact ih h

/-- Steps that miss do so at the front, or behind a directory that the front leads to. -/
lemma Misses.split (hs : s.WellFormed) (hl : s.get? l = some .dir)
    (h : Misses s follow l (a ++ b) q) :
    Misses s true l a q ∨ ∃ m, Leads s l a m ∧ s.get? m = some .dir ∧ Misses s follow m b q := by
  generalize hc : a ++ b = c at h
  have hempty : a = [] → Misses s follow l c q →
      ∃ m, Leads s l a m ∧ s.get? m = some .dir ∧ Misses s follow m b q := by
    rintro rfl h
    rw [List.nil_append] at hc
    exact ⟨l, .here, hl, hc ▸ h⟩
  induction h generalizing a with
  | @here l n rest hfree =>
    cases a with
    | nil => exact Or.inr (hempty rfl (.here hfree))
    | cons c a =>
      rw [List.cons_append, List.cons.injEq] at hc
      obtain ⟨rfl, -⟩ := hc
      exact Or.inl (.here hfree)
  | @down l n rest q hn h ih =>
    cases a with
    | nil => exact Or.inr (hempty rfl (.down hn h))
    | cons c a =>
      rw [List.cons_append, List.cons.injEq] at hc
      obtain ⟨rfl, hc⟩ := hc
      refine (ih hn hc ?_).imp (.down hn) ?_
      · rintro rfl h
        rw [List.nil_append] at hc
        exact ⟨_, .here, hn, hc ▸ h⟩
      · rintro ⟨m, hm, hdir, h⟩
        exact ⟨m, .down hn rfl hm, hdir, h⟩
  | @up l rest q h ih =>
    cases a with
    | nil => exact Or.inr (hempty rfl (.up h))
    | cons c a =>
      rw [List.cons_append, List.cons.injEq] at hc
      obtain ⟨rfl, hc⟩ := hc
      have habove : s.get? l.dropLast = some .dir := hs.get?_dropLast (by rw [hl]; simp)
      refine (ih habove hc ?_).imp .up ?_
      · rintro rfl h
        rw [List.nil_append] at hc
        exact ⟨_, .here, habove, hc ▸ h⟩
      · rintro ⟨m, hm, hdir, h⟩
        exact ⟨m, .up hl hm, hdir, h⟩
  | @jump l n target rest q hn hlast h ih =>
    cases a with
    | nil => exact Or.inr (hempty rfl (.jump hn hlast h))
    | cons c a =>
      rw [List.cons_append, List.cons.injEq] at hc
      obtain ⟨rfl, hc⟩ := hc
      have hstart : s.get? (if target.isAbsolute then [] else l) = some .dir := by
        split
        · rfl
        · exact hl
      have hjoin : target.steps ++ a ++ b = target.steps ++ rest := by
        rw [List.append_assoc, hc]
      refine (ih hstart hjoin ?_).imp (.jump hn fun _ => rfl) ?_
      · intro hnil h
        rw [hnil, List.nil_append] at hjoin
        exact ⟨_, hnil ▸ .here, hstart, hjoin ▸ h⟩
      · rintro ⟨m, hm, hdir, h⟩
        exact ⟨m, .jump hn hm, hdir, h⟩

/-- What is missed behind steps that lead to something is missed from there. -/
lemma Misses.of_append (hs : s.WellFormed) (hl : s.get? l = some .dir) (ha : Leads s l a m)
    (hm : s.get? m ≠ none) (h : Misses s follow l (a ++ b) q) : Misses s follow m b q := by
  rcases h.split hs hl with h | ⟨k, hk, -, h⟩
  · exact absurd (ha.eq_of_misses h ▸ h.free) hm
  · exact ha.unique hk ▸ h

/-- Names behind a directory miss a place that they spell, unless there is a link on the way. -/
lemma Misses.of_names {names : Location} (h : Misses s follow l (names.map .name) q)
    (hlink : ∀ front, front <+: names → front ≠ [] → (front = names → follow = true) →
      ∀ target, s.get? (l ++ front) ≠ some (.link target)) :
    ∃ front, front <+: names ∧ q = l ++ front := by
  induction names generalizing l with
  | nil => cases h
  | cons n names ih =>
    have hfirst : [n] <+: n :: names := ⟨names, rfl⟩
    cases h with
    | here => exact ⟨[n], hfirst, rfl⟩
    | down hn h =>
      obtain ⟨front, hp, rfl⟩ := ih h fun front hp hne hlast target => by
        have := hlink (n :: front) (List.cons_prefix_cons.mpr ⟨rfl, hp⟩) (by simp)
          (fun he => hlast (List.cons.inj he).2) target
        rwa [List.append_assoc, List.singleton_append]
      exact ⟨n :: front, List.cons_prefix_cons.mpr ⟨rfl, hp⟩, by simp⟩
    | jump hn hlast =>
      refine absurd hn (hlink [n] hfirst (by simp) (fun he => hlast ?_) _)
      rw [← (List.cons.inj he).2]
      rfl

/-! ### Walks in a store that has grown -/

/-- Steps are followed at least as far as the walk along the segments follows them: also where the
last segment is a dot, behind which a link is no longer at the end. -/
def Follows (follow : Bool) (todo : List Bytes) (flag : Bool) : Prop :=
  (follow = true → flag = true) ∧ (flag = true ∨ todo.getLast? ≠ some [Path.dot])

lemma getLast?_tail {seg : Bytes} (h : (seg :: todo).getLast? ≠ some [Path.dot]) :
    todo.getLast? ≠ some [Path.dot] := by
  cases todo with
  | nil => simp
  | cons seg' todo => rwa [List.getLast?_cons_cons] at h

lemma Follows.tail {seg : Bytes} {flag : Bool} (h : Follows follow (seg :: todo) flag) :
    Follows follow todo flag :=
  ⟨h.1, h.2.imp_right getLast?_tail⟩

/-- Only dots have no steps. -/
lemma getLast?_of_stepsOf_eq_nil (htodo : ∀ seg ∈ todo, IsSegment seg) (h : stepsOf todo = [])
    (hne : todo ≠ []) : todo.getLast? = some [Path.dot] := by
  induction todo with
  | nil => exact absurd rfl hne
  | cons seg rest ih =>
    by_cases hdot : seg = [Path.dot]
    · subst hdot
      cases rest with
      | nil => rfl
      | cons seg' rest =>
        rw [List.getLast?_cons_cons]
        exact ih (fun _ hseg => htodo _ (List.mem_cons_of_mem _ hseg)) h (by simp)
    · by_cases hup : seg = [Path.dot, Path.dot]
      · subst hup
        cases h
      · rw [stepsOf_name ((htodo seg List.mem_cons_self).isName hdot hup)] at h
        cases h

namespace Extends

variable {flag : Bool}

/-- A leg that finds nothing stays what it is where the places that are missed stay free. -/
lemma descend_of_free (h : Extends s t) (htodo : ∀ seg ∈ todo, IsSegment seg)
    (hfree : ∀ q, Misses s flag dir (stepsOf todo) q → t.get? q = none)
    (hnot : ∀ l node, s.descend follow todo dir ≠ .arrived (.found l node)) :
    t.descend follow todo dir = s.descend follow todo dir := by
  induction todo, dir using descend_induction with
  | nil dir => rfl
  | dot rest dir ih =>
    rw [descend_dot] at hnot
    rw [descend_dot, descend_dot]
    exact ih (fun _ hseg => htodo _ (List.mem_cons_of_mem _ hseg)) hfree hnot
  | up rest dir ih =>
    rw [descend_up] at hnot
    rw [descend_up, descend_up]
    exact ih (fun _ hseg => htodo _ (List.mem_cons_of_mem _ hseg)) (fun q hq => hfree q (.up hq))
      hnot
  | long seg rest dir hlong => rw [descend_long hlong, descend_long hlong]
  | name seg rest dir hseg ih =>
    rw [stepsOf_name ((htodo seg List.mem_cons_self).isName hseg.1 hseg.2.1)] at hfree
    cases hn : s.get? (dir ++ [seg]) with
    | none => rw [descend_none hseg _ _ hn, descend_none hseg _ _ (hfree _ (.here hn))]
    | some node =>
      cases node with
      | dir =>
        rw [descend_dir hseg _ _ hn] at hnot
        rw [descend_dir hseg _ _ hn, descend_dir hseg _ _ (h.dir hn)]
        exact ih (fun _ hseg => htodo _ (List.mem_cons_of_mem _ hseg))
          (fun q hq => hfree q (.down hn hq)) hnot
      | link target => rw [descend_link hseg _ _ hn, descend_link hseg _ _ (h.link hn)]
      | file content mode stamp =>
        obtain ⟨node', hn', hshape⟩ := h.kept _ _ hn
        have hfile' : node'.isFile = true := Node.isFile_of_shape hshape
        rw [descend_file hseg _ _ hn rfl] at hnot ⊢
        rw [descend_file hseg _ _ hn' hfile']
        split_ifs at hnot ⊢
        · exact absurd rfl (hnot _ _)
        · rfl

end Extends

/-- What is missed behind the link that a leg ends at is missed by the whole. -/
lemma Misses.of_jump {flag : Bool} {target : Path} {rest : List Bytes}
    (htodo : ∀ seg ∈ todo, IsSegment seg) (hflag : Follows follow todo flag)
    (hleg : s.descend follow todo dir = .jump l target rest)
    (h : Misses s flag (if target.isAbsolute then [] else l) (target.steps ++ stepsOf rest) q) :
    Misses s flag dir (stepsOf todo) q := by
  induction todo, dir using descend_induction with
  | nil dir => cases hleg
  | dot more dir ih =>
    rw [descend_dot] at hleg
    exact ih (fun _ hseg => htodo _ (List.mem_cons_of_mem _ hseg)) hflag.tail hleg
  | up more dir ih =>
    rw [descend_up] at hleg
    exact .up (ih (fun _ hseg => htodo _ (List.mem_cons_of_mem _ hseg)) hflag.tail hleg)
  | long seg more dir hlong =>
    rw [descend_long hlong] at hleg
    cases hleg
  | name seg more dir hseg ih =>
    have hmore : ∀ seg ∈ more, IsSegment seg := fun _ hseg =>
      htodo _ (List.mem_cons_of_mem _ hseg)
    rw [stepsOf_name ((htodo seg List.mem_cons_self).isName hseg.1 hseg.2.1)]
    cases hn : s.get? (dir ++ [seg]) with
    | none =>
      rw [descend_none hseg _ _ hn] at hleg
      split_ifs at hleg
    | some node =>
      cases node with
      | dir =>
        rw [descend_dir hseg _ _ hn] at hleg
        exact .down hn (ih hmore hflag.tail hleg)
      | link target' =>
        rw [descend_link hseg _ _ hn] at hleg
        split_ifs at hleg with hstop
        cases hleg
        refine .jump hn (fun hnil => ?_) h
        -- Where nothing but dots is left, the flag is set; where nothing is left, the link was
        -- followed.
        by_cases hrest : rest = []
        · exact hflag.1 (by simpa [hrest] using hstop)
        · refine hflag.tail.2.resolve_right fun hlast => hlast ?_
          exact getLast?_of_stepsOf_eq_nil hmore hnil hrest
      | file content mode stamp =>
        rw [descend_file hseg _ _ hn rfl] at hleg
        split_ifs at hleg

/-- What is left behind a link is followed as far as the whole. -/
lemma Follows.of_jump {flag asDir wants : Bool} {front rest more : List Bytes}
    (hflag : Follows (follow || asDir) (front ++ n :: rest) flag)
    (hlast : rest = [] → (follow || asDir) = true) :
    Follows (follow || (asDir || (rest.isEmpty && wants))) (more ++ rest) flag := by
  by_cases hrest : rest = []
  · have hset := hflag.1 (hlast hrest)
    exact ⟨fun _ => hset, Or.inl hset⟩
  · obtain ⟨rest, seg, rfl⟩ := (List.eq_nil_or_concat rest).resolve_left hrest
    refine ⟨fun h => hflag.1 (by simpa using h), hflag.2.imp_right fun hdot => ?_⟩
    rw [List.concat_eq_append, ← List.append_assoc, List.getLast?_concat]
    rwa [List.concat_eq_append, ← List.cons_append, ← List.append_assoc,
      List.getLast?_concat] at hdot

namespace Extends

variable {flag : Bool}

/-- A walk that finds nothing ends in the same way where the places that are missed stay free. -/
lemma walk_of_free (h : Extends s t) (hs : s.WellFormed) {asDir : Bool} {links : Nat}
    (hdir : s.get? dir = some .dir) (htodo : ∀ seg ∈ todo, IsSegment seg)
    (hflag : Follows (follow || asDir) todo flag)
    (hfree : ∀ q, Misses s flag dir (stepsOf todo) q → t.get? q = none)
    (hnot : ∀ l node asDir', s.walk follow links dir todo asDir ≠ .ok (.found l node, asDir')) :
    t.walk follow links dir todo asDir = s.walk follow links dir todo asDir := by
  induction links generalizing dir todo asDir with
  | zero => rfl
  | succ links ih =>
    have hkept := h.descend (follow || asDir) todo dir
    have hleg := descend_spec hs (follow || asDir) todo dir hdir htodo
    rw [Store.walk] at hnot
    rw [Store.walk, Store.walk]
    cases hd : s.descend (follow || asDir) todo dir with
    | refused fault =>
      rw [h.descend_of_free htodo hfree (by simp [hd]), hd]
    | jump l target rest =>
      have hmiss := fun q => Misses.of_jump (q := q) htodo hflag hd
      rw [hd] at hkept hleg hnot
      obtain ⟨front, n, rfl, -, -, -, hn, hlast⟩ := hleg
      rw [show t.descend (follow || asDir) (front ++ n :: rest) dir = .jump l target rest from hkept]
      have hl := hs.get?_of_concat (n := n) (by rw [hn]; simp)
      refine ih ?_ (fun seg hseg => ?_) (hflag.of_jump hlast) (fun q hq => hfree q (hmiss q ?_)) hnot
      · split
        · rfl
        · exact hl
      · rcases List.mem_append.mp hseg with hseg | hseg
        · exact isSegment_of_mem (hs.isSound hn) hseg
        · exact htodo seg (by simp [hseg])
      · rwa [stepsOf_append, stepsOf_segments] at hq
    | arrived place =>
      cases place with
      | vacant l n => rw [h.descend_of_free htodo hfree (by simp [hd]), hd]
      | found l node =>
        rw [hd] at hkept hnot
        obtain ⟨node', hshape, he⟩ := hkept
        rw [he]
        simp only [Node.isDir_of_shape hshape]
        by_cases hcheck : (asDir && !node.isDir) = true
        · simp only [hcheck, if_true]
        · simp only [hcheck] at hnot
          exact absurd rfl (hnot l node asDir)

/-- What a path is looked up with: something of the same kind is found at the same place, or
nothing is found and the outcome is the same. -/
theorem locate_of_free (h : Extends s t) (hs : s.WellFormed)
    (hflag : Follows (follow || wantsDir p) (segments p) flag)
    (hfree : ∀ q, Misses s flag (s.start p) p.steps q → t.get? q = none) :
    (∃ l node node' asDir, s.locate follow p = .ok (.found l node, asDir) ∧
      t.locate follow p = .ok (.found l node', asDir) ∧ node'.shape = node.shape) ∨
    ((∀ l node asDir, s.locate follow p ≠ .ok (.found l node, asDir)) ∧
      t.locate follow p = s.locate follow p) := by
  by_cases hfound : ∃ l node asDir, s.locate follow p = .ok (.found l node, asDir)
  · obtain ⟨l, node, asDir, hl⟩ := hfound
    obtain ⟨node', hl', hshape⟩ := h.locate hl
    exact Or.inl ⟨l, node, node', asDir, hl, hl', hshape⟩
  · have hnot : ∀ l node asDir, s.locate follow p ≠ .ok (.found l node, asDir) :=
      fun l node asDir hl => hfound ⟨l, node, asDir, hl⟩
    refine Or.inr ⟨hnot, ?_⟩
    refine locate_congr fun hp => ?_
    rw [hp.locate_eq] at hnot
    rw [start_of_cwd h.cwd]
    refine h.walk_of_free hs (hs.get?_start p) ?_ hflag ?_ hnot
    · exact fun seg hseg => isSegment_of_mem hp.noNul hseg
    · rwa [stepsOf_segments]

/-- What is found is the same if it is the same that stands there. -/
theorem find_of_free (h : Extends s t) (hs : s.WellFormed) (ht : t.WellFormed)
    (hflag : Follows (follow || wantsDir p) (segments p) flag)
    (hfree : ∀ q, Misses s flag (s.start p) p.steps q → t.get? q = none)
    (hsame : ∀ l node, s.find follow p = .ok (l, node) → t.get? l = some node) :
    t.find follow p = s.find follow p := by
  rcases h.locate_of_free hs hflag hfree with ⟨l, node, node', asDir, hl, hl', -⟩ | ⟨-, he⟩
  · have hfind := find_of_locate hl
    have hfind' := find_of_locate hl'
    have hnode := get?_of_find ht hfind'
    rw [hsame l node hfind, Option.some.injEq] at hnode
    rw [hfind, hfind', hnode]
  · rw [Store.find, Store.find, he]

end Extends

end Store

end Excerpt
