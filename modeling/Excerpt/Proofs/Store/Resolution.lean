import Excerpt.Proofs.Path.Beneath
import Excerpt.Proofs.Store.Walking
import Excerpt.Proofs.Store.WellFormed

/-!
# Where paths lead

`Store.Leads` says where steps lead from a location when links are followed, without a count of
links and without spellings. Only the last step may lead to a free location. The relation is a
partial function and it can be cut at every step, so what is known about the front of a path
carries over to paths that go on from there. `locate_spec` connects it with the walk that the
operations of the store use.
-/

namespace Excerpt

namespace Store

/-- From `l` the steps lead to `m`. -/
inductive Leads (s : Store) : Location → List Component → Location → Prop where
  | here {l} : Leads s l [] l
  | free {l n} : s.get? l = some .dir → s.get? (l ++ [n]) = none → Leads s l [.name n] (l ++ [n])
  | down {l n node rest m} : s.get? (l ++ [n]) = some node → node.isLink = false →
      Leads s (l ++ [n]) rest m → Leads s l (.name n :: rest) m
  | up {l rest m} : s.get? l = some .dir → Leads s l.dropLast rest m →
      Leads s l (.parent :: rest) m
  | jump {l n target rest m} : s.get? (l ++ [n]) = some (.link target) →
      Leads s (if target.isAbsolute then [] else l) (target.steps ++ rest) m →
      Leads s l (.name n :: rest) m

variable {s : Store} {l k m d : Location} {n : Bytes} {a b : List Component} {node : Node}

/-! ### Following steps -/

/-- Steps lead to one location only. -/
lemma Leads.unique (h : Leads s l a m) (h' : Leads s l a k) : m = k := by
  induction h with
  | here => cases h'; rfl
  | free _ hfree =>
    cases h' with
    | free => rfl
    | down hn => rw [hfree] at hn; cases hn
    | jump hn => rw [hfree] at hn; cases hn
  | down hn hlink _ ih =>
    cases h' with
    | free _ hfree => rw [hfree] at hn; cases hn
    | down _ _ h => exact ih h
    | jump hn' => rw [hn] at hn'; cases hn'; cases hlink
  | up _ _ ih =>
    cases h' with
    | up _ h => exact ih h
  | jump hn _ ih =>
    cases h' with
    | free _ hfree => rw [hfree] at hn; cases hn
    | down hn' hlink => rw [hn] at hn'; cases hn'; cases hlink
    | jump hn' h => rw [hn] at hn'; cases hn'; exact ih h

/-- Steps go on from where the steps before them lead. -/
lemma Leads.trans (h : Leads s l a k) (hk : s.get? k ≠ none) (h' : Leads s k b m) :
    Leads s l (a ++ b) m := by
  induction h with
  | here => exact h'
  | free _ hfree => exact absurd hfree hk
  | down hn hlink _ ih => exact .down hn hlink (ih hk h')
  | up hd _ ih => exact .up hd (ih hk h')
  | jump hn _ ih =>
    have := ih hk h'
    rw [List.append_assoc] at this
    exact .jump hn this

/-- Steps can be cut anywhere, and before the last of them something is there. -/
lemma Leads.split (hs : s.WellFormed) (hl : s.get? l ≠ none) (h : Leads s l (a ++ b) m) :
    ∃ k, Leads s l a k ∧ Leads s k b m ∧ (b ≠ [] → s.get? k ≠ none) := by
  generalize hc : a ++ b = c at h
  induction h generalizing a with
  | here =>
    obtain ⟨rfl, rfl⟩ := List.append_eq_nil_iff.mp hc
    exact ⟨_, .here, .here, fun h => absurd rfl h⟩
  | @free l n hd hfree =>
    rcases List.append_eq_singleton_iff.mp hc with ⟨rfl, rfl⟩ | ⟨rfl, rfl⟩
    · exact ⟨_, .here, .free hd hfree, fun _ => hl⟩
    · exact ⟨_, .free hd hfree, .here, fun h => absurd rfl h⟩
  | @down l n node rest m hn hlink h ih =>
    cases a with
    | nil =>
      rw [List.nil_append] at hc
      rw [hc]
      exact ⟨_, .here, .down hn hlink h, fun _ => hl⟩
    | cons c a =>
      rw [List.cons_append, List.cons.injEq] at hc
      obtain ⟨rfl, hc⟩ := hc
      obtain ⟨k, hk, hk', hb⟩ := ih (by rw [hn]; simp) hc
      exact ⟨k, .down hn hlink hk, hk', hb⟩
  | @up l rest m hd h ih =>
    cases a with
    | nil =>
      rw [List.nil_append] at hc
      rw [hc]
      exact ⟨_, .here, .up hd h, fun _ => hl⟩
    | cons c a =>
      rw [List.cons_append, List.cons.injEq] at hc
      obtain ⟨rfl, hc⟩ := hc
      obtain ⟨k, hk, hk', hb⟩ := ih (by rw [hs.get?_dropLast hl]; simp) hc
      exact ⟨k, .up hd hk, hk', hb⟩
  | @jump l n target rest m hn h ih =>
    cases a with
    | nil =>
      rw [List.nil_append] at hc
      rw [hc]
      exact ⟨_, .here, .jump hn h, fun _ => hl⟩
    | cons c a =>
      rw [List.cons_append, List.cons.injEq] at hc
      obtain ⟨rfl, hc⟩ := hc
      have hstart : s.get? (if target.isAbsolute then [] else l) ≠ none := by
        split
        · simp
        · exact hl
      obtain ⟨k, hk, hk', hb⟩ := ih (a := target.steps ++ a) hstart
        (by rw [List.append_assoc, hc])
      exact ⟨k, .jump hn hk, hk', hb⟩

/-! ### Segments -/

/-- The steps of segments. -/
def stepsOf (segs : List Bytes) : List Component := segs.filterMap Path.segmentComponent?

/-- A byte string that a walk visits as one segment. -/
structure IsSegment (seg : Bytes) : Prop where
  ne_nil : seg ≠ []
  noSlash : Path.slash ∉ seg
  noNul : (0 : UInt8) ∉ seg

lemma stepsOf_append (segs segs' : List Bytes) :
    stepsOf (segs ++ segs') = stepsOf segs ++ stepsOf segs' :=
  List.filterMap_append

/-- The segments of a path have its steps. -/
lemma stepsOf_segments (p : Path) : stepsOf (segments p) = p.steps := by
  simp only [stepsOf, segments, Path.steps, Path.bodyComponents]
  rw [List.filterMap_filter]
  congr 1
  funext seg
  by_cases h : seg = [] <;> simp [h, Path.segmentComponent?]

lemma isSegment_of_mem {p : Path} (hp : (0 : UInt8) ∉ p.bytes) {seg : Bytes}
    (h : seg ∈ segments p) : IsSegment seg := by
  obtain ⟨hmem, hne⟩ := List.mem_filter.mp h
  refine ⟨by simpa using hne, fun hs => ?_, fun hz => hp (Text.of_mem_splitOn hmem _ hz).1⟩
  simpa using (Text.of_mem_splitOn hmem _ hs).2

lemma stepsOf_dot (segs : List Bytes) : stepsOf ([Path.dot] :: segs) = stepsOf segs := rfl

lemma stepsOf_up (segs : List Bytes) :
    stepsOf ([Path.dot, Path.dot] :: segs) = .parent :: stepsOf segs := rfl

lemma stepsOf_name {seg : Bytes} (h : Path.IsName seg) (segs : List Bytes) :
    stepsOf (seg :: segs) = .name seg :: stepsOf segs :=
  List.filterMap_cons_some h.component

lemma IsSegment.isName {seg : Bytes} (h : IsSegment seg) (hdot : seg ≠ [Path.dot])
    (hdots : seg ≠ [Path.dot, Path.dot]) : Path.IsName seg := by
  refine ⟨?_, h.noSlash⟩
  simp [Path.segmentComponent?, h.ne_nil, hdot, hdots]

/-! ### Walking -/

/-- What it means that a walk ends at a place. A link at the end is only met where links there are
not followed. -/
inductive Ends (s : Store) (follow : Bool) (dir : Location) (todo : List Bytes) : Place → Prop where
  | found {loc : Location} {node : Node} : s.get? loc = some node → node.isLink = false →
      Leads s dir (stepsOf todo) loc →
      (follow = false → node ≠ .dir → ∃ front n d, todo = front ++ [n] ∧ Path.IsName n ∧
        loc = d ++ [n] ∧ Leads s dir (stepsOf front) d) →
      Ends s follow dir todo (.found loc node)
  | stopped {front : List Bytes} {n : Bytes} {d : Location} {target : Path} : follow = false →
      todo = front ++ [n] → Path.IsName n →
      Leads s dir (stepsOf front) d → s.get? (d ++ [n]) = some (.link target) →
      Ends s follow dir todo (.found (d ++ [n]) (.link target))
  | vacant {d : Location} {n : Bytes} : s.get? d = some .dir → IsEntryName n →
      s.get? (d ++ [n]) = none →
      Leads s dir (stepsOf todo) (d ++ [n]) →
      (follow = false → ∃ front, todo = front ++ [n] ∧ Leads s dir (stepsOf front) d) →
      Ends s follow dir todo (.vacant d n)

/-- What it means that a walk comes as far as a leg. -/
def Reaches (s : Store) (follow : Bool) (dir : Location) (todo : List Bytes) : Leg → Prop
  | .arrived place => Ends s follow dir todo place
  | .refused _ => True
  | .jump d target rest => ∃ front n, todo = front ++ n :: rest ∧ Path.IsName n ∧
      Leads s dir (stepsOf front) d ∧ s.get? d ≠ none ∧
      s.get? (d ++ [n]) = some (.link target) ∧ (rest = [] → follow = true)

/-- A leg stays what it is when a segment is put in front that leads to where it starts. -/
lemma Reaches.cons {follow : Bool} {dir dir' : Location} {seg : Bytes} {rest : List Bytes}
    {leg : Leg} (h : Reaches s follow dir' rest leg)
    (hstep : ∀ segs m, Leads s dir' (stepsOf segs) m → Leads s dir (stepsOf (seg :: segs)) m) :
    Reaches s follow dir (seg :: rest) leg := by
  cases leg with
  | arrived place =>
    cases h with
    | found hn hlink hl hlast =>
      refine .found hn hlink (hstep _ _ hl) fun hf hdir => ?_
      obtain ⟨front, n, d, rfl, hname, hloc, hfront⟩ := hlast hf hdir
      exact ⟨seg :: front, n, d, rfl, hname, hloc, hstep _ _ hfront⟩
    | stopped hf ht hname hl hn =>
      exact .stopped hf (by rw [ht]; rfl) hname (hstep _ _ hl) hn
    | vacant hd hname hfree hl hlast =>
      refine .vacant hd hname hfree (hstep _ _ hl) fun hf => ?_
      obtain ⟨front, rfl, hfront⟩ := hlast hf
      exact ⟨seg :: front, rfl, hstep _ _ hfront⟩
  | refused fault => trivial
  | jump d target more =>
    obtain ⟨front, n, rfl, hname, hl, hd, hn, hr⟩ := h
    exact ⟨seg :: front, n, rfl, hname, hstep _ _ hl, hd, hn, hr⟩

lemma descend_spec (hs : s.WellFormed) (follow : Bool) (todo : List Bytes) (dir : Location)
    (hdir : s.get? dir = some .dir) (htodo : ∀ seg ∈ todo, IsSegment seg) :
    Reaches s follow dir todo (s.descend follow todo dir) := by
  induction todo, dir using descend_induction with
  | nil dir => exact .found hdir rfl .here fun _ hnotdir => absurd rfl hnotdir
  | dot rest dir ih =>
    rw [descend_dot]
    exact (ih hdir fun t ht => htodo t (List.mem_cons_of_mem _ ht)).cons fun segs m h => h
  | up rest dir ih =>
    rw [descend_up]
    refine (ih (hs.get?_dropLast (by rw [hdir]; simp))
      fun t ht => htodo t (List.mem_cons_of_mem _ ht)).cons fun segs m h => ?_
    rw [stepsOf_up]
    exact .up hdir h
  | long seg rest dir hlong =>
    rw [descend_long hlong]
    trivial
  | name seg rest dir hseg ih =>
    have hsegment := htodo seg List.mem_cons_self
    have hname := hsegment.isName hseg.1 hseg.2.1
    cases hn : s.get? (dir ++ [seg]) with
    | none =>
      rw [descend_none hseg follow rest hn]
      split
      · rename_i hnil
        have hentry : IsEntryName seg := ⟨hname, hsegment.noNul, Nat.le_of_not_lt hseg.2.2⟩
        refine .vacant hdir hentry hn ?_ fun _ => ⟨[], by rw [hnil]; rfl, .here⟩
        rw [stepsOf_name hname, hnil]
        exact .free hdir hn
      · trivial
    | some node =>
      cases node with
      | dir =>
        rw [descend_dir hseg follow rest hn]
        refine (ih hn fun t ht => htodo t (List.mem_cons_of_mem _ ht)).cons fun segs m h => ?_
        rw [stepsOf_name hname]
        exact .down hn rfl h
      | link target =>
        rw [descend_link hseg follow rest hn]
        split
        · rename_i hstop
          have hlast : seg :: rest = [] ++ [seg] := by
            rw [hstop.1]
            rfl
          exact .stopped (by simpa using hstop.2) hlast hname .here hn
        · rename_i hgo
          rw [not_and, Bool.not_eq_true, Bool.not_eq_false] at hgo
          exact ⟨[], seg, rfl, hname, .here, by rw [hdir]; simp, hn, hgo⟩
      | file =>
        rw [descend_file hseg follow rest hn rfl]
        split
        · rename_i hnil
          refine .found hn rfl ?_ fun _ _ => ⟨[], seg, dir, ?_, hname, rfl, .here⟩
          · rw [stepsOf_name hname, hnil]
            exact .down hn rfl .here
          · rw [hnil]
            rfl
        · trivial

/-- Where a walk goes on after a link, the whole of it ends. -/
lemma Ends.of_jump {follow follow' : Bool} {dir d : Location} {front rest : List Bytes}
    {n : Bytes} {target : Path} {place : Place} (hname : Path.IsName n)
    (hfront : Leads s dir (stepsOf front) d) (hd : s.get? d ≠ none)
    (hn : s.get? (d ++ [n]) = some (.link target)) (hr : rest = [] → follow = true)
    (hf : follow' = false ↔ follow = false)
    (h : Ends s follow' (if target.isAbsolute then [] else d) (segments target ++ rest) place) :
    Ends s follow dir (front ++ n :: rest) place := by
  have hjump : ∀ more m, Leads s (if target.isAbsolute then [] else d)
      (stepsOf (segments target ++ more)) m → Leads s dir (stepsOf (front ++ n :: more)) m := by
    intro more m hm
    rw [stepsOf_append, stepsOf_segments] at hm
    rw [stepsOf_append, stepsOf_name hname]
    exact hfront.trans hd (.jump hn hm)
  -- Where links at the end are not followed, the last segment is still to come after the link.
  have hlast : ∀ (front' : List Bytes) (last : Bytes), follow = false →
      segments target ++ rest = front' ++ [last] →
      ∃ more, rest = more ++ [last] ∧ front' = segments target ++ more := by
    intro front' last hf' ht
    have hne : rest ≠ [] := fun he => by
      rw [hf'] at hr
      cases hr he
    obtain ⟨more, last', rfl⟩ := (List.eq_nil_or_concat rest).resolve_left hne
    rw [List.concat_eq_append, ← List.append_assoc] at ht
    obtain ⟨rfl, hone⟩ := List.append_inj' ht rfl
    obtain rfl := List.singleton_inj.mp hone
    exact ⟨more, List.concat_eq_append, rfl⟩
  cases h with
  | found hnode hlink hl hend =>
    refine .found hnode hlink (hjump _ _ hl) fun hf'' hdir => ?_
    obtain ⟨front', last, d', ht, hlastName, hloc, hl'⟩ := hend (hf.mpr hf'') hdir
    obtain ⟨more, rfl, rfl⟩ := hlast _ _ hf'' ht
    exact ⟨front ++ n :: more, last, d', by simp, hlastName, hloc, hjump _ _ hl'⟩
  | stopped hf' ht hlastName hl hnode =>
    obtain ⟨more, rfl, rfl⟩ := hlast _ _ (hf.mp hf') ht
    have hsplit : ∀ last : Bytes,
        front ++ n :: (more ++ [last]) = front ++ n :: more ++ [last] := by
      simp
    exact .stopped (hf.mp hf') (hsplit _) hlastName (hjump _ _ hl) hnode
  | vacant hdir hentry hfree hl hend =>
    refine .vacant hdir hentry hfree (hjump _ _ hl) fun hf'' => ?_
    obtain ⟨front', ht, hl'⟩ := hend (hf.mpr hf'')
    obtain ⟨more, rfl, rfl⟩ := hlast _ _ hf'' ht
    exact ⟨front ++ n :: more, by simp, hjump _ _ hl'⟩

lemma walk_spec (hs : s.WellFormed) {follow asDir asDir' : Bool} {links : Nat} {dir : Location}
    {todo : List Bytes} {place : Place} (hdir : s.get? dir = some .dir)
    (htodo : ∀ seg ∈ todo, IsSegment seg)
    (h : s.walk follow links dir todo asDir = .ok (place, asDir')) :
    Ends s (follow || asDir) dir todo place ∧ (asDir = true → asDir' = true) ∧
      (asDir' = true → ∀ loc node, place = .found loc node → node = .dir) := by
  induction links generalizing dir todo asDir with
  | zero => cases h
  | succ links ih =>
    rw [walk] at h
    have hleg := descend_spec hs (follow || asDir) todo dir hdir htodo
    split at h
    · cases h
    · rename_i d target rest hjump
      rw [hjump] at hleg
      obtain ⟨front, n, rfl, hname, hfront, hd, hn, hr⟩ := hleg
      have hd' := hs.get?_of_concat (n := n) (by rw [hn]; simp)
      have hstart : s.get? (if target.isAbsolute then [] else d) = some .dir := by
        split
        · rfl
        · exact hd'
      obtain ⟨he, hkeep, hasdir⟩ := ih hstart (fun seg hseg => by
        rcases List.mem_append.mp hseg with hseg | hseg
        · exact isSegment_of_mem (hs.isSound hn) hseg
        · exact htodo seg (by simp [hseg])) h
      refine ⟨he.of_jump hname hfront hd hn hr ?_, fun ha => hkeep (by simp [ha]), hasdir⟩
      simp only [Bool.or_eq_false_iff]
      refine ⟨fun ⟨hf, ha, _⟩ => ⟨hf, ha⟩, fun ⟨hf, ha⟩ => ⟨hf, ha, ?_⟩⟩
      have hrest : rest ≠ [] := fun he => by simpa [hf, ha] using hr he
      simp [hrest]
    · rename_i loc node harrived
      rw [harrived] at hleg
      split at h
      · cases h
      · rename_i hcheck
        cases h
        refine ⟨hleg, id, ?_⟩
        rintro rfl loc' node' he
        cases he
        cases node <;> simp [Node.isDir] at hcheck ⊢
    · rename_i place' hnotfound harrived
      rw [harrived] at hleg
      cases h
      refine ⟨hleg, id, ?_⟩
      rintro - loc node rfl
      exact absurd rfl (hnotfound loc node)

/-! ### Locating paths -/

lemma WellFormed.get?_start (hs : s.WellFormed) (p : Path) : s.get? (s.start p) = some .dir := by
  simp only [start]
  split
  · rfl
  · exact hs.cwd

theorem locate_spec (hs : s.WellFormed) {follow asDir : Bool} {p : Path} {place : Place}
    (h : s.locate follow p = .ok (place, asDir)) :
    Ends s (follow || wantsDir p) (s.start p) (segments p) place ∧
      (wantsDir p = true → ∀ loc node, place = .found loc node → node = .dir) := by
  obtain ⟨hp, hwalk⟩ := locate_eq_ok_iff.mp h
  have hspec := walk_spec hs (hs.get?_start p)
    (fun seg hseg => isSegment_of_mem hp.noNul hseg) hwalk
  exact ⟨hspec.1, fun hwants => hspec.2.2 (hspec.2.1 hwants)⟩

/-- A free place for a path is where its steps lead. -/
lemma of_locate_vacant (hs : s.WellFormed) {follow asDir : Bool} {p : Path}
    (h : s.locate follow p = .ok (.vacant d n, asDir)) :
    Leads s (s.start p) p.steps (d ++ [n]) ∧ s.get? d = some .dir ∧ IsEntryName n ∧
      s.get? (d ++ [n]) = none := by
  obtain ⟨he, -⟩ := locate_spec hs h
  cases he with
  | vacant hd hn hfree hl => exact ⟨by rwa [stepsOf_segments] at hl, hd, hn, hfree⟩

/-- The steps of segments of which the last is a name. -/
lemma steps_of_segments {p : Path} {front : List Bytes} (h : segments p = front ++ [n])
    (hn : Path.IsName n) : p.steps = stepsOf front ++ [.name n] := by
  rw [← stepsOf_segments, h, stepsOf_append]
  congr 1
  exact stepsOf_name hn []

/-- Where a link at the end is not followed, the free place has the last name of the path. -/
lemma last_of_locate_vacant (hs : s.WellFormed) {asDir : Bool} {p : Path}
    (h : s.locate false p = .ok (.vacant d n, asDir)) (hp : wantsDir p = false) :
    ∃ front, p.steps = front ++ [.name n] ∧ Leads s (s.start p) front d := by
  obtain ⟨he, -⟩ := locate_spec hs h
  cases he with
  | vacant _ hn _ _ hlast =>
    obtain ⟨front, ht, hl⟩ := hlast (by rw [hp]; rfl)
    exact ⟨stepsOf front, steps_of_segments ht hn.isName, hl⟩

/-- What a path is found to lead to is where its steps lead, unless it is a link. -/
lemma leads_of_find (hs : s.WellFormed) {follow : Bool} {p : Path}
    (h : s.find follow p = .ok (l, node)) (hlink : node.isLink = false) :
    Leads s (s.start p) p.steps l ∧ s.get? l = some node := by
  obtain ⟨asDir, h⟩ := locate_of_find h
  obtain ⟨he, -⟩ := locate_spec hs h
  cases he with
  | found hn _ hl _ => exact ⟨by rwa [stepsOf_segments] at hl, hn⟩
  | stopped => cases hlink

/-- With links followed no link is found. -/
lemma isLink_of_find (hs : s.WellFormed) {p : Path} (h : s.find true p = .ok (l, node)) :
    node.isLink = false := by
  obtain ⟨asDir, h⟩ := locate_of_find h
  obtain ⟨he, -⟩ := locate_spec hs h
  cases he with
  | found _ hlink _ _ => exact hlink
  | stopped hf => cases hf

lemma get?_of_find (hs : s.WellFormed) {follow : Bool} {p : Path}
    (h : s.find follow p = .ok (l, node)) : s.get? l = some node := by
  obtain ⟨asDir, h⟩ := locate_of_find h
  obtain ⟨he, -⟩ := locate_spec hs h
  cases he with
  | found hn _ _ _ => exact hn
  | stopped _ _ _ _ hn => exact hn

/-- A link is found by the last step of a path. -/
lemma of_find_link (hs : s.WellFormed) {follow : Bool} {p target : Path}
    (h : s.find follow p = .ok (l, .link target)) :
    ∃ front n d, p.steps = front ++ [.name n] ∧ Leads s (s.start p) front d ∧ l = d ++ [n] := by
  obtain ⟨asDir, h⟩ := locate_of_find h
  obtain ⟨he, -⟩ := locate_spec hs h
  cases he with
  | found _ hlink _ _ => cases hlink
  | @stopped front n d _ _ ht hname hl hn =>
    exact ⟨stepsOf front, n, d, steps_of_segments ht hname, hl, rfl⟩

/-- Without following a link at the end, what is no directory is found by the last step. -/
lemma last_of_find (hs : s.WellFormed) {p : Path} (h : s.find false p = .ok (l, node))
    (hdir : node ≠ .dir) :
    ∃ front n d, p.steps = front ++ [.name n] ∧ Leads s (s.start p) front d ∧ l = d ++ [n] := by
  by_cases hlink : node.isLink = true
  · cases node with
    | link target => exact of_find_link hs h
    | _ => cases hlink
  · obtain ⟨asDir, h⟩ := locate_of_find h
    obtain ⟨he, hwants⟩ := locate_spec hs h
    have hp : wantsDir p = false := by
      rw [Bool.eq_false_iff]
      exact fun hp => hdir (hwants hp l node rfl)
    rw [hp] at he
    cases he with
    | found _ _ _ hlast =>
      obtain ⟨front, n, d, ht, hname, rfl, hl⟩ := hlast rfl hdir
      exact ⟨stepsOf front, n, d, steps_of_segments ht hname, hl, rfl⟩
    | stopped => exact absurd rfl hlink

end Store

end Excerpt
