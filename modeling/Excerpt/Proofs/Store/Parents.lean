import Excerpt.Proofs.Path.Listing
import Excerpt.Proofs.Store.Children

/-!
# The parent of a directory

Whatever path leads to a directory, the spelling of its parent leads to a directory too: the walk
for the parent is the beginning of the walk for the path, and it has come to a directory there, or
it could not have gone on.
-/

namespace Excerpt

namespace Path

/-! ### What a parent is spelled like -/

/-- What a path starts with and what comes behind it are the whole path. -/
lemma splitLead_whole (b : Bytes) : (splitLead b).1 ++ (splitLead b).2 = b := by
  rcases splitLead_cases b with ⟨rest, hb, hs⟩ | ⟨rest, hb, -, hs⟩ | ⟨-, -, hs⟩
  · rw [hs, hb]
    rfl
  · rw [hs, hb]
    rfl
  · rw [hs]
    rfl

/-- What is trimmed at the front ends in a slash, or nothing is left. -/
lemma trimFront_split (b : Bytes) : ∃ front, b = front ++ trimFront b ∧
    (front = [] ∨ front.getLast? = some slash ∨ trimFront b = []) := by
  have hlonger : ∀ {x rest : Bytes} {c : UInt8}, (c = slash ∨ x ≠ []) →
      (x = [] ∨ x.getLast? = some slash ∨ rest = []) →
      (c :: x).getLast? = some slash ∨ rest = [] := by
    intro x rest c hc hx
    cases x with
    | nil => exact Or.inl (by simpa using hc)
    | cons a x => simpa using hx
  fun_induction trimFront b with
  | case1 => exact ⟨[], rfl, Or.inl rfl⟩
  | case2 b h => exact ⟨[b], rfl, Or.inr (Or.inr rfl)⟩
  | case3 b h => exact ⟨[], rfl, Or.inl rfl⟩
  | case4 c rest ih =>
    obtain ⟨front, he, hfront⟩ := ih
    exact ⟨slash :: front, congrArg (slash :: ·) he, Or.inr (hlonger (Or.inl rfl) hfront)⟩
  | case5 b c rest _ h ih =>
    obtain ⟨rfl, rfl⟩ := h
    obtain ⟨front, he, hfront⟩ := ih
    refine ⟨dot :: slash :: front, congrArg (fun x => dot :: slash :: x) he, Or.inr ?_⟩
    exact hlonger (Or.inr (by simp)) (Or.inr (hlonger (Or.inl rfl) hfront))
  | case6 b c rest _ _ => exact ⟨[], rfl, Or.inl rfl⟩

/-- What is trimmed at the end starts with a slash, or nothing is left. -/
lemma trimBack_split (b : Bytes) : ∃ rest, b = trimBack b ++ rest ∧
    (rest = [] ∨ rest.head? = some slash ∨ trimBack b = []) := by
  obtain ⟨front, he, hfront⟩ := trimFront_split b.reverse
  refine ⟨front.reverse, ?_, ?_⟩
  · rw [trimBack, ← List.reverse_append, ← he, List.reverse_reverse]
  · simpa [trimBack] using hfront

lemma dropLastSegment_split (b : Bytes) : ∃ rest, b = dropLastSegment b ++ rest ∧
    (dropLastSegment b = [] ∨ (dropLastSegment b).getLast? = some slash) := by
  refine ⟨(b.reverse.takeWhile (· != slash)).reverse, ?_, ?_⟩
  · rw [dropLastSegment, ← List.reverse_append, List.takeWhile_append_dropWhile,
      List.reverse_reverse]
  · rw [dropLastSegment, List.reverse_eq_nil_iff, List.getLast?_reverse]
    cases hdrop : b.reverse.dropWhile (· != slash) with
    | nil => exact Or.inl rfl
    | cons c rest =>
      have hc := List.head_dropWhile_not (· != slash) (l := b.reverse) (by rw [hdrop]; simp)
      exact Or.inr (by simpa [hdrop] using hc)

/-- The spelling of a parent is cut off at a slash. -/
lemma bytes_of_parent? {p q : Path} (h : p.parent? = some q) : ∃ rest, p.bytes = q.bytes ++ rest ∧
    (q.bytes = [] ∨ q.bytes.getLast? = some slash ∨ rest = [] ∨ rest.head? = some slash) := by
  simp only [parent?] at h
  split at h
  · split at h
    · rw [Option.some.injEq] at h
      exact ⟨p.bytes, by rw [← h]; rfl, Or.inl (by rw [← h]; rfl)⟩
    · cases h
  · rw [Option.some.injEq] at h
    set lead := (splitLead p.bytes).1 with hlead
    set body := (splitLead p.bytes).2 with hbody
    obtain ⟨tail, htail, -⟩ := trimBack_split body
    obtain ⟨seg, hseg, hend⟩ := dropLastSegment_split (trimBack body)
    obtain ⟨cut, hcut, hstart⟩ := trimBack_split (dropLastSegment (trimBack body))
    set x := trimBack (dropLastSegment (trimBack body)) with hx
    have hwhole : body = x ++ (cut ++ (seg ++ tail)) := by
      rw [← List.append_assoc, ← List.append_assoc, ← hcut, ← hseg, ← htail]
    refine ⟨cut ++ (seg ++ tail), ?_, ?_⟩
    · rw [← h, List.append_assoc, ← hwhole, hlead, hbody, splitLead_whole]
    · -- What is trimmed away at the end starts with a slash, or the last segment did.
      have hcases : x = [] ∨ x.getLast? = some slash ∨ cut.head? = some slash := by
        rcases hstart with hnil | hstart
        · rw [hnil, List.append_nil] at hcut
          rw [hcut] at hend
          exact hend.imp_right Or.inl
        · exact hstart.elim (fun hhead => Or.inr (Or.inr hhead)) Or.inl
      rw [← h]
      rcases hcases with hnil | hlast | hhead
      · rw [hnil, List.nil_append] at hwhole
        rw [hnil, List.append_nil, ← hwhole]
        rcases splitLead_cases p.bytes with ⟨rest, -, hs⟩ | ⟨rest, -, hr, hs⟩ | ⟨-, -, hs⟩
        · exact Or.inr (Or.inl (by rw [hlead, hs]; rfl))
        · exact Or.inr (Or.inr (by rwa [hbody, hs]))
        · exact Or.inl (by rw [hlead, hs])
      · refine Or.inr (Or.inl ?_)
        rw [List.getLast?_append, hlast]
        rfl
      · refine Or.inr (Or.inr (Or.inr ?_))
        rw [List.head?_append, hhead]
        rfl

/-- What is not trimmed away has a step. -/
lemma bodyComponents_ne_nil {b : Bytes} (h : trimBack b ≠ []) : bodyComponents b ≠ [] := by
  have hne : trimFront b.reverse ≠ [] := fun he => h (by rw [trimBack, he]; rfl)
  obtain ⟨c, hc⟩ := exists_step_of_trimFront hne
  set t := trimFront b.reverse with ht
  have hlast : bodyComponents (t.takeWhile (· != slash)).reverse ≠ [] := by
    rw [bodyComponents_of_noSlash fun hs => noSlash_takeWhile t (List.mem_reverse.mp hs)]
    cases hsome : segmentComponent? (t.takeWhile (· != slash)).reverse with
    | some d => simp
    | none =>
      have hnone := segmentComponent?_eq_none hsome
      rw [List.reverse_eq_nil_iff, List.reverse_eq_iff, List.reverse_singleton] at hnone
      rw [segmentComponent?, if_pos hnone] at hc
      cases hc
  have hbody : bodyComponents b = bodyComponents t.reverse := by
    rw [ht, bodyComponents_reverse_trimFront, List.reverse_reverse]
  have hsplit := List.takeWhile_append_dropWhile (p := (· != slash)) (l := t)
  rw [hbody, ← hsplit, List.reverse_append]
  cases hd : t.dropWhile (· != slash) with
  | nil => exact hlast
  | cons a rest =>
    have ha := List.head_dropWhile_not (· != slash) (l := t) (by rw [hd]; simp)
    obtain rfl : a = slash := by simpa [hd] using ha
    rw [List.reverse_cons, List.append_assoc, List.singleton_append, bodyComponents_append_slash]
    exact List.append_ne_nil_of_right_ne_nil _ hlast

/-- A path has more components than its parent. -/
lemma length_components_of_parent? {p q : Path} (h : p.parent? = some q) :
    q.components.length < p.components.length := by
  by_cases hp : p.steps = []
  · have hcomp := components_eq p
    unfold components at hcomp
    rw [lead, List.append_cancel_left_eq, hp] at hcomp
    have hbody : trimBack (splitLead p.bytes).2 = [] := by
      by_contra hne
      exact bodyComponents_ne_nil hne hcomp
    simp only [parent?] at h
    rw [if_pos hbody] at h
    split at h
    · rename_i hdot
      have hlead : p.lead = [.current] := by
        rw [lead, hdot]
        rfl
      rw [Option.some.injEq] at h
      rw [← h, components_eq p, hlead]
      exact Nat.succ_pos _
    · cases h
  · rw [components_of_parent? h hp, List.length_dropLast]
    have hlength : 0 < p.components.length := by
      rw [components_eq, List.length_append]
      exact Nat.add_pos_right _ (List.length_pos_of_ne_nil hp)
    omega

/-- A name behind a path is a component more. -/
lemma components_child (p : Path) {n : Bytes} (hn : IsName n) :
    (p.child n).components = p.components ++ [.name n] := by
  rw [components_eq, components_eq, steps_child hn, ← List.append_assoc]
  congr 2
  by_cases hp : p.bytes = []
  · have hchild : p.child n = ⟨n⟩ := by
      rw [child, join, hn.isAbsolute, hp]
      rfl
    rw [hchild, lead, lead, hp]
    rcases splitLead_cases n with ⟨rest, rfl, -⟩ | ⟨rest, rfl, hr, -⟩ | ⟨-, -, hs⟩
    · exact absurd List.mem_cons_self hn.noSlash
    · rcases hr with rfl | hr
      · exact absurd rfl hn.ne_dots.1
      · obtain ⟨more, rfl⟩ := List.head?_eq_some_iff.mp hr
        exact absurd (by simp) hn.noSlash
    · rw [hs]
      rfl
  · exact lead_join hp hn.isAbsolute

/-- A path has no more steps than bytes, but for one. -/
lemma length_steps_le (p : Path) : p.steps.length ≤ p.bytes.length + 1 := by
  have hsplit : ∀ (b piece : Bytes) (done : List Bytes),
      (Text.splitOnto (· == slash) b piece done).length ≤ done.length + b.length + 1 := by
    intro b
    induction b with
    | nil => intro piece done; simp [Text.splitOnto]
    | cons c b ih =>
      intro piece done
      have hnext := ih (c :: piece) done
      have hcut := ih [] (piece.reverse :: done)
      rw [Text.splitOnto, List.length_cons]
      rw [List.length_cons] at hcut
      split <;> omega
  have hpieces := hsplit p.bytes [] []
  rw [List.length_nil, Nat.zero_add] at hpieces
  exact Nat.le_trans (List.length_filterMap_le _ _) hpieces

end Path

namespace Store

variable {s : Store} {d l : Location} {node : Node} {p q : Path}

lemma segments_append {a b : Bytes} (h : a = [] ∨ a.getLast? = some Path.slash ∨ b = [] ∨
    b.head? = some Path.slash) : segments ⟨a ++ b⟩ = segments ⟨a⟩ ++ segments ⟨b⟩ := by
  have hcut : ∀ front rest : Bytes, segments ⟨front ++ Path.slash :: rest⟩ =
      segments ⟨front⟩ ++ segments ⟨rest⟩ := by
    intro front rest
    simp only [segments]
    rw [Text.splitOn_append_cons (by simp), List.filter_append]
  have hnil : segments ⟨[]⟩ = [] := rfl
  rcases h with rfl | h | rfl | h
  · rw [hnil]
    rfl
  · obtain ⟨front, rfl⟩ := List.getLast?_eq_some_iff.mp h
    rw [List.append_assoc, List.singleton_append, hcut, hcut, hnil, List.append_nil]
  · rw [hnil, List.append_nil, List.append_nil]
  · obtain ⟨rest, rfl⟩ := List.head?_eq_some_iff.mp h
    have hback := hcut [] rest
    rw [hnil, List.nil_append, List.nil_append] at hback
    rw [hcut, hback]

lemma components_chain {names : Location} (p : Path) (h : ∀ n ∈ names, Path.IsName n) :
    (chain p names).components = p.components ++ names.map .name := by
  induction names using List.reverseRecOn with
  | nil => simp
  | append_singleton names n ih =>
    rw [chain_concat, Path.components_child _ (h n (by simp)),
      ih fun m hm => h m (List.mem_append_left _ hm)]
    simp

/-! ### Beginnings of walks -/

/-- A walk that goes on after some segments has come to a directory there, or has to follow a
link. -/
lemma descend_stops {more : List Bytes} (hmore : more ≠ []) (follow : Bool) (todo : List Bytes)
    (dir : Location) :
    (∃ l, s.descend true todo dir = .arrived (.found l .dir)) ∨
    (∃ d target rest, s.descend true todo dir = .jump d target rest) ∨
    ∃ fault, s.descend follow (todo ++ more) dir = .refused fault := by
  induction todo, dir using descend_induction with
  | nil dir => exact Or.inl ⟨dir, rfl⟩
  | dot todo dir ih =>
    rw [List.cons_append, descend_dot, descend_dot]
    exact ih
  | up todo dir ih =>
    rw [List.cons_append, descend_up, descend_up]
    exact ih
  | long seg todo dir hlong => exact Or.inr (Or.inr ⟨_, descend_long hlong⟩)
  | name seg todo dir hseg ih =>
    rw [List.cons_append]
    have hgoes : todo ++ more ≠ [] := by simp [hmore]
    cases hn : s.get? (dir ++ [seg]) with
    | none =>
      rw [descend_none hseg follow (todo ++ more) hn, if_neg hgoes]
      exact Or.inr (Or.inr ⟨_, rfl⟩)
    | some found =>
      cases found with
      | dir =>
        rw [descend_dir hseg true todo hn, descend_dir hseg follow (todo ++ more) hn]
        exact ih
      | link target =>
        rw [descend_link hseg true todo hn, if_neg (by simp)]
        exact Or.inr (Or.inl ⟨_, _, _, rfl⟩)
      | file =>
        rw [descend_file hseg follow (todo ++ more) hn rfl, if_neg hgoes]
        exact Or.inr (Or.inr ⟨_, rfl⟩)

lemma walk_beginning {more : List Bytes} (hmore : more ≠ []) {follow asDir : Bool} {links : Nat}
    {dir : Location} {todo : List Bytes} {place : Place × Bool}
    (h : s.walk follow links dir (todo ++ more) asDir = .ok place) (asDir' : Bool) :
    ∃ l asDir'', s.walk true links dir todo asDir' = .ok (.found l .dir, asDir'') := by
  induction links generalizing dir todo asDir asDir' with
  | zero => cases h
  | succ links ih =>
    rw [walk] at h ⊢
    rw [Bool.true_or]
    rcases descend_stops (s := s) hmore (follow || asDir) todo dir with
      ⟨l, hl⟩ | ⟨d, target, rest, hjump⟩ | ⟨fault, hfault⟩
    · rw [hl]
      exact ⟨l, asDir', by simp [Node.isDir]⟩
    · rw [(descend_append hmore _ todo dir).2 _ _ _ hjump] at h
      rw [hjump]
      simp only at h ⊢
      rw [← List.append_assoc] at h
      exact ih h _
    · rw [hfault] at h
      cases h

/-- The parent of what is found is a directory. -/
theorem find_parent {follow : Bool} (h : s.find follow p = .ok (l, node)) (hq : p.parent? = some q)
    (hp : p.steps ≠ []) (hne : q.bytes ≠ []) : ∃ d, s.find true q = .ok (d, .dir) := by
  have hlocatable := isLocatable_of_find h
  obtain ⟨asDir, hwalk⟩ := walk_of_find h
  obtain ⟨rest, hbytes, hcut⟩ := Path.bytes_of_parent? hq
  obtain ⟨hsteps, habs⟩ := Path.of_parent?_eq_some hq
  have hsegments : segments p = segments q ++ segments ⟨rest⟩ := by
    rw [← segments_append hcut, ← hbytes]
  have hmore : segments ⟨rest⟩ ≠ [] := by
    intro hnil
    rw [← stepsOf_segments q, ← stepsOf_segments p, hsegments, hnil, List.append_nil,
      stepsOf_segments] at hsteps
    rw [← stepsOf_segments p, hsegments, hnil, List.append_nil, stepsOf_segments] at hp
    have hlength := congrArg List.length hsteps
    rw [List.length_dropLast] at hlength
    have := List.length_pos_of_ne_nil hp
    omega
  rw [hsegments] at hwalk
  obtain ⟨d, asDir', hd⟩ := walk_beginning hmore hwalk (wantsDir q)
  have hq' : IsLocatable q := by
    refine ⟨fun hmem => hlocatable.noNul ?_, hne, ?_⟩
    · rw [hbytes]
      exact List.mem_append_left _ hmem
    · have hshort := hlocatable.short
      rw [hbytes, List.length_append] at hshort
      omega
  have hlocate : s.locate true q = .ok (.found d .dir, asDir') := by
    rw [hq'.locate_eq, start_congr habs]
    exact hd
  exact ⟨d, find_of_locate hlocate⟩

end Store

end Excerpt
