import Excerpt.Proofs.Store.Changes
import Excerpt.Proofs.Store.Children

/-!
# Making what lies beneath a directory

Beneath a directory that a path leads to, names are looked up one after the other. As long as they
meet nothing but directories, making all of them can fail only because a path or a name is too long
for the file system, and so can making a link behind them. `Adds` says what comes to a store when
nothing is taken away and nothing is replaced.
-/

namespace Excerpt

/-! ### Parents of children -/

namespace Path

variable {m n : Bytes} {p : Path}

/-- A name at the front is not trimmed. -/
lemma trimFront_reverse_append (hn : IsName n) (rest : Bytes) :
    trimFront (n.reverse ++ rest) = n.reverse ++ rest := by
  obtain ⟨b, more, hb⟩ := List.exists_cons_of_ne_nil (List.reverse_ne_nil_iff.mpr hn.ne_nil)
  have hmem : ∀ c ∈ b :: more, c ≠ slash := by
    rintro c hc rfl
    exact hn.noSlash (List.mem_reverse.mp (hb ▸ hc))
  have hbslash := hmem b List.mem_cons_self
  -- A name that ends in a dot has something before it.
  have hdot : more = [] → b ≠ dot := by
    rintro rfl rfl
    rw [List.reverse_eq_iff] at hb
    have hc := hn.component
    rw [hb] at hc
    exact absurd hc (by decide)
  rw [hb, List.cons_append]
  cases hmore : more ++ rest with
  | nil =>
    rw [List.append_eq_nil_iff] at hmore
    rw [trimFront, if_neg (not_or.mpr ⟨hbslash, hdot hmore.1⟩)]
  | cons c rest' =>
    have hc : ¬ (b = dot ∧ c = slash) := by
      rintro ⟨hbdot, rfl⟩
      cases more with
      | nil => exact hdot rfl hbdot
      | cons c' more =>
        rw [List.cons_append, List.cons.injEq] at hmore
        exact hmem c' (by simp) hmore.1
    rw [trimFront, if_neg hbslash, if_neg hc]

/-- A name at the end is not trimmed. -/
lemma trimBack_append (front : Bytes) (hn : IsName n) : trimBack (front ++ n) = front ++ n := by
  rw [trimBack, List.reverse_append, trimFront_reverse_append hn]
  simp

lemma trimBack_append_slash (front : Bytes) (hn : IsName n) :
    trimBack (front ++ n ++ [slash]) = front ++ n := by
  obtain ⟨b, more, hb⟩ := List.exists_cons_of_ne_nil (List.reverse_ne_nil_iff.mpr hn.ne_nil)
  have hkept := trimFront_reverse_append hn front.reverse
  rw [trimBack, List.reverse_append, List.reverse_append]
  rw [hb] at hkept ⊢
  rw [List.reverse_singleton, List.singleton_append, List.cons_append, trimFront, if_pos rfl,
    ← List.cons_append, hkept, ← hb]
  simp

/-- A name behind a slash is the last segment. -/
lemma dropLastSegment_append (front : Bytes) (hn : slash ∉ n) :
    dropLastSegment (front ++ slash :: n) = front ++ [slash] := by
  have hall : ∀ b ∈ n.reverse, (b != slash) = true := by
    intro b hb
    rw [bne_iff_ne]
    rintro rfl
    exact hn (List.mem_reverse.mp hb)
  rw [dropLastSegment, List.reverse_append, List.reverse_cons, List.append_assoc,
    List.dropWhile_append_of_pos hall]
  simp

/-- What a path starts with stands before its last name but one. -/
lemma splitLead_append (front : Bytes) (hm : IsName m) (rest : Bytes) :
    ∃ lead body, lead ++ body = front ∧
      splitLead (front ++ m ++ slash :: rest) = (lead, body ++ m ++ slash :: rest) := by
  obtain ⟨b, more, rfl⟩ := List.exists_cons_of_ne_nil hm.ne_nil
  have hb : b ≠ slash := fun he => hm.noSlash (he ▸ List.mem_cons_self)
  rcases splitLead_cases (front ++ b :: more ++ slash :: rest) with
    ⟨body, hbody, hs⟩ | ⟨body, hbody, hhead, hs⟩ | ⟨-, -, hs⟩
  · cases front with
    | nil => exact absurd (List.cons.inj hbody).1 hb
    | cons a front =>
      obtain ⟨rfl, rfl⟩ := List.cons.inj hbody
      exact ⟨[slash], front, rfl, hs⟩
  · cases front with
    | nil =>
      obtain ⟨rfl, rfl⟩ := List.cons.inj hbody
      cases more with
      | nil => exact absurd hm.component (by decide)
      | cons c more =>
        refine absurd (hhead.resolve_left (by simp)) fun hc => hm.noSlash ?_
        obtain rfl : c = slash := by simpa using hc
        simp
    | cons a front =>
      obtain ⟨rfl, rfl⟩ := List.cons.inj hbody
      exact ⟨[dot], front, rfl, hs⟩
  · exact ⟨[], front, rfl, hs⟩

/-- The parent of a child that ends in a name. -/
lemma parent?_child_child (p : Path) (hm : IsName m) (hn : IsName n) :
    ((p.child m).child n).parent? = some (p.child m) := by
  obtain ⟨front, hfront, -⟩ := Store.bytes_child p hm
  have hbytes : ((p.child m).child n).bytes = front ++ m ++ slash :: n := by
    have hlast : (p.child m).bytes.getLast? ≠ some slash := by
      rw [hfront, List.getLast?_append_of_ne_nil _ hm.ne_nil]
      exact fun hl => hm.noSlash (List.mem_of_getLast? hl)
    have hne : (p.child m).bytes ≠ [] := by simp [hfront, hm.ne_nil]
    rw [← hfront]
    rcases join_bytes (p := p.child m) hn.isAbsolute with ⟨h, -⟩ | ⟨x, h, -⟩ | ⟨-, -, h⟩
    · exact absurd h hne
    · exact absurd (by rw [h]; simp) hlast
    · exact congrArg Path.bytes h
  obtain ⟨lead, body, rfl, hsplit⟩ := splitLead_append front hm n
  have htrim : trimBack (body ++ m ++ slash :: n) = body ++ m ++ slash :: n := by
    have := trimBack_append (body ++ m ++ [slash]) hn
    simpa using this
  simp only [parent?]
  rw [hbytes, hsplit]
  simp only
  rw [htrim, if_neg (by simp), dropLastSegment_append _ hn.noSlash, trimBack_append_slash _ hm,
    ← List.append_assoc, ← hfront]

end Path

namespace Store

variable {s t u : Store} {d l names front : Location} {n : Bytes} {node : Node} {p target : Path}
  {new new' : Location → Node → Prop}

/-! ### What is added -/

/-- The store `t` has everything that is in `s`, and what else it has is as `new` says. -/
structure Adds (new : Location → Node → Prop) (s t : Store) : Prop where
  wellFormed : t.WellFormed
  kept : ∀ m node, s.get? m = some node → t.get? m = some node
  added : ∀ m node, t.get? m = some node → s.get? m = some node ∨ new m node
  cwd : t.cwd = s.cwd
  clock : t.clock = s.clock

namespace Adds

lemma refl (hs : s.WellFormed) : Adds new s s :=
  ⟨hs, fun _ _ h => h, fun _ _ h => Or.inl h, rfl, rfl⟩

lemma mono (hnew : ∀ m node, new m node → new' m node) (h : Adds new s t) : Adds new' s t :=
  ⟨h.wellFormed, h.kept, fun m node hn => (h.added m node hn).imp_right (hnew m node), h.cwd,
    h.clock⟩

lemma trans (h : Adds new s t) (h' : Adds new t u) : Adds new s u :=
  ⟨h'.wellFormed, fun m node hn => h'.kept m node (h.kept m node hn),
    fun m node hn => (h'.added m node hn).elim (h.added m node) Or.inr,
    h'.cwd.trans h.cwd, h'.clock.trans h.clock⟩

lemma «extends» (h : Adds new s t) : Extends s t :=
  ⟨fun m node hn => ⟨node, h.kept m node hn, rfl⟩, h.cwd, h.clock⟩

/-- Something new in a directory. -/
lemma put (hs : s.WellFormed) (hd : s.get? d = some .dir) (hn : IsEntryName n)
    (hfree : s.get? (d ++ [n]) = none) (hsound : IsSound node) (hnew : new (d ++ [n]) node) :
    Adds new s (s.put (d ++ [n]) node) := by
  refine ⟨hs.put_new hd hn hsound hfree, fun m found hm => ?_, fun m found hm => ?_, rfl, rfl⟩
  · rw [get?_put_of_ne (by simp), hm]
    rintro rfl
    rw [hfree] at hm
    cases hm
  · rw [get?_put (by simp)] at hm
    split at hm
    · rename_i he
      cases hm
      exact Or.inr (he ▸ hnew)
    · exact Or.inl hm

/-- Where nothing is added, the stores agree. -/
lemma get?_eq (h : Adds new s t) (hl : ∀ node, ¬ new l node) : t.get? l = s.get? l := by
  cases hs : s.get? l with
  | some node => exact h.kept l node hs
  | none =>
    by_contra hne
    obtain ⟨node, hn⟩ := Option.ne_none_iff_exists'.mp hne
    rcases h.added l node hn with ho | hnew
    · rw [hs] at ho
      cases ho
    · exact hl node hnew

/-- What a path led to it leads to still. -/
lemma find (h : Adds new s t) (hs : s.WellFormed) {follow : Bool}
    (hf : s.find follow p = .ok (l, node)) : t.find follow p = .ok (l, node) := by
  obtain ⟨node', hf', -⟩ := h.extends.find hf
  have hn := h.kept l node (get?_of_find hs hf)
  rw [get?_of_find h.wellFormed hf'] at hn
  cases hn
  exact hf'

/-- What could be read reads the same. -/
lemma read (h : Adds new s t) (hs : s.WellFormed) {content : Bytes}
    (hread : s.read p = .ok content) : t.read p = .ok content := by
  unfold Store.read at hread ⊢
  split at hread
  · cases hread
  · rename_i hf
    rw [h.find hs hf]
    exact hread
  · cases hread

end Adds

/-! ### Looking up names -/

/-- A path that the file system refuses for its length, or for that of one of its names. -/
def IsLong (p : Path) : Prop :=
  maxPath ≤ p.bytes.length ∨ ∃ n, Component.name n ∈ p.steps ∧ maxName < n.length

/-- On the way along names from `d` there is nothing but directories. -/
def OnlyDirs (s : Store) (d names : Location) : Prop :=
  ∀ front, front <+: names → ∀ node, s.get? (d ++ front) = some node → node = .dir

/-- How far names are followed where they meet only directories. -/
inductive Followed (s : Store) (d names : Location) : Leg → Prop where
  | found {l : Location} : l = d ++ names → s.get? l = some .dir →
      Followed s d names (.arrived (.found l .dir))
  | vacant {front l : Location} {n : Bytes} : names = front ++ [n] → n.length ≤ maxName →
      l = d ++ front → s.get? l = some .dir → s.get? (l ++ [n]) = none →
      Followed s d names (.arrived (.vacant l n))
  | missing {front : Location} : front <+: names → front ≠ names → s.get? (d ++ front) = none →
      Followed s d names (.refused .notFound)
  | long {n : Bytes} : n ∈ names → maxName < n.length →
      Followed s d names (.refused .nameTooLong)

lemma Followed.cons {leg : Leg} (h : Followed s (d ++ [n]) names leg) :
    Followed s d (n :: names) leg := by
  have hshift : ∀ front : Location, d ++ [n] ++ front = d ++ n :: front := by simp
  cases h with
  | found hl hn => exact .found (hl.trans (hshift names)) hn
  | vacant he hshort hl hd hn =>
    exact .vacant (by rw [he]; rfl) hshort (hl.trans (hshift _)) hd hn
  | missing hp hne hn =>
    rw [hshift] at hn
    exact .missing (List.cons_prefix_cons.mpr ⟨rfl, hp⟩) (by simpa using hne) hn
  | long hn hlong => exact .long (List.mem_cons_of_mem _ hn) hlong

lemma OnlyDirs.tail (h : OnlyDirs s d (n :: names)) : OnlyDirs s (d ++ [n]) names := by
  intro front hp node hn
  rw [List.append_assoc] at hn
  exact h (n :: front) (List.cons_prefix_cons.mpr ⟨rfl, hp⟩) node hn

lemma OnlyDirs.of_prefix (h : OnlyDirs s d names) (hp : front <+: names) : OnlyDirs s d front :=
  fun before hb => h before (hb.trans hp)

lemma followed_descend (follow : Bool) (hd : s.get? d = some .dir)
    (hnames : ∀ n ∈ names, Path.IsName n) (h : OnlyDirs s d names) :
    Followed s d names (s.descend follow names d) := by
  induction names generalizing d with
  | nil =>
    rw [descend]
    exact .found (List.append_nil d).symm hd
  | cons n names ih =>
    have hn := hnames n List.mem_cons_self
    by_cases hlong : maxName < n.length
    · rw [descend_long hlong]
      exact .long List.mem_cons_self hlong
    · have hseg := isLookedUp_of_isName hn (Nat.le_of_not_lt hlong)
      cases hfound : s.get? (d ++ [n]) with
      | none =>
        rw [descend_none hseg follow names hfound]
        split
        · rename_i hnil
          subst hnil
          exact .vacant (List.nil_append [n]).symm (Nat.le_of_not_lt hlong)
            (List.append_nil d).symm hd hfound
        · rename_i hne
          have hfirst : [n] <+: n :: names := List.cons_prefix_cons.mpr ⟨rfl, List.nil_prefix⟩
          exact .missing hfirst (by simpa using Ne.symm hne) hfound
      | some node =>
        obtain rfl := h [n] (List.cons_prefix_cons.mpr ⟨rfl, List.nil_prefix⟩) node hfound
        rw [descend_dir hseg follow names hfound]
        exact (ih hfound (fun m hm => hnames m (List.mem_cons_of_mem _ hm)) h.tail).cons

/-! ### Locating chains -/

/-- What it takes to look up names behind a path. -/
structure Spells (s : Store) (p : Path) (d names : Location) : Prop where
  wellFormed : s.WellFormed
  found : s.find true p = .ok (d, .dir)
  spelled : ∀ n ∈ names, Path.IsName n ∧ (0 : UInt8) ∉ n
  onlyDirs : OnlyDirs s d names

/-- Where names behind a path lead. -/
inductive Located (s : Store) (p : Path) (d names : Location) : Except Fault (Place × Bool) → Prop
    where
  | found : s.get? (d ++ names) = some .dir →
      Located s p d names (.ok (.found (d ++ names) .dir, false))
  | vacant {front : Location} {n : Bytes} : names = front ++ [n] → n.length ≤ maxName →
      s.get? (d ++ front) = some .dir → s.get? (d ++ names) = none →
      Located s p d names (.ok (.vacant (d ++ front) n, false))
  | missing {front : Location} : front <+: names → front ≠ names → s.get? (d ++ front) = none →
      Located s p d names (.error .notFound)
  | long : IsLong (chain p names) → Located s p d names (.error .nameTooLong)

namespace Spells

lemma of_prefix (h : Spells s p d names) (hp : front <+: names) : Spells s p d front :=
  ⟨h.wellFormed, h.found, fun n hn => h.spelled n (hp.subset hn), h.onlyDirs.of_prefix hp⟩

lemma isName (h : Spells s p d names) : ∀ n ∈ names, Path.IsName n :=
  fun n hn => (h.spelled n hn).1

lemma isLong (h : Spells s p d names) (hn : n ∈ names) (hlong : maxName < n.length) :
    IsLong (chain p names) := by
  refine Or.inr ⟨n, ?_, hlong⟩
  rw [steps_chain p h.isName]
  exact List.mem_append_right _ (List.mem_map_of_mem hn)

lemma followed (h : Spells s p d names) (follow : Bool) :
    Followed s d names (s.descend follow names d) :=
  followed_descend follow (get?_of_find h.wellFormed h.found) h.isName h.onlyDirs

lemma located (h : Spells s p d names) (hne : names ≠ []) :
    Located s p d names (s.locate false (chain p names)) := by
  obtain ⟨k, hk⟩ := locate_chain h.found hne h.spelled
  rw [hk]
  split
  · rename_i hlong
    exact .long (Or.inl hlong)
  · have hfollowed := h.followed false
    rw [walk, Bool.false_or]
    generalize s.descend false names d = leg at hfollowed
    cases hfollowed with
    | found hl hn =>
      subst hl
      exact .found hn
    | vacant he hshort hl hd hn =>
      subst hl
      exact .vacant he hshort hd (by rwa [he, ← List.append_assoc])
    | missing hp hne' hn => exact .missing hp hne' hn
    | long hn hlong => exact .long (h.isLong hn hlong)

/-- Where there are only directories, it does not matter whether links are followed. -/
lemma locate_true (h : Spells s p d names) (hne : names ≠ []) :
    s.locate true (chain p names) = s.locate false (chain p names) := by
  obtain ⟨k, hk⟩ := locate_chain h.found hne h.spelled
  have hdescend : s.descend true names d = s.descend false names d := by
    rcases descend_follow (s := s) names d with hsame | ⟨l, n, target, hlink⟩
    · exact hsame.symm
    · have hfollowed := h.followed false
      rw [hlink] at hfollowed
      cases hfollowed
  rw [hk, hk, walk, walk, Bool.or_false, Bool.or_false, hdescend]
  split
  · rfl
  · split
    · rfl
    · rename_i hjump
      have hfollowed := h.followed false
      rw [hjump] at hfollowed
      cases hfollowed
    · rfl
    · rfl

end Spells

/-- The longer the chain, the longer the path. -/
lemma IsLong.concat {names : Location} (h : IsLong (chain p names)) (hn : Path.IsName n) :
    IsLong (chain p (names ++ [n])) := by
  rw [chain_concat]
  rcases h with hlong | ⟨m, hm, hlong⟩
  · exact Or.inl (Nat.le_of_lt (Nat.lt_of_le_of_lt hlong (length_child_lt _ hn)))
  · refine Or.inr ⟨m, ?_, hlong⟩
    rw [Path.steps_child hn]
    exact List.mem_append_left _ hm

/-! ### Making directories -/

/-- The directories on the way to `d ++ names`. -/
def OnWay (d names : Location) (m : Location) (node : Node) : Prop :=
  node = .dir ∧ ∃ front, front <+: names ∧ m = d ++ front

/-- How making a directory ends that lies behind names. -/
inductive Made (s : Store) (p : Path) (d names : Location) : Except Fault Store → Prop where
  | made {t : Store} : Adds (OnWay d names) s t → t.get? (d ++ names) = some .dir →
      Made s p d names (.ok t)
  | there : s.get? (d ++ names) = some .dir → s.isDir (chain p names) = true →
      Made s p d names (.error .alreadyExists)
  | missing {front : Location} : front <+: names → front ≠ names → s.get? (d ++ front) = none →
      Made s p d names (.error .notFound)
  | long : IsLong (chain p names) → s.isDir (chain p names) = false →
      Made s p d names (.error .nameTooLong)

lemma Spells.makeDir (h : Spells s p d names) (hne : names ≠ []) :
    Made s p d names (s.makeDir (chain p names)) := by
  have hlocated := h.located hne
  have htrue := h.locate_true hne
  unfold Store.makeDir
  generalize s.locate false (chain p names) = place at hlocated htrue
  cases hlocated with
  | found hn => exact .there hn (isDir_of_find (find_of_locate htrue))
  | @vacant front n he hshort hd hnone =>
    subst he
    obtain ⟨hname, hnul⟩ := h.spelled n (by simp)
    rw [← List.append_assoc] at hnone
    have hway : OnWay d (front ++ [n]) (d ++ front ++ [n]) .dir :=
      ⟨rfl, front ++ [n], List.prefix_rfl, List.append_assoc ..⟩
    refine .made (.put h.wellFormed hd ⟨hname, hnul, hshort⟩ hnone trivial hway) ?_
    rw [← List.append_assoc, get?_put_self (by simp)]
  | missing hp hne' hnone => exact .missing hp hne' hnone
  | long hlong =>
    refine .long hlong ?_
    rw [isDir, node?, find, htrue]
    rfl

lemma Spells.spelled_concat (h : Spells s p d names) (hn : IsEntryName n) :
    ∀ m ∈ names ++ [n], Path.IsName m ∧ (0 : UInt8) ∉ m :=
  List.forall_mem_append.mpr ⟨h.spelled, List.forall_mem_singleton.mpr ⟨hn.isName, hn.noNul⟩⟩

lemma length_le_chain (hnames : ∀ n ∈ names, Path.IsName n) :
    names.length ≤ (chain p names).bytes.length := by
  induction names using List.reverseRecOn with
  | nil => exact Nat.zero_le _
  | append_singleton names n ih =>
    have hfront := ih fun m hm => hnames m (List.mem_append_left _ hm)
    have hlt := length_child_lt (chain p names) (hnames n (by simp))
    rw [chain_concat, List.length_append, List.length_singleton]
    omega

/-- How making a directory ends that lies behind names, with those above it: the directories on the
way are all that is added, and nothing but the length of the path makes it fail. -/
structure MadeAll (s : Store) (p : Path) (d names : Location) (r : Except Fault Unit × Store) :
    Prop where
  adds : Adds (OnWay d names) s r.2
  ends : (r.1 = .ok () ∧ r.2.get? (d ++ names) = some .dir) ∨
    (r.1 = .error .nameTooLong ∧ IsLong (chain p names))

/-- Directories on the way are in nobody's way. -/
lemma Spells.of_adds (h : Spells s p d names) (hadds : Adds (OnWay d front) s t) :
    Spells t p d names := by
  refine ⟨hadds.wellFormed, hadds.find h.wellFormed h.found, h.spelled, fun before hb node hn => ?_⟩
  rcases hadds.added _ node hn with hold | ⟨hdir, -⟩
  · exact h.onlyDirs before hb node hold
  · exact hdir

lemma OnWay.of_prefix {m : Location} (h : OnWay d front m node) (hp : front <+: names) :
    OnWay d names m node := by
  obtain ⟨hdir, before, hb, hm⟩ := h
  exact ⟨hdir, before, hb.trans hp, hm⟩

lemma parent?_chain (hnames : ∀ m ∈ names, Path.IsName m) (hne : names ≠ []) (hn : Path.IsName n) :
    (chain p (names ++ [n])).parent? = some (chain p names) := by
  obtain ⟨front, m, rfl⟩ := (List.eq_nil_or_concat' names).resolve_left hne
  rw [chain_concat, chain_concat]
  exact Path.parent?_child_child _ (hnames m (by simp)) hn

/-- A directory is made or is there, unless the directory above it is missing. -/
lemma Spells.ensureDir (h : Spells s p d (front ++ [n])) :
    (s.makeDir (chain p (front ++ [n])) ≠ .error .notFound ∧
      MadeAll s p d (front ++ [n]) (Store.ensureDir (chain p (front ++ [n])) s)) ∨
    (s.makeDir (chain p (front ++ [n])) = .error .notFound ∧ front ≠ [] ∧
      s.get? (d ++ front) = none) := by
  have hmade := h.makeDir (List.concat_ne_nil n front)
  unfold Store.ensureDir
  generalize s.makeDir (chain p (front ++ [n])) = made at hmade
  cases hmade with
  | made hadds hd => exact Or.inl ⟨by simp, hadds, Or.inl ⟨rfl, hd⟩⟩
  | there hd hisDir =>
    simp only [hisDir]
    exact Or.inl ⟨by simp, .refl h.wellFormed, Or.inl ⟨rfl, hd⟩⟩
  | long hlong hisDir =>
    simp only [hisDir]
    exact Or.inl ⟨by simp, .refl h.wellFormed, Or.inr ⟨rfl, hlong⟩⟩
  | @missing before hb hne hnone =>
    have hbefore : before <+: front := (List.prefix_concat_iff.mp hb).resolve_left hne
    refine Or.inr ⟨rfl, ?_, h.wellFormed.get?_eq_none_of_prefix hnone
      ((List.prefix_append_right_inj d).mpr hbefore)⟩
    -- Names are looked up in a directory first, which is there.
    rintro rfl
    rw [List.prefix_nil.mp hbefore, List.append_nil, get?_of_find h.wellFormed h.found] at hnone
    cases hnone

lemma Spells.makeDirsWithin (h : Spells s p d names) (hne : names ≠ []) {depth : Nat}
    (hdepth : names.length ≤ depth) :
    MadeAll s p d names (makeDirsWithin depth (chain p names) s) := by
  induction names using List.reverseRecOn generalizing depth with
  | nil => exact absurd rfl hne
  | append_singleton front n ih =>
    rw [List.length_append, List.length_singleton] at hdepth
    obtain ⟨depth, rfl⟩ := Nat.exists_eq_add_of_lt (Nat.lt_of_lt_of_le (Nat.zero_lt_succ _) hdepth)
    rw [Nat.zero_add]
    have hnil : (chain p (front ++ [n])).bytes ≠ [] :=
      (start_chain (s := s) (isLocatable_of_find h.found).ne_nil h.isName).1
    rcases h.ensureDir with ⟨hfound, hmade⟩ | ⟨hmissing, hfront, -⟩
    · rw [makeDirsWithin_of_ne hnil hfound]
      exact hmade
    · have hspells := h.of_prefix (List.prefix_append front [n])
      have hn : Path.IsName n := h.isName n (by simp)
      rw [makeDirsWithin_of_missing hnil hmissing (parent?_chain hspells.isName hfront hn)]
      have hle : front.length ≤ depth := by omega
      have hrun := ih hspells hfront hle
      generalize Store.makeDirsWithin depth (chain p front) s = r at hrun
      obtain ⟨fst, t⟩ := r
      have hadds : Adds (OnWay d (front ++ [n])) s t :=
        hrun.adds.mono fun _ _ hm => hm.of_prefix (List.prefix_append front [n])
      obtain ⟨hfirst, ⟨rfl, hdir⟩ | ⟨rfl, hlong⟩⟩ := hrun
      · -- The directory above is there by now.
        rcases (h.of_adds hfirst).ensureDir with ⟨-, hmade⟩ | ⟨-, -, hnone⟩
        · exact ⟨hadds.trans hmade.adds, hmade.ends⟩
        · rw [hnone] at hdir
          cases hdir
      · exact ⟨hadds, Or.inr ⟨rfl, hlong.concat hn⟩⟩

/-- Making the directories of a chain of names, of which those that are there are directories. -/
theorem Spells.makeDirs (h : Spells s p d names) (hne : names ≠ []) :
    MadeAll s p d names (makeDirs (chain p names) s) :=
  h.makeDirsWithin hne (Nat.le_succ_of_le (length_le_chain h.isName))

/-! ### The directory itself -/

lemma walk_asDir {follow asDir asDir' : Bool} {links : Nat} {dir : Location} {todo : List Bytes}
    (h : s.walk true links dir todo asDir = .ok (.found l .dir, asDir')) :
    s.walk follow links dir todo true = .ok (.found l .dir, true) := by
  induction links generalizing dir todo asDir with
  | zero => cases h
  | succ links ih =>
    rw [walk] at h ⊢
    rw [Bool.true_or] at h
    rw [Bool.or_true]
    split at h
    · cases h
    · exact ih h
    · split at h
      · cases h
      · cases h
        rfl
    · rename_i hplace _
      cases h
      exact absurd rfl (hplace l .dir)

lemma segments_join_empty (p : Path) : segments (p.join Path.empty) = segments p := by
  simp only [segments]
  rcases Path.join_bytes (p := p) (q := Path.empty) rfl with ⟨hp, h⟩ | ⟨front, hp, h⟩ | ⟨-, -, h⟩
  · rw [h, hp]
    rfl
  · rw [h, hp]
    rfl
  · rw [h, Text.splitOn_append_cons (by simp), List.filter_append]
    exact List.append_nil _

lemma wantsDir_join_empty (hp : p.bytes ≠ []) : wantsDir (p.join Path.empty) = true := by
  simp only [wantsDir]
  rcases Path.join_bytes (p := p) (q := Path.empty) rfl with ⟨h, -⟩ | ⟨front, -, h⟩ | ⟨-, -, h⟩
  · exact absurd h hp
  · rw [h]
    simp [Path.empty]
  · rw [h]
    simp [Path.empty]

lemma noNul_join_empty (hp : (0 : UInt8) ∉ p.bytes) :
    (0 : UInt8) ∉ (p.join Path.empty).bytes := by
  rcases Path.join_bytes (p := p) (q := Path.empty) rfl with ⟨-, h⟩ | ⟨front, hf, h⟩ | ⟨-, -, h⟩
  · rw [h]
    simp [Path.empty]
  · rw [h]
    rw [hf] at hp
    exact hp
  · rw [h]
    simpa [Path.empty, Path.slash] using hp

/-- A directory that is there needs not be made, even where a slash is put behind its path, but then
the path can be too long. -/
theorem makeDirs_join_empty_eq (hp : s.find true p = .ok (d, .dir)) :
    makeDirs (p.join Path.empty) s =
      (if maxPath ≤ (p.join Path.empty).bytes.length then .error .nameTooLong else .ok (), s) := by
  have hlocatable := isLocatable_of_find hp
  obtain ⟨asDir, hwalk⟩ := walk_of_find hp
  have hne := hlocatable.ne_nil
  have hne' : (p.join Path.empty).bytes ≠ [] := Path.join_bytes_ne_nil hne rfl
  have hstart : s.start (p.join Path.empty) = s.start p :=
    start_congr (Path.isAbsolute_join hne rfl)
  have hlocate : ∀ follow, s.locate follow (p.join Path.empty) =
      if maxPath ≤ (p.join Path.empty).bytes.length then .error .nameTooLong
      else .ok (.found d .dir, true) := by
    intro follow
    rw [locate_of_noNul (noNul_join_empty hlocatable.noNul) hne', hstart, segments_join_empty,
      wantsDir_join_empty hne, walk_asDir hwalk]
  by_cases hlong : maxPath ≤ (p.join Path.empty).bytes.length
  · simp only [if_pos hlong] at hlocate
    have hisDir : s.isDir (p.join Path.empty) = false := by
      rw [isDir, node?, find, hlocate]
      rfl
    rw [makeDirs, Store.makeDirsWithin]
    beta_reduce
    rw [if_neg hne', Store.makeDir, hlocate, if_pos hlong]
    simp only [hisDir]
    rfl
  · simp only [if_neg hlong] at hlocate
    have hisDir := isDir_of_find (find_of_locate (hlocate true))
    rw [makeDirs, Store.makeDirsWithin]
    beta_reduce
    rw [if_neg hne', Store.makeDir, hlocate, if_neg hlong]
    simp only [hisDir]
    rfl

theorem makeDirs_join_empty (hp : s.find true p = .ok (d, .dir)) :
    makeDirs (p.join Path.empty) s = (.ok (), s) ∨
    (IsLong (p.join Path.empty) ∧ makeDirs (p.join Path.empty) s = (.error .nameTooLong, s)) := by
  have hmake := makeDirs_join_empty_eq hp
  split at hmake
  · rename_i hlong
    exact Or.inr ⟨Or.inl hlong, hmake⟩
  · exact Or.inl hmake

lemma walk_true_of_dir {asDir asDir' : Bool} {links : Nat} {dir : Location} {todo : List Bytes}
    (h : s.walk false links dir todo asDir = .ok (.found l .dir, asDir')) :
    s.walk true links dir todo asDir = .ok (.found l .dir, asDir') := by
  induction links generalizing dir todo asDir with
  | zero => cases h
  | succ links ih =>
    rw [walk] at h ⊢
    have hleg : s.descend (true || asDir) todo dir = s.descend (false || asDir) todo dir ∨
        ∃ d n target,
          s.descend (false || asDir) todo dir = .arrived (.found (d ++ [n]) (.link target)) := by
      cases asDir with
      | true => exact Or.inl rfl
      | false => exact (descend_follow todo dir).imp_left Eq.symm
    rcases hleg with hsame | ⟨d, n, target, hstop⟩
    · rw [hsame]
      split at h
      · cases h
      · exact ih h
      · exact h
      · exact h
    · rw [hstop] at h
      simp only at h
      split at h
      · cases h
      · cases h

/-- A directory is found whether or not a link at the end would be followed. -/
lemma find_true_of_dir (h : s.find false p = .ok (l, .dir)) : s.find true p = .ok (l, .dir) := by
  obtain ⟨asDir, hlocate⟩ := locate_of_find h
  obtain ⟨hp, hwalk⟩ := locate_eq_ok_iff.mp hlocate
  exact find_of_locate (locate_eq_ok_iff.mpr ⟨hp, walk_true_of_dir hwalk⟩)

lemma isDir_of_makeDir (hs : s.WellFormed) (h : s.makeDir p = .ok t) : t.isDir p = true := by
  obtain ⟨d, n, -, -, hfind⟩ := of_makeDir hs h
  exact isDir_of_find (find_true_of_dir hfind)

lemma isDir_of_ensureDir (hs : s.WellFormed) (h : ensureDir p s = (.ok (), t)) :
    t.isDir p = true := by
  unfold ensureDir at h
  split at h
  · rename_i hmake
    cases h
    exact isDir_of_makeDir hs hmake
  · split at h
    · rename_i hdir
      cases h
      exact hdir
    · cases h

/-- Directories that were made are there. -/
theorem isDir_of_makeDirs (hs : s.WellFormed) (hp : p.bytes ≠ [])
    (h : makeDirs p s = (.ok (), t)) : t.isDir p = true := by
  rw [makeDirs] at h
  by_cases hmissing : s.makeDir p = .error .notFound
  · cases habove : p.parent? with
    | none =>
      rw [makeDirsWithin_of_parent?_eq_none hp hmissing habove] at h
      cases h
    | some above =>
      rw [makeDirsWithin_of_missing hp hmissing habove] at h
      have hruns := runs_makeDirsWithin p.bytes.length above s hs
      split at h
      · cases h
      · rename_i u hrun
        rw [hrun] at hruns
        exact isDir_of_ensureDir (hruns.wellFormed hs) h
  · rw [makeDirsWithin_of_ne hp hmissing] at h
    exact isDir_of_ensureDir hs h

/-! ### Making links -/

/-- Names that lead to a directory are followed to it. -/
lemma Spells.descend_eq (h : Spells s p d names) (hd : s.get? (d ++ names) = some .dir) :
    s.descend true names d = .arrived (.found (d ++ names) .dir) := by
  have hfollowed := h.followed true
  have hsome : s.get? (d ++ names) ≠ none := by simp [hd]
  generalize s.descend true names d = leg at hfollowed
  cases hfollowed with
  | found hl => rw [hl]
  | vacant he _ hl _ hnone => exact absurd (by rwa [he, ← List.append_assoc, ← hl]) hsome
  | missing hp _ hnone =>
    exact absurd (h.wellFormed.get?_eq_none_of_prefix hnone
      ((List.prefix_append_right_inj d).mpr hp)) hsome
  | long hn hlong =>
    have hshort := (h.wellFormed.isEntryName hsome (List.mem_append_right d hn)).short
    exact absurd hlong (Nat.not_lt.mpr hshort)

/-- One more name behind directories is looked up in the last of them. -/
lemma Spells.locate_last (h : Spells s p d names) (hd : s.get? (d ++ names) = some .dir)
    (hn : IsEntryName n) :
    ∃ k, ∀ follow, s.locate follow (chain p (names ++ [n])) =
      if maxPath ≤ (chain p (names ++ [n])).bytes.length then .error .nameTooLong
      else s.walk follow (k + 1) (d ++ names) [n] false := by
  obtain ⟨k, hk⟩ := locate_chain h.found (List.concat_ne_nil n names) (h.spelled_concat hn)
  refine ⟨k, fun follow => ?_⟩
  have hdescend := descend_append (s := s) (List.cons_ne_nil n []) (follow || false) names d
  rw [hk, walk, walk, hdescend.1 _ (h.descend_eq hd)]

/-- What a name leads to behind directories that are there. A link in that place is not followed. -/
lemma Spells.locate_concat (h : Spells s p d names) (hd : s.get? (d ++ names) = some .dir)
    (hn : IsEntryName n) :
    (IsLong (chain p (names ++ [n])) ∧
      s.locate false (chain p (names ++ [n])) = .error .nameTooLong) ∨
    (s.get? (d ++ names ++ [n]) = none ∧
      s.locate false (chain p (names ++ [n])) = .ok (.vacant (d ++ names) n, false)) ∨
    ∃ node, s.locate false (chain p (names ++ [n])) =
      .ok (.found (d ++ names ++ [n]) node, false) := by
  have hseg := isLookedUp_of_isEntryName hn
  obtain ⟨k, hk⟩ := h.locate_last hd hn
  rw [hk]
  by_cases hlong : maxPath ≤ (chain p (names ++ [n])).bytes.length
  · rw [if_pos hlong]
    exact Or.inl ⟨Or.inl hlong, rfl⟩
  · rw [if_neg hlong]
    cases hnode : s.get? (d ++ names ++ [n]) with
    | none => exact Or.inr (Or.inl ⟨rfl, walk_name_none hseg hnode⟩)
    | some node => exact Or.inr (Or.inr ⟨node, walk_name hseg hnode fun _ => rfl⟩)

/-- What stands behind directories is found by its name, also a link. -/
lemma Spells.find_concat (h : Spells s p d names) (hd : s.get? (d ++ names) = some .dir)
    (hn : IsEntryName n) (hshort : (chain p (names ++ [n])).bytes.length < maxPath)
    (hnode : s.get? (d ++ (names ++ [n])) = some node) :
    s.find false (chain p (names ++ [n])) = .ok (d ++ (names ++ [n]), node) := by
  obtain ⟨k, hk⟩ := h.locate_last hd hn
  rw [← List.append_assoc] at hnode ⊢
  refine find_of_locate (?_ : s.locate false _ = .ok (_, false))
  rw [hk, if_neg (Nat.not_le.mpr hshort)]
  exact walk_name (isLookedUp_of_isEntryName hn) hnode fun _ => rfl

/-- A link behind directories that are there is made where nothing stands, unless its path is too
long. -/
theorem Spells.makeLink (h : Spells s p d names) (hd : s.get? (d ++ names) = some .dir)
    (hn : IsEntryName n) (htarget : s.find true target = .ok (l, node))
    (hfree : s.ownNode? (chain p (names ++ [n])) = none) :
    (∃ t, Adds (fun m node => m = d ++ names ++ [n] ∧ node = .link target) s t ∧
      s.makeLink target (chain p (names ++ [n])) = .ok t) ∨
    (IsLong (chain p (names ++ [n])) ∧
      s.makeLink target (chain p (names ++ [n])) = .error .nameTooLong) := by
  have hlocatable := isLocatable_of_find htarget
  have hnul : ¬ target.bytes.contains 0 = true := by simpa using hlocatable.noNul
  rw [Store.makeLink, if_neg hnul, if_neg hlocatable.ne_nil,
    if_neg (Nat.not_le.mpr hlocatable.short)]
  rcases h.locate_concat hd hn with ⟨hlong, hl⟩ | ⟨hnone, hl⟩ | ⟨found, hl⟩
  · exact Or.inr ⟨hlong, by rw [hl]⟩
  · have hsound : IsSound (.link target) := hlocatable.noNul
    exact Or.inl ⟨_, .put h.wellFormed hd hn hnone hsound ⟨rfl, rfl⟩, by rw [hl]⟩
  · -- What stands there would have been seen.
    rw [ownNode?, find_of_locate hl] at hfree
    cases hfree

end Store

end Excerpt
