import Excerpt.Proofs.Named
import Excerpt.Proofs.Path.Steps
import Excerpt.Store.Lookup
import Mathlib.Data.List.Induction
import Mathlib.Data.List.Nodup

/-!
# Well-formed stores

Entries are kept in a list, so not every list of entries is a tree. In a well-formed store each
location has one entry, what lies above an entry is a directory, and names are such as a file
system gives out. This module has the equations of reading after a change, and the changes that
keep a store well-formed.
-/

namespace Excerpt

namespace Store

variable {s : Store} {loc other : Location} {node : Node}

/-- A byte string that a file system gives to something in a directory. -/
structure IsEntryName (n : Bytes) : Prop where
  isName : Path.IsName n
  noNul : (0 : UInt8) ∉ n
  short : n.length ≤ maxName

/-- A node that can be stored: a link has a target without NUL. -/
def IsSound : Node → Prop
  | .link target => (0 : UInt8) ∉ target.bytes
  | _ => True

/-- A store whose entries form a tree. -/
structure WellFormed (s : Store) : Prop where
  nodup : (s.entries.map Prod.fst).Nodup
  nonempty : ∀ e ∈ s.entries, e.1 ≠ []
  names : ∀ e ∈ s.entries, ∀ n ∈ e.1, IsEntryName n
  sound : ∀ e ∈ s.entries, IsSound e.2
  parents : ∀ e ∈ s.entries, s.get? e.1.dropLast = some .dir
  cwd : s.get? s.cwd = some .dir

instance (n : Bytes) : Decidable (IsEntryName n) :=
  decidable_of_iff (Path.IsName n ∧ (0 : UInt8) ∉ n ∧ n.length ≤ maxName)
    ⟨fun h => ⟨h.1, h.2.1, h.2.2⟩, fun h => ⟨h.isName, h.noNul, h.short⟩⟩

instance : (node : Node) → Decidable (IsSound node)
  | .link target => inferInstanceAs (Decidable ((0 : UInt8) ∉ target.bytes))
  | .file .. | .dir => inferInstanceAs (Decidable True)

instance (s : Store) : Decidable s.WellFormed :=
  decidable_of_iff ((s.entries.map Prod.fst).Nodup ∧ (∀ e ∈ s.entries, e.1 ≠ []) ∧
    (∀ e ∈ s.entries, ∀ n ∈ e.1, IsEntryName n) ∧ (∀ e ∈ s.entries, IsSound e.2) ∧
    (∀ e ∈ s.entries, s.get? e.1.dropLast = some .dir) ∧ s.get? s.cwd = some .dir)
    ⟨fun h => ⟨h.1, h.2.1, h.2.2.1, h.2.2.2.1, h.2.2.2.2.1, h.2.2.2.2.2⟩,
      fun h => ⟨h.nodup, h.nonempty, h.names, h.sound, h.parents, h.cwd⟩⟩

/-- The location with these names. -/
def locationOf (names : List String) : Location := names.map (Utf8.encode ·.toList)

/-! ### Reading -/

@[simp] lemma get?_nil : s.get? [] = some .dir := rfl

lemma get?_of_ne_nil (h : loc ≠ []) : s.get? loc = s.entries.lookup loc := by
  rw [get?, if_neg h]

/-- A path that can be read leads to a file. -/
lemma file_of_read {p : Path} {content : Bytes} (h : s.read p = .ok content) :
    ∃ l node, s.find true p = .ok (l, node) ∧ node.isFile = true := by
  unfold read at h
  split at h
  · cases h
  · rename_i hf
    exact ⟨_, _, hf, rfl⟩
  · cases h

/-- What is read at a location is its entry. -/
lemma mem_of_get? (h : loc ≠ []) (hn : s.get? loc = some node) : (loc, node) ∈ s.entries := by
  rw [get?_of_ne_nil h] at hn
  exact mem_of_lookup hn

lemma WellFormed.get?_of_mem (hs : s.WellFormed) (h : (loc, node) ∈ s.entries) :
    s.get? loc = some node := by
  rw [get?_of_ne_nil (hs.nonempty _ h)]
  exact lookup_eq_some_of_mem hs.nodup h

lemma get?_eq_none_iff : s.get? loc = none ↔ loc ≠ [] ∧ ∀ e ∈ s.entries, e.1 ≠ loc := by
  constructor
  · intro h
    have hne : loc ≠ [] := by
      rintro rfl
      cases h
    rw [get?_of_ne_nil hne, lookup_eq_none_iff_forall_ne] at h
    exact ⟨hne, h⟩
  · rintro ⟨hne, h⟩
    rwa [get?_of_ne_nil hne, lookup_eq_none_iff_forall_ne]

/-- Above whatever is there, there is a directory. -/
lemma WellFormed.get?_dropLast (hs : s.WellFormed) (h : s.get? loc ≠ none) :
    s.get? loc.dropLast = some .dir := by
  rcases eq_or_ne loc [] with rfl | hne
  · rfl
  · obtain ⟨node, hn⟩ := Option.ne_none_iff_exists'.mp h
    exact hs.parents _ (mem_of_get? hne hn)

lemma WellFormed.get?_of_concat (hs : s.WellFormed) {d : Location} {n : Bytes}
    (h : s.get? (d ++ [n]) ≠ none) : s.get? d = some .dir := by
  have := hs.get?_dropLast h
  rwa [List.dropLast_concat] at this

/-- Every location on the way to something is a directory. -/
lemma WellFormed.get?_of_prefix (hs : s.WellFormed) (h : s.get? loc ≠ none)
    (hp : other <+: loc) : other = loc ∨ s.get? other = some .dir := by
  obtain ⟨rest, rfl⟩ := hp
  induction rest using List.reverseRecOn with
  | nil => exact Or.inl (by simp)
  | append_singleton rest n ih =>
    refine Or.inr ?_
    have habove : s.get? (other ++ rest) = some .dir := by
      have := hs.get?_dropLast h
      rwa [← List.append_assoc, List.dropLast_concat] at this
    rcases ih (by rw [habove]; simp) with he | he
    · rw [he]
      exact habove
    · exact he

/-- Beneath a free location there is nothing. -/
lemma WellFormed.get?_eq_none_of_prefix (hs : s.WellFormed) (h : s.get? loc = none)
    (hp : loc <+: other) : s.get? other = none := by
  by_contra hn
  rcases hs.get?_of_prefix hn hp with rfl | hd
  · exact hn h
  · rw [h] at hd
    cases hd

lemma WellFormed.isEntryName (hs : s.WellFormed) (h : s.get? loc ≠ none) {n : Bytes}
    (hn : n ∈ loc) : IsEntryName n := by
  obtain ⟨node, hnode⟩ := Option.ne_none_iff_exists'.mp h
  exact hs.names _ (mem_of_get? (List.ne_nil_of_mem hn) hnode) n hn

lemma WellFormed.isSound (hs : s.WellFormed) (h : s.get? loc = some node) : IsSound node := by
  rcases eq_or_ne loc [] with rfl | hne
  · cases h
    trivial
  · exact hs.sound _ (mem_of_get? hne h)

/-! ### Reading after a change -/

lemma lookup_putInto (l : List (Location × Node)) :
    (putInto loc node l).lookup other = if other = loc then some node else l.lookup other := by
  induction l with
  | nil => rw [putInto, lookup_cons_ite]
  | cons e l ih =>
    rw [putInto]
    by_cases he : e.1 = loc
    · rw [if_pos he, lookup_cons_ite, lookup_cons_ite, he]
      split <;> rfl
    · rw [if_neg he, lookup_cons_ite, lookup_cons_ite, ih]
      by_cases h : other = loc
      · rw [if_pos h, if_neg (by rw [h]; exact Ne.symm he), if_pos h]
      · rw [if_neg h, if_neg h]

lemma get?_put (h : loc ≠ []) :
    (s.put loc node).get? other = if other = loc then some node else s.get? other := by
  unfold get? put
  simp only
  by_cases ho : other = []
  · rw [if_pos ho, if_pos ho, if_neg (by rw [ho]; exact h.symm)]
  · rw [if_neg ho, if_neg ho]
    exact lookup_putInto _

@[simp] lemma get?_put_self (h : loc ≠ []) : (s.put loc node).get? loc = some node := by
  rw [get?_put h, if_pos rfl]

lemma get?_put_of_ne (h : loc ≠ []) (ho : other ≠ loc) :
    (s.put loc node).get? other = s.get? other := by
  rw [get?_put h, if_neg ho]

lemma putInto_of_forall_ne {l : List (Location × Node)} (h : ∀ e ∈ l, e.1 ≠ loc) :
    putInto loc node l = l ++ [(loc, node)] := by
  induction l with
  | nil => rfl
  | cons e l ih =>
    rw [putInto, if_neg (h e List.mem_cons_self), ih fun e he => h e (List.mem_cons_of_mem _ he)]
    rfl

/-- What is new comes last. -/
lemma entries_put_of_none (h : s.get? loc = none) :
    (s.put loc node).entries = s.entries ++ [(loc, node)] :=
  putInto_of_forall_ne (get?_eq_none_iff.mp h).2

lemma map_fst_putInto {l : List (Location × Node)} (h : loc ∈ l.map Prod.fst) :
    (putInto loc node l).map Prod.fst = l.map Prod.fst := by
  induction l with
  | nil => cases h
  | cons e l ih =>
    rw [putInto]
    split
    · rename_i he
      rw [List.map_cons, List.map_cons, he]
    · rename_i he
      rw [List.map_cons, List.mem_cons] at h
      rw [List.map_cons, List.map_cons, ih (h.resolve_left fun heq => he heq.symm)]

lemma mem_putInto {l : List (Location × Node)} {e : Location × Node}
    (h : e ∈ putInto loc node l) : e = (loc, node) ∨ e ∈ l := by
  induction l with
  | nil => exact Or.inl (List.mem_singleton.mp h)
  | cons d l ih =>
    rw [putInto] at h
    split at h
    · exact (List.mem_cons.mp h).imp id (List.mem_cons_of_mem _)
    · rcases List.mem_cons.mp h with rfl | h
      · exact Or.inr List.mem_cons_self
      · exact (ih h).imp id (List.mem_cons_of_mem _)

lemma putInto_putInto {l : List (Location × Node)} {old : Node} :
    putInto loc node (putInto loc old l) = putInto loc node l := by
  induction l with
  | nil => simp [putInto]
  | cons e l ih =>
    rw [putInto, putInto]
    split
    · simp [putInto]
    · rename_i he
      rw [putInto, if_neg he, ih]

/-- Of two changes of one location the second counts. -/
lemma put_put {old : Node} : (s.put loc old).put loc node = s.put loc node := by
  simp only [put]
  simp only [putInto_putInto]

/-! ### Changes that keep a store well-formed -/

/-- Something new in a directory. -/
lemma WellFormed.put_new (hs : s.WellFormed) {d : Location} {n : Bytes}
    (hd : s.get? d = some .dir) (hn : IsEntryName n) (hnode : IsSound node)
    (hfree : s.get? (d ++ [n]) = none) : (s.put (d ++ [n]) node).WellFormed := by
  have hne : d ++ [n] ≠ [] := by simp
  have hkeep : ∀ l, s.get? l = some .dir → (s.put (d ++ [n]) node).get? l = some .dir := by
    intro l hl
    rw [get?_put_of_ne hne, hl]
    rintro rfl
    rw [hfree] at hl
    cases hl
  have hentries : (s.put (d ++ [n]) node).entries = s.entries ++ [(d ++ [n], node)] :=
    entries_put_of_none hfree
  have hfree := (get?_eq_none_iff.mp hfree).2
  refine ⟨?_, ?_, ?_, ?_, ?_, hkeep _ hs.cwd⟩
  · rw [hentries, List.map_append, List.map_cons, List.map_nil]
    refine List.Nodup.append hs.nodup (List.nodup_singleton _) ?_
    rintro l hl hsingle
    obtain ⟨e, he, rfl⟩ := List.mem_map.mp hl
    exact hfree e he (List.mem_singleton.mp hsingle)
  all_goals
    intro e he
    rw [hentries, List.mem_append, List.mem_singleton] at he
    rcases he with he | rfl
  · exact hs.nonempty e he
  · exact hne
  · exact hs.names e he
  · intro m hm
    rcases List.mem_append.mp hm with hm | hm
    · exact hs.isEntryName (by rw [hd]; simp) hm
    · rw [List.mem_singleton.mp hm]
      exact hn
  · exact hs.sound e he
  · exact hnode
  · exact hkeep _ (hs.parents e he)
  · simpa using hkeep d hd

/-- Another node in place of something that was no directory. -/
lemma WellFormed.put_old (hs : s.WellFormed) {old : Node} (hold : s.get? loc = some old)
    (hdir : old ≠ .dir) (hnode : IsSound node) : (s.put loc node).WellFormed := by
  have hne : loc ≠ [] := by
    rintro rfl
    cases hold
    exact hdir rfl
  have hkeep : ∀ l, s.get? l = some .dir → (s.put loc node).get? l = some .dir := by
    intro l hl
    rw [get?_put_of_ne hne, hl]
    rintro rfl
    rw [hold] at hl
    cases hl
    exact hdir rfl
  have hmem := mem_of_get? hne hold
  refine ⟨?_, ?_, ?_, ?_, ?_, hkeep _ hs.cwd⟩
  · unfold put
    simp only
    rw [map_fst_putInto (List.mem_map.mpr ⟨_, hmem, rfl⟩)]
    exact hs.nodup
  all_goals
    intro e he
    rcases mem_putInto he with rfl | he
  · exact hne
  · exact hs.nonempty e he
  · exact hs.names (loc, old) hmem
  · exact hs.names e he
  · exact hnode
  · exact hs.sound e he
  · exact hkeep _ (hs.parents (loc, old) hmem)
  · exact hkeep _ (hs.parents e he)

/-! ### Taking away -/

lemma lookup_filter (keep : Location → Bool) (l : List (Location × Node)) :
    (l.filter fun e => keep e.1).lookup loc = if keep loc then l.lookup loc else none := by
  induction l with
  | nil => simp
  | cons e l ih =>
    rw [List.filter_cons, lookup_cons_ite]
    by_cases h : loc = e.1
    · by_cases hkeep : keep e.1
      · rw [if_pos hkeep, lookup_cons_ite, if_pos h, if_pos h, h, if_pos hkeep]
      · rw [if_neg hkeep, ih, h, if_neg hkeep, if_neg hkeep]
    · rw [if_neg h]
      split
      · rw [lookup_cons_ite, if_neg h, ih]
      · exact ih

lemma get?_erase (h : loc ≠ []) :
    (s.erase loc).get? other = if other = loc then none else s.get? other := by
  unfold get? erase
  simp only
  by_cases ho : other = []
  · rw [if_pos ho, if_pos ho, if_neg (by rw [ho]; exact h.symm)]
  · rw [if_neg ho, if_neg ho]
    rw [lookup_filter fun l => decide (l ≠ loc)]
    by_cases h : other = loc <;> simp [h]

/-- Something that is no directory can be taken away. -/
lemma WellFormed.erase (hs : s.WellFormed) (hn : s.get? loc = some node) (hdir : node ≠ .dir) :
    (s.erase loc).WellFormed := by
  have hne : loc ≠ [] := by
    rintro rfl
    cases hn
    exact hdir rfl
  have hkeep : ∀ l, s.get? l = some .dir → (s.erase loc).get? l = some .dir := by
    intro l hl
    rw [get?_erase hne, if_neg, hl]
    rintro rfl
    rw [hn] at hl
    cases hl
    exact hdir rfl
  have hmem : ∀ e ∈ (s.erase loc).entries, e ∈ s.entries := fun e he => (List.mem_filter.mp he).1
  refine ⟨?_, fun e he => hs.nonempty e (hmem e he), fun e he => hs.names e (hmem e he),
    fun e he => hs.sound e (hmem e he), fun e he => hkeep _ (hs.parents e (hmem e he)),
    hkeep _ hs.cwd⟩
  exact hs.nodup.sublist (List.filter_sublist.map _)

/-- Taking away what was just put at a free location gives the store back. -/
lemma erase_put (h : s.get? loc = none) : (s.put loc node).erase loc = s := by
  have hfree := (get?_eq_none_iff.mp h).2
  have hentries : (s.put loc node).entries = s.entries ++ [(loc, node)] :=
    entries_put_of_none h
  simp only [erase]
  rw [hentries, List.filter_append, List.filter_eq_self.mpr fun e he => by simpa using hfree e he]
  simp [put]

/-- Taking away a tree that was put at a free location gives the store back. -/
lemma WellFormed.eraseTree_append (hs : s.WellFormed) {t : Store} {extra : List (Location × Node)}
    (h : s.get? loc = none) (ht : t.entries = s.entries ++ extra) (hcwd : t.cwd = s.cwd)
    (hclock : t.clock = s.clock) (hextra : ∀ e ∈ extra, loc <+: e.1) : t.eraseTree loc = s := by
  have hkeep : s.entries.filter (fun e => !loc.isPrefixOf e.1) = s.entries := by
    refine List.filter_eq_self.mpr fun e he => ?_
    rw [Bool.not_eq_true', ← Bool.not_eq_true, List.isPrefixOf_iff_prefix]
    intro hp
    have := hs.get?_eq_none_of_prefix h hp
    rw [hs.get?_of_mem he] at this
    cases this
  have hdrop : extra.filter (fun e => !loc.isPrefixOf e.1) = [] := by
    refine List.filter_eq_nil_iff.mpr fun e he => ?_
    simpa [List.isPrefixOf_iff_prefix] using hextra e he
  simp only [eraseTree]
  rw [ht, List.filter_append, hkeep, hdrop, List.append_nil, hcwd, hclock]

lemma get?_eraseTree (h : loc ≠ []) :
    (s.eraseTree loc).get? other = if loc <+: other then none else s.get? other := by
  unfold get? eraseTree
  simp only
  by_cases ho : other = []
  · rw [if_pos ho, if_pos ho, if_neg (by rw [ho]; simpa using h)]
  · rw [if_neg ho, if_neg ho]
    rw [lookup_filter fun l => !loc.isPrefixOf l]
    by_cases hp : loc <+: other
    · rw [if_pos hp, List.isPrefixOf_iff_prefix.mpr hp]
      rfl
    · simp [hp]

/-- What was put into a tree is gone with the tree. -/
lemma eraseTree_put (h : loc <+: other) : (s.put other node).eraseTree loc = s.eraseTree loc := by
  have hkeep : ∀ l : List (Location × Node), (putInto other node l).filter
      (fun e => !loc.isPrefixOf e.1) = l.filter fun e => !loc.isPrefixOf e.1 := by
    intro l
    have hother : loc.isPrefixOf other = true := List.isPrefixOf_iff_prefix.mpr h
    induction l with
    | nil => simp [putInto, hother]
    | cons e l ih =>
      rw [putInto]
      split
      · rename_i he
        simp [he, hother]
      · rw [List.filter_cons, ih, List.filter_cons]
  simp only [eraseTree, put]
  rw [hkeep]

/-- Taking away something in a tree first makes no difference to taking away the tree. -/
lemma eraseTree_erase (h : loc <+: other) : (s.erase other).eraseTree loc = s.eraseTree loc := by
  simp only [eraseTree, erase]
  rw [List.filter_filter]
  congr 1
  refine List.filter_congr fun e _ => ?_
  by_cases he : e.1 = other
  · simp [he, h]
  · simp [he]

/-! ### Names in a directory -/

/-- The names listed in a directory are those of what stands in it. -/
lemma mem_names {n : Bytes} (hs : s.WellFormed) :
    n ∈ s.names loc ↔ ∃ node, s.get? (loc ++ [n]) = some node := by
  simp only [names]
  rw [List.mem_filterMap]
  constructor
  · rintro ⟨e, he, h⟩
    split at h
    · rename_i hd
      have : e.1 = loc ++ [n] := by
        obtain ⟨front, hf⟩ := List.getLast?_eq_some_iff.mp h
        rw [hf, List.dropLast_concat] at hd
        rw [hf, hd]
      exact ⟨e.2, by rw [← this]; exact hs.get?_of_mem he⟩
    · cases h
  · rintro ⟨node, h⟩
    exact ⟨_, mem_of_get? (by simp) h, by simp⟩

/-- Beneath a location without names there is nothing. -/
lemma WellFormed.get?_eq_none_of_names (hs : s.WellFormed) (h : s.names loc = [])
    (hne : other ≠ []) : s.get? (loc ++ other) = none := by
  obtain ⟨n, rest, rfl⟩ := List.exists_cons_of_ne_nil hne
  have hfree : s.get? (loc ++ [n]) = none := by
    by_contra hn
    have hmem := (mem_names hs).mpr (Option.ne_none_iff_exists'.mp hn)
    rw [h] at hmem
    cases hmem
  refine hs.get?_eq_none_of_prefix hfree ⟨rest, ?_⟩
  rw [List.append_assoc]
  rfl

lemma nodup_names (hs : s.WellFormed) : (s.names loc).Nodup := by
  have hmap : s.names loc = (s.entries.map Prod.fst).filterMap fun l =>
      if l.dropLast = loc then l.getLast? else none := by
    rw [List.filterMap_map]
    rfl
  rw [hmap]
  refine List.Nodup.filterMap ?_ hs.nodup
  intro l l' n hl hl'
  rw [Option.mem_def] at hl hl'
  split at hl <;> split at hl'
  · rename_i hd hd'
    obtain ⟨front, rfl⟩ := List.getLast?_eq_some_iff.mp hl
    obtain ⟨front', rfl⟩ := List.getLast?_eq_some_iff.mp hl'
    rw [List.dropLast_concat] at hd hd'
    rw [hd, hd']
  all_goals simp_all

end Store

end Excerpt
