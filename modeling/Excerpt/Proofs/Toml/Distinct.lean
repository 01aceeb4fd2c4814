import Excerpt.Proofs.Named
import Excerpt.Toml.Document
import Mathlib.Tactic.Common

/-!
# Names in TOML documents

A document gives a name only once: a pair or a header that would give it again is refused. So no
table in a document that was read has two entries with one name, however deep it stands, and
inline tables have none either. Each step of reading preserves this, and `isDistinct_of_parse?`
says so of the whole document.
-/

namespace Excerpt

namespace Toml

/-- No table in the value gives a name twice. -/
inductive Value.IsDistinct : Value → Prop where
  | string (t : Text) : IsDistinct (.string t)
  | integer (n : Int) : IsDistinct (.integer n)
  | float (t : Text) : IsDistinct (.float t)
  | boolean (b : Bool) : IsDistinct (.boolean b)
  | datetime (t : Text) : IsDistinct (.datetime t)
  | array {vs : List Value} (values : ∀ v ∈ vs, IsDistinct v) : IsDistinct (.array vs)
  | table {es : List (Text × Value)} (names : (es.map Prod.fst).Nodup)
      (values : ∀ e ∈ es, IsDistinct e.2) : IsDistinct (.table es)

/-- No table in the place gives a name twice. -/
inductive Node.IsDistinct : Node → Prop where
  | value {v : Value} (h : v.IsDistinct) : IsDistinct (.value v)
  | table {origin : Origin} {es : Entries} (names : (es.map Prod.fst).Nodup)
      (nodes : ∀ e ∈ es, IsDistinct e.2) : IsDistinct (.table origin es)
  | tables {elements : List Entries} (names : ∀ es ∈ elements, (es.map Prod.fst).Nodup)
      (nodes : ∀ es ∈ elements, ∀ e ∈ es, IsDistinct e.2) : IsDistinct (.tables elements)

/-- Neither these entries nor a table in them give a name twice. -/
structure Entries.IsDistinct (es : Entries) : Prop where
  names : (es.map Prod.fst).Nodup
  nodes : ∀ e ∈ es, e.2.IsDistinct

variable {v : Value} {n : Node} {k : Text} {key opened : List Text} {es es' inner : Entries}
  {elements : List Entries} {origin : Origin} {value : Reader} {t rest : Text}

namespace Node

lemma isDistinct_table_iff : (Node.table origin es).IsDistinct ↔ es.IsDistinct := by
  constructor
  · rintro (_ | ⟨names, nodes⟩)
    exact ⟨names, nodes⟩
  · rintro ⟨names, nodes⟩
    exact .table names nodes

lemma isDistinct_tables_iff :
    (Node.tables elements).IsDistinct ↔ ∀ es ∈ elements, Entries.IsDistinct es := by
  constructor
  · rintro (_ | _ | ⟨names, nodes⟩) es hes
    exact ⟨names es hes, nodes es hes⟩
  · intro h
    exact .tables (fun es hes => (h es hes).names) fun es hes => (h es hes).nodes

end Node

/-! ### Entering something -/

namespace Entries.IsDistinct

lemma nil : Entries.IsDistinct [] := ⟨List.nodup_nil, nofun⟩

lemma of_get? (h : es.IsDistinct) (hk : es.get? k = some n) : n.IsDistinct :=
  h.nodes _ (mem_of_lookup hk)

lemma concat (h : es.IsDistinct) (hk : es.get? k = none) (hn : n.IsDistinct) :
    Entries.IsDistinct (es ++ [(k, n)]) := by
  refine ⟨?_, ?_⟩
  · rw [List.map_append, List.map_singleton, List.nodup_append_comm, List.singleton_append,
      List.nodup_cons]
    refine ⟨fun hmem => ?_, h.names⟩
    obtain ⟨e, he, hek⟩ := List.mem_map.mp hmem
    exact lookup_eq_none_iff_forall_ne.mp hk e he hek
  · intro e he
    rcases List.mem_append.mp he with he | he
    · exact h.nodes e he
    · rw [List.mem_singleton.mp he]
      exact hn

lemma replace (h : es.IsDistinct) (hn : n.IsDistinct) : (es.replace k n).IsDistinct := by
  refine ⟨?_, ?_⟩
  · have hnames : (es.replace k n).map Prod.fst = es.map Prod.fst := by
      rw [Entries.replace, List.map_map]
      refine List.map_congr_left fun e _ => ?_
      rw [Function.comp_apply]
      split_ifs with hek
      · exact hek.symm
      · rfl
    rw [hnames]
    exact h.names
  · intro e he
    obtain ⟨old, hold, rfl⟩ := List.mem_map.mp he
    split_ifs
    · exact hn
    · exact h.nodes old hold

/-! Where a key has more parts, the rest of it is for an inner table: a new one, one that is there,
or the last one of a list. -/

variable {o : Option Entries}

lemma concat_table (h : es.IsDistinct) (hk : es.get? k = none)
    (ho : ∀ inner, o = some inner → inner.IsDistinct)
    (hm : (o.map fun inner => es ++ [(k, .table origin inner)]) = some es') : es'.IsDistinct := by
  obtain ⟨inner, hinner, rfl⟩ := Option.map_eq_some_iff.mp hm
  exact h.concat hk (Node.isDistinct_table_iff.mpr (ho inner hinner))

lemma replace_table (h : es.IsDistinct) (hk : es.get? k = some (.table origin inner))
    (ho : inner.IsDistinct → ∀ inner', o = some inner' → inner'.IsDistinct)
    (hm : (o.map fun inner => es.replace k (.table origin inner)) = some es') :
    es'.IsDistinct := by
  obtain ⟨inner', hinner', rfl⟩ := Option.map_eq_some_iff.mp hm
  have hold := Node.isDistinct_table_iff.mp (h.of_get? hk)
  exact h.replace (Node.isDistinct_table_iff.mpr (ho hold inner' hinner'))

lemma replace_last {last : Entries} {before : List Entries} (h : es.IsDistinct)
    (hk : es.get? k = some (.tables elements)) (he : elements.reverse = last :: before)
    (ho : last.IsDistinct → ∀ new, o = some new → new.IsDistinct)
    (hm : (o.map fun new => es.replace k (.tables (before.reverse ++ [new]))) = some es') :
    es'.IsDistinct := by
  obtain ⟨new, hnew, rfl⟩ := Option.map_eq_some_iff.mp hm
  have hall : ∀ old ∈ last :: before, Entries.IsDistinct old := fun old hold =>
    Node.isDistinct_tables_iff.mp (h.of_get? hk) old (List.mem_reverse.mp (he ▸ hold))
  refine h.replace (Node.isDistinct_tables_iff.mpr fun old hold => ?_)
  rcases List.mem_append.mp hold with hold | hold
  · exact hall old (List.mem_cons_of_mem last (List.mem_reverse.mp hold))
  · rw [List.mem_singleton.mp hold]
    exact ho (hall last List.mem_cons_self) new hnew

lemma insert (hv : v.IsDistinct) (h : es.IsDistinct) (hi : es.insert v key = some es') :
    es'.IsDistinct := by
  fun_induction Entries.insert v key es generalizing es' with
  | case1 => cases hi
  | case2 k es hk =>
    cases hi
    exact h.concat hk (.value hv)
  | case3 => cases hi
  | case4 k ks es _ hk ih => exact h.concat_table hk (fun _ => ih nil) hi
  | case5 => cases hi
  | case6 k ks es _ origin inner hk _ ih => exact h.replace_table hk (fun hold _ => ih hold) hi
  | case7 => cases hi

lemma openTable (h : es.IsDistinct) (ho : es.openTable key = some es') : es'.IsDistinct := by
  fun_induction Entries.openTable key es generalizing es' with
  | case1 => cases ho
  | case2 k es hk =>
    cases ho
    exact h.concat hk (Node.isDistinct_table_iff.mpr nil)
  | case3 k es inner hk =>
    cases ho
    exact h.replace (Node.isDistinct_table_iff.mpr (Node.isDistinct_table_iff.mp (h.of_get? hk)))
  | case4 => cases ho
  | case5 k ks es _ hk ih => exact h.concat_table hk (fun _ => ih nil) ho
  | case6 k ks es _ origin inner hk ih => exact h.replace_table hk (fun hold _ => ih hold) ho
  | case7 => cases ho
  | case8 k ks es _ elements hk last before he ih =>
    exact h.replace_last hk he (fun hold _ => ih hold) ho
  | case9 => cases ho

lemma openElement (h : es.IsDistinct) (ho : es.openElement key = some es') : es'.IsDistinct := by
  fun_induction Entries.openElement key es generalizing es' with
  | case1 => cases ho
  | case2 k es hk =>
    cases ho
    exact h.concat hk (Node.isDistinct_tables_iff.mpr (List.forall_mem_singleton.mpr nil))
  | case3 k es elements hk =>
    cases ho
    refine h.replace (Node.isDistinct_tables_iff.mpr fun table htable => ?_)
    rcases List.mem_append.mp htable with htable | htable
    · exact Node.isDistinct_tables_iff.mp (h.of_get? hk) table htable
    · rw [List.mem_singleton.mp htable]
      exact nil
  | case4 => cases ho
  | case5 k ks es _ hk ih => exact h.concat_table hk (fun _ => ih nil) ho
  | case6 k ks es _ origin inner hk ih => exact h.replace_table hk (fun hold _ => ih hold) ho
  | case7 => cases ho
  | case8 k ks es _ elements hk last before he ih =>
    exact h.replace_last hk he (fun hold _ => ih hold) ho
  | case9 => cases ho

lemma insertUnder (hv : v.IsDistinct) (h : es.IsDistinct)
    (hi : es.insertUnder key v opened = some es') : es'.IsDistinct := by
  fun_induction Entries.insertUnder key v opened es generalizing es' with
  | case1 => exact h.insert hv hi
  | case2 k ks es origin inner hk ih => exact h.replace_table hk (fun hold _ => ih hold) hi
  | case3 => cases hi
  | case4 k ks es elements hk last before he ih =>
    exact h.replace_last hk he (fun hold _ => ih hold) hi
  | case5 => cases hi

end Entries.IsDistinct

/-! ### Values -/

lemma entryValues_eq (es : Entries) : entryValues es = es.map fun e => (e.1, e.2.toValue) := by
  induction es with
  | nil => rfl
  | cons e es ih => rw [entryValues, ih, List.map_cons]

lemma tableValues_eq (elements : List Entries) :
    tableValues elements = elements.map fun es => .table (entryValues es) := by
  induction elements with
  | nil => rfl
  | cons es elements ih => rw [tableValues, ih, List.map_cons]

lemma names_entryValues (es : Entries) : (entryValues es).map Prod.fst = es.map Prod.fst := by
  rw [entryValues_eq, List.map_map]
  rfl

lemma isDistinct_entryValues (names : (es.map Prod.fst).Nodup)
    (values : ∀ e ∈ es, e.2.toValue.IsDistinct) : (Value.table (entryValues es)).IsDistinct := by
  refine .table (names_entryValues es ▸ names) ?_
  rw [entryValues_eq]
  exact List.forall_mem_map.mpr values

lemma Node.IsDistinct.toValue (h : n.IsDistinct) : n.toValue.IsDistinct := by
  induction h with
  | value h => exact h
  | table names _ ih => exact isDistinct_entryValues names ih
  | tables names _ ih =>
    rw [Node.toValue, tableValues_eq]
    refine .array (List.forall_mem_map.mpr fun es hes => ?_)
    exact isDistinct_entryValues (names es hes) (ih es hes)

lemma Entries.IsDistinct.toValue (h : es.IsDistinct) : (Value.table (entryValues es)).IsDistinct :=
  isDistinct_entryValues h.names fun e he => (h.nodes e he).toValue

/-! ### Reading -/

/-- What is read gives no name twice. -/
def ReadsDistinct (value : Reader) : Prop := ∀ t v rest, value t = some (v, rest) → v.IsDistinct

lemma Word.isDistinct_of_toValue? (h : Word.toValue? t = some v) : v.IsDistinct := by
  unfold Word.toValue? at h
  split_ifs at h
  · cases h
    exact .boolean true
  · cases h
    exact .boolean false
  · split at h
    · cases h
      exact .integer _
    · split at h
      · cases h
        exact .float _
      · obtain ⟨date, -, rfl⟩ := Option.map_eq_some_iff.mp h
        exact .datetime date

lemma readsDistinct_scalar : ReadsDistinct scalar? := by
  intro t v rest h
  cases t with
  | nil => cases h
  | cons c t =>
    rw [scalar?] at h
    split_ifs at h
    · obtain ⟨⟨s, after⟩, -, heq⟩ := Option.map_eq_some_iff.mp h
      cases heq
      exact .string s
    · obtain ⟨word, hword, heq⟩ := Option.map_eq_some_iff.mp h
      cases heq
      exact Word.isDistinct_of_toValue? hword

lemma ReadsDistinct.pair (hr : ReadsDistinct value) (h : pair? value t = some ((key, v), rest)) :
    v.IsDistinct := by
  obtain ⟨⟨key', t'⟩, -, h⟩ := Option.bind_eq_some_iff.mp h
  dsimp only at h
  split at h
  · obtain ⟨⟨v', rest'⟩, hv, heq⟩ := Option.map_eq_some_iff.mp h
    cases heq
    exact hr _ _ _ hv
  · cases h

lemma ReadsDistinct.items {fuel : Nat} {vs : List Value} (hr : ReadsDistinct value)
    (h : items? value fuel t = some (vs, rest)) : ∀ v ∈ vs, v.IsDistinct := by
  induction fuel generalizing t vs with
  | zero => cases h
  | succ fuel ih =>
    rw [items?] at h
    split at h
    · cases h
    · cases h
      exact nofun
    · obtain ⟨⟨v, t'⟩, hv, h⟩ := Option.bind_eq_some_iff.mp h
      have hdistinct := hr _ _ _ hv
      dsimp only at h
      split at h
      · obtain ⟨⟨more, rest'⟩, hmore, heq⟩ := Option.map_eq_some_iff.mp h
        cases heq
        exact List.forall_mem_cons.mpr ⟨hdistinct, ih hmore⟩
      · cases h
        exact List.forall_mem_singleton.mpr hdistinct
      · cases h

lemma ReadsDistinct.pairs {fuel : Nat} (hr : ReadsDistinct value) (hes : es.IsDistinct)
    (h : pairs? value fuel es t = some (es', rest)) : es'.IsDistinct := by
  induction fuel generalizing t es with
  | zero => cases h
  | succ fuel ih =>
    rw [pairs?] at h
    obtain ⟨⟨⟨key, v⟩, t'⟩, hpair, h⟩ := Option.bind_eq_some_iff.mp h
    obtain ⟨added, hadded, h⟩ := Option.bind_eq_some_iff.mp h
    have hdistinct := hes.insert (hr.pair hpair) hadded
    split at h
    · exact ih hdistinct h
    · cases h
      exact hdistinct
    · cases h

lemma ReadsDistinct.inlineTable (hr : ReadsDistinct value) :
    ReadsDistinct (inlineTable? value) := by
  intro t v rest h
  rw [inlineTable?] at h
  split at h
  · cases h
    exact .table List.nodup_nil nofun
  · obtain ⟨⟨es, rest'⟩, hes, heq⟩ := Option.map_eq_some_iff.mp h
    cases heq
    exact (hr.pairs .nil hes).toValue

lemma readsDistinct_value (depth : Nat) : ReadsDistinct (value? depth) := by
  induction depth with
  | zero => exact readsDistinct_scalar
  | succ depth ih =>
    intro t v rest h
    unfold value? at h
    split at h
    · obtain ⟨⟨vs, rest'⟩, hvs, heq⟩ := Option.map_eq_some_iff.mp h
      cases heq
      exact .array (ih.items hvs)
    · exact ih.inlineTable _ _ _ h
    · exact readsDistinct_scalar _ _ _ h

/-- Each line enters what it says into entries that give no name twice, and leaves such entries. -/
lemma isDistinct_of_lines? {fuel : Nat} (hes : es.IsDistinct)
    (h : lines? fuel opened es t = some es') : es'.IsDistinct := by
  induction fuel generalizing opened es t with
  | zero => cases h
  | succ fuel ih =>
    rw [lines?] at h
    split at h
    · cases h
    · cases h
      exact hes
    · obtain ⟨⟨key, t'⟩, -, h⟩ := Option.bind_eq_some_iff.mp h
      obtain ⟨added, hadded, h⟩ := Option.bind_eq_some_iff.mp h
      exact ih (hes.openElement hadded) h
    · obtain ⟨⟨key, t'⟩, -, h⟩ := Option.bind_eq_some_iff.mp h
      obtain ⟨added, hadded, h⟩ := Option.bind_eq_some_iff.mp h
      exact ih (hes.openTable hadded) h
    · obtain ⟨⟨⟨key, v⟩, t'⟩, hpair, h⟩ := Option.bind_eq_some_iff.mp h
      obtain ⟨added, hadded, h⟩ := Option.bind_eq_some_iff.mp h
      obtain ⟨t'', -, h⟩ := Option.bind_eq_some_iff.mp h
      exact ih (hes.insertUnder ((readsDistinct_value maxDepth).pair hpair) hadded) h

/-- No table of a document gives a name twice. -/
theorem isDistinct_of_parse? {document : List (Text × Value)} (h : parse? t = some document) :
    (Value.table document).IsDistinct := by
  obtain ⟨es, hes, rfl⟩ := Option.map_eq_some_iff.mp h
  exact (isDistinct_of_lines? .nil hes).toValue

end Toml

end Excerpt
