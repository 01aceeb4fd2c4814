import Excerpt.Proofs.Settings.Fields
import Excerpt.Proofs.Toml.Distinct

/-!
# Layers of settings

One entry of a layer gives leaves to the fields that it names and leaves the others as they are, and
so a layer goes over the one below it field by field. This holds for the document of a settings file
(`overlays_document`) and for the variables of the environment (`overlays_variables`). A name on the
outermost level is a route into the tree, so what else a layer names must not lead into a section.
-/

namespace Excerpt

namespace Settings

open Excerpt.Settings.Tree

/-! ### Merging -/

namespace Tree

variable {t u old : Tree} {es fs : Layer} {name other : Text}

lemma lookup_put : (put name u es).lookup other =
    if other = name then some u else es.lookup other := by
  induction es with
  | nil => rw [put, lookup_cons_ite]
  | cons e es ih =>
    rw [put]
    by_cases he : e.1 = name
    · rw [if_pos he, lookup_cons_ite, lookup_cons_ite, he]
      split <;> rfl
    · rw [if_neg he, lookup_cons_ite, lookup_cons_ite, ih]
      by_cases h : other = name
      · rw [if_pos h, if_neg (by rw [h]; exact Ne.symm he), if_pos h]
      · rw [if_neg h, if_neg h]

/-- A value that takes the place of whatever was there. -/
def IsLeaf (u : Tree) : Prop := ∀ old, merge old u = u

lemma isLeaf_text (v : Text) : IsLeaf (.text v) := fun _ => by rw [merge]

lemma isLeaf_list (ts : List Tree) : IsLeaf (.list ts) := fun _ => by rw [merge]

/-- Entries that are merged into others go over them where they are leaves. -/
lemma lookup_mergeAll (hnames : (fs.map Prod.fst).Nodup)
    (hleaf : ∀ u, fs.lookup name = some u → IsLeaf u) :
    (mergeAll es fs).lookup name = (fs.lookup name <|> es.lookup name) := by
  induction fs generalizing es with
  | nil => rw [mergeAll]; rfl
  | cons e fs ih =>
    obtain ⟨k, u⟩ := e
    have hrest : (fs.map Prod.fst).Nodup := (List.nodup_cons.mp hnames).2
    rw [mergeAll]
    rw [lookup_cons_ite] at hleaf ⊢
    by_cases hk : name = k
    · rw [if_pos hk] at hleaf ⊢
      have hnone : fs.lookup name = none := lookup_eq_none_of_nodup_cons hnames hk
      rw [ih hrest (by rw [hnone]; exact nofun), hnone, lookup_put, if_pos hk, hleaf u rfl]
      rfl
    · rw [if_neg hk] at hleaf ⊢
      rw [ih hrest hleaf, lookup_put, if_neg hk]

end Tree

/-! ### Entries of layers -/

/-- A name on the outermost level that is no way into one of the sections. -/
def IsForeign (name : Text) : Prop := ∀ n ∈ sectionNames, (route name).head? ≠ some (.name n)

instance (name : Text) : Decidable (IsForeign name) :=
  inferInstanceAs (Decidable (∀ n ∈ sectionNames, (route name).head? ≠ some (.name n)))

variable {t u : Tree} {name : Text} {entries : Layer}

/-- A route starts with a name. -/
lemma exists_route_eq (name : Text) : ∃ first rest, route name = .name first :: rest := by
  unfold route
  dsimp only
  split_ifs
  · exact ⟨_, _, rfl⟩
  · split <;> exact ⟨_, _, rfl⟩

lemma route_section (h : name ∈ sectionNames) : route name = [.name name] := by
  revert name
  decide +kernel

lemma IsForeign.not_mem (h : IsForeign name) : name ∉ sectionNames := by
  intro hmem
  exact h name hmem (by rw [route_section hmem]; rfl)

/-! ### Steps -/

/-- One tree is another one with some leaves put over it: a field has what it is given, and else
what it had. -/
structure Overlays (t : Tree) (given : Field → Option Tree) (t' : Tree) : Prop where
  isSectioned : t'.IsSectioned
  leaf?_eq : ∀ f, t'.leaf? f = (given f <|> t.leaf? f)

namespace Overlays

variable {t' t'' : Tree} {given given' : Field → Option Tree}

lemma refl (ht : t.IsSectioned) : Overlays t (fun _ => none) t := ⟨ht, fun _ => rfl⟩

lemma congr (h : Overlays t given t') (heq : ∀ f, given f = given' f) : Overlays t given' t' :=
  ⟨h.isSectioned, fun f => heq f ▸ h.leaf?_eq f⟩

lemma trans (h : Overlays t given t') (h' : Overlays t' given' t'') :
    Overlays t (fun f => given' f <|> given f) t'' := by
  refine ⟨h'.isSectioned, fun f => ?_⟩
  rw [h'.leaf?_eq, h.leaf?_eq]
  cases given' f <;> rfl

end Overlays

/-- Putting something under a name changes the leaves in the section of this name. -/
lemma overlays_put {given : Field → Option Tree} (ht : t.IsSectioned)
    (hu : name ∈ sectionNames → ∃ inner, u = .table inner)
    (hin : ∀ f : Field, f.table.toList = name →
      u.entries.lookup f.name.toList = (given f <|> t.leaf? f))
    (hout : ∀ f : Field, f.table.toList ≠ name → given f = none) :
    Overlays t given (.table (put name u t.entries)) := by
  obtain ⟨es, rfl, hes⟩ := ht
  constructor
  · refine ⟨_, rfl, fun other hother v hv => ?_⟩
    rw [lookup_put] at hv
    split_ifs at hv with hname
    · cases hv
      exact hu (hname ▸ hother)
    · exact hes other hother v hv
  · intro f
    have hleaf : (table (put name u es)).leaf? f = if f.table.toList = name then
        u.entries.lookup f.name.toList else (table es).leaf? f := by
      unfold leaf? child
      rw [show (table (put name u es)).entries = put name u es from rfl, lookup_put]
      split_ifs <;> rfl
    rw [Tree.entries, hleaf]
    by_cases hf : f.table.toList = name
    · rw [if_pos hf, hin f hf]
    · rw [if_neg hf, hout f hf]
      rfl

lemma assign_foreign {e : Text × Tree} (ht : t.IsSectioned) (he : IsForeign e.1) :
    Overlays t (fun _ => none) (assign t e) := by
  obtain ⟨first, rest, hroute⟩ := exists_route_eq e.1
  have hfirst : first ∉ sectionNames := by
    intro hmem
    exact he first hmem (by rw [hroute]; rfl)
  rw [assign, hroute, update]
  refine overlays_put ht (fun hmem => absurd hmem hfirst) (fun f hf => ?_) fun _ _ => rfl
  exact absurd (hf ▸ table_mem_sectionNames f) hfirst

/-- A section of a document gives its fields what it has for them. -/
lemma assign_section (ht : t.IsSectioned) (hname : name ∈ sectionNames)
    (hnames : (entries.map Prod.fst).Nodup)
    (hleaf : ∀ f : Field, f.table.toList = name →
      ∀ u, entries.lookup f.name.toList = some u → IsLeaf u) :
    Overlays t (fun f => if f.table.toList = name then entries.lookup f.name.toList else none)
      (assign t (name, .table entries)) := by
  rw [assign, route_section hname, update, update, merge]
  refine overlays_put ht (fun _ => ⟨_, rfl⟩) (fun f hf => ?_) fun f hf => if_neg hf
  rw [if_pos hf, Tree.leaf?, hf]
  exact lookup_mergeAll hnames (hleaf f hf)

/-- The name of a field on the outermost level. -/
def Field.dotted (f : Field) : Text := (f.table ++ "." ++ f.name).toList

lemma route_dotted (f : Field) :
    route f.dotted = [.name f.table.toList, .name f.name.toList] := by
  revert f
  decide +kernel

lemma assign_field (ht : t.IsSectioned) (hu : IsLeaf u) (f : Field) :
    Overlays t (fun g => if g = f then some u else none) (assign t (f.dotted, u)) := by
  rw [assign, route_dotted, update, update, update, hu]
  refine overlays_put ht (fun _ => ⟨_, rfl⟩) (fun g hg => ?_) fun g hg => ?_
  · rw [Tree.leaf?, hg]
    refine lookup_put.trans ?_
    by_cases hgf : g = f
    · rw [if_pos hgf, if_pos (by rw [hgf])]
      rfl
    · have hname : g.name.toList ≠ f.name.toList := fun heq =>
        hgf (name_injective (String.toList_inj.mp heq))
      rw [if_neg hgf, if_neg hname]
      rfl
  · exact if_neg fun hgf => hg (by rw [hgf])

/-! ### Documents -/

/-- The text of a value that is one. -/
def textOf? : Toml.Value → Option Text
  | .string t => some t
  | _ => none

/-- The value of a kind that a value of a document is, if it is one. -/
def Kind.ofToml? : (kind : Kind) → Toml.Value → Option kind.Value
  | .text, v => textOf? v
  | .path, v => (textOf? v).map fun t => some (Path.ofText t)
  | .texts, .array vs => vs.mapM textOf?
  | .texts, _ => none

/-- The named values of a table in a document; anything else has none. -/
def namedValues : Toml.Value → List (Text × Toml.Value)
  | .table es => es
  | _ => []

/-- The value that a document has for a field. -/
def Field.inDocument? (document : List (Text × Toml.Value)) (f : Field) : Option Toml.Value :=
  (document.lookup f.table.toList).bind fun v => (namedValues v).lookup f.name.toList

/-- The document gives values to fields, each one of the kind of its field. What else there is has
no name that leads into a section. -/
structure SetsFields (document : List (Text × Toml.Value)) : Prop where
  sections : ∀ e ∈ document, (e.1 ∈ sectionNames ∧ ∃ es, e.2 = .table es) ∨ IsForeign e.1
  fields : ∀ f : Field, ∀ v ∈ f.inDocument? document, (f.kind.ofToml? v).isSome = true

instance (name : Text) : Decidable (name ∈ sectionNames) :=
  decidable_of_iff (sectionNames.contains name = true) List.contains_iff_mem

instance : (v : Toml.Value) → Decidable (∃ es, v = .table es)
  | .table es => isTrue ⟨es, rfl⟩
  | .string _ | .integer _ | .float _ | .boolean _ | .datetime _ | .array _ => isFalse nofun

instance (document : List (Text × Toml.Value)) : Decidable (SetsFields document) :=
  decidable_of_iff
    ((∀ e ∈ document, (e.1 ∈ sectionNames ∧ ∃ es, e.2 = .table es) ∨ IsForeign e.1) ∧
      ∀ f : Field, ∀ v ∈ f.inDocument? document, (f.kind.ofToml? v).isSome = true)
    ⟨fun h => ⟨h.1, h.2⟩, fun h => ⟨h.sections, h.fields⟩⟩

variable {document : List (Text × Toml.Value)} {v : Toml.Value} {kind : Kind} {x : kind.Value}

lemma eq_string_of_textOf? {t : Text} (h : textOf? v = some t) : v = .string t := by
  cases v with
  | string s => rw [Option.some.inj h]
  | _ => cases h

lemma mapM_text?_ofValues {vs : List Toml.Value} {ts : List Text}
    (h : vs.mapM textOf? = some ts) : (ofValues vs).mapM text? = some ts := by
  induction vs generalizing ts with
  | nil => exact h
  | cons v vs ih =>
    rw [List.mapM_cons] at h
    obtain ⟨t, ht, h⟩ := Option.bind_eq_some_iff.mp h
    obtain ⟨rest, hrest, heq⟩ := Option.bind_eq_some_iff.mp h
    rw [eq_string_of_textOf? ht, ofValues, ofToml, List.mapM_cons, ih hrest]
    exact heq

/-- A value of the kind of its field is a leaf that is read as this value. -/
lemma Kind.read?_ofToml (h : kind.ofToml? v = some x) :
    IsLeaf (ofToml v) ∧ kind.read? (ofToml v) = some x := by
  cases kind with
  | text =>
    rw [eq_string_of_textOf? h]
    exact ⟨isLeaf_text x, rfl⟩
  | path =>
    obtain ⟨t, ht, rfl⟩ := Option.map_eq_some_iff.mp h
    rw [eq_string_of_textOf? ht]
    exact ⟨isLeaf_text t, rfl⟩
  | texts =>
    cases v with
    | array vs => exact ⟨isLeaf_list _, mapM_text?_ofValues h⟩
    | _ => cases h

lemma lookup_ofEntries (document : List (Text × Toml.Value)) (name : Text) :
    (ofEntries document).lookup name = (document.lookup name).map ofToml := by
  induction document with
  | nil => rfl
  | cons e document ih =>
    obtain ⟨k, v⟩ := e
    rw [ofEntries, lookup_cons_ite, lookup_cons_ite, ih]
    split_ifs <;> rfl

lemma names_ofEntries (document : List (Text × Toml.Value)) :
    (ofEntries document).map Prod.fst = document.map Prod.fst := by
  induction document with
  | nil => rfl
  | cons e document ih => rw [ofEntries, List.map_cons, List.map_cons, ih]

lemma Field.inDocument?_cons (f : Field) (e : Text × Toml.Value) :
    f.inDocument? (e :: document) = if f.table.toList = e.1 then
      (namedValues e.2).lookup f.name.toList else f.inDocument? document := by
  unfold inDocument?
  rw [lookup_cons_ite]
  split_ifs <;> rfl

/-- A section that comes first is not named again. -/
lemma Field.inDocument?_eq_none {f : Field} {e : Text × Toml.Value}
    (hnames : ((e :: document).map Prod.fst).Nodup) (hf : f.table.toList = e.1) :
    f.inDocument? document = none := by
  rw [inDocument?, lookup_eq_none_of_nodup_cons hnames hf]
  rfl

lemma SetsFields.tail {e : Text × Toml.Value} (h : SetsFields (e :: document))
    (hnames : ((e :: document).map Prod.fst).Nodup) : SetsFields document := by
  refine ⟨fun other hother => h.sections other (List.mem_cons_of_mem e hother), fun f v hv => ?_⟩
  refine h.fields f v ?_
  rw [f.inDocument?_cons, if_neg]
  · exact hv
  · intro hf
    rw [Field.inDocument?_eq_none hnames hf] at hv
    cases hv

/-- A document gives each field what it has for it. -/
theorem overlays_document (ht : t.IsSectioned) (hdistinct : (Toml.Value.table document).IsDistinct)
    (h : SetsFields document) :
    Overlays t (fun f => (f.inDocument? document).map ofToml) (add t (ofEntries document)) := by
  induction document generalizing t with
  | nil => exact .refl ht
  | cons e document ih =>
    obtain ⟨k, v⟩ := e
    cases hdistinct with | table hnames hvalues =>
    obtain ⟨hv, hvalues'⟩ := List.forall_mem_cons.mp hvalues
    have hrest : (Toml.Value.table document).IsDistinct :=
      .table (List.nodup_cons.mp hnames).2 hvalues'
    have htail := h.tail hnames
    rcases h.sections _ List.mem_cons_self with ⟨hk, es, rfl⟩ | hforeign
    · have hleaf : ∀ f : Field, f.table.toList = k → ∀ u,
          (ofEntries es).lookup f.name.toList = some u → IsLeaf u := by
        intro f hf u hu
        rw [lookup_ofEntries] at hu
        obtain ⟨w, hw, rfl⟩ := Option.map_eq_some_iff.mp hu
        obtain ⟨x, hx⟩ := Option.isSome_iff_exists.mp
          (h.fields f w (by rw [f.inDocument?_cons, if_pos hf]; exact hw))
        exact (Kind.read?_ofToml hx).1
      cases hv with | table hinner _ =>
      have hfirst := assign_section ht hk (names_ofEntries es ▸ hinner) hleaf
      refine (hfirst.trans (ih hfirst.isSectioned hrest htail)).congr fun f => ?_
      rw [f.inDocument?_cons]
      by_cases hf : f.table.toList = k
      · rw [if_pos hf, if_pos hf, Field.inDocument?_eq_none hnames hf, lookup_ofEntries]
        rfl
      · rw [if_neg hf, if_neg hf]
        cases f.inDocument? document <;> rfl
    · have hfirst := @assign_foreign _ (k, ofToml v) ht hforeign
      refine (hfirst.trans (ih hfirst.isSectioned hrest htail)).congr fun f => ?_
      have hne : f.table.toList ≠ k := fun hf => hforeign.not_mem (hf ▸ table_mem_sectionNames f)
      rw [f.inDocument?_cons, if_neg hne]
      cases f.inDocument? document <;> rfl

/-! ### The environment -/

/-- The name of the variable for a field: `JCK_EXTRACT__`, its section, two underscores and its
name, in capitals. -/
def Field.variableName (f : Field) : Text :=
  "JCK_EXTRACT__".toList ++ (f.table ++ "__" ++ f.name).toList.map Char.toUpper

/-- The environment gives values to fields that are texts or paths. What else it sets has no name
that leads into a section. -/
structure SetsVariables (environment : List (Text × Text)) : Prop where
  names : (environment.map Prod.fst).Nodup
  settings : ∀ e ∈ environment, ∀ name ∈ variableName? e.1,
    (∃ f : Field, f.kind ≠ .texts ∧ e.1 = f.variableName) ∨ IsForeign name

instance (environment : List (Text × Text)) : Decidable (SetsVariables environment) :=
  decidable_of_iff
    ((environment.map Prod.fst).Nodup ∧ ∀ e ∈ environment, ∀ name ∈ variableName? e.1,
      (∃ f : Field, f.kind ≠ .texts ∧ e.1 = f.variableName) ∨ IsForeign name)
    ⟨fun h => ⟨h.1, h.2⟩, fun h => ⟨h.names, h.settings⟩⟩

lemma variableName?_eq (f : Field) : variableName? f.variableName = some f.dotted := by
  revert f
  decide +kernel

lemma variableName_injective : Function.Injective Field.variableName := by
  intro f g h
  have hdotted : f.dotted = g.dotted :=
    Option.some.inj (by rw [← variableName?_eq, h, variableName?_eq])
  have hroute := congrArg route hdotted
  rw [route_dotted, route_dotted] at hroute
  injection hroute with _ hroute
  injection hroute with hname _
  injection hname with hname
  exact name_injective (String.toList_inj.mp hname)

lemma not_isForeign_dotted (f : Field) : ¬IsForeign f.dotted := by
  intro h
  exact h _ (table_mem_sectionNames f) (by rw [route_dotted]; rfl)

variable {environment : List (Text × Text)}

lemma variableLayer_cons (e : Text × Text) : variableLayer (e :: environment) =
    ((variableName? e.1).map fun name => (name, text e.2)).toList ++ variableLayer environment := by
  obtain ⟨name, value⟩ := e
  rw [variableLayer, List.filterMap_cons]
  dsimp only
  cases variableName? name <;> rfl

/-- The environment gives each field the value of its variable. -/
theorem overlays_variables (ht : t.IsSectioned) (h : SetsVariables environment) :
    Overlays t (fun f => (environment.lookup f.variableName).map text)
      (add t (variableLayer environment)) := by
  induction environment generalizing t with
  | nil => exact .refl ht
  | cons e environment ih =>
    have htail : SetsVariables environment := ⟨(List.nodup_cons.mp h.names).2,
      fun other hother => h.settings other (List.mem_cons_of_mem e hother)⟩
    have hother : ∀ f : Field, f.variableName ≠ e.1 →
        (((e :: environment).lookup f.variableName).map text) =
          (environment.lookup f.variableName).map text := by
      intro f hf
      rw [lookup_cons_ite, if_neg hf]
    rw [variableLayer_cons]
    cases hname : variableName? e.1 with
    | none =>
      refine (ih ht htail).congr fun f => (hother f fun hf => ?_).symm
      rw [← hf, variableName?_eq] at hname
      cases hname
    | some name =>
      rcases h.settings e List.mem_cons_self name hname with ⟨f, -, hf⟩ | hforeign
      · rw [hf, variableName?_eq] at hname
        cases hname
        have hfirst := assign_field ht (isLeaf_text e.2) f
        refine (hfirst.trans (ih hfirst.isSectioned htail)).congr fun g => ?_
        by_cases hg : g = f
        · rw [if_pos hg, lookup_eq_none_of_nodup_cons h.names (by rw [hg, hf]), lookup_cons_ite,
            if_pos (by rw [hg, hf])]
          rfl
        · rw [if_neg hg, hother g fun heq => hg (variableName_injective (heq.trans hf))]
          cases environment.lookup g.variableName <;> rfl
      · have hfirst := @assign_foreign _ (name, text e.2) ht hforeign
        refine (hfirst.trans (ih hfirst.isSectioned htail)).congr fun f => ?_
        rw [hother f]
        · cases environment.lookup f.variableName <;> rfl
        · intro hf
          rw [← hf, variableName?_eq] at hname
          cases hname
          exact not_isForeign_dotted f hforeign

end Settings

end Excerpt
