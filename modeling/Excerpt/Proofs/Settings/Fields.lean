import Excerpt.Proofs.Named
import Excerpt.Settings.Decode
import Excerpt.Settings.Load
import Mathlib.Data.Fintype.Pi

/-!
# Fields of the settings

The settings have fifteen fields of three kinds, in three sections. A tree of settings has at most
one leaf for each of them. `ofTree?_eq` says that a tree whose leaves can be read as what their
fields are is read field by field: a field is its leaf, or its default where it has none.
-/

namespace Excerpt

namespace Settings

/-- What a field is: a text, a path that may be missing, or a list of texts. -/
inductive Kind where
  | text
  | path
  | texts
  deriving DecidableEq, Repr

/-- The values of a kind of field. -/
def Kind.Value : Kind → Type
  | .text => Text
  | .path => Option Path
  | .texts => List Text

instance : (kind : Kind) → DecidableEq kind.Value
  | .text => inferInstanceAs (DecidableEq Text)
  | .path => inferInstanceAs (DecidableEq (Option Path))
  | .texts => inferInstanceAs (DecidableEq (List Text))

/-- Reads a leaf as a value of a kind. -/
def Kind.read? : (kind : Kind) → Tree → Option kind.Value
  | .text => Tree.text?
  | .path => Tree.path?
  | .texts => Tree.texts?

/-- A field of the settings. -/
inductive Field where
  | srcDir | testsDir | nativeDir | moduleStart | moduleEnd | moduleDescriptor
  | sourceExt | nativeExt | scriptExt | descriptorExt | ignore
  | javac | extraArgs
  | launcherPattern | classPattern
  deriving DecidableEq, Repr

instance : Fintype Field where
  elems := {.srcDir, .testsDir, .nativeDir, .moduleStart, .moduleEnd, .moduleDescriptor,
    .sourceExt, .nativeExt, .scriptExt, .descriptorExt, .ignore, .javac, .extraArgs,
    .launcherPattern, .classPattern}
  complete f := by cases f <;> decide

namespace Field

/-- The name of the section that a field stands in. -/
def table : Field → String
  | javac | extraArgs => "oracle"
  | launcherPattern | classPattern => "script"
  | _ => "layout"

/-- The name of a field in its section. -/
def name : Field → String
  | srcDir => "src_dir"
  | testsDir => "tests_dir"
  | nativeDir => "native_dir"
  | moduleStart => "module_prefix"
  | moduleEnd => "module_suffix"
  | moduleDescriptor => "module_descriptor"
  | sourceExt => "source_ext"
  | nativeExt => "native_ext"
  | scriptExt => "script_ext"
  | descriptorExt => "descriptor_ext"
  | ignore => "ignore"
  | javac => "javac"
  | extraArgs => "extra_args"
  | launcherPattern => "launcher_pattern"
  | classPattern => "class_pattern"

/-- The kind of a field. -/
def kind : Field → Kind
  | ignore | extraArgs => .texts
  | javac => .path
  | _ => .text

/-- The value of a field. -/
def get : (f : Field) → Settings → f.kind.Value
  | srcDir, s => s.layout.srcDir
  | testsDir, s => s.layout.testsDir
  | nativeDir, s => s.layout.nativeDir
  | moduleStart, s => s.layout.moduleStart
  | moduleEnd, s => s.layout.moduleEnd
  | moduleDescriptor, s => s.layout.moduleDescriptor
  | sourceExt, s => s.layout.sourceExt
  | nativeExt, s => s.layout.nativeExt
  | scriptExt, s => s.layout.scriptExt
  | descriptorExt, s => s.layout.descriptorExt
  | ignore, s => s.layout.ignore
  | javac, s => s.oracle.javac
  | extraArgs, s => s.oracle.extraArgs
  | launcherPattern, s => s.script.launcherPattern
  | classPattern, s => s.script.classPattern

end Field

/-- The settings whose fields have some values. -/
def ofFields (value : ∀ f : Field, f.kind.Value) : Settings where
  layout :=
    { srcDir := value .srcDir
      testsDir := value .testsDir
      nativeDir := value .nativeDir
      moduleStart := value .moduleStart
      moduleEnd := value .moduleEnd
      moduleDescriptor := value .moduleDescriptor
      sourceExt := value .sourceExt
      nativeExt := value .nativeExt
      scriptExt := value .scriptExt
      descriptorExt := value .descriptorExt
      ignore := value .ignore }
  oracle :=
    { javac := value .javac
      extraArgs := value .extraArgs }
  script :=
    { launcherPattern := value .launcherPattern
      classPattern := value .classPattern }

lemma get_ofFields (value : ∀ f : Field, f.kind.Value) (f : Field) :
    f.get (ofFields value) = value f := by
  cases f <;> rfl

lemma table_mem_sectionNames (f : Field) : f.table.toList ∈ sectionNames := by
  cases f <;> decide

lemma name_injective : Function.Injective Field.name := by
  decide +kernel

/-! ### Leaves -/

/-- A tree in which the sections that it has are tables. -/
def Tree.IsSectioned (t : Tree) : Prop :=
  ∃ es, t = .table es ∧
    ∀ name ∈ sectionNames, ∀ u, es.lookup name = some u → ∃ inner, u = .table inner

/-- What a tree has for a field. -/
def Tree.leaf? (t : Tree) (f : Field) : Option Tree :=
  (Tree.child t.entries f.table.toList).entries.lookup f.name.toList

/-- The value that the leaf of a field gives it; its default where it has none. -/
def Tree.value (t : Tree) (f : Field) : f.kind.Value :=
  ((t.leaf? f).bind f.kind.read?).getD (f.get .default)

/-- The leaf of a field can be read as what the field is. -/
def Tree.IsReadable (t : Tree) (f : Field) : Prop :=
  ∀ u, t.leaf? f = some u → (f.kind.read? u).isSome = true

variable {t : Tree} {es : Layer} {name : String} {value : ∀ f : Field, f.kind.Value}

/-! ### Reading sections -/

namespace Tree

/-- A section that is missing is read like an empty one. -/
lemma Group.get?_section {α : Type} {default : α} (read : Tree → Option α)
    (hes : ∀ u, es.lookup name.toList = some u → ∃ inner, u = .table inner)
    (hread : read (.table []) = some default) :
    Group.get? (fun name => es.lookup name) read name default =
      read (.table (child es name.toList).entries) := by
  cases hlookup : es.lookup name.toList with
  | none =>
    simp only [Group.get?, child, hlookup]
    exact hread.symm
  | some u =>
    obtain ⟨inner, rfl⟩ := hes u hlookup
    simp only [Group.get?, child, hlookup]
    rfl

lemma Group.get?_field {f : Field} (hread : t.IsReadable f) (hf : f.table = name) :
    Group.get? (fun n => (child t.entries name.toList).entries.lookup n) f.kind.read? f.name
      (f.get .default) = some (t.value f) := by
  subst hf
  unfold IsReadable leaf? at hread
  unfold Tree.value leaf?
  cases hlookup : (child t.entries f.table.toList).entries.lookup f.name.toList with
  | none =>
    simp only [Group.get?, hlookup]
    rfl
  | some u =>
    obtain ⟨x, hx⟩ := Option.isSome_iff_exists.mp (hread u hlookup)
    simp only [Group.get?, hlookup, hx, Option.bind_some, Option.getD_some]

end Tree

/-- The section gives its fields these values. -/
def Gives (es : Layer) (name : String) (value : ∀ f : Field, f.kind.Value) : Prop :=
  ∀ f : Field, f.table = name →
    Tree.Group.get? (fun n => es.lookup n) f.kind.read? f.name (f.get .default) = some (value f)

lemma layout?_table (h : Gives es "layout" value) :
    layout? (.table es) = some (ofFields value).layout := by
  refine Option.bind_eq_some_iff.mpr ⟨_, h .srcDir rfl, ?_⟩
  refine Option.bind_eq_some_iff.mpr ⟨_, h .testsDir rfl, ?_⟩
  refine Option.bind_eq_some_iff.mpr ⟨_, h .nativeDir rfl, ?_⟩
  refine Option.bind_eq_some_iff.mpr ⟨_, h .moduleStart rfl, ?_⟩
  refine Option.bind_eq_some_iff.mpr ⟨_, h .moduleEnd rfl, ?_⟩
  refine Option.bind_eq_some_iff.mpr ⟨_, h .moduleDescriptor rfl, ?_⟩
  refine Option.bind_eq_some_iff.mpr ⟨_, h .sourceExt rfl, ?_⟩
  refine Option.bind_eq_some_iff.mpr ⟨_, h .nativeExt rfl, ?_⟩
  refine Option.bind_eq_some_iff.mpr ⟨_, h .scriptExt rfl, ?_⟩
  refine Option.bind_eq_some_iff.mpr ⟨_, h .descriptorExt rfl, ?_⟩
  exact Option.bind_eq_some_iff.mpr ⟨_, h .ignore rfl, rfl⟩

lemma compiler?_table (h : Gives es "oracle" value) :
    compiler? (.table es) = some (ofFields value).oracle := by
  refine Option.bind_eq_some_iff.mpr ⟨_, h .javac rfl, ?_⟩
  exact Option.bind_eq_some_iff.mpr ⟨_, h .extraArgs rfl, rfl⟩

lemma script?_table (h : Gives es "script" value) :
    script? (.table es) = some (ofFields value).script := by
  refine Option.bind_eq_some_iff.mpr ⟨_, h .launcherPattern rfl, ?_⟩
  exact Option.bind_eq_some_iff.mpr ⟨_, h .classPattern rfl, rfl⟩

/-- A tree in which every leaf of a field can be read is read field by field. -/
theorem ofTree?_eq (ht : t.IsSectioned) (hread : ∀ f, t.IsReadable f) :
    ofTree? t = some (ofFields t.value) := by
  obtain ⟨es, rfl, hes⟩ := ht
  have hgives (name : String) :
      Gives (Tree.child es name.toList).entries name (Tree.table es).value :=
    fun f hf => Tree.Group.get?_field (hread f) hf
  have hlayout := (Tree.Group.get?_section layout? (hes _ (by decide)) rfl).trans
    (layout?_table (hgives "layout"))
  have horacle := (Tree.Group.get?_section compiler? (hes _ (by decide)) rfl).trans
    (compiler?_table (hgives "oracle"))
  have hscript := (Tree.Group.get?_section script? (hes _ (by decide)) rfl).trans
    (script?_table (hgives "script"))
  refine Option.bind_eq_some_iff.mpr ⟨_, hlayout, ?_⟩
  refine Option.bind_eq_some_iff.mpr ⟨_, horacle, ?_⟩
  exact Option.bind_eq_some_iff.mpr ⟨_, hscript, rfl⟩

end Settings

end Excerpt
