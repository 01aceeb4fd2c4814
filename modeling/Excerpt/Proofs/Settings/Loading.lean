import Excerpt.Proofs.Settings.Layers
import Excerpt.Proofs.Store.WellFormed

/-!
# Loading settings field by field

A settings file and the environment are two layers over the defaults. `load_fieldwise` says that
each field comes from the uppermost of them that has it: it is the value of its variable, or else
what the settings file says, or else its default.
-/

namespace Excerpt

namespace Settings

open Excerpt.Settings.Tree

variable {s : Store} {dir p : Path} {content : Bytes} {document : List (Text × Toml.Value)}
  {environment : List (Text × Text)}

/-- What the settings files of a directory say. Where the preferred one exists, the other one is not
looked at, and where none exists, nothing is said. -/
inductive Says (s : Store) (dir : Path) : List (Text × Toml.Value) → Prop where
  | nothing : s.exists (dir.joinText fileName) = false →
      s.exists (dir.joinText ('.' :: fileName)) = false → Says s dir []
  | preferred {content : Bytes} {document : List (Text × Toml.Value)} :
      s.read (dir.joinText fileName) = .ok content →
      Toml.parse? (Utf8.lossy (dropMark content)) = some document → Says s dir document
  | hidden {content : Bytes} {document : List (Text × Toml.Value)} :
      s.exists (dir.joinText fileName) = false →
      s.read (dir.joinText ('.' :: fileName)) = .ok content →
      Toml.parse? (Utf8.lossy (dropMark content)) = some document → Says s dir document

/-- What is given for a field: the text of its variable, or else what the document has for it. -/
def Field.given? (environment : List (Text × Text)) (document : List (Text × Toml.Value))
    (f : Field) : Option Toml.Value :=
  (environment.lookup f.variableName).map .string <|> f.inDocument? document

/-- A file that can be read exists, and its document is its layer. -/
lemma fileLayer?_of_read (h : s.read p = .ok content)
    (hparse : Toml.parse? (Utf8.lossy (dropMark content)) = some document) :
    s.exists p = true ∧ fileLayer? s p = some (ofEntries document) := by
  obtain ⟨l, node, hfind, hfile⟩ := Store.file_of_read h
  have hnode : s.node? p = some node := by
    rw [Store.node?, hfind]
  constructor
  · rw [Store.exists, hnode]
    rfl
  · have hisFile : s.isFile p = true := by
      rw [Store.isFile, hnode]
      exact hfile
    rw [fileLayer?, readable?]
    simp only [hisFile, if_true, Option.bind_some, h, documentLayer?, hparse, Option.map_some]

/-- The document is the lower layer, and the environment is the upper one. -/
lemma load_eq (h : Says s dir document) : load s environment dir =
    ofLayers [ofEntries document, variableLayer environment] := by
  cases h with
  | nothing hfirst hsecond =>
    have hnone : fileIn? s dir = none := by
      simp [fileIn?, fileNames, hfirst, hsecond]
    rw [load, hnone]
    rfl
  | preferred hread hparse =>
    obtain ⟨hexists, hlayer⟩ := fileLayer?_of_read hread hparse
    have hfile : fileIn? s dir = some (dir.joinText fileName) := by
      simp [fileIn?, fileNames, hexists]
    rw [load, hfile]
    simp only [hlayer]
  | hidden hfirst hread hparse =>
    obtain ⟨hexists, hlayer⟩ := fileLayer?_of_read hread hparse
    have hfile : fileIn? s dir = some (dir.joinText ('.' :: fileName)) := by
      simp [fileIn?, fileNames, hfirst, hexists]
    rw [load, hfile]
    simp only [hlayer]

lemma Says.isDistinct (h : Says s dir document) : (Toml.Value.table document).IsDistinct := by
  cases h with
  | nothing => exact .table List.nodup_nil nofun
  | preferred _ hparse => exact Toml.isDistinct_of_parse? hparse
  | hidden _ _ hparse => exact Toml.isDistinct_of_parse? hparse

/-- No variable gives a list of texts, so the text of a variable is a value of its field. -/
lemma SetsVariables.isSome (h : SetsVariables environment) {f : Field} {value : Text}
    (hvalue : environment.lookup f.variableName = some value) :
    (f.kind.ofToml? (.string value)).isSome = true := by
  rcases h.settings _ (mem_of_lookup hvalue) _ (variableName?_eq f) with ⟨g, hkind, hg⟩ | hforeign
  · rw [← variableName_injective hg] at hkind
    cases hf : f.kind with
    | texts => exact absurd hf hkind
    | _ => rfl
  · exact absurd hforeign (not_isForeign_dotted f)

/-- What is given for a field is a value of it. -/
lemma Field.isSome_of_given? {f : Field} {v : Toml.Value} (hdocument : SetsFields document)
    (hvariables : SetsVariables environment) (hv : f.given? environment document = some v) :
    (f.kind.ofToml? v).isSome = true := by
  rw [given?] at hv
  cases hvalue : environment.lookup f.variableName with
  | none =>
    rw [hvalue] at hv
    exact hdocument.fields f v hv
  | some value =>
    rw [hvalue] at hv
    cases hv
    exact hvariables.isSome hvalue

/-- Settings are loaded, and each field has the value that is given for it, by its variable or else
by the settings file, or its default if there is none, whatever is given for the other fields. -/
theorem load_fieldwise (hfile : Says s dir document) (hdocument : SetsFields document)
    (hvariables : SetsVariables environment) :
    ∃ settings, load s environment dir = .ok settings ∧ ∀ f : Field,
      (∀ v, f.given? environment document = some v → f.kind.ofToml? v = some (f.get settings)) ∧
      (f.given? environment document = none → f.get settings = f.get .default) := by
  have hempty : (table []).IsSectioned := ⟨[], rfl, nofun⟩
  have hlower := overlays_document hempty hfile.isDistinct hdocument
  have hupper := hlower.trans (overlays_variables hlower.isSectioned hvariables)
  set t := add (add (table []) (ofEntries document)) (variableLayer environment)
  have hleaf : ∀ f : Field, t.leaf? f = (f.given? environment document).map ofToml := by
    intro f
    rw [hupper.leaf?_eq, Field.given?]
    cases environment.lookup f.variableName <;> cases f.inDocument? document <;> rfl
  have hread : ∀ f, t.IsReadable f := by
    intro f u hu
    rw [hleaf] at hu
    obtain ⟨v, hv, rfl⟩ := Option.map_eq_some_iff.mp hu
    obtain ⟨x, hx⟩ := Option.isSome_iff_exists.mp (f.isSome_of_given? hdocument hvariables hv)
    rw [(Kind.read?_ofToml hx).2]
    rfl
  have hload : load s environment dir = .ok (ofFields t.value) := by
    have htree : Tree.ofLayers [ofEntries document, variableLayer environment] = t := rfl
    rw [load_eq hfile, Settings.ofLayers, htree, ofTree?_eq hupper.isSectioned hread]
  refine ⟨_, hload, fun f => ⟨fun v hv => ?_, fun hnone => ?_⟩⟩
  · obtain ⟨x, hx⟩ := Option.isSome_iff_exists.mp (f.isSome_of_given? hdocument hvariables hv)
    rw [get_ofFields, Tree.value, hleaf, hv, Option.map_some, Option.bind_some,
      (Kind.read?_ofToml hx).2]
    exact hx
  · rw [get_ofFields, Tree.value, hleaf, hnone]
    rfl

/-- A document with some fields of two sections. -/
def partialContent : Bytes :=
  Utf8.encode "[layout]\nscript_ext = \"sh\"\nignore = [\"**/SCCS\"]\n".toList ++
    Utf8.encode "[oracle]\njavac = \"/opt/jdk/bin/javac\"\n".toList

/-- The values of this document. -/
def partialDocument : List (Text × Toml.Value) :=
  (Toml.parse? (Utf8.lossy (dropMark partialContent))).getD []

/-- A directory with both settings files, of which the one that is not preferred is no document. -/
def layeredStore : Store where
  entries := [(Store.locationOf ["w"], .dir),
    (Store.locationOf ["w", "jck-extract.toml"], .file partialContent 0o644 ⟨1, 0⟩),
    (Store.locationOf ["w", ".jck-extract.toml"], .file [63] 0o644 ⟨2, 0⟩)]
  cwd := []
  clock := ⟨9, 0⟩

/-- An environment that sets a field of the document and another one. -/
def layeredEnvironment : List (Text × Text) :=
  [("PATH".toList, "/bin".toList), ("JCK_EXTRACT__LAYOUT__SCRIPT_EXT".toList, "bash".toList),
    ("JCK_EXTRACT__SCRIPT__CLASS_PATTERN".toList, "[A-Z]+".toList)]

theorem load_layeredStore :
    ∃ settings, load layeredStore layeredEnvironment (.ofText "/w".toList) = .ok settings ∧
      settings.layout.scriptExt = "bash".toList ∧ settings.layout.ignore = ["**/SCCS".toList] ∧
      settings.oracle.javac = some (.ofText "/opt/jdk/bin/javac".toList) ∧
      settings.script.classPattern = "[A-Z]+".toList ∧ settings.layout.srcDir = "src".toList := by
  have hparse : Toml.parse? (Utf8.lossy (dropMark partialContent)) = some partialDocument := by
    have hsome : (Toml.parse? (Utf8.lossy (dropMark partialContent))).isSome = true := by
      decide +kernel
    obtain ⟨document, hdocument⟩ := Option.isSome_iff_exists.mp hsome
    rw [partialDocument, hdocument]
    rfl
  have hfile : Says layeredStore (.ofText "/w".toList) partialDocument :=
    .preferred (by decide +kernel) hparse
  have hvariables : SetsVariables layeredEnvironment := by decide +kernel
  obtain ⟨settings, hload, hfields⟩ := load_fieldwise hfile (by decide +kernel) hvariables
  have hget : ∀ (f : Field) (x : f.kind.Value),
      (f.given? layeredEnvironment partialDocument).bind f.kind.ofToml? = some x →
        f.get settings = x := by
    intro f x hx
    obtain ⟨v, hv, hvx⟩ := Option.bind_eq_some_iff.mp hx
    exact Option.some.inj (((hfields f).1 v hv).symm.trans hvx)
  have hsrcDir : Field.given? layeredEnvironment partialDocument .srcDir = none :=
    Option.isNone_iff_eq_none.mp (by decide +kernel)
  exact ⟨settings, hload, hget .scriptExt _ (by decide +kernel), hget .ignore _ (by decide +kernel),
    hget .javac _ (by decide +kernel), hget .classPattern _ (by decide +kernel),
    (hfields .srcDir).2 hsrcDir⟩

end Settings

end Excerpt
