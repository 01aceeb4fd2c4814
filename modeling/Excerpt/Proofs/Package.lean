import Excerpt.Package
import Excerpt.Proofs.Path.Texts
import Excerpt.Proofs.Pattern.Groups
import Mathlib.Data.List.Basic

/-!
# What a package can be called

The pattern for package declarations captures only letters, digits and some signs, and slashes are
not among them. So the directory of a package is a chain of plain names without dots: no file that
is read can make it leave the tree that it is put into.
-/

namespace Excerpt

namespace Package

/-- The characters of package names. -/
def nameChars : CharSet := ⟨[(36, 36), (45, 46), (48, 57), (65, 90), (95, 95), (97, 122)]⟩

lemma scanner_careful {sc : Scanner} (h : scanner = .ok sc) :
    sc.capture.after? nameChars false = some false ∧ sc.groupIndex = 1 := by
  have hscanner : (match scanner with
      | .ok sc => sc.capture.after? nameChars false == some false && sc.groupIndex == 1
      | .error _ => false) = true := by
    decide +kernel
  rw [h] at hscanner
  simpa using hscanner

/-- What a file declares is written with the characters of package names. -/
lemma of_ofFile_eq_some {s : Store} {sc : Scanner} {file : Path} {name : Text}
    (hsc : scanner = .ok sc) (h : ofFile s sc file = .ok (some name)) :
    (∃ content, s.read file = .ok content) ∧ ∀ c ∈ name, nameChars.contains c = true := by
  obtain ⟨hcareful, hgroup⟩ := scanner_careful hsc
  unfold ofFile at h
  split at h
  · cases h
  · rename_i content hread
    refine ⟨⟨content, hread⟩, ?_⟩
    have hname : sc.firstCapture? content = some name := by simpa using h
    unfold Scanner.firstCapture? Scanner.captures at hname
    obtain ⟨line, -, hline⟩ := List.mem_flatMap.mp (List.mem_of_head? hname)
    obtain ⟨m, hm, hcapture⟩ := List.mem_filterMap.mp hline
    rw [hgroup] at hcapture
    exact Pattern.group?_of_mem_matchesIn hcareful hm hcapture

lemma not_slash_of_mem {c : Char} (h : nameChars.contains c = true) : c ≠ '/' := by
  rintro rfl
  exact absurd h (by decide)

lemma ne_nul_of_mem {c : Char} (h : nameChars.contains c = true) : c.toNat ≠ 0 := by
  intro hc
  have : c = Char.ofNat 0 := Char.ext (UInt32.toNat_inj.mp hc)
  rw [this] at h
  exact absurd h (by decide)

/-- The segments of a package name are neither empty nor dotted. -/
lemma of_mem_segments {name seg : Text} (hname : ∀ c ∈ name, nameChars.contains c = true)
    (h : seg ∈ segments name) :
    seg ≠ [] ∧ '.' ∉ seg ∧ ∀ c ∈ seg, nameChars.contains c = true := by
  obtain ⟨hmem, hne⟩ := List.mem_filter.mp h
  refine ⟨by simpa using hne, fun hd => ?_, fun c hc => hname c (Text.of_mem_splitOn hmem _ hc).1⟩
  simpa using (Text.of_mem_splitOn hmem _ hd).2

/-- A name without a dot. -/
def IsPlainName (n : Bytes) : Prop := Path.IsName n ∧ Path.dot ∉ n

lemma segmentComponent?_encode {seg : Text} (hne : seg ≠ []) (hdot : '.' ∉ seg) :
    Path.segmentComponent? (Utf8.encode seg) = some (.name (Utf8.encode seg)) := by
  have hbytes := Path.dot_notMem_encode hdot
  simp only [Path.segmentComponent?]
  rw [if_neg, if_neg]
  · intro he
    rw [he] at hbytes
    exact hbytes (by simp)
  · rintro (he | he)
    · exact hne (Utf8.encode_eq_nil.mp he)
    · rw [he] at hbytes
      exact hbytes (by simp)

/-- The names of the directories that a package belongs into. -/
def dirs (name : Text) : Location := (segments name).map Utf8.encode

lemma isPlainName_of_mem_dirs {name : Text} (hname : ∀ c ∈ name, nameChars.contains c = true)
    {n : Bytes} (h : n ∈ dirs name) : IsPlainName n := by
  obtain ⟨seg, hseg, rfl⟩ := List.mem_map.mp h
  obtain ⟨hne, hdot, hchars⟩ := of_mem_segments hname hseg
  have hslash : '/' ∉ seg := fun hs => not_slash_of_mem (hchars _ hs) rfl
  exact ⟨⟨segmentComponent?_encode hne hdot, Path.slash_notMem_encode hslash⟩,
    Path.dot_notMem_encode hdot⟩

lemma noNul_of_mem_dirs {name : Text} (hname : ∀ c ∈ name, nameChars.contains c = true)
    {n : Bytes} (h : n ∈ dirs name) : (0 : UInt8) ∉ n := by
  obtain ⟨seg, hseg, rfl⟩ := List.mem_map.mp h
  intro hnul
  obtain ⟨c, hc, he⟩ := Utf8.exists_of_mem_encode hnul (by decide)
  exact ne_nul_of_mem ((of_mem_segments hname hseg).2.2 c hc) he

lemma slash_notMem_segments {name : Text} (hname : ∀ c ∈ name, nameChars.contains c = true) :
    ∀ seg ∈ segments name, '/' ∉ seg :=
  fun _ hseg hs => not_slash_of_mem ((of_mem_segments hname hseg).2.2 _ hs) rfl

lemma isAbsolute_relativeDir {name : Text} (hname : ∀ c ∈ name, nameChars.contains c = true) :
    (relativeDir name).isAbsolute = false := by
  rw [relativeDir, Path.isAbsolute_foldl_joinText _ _ (slash_notMem_segments hname)]
  rfl

/-- The directory of a package is a chain of names. -/
theorem steps_relativeDir {name : Text} (hname : ∀ c ∈ name, nameChars.contains c = true) :
    (relativeDir name).steps = (dirs name).map .name := by
  rw [relativeDir, Path.steps_foldl_joinText _ _ (slash_notMem_segments hname), dirs, List.map_map,
    List.map_eq_flatMap]
  refine (List.nil_append _).trans (List.flatMap_congr fun seg hseg => ?_)
  obtain ⟨hne, hdot, -⟩ := of_mem_segments hname hseg
  rw [segmentComponent?_encode hne hdot]
  rfl

end Package

end Excerpt
