import Excerpt.Proofs.Text.Ends
import Excerpt.Trace.Event

/-!
# Reading what a compiler prints

A compiler announces that it opens a file in a line with two layers of brackets and no escaping.
The brackets are found whatever the names are, since the outer ones stand at the ends of the line
and the inner ones at the ends of what they enclose. The colon between the directory of a search
path and the rest is not: the last one is taken, so a rest with a colon is cut in the wrong place.
`parse_line` says what is read in each case.
-/

namespace Excerpt

/-! ### The printer -/

/-- The events that open files. -/
inductive Opening where
  | parsingStarted
  | loading
  deriving DecidableEq, Repr

/-- A file in the words of a compiler. A file of a search path is named by the directory of the
search path and the rest. -/
inductive Printed where
  | regular (p : Text)
  | simple (p : Text)
  | directory (root rest : Text)
  deriving DecidableEq, Repr

namespace Opening

/-- The words that start the event. -/
def words : Opening → Text
  | parsingStarted => TraceEvent.parsingWords
  | loading => TraceEvent.loadingWords

/-- The event. -/
def event : Opening → FileObject → TraceEvent
  | parsingStarted => .parsingStarted
  | loading => .loading

end Opening

namespace Printed

/-- The kind of the file. -/
def kind : Printed → Text
  | regular _ => "RegularFileObject".toList
  | simple _ => "SimpleFileObject".toList
  | directory .. => "DirectoryFileObject".toList

/-- What stands between the brackets of the file. -/
def inner : Printed → Text
  | regular p | simple p => p
  | directory root rest => root ++ ':' :: rest

/-- The line that announces the file. -/
def line (v : Opening) (o : Printed) : Text :=
  '[' :: (v.words ++ (o.kind ++ '[' :: o.inner ++ [']'])) ++ [']']

/-- The file that is meant. -/
def object : Printed → FileObject
  | regular p => .regular (Path.ofText p)
  | simple p => .simple (Path.ofText p)
  | directory root rest => .directory (Path.ofText root) (Path.ofText rest)

/-- The file that is read: the colons of the rest, apart from the last one, go to the directory. -/
def readAs : Printed → FileObject
  | directory root rest =>
    ((Text.cutLast? (· == ':') rest).map fun parts =>
      .directory (Path.ofText (root ++ ':' :: parts.1)) (Path.ofText parts.2)).getD
      (directory root rest).object
  | o => o.object

/-- Whether the rest of a file of a search path has no colon. -/
def RestHasNoColon : Printed → Prop
  | directory _ rest => ':' ∉ rest
  | _ => True

end Printed

/-! ### The reader -/

namespace FileObject

/-- Words of a kind with something in brackets behind it are split there. -/
lemma splitKind?_append {kind : Text} (hne : kind ≠ []) (hkind : kind.all Char.isAlphanum = true)
    (inner : Text) : splitKind? (kind ++ '[' :: inner ++ [']']) = some (kind, inner) := by
  have hopen : ∀ c ∈ kind, (c == '[') = false := by
    intro c hc
    rw [beq_eq_false_iff_ne]
    rintro rfl
    exact absurd (List.all_eq_true.mp hkind _ hc) (by decide)
  rw [splitKind?, List.append_assoc, List.cons_append,
    Text.cutFirst?_append_cons hopen (by rfl)]
  simp [hne, hkind]

/-- The colon that is taken is the last one. -/
lemma cutLast?_directory (root rest : Text) :
    (Text.cutLast? (· == ':') (root ++ ':' :: rest)).map
      (fun parts => directory (Path.ofText parts.1) (Path.ofText parts.2)) =
    some (Printed.directory root rest).readAs := by
  cases hcut : Text.cutLast? (· == ':') rest with
  | none =>
    rw [Text.cutLast?_append_cons (Text.of_cutLast?_eq_none hcut) (by rfl), Printed.readAs, hcut]
    rfl
  | some parts =>
    obtain ⟨before, after⟩ := parts
    obtain ⟨c, hc, hrest⟩ := Text.of_cutLast?_eq_some hcut
    have hsplit : root ++ ':' :: rest = (root ++ ':' :: before) ++ c :: after := by
      rw [hrest, List.append_assoc, List.cons_append]
    rw [hsplit, Text.cutLast?_append_cons (Text.forall_of_cutLast? hcut) hc, Printed.readAs, hcut]
    rfl

lemma kind_ne_nil (o : Printed) : o.kind ≠ [] := by
  cases o <;> exact List.cons_ne_nil _ _

lemma all_kind (o : Printed) : o.kind.all Char.isAlphanum = true := by
  cases o <;> rfl

lemma trim_words (o : Printed) :
    Text.trim (o.kind ++ '[' :: o.inner ++ [']']) = o.kind ++ '[' :: o.inner ++ [']'] := by
  cases o <;> exact Text.trim_of_ends (by decide) (by decide) _

/-- A file is read from its words. -/
lemma parse?_words (o : Printed) : parse? (o.kind ++ '[' :: o.inner ++ [']']) = some o.readAs := by
  have hne : (o.kind ++ '[' :: o.inner ++ [']']).isEmpty = false := by
    rw [List.isEmpty_eq_false_iff]
    simp
  rw [parse?, trim_words]
  simp only [hne, Bool.false_eq_true, if_false, splitKind?_append (kind_ne_nil o) (all_kind o)]
  clear hne
  cases o with
  | regular p =>
    have hkind : (Printed.regular p).kind = "RegularFileObject".toList := rfl
    rw [if_pos hkind]
    rfl
  | simple p =>
    have hkind : (Printed.simple p).kind = "SimpleFileObject".toList := rfl
    rw [if_neg (by rw [hkind]; decide), if_pos hkind]
    rfl
  | directory root rest =>
    have hkind : (Printed.directory root rest).kind = "DirectoryFileObject".toList := rfl
    rw [if_neg (by rw [hkind]; decide), if_neg (by rw [hkind]; decide), if_pos hkind]
    exact cutLast?_directory root rest

end FileObject

namespace Printed

/-- A directory whose name goes on with a colon is another directory. -/
lemma directory_ne (root before : Text) (p q : Path) :
    FileObject.directory (Path.ofText (root ++ ':' :: before)) p ≠
      .directory (Path.ofText root) q := by
  intro h
  injection h with hbase
  have hlen := congrArg (fun p : Path => p.bytes.length) hbase
  simp only [Path.ofText, Utf8.encode, List.flatMap_append, List.flatMap_cons,
    List.length_append] at hlen
  have hcolon : (Utf8.encodeChar ':').length = 1 := by decide
  omega

/-- What is read is what is meant unless the rest has a colon. -/
lemma readAs_eq_object_iff (o : Printed) : o.readAs = o.object ↔ o.RestHasNoColon := by
  cases o with
  | regular p => exact ⟨fun _ => trivial, fun _ => rfl⟩
  | simple p => exact ⟨fun _ => trivial, fun _ => rfl⟩
  | directory root rest =>
    rw [readAs, RestHasNoColon]
    cases hcut : Text.cutLast? (· == ':') rest with
    | none =>
      refine ⟨fun _ hmem => ?_, fun _ => rfl⟩
      exact absurd (Text.of_cutLast?_eq_none hcut _ hmem) (by decide)
    | some parts =>
      obtain ⟨c, hc, hrest⟩ := Text.of_cutLast?_eq_some hcut
      have hmem : ':' ∈ rest := by
        rw [hrest, beq_iff_eq.mp hc]
        simp
      exact ⟨fun h => absurd h (directory_ne root parts.1 _ _), fun h => absurd hmem h⟩

end Printed

namespace TraceEvent

lemma ofBody_words (v : Opening) (t : Text) :
    ofBody (v.words ++ t) = ((FileObject.parse? t).map v.event).getD other := by
  cases v with
  | parsingStarted =>
    have h := Text.afterStart?_append parsingWords t
    simp only [ofBody, Opening.words, h]
    rfl
  | loading =>
    have h := Text.afterStart?_append loadingWords t
    have hnone : Text.afterStart? parsingWords (loadingWords ++ t) = none := by rfl
    simp only [ofBody, Opening.words, h, hnone]
    rfl

/-- The line that announces a file is read as the event with the file that its words stand for. -/
lemma parse_line_eq (v : Opening) (o : Printed) : parse (o.line v) = v.event o.readAs := by
  set words := o.kind ++ '[' :: o.inner ++ [']'] with hwords
  have hline : o.line v = '[' :: (v.words ++ words) ++ [']'] := by
    rw [Printed.line, hwords, List.append_assoc o.kind, List.cons_append]
  have hbody : (Text.afterStart? ['['] (o.line v)).bind (Text.beforeEnd? [']']) =
      some (v.words ++ words) := by
    have hfront := Text.afterStart?_append ['['] (v.words ++ words ++ [']'])
    rw [hline, List.cons_append]
    rw [List.singleton_append] at hfront
    rw [hfront]
    exact Text.beforeEnd?_append _ _
  have htrim : Text.trim (o.line v) = o.line v := by
    rw [hline]
    exact Text.trim_of_ends (by decide) (by decide) _
  rw [parse, htrim, hbody]
  simp only [ofBody_words, hwords, FileObject.parse?_words]
  rfl

/-- Whatever the names are, the line that announces a file is read as the event with that file,
its directory cut off at the last colon; this is the file that is meant exactly if there is no
colon in the rest. -/
theorem parse_line (v : Opening) (o : Printed) :
    parse (o.line v) = v.event o.readAs ∧
    (parse (o.line v) = v.event o.object ↔ o.RestHasNoColon) := by
  refine ⟨parse_line_eq v o, ?_⟩
  rw [parse_line_eq, ← Printed.readAs_eq_object_iff]
  constructor
  · intro h
    cases v <;> injection h
  · exact congrArg v.event

/-- The file `p/A:B.java` of the search path directory `/c/src` is read as a file `B.java` of a
directory `/c/src:p/A`. -/
theorem parse_line_colon_in_rest :
    parse ((Printed.directory "/c/src".toList "p/A:B.java".toList).line .parsingStarted) ≠
      .parsingStarted
        (.directory (Path.ofText "/c/src".toList) (Path.ofText "p/A:B.java".toList)) := by
  decide +kernel

end TraceEvent

end Excerpt
