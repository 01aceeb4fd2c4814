import Excerpt.Failure
import Excerpt.Scan

/-!
# Pages

A test's page may link to files beside it, and those belong to the test although no compiler reads
them. Links that are absolute, name a scheme or only an anchor lead nowhere here; the others are
taken relative to the directory of the page, up to an anchor or a query.
-/

namespace Excerpt

namespace Page

/-- What a link in a page looks like. -/
def linkPattern : Text := "(?i)(?:href|src)\\s*=\\s*\"([^\"]*)\"".toList

/-- The scanner for links. -/
def scanner : Except Failure Scanner :=
  match Scanner.ofText? linkPattern with
  | some s => .ok s
  | none => .error (.badPattern linkPattern)

/-- The path in a relative link. -/
def relativeTarget? (link : Text) : Option Text :=
  let t := Text.trim link
  let namesScheme := match Text.cutFirst? (· == ':') t with
    | some (scheme, _) => !scheme.contains '/'
    | none => false
  if t.isEmpty || t.head? == some '/' || t.head? == some '#' || Text.hasPiece "://".toList t ||
      namesScheme then none
  else
    let path := t.takeWhile fun c => !(c == '#' || c == '?')
    if path.isEmpty then none else some path

/-- What the links of a page lead to: files of the corpus, and links that lead to nothing. -/
structure Links where
  files : List Path
  dangling : List Text
  deriving DecidableEq, Repr

/-- Follows one link of a page in a directory. -/
def follow (s : Store) (dir corpus : Path) (found : Links) (link : Text) : Links :=
  match relativeTarget? link with
  | none => found
  | some rel =>
    match s.canonical (dir.joinText rel) with
    | .error _ => { found with dangling := found.dangling ++ [link] }
    | .ok file =>
      if s.isFile file && file.startsWith corpus then { found with files := found.files ++ [file] }
      else found

/-- Follows the links of a page that name files of the corpus. -/
def links (s : Store) (sc : Scanner) (page corpus : Path) : Except Failure Links :=
  match page.parent? with
  | none => .ok ⟨[], []⟩
  | some dir =>
    match s.read page with
    | .error fault => .error (.scan page fault)
    | .ok content =>
      .ok ((distinctTexts (sc.captures content)).foldl (follow s dir corpus) ⟨[], []⟩)

end Page

end Excerpt
