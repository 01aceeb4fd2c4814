import Excerpt.Trace.FileObject

/-!
# Events in a compiler trace

Each line of a verbose trace is one event. Of interest are the files whose content is opened, and
the search path for sources.
-/

namespace Excerpt

/-- What one line of a trace says. -/
inductive TraceEvent where
  | parsingStarted (o : FileObject)
  | loading (o : FileObject)
  | sourcePath (entries : List Path)
  | classPath (entries : List Path)
  | other
  deriving DecidableEq, Repr

namespace TraceEvent

/-- The paths in a list with commas between them. -/
def splitEntries (t : Text) : List Path :=
  (((Text.splitOn (· == ',') t).map Text.trim).filter (!·.isEmpty)).map Path.ofText

/-- What the compiler says before a file that it parses. -/
def parsingWords : Text := "parsing started ".toList

/-- What it says before a file, source or class, that it loads. -/
def loadingWords : Text := "loading ".toList

/-- What it says before the places where it looks for sources. -/
def sourcePathWords : Text := "search path for source files:".toList

/-- What it says before the places where it looks for classes. -/
def classPathWords : Text := "search path for class files:".toList

/-- Reads what stands between the brackets of a line. -/
def ofBody (body : Text) : TraceEvent :=
  match Text.afterStart? parsingWords body with
  | some rest => ((FileObject.parse? rest).map parsingStarted).getD other
  | none =>
    match Text.afterStart? loadingWords body with
    | some rest => ((FileObject.parse? rest).map loading).getD other
    | none =>
      match Text.afterStart? sourcePathWords body with
      | some rest => sourcePath (splitEntries rest)
      | none =>
        match Text.afterStart? classPathWords body with
        | some rest => classPath (splitEntries rest)
        | none => other

/-- Reads one line. -/
def parse (line : Text) : TraceEvent :=
  match (Text.afterStart? ['['] (Text.trim line)).bind (Text.beforeEnd? [']']) with
  | some body => ofBody body
  | none => other

end TraceEvent

end Excerpt
