import Excerpt.Act

/-!
# The files beside an extracted test

Two files make an extracted test usable on its own: a makefile, always the same, and a script that
builds the test and says where it came from. The script is a template in which placeholders are
replaced one after the other, so a value that spells a later placeholder is replaced as well.
-/

namespace Excerpt

namespace Reproducer

/-- Lines, each with a newline after it. -/
def textOfLines (lines : List String) : Text := lines.flatMap fun l => l.toList ++ ['\n']

/-- The makefile. -/
def makefile : Text := textOfLines
  ["# Builds and runs one extracted test.",
   "#",
   "#   make            compile everything into ./classes",
   "#   make natives    compile shared native sources into ./lib",
   "#   make clean",
   "",
   "JAVA_HOME ?= $(shell dirname $$(dirname $$(readlink -f $$(command -v javac))))",
   "JAVAC ?= $(JAVA_HOME)/bin/javac",
   "JAVA ?= $(JAVA_HOME)/bin/java",
   "CC ?= cc",
   "",
   "CLASSES := classes",
   "LIBDIR := lib",
   "",
   "JAVA_SOURCES := $(shell find src tests -name '*.java' ! -name module-info.java 2>/dev/null)",
   "NATIVE_SOURCES := $(shell find tests -name '*.c' 2>/dev/null)",
   "NATIVE_INCLUDES := $(addprefix -I,$(shell find src/share -type d 2>/dev/null))",
   "",
   ".PHONY: all classes natives clean",
   "",
   "all: classes",
   "",
   "classes: $(CLASSES)/.built",
   "",
   "$(CLASSES)/.built: $(JAVA_SOURCES)",
   "\tmkdir -p $(CLASSES)",
   "\t$(JAVAC) -nowarn -d $(CLASSES) $(JAVA_SOURCES)",
   "\ttouch $@",
   "",
   "natives: $(NATIVE_SOURCES)",
   "\tmkdir -p $(LIBDIR)",
   "\tfor src in $(NATIVE_SOURCES); do \\",
   "\t\tname=$$(basename $$src .c); \\",
   "\t\t$(CC) -shared -fPIC $(NATIVE_INCLUDES) \\",
   "\t\t\t-I$(JAVA_HOME)/include -I$(JAVA_HOME)/include/linux \\",
   "\t\t\t-o $(LIBDIR)/lib$$name.so $$src || exit 1; \\",
   "\tdone",
   "",
   "clean:",
   "\trm -rf $(CLASSES) $(LIBDIR)"]

/-- The script, with its placeholders. -/
def template : Text := textOfLines
  ["#!/bin/sh",
   "# Reproducer for \x7bTEST\x7d",
   "# Extracted: \x7bDATE\x7d",
   "# Jenkins: \x7bJENKINS_URL\x7d",
   "# Job: \x7bJOB_NAME\x7d",
   "# Build: \x7bBUILD_ID\x7d",
   "set -e",
   "",
   "cd \"$(dirname \"$0\")\"",
   "",
   "JAVA_TOOL_OPTIONS_AT_EXTRACTION=\x7bJAVA_TOOL_OPTIONS\x7d",
   "#\x7bJAVA_TOOL_OPTIONS\x7d",
   "",
   "make classes",
   "",
   "if [ -d src/share ] ; then",
   "  make natives",
   "  LD_LIBRARY_PATH=\"$(pwd)/lib$\x7bLD_LIBRARY_PATH:+:$LD_LIBRARY_PATH\x7d\"",
   "  export LD_LIBRARY_PATH",
   "fi",
   "",
   "echo \"classes built for \x7bTEST\x7d; run the test with:\"",
   "echo \"  \\$\x7bJAVA_HOME\x7d/bin/java -cp classes <main class from the test description>\""]

/-- The values that the script is filled with. -/
structure Values where
  date : Text
  jenkinsUrl : Option Text
  jobName : Option Text
  buildId : Option Text
  javaToolOptions : Option Text
  deriving DecidableEq, Repr

/-- The values of a run. -/
def Values.ofHost (h : Host) : Values where
  date := h.date
  jenkinsUrl := h.get? "JENKINS_URL"
  jobName := h.get? "JOB_NAME"
  buildId := h.get? "BUILD_ID"
  javaToolOptions := h.get? "JAVA_TOOL_OPTIONS"

/-- A placeholder in the template. -/
def placeholder (name : String) : Text := '\x7b' :: name.toList ++ ['\x7d']

/-- A value, or words that say that it is missing. -/
def orMissing (value : Option Text) (name : String) : Text :=
  value.getD ("missing-".toList ++ name.toList)

/-- The two places for the options of the Java tools, filled. -/
def fillOptions (options : Option Text) (script : Text) : Text :=
  let assigned := '=' :: placeholder "JAVA_TOOL_OPTIONS"
  let exported := '#' :: placeholder "JAVA_TOOL_OPTIONS"
  match options with
  | some o =>
    let quoted := ['\x27'] ++ o ++ ['\x27']
    Text.replace exported ("export JAVA_TOOL_OPTIONS=".toList ++ quoted)
      (Text.replace assigned ('=' :: quoted) script)
  | none =>
    Text.replace exported "# no JAVA_TOOL_OPTIONS found in runtime of this tool".toList
      (Text.replace assigned ['='] script)

/-- The script for a test. -/
def render (test : Text) (v : Values) : Text :=
  let script := Text.replace (placeholder "TEST") test template
  let script := Text.replace (placeholder "DATE") v.date script
  let script := Text.replace (placeholder "JENKINS_URL")
    (orMissing v.jenkinsUrl "JENKINS_URL") script
  let script := Text.replace (placeholder "JOB_NAME") (orMissing v.jobName "JOB_NAME") script
  let script := Text.replace (placeholder "BUILD_ID") (orMissing v.buildId "BUILD_ID") script
  fillOptions v.javaToolOptions script

/-- The mode of the script. -/
def scriptMode : Nat := 0o755

/-- Writes the makefile and the script into the output directory. -/
def write (output : Path) (test : Text) (v : Values) : Act Unit := do
  let make := output.joinText "Makefile".toList
  Act.change (.write make) (·.write make (Utf8.encode makefile))
  let script := output.joinText "tryRun.sh".toList
  Act.change (.write script) (·.write script (Utf8.encode (render test v)))
  Act.change (.makeExecutable script) (·.setMode script scriptMode)

end Reproducer

end Excerpt
