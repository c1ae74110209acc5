import Tangle.Config.Language
import Tangle.Config.Markers
import Tangle.Path.Basic

/-!
# Configurations

The settings of a run, each with its default: where the documents are, where the
output goes, whether it carries anchors, and how anchors are written.
-/

namespace Tangle

/-- Whether the output carries anchors. -/
inductive Annotation
  /-- With anchors. -/
  | anchored
  /-- The code only. -/
  | naked
deriving DecidableEq, Inhabited

/-- The word for it in a configuration. -/
def Annotation.word : Annotation → String
  | anchored => "anchored"
  | naked => "naked"

/-- The settings of a run. -/
structure Config where
  /-- The patterns of the documents, relative to the input directory. -/
  sourcePatterns : List Text := ["**/*.sphweb".toList]
  /-- The output directory; by default the input directory. -/
  outputDir : Option Path := none
  /-- Whether the output carries anchors. -/
  annotation : Annotation := .anchored
  /-- The comments of languages that are not known. -/
  defaultComment : Comment := .line ['#']
  /-- The words in anchors. -/
  markers : Markers := {}
  /-- Languages that come before the known ones. -/
  languages : List Language := []
deriving DecidableEq, Inhabited

namespace Config

/-- The output carries anchors. -/
def anchored (c : Config) : Bool := c.annotation == .anchored

/-- The language of a tag: a configured one, or else a known one. -/
def language? (c : Config) (tag : Text) : Option Language :=
  (c.languages ++ Language.known).find? (·.hasTag tag)

/-- How comments are written in the language of a tag. -/
def commentFor (c : Config) (tag : Text) : Comment :=
  match c.language? tag with
  | some language => language.comment
  | none => c.defaultComment

end Config

end Tangle
