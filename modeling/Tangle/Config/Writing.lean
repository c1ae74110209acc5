import Tangle.Config.Basic
import Tangle.Toml.Printer

/-!
# Writing configurations

A configuration is written with all its settings, but for an output directory
that is not set and for identifiers of a language that has none: first the
settings on a line, then those that are tables.
-/

namespace Tangle.Config

open Toml (renderText renderTexts renderPair renderHeader)

/-- A comment as a setting on a line, if it is one. -/
def commentPair (key : String) : Comment → Text
  | .line opening => renderPair key (renderText opening)
  | .block .. => []

/-- A comment as a table, if it is one. -/
def commentTable (header : String) : Comment → Text
  | .line _ => []
  | .block opening closing =>
    renderHeader header ++ renderPair "open" (renderText opening) ++
      renderPair "close" (renderText closing)

/-- A language as a table of a list. -/
def renderLanguage (l : Language) : Text :=
  renderHeader "[[languages]]" ++ renderPair "name" (renderText l.name) ++
    (if l.identifiers = [] then [] else renderPair "identifiers" (renderTexts l.identifiers)) ++
    commentPair "comment" l.comment ++ commentTable "[languages.comment]" l.comment

/-- The configuration as a document. -/
def render (c : Config) : Text :=
  renderPair "source_patterns" (renderTexts c.sourcePatterns) ++
    (match c.outputDir with
      | none => []
      | some path => renderPair "output_dir" (renderText path.text)) ++
    renderPair "annotation" (renderText c.annotation.word.toList) ++
    commentPair "default_comment" c.defaultComment ++
    (if c.languages = [] then renderPair "languages" (renderTexts []) else []) ++
    commentTable "[default_comment]" c.defaultComment ++
    renderHeader "[markers]" ++ renderPair "continues" (renderText c.markers.continues) ++
    renderPair "end" (renderText c.markers.ends) ++
    c.languages.flatMap renderLanguage

end Tangle.Config
