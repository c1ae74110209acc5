import Tangle.Config.Basic
import Tangle.Toml.Statement

/-!
# Reading configurations

A configuration is written as a TOML document. Every setting may be left out,
and keys that are no settings do not matter, whatever their values. A setting of
the wrong type makes the whole configuration malformed.

Some settings may be written in more than one way. A comment is a text (up to
the end of the line) or a table with the keys `open` and `close`. The markers and
each language are tables, or lists of the fields in their order; a date counts as
a table without settings. The annotation is a word, or a table whose one key is
that word and whose value is empty.
-/

namespace Tangle.Config

open Toml (Value Entries)

/-- The value is a text. -/
def asText? : Value → Option Text
  | .string t => some t
  | _ => none

/-- The value is a list. -/
def asList? : Value → Option (List Value)
  | .array items => some items
  | .tables elements => some (elements.map (.table .header))
  | _ => none

/-- The value is a list of texts. -/
def asTexts? (v : Value) : Option (List Text) := (asList? v).bind fun items => items.mapM asText?

/-- The value of a setting: its default if it is left out. -/
def setting {α : Type} (key : String) (standard : α) (read : Value → Option α)
    (entries : Entries) : Option α :=
  match Toml.find? key.toList entries with
  | none => some standard
  | some v => read v

/-- The value of a setting that may not be left out. -/
def required {α : Type} (key : String) (read : Value → Option α) (entries : Entries) : Option α :=
  (Toml.find? key.toList entries).bind read

/-- Reads an annotation. -/
def readAnnotation : Value → Option Annotation
  | .string t => word? t
  | .table _ [(key, .array [])] => word? key
  | .table _ [(key, .table _ [])] => word? key
  | _ => none
where
  /-- The annotation of a word. -/
  word? (t : Text) : Option Annotation :=
    if t = "anchored".toList then some .anchored
    else if t = "naked".toList then some .naked
    else none

/-- Reads a comment. -/
def readComment : Value → Option Comment
  | .string t => some (.line t)
  | .table _ entries => do
    return .block (← required "open" asText? entries) (← required "close" asText? entries)
  | _ => none

/-- Reads the fields of the markers, in their order. -/
def markersOfList : List Value → Option Markers
  | [] => some {}
  | [continues] => do return { continues := ← asText? continues }
  | continues :: ends :: _ => do return ⟨← asText? continues, ← asText? ends⟩

/-- Reads the markers. -/
def readMarkers (v : Value) : Option Markers :=
  match v with
  | .table _ entries => do
    let standard : Markers := {}
    return ⟨← setting "continues" standard.continues asText? entries,
      ← setting "end" standard.ends asText? entries⟩
  | .moment _ => some {}
  | _ => (asList? v).bind markersOfList

/-- Reads a language. -/
def readLanguage : Value → Option Language
  | .table _ entries => do
    return ⟨← required "name" asText? entries, ← setting "identifiers" [] asTexts? entries,
      ← required "comment" readComment entries⟩
  | .array (name :: identifiers :: comment :: _) => do
    return ⟨← asText? name, ← asTexts? identifiers, ← readComment comment⟩
  | _ => none

/-- Reads a configuration from a table. -/
def ofEntries (entries : Entries) : Option Config := do
  let standard : Config := {}
  return {
    sourcePatterns := ← setting "source_patterns" standard.sourcePatterns asTexts? entries
    outputDir := ← setting "output_dir" none (fun v => (asText? v).map fun t => some ⟨t⟩) entries
    annotation := ← setting "annotation" standard.annotation readAnnotation entries
    defaultComment := ← setting "default_comment" standard.defaultComment readComment entries
    markers := ← setting "markers" standard.markers readMarkers entries
    languages := ← setting "languages" standard.languages
      (fun v => (asList? v).bind fun items => items.mapM readLanguage) entries }

/-- Reads a configuration from a document. -/
def parse (t : Text) : Option Config := (Toml.parse t).bind ofEntries

end Tangle.Config
