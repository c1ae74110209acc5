import Tangle.Config.Reading
import Tangle.Config.Writing
import Tangle.Proofs.Statements
import Tangle.Proofs.Tables

/-!
# Configurations are read as they were written

The text of a configuration lists the statements of its *settings*, which are on a line,
and of its *sections* (`Config.lists_render`). The sections make a table with the settings
and with one entry for each section of the first level (`Config.assemble_statements`), and
that table is read as the configuration (`Config.ofEntries_entries`). So whatever the
texts of a configuration are, it is read as it was written (`Config.parse_render`).
-/

namespace Tangle

open Toml (Value Entries Section Statement pairsOf keysOf Lists Writes)

/-! ## Comments and languages -/

namespace Comment

/-- A comment as a setting, if it is one. -/
def settings (key : String) : Comment → Entries
  | line opening => [(key.toList, .string opening)]
  | block .. => []

/-- The delimiters of a comment. -/
def delimiters (opening closing : Text) : Entries :=
  [("open".toList, .string opening), ("close".toList, .string closing)]

/-- A comment as a section, if it is one. -/
def sections (path : List Text) : Comment → List Section
  | line _ => []
  | block opening closing => [⟨path, false, pairsOf (delimiters opening closing)⟩]

/-- A comment as a table, if it is one. -/
def tables (key : String) : Comment → Entries
  | line _ => []
  | block opening closing => [(key.toList, .table .header (delimiters opening closing))]

end Comment

namespace Language

/-- The settings of a language. -/
def settings (l : Language) : Entries :=
  [("name".toList, .string l.name)] ++
    (if l.identifiers = [] then [] else
      [("identifiers".toList, .array (l.identifiers.map .string))]) ++
    l.comment.settings "comment"

/-- The sections of a language. -/
def sections (l : Language) : List Section :=
  ⟨["languages".toList], true, pairsOf l.settings⟩ ::
    l.comment.sections ["languages".toList, "comment".toList]

/-- The table of a language. -/
def entries (l : Language) : Entries := l.settings ++ l.comment.tables "comment"

end Language

namespace Config

/-- The settings of a configuration that are on a line. -/
def settings (c : Config) : Entries :=
  [("source_patterns".toList, .array (c.sourcePatterns.map .string))] ++
    c.outputDir.toList.map (fun path => ("output_dir".toList, .string path.text)) ++
    [("annotation".toList, .string c.annotation.word.toList)] ++
    c.defaultComment.settings "default_comment" ++
    if c.languages = [] then [("languages".toList, .array [])] else []

/-- The words in anchors as settings. -/
def markerSettings (m : Markers) : Entries :=
  [("continues".toList, .string m.continues), ("end".toList, .string m.ends)]

/-- The sections of a configuration. -/
def sections (c : Config) : List Section :=
  c.defaultComment.sections ["default_comment".toList] ++
    ⟨["markers".toList], false, pairsOf (markerSettings c.markers)⟩ ::
      c.languages.flatMap Language.sections

/-- The table of a configuration but for its languages. -/
def front (c : Config) : Entries :=
  c.settings ++ c.defaultComment.tables "default_comment" ++
    [("markers".toList, .table .header (markerSettings c.markers))]

/-- The table of a configuration. -/
def entries (c : Config) : Entries :=
  Toml.listed "languages".toList (c.languages.map Language.entries) c.front

/-! ## The statements -/

/-- The text lists the entries as pairs. -/
def ListsPairs (x : Text) (entries : Entries) : Prop := Lists x ((pairsOf entries).map .ofPair)

theorem ListsPairs.append {x y : Text} {entries entries' : Entries} (h : ListsPairs x entries)
    (h' : ListsPairs y entries') : ListsPairs (x ++ y) (entries ++ entries') := by
  rw [ListsPairs, pairsOf, List.map_append, List.map_append]
  exact Lists.append h h'

/-- A header and the pairs below it list a section. -/
theorem lists_section {header x : Text} {path : List Text} {entries : Entries}
    (hheader : Lists header [.header path]) (h : ListsPairs x entries) :
    Lists (header ++ x) (Section.statements ⟨path, false, pairsOf entries⟩) :=
  hheader.append h

/-- A pair of a key and a text lists itself. -/
theorem lists_text (key : String) (hkey : Toml.IsKey key.toList) (t : Text) :
    ListsPairs (Toml.renderPair key (Toml.renderText t)) [(key.toList, .string t)] :=
  Toml.lists_renderPair hkey (Toml.writes_renderText _ t)

/-- A pair of a key and a list of texts lists itself. -/
theorem lists_texts (key : String) (hkey : Toml.IsKey key.toList) (ts : List Text) :
    ListsPairs (Toml.renderPair key (Toml.renderTexts ts))
      [(key.toList, .array (ts.map .string))] :=
  Toml.lists_renderPair hkey (Toml.writes_renderTexts _ ts)

theorem lists_commentPair (key : String) (hkey : Toml.IsKey key.toList) (comment : Comment) :
    ListsPairs (commentPair key comment) (comment.settings key) := by
  cases comment with
  | line opening => exact lists_text key hkey opening
  | block => exact .nil

theorem lists_commentTable (header : String) (path : List Text) (hpath : Toml.IsPath path)
    (h : header.toList = '[' :: (Text.joinWith ['.'] path ++ [']'])) (comment : Comment) :
    Lists (commentTable header comment)
      ((comment.sections path).flatMap Section.statements) := by
  cases comment with
  | line => exact .nil
  | block opening closing =>
    rw [commentTable, List.append_assoc, Comment.sections, List.flatMap_singleton]
    exact lists_section (Toml.lists_renderHeader hpath h)
      ((lists_text "open" (by decide) opening).append (lists_text "close" (by decide) closing))

/-- The text of a language lists the statements of its sections. -/
theorem lists_renderLanguage (l : Language) :
    Lists (renderLanguage l) (l.sections.flatMap Section.statements) := by
  have hheader : Lists (Toml.renderHeader "[[languages]]") [.element ["languages".toList]] :=
    Toml.lists_renderElement ⟨by decide, by decide, by decide⟩ rfl
  have hidentifiers : ListsPairs (if l.identifiers = [] then [] else
      Toml.renderPair "identifiers" (Toml.renderTexts l.identifiers))
      (if l.identifiers = [] then [] else
        [("identifiers".toList, .array (l.identifiers.map .string))]) := by
    split_ifs
    · exact .nil
    · exact lists_texts "identifiers" (by decide) l.identifiers
  have hsettings := ((lists_text "name" (by decide) l.name).append hidentifiers).append
    (lists_commentPair "comment" (by decide) l.comment)
  have hcomment := lists_commentTable "[languages.comment]" ["languages".toList, "comment".toList]
    ⟨by decide, by decide, by decide⟩ rfl l.comment
  have htext : renderLanguage l = Toml.renderHeader "[[languages]]" ++
      (Toml.renderPair "name" (Toml.renderText l.name) ++
        (if l.identifiers = [] then [] else
          Toml.renderPair "identifiers" (Toml.renderTexts l.identifiers)) ++
        commentPair "comment" l.comment) ++ commentTable "[languages.comment]" l.comment := by
    simp only [renderLanguage, List.append_assoc]
  rw [htext, Language.sections, List.flatMap_cons]
  exact (hheader.append hsettings).append hcomment

/-- The text of a configuration lists the statements of its settings and sections. -/
theorem lists_render (c : Config) :
    Lists c.render ((pairsOf c.settings).map .ofPair ++ c.sections.flatMap Section.statements) := by
  have houtput : ListsPairs (c.outputDir.elim [] fun path =>
      Toml.renderPair "output_dir" (Toml.renderText path.text))
      (c.outputDir.toList.map fun path => ("output_dir".toList, .string path.text)) := by
    cases c.outputDir with
    | none => exact .nil
    | some path => exact lists_text "output_dir" (by decide) path.text
  have hlanguages : ListsPairs (if c.languages = [] then
      Toml.renderPair "languages" (Toml.renderTexts []) else [])
      (if c.languages = [] then [("languages".toList, .array [])] else []) := by
    split_ifs
    · exact lists_texts "languages" (by decide) []
    · exact .nil
  have hsettings : ListsPairs _ c.settings :=
    ((((lists_texts "source_patterns" (by decide) c.sourcePatterns).append houtput).append
      (lists_text "annotation" (by decide) c.annotation.word.toList)).append
      (lists_commentPair "default_comment" (by decide) c.defaultComment)).append hlanguages
  have hcomment := lists_commentTable "[default_comment]" ["default_comment".toList]
    ⟨by decide, by decide, by decide⟩ rfl c.defaultComment
  have hheader : Lists (Toml.renderHeader "[markers]") [.header ["markers".toList]] :=
    Toml.lists_renderHeader ⟨by decide, by decide, by decide⟩ rfl
  have hmarkers := lists_section hheader
    ((lists_text "continues" (by decide) c.markers.continues).append
      (lists_text "end" (by decide) c.markers.ends))
  have hall := Lists.append hsettings
    (hcomment.append (hmarkers.append (Lists.flatMap lists_renderLanguage c.languages)))
  rw [sections, List.flatMap_append, List.flatMap_cons, List.flatMap_assoc]
  simp only [List.append_assoc] at hall
  simp only [render, List.append_assoc]
  cases h : c.outputDir <;> rw [h] at hall <;> exact hall

/-! ## The table -/

theorem nodup_delimiters (opening closing : Text) :
    (keysOf (Comment.delimiters opening closing)).Nodup :=
  (by decide : ["open".toList, "close".toList].Nodup)

/-- The keys of a language, given whether it has identifiers. -/
theorem keysOf_language (l : Language) :
    keysOf l.entries = if l.identifiers = [] then ["name".toList, "comment".toList]
      else ["name".toList, "identifiers".toList, "comment".toList] := by
  obtain ⟨name, identifiers, comment⟩ := l
  cases identifiers <;> cases comment <;> rfl

theorem nodup_language (l : Language) : (keysOf l.entries).Nodup := by
  rw [keysOf_language]
  split_ifs <;> decide

/-- The sections of a language add its table to the list. -/
theorem addSections_language {front : Entries} (hfront : "languages".toList ∉ keysOf front)
    (l : Language) (elements : List Entries) (more : List Section) :
    Toml.addSections (l.sections ++ more) (Toml.listed "languages".toList elements front) =
      Toml.addSections more
        (Toml.listed "languages".toList (elements ++ [l.entries]) front) := by
  have hnodup := nodup_language l
  rw [Language.entries, keysOf, List.map_append] at hnodup
  rw [Language.sections, List.cons_append,
    Toml.addSections_element hfront (List.Nodup.of_append_left hnodup), Language.entries]
  cases hcomment : l.comment with
  | line =>
    rw [Comment.tables, List.append_nil]
    rfl
  | block opening closing =>
    rw [hcomment] at hnodup
    refine Toml.addSections_below hfront ?_ (nodup_delimiters opening closing) elements more
    exact fun h => List.disjoint_of_nodup_append hnodup h List.mem_cons_self

theorem addSections_languages {front : Entries} (hfront : "languages".toList ∉ keysOf front)
    (languages : List Language) (elements : List Entries) :
    Toml.addSections (languages.flatMap Language.sections)
        (Toml.listed "languages".toList elements front) =
      some (Toml.listed "languages".toList (elements ++ languages.map Language.entries) front) := by
  induction languages generalizing elements with
  | nil =>
    rw [List.map_nil, List.append_nil]
    rfl
  | cons l languages ih =>
    rw [List.flatMap_cons, addSections_language hfront, ih, List.append_assoc]
    rfl

/-- The keys but for the languages, given whether there is an output directory, whether the
    comment is a setting, and whether there are no languages. -/
def frontKeys (hasOutput isSetting isEmpty : Bool) : List Text :=
  ["source_patterns".toList] ++ (if hasOutput then ["output_dir".toList] else []) ++
    ["annotation".toList] ++ (if isSetting then ["default_comment".toList] else []) ++
    (if isEmpty then ["languages".toList] else []) ++
    (if isSetting then [] else ["default_comment".toList]) ++ ["markers".toList]

theorem keysOf_front (c : Config) :
    ∃ isSetting, keysOf c.front = frontKeys c.outputDir.isSome isSetting c.languages.isEmpty := by
  obtain ⟨patterns, output, annotation, comment, markers, languages⟩ := c
  cases comment with
  | line => exact ⟨true, by cases output <;> cases languages <;> rfl⟩
  | block => exact ⟨false, by cases output <;> cases languages <;> rfl⟩

theorem nodup_front (c : Config) : (keysOf c.front).Nodup := by
  have hall : ∀ hasOutput isSetting isEmpty,
      (frontKeys hasOutput isSetting isEmpty).Nodup := by decide
  obtain ⟨isSetting, h⟩ := keysOf_front c
  rw [h]
  exact hall ..

theorem languages_notMem_front {c : Config} (hc : c.languages.isEmpty = false) :
    "languages".toList ∉ keysOf c.front := by
  have hall : ∀ hasOutput isSetting,
      "languages".toList ∉ frontKeys hasOutput isSetting false := by decide
  obtain ⟨isSetting, h⟩ := keysOf_front c
  rw [h, hc]
  exact hall _ _

/-- The statements of a configuration make its table. -/
theorem assemble_statements (c : Config) :
    Toml.assemble ((pairsOf c.settings).map .ofPair ++ c.sections.flatMap Section.statements) =
      some c.entries := by
  -- No key is there twice, so each section comes to a table that has not got its key.
  have hnodup := nodup_front c
  rw [front, keysOf, List.map_append] at hnodup
  have hmarkers : "markers".toList ∉
      keysOf (c.settings ++ c.defaultComment.tables "default_comment") :=
    fun h => List.disjoint_of_nodup_append hnodup h List.mem_cons_self
  have hleft := List.Nodup.of_append_left hnodup
  rw [List.map_append] at hleft
  have hsettings : Toml.putAll (pairsOf c.settings) [] = some c.settings :=
    Toml.putAll_pairs (List.Nodup.of_append_left hleft)
  have hcomment (more : List Section) :
      Toml.addSections (c.defaultComment.sections ["default_comment".toList] ++ more) c.settings =
        Toml.addSections more (c.settings ++ c.defaultComment.tables "default_comment") := by
    cases h : c.defaultComment with
    | line =>
      rw [Comment.tables, List.append_nil]
      rfl
    | block opening closing =>
      rw [h] at hleft
      refine Toml.addSections_table ?_ (nodup_delimiters opening closing) more
      exact fun hmem => List.disjoint_of_nodup_append hleft hmem List.mem_cons_self
  have hlanguages : Toml.addSections (c.languages.flatMap Language.sections) c.front =
      some c.entries := by
    cases h : c.languages with
    | nil =>
      -- The key is there already, with the empty list.
      rw [entries, h]
      rfl
    | cons l languages =>
      have hc : c.languages.isEmpty = false := by rw [h]; rfl
      rw [entries, h]
      exact addSections_languages (languages_notMem_front hc) (l :: languages) []
  rw [Toml.assemble, Toml.split_statements]
  dsimp only
  rw [hsettings, Option.bind_some, sections, hcomment]
  refine (Toml.addSections_table hmarkers ?_ _).trans hlanguages
  exact (by decide : ["continues".toList, "end".toList].Nodup)

/-! ## The settings -/

/-- A list of texts is read as these texts. -/
theorem asTexts?_array (ts : List Text) : asTexts? (.array (ts.map .string)) = some ts := by
  have hmap : (ts.map Value.string).mapM asText? = some ts := by
    induction ts with
    | nil => rfl
    | cons t ts ih => simp [asText?, ih]
  exact hmap

/-- The table of a language is read as the language. -/
theorem readLanguage_entries (l : Language) : readLanguage (.table .header l.entries) = some l := by
  obtain ⟨name, identifiers, comment⟩ := l
  have hidentifiers : setting "identifiers" [] asTexts?
      (Language.entries ⟨name, identifiers, comment⟩) = some identifiers := by
    cases identifiers with
    | nil => cases comment <;> rfl
    | cons t ts =>
      have h := asTexts?_array (t :: ts)
      cases comment <;> exact h
  have hcomment : required "comment" readComment
      (Language.entries ⟨name, identifiers, comment⟩) = some comment := by
    cases identifiers <;> cases comment <;> rfl
  have hname : required "name" asText? (Language.entries ⟨name, identifiers, comment⟩) =
      some name := rfl
  rw [readLanguage, hname, hidentifiers, hcomment]
  rfl

theorem mapM_readLanguage (languages : List Language) :
    ((languages.map Language.entries).map (Value.table .header)).mapM readLanguage =
      some languages := by
  induction languages with
  | nil => rfl
  | cons l languages ih =>
    rw [List.map_cons, List.map_cons, List.mapM_cons, readLanguage_entries, ih]
    rfl

variable {c : Config}

theorem nodup_entries (c : Config) : (keysOf c.entries).Nodup := by
  rw [entries, Toml.listed]
  split_ifs with h
  · exact nodup_front c
  · have hc : c.languages.isEmpty = false := by simpa using h
    have hnodup := (nodup_front c).concat (languages_notMem_front hc)
    rw [List.concat_eq_append] at hnodup
    rw [keysOf, List.map_append]
    exact hnodup

theorem output_notMem_entries (h : c.outputDir = none) : "output_dir".toList ∉ keysOf c.entries := by
  have hall : ∀ isSetting isEmpty,
      "output_dir".toList ∉ frontKeys false isSetting isEmpty := by decide
  have hfront : "output_dir".toList ∉ keysOf c.front := by
    obtain ⟨isSetting, hkeys⟩ := keysOf_front c
    rw [hkeys, h]
    exact hall _ _
  rw [entries, Toml.listed]
  split_ifs
  · exact hfront
  · rw [keysOf, List.map_append, List.mem_append, not_or]
    exact ⟨hfront, (by decide : "output_dir".toList ∉ ["languages".toList])⟩

theorem mem_entries_of_mem_front {e : Text × Value} (h : e ∈ c.front) : e ∈ c.entries := by
  rw [entries, Toml.listed]
  split_ifs
  · exact h
  · exact List.mem_append_left _ h

theorem mem_entries_of_mem_settings {e : Text × Value} (h : e ∈ c.settings) : e ∈ c.entries :=
  mem_entries_of_mem_front (List.mem_append_left _ (List.mem_append_left _ h))

/-- A setting that is there is read. -/
theorem setting_of_mem {α : Type} {key : String} {standard : α} {read : Value → Option α}
    {v : Value} (h : (key.toList, v) ∈ c.entries) :
    setting key standard read c.entries = read v := by
  rw [setting, Toml.find?_of_mem (nodup_entries c) h]

/-- The table of a configuration is read as the configuration. -/
theorem ofEntries_entries (c : Config) : ofEntries c.entries = some c := by
  have hpatterns : setting "source_patterns" (Config.sourcePatterns {}) asTexts? c.entries =
      some c.sourcePatterns := by
    refine (setting_of_mem (mem_entries_of_mem_settings ?_)).trans (asTexts?_array c.sourcePatterns)
    exact List.mem_append_left _ (List.mem_append_left _ (List.mem_append_left _
      (List.mem_append_left _ (List.mem_singleton_self _))))
  have houtput : setting "output_dir" none (fun v => (asText? v).map fun t => some ⟨t⟩)
      c.entries = some c.outputDir := by
    cases h : c.outputDir with
    | none => rw [setting, Toml.find?_eq_none (output_notMem_entries h)]
    | some path =>
      refine (setting_of_mem (v := .string path.text) (mem_entries_of_mem_settings ?_)).trans rfl
      refine List.mem_append_left _ (List.mem_append_left _ (List.mem_append_left _
        (List.mem_append_right _ ?_)))
      rw [h]
      exact List.mem_singleton_self _
  have hannotation : setting "annotation" (Config.annotation {}) readAnnotation c.entries =
      some c.annotation := by
    have h : readAnnotation (.string c.annotation.word.toList) = some c.annotation := by
      cases c.annotation <;> decide
    refine (setting_of_mem (mem_entries_of_mem_settings ?_)).trans h
    exact List.mem_append_left _ (List.mem_append_left _ (List.mem_append_right _
      (List.mem_singleton_self _)))
  have hcomment : setting "default_comment" (Config.defaultComment {}) readComment c.entries =
      some c.defaultComment := by
    cases h : c.defaultComment with
    | line opening =>
      refine (setting_of_mem (v := .string opening) (mem_entries_of_mem_settings ?_)).trans rfl
      refine List.mem_append_left _ (List.mem_append_right _ ?_)
      rw [h]
      exact List.mem_singleton_self _
    | block opening closing =>
      refine (setting_of_mem (v := .table .header (Comment.delimiters opening closing))
        (mem_entries_of_mem_front ?_)).trans rfl
      refine List.mem_append_left _ (List.mem_append_right _ ?_)
      rw [h]
      exact List.mem_singleton_self _
  have hmarkers : setting "markers" (Config.markers {}) readMarkers c.entries =
      some c.markers :=
    setting_of_mem (mem_entries_of_mem_front
      (List.mem_append_right _ (List.mem_singleton_self _)))
  have hlanguages : setting "languages" (Config.languages {})
      (fun v => (asList? v).bind fun items => items.mapM readLanguage) c.entries =
      some c.languages := by
    by_cases h : c.languages = []
    · refine (setting_of_mem (v := .array []) (mem_entries_of_mem_settings ?_)).trans ?_
      · refine List.mem_append_right _ ?_
        rw [if_pos h]
        exact List.mem_singleton_self _
      · rw [h]
        rfl
    · refine (setting_of_mem (v := .tables (c.languages.map Language.entries)) ?_).trans
        (mapM_readLanguage c.languages)
      rw [entries, Toml.listed, if_neg (by simpa using h)]
      exact List.mem_append_right _ (List.mem_singleton_self _)
  rw [ofEntries, hpatterns, houtput, hannotation, hcomment, hmarkers, hlanguages]
  rfl

/-- A configuration is read as it was written. -/
theorem parse_render (c : Config) : parse c.render = some c := by
  have hfirst : c.render.head? ≠ some '\ufeff' := by
    have h : c.render.head? = some 's' := rfl
    rw [h]
    decide
  rw [parse, Toml.parse, Toml.statements_of_lists (lists_render c) hfirst, Option.bind_some,
    assemble_statements, Option.bind_some, ofEntries_entries]

end Config

end Tangle
