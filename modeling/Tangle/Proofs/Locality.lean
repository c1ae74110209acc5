import Tangle.Proofs.Operations
import Tangle.Proofs.Reached

/-!
# Locality of expansion

What a chunk is expanded to depends on the chunks that it reaches, and on nothing else in the
store. Of those, only the *content* counts (`Chunk.content`): the key, the language and the
occurrences, but neither the shebang nor the links.

Two runs on two stores are compared step by step. They come to the same events, and to the
same error or to unfoldings with the same content (`Unfolding.build_related`), as long as the
names that are reached stand for the same content in both stores. So

* a change that keeps all content, such as linking, changes no expansion
  (`Store.SameContent.expand`);
* a definition changes what its own name stands for, and only if the name stood for nothing,
  or if a fragment takes the place of a file (`Store.lookup_of_define`).
-/

namespace Tangle

open Relation

/-! ## Related reports -/

/-- The same events, and then the same error, or else results that are related. -/
inductive Report.Related {α β : Type} (R : α → β → Prop) : Report α → Report β → Prop
  | ok {log : List Event} {a : α} {b : β} : R a b → Related R ⟨log, .ok a⟩ ⟨log, .ok b⟩
  | error {log : List Event} {e : Error} : Related R ⟨log, .error e⟩ ⟨log, .error e⟩

namespace Report.Related

variable {α α' β β' : Type} {R : α → α' → Prop} {S : β → β' → Prop}

theorem andThen {x : Report α} {x' : Report α'} {f : α → Report β} {f' : α' → Report β'}
    (h : Related R x x') (hf : ∀ a a', R a a' → Related S (f a) (f' a')) :
    Related S (x.andThen f) (x'.andThen f') := by
  cases h with
  | error => exact .error
  | @ok log a a' ha =>
    rw [andThen_ok, andThen_ok]
    have hnext := hf a a' ha
    generalize f a = y at hnext ⊢
    generalize f' a' = y' at hnext ⊢
    cases hnext with
    | ok hb => exact .ok hb
    | error => exact .error

theorem eq {x x' : Report α} (h : Related (· = ·) x x') : x = x' := by
  cases h with
  | ok h => rw [h]
  | error => rfl

end Report.Related

/-! ## Content -/

/-- What counts of a chunk where it is expanded. -/
structure Content where
  /-- The kind and the name of the chunk. -/
  key : Key
  /-- The language of the chunk. -/
  language : Text
  /-- The blocks of the chunk. -/
  occurrences : List Occurrence

/-- The content of the chunk, without its shebang and its links. -/
def Chunk.content (c : Chunk) : Content := ⟨c.key, c.language, c.occurrences⟩

namespace Chunk

variable {c c' : Chunk}

theorem content_eq_iff :
    c.content = c'.content ↔
      c.key = c'.key ∧ c.language = c'.language ∧ c.occurrences = c'.occurrences := by
  simp [content]

theorem name_eq_of_content (h : c.content = c'.content) : c.name = c'.name :=
  congrArg (·.key.name) h

theorem steps_eq_of_content (h : c.content = c'.content) : c.steps = c'.steps := by
  rw [steps, steps, (content_eq_iff.1 h).2.2]

theorem content_setShebang (c : Chunk) (text : Text) : (c.setShebang text).content = c.content := by
  refine content_eq_iff.2 ⟨Key.eq_iff.2 ⟨c.kind_setShebang text, c.name_setShebang text⟩, ?_,
    c.occurrences_setShebang text⟩
  rw [setShebang]
  split <;> rfl

end Chunk

namespace Unfolding

/-- The unfoldings are the same but for what does not count of the chunks in them. -/
inductive SameContent : Unfolding → Unfolding → Prop
  | done : SameContent .done .done
  | begins {location : Location} {u u' : Unfolding} :
    SameContent u u' → SameContent (.begins location u) (.begins location u')
  | ends {location : Location} {u u' : Unfolding} :
    SameContent u u' → SameContent (.ends location u) (.ends location u')
  | plain {text : Text} {u u' : Unfolding} :
    SameContent u u' → SameContent (.plain text u) (.plain text u')
  | missing {r : Reference} {location resume : Location} {u u' : Unfolding} :
    SameContent u u' →
      SameContent (.missing r location resume u) (.missing r location resume u')
  | inserted {r : Reference} {child child' : Chunk} {inside inside' : Unfolding}
      {resume : Location} {u u' : Unfolding} :
    child.content = child'.content → SameContent inside inside' → SameContent u u' →
      SameContent (.inserted r child inside resume u) (.inserted r child' inside' resume u')

variable {u u' : Unfolding} {c c' : Chunk}

theorem anchor_of_content (config : Config) (h : c.content = c'.content) (indent : Text)
    (l : Location) (words : Comment → Location → Name → Text) :
    anchor config indent c l words = anchor config indent c' l words := by
  rw [anchor, anchor, (Chunk.content_eq_iff.1 h).2.1, Chunk.name_eq_of_content h]

theorem SameContent.render (h : SameContent u u') (config : Config)
    (hc : c.content = c'.content) : u.render config c = u'.render config c' := by
  induction h generalizing c c' with
  | done => rfl
  | plain _ ih => rw [Unfolding.render, Unfolding.render, ih hc]
  | begins _ ih | ends _ ih | missing _ ih =>
    rw [Unfolding.render, Unfolding.render, anchor_of_content config hc, ih hc]
  | inserted hchild _ _ ihInside ihRest =>
    rw [Unfolding.render, Unfolding.render, anchor_of_content config hc, ihInside hchild,
      ihRest hc]

theorem SameContent.unresolved (h : SameContent u u') (parent : Name) :
    u.unresolved parent = u'.unresolved parent := by
  induction h generalizing parent with
  | done => rfl
  | begins _ ih | ends _ ih | plain _ ih => exact ih parent
  | missing _ ih => rw [Unfolding.unresolved, Unfolding.unresolved, ih]
  | inserted hchild _ _ ihInside ihRest =>
    rw [Unfolding.unresolved, Unfolding.unresolved, ihInside, ihRest,
      Chunk.name_eq_of_content hchild]

/-! ## Two runs -/

/-- Steps are unfolded alike in two stores in which the names that they reach stand for the
    same content. -/
theorem build_related {s s' : Store} (t : Trail) (steps : List Step)
    (h : ∀ step ∈ steps, ∀ r, step.Reaches s r →
      (s.lookup r.name).map (·.content) = (s'.lookup r.name).map (·.content)) :
    Report.Related SameContent (build s t steps) (build s' t steps) := by
  fun_induction build s t steps with
  | case1 =>
    rw [build]
    exact .ok .done
  | case2 t location rest ih =>
    rw [build]
    exact (ih (List.forall_mem_cons.1 h).2).andThen fun _ _ hu => .ok (.begins hu)
  | case3 t location rest ih =>
    rw [build]
    exact (ih (List.forall_mem_cons.1 h).2).andThen fun _ _ hu => .ok (.ends hu)
  | case4 t location resume text rest hp ih =>
    rw [build]
    simp only [hp]
    exact (ih (List.forall_mem_cons.1 h).2).andThen fun _ _ hu => .ok (.plain hu)
  | case5 t location resume text rest r hp hl ih =>
    obtain ⟨hline, hrest⟩ := List.forall_mem_cons.1 h
    have hcontent := hline r (.inl hp)
    rw [hl] at hcontent
    rw [build_missing hp (Option.map_eq_none_iff.1 hcontent.symm)]
    have hnote : Report.Related (· = ·) (Report.note (.expandedToNothing location r.name))
        (Report.note (.expandedToNothing location r.name)) := .ok rfl
    exact hnote.andThen fun _ _ _ => (ih hrest).andThen fun _ _ hu => .ok (.missing hu)
  | case6 t location resume text rest r hp child hl e ht =>
    have hcontent := (List.forall_mem_cons.1 h).1 r (.inl hp)
    rw [hl] at hcontent
    obtain ⟨child', hl', hchild⟩ := Option.map_eq_some_iff.1 hcontent.symm
    rw [← (Chunk.content_eq_iff.1 hchild).1] at ht
    rw [build_circle hp hl' ht]
    exact .error
  | case7 t location resume text rest r hp child hl t' ht _ ihInside ihRest =>
    obtain ⟨hline, hrest⟩ := List.forall_mem_cons.1 h
    have hcontent := hline r (.inl hp)
    rw [hl] at hcontent
    obtain ⟨child', hl', hchild⟩ := Option.map_eq_some_iff.1 hcontent.symm
    rw [← (Chunk.content_eq_iff.1 hchild).1] at ht
    -- What the chunk reaches is reached by the line that refers to it.
    have hinside := ihInside fun step hstep r' hr' =>
      hline r' (.inr ⟨child, by simp [Step.target?, hp, hl],
        Store.reaches_iff.2 ⟨step, hstep, hr'⟩⟩)
    rw [build_inserted hp hl' ht, Chunk.steps_eq_of_content hchild]
    exact hinside.andThen fun _ _ hu =>
      (ihRest hrest).andThen fun _ _ hv => .ok (.inserted hchild.symm hu hv)

end Unfolding

/-- A chunk is expanded alike in two stores in which the names that it reaches stand for the
    same content. -/
theorem Chunk.expand_of_content {s s' : Store} {c c' : Chunk} (hc : c.content = c'.content)
    (h : ∀ r, s.Reaches c r →
      (s.lookup r.name).map (·.content) = (s'.lookup r.name).map (·.content))
    (config : Config) : c.expand s config = c'.expand s' config := by
  have hbuild := Unfolding.build_related (.start c.key) c.steps fun step hstep r hr =>
    h r (Store.reaches_iff.2 ⟨step, hstep, hr⟩)
  rw [expand, expand, unfolding_eq, unfolding_eq, ← steps_eq_of_content hc,
    ← (content_eq_iff.1 hc).1]
  refine (hbuild.andThen fun u u' hu => .ok ?_).eq
  rw [hu.render config hc, hu.unresolved, name_eq_of_content hc]

namespace Store

/-! ## Changes that keep the content -/

/-- The same content is found under every key. -/
def SameContent (s s' : Store) : Prop :=
  ∀ k, (s.get? k).map (·.content) = (s'.get? k).map (·.content)

variable {s s' : Store}

namespace SameContent

theorem lookup (h : s.SameContent s') (name : Name) :
    (s.lookup name).map (·.content) = (s'.lookup name).map (·.content) := by
  rw [Store.lookup, Store.lookup, Option.map_or, Option.map_or, h, h]

theorem update (s : Store) (k : Key) {f : Chunk → Chunk} (hf : ∀ c, (f c).content = c.content) :
    s.SameContent (s.update k f) := by
  intro l
  rw [get?_update fun c => Chunk.name_eq_of_content (hf c)]
  split
  · rw [Option.map_map]
    exact congrArg (Option.map · _) (funext fun c => (hf c).symm)
  · rfl

theorem addLink (s : Store) (link : Key × Key) : s.SameContent (s.addLink link) := by
  intro k
  have hchild := update s link.1 (f := (·.addChild link.2)) fun c => by
    rw [Chunk.addChild_eq]
    rfl
  have hparent := update (s.update link.1 (·.addChild link.2)) link.2
    (f := (·.addParent link.1)) fun c => by
    rw [Chunk.addParent_eq]
    rfl
  exact (hchild k).trans (hparent k)

theorem foldl_addLink (links : List (Key × Key)) (s : Store) :
    s.SameContent (links.foldl Store.addLink s) := by
  induction links generalizing s with
  | nil => exact fun _ => rfl
  | cons link links ih => exact fun k => (addLink s link k).trans (ih _ k)

/-- Linking keeps the content of all chunks, also if it fails. -/
theorem link (s : Store) : s.SameContent (Operation.link.run s).1 := by
  cases hl : s.link.outcome with
  | error e =>
    rw [Operation.run, hl]
    exact fun _ => rfl
  | ok linked =>
    obtain ⟨links, -, hlinked, -⟩ := link_eq_ok_iff.1 hl
    rw [Operation.run, hl]
    exact hlinked ▸ foldl_addLink links s

/-- The chunks of two stores with the same content are expanded to the same. -/
theorem expand (h : s.SameContent s') (config : Config) (k : Key) :
    (s.get? k).map (·.expand s config) = (s'.get? k).map (·.expand s' config) := by
  have hk := h k
  cases hc : s.get? k with
  | none =>
    rw [hc] at hk
    rw [Option.map_eq_none_iff.1 hk.symm]
    rfl
  | some c =>
    rw [hc] at hk
    obtain ⟨c', hc', hcontent⟩ := Option.map_eq_some_iff.1 hk.symm
    rw [hc', Option.map_some, Option.map_some,
      Chunk.expand_of_content hcontent.symm fun r _ => h.lookup r.name]

end SameContent

/-! ## Definitions -/

/-- A definition changes what a name stands for only if it is the name of the new chunk, and if
    that name stood for nothing, or if the new chunk is a fragment and there is a file of its
    name. -/
theorem lookup_of_define {d : Chunk} (h : s.define d = .ok s') {name : Name}
    (hname : name = d.name → s.lookup d.name ≠ none ∧
      (d.kind = .fragment → s.get? ⟨.file, d.name⟩ = none)) :
    s'.lookup name = s.lookup name := by
  have hget := get?_of_define h
  by_cases e : name = d.name
  · subst e
    obtain ⟨hsome, hfile⟩ := hname rfl
    have hfree := (define_eq_ok_iff.1 h).1
    rw [lookup] at hsome
    cases hkind : d.kind with
    | fragment =>
      -- The name would have to stand for a file, and there is none.
      have hkey : d.key = ⟨.fragment, d.name⟩ := by rw [Chunk.key, hkind]
      rw [hkey] at hfree
      rw [hfree, hfile hkind] at hsome
      exact absurd rfl hsome
    | file =>
      -- The name stands for a fragment, which comes before the new file.
      have hkey : d.key = ⟨.file, d.name⟩ := by rw [Chunk.key, hkind]
      rw [hkey] at hfree
      rw [hfree, Option.or_none] at hsome
      obtain ⟨b, hb⟩ := Option.ne_none_iff_exists'.1 hsome
      have hb' : s'.get? ⟨.fragment, d.name⟩ = some b := by
        rw [hget, if_neg (by rw [hkey]; simp), hb]
      rw [lookup, lookup, hb, hb', Option.some_or, Option.some_or]
  · have hother (kind : Kind) : s'.get? ⟨kind, name⟩ = s.get? ⟨kind, name⟩ := by
      rw [hget, if_neg fun hk => e (congrArg Key.name hk)]
    rw [lookup, lookup, hother, hother]

end Store

namespace Chunk

/-- A chunk is expanded alike in two stores if all names that it reaches stand for the same
    content in both. So linking and shebangs change no expansion, and a definition changes that
    of another chunk only if its name is reached from there, and if the name stood for nothing
    or a fragment takes the place of a file. -/
theorem expand_local (s : Store) (config : Config) :
    (∀ (s' : Store) (c c' : Chunk), c.content = c'.content →
      (∀ r, s.Reaches c r →
        (s.lookup r.name).map (·.content) = (s'.lookup r.name).map (·.content)) →
      c.expand s config = c'.expand s' config) ∧
    (∀ op : Operation, (op = .link ∨ ∃ k text, op = .setShebang k text) → ∀ k,
      (s.get? k).map (·.expand s config) =
        ((op.run s).1.get? k).map (·.expand (op.run s).1 config)) ∧
    ∀ (s' : Store) (d : Chunk), s.define d = .ok s' → ∀ k c, s.get? k = some c →
      s'.get? k = some c ∧
      (c.expand s config ≠ c.expand s' config → ∃ r, s.Reaches c r ∧ r.name = d.name ∧
        (s.lookup d.name = none ∨ d.kind = .fragment ∧ s.get? ⟨.file, d.name⟩ ≠ none)) := by
  refine ⟨fun s' c c' hc h => expand_of_content hc h config, ?_, fun s' d hd k c hc => ⟨?_, ?_⟩⟩
  · rintro op (rfl | ⟨k, text, rfl⟩)
    · exact (Store.SameContent.link s).expand config
    · exact (Store.SameContent.update s k (content_setShebang · text)).expand config
  · have hne : k ≠ d.key := by
      rintro rfl
      cases hc.symm.trans (Store.define_eq_ok_iff.1 hd).1
    rw [Store.get?_of_define hd, if_neg hne, hc]
  · intro hne
    by_contra hall
    refine hne (expand_of_content rfl (fun r hr => ?_) config)
    rw [Store.lookup_of_define hd]
    intro hname
    constructor
    · exact fun hnone => hall ⟨r, hr, hname, .inl hnone⟩
    · intro hkind
      by_contra hfile
      exact hall ⟨r, hr, hname, .inr ⟨hkind, hfile⟩⟩

/-- A fragment that refers to a file. -/
def exposed : Store :=
  { fragments := [ofLine "a" "@<x@>"], files := [{ ofLine "x" "y" with role := .file none }] }

/-- The same, where a fragment has taken the place of the file. -/
def shaded : Store := { exposed with fragments := [ofLine "a" "@<x@>", ofLine "x" "z"] }

theorem expand_exposed_shaded :
    let a := ofLine "a" "@<x@>"
    exposed.define (ofLine "x" "z") = .ok shaded ∧
      a.expand exposed { annotation := .naked } ≠ a.expand shaded { annotation := .naked } ∧
      (∃ r, exposed.Reaches a r ∧ r.name = .ofText ['x']) ∧
      (∀ r, exposed.Reaches a r → (exposed.lookup r.name).map (·.content) =
        ((exposed.setShebang ⟨.file, .ofText ['x']⟩ ['#']).lookup r.name).map (·.content)) ∧
      a.expand exposed {} =
        a.expand (exposed.setShebang ⟨.file, .ofText ['x']⟩ ['#']) {} := by
  intro a
  have hdefine : exposed.define (ofLine "x" "z") = .ok shaded := by decide
  have hexposed : Unfolding.Unfolds exposed (.start a.key) a.steps _ :=
    .begins (.inserted (r := ⟨[], .ofText ['x'], []⟩) (by decide) rfl rfl
      (.begins (.plain (by decide) (.ends .done))) (.ends .done))
  have hshaded : Unfolding.Unfolds shaded (.start a.key) a.steps _ :=
    .begins (.inserted (r := ⟨[], .ofText ['x'], []⟩) (by decide) rfl rfl
      (.begins (.plain (by decide) (.ends .done))) (.ends .done))
  have hne : a.expand exposed { annotation := .naked } ≠
      a.expand shaded { annotation := .naked } := by
    intro h
    have houtcome := congrArg (fun x => x.outcome.map (·.text)) h
    simp only [expand_of_unfolds hexposed, expand_of_unfolds hshaded] at houtcome
    exact absurd houtcome (by decide)
  obtain ⟨-, -, hdefined⟩ := expand_local exposed { annotation := .naked }
  obtain ⟨r, hr, hname, -⟩ := (hdefined shaded _ hdefine a.key a (by decide)).2 hne
  have hcontent := (Store.SameContent.update exposed ⟨.file, .ofText ['x']⟩
    (content_setShebang · ['#'])).lookup
  exact ⟨hdefine, hne, ⟨r, hr, hname⟩, fun r _ => hcontent r.name,
    (expand_local exposed {}).1 _ a a rfl fun r _ => hcontent r.name⟩

end Chunk

end Tangle
