import Tangle.Document
import Tangle.Proofs.Derivations
import Tangle.Proofs.Registries
import Mathlib.Data.List.Forall2

/-!
# Other line numbers

What becomes of a store if the lines that are added to it have other numbers. Two lists
of chunks are *renumbered* (`Registry.Renumbered`) if they come from the same chunks by
the same additions, but for the numbers of the lines that are added: the chunks that were
there keep the occurrences that they had, and all occurrences after those, and all chunks
after those, differ by a function on numbers.

* Closing a block keeps this up (`Draft.close_renumbered`), since a store is searched by
  names, and names have no numbers.
* Without anchors, no number gets into the text of a chunk, so stores that are renumbered
  give the same texts (`Store.Renumbered.map_text`). What counts is that the steps of a
  chunk have the same *code* (`Step.SameCode`), wherever they are located.
-/

namespace Tangle

variable {f : Nat → Nat}

/-! ## Numbers -/

section Numbers

variable (f)

/-- The same document, at the line of the new number. -/
def Location.renumbered (l : Location) : Location := ⟨l.document, f l.line⟩

/-- The occurrence, with all lines under their new numbers. -/
def Occurrence.renumbered (o : Occurrence) : Occurrence :=
  ⟨o.location.renumbered f, o.body.map fun line => (f line.1, line.2)⟩

/-- The draft, with all lines under their new numbers. -/
def Draft.renumbered (d : Draft) : Draft := { d with occurrence := d.occurrence.renumbered f }

/-- The error, at the new number of its line if it has one. -/
def Error.renumbered : Error → Error
  | .alreadyDefined kind name location => .alreadyDefined kind name (location.renumbered f)
  | .notDefined kind name location => .notDefined kind name (location.renumbered f)
  | .misplacedShebang name location => .misplacedShebang name (location.renumbered f)
  | e => e

/-- The two chunks have the occurrences that were there, and the same other ones but for the
    numbers of their lines; in all else they are the same. -/
def Chunk.Renumbered (old : List Occurrence) (c c' : Chunk) : Prop :=
  ∃ added, c.occurrences = old ++ added ∧
    c' = { c with occurrences := old ++ added.map (·.renumbered f) }

/-- The two lists start with the chunks that were there, and go on with the same new ones,
    but for the numbers of all lines that are new. -/
inductive Registry.Renumbered : List Chunk → List Chunk → List Chunk → Prop
  /-- All chunks are new. -/
  | fresh {cs cs' : List Chunk} :
    List.Forall₂ (Chunk.Renumbered f []) cs cs' → Renumbered [] cs cs'
  /-- The first chunk was there. -/
  | known {was c c' : Chunk} {old cs cs' : List Chunk} :
    Chunk.Renumbered f was.occurrences c c' → Renumbered old cs cs' →
      Renumbered (was :: old) (c :: cs) (c' :: cs')

/-- The two stores come from the first one by the same additions, but for the numbers of all
    lines that are new. -/
def Store.Renumbered (s t t' : Store) : Prop :=
  ∀ kind, Registry.Renumbered f (s.registry kind) (t.registry kind) (t'.registry kind)

end Numbers

theorem Error.renumbered_id (e : Error) : e.renumbered id = e := by
  cases e <;> rfl

/-! ## Chunks -/

namespace Chunk.Renumbered

variable {old : List Occurrence} {c c' : Chunk}

theorem refl (c : Chunk) : Chunk.Renumbered f c.occurrences c c := ⟨[], by simp, by simp⟩

theorem name (h : Chunk.Renumbered f old c c') : c'.name = c.name := by
  obtain ⟨added, -, rfl⟩ := h
  rfl

theorem key (h : Chunk.Renumbered f old c c') : c'.key = c.key := by
  obtain ⟨added, -, rfl⟩ := h
  rfl

/-- Occurrences that differ by their numbers may be added. -/
theorem append (h : Chunk.Renumbered f old c c') (o : Occurrence) :
    Chunk.Renumbered f old (c.append o) (c'.append (o.renumbered f)) := by
  obtain ⟨added, hadded, rfl⟩ := h
  exact ⟨added ++ [o], by simp [Chunk.append, hadded], by simp [Chunk.append]⟩

theorem setShebang (h : Chunk.Renumbered f old c c') (text : Text) :
    Chunk.Renumbered f old (c.setShebang text) (c'.setShebang text) := by
  obtain ⟨added, hadded, rfl⟩ := h
  obtain ⟨name, language, role, occurrences, parents, children⟩ := c
  cases role <;> exact ⟨added, hadded, rfl⟩

/-- If no number changes, the chunks are the same. -/
theorem eq_of_id (h : Chunk.Renumbered id old c c') : c' = c := by
  obtain ⟨added, hadded, rfl⟩ := h
  have hid : added.map (·.renumbered id) = added := by
    refine (List.map_congr_left fun o _ => ?_).trans (List.map_id _)
    exact congrArg (Occurrence.mk o.location) (List.map_id _)
  rw [hid, ← hadded]

end Chunk.Renumbered

/-! ## Registries -/

namespace Registry.Renumbered

variable {old cs cs' : List Chunk}

theorem refl (cs : List Chunk) : Registry.Renumbered f cs cs cs := by
  induction cs with
  | nil => exact .fresh .nil
  | cons c cs ih => exact .known (.refl c) ih

/-- The chunks are renumbered one by one. -/
theorem forall₂ (h : Registry.Renumbered f old cs cs') :
    List.Forall₂ (fun c c' => ∃ old, Chunk.Renumbered f old c c') cs cs' := by
  induction h with
  | fresh h => exact h.imp fun c c' hc => ⟨_, hc⟩
  | known hc _ ih => exact .cons ⟨_, hc⟩ ih

/-- A new chunk may be added. -/
theorem append (h : Registry.Renumbered f old cs cs') {c c' : Chunk}
    (hc : Chunk.Renumbered f [] c c') : Registry.Renumbered f old (cs ++ [c]) (cs' ++ [c']) := by
  induction h with
  | fresh h => exact .fresh (List.rel_append h (.cons hc .nil))
  | known hk _ ih => exact .known hk ih

/-- Every chunk may be changed in the same way. -/
theorem map (h : Registry.Renumbered f old cs cs') {g g' : Chunk → Chunk}
    (hg : ∀ old c c', Chunk.Renumbered f old c c' → Chunk.Renumbered f old (g c) (g' c')) :
    Registry.Renumbered f old (cs.map g) (cs'.map g') := by
  induction h with
  | fresh h => exact .fresh (List.rel_map (fun c c' hc => hg _ c c' hc) h)
  | known hc _ ih => exact .known (hg _ _ _ hc) ih

end Registry.Renumbered

/-- In lists that are related, one finds nothing in both, or else what is related. -/
theorem find?_of_forall₂ {α β : Type} {R : α → β → Prop} {p : α → Bool} {q : β → Bool}
    (hpq : ∀ a b, R a b → p a = q b) {l : List α} {l' : List β} (h : List.Forall₂ R l l') :
    (l.find? p = none ∧ l'.find? q = none) ∨
      ∃ a b, l.find? p = some a ∧ l'.find? q = some b ∧ R a b := by
  induction h with
  | nil => exact .inl ⟨rfl, rfl⟩
  | @cons a b _ _ hab _ ih =>
    rw [List.find?_cons, List.find?_cons, ← hpq _ _ hab]
    cases p a with
    | true => exact .inr ⟨a, b, rfl, rfl, hab⟩
    | false => exact ih

/-! ## Stores -/

namespace Store.Renumbered

variable {s t t' : Store}

theorem refl (s : Store) : Store.Renumbered f s s s := fun kind => .refl (s.registry kind)

/-- If no number changes, the stores are the same. -/
theorem eq_of_id (h : Store.Renumbered id s t t') : t' = t := by
  have hregistry (kind : Kind) : t'.registry kind = t.registry kind := by
    have heq : List.Forall₂ (fun c c' : Chunk => c = c') (t.registry kind) (t'.registry kind) :=
      (h kind).forall₂.imp fun c c' ⟨_, hc⟩ => hc.eq_of_id.symm
    exact (List.forall₂_eq_eq_eq ▸ heq : t.registry kind = t'.registry kind).symm
  exact congrArg₂ Store.mk (hregistry .fragment) (hregistry .file)

/-- Under a key there is nothing in both stores, or else a chunk that is renumbered. -/
theorem get? (h : Store.Renumbered f s t t') (k : Key) :
    (t.get? k = none ∧ t'.get? k = none) ∨
      ∃ c c', t.get? k = some c ∧ t'.get? k = some c' ∧ ∃ old, Chunk.Renumbered f old c c' :=
  find?_of_forall₂ (fun c c' ⟨_, hc⟩ => by rw [hc.name]) (h k.kind).forall₂

/-- A name stands for nothing in both stores, or else for a chunk that is renumbered. -/
theorem lookup (h : Store.Renumbered f s t t') (name : Name) :
    (t.lookup name = none ∧ t'.lookup name = none) ∨
      ∃ c c', t.lookup name = some c ∧ t'.lookup name = some c' ∧
        ∃ old, Chunk.Renumbered f old c c' := by
  rw [Store.lookup, Store.lookup]
  rcases h.get? ⟨.fragment, name⟩ with ⟨hc, hc'⟩ | ⟨c, c', hc, hc', hren⟩
  · rw [hc, hc', Option.none_or, Option.none_or]
    exact h.get? ⟨.file, name⟩
  · rw [hc, hc', Option.some_or, Option.some_or]
    exact .inr ⟨c, c', rfl, rfl, hren⟩

theorem setRegistry (h : Store.Renumbered f s t t') {kind : Kind} {cs cs' : List Chunk}
    (hc : Registry.Renumbered f (s.registry kind) cs cs') :
    Store.Renumbered f s (t.setRegistry kind cs) (t'.setRegistry kind cs') := by
  intro kind'
  by_cases hk : kind' = kind
  · subst hk
    rwa [registry_setRegistry, registry_setRegistry]
  · rw [registry_setRegistry_of_ne _ _ hk, registry_setRegistry_of_ne _ _ hk]
    exact h kind'

theorem update (h : Store.Renumbered f s t t') (k : Key) {g g' : Chunk → Chunk}
    (hg : ∀ old c c', Chunk.Renumbered f old c c' → Chunk.Renumbered f old (g c) (g' c')) :
    Store.Renumbered f s (t.update k g) (t'.update k g') := by
  refine h.setRegistry ((h k.kind).map fun old c c' hc => ?_)
  rw [hc.name]
  split
  · exact hg old c c' hc
  · exact hc

end Store.Renumbered

/-- A block that differs by its numbers is closed in the same way: it adds the same, or else
    the error is the same. -/
theorem Draft.close_renumbered {s t t' : Store} (h : Store.Renumbered f s t t') (d : Draft) :
    (∀ u, (d.close t).outcome = .ok u →
      ∃ u', ((d.renumbered f).close t').outcome = .ok u' ∧ Store.Renumbered f s u u') ∧
    ∀ e, (d.close t).outcome = .error e →
      ((d.renumbered f).close t').outcome = .error (e.renumbered f) := by
  have hchunk : Chunk.Renumbered f [] d.chunk (d.renumbered f).chunk := ⟨[d.occurrence], rfl, rfl⟩
  rw [close, close]
  cases ho : d.opening.operator with
  | define =>
    have ho' : (d.renumbered f).opening.operator = .define := ho
    simp only [ho', Store.define]
    rw [hchunk.key]
    rcases h.get? d.chunk.key with ⟨hc, hc'⟩ | ⟨c, c', hc, hc', -⟩
    · rw [hc, hc']
      refine ⟨?_, fun e he => (by cases he)⟩
      rintro u ⟨⟩
      exact ⟨_, rfl, h.setRegistry ((h _).append hchunk)⟩
    · rw [hc, hc']
      refine ⟨fun u hu => (by cases hu), ?_⟩
      rintro e ⟨⟩
      rfl
  | extend =>
    have ho' : (d.renumbered f).opening.operator = .extend := ho
    have hk : (d.renumbered f).key = d.key := rfl
    simp only [ho', Store.extend, hk]
    rcases h.get? d.key with ⟨hc, hc'⟩ | ⟨c, c', hc, hc', -⟩
    · rw [hc, hc']
      refine ⟨fun u hu => (by cases hu), ?_⟩
      rintro e ⟨⟩
      rfl
    · rw [hc, hc']
      refine ⟨?_, fun e he => (by cases he)⟩
      have hupdate := h.update d.key fun _ _ _ hc => hc.append d.occurrence
      have hshebang : (d.renumbered f).shebang = d.shebang := rfl
      rintro u ⟨⟩
      refine ⟨_, rfl, ?_⟩
      rw [hshebang]
      cases d.shebang with
      | none => exact hupdate
      | some text => exact hupdate.update d.key fun _ _ _ hc => hc.setShebang text

/-! ## Texts without anchors -/

/-- The steps are the same, wherever they are located. -/
inductive Step.SameCode : Step → Step → Prop
  | begins {l l' : Location} : SameCode (.begins l) (.begins l')
  | ends {l l' : Location} : SameCode (.ends l) (.ends l')
  | line {l l' resume resume' : Location} {text : Text} :
    SameCode (.line l resume text) (.line l' resume' text)

theorem Step.SameCode.refl : (step : Step) → SameCode step step
  | .begins _ => .begins
  | .ends _ => .ends
  | .line .. => .line

theorem Occurrence.sameCode_renumbered (o : Occurrence) :
    List.Forall₂ Step.SameCode o.steps (o.renumbered f).steps := by
  have hlines : (o.renumbered f).lines = o.lines.map fun line => (f line.1, line.2) := by
    have htext : (o.renumbered f).text = o.text := by
      simp [text, renumbered, Function.comp_def]
    rw [lines, lines, htext]
    simp [renumbered, List.zip_map_left, Function.comp_def]
  rw [steps, steps, hlines]
  refine .cons .begins (List.rel_append ?_ (.cons .ends .nil))
  rw [List.zipIdx_map]
  simp only [List.map_map, List.forall₂_map_left_iff, List.forall₂_map_right_iff]
  exact List.forall₂_same.2 fun _ _ => .line

/-- Chunks that are renumbered have the same code. -/
theorem Chunk.Renumbered.sameCode {old : List Occurrence} {c c' : Chunk}
    (h : Chunk.Renumbered f old c c') : List.Forall₂ Step.SameCode c.steps c'.steps := by
  obtain ⟨added, hadded, rfl⟩ := h
  rw [steps, steps, hadded, List.flatMap_append, List.flatMap_append]
  refine List.rel_append (List.forall₂_same.2 fun _ _ => .refl _) ?_
  refine List.rel_flatMap (R := fun o o' => o' = o.renumbered f) ?_ ?_
  · exact List.forall₂_map_right_iff.2 (List.forall₂_same.2 fun _ _ => rfl)
  · rintro o _ rfl
    exact o.sameCode_renumbered

/-- A name that stands for a chunk stands for one with the same code in the other store. -/
theorem Store.Renumbered.lookup_eq_some {s t t' : Store} (h : Store.Renumbered f s t t')
    {name : Name} {c : Chunk} (hc : t.lookup name = some c) :
    ∃ c', t'.lookup name = some c' ∧ c'.key = c.key ∧
      List.Forall₂ Step.SameCode c.steps c'.steps := by
  rcases h.lookup name with ⟨hnone, -⟩ | ⟨c₁, c', hc₁, hc', old, hren⟩
  · cases hc.symm.trans hnone
  · cases hc.symm.trans hc₁
    exact ⟨c', hc', hren.key, hren.sameCode⟩

namespace Unfolding

variable {config : Config}

theorem anchor_of_not_anchored (hn : config.anchored = false) (indent : Text) (c : Chunk)
    (l : Location) (words : Comment → Location → Name → Text) :
    anchor config indent c l words = [] := by
  rw [anchor, hn]
  rfl

/-- If what follows is rendered to the same, so is what is made of it. -/
theorem map_render_congr {x x' : Report Unfolding} {c c' : Chunk} {g g' : Unfolding → Unfolding}
    (front : List Text) (h : x'.outcome.map (render config c') = x.outcome.map (render config c))
    (hg : ∀ u, (g u).render config c = front ++ u.render config c)
    (hg' : ∀ u, (g' u).render config c' = front ++ u.render config c') :
    (x' >>= fun u => pure (g' u)).outcome.map (render config c') =
      (x >>= fun u => pure (g u)).outcome.map (render config c) := by
  obtain ⟨log, e | u⟩ := x <;> obtain ⟨log', e' | u'⟩ := x'
  · exact h
  · cases h
  · cases h
  · have hrest : u'.render config c' = u.render config c := Except.ok.inj h
    refine congrArg Except.ok ?_
    rw [hg, hg', hrest]

/-- Without anchors, the lines of a chunk depend on the code of its steps, and on that of
    the chunks that its references stand for. -/
theorem render_sameCode {s t t' : Store} (h : Store.Renumbered f s t t')
    (hn : config.anchored = false) (trail : Trail) {steps steps' : List Step}
    (hs : List.Forall₂ Step.SameCode steps steps') (c c' : Chunk) :
    (build t' trail steps').outcome.map (render config c') =
      (build t trail steps).outcome.map (render config c) := by
  have hanchor := anchor_of_not_anchored hn
  fun_induction build t trail steps generalizing steps' c c' with
  | case1 =>
    cases hs
    rw [build]
    rfl
  | case2 trail location rest ih =>
    obtain ⟨⟩ | ⟨⟨⟩, hrest⟩ := hs
    rw [build]
    exact map_render_congr [] (ih hrest c c') (fun u => by rw [render, hanchor])
      fun u => by rw [render, hanchor]
  | case3 trail location rest ih =>
    obtain ⟨⟩ | ⟨⟨⟩, hrest⟩ := hs
    rw [build]
    exact map_render_congr [] (ih hrest c c') (fun u => by rw [render, hanchor])
      fun u => by rw [render, hanchor]
  | case4 trail location resume text rest hp ih =>
    obtain ⟨⟩ | ⟨⟨⟩, hrest⟩ := hs
    rw [build]
    simp only [hp]
    exact map_render_congr [text] (ih hrest c c') (fun u => rfl) fun u => rfl
  | case5 trail location resume text rest r hp hl ih =>
    obtain ⟨⟩ | ⟨⟨⟩, hrest⟩ := hs
    have hl' : t'.lookup r.name = none := by
      rcases h.lookup r.name with ⟨-, hl'⟩ | ⟨c, c', hc, -⟩
      · exact hl'
      · cases hl.symm.trans hc
    rw [build_missing hp hl']
    exact map_render_congr (replaced config r []) (ih hrest c c')
      (fun u => by rw [render, hanchor, List.append_nil])
      fun u => by rw [render, hanchor, List.append_nil]
  | case6 trail location resume text rest r hp child hl e ht =>
    obtain ⟨⟩ | ⟨⟨⟩, hrest⟩ := hs
    obtain ⟨child', hl', hkey, -⟩ := h.lookup_eq_some hl
    rw [← hkey] at ht
    rw [build_circle hp hl' ht]
    rfl
  | case7 trail location resume text rest r hp child hl trail' ht _ ihInside ihRest =>
    obtain ⟨⟩ | ⟨⟨⟩, hrest⟩ := hs
    obtain ⟨child', hl', hkey, hcode⟩ := h.lookup_eq_some hl
    have hinside := ihInside hcode child child'
    rw [← hkey] at ht
    rw [build_inserted hp hl' ht]
    -- Either both chunks come to the same error, or else to the same lines.
    generalize build t trail' child.steps = x at hinside ⊢
    generalize build t' trail' child'.steps = x' at hinside ⊢
    obtain ⟨log, e | inside⟩ := x <;> obtain ⟨log', e' | inside'⟩ := x'
    · exact hinside
    · cases hinside
    · cases hinside
    · have heq : inside'.render config child' = inside.render config child :=
        Except.ok.inj hinside
      exact map_render_congr (replaced config r (inside.render config child))
        (ihRest hrest c c') (fun u => by rw [render, hanchor, List.append_nil])
        fun u => by rw [render, hanchor, List.append_nil, heq]

end Unfolding

/-- Without anchors, stores that are renumbered give the same texts. -/
theorem Store.Renumbered.map_text {s t t' : Store} (h : Store.Renumbered f s t t')
    {config : Config} (hn : config.anchored = false) (kind : Kind) :
    ((t'.registry kind).map fun c => (c.expand t' config).outcome.map (·.text)) =
      (t.registry kind).map fun c => (c.expand t config).outcome.map (·.text) := by
  have htext (t : Store) (c : Chunk) : (c.expand t config).outcome.map (·.text) =
      ((Unfolding.build t (.start c.key) c.steps).outcome.map (Unfolding.render config c)).map
        Text.unlines := by
    rw [Chunk.expand, Chunk.unfolding_eq]
    obtain ⟨log, e | u⟩ := Unfolding.build t (.start c.key) c.steps <;> rfl
  have hchunk : List.Forall₂ (fun c c' : Chunk => (c.expand t config).outcome.map (·.text) =
      (c'.expand t' config).outcome.map (·.text)) (t.registry kind) (t'.registry kind) := by
    refine (h kind).forall₂.imp ?_
    rintro c c' ⟨old, hc⟩
    rw [htext, htext, hc.key, Unfolding.render_sameCode h hn _ hc.sameCode]
  rw [← List.forall₂_eq_eq_eq, List.forall₂_map_left_iff, List.forall₂_map_right_iff]
  exact hchunk.flip.imp fun _ _ h => h.symm

end Tangle
