import Tangle.Proofs.Circles

/-!
# One trail for all

A trail may be kept by one owner and shared: each chunk is entered on it before its steps are
unfolded, and left after them. The trail is then changed by *calls*, in any order, some of which
may be refused (`Trail.Call`). Whatever the calls are, the set and the stack of the trail have the
same chunks, each once (`Trail.Sound.after`), and to leave right after entering takes the call
back (`Trail.leave_of_enter`).

So it makes no difference whether each chunk is given a trail of its own, as `Unfolding.build`
does, or all of them share one (`Unfolding.Shares`): steps that are unfolded to their end give
the trail back as it was (`Unfolding.shares_iff`).
-/

namespace Tangle

namespace Trail

/-- What a trail is asked to do. -/
inductive Call
  /-- A chunk is entered. -/
  | enter (k : Key)
  /-- The innermost chunk is left. -/
  | leave
deriving DecidableEq, Inhabited

/-- The trail after a call. A chunk that is refused changes nothing. -/
def call (t : Trail) : Call → Trail
  | .enter k =>
    match t.enter k with
    | .ok t' => t'
    | .error _ => t
  | .leave => t.leave

/-- The trail after calls. -/
def after (t : Trail) (calls : List Call) : Trail := calls.foldl call t

/-- The set has the chunks of the stack, and all of them are there once. -/
structure Sound (t : Trail) : Prop where
  /-- The set has the chunks of the stack. -/
  perm : t.seen.Perm t.stack
  /-- No chunk is on the stack twice. -/
  nodup : t.stack.Nodup

variable {t t' : Trail} {k : Key}

theorem Sound.empty : Sound {} := ⟨.refl _, List.nodup_nil⟩

theorem enter_eq_error_iff {e : Error} :
    t.enter k = .error e ↔ k ∈ t.seen ∧ e = .cycle (t.stack.map (·.name) ++ [k.name]) := by
  unfold enter
  split <;> simp_all [eq_comm]

theorem call_enter_of_ok (h : t.enter k = .ok t') : t.call (.enter k) = t' := by
  rw [call, h]

theorem call_enter_of_error {e : Error} (h : t.enter k = .error e) : t.call (.enter k) = t := by
  rw [call, h]

/-- To leave a chunk takes back that it was entered. -/
theorem leave_of_enter (h : t.enter k = .ok t') : t'.leave = t := by
  obtain ⟨-, rfl⟩ := enter_eq_ok_iff.1 h
  simp [leave]

theorem leave_of_stack_eq_nil (h : t.stack = []) : t.leave = t := by
  rw [leave, h]
  rfl

theorem leave_of_stack_eq_concat {outer : List Key} (h : t.stack = outer ++ [k]) :
    t.leave = ⟨outer, t.seen.erase k⟩ := by
  rw [leave, h, List.getLast?_concat, List.dropLast_concat]

namespace Sound

theorem enter (h : t.Sound) (hk : t.enter k = .ok t') : t'.Sound := by
  obtain ⟨hfresh, rfl⟩ := enter_eq_ok_iff.1 hk
  refine ⟨(h.perm.cons k).trans (List.perm_append_singleton k t.stack).symm, ?_⟩
  rw [← List.concat_eq_append]
  exact h.nodup.concat (mt h.perm.mem_iff.2 hfresh)

theorem leave (h : t.Sound) : t.leave.Sound := by
  rcases List.eq_nil_or_concat' t.stack with hstack | ⟨outer, k, hstack⟩
  · rwa [leave_of_stack_eq_nil hstack]
  · rw [leave_of_stack_eq_concat hstack]
    -- The chunk is in the set once, so it is not in it any more.
    have hperm : t.seen.Perm (k :: outer) :=
      (hstack ▸ h.perm).trans (List.perm_append_singleton k outer)
    exact ⟨List.erase_cons_head k outer ▸ hperm.erase k, (List.nodup_append.1 (hstack ▸ h.nodup)).1⟩

theorem call (h : t.Sound) (c : Call) : (t.call c).Sound := by
  cases c with
  | enter k =>
    cases hk : t.enter k with
    | ok t' => exact call_enter_of_ok hk ▸ h.enter hk
    | error e => exact (call_enter_of_error hk).symm ▸ h
  | leave => exact h.leave

theorem after (h : t.Sound) (calls : List Call) : (t.after calls).Sound := by
  induction calls generalizing t with
  | nil => exact h
  | cons c calls ih => exact ih (h.call c)

theorem mem_iff (h : t.Sound) : k ∈ t.seen ↔ k ∈ t.stack := h.perm.mem_iff

theorem exists_error_iff (h : t.Sound) : (∃ e, t.enter k = .error e) ↔ k ∈ t.stack := by
  simp only [enter_eq_error_iff, exists_and_left, exists_eq, and_true, h.mem_iff]

end Sound

end Trail

/-! ## Unfolding on a shared trail -/

namespace Unfolding

/-- Steps of a chunk unfold to their end on a trail that all chunks share. The last trail is the
    one that they leave behind. -/
inductive Shares (s : Store) : Trail → List Step → Unfolding → Trail → Prop
  | done {t : Trail} : Shares s t [] .done t
  | begins {t t' : Trail} {location : Location} {rest : List Step} {u : Unfolding} :
    Shares s t rest u t' → Shares s t (.begins location :: rest) (.begins location u) t'
  | ends {t t' : Trail} {location : Location} {rest : List Step} {u : Unfolding} :
    Shares s t rest u t' → Shares s t (.ends location :: rest) (.ends location u) t'
  | plain {t t' : Trail} {location resume : Location} {text : Text} {rest : List Step}
      {u : Unfolding} :
    Reference.parse? text = none → Shares s t rest u t' →
      Shares s t (.line location resume text :: rest) (.plain text u) t'
  | missing {t t' : Trail} {location resume : Location} {text : Text} {r : Reference}
      {rest : List Step} {u : Unfolding} :
    Reference.parse? text = some r → s.lookup r.name = none → Shares s t rest u t' →
      Shares s t (.line location resume text :: rest) (.missing r location resume u) t'
  | inserted {t entered returned t' : Trail} {location resume : Location} {text : Text}
      {r : Reference} {child : Chunk} {rest : List Step} {inside u : Unfolding} :
    Reference.parse? text = some r → s.lookup r.name = some child →
      t.enter child.key = .ok entered → Shares s entered child.steps inside returned →
      Shares s returned.leave rest u t' →
      Shares s t (.line location resume text :: rest) (.inserted r child inside resume u) t'

variable {s : Store} {t t' : Trail} {steps : List Step} {u : Unfolding}

/-- Steps that share a trail give it back as it was. -/
theorem Shares.eq_and_unfolds (h : Shares s t steps u t') : t' = t ∧ Unfolds s t steps u := by
  induction h with
  | done => exact ⟨rfl, .done⟩
  | begins _ ih => exact ⟨ih.1, .begins ih.2⟩
  | ends _ ih => exact ⟨ih.1, .ends ih.2⟩
  | plain hp _ ih => exact ⟨ih.1, .plain hp ih.2⟩
  | missing hp hl _ ih => exact ⟨ih.1, .missing hp hl ih.2⟩
  | inserted hp hl ht _ _ ihInside ihRest =>
    obtain ⟨rfl, hinside⟩ := ihInside
    rw [Trail.leave_of_enter ht] at ihRest
    exact ⟨ihRest.1, .inserted hp hl ht hinside ihRest.2⟩

theorem Unfolds.shares (h : Unfolds s t steps u) : Shares s t steps u t := by
  induction h with
  | done => exact .done
  | begins _ ih => exact .begins ih
  | ends _ ih => exact .ends ih
  | plain hp _ ih => exact .plain hp ih
  | missing hp hl _ ih => exact .missing hp hl ih
  | inserted hp hl ht _ _ ihInside ihRest =>
    exact .inserted hp hl ht ihInside ((Trail.leave_of_enter ht).symm ▸ ihRest)

/-- Steps unfold on a shared trail exactly if they do on trails of their own. -/
theorem shares_iff : Shares s t steps u t' ↔ t' = t ∧ (build s t steps).outcome = .ok u := by
  constructor
  · intro h
    obtain ⟨ht, hu⟩ := h.eq_and_unfolds
    exact ⟨ht, build_of_unfolds hu⟩
  · rintro ⟨rfl, h⟩
    exact (unfolds_of_build h).shares

end Unfolding

/-- A chunk unfolds on a trail that all chunks share: it is entered, its steps are unfolded, and
    it is left. -/
def Chunk.Shares (s : Store) (t : Trail) (c : Chunk) (u : Unfolding) (t' : Trail) : Prop :=
  ∃ entered returned, t.enter c.key = .ok entered ∧
    Unfolding.Shares s entered c.steps u returned ∧ t' = returned.leave

theorem Chunk.shares_iff {s : Store} {t t' : Trail} {c : Chunk} {u : Unfolding} :
    c.Shares s t u t' ↔ t' = t ∧ ∃ entered, t.enter c.key = .ok entered ∧
      (Unfolding.build s entered c.steps).outcome = .ok u := by
  simp only [Chunk.Shares, Unfolding.shares_iff]
  constructor
  · rintro ⟨entered, returned, ht, ⟨hreturned, hu⟩, rfl⟩
    rw [hreturned]
    exact ⟨Trail.leave_of_enter ht, entered, ht, hu⟩
  · rintro ⟨rfl, entered, ht, hu⟩
    exact ⟨entered, entered, ht, ⟨rfl, hu⟩, (Trail.leave_of_enter ht).symm⟩

namespace Trail

/-- Whatever was called on a new trail, the set has exactly the chunks of the stack, each once,
    and the depth is their number. A chunk is refused exactly if it is on the stack; then nothing
    changes, and the error shows the stack from the outermost chunk to the innermost, and the chunk
    itself. To leave right after entering restores the trail. And a chunk that is unfolded on the
    trail, which is what `Unfolding.build` does for it, gives the trail back as it was. -/
theorem sound_after_calls (calls : List Call) :
    let t := Trail.after {} calls
    t.seen.Perm t.stack ∧ t.stack.Nodup ∧ t.depth = t.stack.length ∧
    (∀ k, (∃ e, t.enter k = .error e) ↔ k ∈ t.stack) ∧
    (∀ k e, t.enter k = .error e →
      e = .cycle (t.stack.map (·.name) ++ [k.name]) ∧ t.call (.enter k) = t) ∧
    (∀ k t', t.enter k = .ok t' → t.call (.enter k) = t' ∧ t'.call .leave = t) ∧
    ∀ s c u t', Chunk.Shares s t c u t' ↔ t' = t ∧ ∃ entered, t.enter c.key = .ok entered ∧
      (Unfolding.build s entered c.steps).outcome = .ok u := by
  intro t
  have ht : t.Sound := Sound.empty.after calls
  refine ⟨ht.perm, ht.nodup, rfl, fun k => ht.exists_error_iff, fun k e he => ?_,
    fun k t' hk => ⟨call_enter_of_ok hk, leave_of_enter hk⟩, fun s c u t' => Chunk.shares_iff⟩
  exact ⟨(enter_eq_error_iff.1 he).2, call_enter_of_error he⟩

/-- A new trail is left, two chunks are entered and the first of them again, and the second one is
    left. -/
def detour : List Call :=
  [.leave, .enter ⟨.fragment, .ofText ['a']⟩, .enter ⟨.fragment, .ofText ['b']⟩,
    .enter ⟨.fragment, .ofText ['a']⟩, .leave]

theorem sound_after_detour :
    let a : Key := ⟨.fragment, .ofText ['a']⟩
    let s : Store := { fragments := [Chunk.ofLine "b" "@<c@>", Chunk.ofLine "c" "x"] }
    let t := Trail.after {} detour
    t.stack = [a] ∧ t.seen.Perm [a] ∧ t.enter a = .error (.cycle [a.name, a.name]) ∧
      ∃ u, Chunk.Shares s t (Chunk.ofLine "b" "@<c@>") u t := by
  intro a s t
  have hstack : t.stack = [a] := by decide
  obtain ⟨hperm, -, -, hrefused, herror, -, hshares⟩ := sound_after_calls detour
  obtain ⟨e, he⟩ := (hrefused a).2 (hstack ▸ List.mem_singleton_self a)
  have hcycle : e = .cycle [a.name, a.name] := (herror a e he).1
  have hc (t : Trail) : Unfolding.Unfolds s t (Chunk.ofLine "c" "x").steps _ :=
    .begins (.plain (by decide) (.ends .done))
  have hb : Unfolding.Unfolds s (t.call (.enter ⟨.fragment, .ofText ['b']⟩))
      (Chunk.ofLine "b" "@<c@>").steps _ :=
    .begins (.inserted (r := ⟨[], .ofText ['c'], []⟩) (by decide) rfl rfl (hc _) (.ends .done))
  exact ⟨hstack, hstack ▸ hperm, hcycle ▸ he, _,
    (hshares s _ _ t).2 ⟨rfl, _, rfl, Unfolding.build_of_unfolds hb⟩⟩

end Trail

end Tangle
