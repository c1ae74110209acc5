import Tangle.Text.Blank

/-!
# Bytes

A text takes some bytes, in the encoding UTF-8. A part of it can be cut out by
counting bytes, if each cut falls between two characters: `slice?` of the bytes
before a part, and of those up to its end, is that part (`slice?_append`).
-/

namespace Tangle.Text

/-- The number of bytes that a text takes. -/
def bytes : Text → Nat
  | [] => 0
  | c :: t => c.utf8Size + bytes t

/-- The text after so many bytes. -/
def dropBytes? : Nat → Text → Option Text
  | 0, t => some t
  | n + 1, c :: t => if c.utf8Size ≤ n + 1 then dropBytes? (n + 1 - c.utf8Size) t else none
  | _ + 1, [] => none
termination_by _ t => t.length

/-- The text up to so many bytes. -/
def takeBytes? : Nat → Text → Option Text
  | 0, _ => some []
  | n + 1, c :: t =>
    if c.utf8Size ≤ n + 1 then (takeBytes? (n + 1 - c.utf8Size) t).map (c :: ·) else none
  | _ + 1, [] => none
termination_by _ t => t.length

/-- The text between two counts of bytes. -/
def slice? (start stop : Nat) (t : Text) : Option Text :=
  (dropBytes? start t).bind (takeBytes? (stop - start))

@[simp] theorem bytes_nil : bytes [] = 0 := rfl

@[simp] theorem bytes_cons (c : Char) (t : Text) : bytes (c :: t) = c.utf8Size + bytes t :=
  rfl

theorem dropBytes?_append (s t : Text) : dropBytes? (bytes s) (s ++ t) = some t := by
  induction s with
  | nil => simp [dropBytes?]
  | cons c s ih =>
    obtain ⟨n, hn⟩ : ∃ n, c.utf8Size + bytes s = n + 1 :=
      ⟨c.utf8Size - 1 + bytes s, by have := c.utf8Size_pos; omega⟩
    rw [bytes_cons, hn, List.cons_append, dropBytes?, if_pos (by omega), ← hn,
      Nat.add_sub_cancel_left, ih]

theorem takeBytes?_append (s t : Text) : takeBytes? (bytes s) (s ++ t) = some s := by
  induction s with
  | nil => simp [takeBytes?]
  | cons c s ih =>
    obtain ⟨n, hn⟩ : ∃ n, c.utf8Size + bytes s = n + 1 :=
      ⟨c.utf8Size - 1 + bytes s, by have := c.utf8Size_pos; omega⟩
    rw [bytes_cons, hn, List.cons_append, takeBytes?, if_pos (by omega), ← hn,
      Nat.add_sub_cancel_left, ih]
    rfl

/-- A part is what stands between the bytes before it and those up to its end. -/
theorem slice?_append (before part after : Text) :
    slice? (bytes before) (bytes before + bytes part) (before ++ (part ++ after)) = some part := by
  rw [slice?, dropBytes?_append, Nat.add_sub_cancel_left, Option.bind_some, takeBytes?_append]

end Tangle.Text
