import HeaderConstants.Text.Utf8

/-!
# Byte offsets

The offsets at which a text can be cut are the byte lengths of what stands before a character of it,
and its own byte length.

* `Text.dropBytes?_eq_some_iff`: what follows an offset;
* `Text.slice?`, `Text.slice?_byteLength`: what stands between two offsets.
-/

namespace HeaderConstants.Text
set_option autoImplicit false

variable {n : Nat} {t u v w : Text}

@[simp] theorem byteLength_append (u v : Text) :
    byteLength (u ++ v) = byteLength u + byteLength v := by
  induction u with
  | nil => simp [byteLength]
  | cons c u ih => simp [byteLength, ih, Nat.add_assoc]

theorem dropBytes?_zero (t : Text) : dropBytes? 0 t = some t := by
  cases t <;> rfl

/-- A character takes some of the bytes and leaves the others. -/
theorem exists_utf8Size_add (c : Char) (n : Nat) :
    ∃ m, c.utf8Size + n = m + 1 ∧ c.utf8Size ≤ m + 1 ∧ m + 1 - c.utf8Size = n := by
  have hpos := c.utf8Size_pos
  exact ⟨c.utf8Size + n - 1, by omega, by omega, by omega⟩

theorem dropBytes?_cons (c : Char) (n : Nat) (t : Text) :
    dropBytes? (c.utf8Size + n) (c :: t) = dropBytes? n t := by
  obtain ⟨m, hm, hle, hsub⟩ := exists_utf8Size_add c n
  rw [hm, dropBytes?, if_pos hle, hsub]

theorem dropBytes?_byteLength (u v : Text) : dropBytes? (byteLength u) (u ++ v) = some v := by
  induction u with
  | nil => exact dropBytes?_zero v
  | cons c u ih => rw [byteLength, List.cons_append, dropBytes?_cons, ih]

theorem dropBytes?_eq_some_iff :
    dropBytes? n t = some v ↔ ∃ u, t = u ++ v ∧ byteLength u = n := by
  refine ⟨fun h => ?_, fun ⟨u, ht, hn⟩ => ?_⟩
  · induction t generalizing n with
    | nil =>
      cases n with
      | zero => exact ⟨[], by simpa [dropBytes?] using h, rfl⟩
      | succ n => simp [dropBytes?] at h
    | cons c t ih =>
      cases n with
      | zero => exact ⟨[], by simpa [dropBytes?] using h, rfl⟩
      | succ n =>
        rw [dropBytes?] at h
        split at h
        · next hle =>
          obtain ⟨u, rfl, hu⟩ := ih h
          refine ⟨c :: u, rfl, ?_⟩
          rw [byteLength, hu]
          omega
        · simp at h
  · rw [ht, ← hn, dropBytes?_byteLength]

/-! ## Slices -/

/-- The first `n` bytes; nothing past the end or inside a character. -/
def takeBytes? : Nat → Text → Option Text
  | 0, _ => some []
  | _ + 1, [] => none
  | n + 1, c :: rest =>
    if c.utf8Size ≤ n + 1 then (takeBytes? (n + 1 - c.utf8Size) rest).map (c :: ·) else none

/-- What stands between two offsets; nothing if one of them is past the end or inside a character, or
if the second is before the first. -/
def slice? (start stop : Nat) (t : Text) : Option Text :=
  (takeBytes? stop t).bind (dropBytes? start)

theorem takeBytes?_cons (c : Char) (n : Nat) (t : Text) :
    takeBytes? (c.utf8Size + n) (c :: t) = (takeBytes? n t).map (c :: ·) := by
  obtain ⟨m, hm, hle, hsub⟩ := exists_utf8Size_add c n
  rw [hm, takeBytes?, if_pos hle, hsub]

theorem takeBytes?_byteLength (u v : Text) : takeBytes? (byteLength u) (u ++ v) = some u := by
  induction u with
  | nil => cases v <;> rfl
  | cons c u ih => rw [byteLength, List.cons_append, takeBytes?_cons, ih, Option.map_some]

theorem slice?_byteLength (u w v : Text) :
    slice? (byteLength u) (byteLength (u ++ w)) (u ++ w ++ v) = some w := by
  rw [slice?, takeBytes?_byteLength, Option.bind_some, dropBytes?_byteLength]

end HeaderConstants.Text
