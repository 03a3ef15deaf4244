import HeaderConstants.Text.Basic

/-!
# Search and replacement

Occurrences are found from the left and do not overlap. The empty pattern occurs before every
character and at the end.

* `Text.occursIn`: the pattern occurs somewhere;
* `Text.find?`: the position of its first occurrence;
* `Text.replaceAll`: every occurrence gives way to a replacement.
-/

namespace HeaderConstants.Text
set_option autoImplicit false

def occursIn (pattern : Text) : Text → Bool
  | [] => pattern.isEmpty
  | c :: rest => pattern.isPrefixOf (c :: rest) || occursIn pattern rest

def find? (pattern : Text) : Text → Option Nat
  | [] => if pattern.isEmpty then some 0 else none
  | c :: rest =>
    if pattern.isPrefixOf (c :: rest) then some 0 else (find? pattern rest).map (· + 1)

/-- Replaces a nonempty pattern; the number counts the characters of the last occurrence that are
still to be passed over. -/
def replaceFrom (pattern replacement : Text) : Nat → Text → Text
  | _, [] => []
  | skip + 1, _ :: rest => replaceFrom pattern replacement skip rest
  | 0, c :: rest =>
    if pattern.isPrefixOf (c :: rest) then
      replacement ++ replaceFrom pattern replacement (pattern.length - 1) rest
    else c :: replaceFrom pattern replacement 0 rest

def replaceAll (pattern replacement t : Text) : Text :=
  if pattern.isEmpty then replacement ++ t.flatMap (fun c => c :: replacement)
  else replaceFrom pattern replacement 0 t

/-! ## Small facts -/

theorem find?_isSome (pattern t : Text) : (find? pattern t).isSome = occursIn pattern t := by
  induction t with
  | nil => by_cases h : pattern.isEmpty <;> simp [find?, occursIn, h]
  | cons c rest ih =>
    by_cases h : pattern.isPrefixOf (c :: rest) <;> simp [find?, occursIn, h, ih]

theorem replaceFrom_of_not_occursIn {pattern t : Text} (replacement : Text)
    (h : occursIn pattern t = false) : replaceFrom pattern replacement 0 t = t := by
  induction t with
  | nil => rfl
  | cons c rest ih =>
    simp only [occursIn, Bool.or_eq_false_iff] at h
    simp [replaceFrom, h.1, ih h.2]

theorem replaceFrom_skip (pattern replacement : Text) (t rest : Text) :
    replaceFrom pattern replacement t.length (t ++ rest) =
      replaceFrom pattern replacement 0 rest := by
  induction t with
  | nil => rfl
  | cons c t ih => simpa [replaceFrom] using ih

end HeaderConstants.Text
