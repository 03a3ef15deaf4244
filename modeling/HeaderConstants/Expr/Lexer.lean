import HeaderConstants.Text.Blank
import HeaderConstants.Text.Word
import HeaderConstants.Numeral.Digits
import HeaderConstants.Expr.Error

/-!
# Reading tokens

Blanks separate, a run of name characters that starts with a digit is one literal, and a sign of two
characters goes before a sign of one. A name is never a token: the first one ends the reading.

* `Expr.literal?`: the value of a literal, `0x` or `0X` before hexadecimal and `0` before octal
  digits, below `2 ^ 127`;
* `Expr.tokens`: all tokens of a text.
-/

namespace HeaderConstants.Expr
set_option autoImplicit false

inductive LexError where
  | name (symbol : Text)
  | fault (cause : Fault)
  deriving DecidableEq, Repr

def literalValue? : Text → Option Nat
  | '0' :: 'x' :: digits => Numeral.read? 16 digits
  | '0' :: 'X' :: digits => Numeral.read? 16 digits
  | '0' :: d :: digits => Numeral.read? 8 (d :: digits)
  | digits => Numeral.read? 10 digits

def literal? (t : Text) : Option Nat :=
  (literalValue? t).filter (· < 0x80000000000000000000000000000000)

def literalToken (run : Text) : Except LexError Token :=
  match literal? run with
  | some value => .ok (.int value)
  | none => .error (.fault (.invalidLiteral run))

/-- The sign at the start of a text and what follows it. -/
def sign? : Text → Option (Token × Text)
  | [] => none
  | [c] => (Token.single? c).map (·, [])
  | c :: d :: rest =>
    match Token.double? c d with
    | some token => some (token, rest)
    | none => (Token.single? c).map (·, d :: rest)

theorem length_of_sign? {t : Text} {token : Token} {rest : Text}
    (h : sign? t = some (token, rest)) : rest.length < t.length := by
  match t with
  | [] => simp [sign?] at h
  | [c] =>
    simp only [sign?, Option.map_eq_some_iff, Prod.mk.injEq] at h
    obtain ⟨_, _, _, rfl⟩ := h
    simp
  | c :: d :: more =>
    simp only [sign?] at h
    split at h
    · simp only [Option.some.injEq, Prod.mk.injEq] at h
      obtain ⟨_, rfl⟩ := h
      simp only [List.length_cons]
      omega
    · simp only [Option.map_eq_some_iff, Prod.mk.injEq] at h
      obtain ⟨_, _, _, rfl⟩ := h
      simp

def tokens (t : Text) : Except LexError (List Token) :=
  match t with
  | [] => .ok []
  | c :: rest =>
    if isBlank c then tokens rest
    else if c.isDigit then do
      let token ← literalToken (c :: rest.takeWhile isNameChar)
      let more ← tokens (rest.dropWhile isNameChar)
      pure (token :: more)
    else if isNameStart c then .error (.name (c :: rest.takeWhile isNameChar))
    else
      match _h : sign? (c :: rest) with
      | some (token, rest') => do
        let more ← tokens rest'
        pure (token :: more)
      | none => .error (.fault (.unsupported c))
termination_by t.length
decreasing_by
  · simp
  · exact Nat.lt_succ_of_le (List.dropWhile_suffix isNameChar).length_le
  · exact length_of_sign? _h

end HeaderConstants.Expr
