/-
References in attribute values and text, and the value that an attribute's characters stand for.

A reference names a character by number or by one of the five names that need no declaration. In a
value, a line end or a tab that is written as such becomes a space; one written by number is kept.
-/
import StencilKit.Xml.Scan

namespace StencilKit.Xml

/-- What a well-formed reference names. -/
inductive Reference where
  | char (c : Char)
  | entity (name : List Char)
  deriving DecidableEq, Repr

/-- The character of a number; where there is none, the replacement character. -/
def charOfNumber (n : Nat) : Char :=
  if n < 0xd800 ∨ (0xdfff < n ∧ n < 0x110000) then .ofNat n else '\ufffd'

/-- The value of a hexadecimal digit. -/
def hexValue? (c : Char) : Option Nat :=
  if c.isDigit then some (c.toNat - 48)
  else if 'a' ≤ c ∧ c ≤ 'f' then some (c.toNat - 97 + 10)
  else if 'A' ≤ c ∧ c ≤ 'F' then some (c.toNat - 65 + 10)
  else none

/-- Whether a character is a digit of the given base, ten or sixteen. -/
def isDigitOf (base : Nat) (c : Char) : Bool := if base = 16 then (hexValue? c).isSome else c.isDigit

/-- The character numbered by digits. The number has to fit a 32-bit word, and the character has to
be one that a document may hold. -/
def numberedChar? (base : Nat) (digits : List Char) : Option Char :=
  let n := digits.foldl (fun n d => base * n + (hexValue? d).getD 0) 0
  if digits.isEmpty || decide (UInt32.size ≤ n) then none
  else if isChar (charOfNumber n) then some (charOfNumber n)
  else none

/-- The character that a declared-by-default name stands for, or the name itself. -/
def Reference.ofName (name : List Char) : Reference :=
  if name = "quot".toList then .char '\x22'
  else if name = "amp".toList then .char '&'
  else if name = "apos".toList then .char '\x27'
  else if name = "lt".toList then .char '<'
  else if name = "gt".toList then .char '>'
  else .entity name

/-- What is left after the semicolon that ends a reference. -/
def endReference (r : Reference) : List Char → Option (Reference × List Char)
  | ';' :: rest => some (r, rest)
  | _ => none

/-- A reference by number, after its number sign. -/
def readNumbered (base : Nat) (cs : List Char) : Option (Reference × List Char) := do
  let c ← numberedChar? base (cs.takeWhile (isDigitOf base))
  endReference (.char c) (cs.dropWhile (isDigitOf base))

/-- A reference, after its ampersand. -/
def readReference : List Char → Option (Reference × List Char)
  | '#' :: 'x' :: cs => readNumbered 16 cs
  | '#' :: cs => readNumbered 10 cs
  | cs =>
    match readName cs with
    | .ok (name, rest) => endReference (.ofName name) rest
    | .error _ => none

theorem endReference_length_lt {r r' cs rest} (h : endReference r cs = some (r', rest)) :
    rest.length < cs.length := by
  unfold endReference at h
  split at h
  · simp only [Option.some.injEq, Prod.mk.injEq] at h; simp [h.2]
  · simp at h

theorem readNumbered_length_lt {base cs r rest} (h : readNumbered base cs = some (r, rest)) :
    rest.length < cs.length := by
  simp only [readNumbered, Option.bind_eq_bind, Option.bind_eq_some_iff] at h
  obtain ⟨_, _, h⟩ := h
  have := endReference_length_lt h
  have : (cs.dropWhile (isDigitOf base)).length ≤ cs.length := dropWhile_length_le cs
  omega

theorem readReference_length_lt {cs r rest} (h : readReference cs = some (r, rest)) :
    rest.length < cs.length := by
  unfold readReference at h
  split at h
  · have := readNumbered_length_lt h; simp; omega
  · have := readNumbered_length_lt h; simp; omega
  · split at h
    · rename_i hn
      have := endReference_length_lt h
      have := readName_length_le hn
      omega
    · simp at h

/-- The value that a run of characters stands for; `after` is what follows the run in the text. -/
def expand (after : List Char) : List Char → Except Fault (List Char)
  | [] => .ok []
  | c :: cs =>
    if c = '&' then
      match h : readReference cs with
      | some (.char d, rest) =>
        have _shorter := readReference_length_lt h
        (expand after rest).map (d :: ·)
      | some (.entity name, _) => .error (fault (.unknownEntity (.ofList name)) (c :: cs ++ after))
      | none => .error (fault .badReference (c :: cs ++ after))
    else if c = '\r' ∧ cs.head? = some '\n' then expand after cs
    else if c = '\n' ∨ c = '\r' ∨ c = '\t' then (expand after cs).map (' ' :: ·)
    else (expand after cs).map (c :: ·)
termination_by cs => cs.length
decreasing_by
  · simp; omega
  · simp
  · simp
  · simp

end StencilKit.Xml
