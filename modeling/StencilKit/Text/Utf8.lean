/-
UTF-8: the bytes of a text, and the text of bytes that are well formed.

A sequence begins with a lead byte, which settles its length and, for some leads, narrows the
second byte so that no code point has two spellings and none is a surrogate. Bytes that break off
inside a sequence are told apart from bytes that no continuation could mend; then the fault counts
the bytes that still fit.
-/
namespace StencilKit.Utf8

/-- Why bytes are not the UTF-8 of a text, with the index at which the sequence begins. -/
inductive Fault where
  | invalid (fitting : Nat) (index : Nat)
  | incomplete (index : Nat)
  deriving DecidableEq, Repr

/-- The wording of a fault. -/
def Fault.message : Fault → String
  | .invalid fitting index => s!"invalid utf-8 sequence of {fitting} bytes from index {index}"
  | .incomplete index => s!"incomplete utf-8 byte sequence from index {index}"

/-- A byte that continues a sequence, with the six bits `n`. -/
def trail (n : Nat) : UInt8 := .ofNat (0x80 + n % 64)

/-- The bytes of a character. -/
def encodeChar (c : Char) : List UInt8 :=
  let n := c.toNat
  if n < 0x80 then [.ofNat n]
  else if n < 0x800 then [.ofNat (0xc0 + n / 64), trail n]
  else if n < 0x10000 then [.ofNat (0xe0 + n / 4096), trail (n / 64), trail n]
  else [.ofNat (0xf0 + n / 262144), trail (n / 4096), trail (n / 64), trail n]

/-- The bytes of a text. -/
def encode (cs : List Char) : List UInt8 := cs.flatMap encodeChar

def isTrail (b : UInt8) : Bool := 0x80 ≤ b && b ≤ 0xbf

/-- Whether `b` may follow the lead `a` of a sequence of three or four bytes. -/
def mayFollow (a b : UInt8) : Bool :=
  if a = 0xe0 then 0xa0 ≤ b && b ≤ 0xbf
  else if a = 0xed then 0x80 ≤ b && b ≤ 0x9f
  else if a = 0xf0 then 0x90 ≤ b && b ≤ 0xbf
  else if a = 0xf4 then 0x80 ≤ b && b ≤ 0x8f
  else isTrail b

/-- The six bits of a byte that continues a sequence. -/
def bits (b : UInt8) : Nat := b.toNat % 64

/-- The text of the bytes from index `i` on. -/
def decodeFrom (i : Nat) : List UInt8 → Except Fault (List Char)
  | [] => .ok []
  | a :: rest =>
    if a < 0x80 then (decodeFrom (i + 1) rest).map (Char.ofNat a.toNat :: ·)
    else if a < 0xc2 then .error (.invalid 1 i)
    else if a < 0xe0 then
      match rest with
      | [] => .error (.incomplete i)
      | b :: rest =>
        if !isTrail b then .error (.invalid 1 i)
        else (decodeFrom (i + 2) rest).map (Char.ofNat ((a.toNat - 0xc0) * 64 + bits b) :: ·)
    else if a < 0xf0 then
      match rest with
      | [] => .error (.incomplete i)
      | b :: rest =>
        if !mayFollow a b then .error (.invalid 1 i)
        else match rest with
          | [] => .error (.incomplete i)
          | c :: rest =>
            if !isTrail c then .error (.invalid 2 i)
            else (decodeFrom (i + 3) rest).map
              (Char.ofNat ((a.toNat - 0xe0) * 4096 + bits b * 64 + bits c) :: ·)
    else if a < 0xf5 then
      match rest with
      | [] => .error (.incomplete i)
      | b :: rest =>
        if !mayFollow a b then .error (.invalid 1 i)
        else match rest with
          | [] => .error (.incomplete i)
          | c :: rest =>
            if !isTrail c then .error (.invalid 2 i)
            else match rest with
              | [] => .error (.incomplete i)
              | d :: rest =>
                if !isTrail d then .error (.invalid 3 i)
                else (decodeFrom (i + 4) rest).map
                  (Char.ofNat ((a.toNat - 0xf0) * 262144 + bits b * 4096 + bits c * 64 + bits d) :: ·)
    else .error (.invalid 1 i)

/-- The text of bytes. -/
def decode (bs : List UInt8) : Except Fault (List Char) := decodeFrom 0 bs

end StencilKit.Utf8
