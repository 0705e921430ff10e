/-
Base64 with the alphabet `A-Z a-z 0-9 + /`: three bytes are written as four symbols of six bits, and
an incomplete last group is padded with `=` to four.

Reading accepts only what writing produces. So padding has to be there, and the bits of the last
symbol that no byte takes up have to be zero.
-/
namespace StencilKit.Base64

/-- Why bytes are not the base64 of anything. -/
inductive Fault where
  | symbol (byte : UInt8) (index : Nat)
  | length (symbols : Nat)
  | padding
  | lastSymbol (byte : UInt8) (index : Nat)
  deriving DecidableEq, Repr

/-- The wording of a fault. -/
def Fault.message : Fault → String
  | .symbol byte index => s!"Invalid symbol {byte.toNat}, offset {index}."
  | .length symbols => s!"Invalid input length: {symbols}"
  | .padding => "Invalid padding"
  | .lastSymbol byte index => s!"Invalid last symbol {byte.toNat}, offset {index}."

/-- The symbol of a number below 64. -/
def symbol (n : Nat) : Char :=
  if n < 26 then .ofNat (65 + n)
  else if n < 52 then .ofNat (97 + (n - 26))
  else if n < 62 then .ofNat (48 + (n - 52))
  else if n = 62 then '+'
  else '/'

/-- The number that a symbol stands for. -/
def value? (b : UInt8) : Option Nat :=
  if 65 ≤ b ∧ b ≤ 90 then some (b.toNat - 65)
  else if 97 ≤ b ∧ b ≤ 122 then some (b.toNat - 97 + 26)
  else if 48 ≤ b ∧ b ≤ 57 then some (b.toNat - 48 + 52)
  else if b = 43 then some 62
  else if b = 47 then some 63
  else none

/-- The byte of the padding mark `=`. -/
def pad : UInt8 := 61

/-- The text of a list of bytes. -/
def encode : List UInt8 → List Char
  | [] => []
  | [a] => [symbol (a.toNat / 4), symbol (a.toNat % 4 * 16), '=', '=']
  | [a, b] =>
    [symbol (a.toNat / 4), symbol (a.toNat % 4 * 16 + b.toNat / 16), symbol (b.toNat % 16 * 4), '=']
  | a :: b :: c :: rest =>
    symbol (a.toNat / 4) :: symbol (a.toNat % 4 * 16 + b.toNat / 16) ::
      symbol (b.toNat % 16 * 4 + c.toNat / 64) :: symbol (c.toNat % 64) :: encode rest

/-- The bytes of full groups of four numbers. -/
def join : List Nat → List UInt8
  | p :: q :: r :: s :: rest =>
    .ofNat (p * 4 + q / 16) :: .ofNat (q % 16 * 16 + r / 4) :: .ofNat (r % 4 * 64 + s) :: join rest
  | _ => []

/-- The numbers of a list of symbols, which begins at index `i`. -/
def values (i : Nat) : List UInt8 → Except Fault (List Nat)
  | [] => .ok []
  | b :: bs =>
    match value? b with
    | none => .error (.symbol b i)
    | some n => (values (i + 1) bs).map (n :: ·)

/-- The symbols and the padding of the last group. -/
structure Tail where
  numbers : List Nat
  last : UInt8
  pads : Nat
  deriving DecidableEq, Repr

/-- Whether anything but padding follows. -/
def hasSymbol (bs : List UInt8) : Bool := bs.any (· != pad)

/-- The last group, which begins at index `start`; `k` of its bytes have been read into `tail`. A
padding mark must not be among the first two, and only padding may follow it. -/
def scanTail (start : Nat) : Nat → Tail → List UInt8 → Except Fault Tail
  | _, tail, [] => .ok tail
  | k, tail, b :: bs =>
    if b = pad then
      if k < 2 then .error (.symbol b (start + k))
      else if hasSymbol bs then .error (.symbol pad (start + k))
      else .ok { tail with pads := bs.length + 1 }
    else match value? b with
      | none => .error (.symbol b (start + k))
      | some n => scanTail start (k + 1) { tail with numbers := tail.numbers ++ [n], last := b } bs

/-- The bytes of the last group, whose symbols have to fill it up with its padding and have to
leave no bit over. -/
def Tail.bytes (start : Nat) (tail : Tail) : Except Fault (List UInt8) :=
  let index := start + tail.numbers.length - 1
  if tail.numbers.length < 2 then .error (.length (start + tail.numbers.length))
  else if tail.numbers.length + tail.pads ≠ 4 then .error .padding
  else match tail.numbers with
    | [p, q] => if q % 16 ≠ 0 then .error (.lastSymbol tail.last index) else .ok [.ofNat (p * 4 + q / 16)]
    | [p, q, r] =>
      if r % 4 ≠ 0 then .error (.lastSymbol tail.last index)
      else .ok [.ofNat (p * 4 + q / 16), .ofNat (q % 16 * 16 + r / 4)]
    | numbers => .ok (join numbers)

/-- A single symbol that is left over is looked at before all others. -/
def checkLeftover (bs : List UInt8) : Except Fault Unit :=
  match bs.getLast? with
  | none => .ok ()
  | some b =>
    if bs.length % 4 = 1 ∧ b ≠ pad ∧ (value? b).isNone then .error (.symbol b (bs.length - 1)) else .ok ()

/-- The bytes that a base64 text stands for. -/
def decode (bs : List UInt8) : Except Fault (List UInt8) := do
  if bs.isEmpty then return []
  checkLeftover bs
  let start := (bs.length - 1) / 4 * 4
  let body ← values 0 (bs.take start)
  let tail ← scanTail start 0 ⟨[], 0, 0⟩ (bs.drop start)
  let last ← tail.bytes start
  return join body ++ last

end StencilKit.Base64
