/-!
Amounts as text, put piece by piece into a room of given size. All pieces are ASCII, so a character
is a byte. Amounts of ADA show the fraction without trailing zeros and without a point when there
is none. The zeros that lead a fraction are put without looking at the room; every other piece is
refused when it does not fit.
-/

set_option autoImplicit false

namespace WalletConsent

namespace Amount

inductive Piece
  /-- Refused unless all of it fits. -/
  | guarded (text : List Char)
  /-- Put without looking at the room. -/
  | bare (c : Char)
  deriving DecidableEq

inductive Filling
  | text (chars : List Char)
  | refused
  /-- A bare character had no room. -/
  | overrun
  deriving DecidableEq

namespace Filling

def after (front : List Char) : Filling → Filling
  | text chars => text (front ++ chars)
  | refused => refused
  | overrun => overrun

end Filling

def fill (room : Nat) : List Piece → Filling
  | [] => .text []
  | .guarded chars :: pieces =>
    if chars.length ≤ room then (fill (room - chars.length) pieces).after chars else .refused
  | .bare c :: pieces =>
    if 0 < room then (fill (room - 1) pieces).after [c] else .overrun

def lovelacePerAda : Nat := 1000000

/-- Amounts from here on are no signed 64-bit numbers. -/
def signedLimit : Nat := 0x8000000000000000

/-- Decimal places of an amount of ADA. -/
def places : Nat := 6

/-- The fraction as a number of lovelace, without its trailing zeros. -/
def significant (fraction : Nat) : List Char :=
  ((Nat.toDigits 10 fraction).reverse.dropWhile (· == '0')).reverse

def fractionPieces (fraction : Nat) : List Piece :=
  if fraction = 0 then []
  else
    .guarded ['.'] :: List.replicate (places - (Nat.toDigits 10 fraction).length) (.bare '0') ++
      [.guarded (significant fraction)]

def adaPieces (lovelace : Nat) : List Piece :=
  .guarded (Nat.toDigits 10 (lovelace / lovelacePerAda)) ::
    fractionPieces (lovelace % lovelacePerAda) ++ [.guarded [' ', 'A', 'D', 'A']]

/-- Lovelace as ADA; nothing if the text overruns its room. An amount that is no signed 64-bit
number has no text. -/
def ada? (room : Nat) (lovelace : UInt64) : Option String :=
  if signedLimit ≤ lovelace.toNat then some "VALUE_ERR"
  else
    match fill room (adaPieces lovelace.toNat) with
    | .text chars => some (String.ofList chars)
    | .refused => some "ENCODE_ERR"
    | .overrun => none

/-- A number of tokens, which have no decimal places. -/
def quantity (room : Nat) (tokens : UInt64) : String :=
  let digits := Nat.toDigits 10 tokens.toNat
  if digits.length ≤ room then String.ofList digits else "ENCODE_ERR"

end Amount

end WalletConsent
