/-!
# UTF-8

Byte sequences as text. A sequence is cut into pieces, each a character or a run of bytes that no
character starts with; both ways of decoding read the pieces.

- `Utf8.pieces` cuts a byte sequence; an ill-formed run is as long as it could still have become a
  character,
- `Utf8.decode?` gives the text, or the number of bytes before the first ill-formed one,
- `Utf8.decodeLossy` puts U+FFFD for each ill-formed run,
- `Utf8.encode` is the byte sequence of a text.
-/

namespace DecisionForest
namespace Utf8

/-- A well-formed character, or a number of bytes that are not part of one. -/
inductive Piece where
  | char (c : Char)
  | broken (width : Nat)
  deriving DecidableEq, Repr

/-- A continuation byte. -/
def isTail (b : UInt8) : Bool :=
  0x80 ≤ b && b ≤ 0xBF

/-- The second bytes that may follow a leading byte of three; the rest are over-long forms and
surrogates. -/
def isSecondOfThree (lead b : UInt8) : Bool :=
  if lead = 0xE0 then 0xA0 ≤ b && b ≤ 0xBF
  else if lead = 0xED then 0x80 ≤ b && b ≤ 0x9F
  else isTail b

/-- The second bytes that may follow a leading byte of four; the rest are over-long forms and
values past U+10FFFF. -/
def isSecondOfFour (lead b : UInt8) : Bool :=
  if lead = 0xF0 then 0x90 ≤ b && b ≤ 0xBF
  else if lead = 0xF4 then 0x80 ≤ b && b ≤ 0x8F
  else isTail b

/-- The six payload bits of a continuation byte. -/
def payload (b : UInt8) : Nat :=
  b.toNat % 64

def pieces : List UInt8 → List Piece
  | [] => []
  | a :: rest =>
    if a < 0x80 then .char (Char.ofNat a.toNat) :: pieces rest
    else if 0xC2 ≤ a && a ≤ 0xDF then
      match rest with
      | b :: rest₁ =>
        if isTail b then .char (Char.ofNat (a.toNat % 32 * 64 + payload b)) :: pieces rest₁
        else .broken 1 :: pieces (b :: rest₁)
      | [] => [.broken 1]
    else if 0xE0 ≤ a && a ≤ 0xEF then
      match rest with
      | b :: rest₁ =>
        if isSecondOfThree a b then
          match rest₁ with
          | c :: rest₂ =>
            if isTail c then
              .char (Char.ofNat (a.toNat % 16 * 4096 + payload b * 64 + payload c)) :: pieces rest₂
            else .broken 2 :: pieces (c :: rest₂)
          | [] => [.broken 2]
        else .broken 1 :: pieces (b :: rest₁)
      | [] => [.broken 1]
    else if 0xF0 ≤ a && a ≤ 0xF4 then
      match rest with
      | b :: rest₁ =>
        if isSecondOfFour a b then
          match rest₁ with
          | c :: rest₂ =>
            if isTail c then
              match rest₂ with
              | d :: rest₃ =>
                if isTail d then
                  .char (Char.ofNat
                    (a.toNat % 8 * 262144 + payload b * 4096 + payload c * 64 + payload d))
                    :: pieces rest₃
                else .broken 3 :: pieces (d :: rest₃)
              | [] => [.broken 3]
            else .broken 2 :: pieces (c :: rest₂)
          | [] => [.broken 2]
        else .broken 1 :: pieces (b :: rest₁)
      | [] => [.broken 1]
    else .broken 1 :: pieces rest

/-- The characters, or the number of bytes before the first ill-formed run. -/
def Piece.collect (offset : Nat) : List Piece → Except Nat (List Char)
  | [] => .ok []
  | .char c :: rest => (Piece.collect (offset + c.utf8Size) rest).map (c :: ·)
  | .broken _ :: _ => .error offset

def decode? (bytes : List UInt8) : Except Nat (List Char) :=
  Piece.collect 0 (pieces bytes)

/-- The replacement character stands for every ill-formed run. -/
def Piece.lossy : Piece → Char
  | .char c => c
  | .broken _ => '\uFFFD'

def decodeLossy (bytes : List UInt8) : List Char :=
  (pieces bytes).map Piece.lossy

def encode (text : String) : List UInt8 :=
  text.toList.flatMap String.utf8EncodeChar

end Utf8
end DecisionForest
