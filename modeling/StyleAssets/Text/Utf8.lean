import StyleAssets.Text.Basic

/-!
# UTF-8

Bytes and the characters they stand for.

* `Utf8.pieces` — cuts any bytes into characters and ill-formed pieces, each of the latter as long
  as it can be while still the start of some character.
* `Utf8.decode?` — the text of well-formed bytes.
* `Utf8.lossy` — the text of any bytes, with U+FFFD for each ill-formed piece.
* `Utf8.encode` — the bytes of a text.
-/

namespace StyleAssets

abbrev Bytes := List UInt8

namespace Utf8

/-- What may follow the first byte of a character of several bytes: `more` bytes, the second of them
between `low` and `high`. The first byte gives the upper `bits` of the code point. -/
structure Lead where
  more : Nat
  low : UInt8
  high : UInt8
  bits : Nat

/-- The first bytes of characters of two to four bytes; overlong forms and surrogates have none. -/
def lead? (b : UInt8) : Option Lead :=
  if 0xC2 ≤ b && b ≤ 0xDF then some ⟨1, 0x80, 0xBF, b.toNat - 0xC0⟩
  else if b == 0xE0 then some ⟨2, 0xA0, 0xBF, 0⟩
  else if b == 0xED then some ⟨2, 0x80, 0x9F, 13⟩
  else if 0xE1 ≤ b && b ≤ 0xEF then some ⟨2, 0x80, 0xBF, b.toNat - 0xE0⟩
  else if b == 0xF0 then some ⟨3, 0x90, 0xBF, 0⟩
  else if b == 0xF4 then some ⟨3, 0x80, 0x8F, 4⟩
  else if 0xF1 ≤ b && b ≤ 0xF3 then some ⟨3, 0x80, 0xBF, b.toNat - 0xF0⟩
  else none

/-- The later bytes of a character, read from the front of `bytes`. -/
def tails (lead : Lead) (bytes : Bytes) : Bytes :=
  match bytes with
  | [] => []
  | b :: rest =>
    if lead.low ≤ b && b ≤ lead.high then
      b :: (rest.take (lead.more - 1)).takeWhile fun t => 0x80 ≤ t && t ≤ 0xBF
    else []

/-- The piece that starts with `b`: its character, if it is well-formed, and how many of the
bytes in `rest` belong to it. -/
def piece (b : UInt8) (rest : Bytes) : Option Char × Nat :=
  if b < 0x80 then (some (Char.ofNat b.toNat), 0)
  else match lead? b with
    | none => (none, 0)
    | some lead =>
      let more := tails lead rest
      let code := more.foldl (fun n t => n * 64 + (t.toNat - 0x80)) lead.bits
      (if more.length == lead.more then some (Char.ofNat code) else none, more.length)

/-- The characters and, as `none`, the ill-formed pieces of some bytes. -/
def pieces : Bytes → List (Option Char)
  | [] => []
  | b :: rest => (piece b rest).1 :: pieces (rest.drop (piece b rest).2)
termination_by bytes => bytes.length
decreasing_by simp only [List.length_drop, List.length_cons]; omega

def decode? (bytes : Bytes) : Option Text := (pieces bytes).mapM id

/-- The text of any bytes, with U+FFFD for each ill-formed piece. -/
def lossy (bytes : Bytes) : Text := (pieces bytes).map fun piece => piece.getD '\uFFFD'

def encode (t : Text) : Bytes := t.flatMap String.utf8EncodeChar

end Utf8

end StyleAssets
