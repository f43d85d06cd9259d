/-!
# Text

Text is a list of characters; places in it are byte offsets of its UTF-8 form.

* `Text.isBlank` — the characters of the Unicode property White_Space.
* `Text.trim` — text without the blanks at its two ends.
* `Text.byteSize` — the length in UTF-8 bytes; it adds up over `++`.
* `Text.takeBytes`, `Text.dropBytes` — a text cut at a byte offset.
-/

namespace StyleAssets

/-- Text as a sequence of characters. -/
abbrev Text := List Char

namespace Text

/-- The Unicode property White_Space. -/
def isBlank (c : Char) : Bool :=
  ('\t' ≤ c && c ≤ '\r') || c == ' ' || c == '\u0085' || c == '\u00a0' || c == '\u1680' ||
  ('\u2000' ≤ c && c ≤ '\u200a') || c == '\u2028' || c == '\u2029' || c == '\u202f' ||
  c == '\u205f' || c == '\u3000'

/-- Text without its leading blanks. -/
def trimStart (t : Text) : Text := t.dropWhile isBlank

/-- Text without its trailing blanks. -/
def trimEnd (t : Text) : Text := (t.reverse.dropWhile isBlank).reverse

/-- Text without the blanks at its two ends. -/
def trim (t : Text) : Text := trimEnd (trimStart t)

/-- Length in UTF-8 bytes. -/
def byteSize : Text → Nat
  | [] => 0
  | c :: t => c.utf8Size + byteSize t

@[simp] theorem byteSize_nil : byteSize [] = 0 := rfl

@[simp] theorem byteSize_cons (c : Char) (t : Text) :
    byteSize (c :: t) = c.utf8Size + byteSize t := rfl

@[simp] theorem byteSize_append (s t : Text) : byteSize (s ++ t) = byteSize s + byteSize t := by
  induction s with
  | nil => simp
  | cons c s ih => simp [ih, Nat.add_assoc]

/-- Does `part` occur in the text? -/
def includes (part : Text) : Text → Bool
  | [] => part.isEmpty
  | c :: t => part.isPrefixOf (c :: t) || includes part t

/-- The longest start of a text that fits into `n` bytes. -/
def takeBytes (n : Nat) : Text → Text
  | [] => []
  | c :: t => if c.utf8Size ≤ n then c :: takeBytes (n - c.utf8Size) t else []

/-- What follows the longest start of a text that fits into `n` bytes. -/
def dropBytes (n : Nat) : Text → Text
  | [] => []
  | c :: t => if c.utf8Size ≤ n then dropBytes (n - c.utf8Size) t else c :: t

theorem takeBytes_append_dropBytes (n : Nat) (t : Text) : takeBytes n t ++ dropBytes n t = t := by
  induction t generalizing n with
  | nil => rfl
  | cons c t ih =>
    rw [takeBytes, dropBytes]
    split
    · rw [List.cons_append, ih]
    · rfl

theorem takeBytes_byteSize (s t : Text) : takeBytes (byteSize s) (s ++ t) = s ++ takeBytes 0 t := by
  induction s with
  | nil => rfl
  | cons c s ih =>
    rw [List.cons_append, takeBytes, byteSize_cons, if_pos (Nat.le_add_right _ _),
      Nat.add_sub_cancel_left, ih, List.cons_append]

end Text

end StyleAssets
