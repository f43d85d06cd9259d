import StyleAssets.Text.Basic
import StyleAssets.Text.Unprintable

/-!
# Quoted text

* `Text.quoted` — text between quotes on one line: quotes, backslashes and some controls are written
  with a letter after a backslash, other characters without a shape by their code points.
-/

namespace StyleAssets.Text

/-- A character as it is written between quotes. -/
def quotedChar (c : Char) : Text :=
  if c = '"' ∨ c = '\\' then ['\\', c]
  else if c = '\n' then ['\\', 'n']
  else if c = '\r' then ['\\', 'r']
  else if c = '\t' then ['\\', 't']
  else if c = '\x00' then ['\\', '0']
  else if isUnprintable c then ['\\', 'u', '\x7b'] ++ Nat.toDigits 16 c.toNat ++ ['\x7d']
  else [c]

def quoted (t : Text) : Text := '"' :: t.flatMap quotedChar ++ ['"']

end StyleAssets.Text
