import StyleAssets.Proofs.Css.Token

/-!
# Trees of blocks

The tokens of a style sheet form a tree. An opening token starts a block, which ends at the first
closing token of its kind that stands directly in it, or with the text. Any other closing token is
one like all others.

* `Forest` — what stands in a block, one after the other.
* `Forest.Matched` — blocks end where they should.
* `Forest.parse` — the tree of some tokens.
-/

namespace StyleAssets.Css

/-- What stands in a block, one after the other. -/
inductive Forest where
  | done
  | token (t : Token) (rest : Forest)
  | block (bracket : Bracket) (opening : Token) (content : Forest) (closing? : Option Token)
      (rest : Forest)
  deriving DecidableEq, Repr

namespace Forest

/-- The tokens of a forest in the order of the text. -/
def tokens : Forest → List Token
  | done => []
  | token t rest => t :: rest.tokens
  | block _ opening content closing? rest =>
    opening :: (content.tokens ++ (closing?.toList ++ rest.tokens))

/-- Blocks end where they should, in what stands `inside` a block or in the whole text. The flag is
set if the text ends within one of them. -/
inductive Matched : Option Bracket → Bool → Forest → Prop
  | done {inside : Option Bracket} : Matched inside false done
  | token {inside : Option Bracket} {isOpen : Bool} {t : Token} {rest : Forest}
      (hopening : ∀ b, t.role ≠ .opening b) (hclosing : ∀ b, inside = some b → t.role ≠ .closing b)
      (hrest : Matched inside isOpen rest) : Matched inside isOpen (token t rest)
  | closed {inside : Option Bracket} {isOpen : Bool} {b : Bracket} {opening closing : Token}
      {content rest : Forest} (hopening : opening.role = .opening b)
      (hcontent : Matched (some b) false content) (hclosing : closing.role = .closing b)
      (hrest : Matched inside isOpen rest) :
      Matched inside isOpen (block b opening content (some closing) rest)
  | unclosed {inside : Option Bracket} {isOpen : Bool} {b : Bracket} {opening : Token}
      {content : Forest} (hopening : opening.role = .opening b)
      (hcontent : Matched (some b) isOpen content) :
      Matched inside true (block b opening content none done)

theorem eq_done_of_tokens {f : Forest} (h : f.tokens = []) : f = done := by
  cases f with
  | done => rfl
  | token t rest => cases h
  | block b opening content closing? rest => cases h

/-- What stands at the start of some tokens `inside` a block: a forest, the token that closes the
block, and the tokens after it. -/
structure Parsed (inside : Option Bracket) (ts : List Token) where
  forest : Forest
  closing? : Option Token
  rest : List Token
  isOpen : Bool
  tokens_eq : forest.tokens ++ (closing?.toList ++ rest) = ts
  matched : forest.Matched inside isOpen
  closed : ∀ t ∈ closing?, isOpen = false ∧ ∃ b, inside = some b ∧ t.role = .closing b
  unclosed : closing? = none → rest = []

namespace Parsed

variable {inside : Option Bracket} {ts : List Token} {t : Token} {b : Bracket}

theorem length_rest_le (p : Parsed inside ts) : p.rest.length ≤ ts.length := by
  have h := congrArg List.length p.tokens_eq
  rw [List.length_append, List.length_append] at h
  omega

theorem eq_done (p : Parsed inside ts) (h : ts = []) :
    p.forest = Forest.done ∧ p.closing? = none := by
  obtain ⟨hforest, hrest⟩ := List.append_eq_nil_iff.1 (p.tokens_eq.trans h)
  refine ⟨eq_done_of_tokens hforest, ?_⟩
  cases hclosing : p.closing? with
  | none => rfl
  | some t => simp [hclosing] at hrest

/-- The text ends. -/
def nil : Parsed inside [] where
  forest := .done
  closing? := none
  rest := []
  isOpen := false
  tokens_eq := rfl
  matched := .done
  closed := by simp
  unclosed := fun _ => rfl

/-- The block ends. -/
def close (hclosing : t.role = .closing b) (hinside : inside = some b) :
    Parsed inside (t :: ts) where
  forest := .done
  closing? := some t
  rest := ts
  isOpen := false
  tokens_eq := rfl
  matched := .done
  closed := by simp [hclosing, hinside]
  unclosed := by simp

/-- A token stands before the rest. -/
def token (hopening : ∀ b, t.role ≠ .opening b)
    (hclosing : ∀ b, inside = some b → t.role ≠ .closing b) (after : Parsed inside ts) :
    Parsed inside (t :: ts) where
  forest := .token t after.forest
  closing? := after.closing?
  rest := after.rest
  isOpen := after.isOpen
  tokens_eq := congrArg (t :: ·) after.tokens_eq
  matched := .token hopening hclosing after.matched
  closed := after.closed
  unclosed := after.unclosed

theorem matched_block (hopening : t.role = .opening b) (content : Parsed (some b) ts)
    (after : Parsed inside content.rest) :
    (Forest.block b t content.forest content.closing? after.forest).Matched inside
      (content.closing?.isNone || after.isOpen) := by
  have hmatched := content.matched
  cases hclosing : content.closing? with
  | none =>
    rw [(after.eq_done (content.unclosed hclosing)).1]
    exact .unclosed hopening hmatched
  | some closing =>
    obtain ⟨hclosed, b', hb, hrole⟩ := content.closed closing hclosing
    cases hb
    exact .closed hopening (hclosed ▸ hmatched) hrole after.matched

theorem closed_block (content : Parsed (some b) ts) (after : Parsed inside content.rest) :
    ∀ t ∈ after.closing?, (content.closing?.isNone || after.isOpen) = false ∧
      ∃ b, inside = some b ∧ t.role = .closing b := by
  intro t ht
  obtain ⟨hopen, hrole⟩ := after.closed t ht
  refine ⟨?_, hrole⟩
  cases hclosing : content.closing? with
  | none =>
    rw [(after.eq_done (content.unclosed hclosing)).2] at ht
    cases ht
  | some closing => exact hopen

/-- A block stands before the rest. -/
def block (hopening : t.role = .opening b) (content : Parsed (some b) ts)
    (after : Parsed inside content.rest) : Parsed inside (t :: ts) where
  forest := .block b t content.forest content.closing? after.forest
  closing? := after.closing?
  rest := after.rest
  isOpen := content.closing?.isNone || after.isOpen
  tokens_eq := by
    show t :: (content.forest.tokens ++ (content.closing?.toList ++ after.forest.tokens) ++
      (after.closing?.toList ++ after.rest)) = t :: ts
    rw [List.append_assoc, List.append_assoc, after.tokens_eq, content.tokens_eq]
  matched := matched_block hopening content after
  closed := closed_block content after
  unclosed := after.unclosed

end Parsed

/-- The tree at the start of some tokens. -/
def parse (inside : Option Bracket) : (ts : List Token) → Parsed inside ts
  | [] => .nil
  | t :: ts =>
    match hrole : t.role with
    | .opening b =>
      have := (parse (some b) ts).length_rest_le
      .block hrole (parse (some b) ts) (parse inside (parse (some b) ts).rest)
    | .closing b =>
      if hinside : inside = some b then .close hrole hinside
      else
        .token (by simp [hrole])
          (fun b' hb' h => hinside (by rw [hb', Role.closing.inj (hrole.symm.trans h)]))
          (parse inside ts)
    | .blank | .colon | .semicolon | .plain =>
      .token (by simp [hrole]) (by simp [hrole]) (parse inside ts)
termination_by ts => ts.length

end Forest

/-- The tree of a text. -/
def forest (t : Text) : Forest := (Forest.parse none (tokens t)).forest

/-- **The tree of a text** has the tokens of the text, and its blocks end where they should. -/
theorem forest_spec (t : Text) :
    (forest t).tokens = tokens t ∧ ∃ isOpen, (forest t).Matched none isOpen := by
  have hparsed := (Forest.parse none (tokens t)).tokens_eq
  refine ⟨?_, _, (Forest.parse none (tokens t)).matched⟩
  cases hclosing : (Forest.parse none (tokens t)).closing? with
  | none =>
    rw [hclosing, (Forest.parse none (tokens t)).unclosed hclosing] at hparsed
    rwa [Option.toList_none, List.append_nil, List.append_nil] at hparsed
  | some closing =>
    obtain ⟨-, b, hb, -⟩ := (Forest.parse none (tokens t)).closed closing hclosing
    cases hb

end StyleAssets.Css
