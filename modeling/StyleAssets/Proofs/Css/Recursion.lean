import StyleAssets.Proofs.Css.Forest
import StyleAssets.Proofs.Css.Spans

/-!
# Declarations by recursion over blocks

What a scan finds in one pass over the tokens is what a recursion over the tree of blocks finds.

* `Segment` — a piece of a block, and the declaration in it.
* `Forest.declarations` — the recursion.
* `Scanner.At` — a scan stands at some place of the tree.
* `Matched.run_pass`, `Matched.run_walk` — what a scan makes of blocks that it passes over, and of
  those that it enters.
-/

namespace StyleAssets.Css

open Text

/-- The token as a part of a block within a segment. -/
def Token.nested (t : Token) : Token := ⟨.plain, t.text⟩

/-- Is there a rule among the blocks with these preludes? At-rules are none. -/
def inRule (preludes : List Text) : Bool := preludes.any (!startsWithAt ·)

/-- Is a block entered that stands in blocks with these preludes? -/
def Enters (preludes : List Text) (b : Bracket) : Prop :=
  b = .curly ∧ preludes.length + 1 ≤ deepest

instance (preludes : List Text) (b : Bracket) : Decidable (Enters preludes b) :=
  inferInstanceAs (Decidable (_ ∧ _))

/-- A piece of a block. Blocks within it are no more than text: their tokens are plain. -/
structure Segment where
  start : Nat := 0
  tokens : List Token := []
  deriving DecidableEq, Repr

namespace Segment

/-- The segment with more tokens, which start at byte `offset`. -/
def add (seg : Segment) (offset : Nat) (ts : List Token) : Segment :=
  ⟨if seg.tokens = [] then offset else seg.start, seg.tokens ++ ts⟩

/-- The segment after a block with all its tokens. A `{}` block ends it. -/
def afterBlock (seg : Segment) (offset : Nat) (b : Bracket) (all : List Token) : Segment :=
  if b = .curly then {} else seg.add offset (all.map Token.nested)

/-- The text before the first colon, blanks aside. -/
def property (seg : Segment) : Text := trim (textOf (headOf seg.tokens))

/-- What follows the text before the first colon and one more byte. -/
def behind (seg : Segment) : Text :=
  (textOf (dropLastBlanks (seg.tokens.drop (headOf seg.tokens).length))).drop 1

/-- Does a colon stand directly in the segment, with a property before it? -/
def Declares (seg : Segment) : Prop :=
  (∃ t ∈ seg.tokens, t.role = .colon) ∧ seg.property ≠ [] ∧ seg.property.head? ≠ some '@'

instance (seg : Segment) : Decidable seg.Declares := inferInstanceAs (Decidable (_ ∧ _))

/-- The declaration of a segment. -/
def declaration (seg : Segment) : Found where
  property := seg.property
  value := trim seg.behind
  start := seg.start + byteSize (textOf (headOf seg.tokens)) + 1 +
    byteSize (seg.behind.takeWhile isBlank)

/-- What a segment adds to the declarations where it may add any. -/
def declarations (preludes : List Text) (seg : Segment) : List Found :=
  if inRule preludes ∧ seg.Declares then [seg.declaration] else []

end Segment

/-- The declarations of what stands in blocks with some preludes, outermost last, from byte `offset`
on, when `seg` has been begun. -/
def Forest.declarations (preludes : List Text) (offset : Nat) (seg : Segment) :
    Forest → List Found
  | done => seg.declarations preludes
  | token t rest =>
    let next := offset + t.byteSize
    match t.role with
    | .blank =>
      rest.declarations preludes next (if seg.tokens = [] then seg else seg.add offset [t])
    | .semicolon => seg.declarations preludes ++ rest.declarations preludes next {}
    | .closing .curly =>
      -- only outside of all blocks can this be a token like others
      rest.declarations preludes next (if preludes = [] then {} else seg.add offset [t])
    | _ => rest.declarations preludes next (seg.add offset [t])
  | block bracket opening content closing? rest =>
    let all := opening :: (content.tokens ++ closing?.toList)
    let next := offset + byteSize (textOf all)
    (if Enters preludes bracket then
      content.declarations (textOf seg.tokens :: preludes) (offset + opening.byteSize) {}
    else []) ++ rest.declarations preludes next (seg.afterBlock offset bracket all)

/-! ## Segments -/

theorem declarationIn?_eq (seg : Segment) :
    declarationIn? seg.start seg.tokens = if seg.Declares then some seg.declaration else none := by
  have htrimmed : Trimmed seg.property := trimmed_trim _
  have hcolon : (seg.tokens.all (·.role != .colon)) = true ↔
      ¬∃ t ∈ seg.tokens, t.role = .colon := by simp
  have hnone : (seg.tokens.all (·.role != .colon) || seg.property.isEmpty ||
      startsWithAt seg.property) = true ↔ ¬seg.Declares := by
    rw [startsWithAt, htrimmed.trim_eq, Segment.Declares]
    simp only [Bool.or_eq_true, hcolon, List.isEmpty_iff, beq_iff_eq, not_and_or, not_not, or_assoc]
  show (if seg.tokens.all (·.role != .colon) || seg.property.isEmpty || startsWithAt seg.property
    then none else some seg.declaration) = _
  by_cases hdeclares : seg.Declares
  · rw [if_pos hdeclares, if_neg (fun h => hnone.1 h hdeclares)]
  · rw [if_neg hdeclares, if_pos (hnone.2 hdeclares)]

@[simp] theorem Segment.declarations_empty (preludes : List Text) :
    Segment.declarations preludes {} = [] := by
  refine if_neg fun h => ?_
  obtain ⟨t, ht, -⟩ := h.2.1
  cases ht

/-- The segment after tokens that are passed over: none if it has not begun. -/
def Segment.skim (seg : Segment) (ts : List Token) : Segment :=
  if seg.tokens = [] then seg else { seg with tokens := seg.tokens ++ ts.map Token.nested }

theorem Segment.skim_afterBlock (seg : Segment) (offset : Nat) (b : Bracket) (t : Token)
    (ts : List Token) :
    (seg.afterBlock offset b [t]).skim ts = seg.afterBlock offset b (t :: ts) := by
  unfold afterBlock
  split
  · rfl
  · simp [skim, add]

theorem Segment.reverse_declarations (preludes : List Text) (seg : Segment) :
    (seg.declarations preludes).reverse = seg.declarations preludes := by
  unfold declarations
  split <;> rfl

/-! ## Where a scan stands -/

/-- What a scan keeps of the preludes of the open blocks. -/
def ruleMarks : List Text → List Bool
  | [] => []
  | prelude :: outer => inRule (prelude :: outer) :: ruleMarks outer

@[simp] theorem length_ruleMarks (preludes : List Text) :
    (ruleMarks preludes).length = preludes.length := by
  induction preludes with
  | nil => rfl
  | cons prelude outer ih => exact congrArg Nat.succ ih

theorem head?_ruleMarks (preludes : List Text) :
    (ruleMarks preludes).head?.getD false = inRule preludes := by
  cases preludes <;> rfl

namespace Scanner

/-- The scan stands in blocks with some preludes, and has begun a segment. -/
structure At (s : Scanner) (preludes : List Text) (seg : Segment) : Prop where
  rules : s.rules = ruleMarks preludes
  segment : s.segment = seg.tokens.reverse
  start : seg.tokens ≠ [] → s.start = seg.start

variable {s : Scanner} {preludes : List Text} {seg : Segment}

theorem At.inRule (h : s.At preludes seg) : s.inRule = Css.inRule preludes := by
  rw [Scanner.inRule, h.rules, head?_ruleMarks]

theorem At.isEmpty (h : s.At preludes seg) : s.segment = [] ↔ seg.tokens = [] := by
  rw [h.segment, List.reverse_eq_nil_iff]

theorem At.settled (h : s.At preludes seg) :
    s.settled = seg.declarations preludes ++ s.found := by
  have hdeclared : declarationIn? s.start s.segment.reverse =
      declarationIn? seg.start seg.tokens := by
    rw [h.segment, List.reverse_reverse]
    by_cases hnil : seg.tokens = []
    · rw [hnil]
      rfl
    · rw [h.start hnil]
  rw [Scanner.settled, h.inRule, hdeclared, declarationIn?_eq, Segment.declarations]
  by_cases hrule : Css.inRule preludes
  · by_cases hdeclares : seg.Declares
    · simp [hrule, hdeclares]
    · simp [hrule, hdeclares]
  · simp [hrule]

theorem At.empty (h : s.rules = ruleMarks preludes) (hsegment : s.segment = []) :
    s.At preludes {} := ⟨h, hsegment, fun hne => absurd rfl hne⟩

theorem At.push (h : s.At preludes seg) (t : Token) :
    (s.push t).At preludes (seg.add s.offset [t]) := by
  refine ⟨?_, ?_, fun _ => ?_⟩
  · rw [← h.rules, Scanner.push]
    split <;> rfl
  · rw [segment_push, h.segment]
    simp [Segment.add]
  · rw [start_push, mark, Segment.add]
    by_cases hnil : seg.tokens = []
    · rw [if_pos (h.isEmpty.2 hnil), if_pos hnil]
    · rw [if_neg (mt h.isEmpty.1 hnil), if_neg hnil, h.start hnil]

/-- The scan after tokens that it passes over. -/
def skim (s : Scanner) (ts : List Token) : Scanner :=
  { s with
    offset := s.offset + byteSize (textOf ts)
    segment := if s.segment = [] then [] else (ts.map Token.nested).reverse ++ s.segment }

theorem skim_nil (s : Scanner) : s.skim [] = s := by
  have hsegment : (if s.segment = [] then [] else ([].map Token.nested).reverse ++ s.segment) =
      s.segment := by
    split
    · exact Eq.symm ‹_›
    · rfl
  rw [skim, hsegment]
  rfl

theorem skim_append (s : Scanner) (ts us : List Token) :
    s.skim (ts ++ us) = (s.skim ts).skim us := by
  unfold skim
  by_cases hnil : s.segment = []
  · simp [hnil, Nat.add_assoc]
  · simp [hnil, Nat.add_assoc]

theorem At.skim (h : s.At preludes seg) (ts : List Token) :
    (s.skim ts).At preludes (seg.skim ts) := by
  unfold Scanner.skim Segment.skim
  by_cases hnil : seg.tokens = []
  · rw [if_pos (h.isEmpty.2 hnil), if_pos hnil]
    exact ⟨h.rules, by rw [hnil]; rfl, h.start⟩
  · rw [if_neg (mt h.isEmpty.1 hnil), if_neg hnil]
    exact ⟨h.rules, by simp [h.segment], fun _ => h.start hnil⟩

end Scanner

/-! ## Blocks that are passed over -/

namespace Scanner

/-- The scan passes over some tokens, and stands within the brackets `passing` then. -/
def Passes (s : Scanner) (ts : List Token) (passing : List Bracket) : Prop :=
  ts.foldl step s = { s.skim ts with passing }

theorem Passes.nil (s : Scanner) : s.Passes [] s.passing := by
  rw [Passes, skim_nil]
  rfl

theorem Passes.append {s : Scanner} {ts us : List Token} {middle last : List Bracket}
    (hts : s.Passes ts middle) (hus : { s.skim ts with passing := middle }.Passes us last) :
    s.Passes (ts ++ us) last := by
  rw [Passes, List.foldl_append, hts, hus, skim_append]
  rfl

variable {b b' : Bracket} {outer : List Bracket} {t : Token}

theorem passed_opening (h : t.role = .opening b') : passed b outer t = b' :: b :: outer := by
  rw [passed, h]

theorem passed_closing (h : t.role = .closing b) : passed b outer t = outer := by
  rw [passed, h]
  exact if_pos rfl

theorem passed_other (hopening : ∀ b, t.role ≠ .opening b) (hclosing : t.role ≠ .closing b) :
    passed b outer t = b :: outer := by
  unfold passed
  split
  · exact absurd ‹_› (hopening _)
  · rename_i bracket hrole
    exact if_neg fun heq : bracket = b => hclosing (heq ▸ hrole)
  · rfl

theorem passes_one {s : Scanner} {innermost : Bracket} {outer : List Bracket}
    (h : s.passing = innermost :: outer) (t : Token) :
    s.Passes [t] (passed innermost outer t) := by
  show s.step t = _
  rw [step, h]
  by_cases hnil : s.segment = []
  · simp [pass, skim, hnil, Token.byteSize]
  · simp [pass, skim, push, hnil, Token.byteSize, Token.nested]

theorem Passes.snoc {s : Scanner} {ts : List Token} (h : s.Passes ts (b :: outer)) (t : Token) :
    s.Passes (ts ++ [t]) (passed b outer t) :=
  h.append (passes_one rfl t)

end Scanner

open Scanner in
/-- What stands within brackets that are passed over is passed over. -/
theorem Forest.Matched.run_pass {inside : Option Bracket} {isOpen : Bool} {f : Forest}
    (h : Matched inside isOpen f) {b : Bracket} {outer : List Bracket} {s : Scanner}
    (hinside : inside = some b) (hs : s.passing = b :: outer) :
    ∃ passing, s.Passes f.tokens passing ∧ passing ≠ [] ∧
      (isOpen = false → passing = b :: outer) := by
  -- a block within adds its bracket on the way, and takes it back if it is closed
  induction h generalizing b outer s with
  | done =>
    refine ⟨s.passing, Passes.nil s, ?_, fun _ => hs⟩
    rw [hs]
    exact List.cons_ne_nil b outer
  | @token inside isOpen t rest hopening hclosing _ ih =>
    have hfirst := passes_one hs t
    rw [passed_other hopening (hclosing b hinside)] at hfirst
    obtain ⟨passing, hrest, hends⟩ :=
      ih hinside (s := { s.skim [t] with passing := b :: outer }) rfl
    exact ⟨passing, hfirst.append hrest, hends⟩
  | @closed inside isOpen b' opening closing content rest hopening _ hclosing _ ihcontent ihrest =>
    have hfirst := passes_one hs opening
    rw [passed_opening hopening] at hfirst
    obtain ⟨within, hcontent, -, hwithin⟩ :=
      ihcontent rfl (s := { s.skim [opening] with passing := b' :: b :: outer }) rfl
    cases hwithin rfl
    have hblock := (hfirst.append hcontent).snoc closing
    rw [passed_closing hclosing] at hblock
    obtain ⟨passing, hrest, hends⟩ := ihrest hinside
      (s := { s.skim ([opening] ++ content.tokens ++ [closing]) with passing := b :: outer }) rfl
    have hall := hblock.append hrest
    simp only [List.append_assoc] at hall
    exact ⟨passing, hall, hends⟩
  | @unclosed inside isOpen b' opening content hopening _ ih =>
    have hfirst := passes_one hs opening
    rw [passed_opening hopening] at hfirst
    obtain ⟨passing, hcontent, hne, -⟩ :=
      ih rfl (s := { s.skim [opening] with passing := b' :: b :: outer }) rfl
    refine ⟨passing, ?_, hne, fun hopen => by cases hopen⟩
    have hall := hfirst.append hcontent
    rwa [← List.append_nil content.tokens] at hall

/-! ## Blocks that are entered -/

namespace Scanner

variable {s : Scanner} {preludes : List Text} {seg : Segment} {t : Token} {b : Bracket}

theorem offset_foldl (s : Scanner) (ts : List Token) :
    (ts.foldl step s).offset = s.offset + byteSize (textOf ts) := by
  induction ts generalizing s with
  | nil => rfl
  | cons t ts ih =>
    rw [List.foldl_cons, ih, textOf_cons, byteSize_append, ← Nat.add_assoc]
    rfl

theorem step_of_walking (hs : s.passing = []) (t : Token) :
    s.step t = { s.take t with offset := s.offset + t.byteSize } := by
  rw [step, hs]

@[simp] theorem passing_push (s : Scanner) (t : Token) : (s.push t).passing = s.passing := by
  unfold push
  split <;> rfl

/-- A scan enters a block that is not too deep. -/
theorem At.enter (h : s.At preludes seg) (hs : s.passing = []) (ht : t.role = .opening b)
    (henter : Enters preludes b) :
    (s.step t).passing = [] ∧ (s.step t).At (textOf seg.tokens :: preludes) {} ∧
      (s.step t).found = s.found := by
  obtain ⟨rfl, hlevel⟩ := henter
  have hdepth : s.rules.length < deepest := by
    rw [h.rules, length_ruleMarks]
    exact hlevel
  rw [step_of_walking hs, take, ht]
  simp only [hdepth, if_true]
  refine ⟨hs, At.empty ?_ rfl, trivial⟩
  show (s.inRule || !startsWithAt (textOf s.segment.reverse)) :: s.rules = _
  rw [h.inRule, h.rules, h.segment, List.reverse_reverse, Bool.or_comm]
  rfl

/-- A scan leaves a block at the end of it. -/
theorem At.leave {prelude : Text} (h : s.At (prelude :: preludes) seg) (hs : s.passing = [])
    (ht : t.role = .closing .curly) :
    (s.step t).passing = [] ∧ (s.step t).At preludes {} ∧ (s.step t).found = s.settled := by
  have hrules : s.rules = Css.inRule (prelude :: preludes) :: ruleMarks preludes := h.rules
  rw [step_of_walking hs, take, ht]
  simp only [hrules]
  exact ⟨hs, At.empty rfl rfl, trivial⟩

/-- A scan passes over any other block. -/
theorem At.skip (h : s.At preludes seg) (hs : s.passing = []) (ht : t.role = .opening b)
    (hskip : ¬Enters preludes b) :
    (s.step t).passing = [b] ∧ (s.step t).At preludes (seg.afterBlock s.offset b [t]) ∧
      (s.step t).found = s.found := by
  rw [step_of_walking hs, take, ht]
  cases b with
  | curly =>
    have hdepth : ¬s.rules.length < deepest := by
      rw [h.rules, length_ruleMarks]
      exact fun hlevel => hskip ⟨rfl, hlevel⟩
    simp only [hdepth, if_false]
    exact ⟨trivial, At.empty h.rules rfl, trivial⟩
  | round =>
    have hpush := h.push t.nested
    exact ⟨rfl, ⟨hpush.rules, hpush.segment, hpush.start⟩, found_push s _⟩
  | square =>
    have hpush := h.push t.nested
    exact ⟨rfl, ⟨hpush.rules, hpush.segment, hpush.start⟩, found_push s _⟩

/-- One step of a scan over a token that stands directly in a block is one step of the recursion. -/
theorem At.direct (h : s.At preludes seg) (hs : s.passing = [])
    (hopening : ∀ b, t.role ≠ .opening b) (hclosing : preludes ≠ [] → t.role ≠ .closing .curly) :
    ∃ before seg', (s.step t).passing = [] ∧ (s.step t).At preludes seg' ∧
      (s.step t).found = before.reverse ++ s.found ∧
      ∀ rest, (Forest.token t rest).declarations preludes s.offset seg =
        before ++ rest.declarations preludes (s.step t).offset seg' := by
  rw [step_of_walking hs]
  have hjoins (htake : s.take t = s.push t)
      (hrest : ∀ rest, (Forest.token t rest).declarations preludes s.offset seg =
        rest.declarations preludes (s.offset + t.byteSize) (seg.add s.offset [t])) :
      ∃ before seg', (s.take t).passing = [] ∧
        { s.take t with offset := s.offset + t.byteSize }.At preludes seg' ∧
        (s.take t).found = before.reverse ++ s.found ∧
        ∀ rest, (Forest.token t rest).declarations preludes s.offset seg =
          before ++ rest.declarations preludes (s.offset + t.byteSize) seg' := by
    rw [htake]
    have hpush := h.push t
    exact ⟨[], _, (passing_push s t).trans hs, ⟨hpush.rules, hpush.segment, hpush.start⟩,
      found_push s t, hrest⟩
  cases hrole : t.role with
  | opening b => exact absurd hrole (hopening b)
  | semicolon =>
    rw [take, hrole]
    refine ⟨seg.declarations preludes, {}, hs, At.empty h.rules rfl, ?_, fun rest => ?_⟩
    · rw [seg.reverse_declarations]
      exact h.settled
    · simp only [Forest.declarations, hrole]
  | blank =>
    by_cases hnil : seg.tokens = []
    · have htake : s.take t = s := by
        simp only [take, hrole, List.isEmpty_iff, h.isEmpty, hnil, if_true]
      rw [htake]
      refine ⟨[], seg, hs, ⟨h.rules, h.segment, h.start⟩, rfl, fun rest => ?_⟩
      simp only [Forest.declarations, hrole, hnil, if_true, List.nil_append]
    · refine hjoins ?_ fun rest => ?_
      · simp only [take, hrole, List.isEmpty_iff, h.isEmpty, hnil, if_false]
      · simp only [Forest.declarations, hrole, hnil, if_false]
  | closing b =>
    cases b with
    | curly =>
      have houter : preludes = [] := by
        by_contra hne
        exact hclosing hne hrole
      have hrules : s.rules = [] := by rw [h.rules, houter, ruleMarks]
      rw [take, hrole]
      simp only [hrules]
      refine ⟨[], {}, hs, At.empty (by rw [houter, ruleMarks]) rfl, rfl, fun rest => ?_⟩
      simp only [Forest.declarations, hrole, houter, if_true, List.nil_append]
    | _ =>
      refine hjoins ?_ fun rest => ?_
      · rw [take, hrole]
      · simp only [Forest.declarations, hrole]
  | _ =>
    refine hjoins ?_ fun rest => ?_
    · rw [take, hrole]
    · simp only [Forest.declarations, hrole]

/-- What a scan makes of a block that it passes over, up to some token. -/
theorem At.run_skip (h : s.At preludes seg) (hs : s.passing = []) (ht : t.role = .opening b)
    (hskip : ¬Enters preludes b) {ts : List Token} {passing : List Bracket}
    (hpasses : (s.step t).Passes ts passing) :
    (ts.foldl step (s.step t)).passing = passing ∧
      (ts.foldl step (s.step t)).At preludes (seg.afterBlock s.offset b (t :: ts)) ∧
      (ts.foldl step (s.step t)).found = s.found := by
  obtain ⟨-, hat, hfound⟩ := h.skip hs ht hskip
  rw [hpasses]
  have hskim := hat.skim ts
  rw [seg.skim_afterBlock] at hskim
  exact ⟨rfl, ⟨hskim.rules, hskim.segment, hskim.start⟩, hfound⟩

/-- What a scan makes of a whole block, given what it makes of the content if it enters. -/
theorem At.run_block {opening closing : Token} {content : Forest} {new : List Found}
    (h : s.At preludes seg) (hs : s.passing = []) (hopening : opening.role = .opening b)
    (hclosing : closing.role = .closing b) (hmatched : content.Matched (some b) false)
    (hcontent : Enters preludes b →
      (content.tokens.foldl step (s.step opening)).settled = new.reverse ++ s.found ∧
      (content.tokens.foldl step (s.step opening)).passing = [] ∧
      ∃ seg', (content.tokens.foldl step (s.step opening)).At
        (textOf seg.tokens :: preludes) seg') :
    ((content.tokens ++ [closing]).foldl step (s.step opening)).passing = [] ∧
      ((content.tokens ++ [closing]).foldl step (s.step opening)).At preludes
        (seg.afterBlock s.offset b (opening :: (content.tokens ++ [closing]))) ∧
      ((content.tokens ++ [closing]).foldl step (s.step opening)).found =
        (if Enters preludes b then new else []).reverse ++ s.found := by
  by_cases henter : Enters preludes b
  · obtain ⟨hsettled, hs', seg', hat⟩ := hcontent henter
    rw [List.foldl_append, if_pos henter, ← hsettled]
    obtain ⟨rfl, -⟩ := henter
    exact hat.leave hs' hclosing
  · obtain ⟨hs', -, -⟩ := h.skip hs hopening henter
    obtain ⟨passing, hpasses, -, hends⟩ := hmatched.run_pass rfl hs'
    cases hends rfl
    have hall := hpasses.snoc closing
    rw [passed_closing hclosing] at hall
    rw [if_neg henter]
    exact h.run_skip hs hopening henter hall

end Scanner

open Scanner in
/-- What a scan makes of the content of a block that it enters, or of the whole text. -/
theorem Forest.Matched.run_walk {inside : Option Bracket} {isOpen : Bool} {f : Forest}
    (h : Matched inside isOpen f) {preludes : List Text} {seg : Segment} {s : Scanner}
    (hinside : preludes ≠ [] → inside = some .curly) (hat : s.At preludes seg)
    (hs : s.passing = []) :
    (f.tokens.foldl step s).settled =
        (f.declarations preludes s.offset seg).reverse ++ s.found ∧
      (isOpen = false → (f.tokens.foldl step s).passing = [] ∧
        ∃ seg', (f.tokens.foldl step s).At preludes seg') := by
  -- along the tree; the preludes grow where a block is entered
  induction h generalizing preludes seg s with
  | done =>
    refine ⟨?_, fun _ => ⟨hs, seg, hat⟩⟩
    show s.settled = (seg.declarations preludes).reverse ++ s.found
    rw [seg.reverse_declarations, hat.settled]
  | token hopening hclosing _ ih =>
    obtain ⟨before, seg', hs', hat', hfound, hdeclarations⟩ :=
      hat.direct hs hopening fun hne => hclosing .curly (hinside hne)
    obtain ⟨hsettled, hends⟩ := ih hinside hat' hs'
    refine ⟨?_, hends⟩
    rw [hdeclarations, List.reverse_append, List.append_assoc, ← hfound]
    exact hsettled
  | @closed inside isOpen b opening closing content rest hopening hcontent hclosing _ ihcontent
      ihrest =>
    have hblock := hat.run_block hs hopening hclosing hcontent fun henter => by
      obtain ⟨hs₁, hat₁, hfound₁⟩ := hat.enter hs hopening henter
      obtain ⟨hsettled, hends⟩ := ihcontent (fun _ => congrArg some henter.1) hat₁ hs₁
      rw [hfound₁] at hsettled
      exact ⟨hsettled, hends rfl⟩
    obtain ⟨hs', hat', hfound⟩ := hblock
    obtain ⟨hsettled, hends⟩ := ihrest hinside hat' hs'
    have htokens : (block b opening content (some closing) rest).tokens.foldl step s =
        rest.tokens.foldl step ((content.tokens ++ [closing]).foldl step (s.step opening)) := by
      rw [← List.foldl_append, List.append_assoc]
      rfl
    have hoffset := offset_foldl s (opening :: (content.tokens ++ [closing]))
    rw [List.foldl_cons] at hoffset
    rw [htokens]
    refine ⟨?_, hends⟩
    rw [hsettled, hoffset, hfound, ← List.append_assoc, ← List.reverse_append]
    rfl
  | @unclosed inside isOpen b opening content hopening hcontent ih =>
    refine ⟨?_, fun hopen => by cases hopen⟩
    have htokens : (block b opening content none .done).tokens.foldl step s =
        content.tokens.foldl step (s.step opening) := by
      show (content.tokens ++ []).foldl step (s.step opening) = _
      rw [List.append_nil]
    rw [htokens]
    show _ = (_ ++ Segment.declarations preludes _).reverse ++ s.found
    by_cases henter : Enters preludes b
    · -- after the last block nothing is left that could be a declaration
      obtain ⟨hs₁, hat₁, hfound₁⟩ := hat.enter hs hopening henter
      rw [if_pos henter]
      obtain ⟨rfl, -⟩ := henter
      obtain ⟨hsettled, -⟩ := ih (fun _ => rfl) hat₁ hs₁
      rw [Segment.afterBlock, if_pos rfl, Segment.declarations_empty, List.append_nil, ← hfound₁]
      exact hsettled
    · obtain ⟨hs₁, -, -⟩ := hat.skip hs hopening henter
      obtain ⟨passing, hpasses, -, -⟩ := hcontent.run_pass rfl hs₁
      obtain ⟨-, hat', hfound⟩ := hat.run_skip hs hopening henter hpasses
      rw [if_neg henter, List.nil_append, Segment.reverse_declarations, hat'.settled, hfound]
      simp only [Option.toList_none, List.append_nil]

/-- **A scan is the recursion over the blocks of its text.** Their tree has the tokens of the text,
each block of it ends at the first closing token of its kind that stands directly in it or with the
text, and the recursion over it finds the same declarations in the same order. -/
theorem scan_eq_declarations (t : Text) :
    (forest t).tokens = tokens t ∧ (∃ isOpen, (forest t).Matched none isOpen) ∧
      (scan t).1 = (forest t).declarations [] 0 {} := by
  obtain ⟨htokens, isOpen, hmatched⟩ := forest_spec t
  refine ⟨htokens, ⟨isOpen, hmatched⟩, ?_⟩
  have hat : Scanner.At {} [] {} := Scanner.At.empty rfl rfl
  obtain ⟨hsettled, -⟩ := hmatched.run_walk (fun hne => absurd rfl hne) hat rfl
  show ((tokens t).foldl Scanner.step {}).settled.reverse = _
  rw [← htokens, hsettled, List.append_nil, List.reverse_reverse]

-- nothing of the media block itself, but all of the rule in it, an at-rule in that included
example :
    (forest "@m\x7ba:b;c\x7bd:(;\x7d)e;@n\x7bf:g\x7d\x7d\x7d h:i".toList).declarations [] 0 {} =
    [⟨"d".toList, "(;\x7d)e".toList, 11⟩, ⟨"f".toList, "g".toList, 22⟩] := by decide +kernel

end StyleAssets.Css
