import StyleAssets.Proofs.Css.Cut
import StyleAssets.Proofs.Css.Recursion

/-!
# Scanning segment by segment

Where a segment of the sheet itself is over, a scan starts afresh: nothing that precedes such a
place bears on what follows it, and nothing that follows bears on what precedes.

* `Scanner.EndsSegment` — a token ends a segment that lies in no block.
* `Closed` — a text that ends with such a token, or is empty; `Closed.tokens_append` says that what
  follows it is read by itself.
* `Scanner.Resumes` — a scan that goes on, beside one that starts there; a step keeps it.
* `scan_append` — **main result**: the declarations of a closed text and of what follows it are
  those of the two texts, each scanned alone.
-/

namespace StyleAssets.Css

open Text

/-- Does a token end a segment of the sheet itself? Outside all blocks `;` and a stray `}` do, and
so does the `}` of a block that lies in no other. -/
def Scanner.EndsSegment (s : Scanner) (t : Token) : Prop :=
  s.passing = [] ∧
    (t.role = .semicolon ∧ s.rules = [] ∨ t.role = .closing .curly ∧ s.rules.length ≤ 1)

/-- A text at whose end a segment of the sheet itself is over. -/
def Closed (t : Text) : Prop :=
  t = [] ∨ ∃ ts last, tokens t = ts ++ [last] ∧ (ts.foldl Scanner.step {}).EndsSegment last

/-- A declaration that is found `n` bytes further on. -/
def Found.shift (n : Nat) (f : Found) : Found := { f with start := n + f.start }

variable {t : Text} {n : Nat}

/-! ## Tokens -/

theorem front_of_single {c : Char} {role : Role} (h : single? c = some role) (rest : Text) :
    front c rest = (role, 0) := by
  unfold single? at h
  split at h
  all_goals cases h
  all_goals rfl

theorem isStop_of_single {c : Char} {role : Role} (h : single? c = some role)
    (hrole : role = .semicolon ∨ role = .closing .curly) : IsStop c := by
  unfold single? at h
  split at h
  all_goals cases h
  all_goals simp [IsStop] at hrole ⊢

/-- What ends a segment is a `;` or a `}`, which is read by itself. -/
theorem Scanner.EndsSegment.exists_stop {s : Scanner} {last : Token} (h : s.EndsSegment last)
    (hmem : last ∈ tokens t) :
    ∃ c, IsStop c ∧ last.text = [c] ∧ ∀ rest, front c rest = (last.role, 0) := by
  have hrole : last.role = .semicolon ∨ last.role = .closing .curly := h.2.imp And.left And.left
  have hstructural : last.role ∉ [.plain, .blank, .opening .round] := by
    rcases hrole with hrole | hrole
    · rw [hrole]
      decide
    · rw [hrole]
      decide
  obtain ⟨c, hsingle, htext⟩ := text_of_single hmem hstructural
  exact ⟨c, isStop_of_single hsingle hrole, htext, front_of_single hsingle⟩

/-- What follows a closed text is read by itself. -/
theorem Closed.tokens_append (h : Closed t) (u : Text) :
    tokens (t ++ u) = tokens t ++ tokens u := by
  rcases h with rfl | ⟨ts, last, htokens, hends⟩
  · rw [tokens]
    rfl
  · have hmem : last ∈ tokens t := by rw [htokens]; simp
    obtain ⟨c, hstop, htext, hfront⟩ := hends.exists_stop hmem
    have hcut : Cut ts [c] := by
      have := (cut_of_tokens htokens).2
      rwa [textOf_cons, htext, textOf_nil] at this
    have ht : t = textOf ts ++ [c] := by
      rw [← textOf_tokens t, htokens, textOf_append, textOf_cons, htext]
      rfl
    have hlast : tokens (c :: u) = last :: tokens u := by
      rw [tokens_cons, hfront u, List.drop_zero, List.take_zero, ← htext]
    rw [htokens, ht, List.append_assoc, List.singleton_append, hcut.settled hstop u, hlast]
    simp

/-! ## Scanners -/

theorem declarationIn?_shift (n start : Nat) (segment : List Token) :
    declarationIn? (n + start) segment = (declarationIn? start segment).map (Found.shift n) := by
  unfold declarationIn?
  dsimp only
  split
  · rfl
  · simp only [Option.map_some, Found.shift, Nat.add_assoc]

namespace Scanner

/-- Of two scans the first goes on where the second starts: it has taken `n` bytes and found
`before` and `deep` blocks nested too deep by then. -/
structure Resumes (n : Nat) (before : List Found) (deep : Nat) (s s' : Scanner) : Prop where
  offset : s.offset = n + s'.offset
  rules : s.rules = s'.rules
  passing : s.passing = s'.passing
  start : s'.segment ≠ [] → s.start = n + s'.start
  segment : s.segment = s'.segment
  found : s.found = s'.found.map (Found.shift n) ++ before
  tooDeep : s.tooDeep = deep + s'.tooDeep

variable {before : List Found} {deep : Nat} {s s' : Scanner} {t : Token}

theorem Resumes.settled (h : Resumes n before deep s s') :
    s.settled = s'.settled.map (Found.shift n) ++ before := by
  have hrule : s.inRule = s'.inRule := by rw [inRule, inRule, h.rules]
  rw [Scanner.settled, Scanner.settled, hrule, h.found, h.segment]
  split
  · by_cases hsegment : s'.segment = []
    · rw [hsegment]
      rfl
    · rw [h.start hsegment, declarationIn?_shift]
      cases declarationIn? s'.start s'.segment.reverse <;> rfl
  · rfl

theorem Resumes.push (h : Resumes n before deep s s') (t : Token) :
    Resumes n before deep (s.push t) (s'.push t) := by
  unfold Scanner.push
  rw [h.segment]
  split
  · exact { h with start := fun _ => h.offset, segment := rfl }
  · rename_i hsegment
    exact { h with start := fun _ => h.start (by simpa using hsegment), segment := rfl }

theorem Resumes.pass (h : Resumes n before deep s s') (innermost : Bracket) (outer : List Bracket)
    (t : Token) : Resumes n before deep (s.pass innermost outer t) (s'.pass innermost outer t) := by
  unfold Scanner.pass
  rw [h.segment]
  split
  · exact { h with passing := rfl }
  · exact { h.push ⟨.plain, t.text⟩ with passing := rfl }

theorem Resumes.take (h : Resumes n before deep s s') (t : Token) :
    Resumes n before deep (s.take t) (s'.take t) := by
  have hrule : s.inRule = s'.inRule := by rw [inRule, inRule, h.rules]
  have hover : ∀ rules : List Bool, Resumes n before deep
      { s with rules, found := s.settled, segment := [] }
      { s' with rules, found := s'.settled, segment := [] } := fun rules =>
    { h with rules := rfl, found := h.settled, segment := rfl, start := absurd rfl }
  unfold Scanner.take
  split
  · rw [h.segment]
    split
    · exact h
    · exact h.push t
  · rw [h.rules]
    exact hover s'.rules
  · rw [h.rules, h.segment, hrule]
    split
    · exact { h with rules := rfl, segment := rfl, start := absurd rfl }
    · have hdeep : s.tooDeep + 1 = deep + (s'.tooDeep + 1) := by rw [h.tooDeep, Nat.add_assoc]
      exact { h with
        rules := rfl, passing := rfl, segment := rfl, start := absurd rfl, tooDeep := hdeep }
  · rw [h.rules]
    cases s'.rules with
    | nil => exact { h with rules := rfl, segment := rfl, start := absurd rfl }
    | cons _ outer => exact hover outer
  · exact { h.push ⟨.plain, t.text⟩ with passing := rfl }
  · exact h.push t

/-- **A step** is the same for a scan that goes on and for one that starts there. -/
theorem Resumes.step (h : Resumes n before deep s s') (t : Token) :
    Resumes n before deep (s.step t) (s'.step t) := by
  have hoffset : s.offset + t.byteSize = n + (s'.offset + t.byteSize) := by
    rw [h.offset, Nat.add_assoc]
  unfold Scanner.step
  rw [h.passing]
  cases s'.passing with
  | nil => exact { h.take t with offset := hoffset }
  | cons innermost outer => exact { h.pass innermost outer t with offset := hoffset }

theorem Resumes.foldl (h : Resumes n before deep s s') (ts : List Token) :
    Resumes n before deep (ts.foldl Scanner.step s) (ts.foldl Scanner.step s') := by
  induction ts generalizing s s' with
  | nil => exact h
  | cons t ts ih => exact ih (h.step t)

/-- Where a segment of the sheet is over, nothing is open. -/
theorem EndsSegment.step_eq (h : s.EndsSegment t) :
    (s.step t).rules = [] ∧ (s.step t).passing = [] ∧ (s.step t).segment = [] := by
  obtain ⟨hpassing, hends⟩ := h
  rw [step_of_walking hpassing]
  rcases hends with ⟨hrole, hrules⟩ | ⟨hrole, hrules⟩
  · rw [take, hrole]
    exact ⟨hrules, hpassing, rfl⟩
  · rw [take, hrole]
    simp only
    split
    · rename_i hnone
      exact ⟨hnone, hpassing, rfl⟩
    · rename_i inner outer hblocks
      rw [hblocks, List.length_cons] at hrules
      have houter : outer = [] := List.length_eq_zero_iff.1 (by omega)
      exact ⟨houter, hpassing, rfl⟩

end Scanner

/-! ## Texts -/

/-- At the end of a closed text a scan goes on as one that starts there. -/
theorem Closed.resumes (h : Closed t) :
    Scanner.Resumes (byteSize t) (scan t).1.reverse (scan t).2
      ((tokens t).foldl Scanner.step {}) {} := by
  have hopen : ((tokens t).foldl Scanner.step {}).rules = [] ∧
      ((tokens t).foldl Scanner.step {}).passing = [] ∧
      ((tokens t).foldl Scanner.step {}).segment = [] := by
    rcases h with rfl | ⟨ts, last, htokens, hends⟩
    · rw [tokens]
      exact ⟨rfl, rfl, rfl⟩
    · rw [htokens, List.foldl_append]
      exact hends.step_eq
  obtain ⟨hrules, hpassing, hsegment⟩ := hopen
  refine ⟨?_, hrules, hpassing, absurd rfl, hsegment, ?_, rfl⟩
  · rw [Scanner.offset_foldl, textOf_tokens]
    exact Nat.add_comm 0 _
  · show _ = (scan t).1.reverse
    unfold scan
    simp only [List.reverse_reverse, Scanner.settled, Scanner.inRule, hrules]
    rfl

/-- **Scanning is compositional.** -/
theorem scan_append (h : Closed t) (u : Text) :
    scan (t ++ u) =
      ((scan t).1 ++ (scan u).1.map (Found.shift (byteSize t)), (scan t).2 + (scan u).2) := by
  have hresumes := h.resumes.foldl (tokens u)
  rw [← List.foldl_append, ← h.tokens_append u] at hresumes
  refine Prod.ext ?_ hresumes.tooDeep
  show (Scanner.settled _).reverse = _
  rw [hresumes.settled, List.reverse_append, List.reverse_reverse, ← List.map_reverse]
  rfl

theorem scan_append_after_stray_brace :
    let t := "@m\x7ba\x7bb:\"\x7d\"\x7d\x7d\x7d".toList
    let u := "c\x7bd:url(e".toList
    Closed t ∧
      scan (t ++ u) = ([⟨['b'], "\"\x7d\"".toList, 7⟩, ⟨['d'], "url(e".toList, 17⟩], 0) := by
  intro t u
  have hclosed : Closed t := .inr ⟨(tokens t).dropLast, ⟨.closing .curly, ['\x7d']⟩,
    by decide +kernel, by decide +kernel, .inr ⟨rfl, by decide +kernel⟩⟩
  refine ⟨hclosed, ?_⟩
  rw [scan_append hclosed u]
  decide +kernel

end StyleAssets.Css
