import StyleAssets.Proofs.Css.Swap

/-!
# Two scans

Two scans whose texts differ within one declaration find the same declarations but for that one.

* `Scanner.Later` — nothing is found any more that starts before some byte.
* `Scanner.Twin` — two scans within the segment of the declaration; `Scanner.Apart` — after it.
* `Joins` — tokens that join a segment, whatever is read before them.
* `Exchange.settled` — **main result** on whole scans.
-/

namespace StyleAssets.Css

open Text

/-- What a declaration says, wherever it stands. -/
def Found.content (f : Found) : Text × Text := (f.property, f.value)

theorem start_lt_of_declarationIn? {start : Nat} {segment : List Token} {f : Found}
    (h : declarationIn? start segment = some f) :
    start + byteSize (textOf (headOf segment)) < f.start := by
  rw [declarationIn?_eq ⟨start, segment⟩] at h
  split at h
  · cases h
    simp only [Segment.declaration]
    omega
  · cases h

theorem content_declarationIn? (start start' : Nat) (segment : List Token) :
    (declarationIn? start segment).map Found.content =
      (declarationIn? start' segment).map Found.content := by
  rw [declarationIn?_eq ⟨start, segment⟩, declarationIn?_eq ⟨start', segment⟩]
  have hiff : Segment.Declares ⟨start, segment⟩ ↔ Segment.Declares ⟨start', segment⟩ := Iff.rfl
  by_cases h : Segment.Declares ⟨start, segment⟩
  · rw [if_pos h, if_pos (hiff.1 h)]
    rfl
  · rw [if_neg h, if_neg (mt hiff.2 h)]

/-- A plain token at the start of a segment belongs to its head. -/
theorem byteSize_le_headOf {t : Token} (h : t.role = .plain) (rest : List Token) :
    t.byteSize ≤ byteSize (textOf (headOf (t :: rest))) := by
  have hhead : headOf ([t] ++ rest) =
      [t] ++ dropLastBlanks (rest.takeWhile (·.role != .colon)) := by
    rw [headOf_append_of_no_colon (by simp [h])]
    exact dropLastBlanks_append_of_last (by simp [h])
  rw [← List.singleton_append, hhead, textOf_append, byteSize_append, textOf_cons, textOf_nil,
    List.append_nil]
  exact Nat.le_add_right _ _

namespace Scanner

variable {s s' : Scanner} {t : Token} {found : List Found} {bound : Nat}

/-! ## What is found later -/

/-- Besides `found`, all that has been or will be found starts after byte `bound`. -/
structure Later (found : List Found) (bound : Nat) (s : Scanner) : Prop where
  offset : bound ≤ s.offset
  segment : s.segment = [] ∨ bound ≤ s.start ∨
    ∃ t ∈ s.segment.getLast?, t.role = .plain ∧ bound ≤ s.start + t.byteSize
  found : ∃ more, s.found = more ++ found ∧ ∀ f ∈ more, bound < f.start

theorem Later.settled (h : Later found bound s) :
    ∃ more, s.settled = more ++ found ∧ ∀ f ∈ more, bound < f.start := by
  obtain ⟨more, hfound, hmore⟩ := h.found
  unfold Scanner.settled
  split
  · cases hd : declarationIn? s.start s.segment.reverse with
    | none => exact ⟨more, hfound, hmore⟩
    | some f =>
      have hf : bound < f.start := by
        have hlt := start_lt_of_declarationIn? hd
        obtain hnil | hle | ⟨t, ht, hplain, hle⟩ := h.segment
        · simp [hnil, declarationIn?] at hd
        · omega
        · obtain ⟨init, hsegment⟩ := List.getLast?_eq_some_iff.1 ht
          rw [hsegment, List.reverse_append] at hlt
          have := byteSize_le_headOf hplain init.reverse
          simp only [List.reverse_cons, List.reverse_nil, List.nil_append, List.singleton_append]
            at hlt
          omega
      refine ⟨f :: more, by rw [hfound]; rfl, fun g hg => ?_⟩
      obtain rfl | hg := List.mem_cons.1 hg
      · exact hf
      · exact hmore g hg
  · exact ⟨more, hfound, hmore⟩

theorem Later.step (h : Later found bound s) (t : Token) : Later found bound (s.step t) := by
  have hoffset : bound ≤ (s.step t).offset := Nat.le_trans h.offset (Nat.le_add_right _ _)
  cases step_effect s t with
  | ignored before after hfound => exact ⟨hoffset, .inl after, hfound ▸ h.found⟩
  | joined t' token segment start hfound =>
    refine ⟨hoffset, .inr ?_, hfound ▸ h.found⟩
    rw [start, segment, mark]
    by_cases hnil : s.segment = []
    · rw [if_pos hnil]
      exact .inl h.offset
    · rw [if_neg hnil, List.getLast?_cons_of_ne_nil hnil]
      exact h.segment.resolve_left hnil
  | ended segment hfound =>
    refine ⟨hoffset, .inl segment, ?_⟩
    obtain hfound | hfound := hfound
    · exact hfound ▸ h.found
    · exact hfound ▸ h.settled

theorem Later.foldl (h : Later found bound s) (ts : List Token) :
    Later found bound (ts.foldl Scanner.step s) := by
  induction ts generalizing s with
  | nil => exact h
  | cons t ts ih => exact ih (h.step t)

/-- A declaration that starts earlier has been found. -/
theorem Later.mem (h : Later found bound s) {ts : List Token} {f : Found}
    (hf : f ∈ (ts.foldl Scanner.step s).settled) (hle : f.start ≤ bound) : f ∈ found := by
  obtain ⟨more, hsettled, hmore⟩ := (h.foldl ts).settled
  rw [hsettled] at hf
  obtain hf | hf := List.mem_append.1 hf
  · have := hmore f hf
    omega
  · exact hf

/-! ## Within one segment -/

/-- All that one token can do within a segment. Which of it, is told by the open blocks and brackets
alone: the token joins the segment, or the segment ends, with its declaration or without. -/
theorem step_cases (rules : List Bool) (passing : List Bracket) (t : Token) :
    (∃ t' passing', t'.text = t.text ∧ ∀ s : Scanner, s.rules = rules → s.passing = passing →
      s.segment ≠ [] → s.step t = { s with
        offset := s.offset + t.byteSize, passing := passing', segment := t' :: s.segment }) ∨
    (∃ rules', ∀ s : Scanner, s.rules = rules → s.passing = passing → s.segment ≠ [] →
      s.step t = { s with
        offset := s.offset + t.byteSize, rules := rules', segment := [], found := s.settled }) ∨
    ∀ s : Scanner, s.rules = rules → s.passing = passing → s.segment ≠ [] →
      (s.step t).segment = [] ∧ (s.step t).found = s.found := by
  cases passing with
  | cons innermost outer =>
    refine .inl ⟨⟨.plain, t.text⟩, passed innermost outer t, rfl, fun s _ hpassing hne => ?_⟩
    rw [step, hpassing]
    simp [pass, push, hne]
  | nil =>
    cases hrole : t.role with
    | semicolon =>
      refine .inr (.inl ⟨rules, fun s hrules hpassing _ => ?_⟩)
      rw [step_of_walking hpassing, take, hrole, ← hrules]
    | opening b =>
      cases b with
      | curly =>
        refine .inr (.inr fun s _ hpassing _ => ?_)
        rw [step_of_walking hpassing, take, hrole]
        simp only
        split
        · exact ⟨rfl, rfl⟩
        · exact ⟨rfl, rfl⟩
      | round =>
        refine .inl ⟨⟨.plain, t.text⟩, [.round], rfl, fun s _ hpassing hne => ?_⟩
        rw [step_of_walking hpassing, take, hrole]
        simp [push, hne]
      | square =>
        refine .inl ⟨⟨.plain, t.text⟩, [.square], rfl, fun s _ hpassing hne => ?_⟩
        rw [step_of_walking hpassing, take, hrole]
        simp [push, hne]
    | closing b =>
      cases b with
      | curly =>
        cases rules with
        | nil =>
          refine .inr (.inr fun s hrules hpassing _ => ?_)
          rw [step_of_walking hpassing, take, hrole]
          simp only [hrules]
          exact ⟨trivial, trivial⟩
        | cons inner outer =>
          refine .inr (.inl ⟨outer, fun s hrules hpassing _ => ?_⟩)
          rw [step_of_walking hpassing, take, hrole]
          simp only [hrules]
      | _ =>
        refine .inl ⟨t, [], rfl, fun s _ hpassing hne => ?_⟩
        rw [step_of_walking hpassing, take, hrole]
        simp [push, hne, hpassing]
    | _ =>
      refine .inl ⟨t, [], rfl, fun s _ hpassing hne => ?_⟩
      rw [step_of_walking hpassing, take, hrole]
      simp [push, hne, hpassing]

/-! ## After the segment -/

@[simp] theorem rules_push (s : Scanner) (t : Token) : (s.push t).rules = s.rules := by
  unfold push
  split <;> rfl

/-- Two scans that go on alike. What they have found besides `found` and `found'` says the same. -/
structure Apart (found found' : List Found) (s s' : Scanner) : Prop where
  rules : s'.rules = s.rules
  passing : s'.passing = s.passing
  segment : s'.segment = s.segment
  found : ∃ more more', s.found = more ++ found ∧ s'.found = more' ++ found' ∧
    more.map Found.content = more'.map Found.content

variable {found' : List Found}

theorem Apart.settled (h : Apart found found' s s') : ∃ more more',
    s.settled = more ++ found ∧ s'.settled = more' ++ found' ∧
      more.map Found.content = more'.map Found.content := by
  obtain ⟨more, more', hfound, hfound', hsame⟩ := h.found
  have hrule : s'.inRule = s.inRule := by rw [inRule, inRule, h.rules]
  have hdeclared := content_declarationIn? s.start s'.start s.segment.reverse
  unfold Scanner.settled
  rw [hrule, h.segment, hfound, hfound']
  split
  · refine ⟨_, _, (List.append_assoc ..).symm, (List.append_assoc ..).symm, ?_⟩
    rw [List.map_append, List.map_append, hsame]
    cases hd : Css.declarationIn? s.start s.segment.reverse with
    | none =>
      rw [hd] at hdeclared
      rw [Option.map_eq_none_iff.1 hdeclared.symm]
    | some f =>
      rw [hd] at hdeclared
      obtain ⟨f', hd', hcontent⟩ := Option.map_eq_some_iff.1 hdeclared.symm
      rw [hd']
      exact congrArg (· :: more'.map Found.content) hcontent.symm
  · exact ⟨more, more', rfl, rfl, hsame⟩

theorem Apart.push (h : Apart found found' s s') (t : Token) :
    Apart found found' (s.push t) (s'.push t) :=
  ⟨by simp [h.rules], by simp [h.passing], by simp [h.segment], by simpa using h.found⟩

theorem Apart.take (h : Apart found found' s s') (t : Token) :
    Apart found found' (s.take t) (s'.take t) := by
  have hsettled := h.settled
  have hrule : s'.inRule = s.inRule := by rw [inRule, inRule, h.rules]
  cases hrole : t.role with
  | blank =>
    simp only [Scanner.take, hrole, h.segment]
    split
    · exact h
    · exact h.push t
  | semicolon =>
    simp only [Scanner.take, hrole]
    exact ⟨h.rules, h.passing, rfl, hsettled⟩
  | opening b =>
    cases b with
    | curly =>
      simp only [Scanner.take, hrole, h.rules, h.segment, hrule]
      split
      · exact ⟨rfl, h.passing, rfl, h.found⟩
      · exact ⟨rfl, rfl, rfl, h.found⟩
    | _ =>
      have hpush := h.push ⟨.plain, t.text⟩
      simp only [Scanner.take, hrole]
      exact ⟨hpush.rules, rfl, hpush.segment, hpush.found⟩
  | closing b =>
    cases b with
    | curly =>
      simp only [Scanner.take, hrole, h.rules]
      split
      · exact ⟨rfl, h.passing, rfl, h.found⟩
      · exact ⟨rfl, h.passing, rfl, hsettled⟩
    | _ =>
      simp only [Scanner.take, hrole]
      exact h.push t
  | _ =>
    simp only [Scanner.take, hrole]
    exact h.push t

theorem Apart.step (h : Apart found found' s s') (t : Token) :
    Apart found found' (s.step t) (s'.step t) := by
  rw [Scanner.step, Scanner.step, h.passing]
  cases s.passing with
  | cons innermost outer =>
    have hpush := h.push ⟨.plain, t.text⟩
    simp only [pass, h.segment]
    split
    · exact ⟨h.rules, rfl, h.segment, h.found⟩
    · exact ⟨hpush.rules, rfl, hpush.segment, hpush.found⟩
  | nil =>
    have htake := h.take t
    exact ⟨htake.rules, htake.passing, htake.segment, htake.found⟩

theorem Apart.foldl (h : Apart found found' s s') (ts : List Token) :
    Apart found found' (ts.foldl Scanner.step s) (ts.foldl Scanner.step s') := by
  induction ts generalizing s s' with
  | nil => exact h
  | cons t ts ih => exact ih (h.step t)

/-! ## Within the segment of a declaration -/

/-- Two scans that have read the same but for some tokens of the segment. -/
structure Twin (start : Nat) (found : List Found) (pre ts ts' : List Token) (s s' : Scanner) :
    Prop where
  rules : s'.rules = s.rules
  passing : s'.passing = s.passing
  segment : ∃ post, s.segment.reverse = pre ++ (ts ++ post) ∧
    s'.segment.reverse = pre ++ (ts' ++ post)
  starts : s.start = start ∧ s'.start = start
  founds : s.found = found ∧ s'.found = found

section

variable {start : Nat} {pre ts ts' : List Token} {before old new after lead trail done : Text}
  {f : Found}

theorem Twin.segment_ne_nil (h : Twin start found pre ts ts' s s') (hpre : pre ≠ []) :
    s.segment ≠ [] ∧ s'.segment ≠ [] := by
  obtain ⟨post, hs, hs'⟩ := h.segment
  constructor
  · intro hnil
    rw [hnil, List.reverse_nil] at hs
    exact hpre (List.append_eq_nil_iff.1 hs.symm).1
  · intro hnil
    rw [hnil, List.reverse_nil] at hs'
    exact hpre (List.append_eq_nil_iff.1 hs'.symm).1

/-- The declaration of the one segment is found in the other, with the other text. -/
theorem Twin.settled (h : Twin start found pre ts ts' s s')
    (hswap : Swap before old new after ts ts')
    (hold : Trimmed old ∧ old ≠ []) (hnew : Trimmed new ∧ new ≠ []) (hsound : Sound done s)
    (hf : f ∈ s.settled) (hfresh : f ∉ found) (hvalue : f.value = lead ++ old ++ trail)
    (hplace : f.start + byteSize lead = start + byteSize (textOf pre ++ before)) :
    s.settled = f :: found ∧ s'.settled = { f with value := lead ++ new ++ trail } :: found := by
  obtain ⟨post, hs, hs'⟩ := h.segment
  have hrule : s'.inRule = s.inRule := by rw [inRule, inRule, h.rules]
  unfold Scanner.settled at hf ⊢
  rw [hrule, h.founds.1, h.founds.2] at *
  split at hf
  · rename_i hrules
    rw [if_pos hrules, if_pos hrules]
    have hdeclared : Css.declarationIn? s.start s.segment.reverse = some f := by
      obtain hf | hf := List.mem_append.1 hf
      · exact Option.mem_toList.1 hf
      · exact absurd hf hfresh
    have hsmall : ∀ t ∈ pre ++ (ts ++ post), t.Small := by
      intro t ht
      rw [← hs] at ht
      exact hsound.small t (List.mem_reverse.1 ht)
    rw [hdeclared, hs', h.starts.2]
    rw [hs, h.starts.1] at hdeclared
    rw [hswap.declarationIn? hold hnew hsmall hdeclared hvalue hplace]
    exact ⟨rfl, rfl⟩
  · exact absurd hf hfresh

/-- **What two scans find** that differ within the segment of a declaration. -/
theorem Twin.foldl (h : Twin start found pre ts ts' s s') (hpre : pre ≠ [])
    (hswap : Swap before old new after ts ts') (hold : Trimmed old ∧ old ≠ [])
    (hnew : Trimmed new ∧ new ≠ []) (hsound : Sound done s) {rest : List Token}
    (hsmall : ∀ t ∈ rest, t.Small) (hf : f ∈ (rest.foldl Scanner.step s).settled)
    (hfresh : f ∉ found) (hle : f.start ≤ s.offset) (hvalue : f.value = lead ++ old ++ trail)
    (hplace : f.start + byteSize lead = start + byteSize (textOf pre ++ before)) :
    ∃ more more', (rest.foldl Scanner.step s).settled = more ++ f :: found ∧
      (rest.foldl Scanner.step s').settled =
        more' ++ { f with value := lead ++ new ++ trail } :: found ∧
      more.map Found.content = more'.map Found.content := by
  induction rest generalizing s s' done with
  | nil =>
    obtain ⟨hsettled, hsettled'⟩ := h.settled hswap hold hnew hsound hf hfresh hvalue hplace
    exact ⟨[], [], hsettled, hsettled', rfl⟩
  | cons t rest ih =>
    obtain ⟨ht, hrest⟩ := List.forall_mem_cons.1 hsmall
    obtain ⟨hne, hne'⟩ := h.segment_ne_nil hpre
    have hle' : f.start ≤ (s.step t).offset := Nat.le_trans hle (Nat.le_add_right _ _)
    -- once the segment is over, no declaration is found that starts so early
    have hlater : ∀ found, (s.step t).segment = [] → (s.step t).found = found → f ∈ found := by
      intro found hsegment hfound
      have hlater : Later found f.start (s.step t) :=
        ⟨hle', .inl hsegment, [], hfound, fun _ hg => absurd hg List.not_mem_nil⟩
      exact hlater.mem hf (Nat.le_refl _)
    obtain ⟨t', passing, -, hstep⟩ | ⟨rules, hstep⟩ | hstep := step_cases s.rules s.passing t
    · have hs := hstep s rfl rfl hne
      have hs' := hstep s' h.rules h.passing hne'
      obtain ⟨post, hsegment, hsegment'⟩ := h.segment
      refine ih ?_ (hsound.step ht) hrest hf hle'
      rw [hs, hs']
      refine ⟨h.rules, rfl, ⟨post ++ [t'], ?_, ?_⟩, h.starts, h.founds⟩
      · simp only [List.reverse_cons, hsegment, List.append_assoc]
      · simp only [List.reverse_cons, hsegment', List.append_assoc]
    · have hs := hstep s rfl rfl hne
      have hs' := hstep s' h.rules h.passing hne'
      have hmem : f ∈ s.settled := hlater s.settled (by rw [hs]) (by rw [hs])
      obtain ⟨hsettled, hsettled'⟩ := h.settled hswap hold hnew hsound hmem hfresh hvalue hplace
      have hapart : Apart (f :: found) ({ f with value := lead ++ new ++ trail } :: found)
          (s.step t) (s'.step t) := by
        rw [hs, hs']
        exact ⟨rfl, h.passing, rfl, [], [], hsettled, hsettled', rfl⟩
      exact (hapart.foldl rest).settled
    · obtain ⟨hsegment, hfound⟩ := hstep s rfl rfl hne
      exact absurd (hlater found hsegment (hfound.trans h.founds.1)) hfresh

end

/-- A token that may begin what stands in a value begins a segment as a plain token, if at all. -/
theorem step_of_empty (hs : s.segment = [])
    (ht : t.role = .plain ∨ t.role = .blank ∨ t.role = .opening .round) :
    (s.step t).found = s.found ∧ ((s.step t).segment = [] ∨
      (s.step t).segment = [⟨.plain, t.text⟩] ∧ (s.step t).start = s.offset) := by
  cases hpassing : s.passing with
  | cons innermost outer =>
    rw [step, hpassing]
    simp [pass, hs]
  | nil =>
    rw [step_of_walking hpassing]
    obtain ⟨role, text⟩ := t
    obtain hrole | hrole | hrole := ht
    · obtain rfl : role = .plain := hrole
      simp [take, push, hs]
    · obtain rfl : role = .blank := hrole
      simp [take, hs]
    · obtain rfl : role = .opening .round := hrole
      simp [take, push, hs]

end Scanner

/-! ## Whole scans -/

/-- Tokens that join a segment: as `us` where they stand directly in a block, as plain ones within
brackets. -/
structure Joins (ts us : List Token) : Prop where
  walk : ∀ s : Scanner, s.passing = [] → s.segment ≠ [] → ts.foldl Scanner.step s =
    { s with offset := s.offset + byteSize (textOf ts), segment := us.reverse ++ s.segment }
  pass : ∀ s : Scanner, s.passing ≠ [] → s.Passes ts s.passing

@[simp] theorem textOf_nested (ts : List Token) : textOf (ts.map Token.nested) = textOf ts := by
  rw [textOf, textOf, List.flatMap_map]
  rfl

/-- A row of tokens and another one that may stand in for it in any value. -/
structure Exchange (before old new after : Text) (ts ts' : List Token) : Prop where
  walk : ∃ us us', Joins ts us ∧ Joins ts' us' ∧ Swap before old new after us us'
  pass : Swap before old new after (ts.map Token.nested) (ts'.map Token.nested)
  first : ∀ t ∈ ts.head?, t.role = .plain ∨ t.role = .blank ∨ t.role = .opening .round

section

variable {before old new after lead trail : Text} {ts ts' pre post : List Token} {f : Found}

/-- In the segment that a scan has begun, both rows of tokens are read alike. -/
theorem Exchange.twin (h : Exchange before old new after ts ts') {s : Scanner}
    (hs : s.segment ≠ []) : ∃ us us', Swap before old new after us us' ∧
      Scanner.Twin s.start s.found s.segment.reverse us us' (ts.foldl Scanner.step s)
        (ts'.foldl Scanner.step s) := by
  by_cases hpassing : s.passing = []
  · obtain ⟨us, us', hjoins, hjoins', hswap⟩ := h.walk
    rw [hjoins.walk s hpassing hs, hjoins'.walk s hpassing hs]
    exact ⟨us, us', hswap, rfl, rfl, ⟨[], by simp, by simp⟩, ⟨rfl, rfl⟩, ⟨rfl, rfl⟩⟩
  · obtain ⟨us, us', hjoins, hjoins', -⟩ := h.walk
    rw [hjoins.pass s hpassing, hjoins'.pass s hpassing]
    refine ⟨_, _, h.pass, rfl, rfl, ⟨[], ?_, ?_⟩, ⟨rfl, rfl⟩, ⟨rfl, rfl⟩⟩
    · simp [Scanner.skim, hs]
    · simp [Scanner.skim, hs]

/-- **Two texts with other tokens within a declaration:** the scans of both find the same before it,
and declarations that say the same after it. Its value has the other text at the same place. -/
theorem Exchange.settled (h : Exchange before old new after ts ts') (hold : Trimmed old ∧ old ≠ [])
    (hnew : Trimmed new ∧ new ≠ []) (hsmall : ∀ t ∈ pre ++ (ts ++ post), t.Small)
    (hf : f ∈ ((pre ++ (ts ++ post)).foldl Scanner.step {}).settled)
    (hvalue : f.value = lead ++ old ++ trail)
    (hplace : f.start + byteSize lead = byteSize (textOf pre ++ before)) :
    ∃ found more more',
      ((pre ++ (ts ++ post)).foldl Scanner.step {}).settled = more ++ f :: found ∧
      ((pre ++ (ts' ++ post)).foldl Scanner.step {}).settled =
        more' ++ { f with value := lead ++ new ++ trail } :: found ∧
      more.map Found.content = more'.map Found.content := by
  have hpre : ∀ t ∈ pre, t.Small := fun t ht => hsmall t (List.mem_append_left _ ht)
  have hts : ∀ t ∈ ts, t.Small := fun t ht =>
    hsmall t (List.mem_append_right _ (List.mem_append_left _ ht))
  have hpost : ∀ t ∈ post, t.Small := fun t ht =>
    hsmall t (List.mem_append_right _ (List.mem_append_right _ ht))
  have hsound := Scanner.sound_init.foldl hpre
  simp only [List.foldl_append] at hf ⊢
  generalize pre.foldl Scanner.step {} = s at hf hsound ⊢
  have holdSize : byteSize old ≠ 0 := fun hzero => hold.2 (byteSize_eq_zero.1 hzero)
  have hoffset := hsound.offset
  have hfresh : f ∉ s.found := by
    intro hmem
    have hstop := hsound.stop_le f hmem
    have hmark := hsound.mark_le
    simp only [Found.stop, hvalue, byteSize_append, List.nil_append] at hstop hplace hoffset
    omega
  by_cases hs : s.segment = []
  · -- no declaration that is found later could start before the first of the tokens ends
    exfalso
    have hne : ts ≠ [] := by
      rintro rfl
      exact h.pass.ne_nil hold.2 rfl
    obtain ⟨t, more, rfl⟩ := List.exists_cons_of_ne_nil hne
    have hsize : byteSize before < t.byteSize := h.pass.first t.nested rfl
    obtain ⟨hfound, hsegment⟩ := Scanner.step_of_empty hs (h.first t rfl)
    have hlater : Scanner.Later s.found f.start (s.step t) := by
      have hnext : (s.step t).offset = s.offset + t.byteSize := rfl
      refine ⟨?_, ?_, [], hfound, fun _ hg => absurd hg List.not_mem_nil⟩
      · simp only [byteSize_append, List.nil_append] at hplace hoffset
        omega
      · refine hsegment.imp_right fun ⟨hsegment, hstart⟩ => .inr ?_
        rw [hsegment, hstart]
        refine ⟨⟨.plain, t.text⟩, rfl, rfl, ?_⟩
        show f.start ≤ s.offset + t.byteSize
        simp only [byteSize_append, List.nil_append] at hplace hoffset
        omega
    rw [List.foldl_cons, ← List.foldl_append] at hf
    exact hfresh (hlater.mem hf (Nat.le_refl _))
  · obtain ⟨us, us', hswap, htwin⟩ := h.twin hs
    have hstart := stop_of_slice? (hsound.segment hs)
    refine ⟨s.found, htwin.foldl (by simpa using hs) hswap hold hnew (hsound.foldl hts) hpost hf
      hfresh ?_ hvalue ?_⟩
    · rw [Scanner.offset_foldl]
      have htext := congrArg byteSize h.pass.text
      simp only [textOf_nested, byteSize_append, List.nil_append] at hplace hoffset htext
      omega
    · simp only [byteSize_append, List.nil_append] at hplace hoffset ⊢
      omega

end

end StyleAssets.Css
