import StyleAssets.Asset.Copy

/-!
# The first copy for each target

* `CopyJob.firstOfEach_sublist`, `CopyJob.firstOfEach_pairwise`, `CopyJob.mem_firstOfEach` — of the
  copies with one target exactly the first is chosen, and the order stays.
* `CopyJob.clashWarnings_eq` — the warnings name the copies that give way to a different asset, each
  once and in order.
-/

namespace StyleAssets

namespace Path

variable {p q r : Path}

theorem Same.refl (p : Path) : p.Same p := rfl

theorem Same.symm (h : p.Same q) : q.Same p := Eq.symm h

theorem Same.trans (h : p.Same q) (h' : q.Same r) : p.Same r := Eq.trans h h'

end Path

namespace CopyJob

/-- Do two copies have the same target? -/
def rivals (j k : CopyJob) : Bool := decide (j.target.Same k.target)

variable {kept jobs : List CopyJob} {i j k : CopyJob}

theorem rivals_iff : rivals j k = true ↔ j.target.Same k.target := decide_eq_true_iff

@[simp] theorem rivals_self (j : CopyJob) : rivals j j = true := rivals_iff.2 (.refl _)

/-- Rivals of a copy are rivals of its rivals. -/
theorem rivals_congr (h : rivals j k = true) (i : CopyJob) : rivals i j = rivals i k :=
  Bool.eq_iff_iff.2 ⟨fun hi => rivals_iff.2 ((rivals_iff.1 hi).trans (rivals_iff.1 h)),
    fun hi => rivals_iff.2 ((rivals_iff.1 hi).trans (rivals_iff.1 h).symm)⟩

theorem any_rivals_congr (h : rivals j k = true) (kept : List CopyJob) :
    kept.any (rivals · j) = kept.any (rivals · k) :=
  congrArg kept.any (funext (rivals_congr h))

theorem firstOfEachAfter_cons (kept : List CopyJob) (job : CopyJob) (rest : List CopyJob) :
    firstOfEachAfter kept (job :: rest) =
      if kept.any (rivals · job) then firstOfEachAfter kept rest
      else job :: firstOfEachAfter (kept ++ [job]) rest := rfl

theorem firstOfEachAfter_sublist (kept jobs : List CopyJob) :
    (firstOfEachAfter kept jobs).Sublist jobs := by
  induction jobs generalizing kept with
  | nil => exact .slnil
  | cons job rest ih =>
    rw [firstOfEachAfter_cons]
    split
    · exact (ih kept).cons job
    · exact (ih _).cons_cons job

theorem mem_firstOfEachAfter :
    k ∈ firstOfEachAfter kept jobs ↔
      kept.any (rivals · k) = false ∧ jobs.find? (rivals · k) = some k := by
  induction jobs generalizing kept with
  | nil => simp [firstOfEachAfter]
  | cons job rest ih =>
    rw [firstOfEachAfter_cons, List.find?_cons]
    cases hkept : kept.any (rivals · job) with
    | true =>
      rw [if_pos rfl, ih]
      cases hjob : rivals job k with
      | true =>
        simp [← any_rivals_congr hjob, hkept]
      | false => rfl
    | false =>
      rw [if_neg Bool.false_ne_true, List.mem_cons, ih, List.any_append]
      cases hjob : rivals job k with
      | true =>
        simp [← any_rivals_congr hjob, hkept, eq_comm]
      | false =>
        have hne : k ≠ job := by
          rintro rfl
          simp at hjob
        simp [hjob, hne]

theorem firstOfEachAfter_pairwise (kept jobs : List CopyJob) :
    (firstOfEachAfter kept jobs).Pairwise fun j k => ¬j.target.Same k.target := by
  induction jobs generalizing kept with
  | nil => exact .nil
  | cons job rest ih =>
    rw [firstOfEachAfter_cons]
    split
    · exact ih kept
    · refine .cons (fun k hk => ?_) (ih _)
      have hany := (mem_firstOfEachAfter.1 hk).1
      simp only [List.any_append, List.any_cons, Bool.or_eq_false_iff] at hany
      exact fun hsame => Bool.false_ne_true (hany.2.1.symm.trans (rivals_iff.2 hsame))

theorem firstOfEach_sublist (jobs : List CopyJob) : (firstOfEach jobs).Sublist jobs :=
  firstOfEachAfter_sublist [] jobs

theorem firstOfEach_pairwise (jobs : List CopyJob) :
    (firstOfEach jobs).Pairwise fun j k => ¬j.target.Same k.target :=
  firstOfEachAfter_pairwise [] jobs

/-- A copy is chosen if it is the first with its target. -/
theorem mem_firstOfEach : k ∈ firstOfEach jobs ↔ jobs.find? (rivals · k) = some k := by
  simp [firstOfEach, mem_firstOfEachAfter]

theorem firstOfEach_nodup (jobs : List CopyJob) : (firstOfEach jobs).Nodup := by
  refine (firstOfEach_pairwise jobs).imp fun {j k} hne heq => hne ?_
  rw [heq]
  exact .refl _

/-- Every copy has a rival that is chosen: the first of its rivals. -/
theorem exists_first (h : j ∈ jobs) :
    ∃ first ∈ firstOfEach jobs, jobs.find? (rivals · j) = some first ∧
      first.target.Same j.target := by
  cases hfind : jobs.find? (rivals · j) with
  | none => exact absurd (rivals_self j) (List.find?_eq_none.1 hfind j h)
  | some first =>
    have hrivals : rivals first j = true := by simpa using List.find?_some hfind
    refine ⟨first, ?_, rfl, rivals_iff.1 hrivals⟩
    rw [mem_firstOfEach, ← hfind]
    exact congrArg (List.find? · jobs) (funext (rivals_congr hrivals))

/-! ## Warnings -/

/-- Does a copy give way to the copy of a different asset? -/
def givesWay (jobs : List CopyJob) (job : CopyJob) : Bool :=
  match jobs.find? (rivals · job) with
  | some first => !decide (first.source.Same job.source)
  | none => false

/-- The warning for a copy that gives way. -/
def clashWarning (job : CopyJob) : LogEntry :=
  let source := job.source.display
  let target := job.target.display
  .warning s!"`{source}` and another asset both map to `{target}`, keeping the first"

theorem clashWarningsAfter_cons (kept : List CopyJob) (job : CopyJob) (rest : List CopyJob) :
    clashWarningsAfter kept (job :: rest) =
      if kept.any (rivals · job) then
        (if clashes kept job then [clashWarning job] else []) ++ clashWarningsAfter kept rest
      else clashWarningsAfter (kept ++ [job]) rest := rfl

theorem givesWay_append_of_any (h : kept.any (rivals · i) = true) (jobs : List CopyJob) :
    givesWay (kept ++ jobs) i = givesWay kept i := by
  obtain ⟨first, hfirst⟩ := Option.isSome_iff_exists.1 (List.find?_isSome.2 (List.any_eq_true.1 h))
  rw [givesWay, givesWay, List.find?_append, hfirst]
  rfl

/-- Among copies without rivals a clash is a clash with the first rival. -/
theorem clashes_eq_givesWay (hkept : kept.Pairwise fun j k => ¬j.target.Same k.target)
    (job : CopyJob) : clashes kept job = givesWay kept job := by
  induction kept with
  | nil => rfl
  | cons first kept ih =>
    obtain ⟨hfirst, hkept⟩ := List.pairwise_cons.1 hkept
    rw [clashes, givesWay, List.any_cons, List.find?_cons]
    change (rivals first job && !decide (first.source.Same job.source) || clashes kept job) = _
    cases hrivals : rivals first job with
    | false => rw [ih hkept, givesWay]; rfl
    | true =>
      have hnone : kept.find? (rivals · job) = none := by
        refine List.find?_eq_none.2 fun k hk hk' => hfirst k hk ?_
        exact (rivals_iff.1 hrivals).trans (rivals_iff.1 hk').symm
      rw [ih hkept, givesWay, hnone]
      simp

theorem clashWarningsAfter_eq (hkept : kept.Pairwise fun j k => ¬j.target.Same k.target)
    (jobs : List CopyJob) :
    clashWarningsAfter kept jobs = (jobs.filter (givesWay (kept ++ jobs))).map clashWarning := by
  induction jobs generalizing kept with
  | nil => rfl
  | cons job rest ih =>
    rw [clashWarningsAfter_cons]
    cases hany : kept.any (rivals · job) with
    | true =>
      have hgives : givesWay (kept ++ job :: rest) job = clashes kept job := by
        rw [givesWay_append_of_any hany, clashes_eq_givesWay hkept]
      -- a later copy that is a rival of `job` has a rival in `kept` before it
      have hrest : rest.filter (givesWay (kept ++ job :: rest)) =
          rest.filter (givesWay (kept ++ rest)) := by
        refine List.filter_congr fun k _ => ?_
        cases hk : kept.any (rivals · k) with
        | true => rw [givesWay_append_of_any hk, givesWay_append_of_any hk]
        | false =>
          have hjob : rivals job k = false := by
            refine Bool.eq_false_iff.2 fun hjob => ?_
            rw [any_rivals_congr hjob, hk] at hany
            exact Bool.false_ne_true hany
          simp [givesWay, List.find?_append, hjob]
      rw [if_pos rfl, List.filter_cons, hgives, ih hkept, hrest]
      cases clashes kept job <;> rfl
    | false =>
      have hself : givesWay (kept ++ job :: rest) job = false := by
        have hnone : kept.find? (rivals · job) = none :=
          List.find?_eq_none.2 fun k hk => by simpa using List.any_eq_false.1 hany k hk
        simp [givesWay, List.find?_append, hnone, Path.Same.refl]
      have hpairwise : (kept ++ [job]).Pairwise fun j k => ¬j.target.Same k.target := by
        refine List.pairwise_append.2 ⟨hkept, List.pairwise_singleton _ _, fun k hk l hl => ?_⟩
        rw [List.mem_singleton.1 hl]
        exact fun hsame => List.any_eq_false.1 hany k hk (rivals_iff.2 hsame)
      rw [if_neg Bool.false_ne_true, ih hpairwise, List.filter_cons, hself,
        if_neg Bool.false_ne_true, List.append_assoc]
      rfl

/-- **Exactly the copies that give way to a different asset are warned of.** -/
theorem clashWarnings_eq (jobs : List CopyJob) :
    clashWarningsAfter [] jobs = (jobs.filter (givesWay jobs)).map clashWarning :=
  clashWarningsAfter_eq .nil jobs

end CopyJob

end StyleAssets
