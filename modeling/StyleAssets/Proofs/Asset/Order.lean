import Mathlib
import StyleAssets.Proofs.Asset.Copy
import StyleAssets.Proofs.Asset.Effect
import StyleAssets.Proofs.Asset.FirstOfEach

/-!
# Copies in any order

Copies may run in parallel. As long as none of them fills what another one reads or fills, the order
in which they take effect cannot be told afterwards.

* `CopyJob.runInOrder` — runs copies one after the other and notes what became of each; `gather`
  puts the notes in the order of the jobs. `runEach_eq_runInOrder` is the order of the list itself.
* `CopyJob.Independent` — no copy meddles with another, nor with its own source.
* `CopyJob.runInOrder_of_steady` — while nothing meddles with them, copies to different places come
  to what each of them would come to alone.
* `CopyJob.runAll_any_order` — **main result**.
-/

namespace StyleAssets

namespace Disk

variable {d : Disk} {writes : List (Location × File)} {place : Location}

/-- The disk with files filled one after the other. -/
def fill (d : Disk) (writes : List (Location × File)) : Disk :=
  writes.foldl (fun d write => d.put write.1 (.file write.2)) d

theorem fill_cons (d : Disk) (write : Location × File) (writes : List (Location × File)) :
    d.fill (write :: writes) = (d.put write.1 (.file write.2)).fill writes := rfl

@[simp] theorem cwd_fill (d : Disk) (writes : List (Location × File)) :
    (d.fill writes).cwd = d.cwd := by
  induction writes generalizing d with
  | nil => rfl
  | cons write writes ih => rw [fill_cons, ih, cwd_put]

/-- Filling files leaves everything else alone. -/
theorem get?_fill_of_forall_ne (h : ∀ write ∈ writes, write.1 ≠ place) :
    (d.fill writes).tree.get? place = d.tree.get? place := by
  induction writes generalizing d with
  | nil => rfl
  | cons write writes ih =>
    obtain ⟨hne, h⟩ := List.forall_mem_cons.1 h
    rw [fill_cons, ih h, get?_put_of_ne hne.symm]

/-- A file that is filled, each time in the same way, is what it is filled with. -/
theorem get?_fill_of_mem {file : File} (hplace : d.tree.Takes place)
    (hmem : (place, file) ∈ writes)
    (hsame : ∀ write ∈ writes, write.1 = place → write.2 = file) :
    (d.fill writes).tree.get? place = some (.file file) := by
  induction writes generalizing d with
  | nil => cases hmem
  | cons write writes ih =>
    rw [fill_cons]
    by_cases hlater : (place, file) ∈ writes
    · have hroom : (d.put write.1 (.file write.2)).tree.Takes place :=
        hplace.put (fun heq => by cases heq) write.1
      exact ih hroom hlater fun write hwrite => hsame write (.tail _ hwrite)
    · -- no later file is another one, so no later write is to this place at all
      obtain rfl : (place, file) = write := by simpa [hlater] using hmem
      have hne : ∀ write ∈ writes, write.1 ≠ place := by
        rintro ⟨_, file'⟩ hmem' rfl
        obtain rfl : file' = file := hsame _ (.tail _ hmem') rfl
        exact hlater hmem'
      rw [get?_fill_of_forall_ne hne, get?_put_self hplace]

end Disk

namespace CopyJob

variable {d e : Disk} {filled made : Location → Prop} {jobs order : List CopyJob}

/-- What became of some copies. -/
abbrev Outcomes := List (CopyJob × Except CopyFailure Nat)

/-- Runs copies one after the other and notes what becomes of each. -/
def runInOrder (d : Disk) : List CopyJob → Disk × Outcomes
  | [] => (d, [])
  | job :: rest =>
    let (d, outcome) := job.attempt d
    let (d, outcomes) := runInOrder d rest
    (d, (job, outcome) :: outcomes)

theorem runInOrder_cons (d : Disk) (job : CopyJob) (rest : List CopyJob) :
    runInOrder d (job :: rest) = ((runInOrder (job.attempt d).1 rest).1,
      (job, (job.attempt d).2) :: (runInOrder (job.attempt d).1 rest).2) := rfl

/-- The failure that is noted for a copy. -/
def failure? (outcomes : Outcomes) (job : CopyJob) : Option CopyFailure :=
  match outcomes.lookup job with
  | some (.error failure) => some failure
  | _ => none

/-- The results of copies that ran in some order: how many succeeded, and the failures in the order
of the jobs. -/
def gather (jobs : List CopyJob) (outcomes : Outcomes) : CopyResults where
  copied := outcomes.countP (·.2.isOk)
  failures := jobs.filterMap (failure? outcomes)

/-- Running copies in the order of their list. -/
theorem runEach_eq_runInOrder (hnodup : jobs.Nodup) (d : Disk) :
    runEach d jobs = ((runInOrder d jobs).1, gather jobs (runInOrder d jobs).2) := by
  induction jobs generalizing d with
  | nil => rfl
  | cons job jobs ih =>
    obtain ⟨hjob, hnodup⟩ := List.nodup_cons.1 hnodup
    have hothers : ∀ outcome (outcomes : Outcomes),
        jobs.filterMap (failure? ((job, outcome) :: outcomes)) =
          jobs.filterMap (failure? outcomes) := by
      intro outcome outcomes
      refine List.filterMap_congr fun k hk => ?_
      have hne : (k == job) = false := beq_eq_false_iff_ne.2 fun heq => hjob (heq ▸ hk)
      rw [failure?, failure?, List.lookup_cons, hne]
    rw [runEach_cons, runInOrder_cons]
    cases (job.attempt d).2 with
    | ok count =>
      simp only [ih hnodup, gather, List.filterMap_cons, hothers]
      simp [CopyResults.note, failure?, Except.isOk, Except.toBool]
    | error failure =>
      simp only [ih hnodup, gather, List.filterMap_cons, hothers]
      simp [CopyResults.note, failure?, Except.isOk, Except.toBool]

/-- What copies fill, each seen from the same disk. -/
def effects (d : Disk) (jobs : List CopyJob) : List (Location × File) :=
  jobs.filterMap fun job => (job.effect d).toOption

theorem mem_effects {place : Location} {file : File} :
    (place, file) ∈ effects d jobs ↔ ∃ job ∈ jobs, job.effect d = .ok (place, file) := by
  rw [effects, List.mem_filterMap]
  refine exists_congr fun job => and_congr_right fun _ => ?_
  cases job.effect d <;> simp [Except.toOption]

theorem receives_of_mem_effects {write : Location × File} (h : write ∈ effects d jobs) :
    d.Receives write.1 write.2 := by
  obtain ⟨job, -, heffect⟩ := mem_effects.1 h
  exact receives_of_effect heffect

theorem effects_cons_ok {job : CopyJob} {place : Location} {file : File}
    (h : job.effect d = .ok (place, file)) (rest : List CopyJob) :
    effects d (job :: rest) = (place, file) :: effects d rest := by
  simp [effects, h, Except.toOption]

theorem effects_cons_error {job : CopyJob} {cause : FileError} (h : job.effect d = .error cause)
    (rest : List CopyJob) : effects d (job :: rest) = effects d rest := by
  simp [effects, h, Except.toOption]

/-- **Copies that nothing meddles with come to what each of them would come to alone**, if no two of
them fill the same place. -/
theorem runInOrder_of_steady (h : Disk.Evolves filled made d e)
    (hsteady : ∀ job ∈ order, job.Steady filled made d)
    (hfills : ∀ job ∈ order, job.FillsOnly filled d)
    (hopen : ∀ write ∈ effects d order, e.isOpen write.1 = true)
    (hapart : (effects d order).Pairwise fun write other => write.1 ≠ other.1) :
    runInOrder e order =
        (e.fill (effects d order), order.map fun job => (job, (job.attempt d).2)) ∧
      Disk.Evolves filled made d (e.fill (effects d order)) := by
  induction order generalizing e with
  | nil => exact ⟨rfl, h⟩
  | cons job order ih =>
    obtain ⟨hjob, hsteady⟩ := List.forall_mem_cons.1 hsteady
    obtain ⟨hfill, hfills⟩ := List.forall_mem_cons.1 hfills
    have hevolves := evolves_attempt h hjob hfill
    have hsame : job.effect e = job.effect d := by
      refine (effect_of_evolves h hjob).resolve_right ?_
      rintro ⟨place, file, heffect, hshut, -⟩
      rw [effects_cons_ok heffect, List.forall_mem_cons, hshut] at hopen
      exact Bool.false_ne_true hopen.1
    have houtcome : (job.attempt e).2 = (job.attempt d).2 := by
      rw [attempt_eq, attempt_eq, hsame]
      cases job.effect d with
      | error cause => rfl
      | ok write => simp only [landed, h.grows.user]
    rw [runInOrder_cons, List.map_cons, houtcome]
    rw [attempt_eq, hsame] at hevolves ⊢
    cases heffect : job.effect d with
    | error cause =>
      rw [effects_cons_error heffect] at hopen hapart ⊢
      rw [heffect] at hevolves
      obtain ⟨hrest, hend⟩ := ih hevolves hsteady hfills hopen hapart
      exact ⟨by rw [hrest], hend⟩
    | ok write =>
      obtain ⟨place, file⟩ := write
      rw [effects_cons_ok heffect] at hopen hapart ⊢
      rw [heffect] at hevolves
      obtain ⟨hne, hapart⟩ := List.pairwise_cons.1 hapart
      have hopen' : ∀ write ∈ effects d order,
          (e.put place (.file file)).isOpen write.1 = true := by
        intro write hwrite
        rw [Disk.isOpen_congr (Disk.user_put e place _)
          (Disk.get?_put_of_ne (hne write hwrite).symm _)]
        exact hopen write (.tail _ hwrite)
      obtain ⟨hrest, hend⟩ := ih hevolves hsteady hfills hopen' hapart
      exact ⟨by rw [hrest, Disk.fill_cons], hend⟩

/-! ## Independent copies -/

/-- No copy is made onto its own source, and no copy reads or fills, or comes by, the place that
another one fills. -/
structure Independent (d : Disk) (jobs : List CopyJob) : Prop where
  self : ∀ job ∈ jobs, ∀ position file place,
    d.find job.source = .ok (position, .file file) → d.writable job.target = .ok place →
      position.place ≠ place
  apart : ∀ job ∈ jobs, ∀ other ∈ jobs, job ≠ other → ∀ place, d.writable other.target = .ok place →
    place ∉ d.route .entry job.source ∧ place ∉ d.route .target job.target

/-- The file that a copy reads is not the one that it fills. -/
def copiesElsewhere (d : Disk) (job : CopyJob) : Bool :=
  match d.find job.source, d.writable job.target with
  | .ok (position, .file _), .ok place => position.place != place
  | _, _ => true

/-- The place that `other` fills is not on the way of `job`. -/
def keepsClear (d : Disk) (job other : CopyJob) : Bool :=
  match d.writable other.target with
  | .ok place =>
    !(d.route .entry job.source).contains place && !(d.route .target job.target).contains place
  | .error _ => true

theorem independent_iff (d : Disk) (jobs : List CopyJob) :
    (∀ job ∈ jobs, copiesElsewhere d job ∧ ∀ other ∈ jobs, job ≠ other → keepsClear d job other) ↔
      Independent d jobs := by
  constructor
  · intro h
    constructor
    · intro job hjob position file place hfind hwritable
      have helsewhere := (h job hjob).1
      rw [copiesElsewhere, hfind, hwritable] at helsewhere
      simpa using helsewhere
    · intro job hjob other hother hne place hwritable
      have hclear := (h job hjob).2 other hother hne
      rw [keepsClear, hwritable] at hclear
      simpa using hclear
  · intro h job hjob
    constructor
    · unfold copiesElsewhere
      split
      · rename_i position file place hfind hwritable
        simpa using h.self job hjob position file place hfind hwritable
      · rfl
    · intro other hother hne
      unfold keepsClear
      split
      · rename_i place hwritable
        simpa using h.apart job hjob other hother hne place hwritable
      · rfl

instance (d : Disk) (jobs : List CopyJob) : Decidable (Independent d jobs) :=
  decidable_of_iff _ (independent_iff d jobs)

/-- The places that copies fill, each seen from the same disk. -/
def Filled (d : Disk) (jobs : List CopyJob) (place : Location) : Prop :=
  ∃ job ∈ jobs, ∃ file, job.effect d = .ok (place, file)

/-- No directory is made. -/
def NoneMade (_ : Location) : Prop := False

theorem Independent.notMem_route (h : Independent d jobs) {job other : CopyJob} (hjob : job ∈ jobs)
    (hother : other ∈ jobs) (hne : job ≠ other) {place : Location} {file : File}
    (heffect : other.effect d = .ok (place, file)) :
    place ∉ d.route .entry job.source ∧ place ∉ d.route .target job.target := by
  obtain ⟨_, _, -, -, hwritable, -⟩ := effect_eq_ok heffect
  exact h.apart job hjob other hother hne place hwritable

theorem Independent.steady (h : Independent d jobs) {job : CopyJob} (hjob : job ∈ jobs) :
    job.Steady (Filled d jobs) NoneMade d where
  source := by
    -- what another copy fills is not on the way of this source
    have hothers : ∀ place ∈ d.route .entry job.source, Filled d jobs place →
        ∃ file, job.effect d = .ok (place, file) := by
      rintro place hroute ⟨other, hother, file, heffect⟩
      by_cases heq : job = other
      · exact ⟨file, heq ▸ heffect⟩
      · exact absurd hroute (h.notMem_route hjob hother heq heffect).1
    by_cases hfound : ∃ position file, d.find job.source = .ok (position, .file file)
    · obtain ⟨position, source, hfind⟩ := hfound
      refine .inl ⟨position, source, hfind, fun hfilled => ?_, id⟩
      obtain ⟨_, heffect⟩ := hothers _ (Disk.get?_of_find hfind).2 hfilled
      obtain ⟨_, _, -, -, hwritable, -⟩ := effect_eq_ok heffect
      exact h.self job hjob position source _ hfind hwritable rfl
    · refine .inr fun place hroute => ⟨fun hfilled => ?_, id⟩
      obtain ⟨_, heffect⟩ := hothers place hroute hfilled
      obtain ⟨position, source, hfind, -⟩ := effect_eq_ok heffect
      exact hfound ⟨position, source, hfind⟩
  target := by
    cases haim : d.aim job.target with
    | ok place => exact .inl ⟨place, haim, id⟩
    | error e =>
      refine .inr fun place hroute => ⟨?_, id⟩
      rintro ⟨other, hother, file, heffect⟩
      have hne : job ≠ other := by
        rintro rfl
        obtain ⟨_, _, -, -, hwritable, -⟩ := effect_eq_ok heffect
        rw [(Disk.writable_eq_ok.1 hwritable).1] at haim
        cases haim
      exact (h.notMem_route hjob hother hne heffect).2 hroute

theorem Independent.fillsOnly {job : CopyJob} (hjob : job ∈ jobs) :
    job.FillsOnly (Filled d jobs) d := fun _ file heffect => ⟨job, hjob, file, heffect⟩

/-- Independent copies fill different places. -/
theorem Independent.eq_of_effect (h : Independent d jobs) {j k : CopyJob} (hj : j ∈ jobs)
    (hk : k ∈ jobs) {place : Location} {file file' : File}
    (heffect : j.effect d = .ok (place, file)) (heffect' : k.effect d = .ok (place, file')) :
    j = k := by
  by_contra hne
  obtain ⟨_, _, -, -, hwritable, -⟩ := effect_eq_ok heffect
  have hroute := (Disk.hasRoom_of_aim (Disk.writable_eq_ok.1 hwritable).1).2
  exact (h.notMem_route hj hk hne heffect').2 hroute

theorem Independent.pairwise_effects (h : Independent d jobs) (hsub : ∀ job ∈ order, job ∈ jobs)
    (hnodup : order.Nodup) :
    (effects d order).Pairwise fun write other => write.1 ≠ other.1 := by
  refine List.pairwise_filterMap.2 (hnodup.imp_of_mem ?_)
  rintro j k hj hk hne ⟨place, file⟩ hwrite ⟨_, file'⟩ hother rfl
  cases hj' : j.effect d with
  | error cause =>
    rw [hj'] at hwrite
    cases hwrite
  | ok write =>
    cases hk' : k.effect d with
    | error cause =>
      rw [hk'] at hother
      cases hother
    | ok other =>
      rw [hj'] at hwrite
      rw [hk'] at hother
      cases hwrite
      cases hother
      exact hne (h.eq_of_effect (hsub j hj) (hsub k hk) hj' hk')

/-- What a file is after independent copies have run in some order. -/
theorem Independent.get?_of_effect (h : Independent d jobs) (horder : order.Perm jobs)
    {job : CopyJob} (hjob : job ∈ jobs) {place : Location} {file : File}
    (heffect : job.effect d = .ok (place, file)) :
    (d.fill (effects d order)).tree.get? place = some (.file file) := by
  refine Disk.get?_fill_of_mem (receives_of_effect heffect).takes
    (mem_effects.2 ⟨job, horder.mem_iff.2 hjob, heffect⟩) ?_
  rintro ⟨_, file'⟩ hmem rfl
  obtain ⟨other, hother, heffect'⟩ := mem_effects.1 hmem
  obtain rfl := h.eq_of_effect hjob (horder.mem_iff.1 hother) heffect heffect'
  rw [heffect] at heffect'
  cases heffect'
  rfl

/-- What the order of independent copies leaves at a location does not depend on it. -/
theorem Independent.get?_fill (h : Independent d jobs) (horder : order.Perm jobs)
    (place : Location) :
    (d.fill (effects d order)).tree.get? place = (d.fill (effects d jobs)).tree.get? place := by
  by_cases hfilled : Filled d jobs place
  · obtain ⟨job, hjob, file, heffect⟩ := hfilled
    rw [h.get?_of_effect horder hjob heffect, h.get?_of_effect (.refl _) hjob heffect]
  · have hne : ∀ order : List CopyJob, order.Perm jobs →
        ∀ write ∈ effects d order, write.1 ≠ place := by
      rintro order horder ⟨_, file⟩ hmem rfl
      obtain ⟨job, hjob, heffect⟩ := mem_effects.1 hmem
      exact hfilled ⟨job, horder.mem_iff.1 hjob, file, heffect⟩
    rw [Disk.get?_fill_of_forall_ne (hne order horder),
      Disk.get?_fill_of_forall_ne (hne jobs (.refl _))]

theorem lookup_outcomes {job : CopyJob} (h : job ∈ order) :
    (order.map fun job => (job, (job.attempt d).2)).lookup job = some ((job.attempt d).2) := by
  induction order with
  | nil => cases h
  | cons k order ih =>
    rw [List.map_cons, List.lookup_cons]
    by_cases heq : job = k
    · rw [heq, beq_self_eq_true]
    · rw [beq_eq_false_iff_ne.2 heq]
      exact ih ((List.mem_cons.1 h).resolve_left heq)

/-- The results do not depend on the order in which outcomes were noted. -/
theorem gather_perm (horder : order.Perm jobs) :
    gather jobs (order.map fun job => (job, (job.attempt d).2)) =
      gather jobs (jobs.map fun job => (job, (job.attempt d).2)) := by
  have hcopied := (horder.map fun job => (job, (job.attempt d).2)).countP_eq (·.2.isOk)
  have hfailures : ∀ job ∈ jobs,
      failure? (order.map fun job => (job, (job.attempt d).2)) job =
        failure? (jobs.map fun job => (job, (job.attempt d).2)) job := by
    intro job hjob
    rw [failure?, failure?, lookup_outcomes (horder.mem_iff.2 hjob), lookup_outcomes hjob]
  rw [gather, gather, hcopied, List.filterMap_congr hfailures]

/-- **The first copy for each target is run, and no other; copies that give way to a different asset
are warned of. If those that are run are independent, they may run in any order: the disk and the
results are the same, and every file that was written has what its source held before.** -/
theorem runAll_any_order (d : Disk) (jobs : List CopyJob) :
    (firstOfEach jobs).Sublist jobs ∧
    (firstOfEach jobs).Pairwise (fun j k => ¬j.target.Same k.target) ∧
    (∀ job, job ∈ firstOfEach jobs ↔
      jobs.find? (fun other => decide (other.target.Same job.target)) = some job) ∧
    (∀ job ∈ jobs, ∃ first ∈ firstOfEach jobs, first.target.Same job.target) ∧
    runAll d jobs = ((runInOrder d (firstOfEach jobs)).1,
      gather (firstOfEach jobs) (runInOrder d (firstOfEach jobs)).2,
      (jobs.filter (givesWay jobs)).map clashWarning) ∧
    (Independent d (firstOfEach jobs) → ∀ order, order.Perm (firstOfEach jobs) →
      let (after, outcomes) := runInOrder d order
      after.cwd = (runAll d jobs).1.cwd ∧
      (∀ place, after.tree.get? place = (runAll d jobs).1.tree.get? place) ∧
      gather (firstOfEach jobs) outcomes = (runAll d jobs).2.1 ∧
      outcomes.map (·.1) = order ∧
      ∀ job bytes, (job, .ok bytes) ∈ outcomes →
        ∃ content, d.read job.source = .ok content ∧ after.contentOf job.target = .ok content) := by
  have hrunAll : runAll d jobs = ((runInOrder d (firstOfEach jobs)).1,
      gather (firstOfEach jobs) (runInOrder d (firstOfEach jobs)).2,
      (jobs.filter (givesWay jobs)).map clashWarning) := by
    rw [runAll, runEach_eq_runInOrder (firstOfEach_nodup jobs), clashWarnings_eq]
  refine ⟨firstOfEach_sublist jobs, firstOfEach_pairwise jobs, fun job => mem_firstOfEach,
    fun job hjob => ?_, hrunAll, fun hindependent order horder => ?_⟩
  · obtain ⟨first, hfirst, -, hsame⟩ := exists_first hjob
    exact ⟨first, hfirst, hsame⟩
  · -- any order, that of the list among them, fills what each copy fills alone
    have hruns : ∀ order : List CopyJob, order.Perm (firstOfEach jobs) →
        runInOrder d order =
            (d.fill (effects d order), order.map fun job => (job, (job.attempt d).2)) ∧
          Disk.Evolves (Filled d (firstOfEach jobs)) NoneMade d (d.fill (effects d order)) :=
      fun order horder => runInOrder_of_steady (.refl _ _ d)
        (fun job hjob => hindependent.steady (horder.mem_iff.1 hjob))
        (fun job hjob => Independent.fillsOnly (horder.mem_iff.1 hjob))
        (fun write hwrite => (receives_of_mem_effects hwrite).isOpen)
        (hindependent.pairwise_effects (fun _ => horder.mem_iff.1)
          (horder.nodup_iff.2 (firstOfEach_nodup jobs)))
    obtain ⟨hrun, hevolves⟩ := hruns order horder
    rw [hrunAll, hrun, (hruns _ (.refl _)).1]
    refine ⟨by simp, hindependent.get?_fill horder, gather_perm horder,
      by simp [Function.comp_def],
      fun job bytes hmem => ?_⟩
    obtain ⟨job', hjob', heq⟩ := List.mem_map.1 hmem
    obtain ⟨rfl, houtcome⟩ := Prod.mk.inj heq
    have hjob := horder.mem_iff.1 hjob'
    obtain ⟨place, file, heffect, howns⟩ := exists_effect_of_ok houtcome
    obtain ⟨position, source, hfind, hmay, hwritable, hcontent, -⟩ :=
      effect_eq_ok_of_owns heffect howns
    rw [if_neg (hindependent.self job' hjob _ _ _ hfind hwritable)] at hcontent
    refine ⟨source.content, by rw [Disk.read, hfind]; exact if_pos hmay, ?_⟩
    rw [← hcontent]
    exact Disk.contentOf_of_aim hevolves.grows (Disk.writable_eq_ok.1 hwritable).1
      (hindependent.get?_of_effect horder hjob heffect)

/-- The files `/a` and `/b` and the directory `/o`. -/
def twoAssets : Disk where
  tree := { entries := [([[0x61]], .file { content := [1] }), ([[0x62]], .file { content := [2] }),
    ([[0x6F]], .directory)] }
  cwd := ⟨[], 0⟩

/-- Two copies to the same target, one of a file that is missing, and one more. -/
def fourCopies : List CopyJob :=
  [⟨.ofString "/a", .ofString "/o/x"⟩, ⟨.ofString "/c", .ofString "/o/z"⟩,
    ⟨.ofString "/b", .ofString "/o//x"⟩, ⟨.ofString "/b", .ofString "/o/y"⟩]

theorem runAll_four_copies_reversed :
    Independent twoAssets (firstOfEach fourCopies) ∧
    (⟨.ofString "/b", .ofString "/o/y"⟩, .ok 1) ∈
      (runInOrder twoAssets (firstOfEach fourCopies).reverse).2 ∧
    (runAll twoAssets fourCopies).2 =
      (⟨2, [⟨⟨.ofString "/c", .ofString "/o/z"⟩, .notFound⟩]⟩,
        [.warning "`/b` and another asset both map to `/o//x`, keeping the first"]) ∧
    gather (firstOfEach fourCopies) (runInOrder twoAssets (firstOfEach fourCopies).reverse).2 =
      (runAll twoAssets fourCopies).2.1 ∧
    (∀ place, (runInOrder twoAssets (firstOfEach fourCopies).reverse).1.tree.get? place =
      (runAll twoAssets fourCopies).1.tree.get? place) ∧
    ∃ content, twoAssets.read (.ofString "/b") = .ok content ∧
      (runInOrder twoAssets (firstOfEach fourCopies).reverse).1.contentOf (.ofString "/o/y") =
        .ok content := by
  have hindependent : Independent twoAssets (firstOfEach fourCopies) := of_decide_eq_true (by cbv)
  have hnoted : (⟨.ofString "/b", .ofString "/o/y"⟩, .ok 1) ∈
      (runInOrder twoAssets (firstOfEach fourCopies).reverse).2 := by
    refine of_decide_eq_true ?_
    cbv
  obtain ⟨-, htree, hresults, -, hread⟩ :=
    (runAll_any_order twoAssets fourCopies).2.2.2.2.2 hindependent _ (List.reverse_perm _)
  exact ⟨hindependent, hnoted, by cbv, hresults, htree, hread _ 1 hnoted⟩

end CopyJob

end StyleAssets
