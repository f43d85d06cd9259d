import StyleAssets.Proofs.FileTree.Same

/-!
# Directories that are made

Making directories creates what is missing of a path from the first name on that nothing has. Unless
`..` leads out of it again, all that follows lies in what is new.

* `Disk.Grounded` — no `..` on a path leads out of what is missing.
* `Disk.leadsTo_new` — **main result**: a directory that was not there before is made where nothing
  stood.
-/

namespace StyleAssets

namespace Disk

variable {d e made : Disk} {dir p parent : Path} {name : Name} {position : Position}

/-- A directory in a directory stands at its name there, unless that is a link. -/
theorem LeadsTo.eq_of_join {inner : Position} (h : d.LeadsTo dir position)
    (hname : Path.IsStep (.normal name)) (hinner : d.LeadsTo (dir.join ⟨name⟩) inner) :
    inner = ⟨position.place ++ [name], 0⟩ ∨
      ∃ target, d.tree.get? (position.place ++ [name]) = some (.link target) := by
  obtain ⟨links, hfollow⟩ := FileTree.follow_snoc hname.1 (nofun : Purpose.entry ≠ .location) h
  rw [LeadsTo, origin, Path.names_join_name dir hname, Path.isAbsolute_join_name dir hname]
    at hinner
  replace hinner := hfollow.symm.trans hinner
  refine or_iff_not_imp_right.2 fun hlink => ?_
  rw [FileTree.follow_name_of_ne_link hname h.at?
    (FileTree.refusal?_of_follow_name hname h.at? hinner) (not_exists.1 hlink)] at hinner
  cases hget : d.tree.get? (position.place ++ [name]) with
  | none =>
    rw [hget] at hinner
    cases hinner
  | some entry =>
    rw [hget] at hinner
    cases hinner
    rfl

/-- A directory that is settled is new or has been there. -/
theorem settleDirectory_cases (h : d.settleDirectory p = (made, .ok ())) :
    (∃ place, made.LeadsTo p ⟨place, 0⟩ ∧ d.tree.get? place = none) ∨
      made = d ∧ d.isDirectory p = true := by
  unfold settleDirectory at h
  split at h
  · rename_i hmake
    cases h
    obtain ⟨place, hfind, hnone⟩ := find_of_makeDirectory hmake
    exact .inl ⟨place, leadsTo_of_find hfind, hnone⟩
  · split at h
    · cases h
      exact .inr ⟨rfl, ‹_›⟩
    · cases h

theorem eq_of_makeDirectories_nil (h : d.makeDirectories p = (made, .ok ()))
    (hp : p.components = []) : made = d := by
  rw [makeDirectories, if_pos hp] at h
  cases h
  rfl

/-- If a file can be written under a name in it, the empty path leads to the working directory. -/
theorem leadsTo_of_aim {place : Location} (hempty : p.components = [])
    (hname : Path.IsStep (.normal name)) (haim : d.aim (p.join ⟨name⟩) = .ok place) :
    d.LeadsTo p d.cwd := by
  have hbytes : p.bytes = [] := Path.bytes_of_components_nil hempty
  have hnames : p.names = [] := by rw [Path.names, Path.segments, hbytes]; rfl
  have habsolute : p.isAbsolute = false := by rw [Path.isAbsolute, hbytes]; rfl
  have hat : d.tree.at? d.cwd = some .directory := by
    by_contra hat
    have hadmits := admits_of_aim haim
    obtain ⟨cause, hcause⟩ := FileTree.follow_cons_of_at?_ne .target mostLinks name [] hat
    rw [aim, lead_of_admits hadmits, Path.steps_join_name p hname, hnames, origin,
      Path.isAbsolute_join_name p hname, habsolute, List.nil_append, if_neg Bool.false_ne_true,
      hcause] at haim
    cases haim
  rw [LeadsTo, hnames, origin, habsolute, FileTree.follow_eq, FileTree.move]
  simp only [Bool.false_eq_true, if_false, hat]
  rfl

/-- **A directory that has been made is led to**, if a file can be written under a name in it. -/
theorem exists_leadsTo_of_makeDirectories {place : Location}
    (h : d.makeDirectories p = (made, .ok ())) (hname : Path.IsStep (.normal name))
    (haim : made.aim (p.join ⟨name⟩) = .ok place) :
    ∃ position, made.LeadsTo p position := by
  by_cases hempty : p.components = []
  · exact ⟨_, leadsTo_of_aim hempty hname haim⟩
  · obtain ⟨position, hfind⟩ := isDirectory_iff.1 (isDirectory_of_makeDirectories h hempty)
    exact ⟨position, leadsTo_of_find hfind⟩

/-- Every `..` on a path stands behind a directory that is there. -/
def Grounded (d : Disk) (p : Path) : Prop :=
  ∀ q after, p.components = q.components ++ .parent :: after → ∃ position, d.LeadsTo q position

theorem grounded_of_notMem (h : .parent ∉ p.components) : d.Grounded p := by
  intro q after heq
  rw [heq] at h
  exact absurd (List.mem_append_right _ List.mem_cons_self) h

theorem Grounded.above {last : Component} (h : d.Grounded p)
    (hlast : p.components = parent.components ++ [last]) : d.Grounded parent := by
  intro q after heq
  refine h q (after ++ [last]) ?_
  rw [hlast, heq, List.append_assoc, List.cons_append]

/-- **A directory that was not there before is made where nothing stood**, if no `..` on its way
leads out of what is missing and nothing but files has come to be since. -/
theorem leadsTo_new {p : Path} {made : Disk} (hfilled : d.Filled e)
    (hp : p.components ≠ []) (hup : d.Grounded p) (hnone : e.isDirectory p = false)
    (hmade : e.makeDirectories p = (made, .ok ())) :
    ∃ position, made.LeadsTo p position ∧ d.tree.get? position.place = none := by
  have hsettled : ∀ {made}, e.settleDirectory p = (made, .ok ()) →
      ∃ position, made.LeadsTo p position ∧ d.tree.get? position.place = none := by
    intro made h
    obtain ⟨place, hplace, habsent⟩ | ⟨-, hthere⟩ := settleDirectory_cases h
    · exact ⟨_, hplace, hfilled.grows.absent habsent⟩
    · rw [hnone] at hthere
      cases hthere
  obtain hsettle | ⟨parent, above, hparent, hshorter, habove, hsettle⟩ :=
    makeDirectories_cases hmade hp
  · exact hsettled hsettle
  by_cases hroot : parent.components = []
  · rw [eq_of_makeDirectories_nil habove hroot] at hsettle
    exact hsettled hsettle
  cases hdirectory : e.isDirectory parent with
  | true =>
    rw [makeDirectories_of_isDirectory hdirectory] at habove
    cases habove
    exact hsettled hsettle
  | false =>
    obtain ⟨last, hlast⟩ := Path.components_parent? hparent
    obtain ⟨position, hposition, habsent⟩ :=
      leadsTo_new hfilled hroot (hup.above hlast) hdirectory habove
    have hfurnishes := furnishes_of_makeDirectories habove
    obtain ⟨place, hplace, hnew⟩ | ⟨rfl, hthere⟩ := settleDirectory_cases hsettle
    · exact ⟨_, hplace, (hfilled.grows.trans hfurnishes.grows).absent hnew⟩
    -- the parent is new, and so is whatever the last name leads to from there
    obtain ⟨inner, hfind⟩ := isDirectory_iff.1 hthere
    have hinner := leadsTo_of_find hfind
    have hstep : Path.IsStep last := by
      refine Path.isStep_of_mem_tail (p := p) ?_
      rw [hlast, List.tail_append_of_ne_nil hroot]
      exact List.mem_append_right _ (List.mem_singleton_self _)
    cases last with
    | root => cases hstep
    | current => cases hstep
    | parent =>
      -- a `..` stands behind a directory that is there, and the parent was not
      obtain ⟨old, hold⟩ := hup parent [] hlast
      obtain ⟨_, hmadeParent⟩ :=
        isDirectory_iff.1 (isDirectory_of_makeDirectories habove hroot)
      have hfound := (find_directory_iff (admits_of_leadBy (lead_of_find hmadeParent))).2
        (hold.grows hfilled.grows)
      rw [isDirectory_iff.2 ⟨_, hfound⟩] at hdirectory
      cases hdirectory
    | normal name =>
      have hsame : p.Same (parent.join ⟨name⟩) :=
        hlast.trans (Path.components_join_name parent hstep).symm
      obtain rfl | ⟨target, hlink⟩ :=
        hposition.eq_of_join hstep ((leadsTo_congr hsame).1 hinner)
      · exact ⟨_, hinner, FileTree.get?_concat_of_none habsent name⟩
      · obtain hlink | ⟨-, hlink⟩ := hfurnishes.only _ _ hlink
        · obtain hlink | ⟨content, hlink⟩ := hfilled.file _ _ hlink
          · rw [FileTree.get?_concat_of_none habsent] at hlink
            cases hlink
          · cases hlink
        · cases hlink
termination_by p.bytes.length

end Disk

end StyleAssets
