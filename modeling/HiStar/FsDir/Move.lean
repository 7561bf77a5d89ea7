import HiStar.FsDir.Entries

namespace HiStar.FsDir

open Function

variable {s : Fs}

theorem moved_refs (s : Fs) (src dst obj D X : Nat) :
    ((s.setRefs src obj (s.refs src obj - 1)).setRefs dst obj
      ((s.setRefs src obj (s.refs src obj - 1)).refs dst obj + 1)).refs D X =
      if X = obj then
        (if D = src then s.refs D X - 1 else s.refs D X) + (if D = dst then 1 else 0)
      else s.refs D X := by
  simp only [setRefs_refs]
  by_cases hX : X = obj
  · subst hX
    by_cases hdst : D = dst
    · subst hdst
      by_cases hsrc : D = src
      · simp [hsrc]
      · simp [hsrc]
    · by_cases hsrc : D = src
      · subst hsrc
        simp [hdst]
      · simp [hsrc, hdst]
  · simp [hX]

theorem moved_agree (h : Agree s) {src dst obj : Nat} {dd dd₁ e : Dseg}
    (hdst : s.dir dst = some dd) (hr : s.refs src obj ≠ 0) {oldFn newFn : Name}
    {fail : Option Errno} (hins : dd.insert newFn obj fail = .ok dd₁) {t : Fs}
    (hrefs : ∀ D X, t.refs D X = if X = obj then
      (if D = src then s.refs D X - 1 else s.refs D X) + (if D = dst then 1 else 0)
      else s.refs D X)
    (hdirs : t.dir = s.dir) (hnext : t.nextId = s.nextId)
    (hsrc : (t.setDir dst dd₁).dir src = some e) (hone : e.entries oldFn obj = 1) :
    Agree ((t.setDir dst dd₁).setDir src (e.remove oldFn obj none).2) := by
  obtain ⟨hid, hcount₁, -⟩ := insert_count hins
  have hcount : ∀ X, (e.remove oldFn obj none).2.count X + (if X = obj then 1 else 0) =
      e.count X := by
    intro X
    have := remove_count e oldFn obj X
    rwa [hone] at this
  have hobj := (h.lt_of_refs hr).2
  have hdir' : ∀ D, ((t.setDir dst dd₁).setDir src (e.remove oldFn obj none).2).dir D =
      if D = src then some (e.remove oldFn obj none).2
      else if D = dst then some dd₁ else s.dir D := by
    intro D
    rw [setDir_dir, setDir_dir, hdirs]
  rw [setDir_dir, hdirs] at hsrc
  refine h.of_balanced ?_ hnext.ge ?_ ?_
  · intro D d hd
    simp only [setDir_refs, hrefs, hdir']
    by_cases hDs : D = src
    · subst hDs
      refine ⟨_, if_pos rfl, ?_, fun X _ ↦ ?_⟩
      · split at hsrc
        next heq =>
          subst heq
          obtain rfl := Option.some.inj hsrc
          obtain rfl := Option.some.inj (hdst.symm.trans hd)
          exact hid
        next =>
          obtain rfl := Option.some.inj (hsrc.symm.trans hd)
          rfl
      · have h₁ := hcount X
        split at hsrc
        next heq =>
          subst heq
          obtain rfl := Option.some.inj hsrc
          obtain rfl := Option.some.inj (hdst.symm.trans hd)
          have h₂ := hcount₁ X
          by_cases hX : X = obj
          · subst hX
            simp only [if_true] at h₁ h₂ ⊢
            omega
          · simp only [hX, if_false] at h₁ h₂ ⊢
            omega
        next hne =>
          obtain rfl := Option.some.inj (hsrc.symm.trans hd)
          by_cases hX : X = obj
          · subst hX
            simp only [if_true, hne, if_false] at h₁ ⊢
            omega
          · simp only [hX, if_false] at h₁ ⊢
            omega
    · rw [if_neg hDs]
      by_cases hDd : D = dst
      · subst hDd
        obtain rfl := Option.some.inj (hdst.symm.trans hd)
        refine ⟨dd₁, if_pos rfl, hid, fun X _ ↦ ?_⟩
        have h₂ := hcount₁ X
        by_cases hX : X = obj
        · subst hX
          simp only [if_true, hDs, if_false] at h₂ ⊢
          omega
        · simp only [hX, if_false] at h₂ ⊢
          omega
      · refine ⟨d, by rw [if_neg hDd, hd], rfl, fun X _ ↦ ?_⟩
        simp only [hDs, hDd, if_false, Nat.add_zero, ite_self]
  · intro D d' hd' hnone
    rw [hdir', if_neg, if_neg, hnone] at hd'
    · cases hd'
    · rintro rfl
      simp [hdst] at hnone
    · rintro rfl
      split at hsrc
      next heq => rw [heq, hdst] at hnone; cases hnone
      next => rw [hsrc] at hnone; cases hnone
  · intro D X hDX
    have hDX' : s.nextId ≤ D ∨ s.nextId ≤ X := by rw [← hnext]; exact hDX
    have hne : ¬ (X = obj ∧ (D = src ∨ D = dst)) := by
      rintro ⟨rfl, rfl | rfl⟩
      · have := (h.lt_of_refs hr).1
        omega
      · have := h.dir_lt D dd hdst
        omega
    rw [setDir_refs, setDir_refs, hrefs, h.unused D X hDX']
    split
    next hX =>
      rw [if_neg (c := D = dst) fun hD ↦ hne ⟨hX, Or.inr hD⟩]
      simp
    next => rfl

theorem fsMove_kept (h : Agree s) {src dst : Nat} {dd : Dseg} (hdst : s.dir dst = some dd)
    {ds : Dseg} (hsrc : s.dir src = some ds) {f : CobjRef} {oldFn newFn : Name} {ans : Answers}
    (hct : f.container = src) (hnew : dd.lookup newFn = none) (hlen : newFn.length ≤ fsNameLen - 1)
    (hins : ans.insert = none) (hfault : ans.removeFault = none)
    (hone : ds.entries oldFn f.object = 1) : Kept s (s.fsMove src dst dd f oldFn newFn ans) := by
  unfold Fs.fsMove
  rw [hct, hnew]
  simp only
  split
  · exact h.kept _
  · split
    · exact h.kept _
    next hmove =>
      have hr : s.refs src f.object ≠ 0 := by
        intro hzero
        simp [hzero] at hmove
      split
      next hcon =>
        rw [hins, Dseg.insert, if_neg (by omega)] at hcon
        obtain ⟨dd₁, hput⟩ := Dseg.putGrow_ok dd newFn f.object
        simp [hput] at hcon
      next hcon => exact absurd hcon (insert_not_thrown hlen)
      next dd₁ hput =>
        unfold Fs.fsMoveRemove
        rw [hfault]
        split
        next hcon =>
          rw [setDir_dir] at hcon
          split at hcon
          · cases hcon
          · rw [setRefs_dir, setRefs_dir, hsrc] at hcon
            cases hcon
        next e he =>
          refine ⟨?_, fun e' he' ↦ by simp [Dseg.remove] at he'⟩
          refine moved_agree h hdst hr hput (moved_refs s src dst f.object) rfl rfl he ?_
          rw [setDir_dir] at he
          split at he
          next heq =>
            -- in one directory the new entry has another name
            obtain rfl := Option.some.inj he
            subst heq
            obtain rfl := Option.some.inj (hsrc.symm.trans hdst)
            obtain ⟨-, -, hentries⟩ := insert_count hput
            have hne : oldFn ≠ newFn := by
              rintro rfl
              rw [entries_of_lookup_none hnew] at hone
              cases hone
            rw [hentries, hone, if_neg (by simp [hne])]
          next =>
            obtain rfl := Option.some.inj (hsrc.symm.trans he)
            exact hone

/-! ### Runs -/

/-- The calls that do not go wrong: dropping a reference does not fail, names
that have to be kept fit a slot, a removal finds exactly one slot and meets no
page fault, a link finds no entry of its name or one to replace, and a move finds
no entry of its new name and does not fail after the reference was moved. -/
def Careful (s : Fs) : Call → Prop
  | .mkdir _ _ ans => ans.unref = none
  | .mknod _ fn ans => ans.unref = none ∧ fn.length ≤ fsNameLen - 1
  | .link dir fn f removeOld ans =>
    ans.unref = none ∧ fn.length ≤ fsNameLen - 1 ∧
      ∀ d, s.dir dir.object = some d → Replaceable dir d fn f removeOld ans
  | .remove dir name f ans =>
    ans.unref = none ∧ ans.removeFault = none ∧ f.container = dir ∧
      ∀ d, s.dir dir = some d → d.entries name f.object = 1
  | .move src dst f oldFn newFn ans =>
    f.container = src ∧ newFn.length ≤ fsNameLen - 1 ∧ ans.insert = none ∧
      ans.removeFault = none ∧ (∀ d, s.dir dst = some d → d.lookup newFn = none) ∧
      ∀ d, s.dir src = some d → d.entries oldFn f.object = 1

theorem step_kept (h : Agree s) {c : Call} (hc : Careful s c) {r : Outcome × Fs}
    (hr : s.step c = some r) : Kept s r := by
  cases c with
  | mkdir dir fn ans =>
    obtain ⟨d, hd, rfl⟩ := Option.map_eq_some_iff.mp hr
    exact fsMkdir_kept h hd fn hc
  | mknod dir fn ans =>
    obtain ⟨d, hd, rfl⟩ := Option.map_eq_some_iff.mp hr
    exact fsMknod_kept h hd hc.1 hc.2
  | link dir fn f removeOld ans =>
    obtain ⟨d, hd, rfl⟩ := Option.map_eq_some_iff.mp hr
    exact fsLink_kept h hd hc.1 hc.2.1 (hc.2.2 d hd)
  | remove dir name f ans =>
    obtain ⟨d, hd, rfl⟩ := Option.map_eq_some_iff.mp hr
    exact fsRemove_kept h hd hc.1 hc.2.1 hc.2.2.1 (hc.2.2.2 d hd)
  | move src dst f oldFn newFn ans =>
    obtain ⟨hct, hlen, hins, hfault, hnew, hone⟩ := hc
    simp only [Fs.step] at hr
    split at hr
    · cases hr
    next hsrc =>
      obtain ⟨ds, hds⟩ := Option.ne_none_iff_exists'.mp hsrc
      obtain ⟨dd, hdd, rfl⟩ := Option.map_eq_some_iff.mp hr
      exact fsMove_kept h hdd hds hct (hnew dd hdd) hlen hins hfault (hone ds hds)

def Fs.init : Fs := ((⟨fun _ ↦ none, fun _ _ ↦ 0, 1⟩ : Fs).initDseg 0)

inductive Reached (P : Fs → Call → Prop) : Fs → Prop
  | init : Reached P .init
  | step {s : Fs} {c : Call} {r : Outcome × Fs} (hs : Reached P s) (hc : P s c)
      (hr : s.step c = some r) : Reached P r.2

theorem init_agree : Agree .init where
  counts D d hd X hX := by
    by_cases hD : D = 0
    · subst hD
      obtain rfl : { id := 1 } = d := by simpa [Fs.init, Fs.initDseg, Fs.setDir] using hd
      have hrefs : Fs.init.refs 0 X = 0 := by
        rw [Fs.init, Fs.initDseg, setDir_refs, alloc_refs, if_neg (by simp [hX])]
      rw [hrefs]
      exact count_replicate_free _ _
    · simp [Fs.init, Fs.initDseg, Fs.setDir, Fs.alloc, Fs.setRefs, hD] at hd
  seg_lt D d hd := by
    by_cases hD : D = 0
    · subst hD
      obtain rfl : { id := 1 } = d := by simpa [Fs.init, Fs.initDseg, Fs.setDir] using hd
      exact Nat.lt_succ_self 1
    · simp [Fs.init, Fs.initDseg, Fs.setDir, Fs.alloc, Fs.setRefs, hD] at hd
  dir_lt D d hd := by
    by_cases hD : D = 0
    · subst hD
      exact Nat.succ_pos 1
    · simp [Fs.init, Fs.initDseg, Fs.setDir, Fs.alloc, Fs.setRefs, hD] at hd
  unused D X hDX := by
    have hDX' : 2 ≤ D ∨ 2 ≤ X := hDX
    rw [Fs.init, Fs.initDseg, setDir_refs, alloc_refs, if_neg]
    rintro ⟨rfl, hX⟩
    have : X = 1 := hX
    omega

theorem Reached.agree (hr : Reached Careful s) : Agree s := by
  induction hr with
  | init => exact init_agree
  | step _ hc hr ih => exact (step_kept ih hc hr).1

end HiStar.FsDir
