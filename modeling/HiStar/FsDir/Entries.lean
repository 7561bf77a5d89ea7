import HiStar.FsDir.Made

namespace HiStar.FsDir

open Function

variable {s : Fs}

theorem sysObjUnref_refs (t : Fs) (o : CobjRef) (D X : Nat) :
    (t.sysObjUnref o none).2.refs D X =
      if D = o.container ∧ X = o.object then t.refs D X - 1 else t.refs D X := by
  unfold Fs.sysObjUnref
  simp only
  split
  next hzero =>
    split
    next heq => rw [heq.1, heq.2, hzero]
    next => rfl
  next =>
    simp only [setRefs_refs]
    split
    next heq => rw [heq.1, heq.2]
    next => rfl

theorem sysObjUnref_frame (t : Fs) (o : CobjRef) (fail : Option Errno) :
    (t.sysObjUnref o fail).2.dir = t.dir ∧ (t.sysObjUnref o fail).2.nextId = t.nextId := by
  unfold Fs.sysObjUnref
  split
  · exact ⟨rfl, rfl⟩
  · split <;> exact ⟨rfl, rfl⟩

variable {d : Dseg} {dir : Nat}

theorem entries_of_lookup_none {name : Name} (h : d.lookup name = none) (X : Nat) :
    d.entries name X = 0 := by
  have hnone := List.find?_eq_none.mp (Option.map_eq_none_iff.mp h)
  refine List.countP_eq_zero.mpr fun x hx hcon ↦ hnone x hx ?_
  simp only [DirSlot.isEntry, Bool.and_eq_true] at hcon
  simp only [Bool.and_eq_true]
  exact ⟨hcon.1.1, hcon.2⟩

theorem Agree.lt_of_refs (h : Agree s) {D X : Nat} (hr : s.refs D X ≠ 0) :
    D < s.nextId ∧ X < s.nextId := by
  constructor
  · by_contra hcon
    exact hr (h.unused D X (Or.inl (by omega)))
  · by_contra hcon
    exact hr (h.unused D X (Or.inr (by omega)))

theorem setDir_dir (t : Fs) (ct D : Nat) (d : Dseg) :
    (t.setDir ct d).dir D = if D = ct then some d else t.dir D := by
  simp only [Fs.setDir, update_apply]

/-- From `s` to `t` only the directory `dir` changed, from `d` to `d'`, and only
references of its container. -/
structure Local (s : Fs) (dir : Nat) (d d' : Dseg) (t : Fs) : Prop where
  old : s.dir dir = some d
  dirs : ∀ D, t.dir D = if D = dir then some d' else s.dir D
  seg : d'.id = d.id
  refs : ∀ D X, D ≠ dir → t.refs D X = s.refs D X
  nextId : t.nextId = s.nextId

theorem Local.agree {t : Fs} {d' : Dseg} (hl : Local s dir d d' t) (h : Agree s)
    (hbal : ∀ X, X ≠ d.id → d'.count X + s.refs dir X = d.count X + t.refs dir X)
    (hunused : ∀ X, s.nextId ≤ X → t.refs dir X = 0) : Agree t := by
  refine h.of_balanced ?_ hl.nextId.ge ?_ ?_
  · intro D e he
    by_cases hD : D = dir
    · subst hD
      obtain rfl : d = e := Option.some.inj (hl.old.symm.trans he)
      exact ⟨d', by rw [hl.dirs, if_pos rfl], hl.seg, hbal⟩
    · refine ⟨e, by rw [hl.dirs, if_neg hD, he], rfl, fun X _ ↦ ?_⟩
      rw [hl.refs D X hD]
  · intro D d' hd' hnone
    rw [hl.dirs] at hd'
    split at hd'
    next hD => rw [hD, hl.old] at hnone; cases hnone
    next => rw [hnone] at hd'; cases hd'
  · intro D X hDX
    rw [hl.nextId] at hDX
    by_cases hD : D = dir
    · subst hD
      rcases hDX with hDX | hDX
      · exact absurd (h.dir_lt D d hl.old) (by omega)
      · exact hunused X hDX
    · rw [hl.refs D X hD, h.unused D X hDX]

theorem Local.same {t : Fs} {d' : Dseg} (hl : Local s dir d d' t)
    (hX : ∀ X, X ≠ d.id → d'.count X = d.count X ∧ t.refs dir X = s.refs dir X) : Same s t := by
  intro D e he
  by_cases hD : D = dir
  · subst hD
    obtain rfl : d = e := Option.some.inj (hl.old.symm.trans he)
    exact ⟨d', by rw [hl.dirs, if_pos rfl], hl.seg, hX⟩
  · refine ⟨e, by rw [hl.dirs, if_neg hD, he], rfl, fun X _ ↦ ⟨rfl, ?_⟩⟩
    rw [hl.refs D X hD]

/-! ### Removing an entry -/

theorem fsRemove_kept (h : Agree s) (hd : s.dir dir = some d) {name : Name}
    {f : CobjRef} {ans : Answers} (hunref : ans.unref = none) (hfault : ans.removeFault = none)
    (hct : f.container = dir) (hone : d.entries name f.object = 1) :
    Kept s (s.fsRemove dir d name f ans) := by
  unfold Fs.fsRemove
  rw [hunref, hfault]
  split
  · exact h.kept _
  · change Kept s
      (.ret ((s.setDir dir (d.remove name f.object none).2).sysObjUnref f none).1,
        ((s.setDir dir (d.remove name f.object none).2).sysObjUnref f none).2)
    set d' := (d.remove name f.object none).2 with hd'
    have hcount : ∀ X, d'.count X + (if X = f.object then 1 else 0) = d.count X := by
      intro X
      have := remove_count d name f.object X
      rwa [hone] at this
    have hrefs : ∀ D X, ((s.setDir dir d').sysObjUnref f none).2.refs D X =
        if D = dir ∧ X = f.object then s.refs D X - 1 else s.refs D X := by
      intro D X
      rw [sysObjUnref_refs, setDir_refs, hct]
    obtain ⟨hdirs, hnext⟩ := sysObjUnref_frame (s.setDir dir d') f none
    have hl : Local s dir d d' ((s.setDir dir d').sysObjUnref f none).2 :=
      ⟨hd, fun D ↦ by rw [hdirs, setDir_dir], rfl,
        fun D X hD ↦ by rw [hrefs, if_neg (by simp [hD])], hnext⟩
    have hpos : f.object ≠ d.id → s.refs dir f.object ≠ 0 := by
      intro hne
      have h₁ := h.counts dir d hd f.object hne
      have h₂ := hcount f.object
      rw [if_pos rfl] at h₂
      omega
    constructor
    · refine hl.agree h (fun X hX ↦ ?_) fun X hX ↦ ?_
      · have h₁ := hcount X
        rw [hrefs]
        by_cases hXf : X = f.object
        · subst hXf
          have := hpos hX
          rw [if_pos rfl] at h₁
          rw [if_pos ⟨rfl, rfl⟩]
          omega
        · rw [if_neg hXf] at h₁
          rw [if_neg (by simp [hXf])]
          omega
      · rw [hrefs, h.unused dir X (Or.inr hX)]
        simp
    · -- the reference is missing only if the entry names the directory segment
      intro e he
      have herr : ((s.setDir dir d').sysObjUnref f none).1 = some e := Outcome.ret.inj he
      have hseg : f.object = d.id := by
        by_contra hne
        have hr : (s.setDir dir d').refs f.container f.object ≠ 0 := by
          rw [setDir_refs, hct]
          exact hpos hne
        rw [sysObjUnref_ok _ hr] at herr
        cases herr
      refine hl.same fun X hX ↦ ?_
      have h₁ := hcount X
      have hXf : X ≠ f.object := by rwa [hseg]
      rw [if_neg hXf] at h₁
      rw [hrefs, if_neg (by simp [hXf])]
      exact ⟨h₁, rfl⟩

/-! ### Adding an entry -/

theorem addref_undo (h : Agree s) (hd : s.dir dir = some d) (X : Nat) (r : Outcome) :
    Kept s (r, ((s.setRefs dir X (s.refs dir X + 1)).sysObjUnref ⟨dir, X⟩ none).2) := by
  set t := (s.setRefs dir X (s.refs dir X + 1)).sysObjUnref ⟨dir, X⟩ none
  have hrefs : ∀ D Y, t.2.refs D Y = s.refs D Y := by
    intro D Y
    rw [sysObjUnref_refs, setRefs_refs]
    split
    next heq => rw [heq.1, heq.2]; rfl
    next => rfl
  obtain ⟨hdirs, hnext⟩ := sysObjUnref_frame (s.setRefs dir X (s.refs dir X + 1)) ⟨dir, X⟩ none
  have hl : Local s dir d d t.2 := by
    refine ⟨hd, fun D ↦ ?_, rfl, fun D Y _ ↦ hrefs D Y, hnext⟩
    rw [hdirs, setRefs_dir]
    split
    next hD => rw [hD, hd]
    next => rfl
  refine ⟨hl.agree h (fun Y _ ↦ by rw [hrefs]) fun Y hY ↦ ?_, fun _ _ ↦ hl.same fun Y _ ↦ ?_⟩
  · rw [hrefs, h.unused dir Y (Or.inr hY)]
  · exact ⟨rfl, hrefs dir Y⟩

/-- What `fs_link` needs of the entry it finds: none, or one for another object
of the directory, which it is to replace. -/
def Replaceable (dir : CobjRef) (d : Dseg) (fn : Name) (f : CobjRef) (removeOld : Bool)
    (ans : Answers) : Prop :=
  Fs.fsLookupOne dir d fn ans = none ∨
    ∃ Y, Fs.fsLookupOne dir d fn ans = some ⟨dir.object, Y⟩ ∧ removeOld = true ∧ Y ≠ f.object ∧
      d.entries fn Y = 1 ∧ ans.removeFault = none

theorem replaced_agree (h : Agree s) {X Y : Nat} {d₁ : Dseg} (hd : s.dir dir = some d)
    (hX : X < s.nextId) {fn : Name} {fail : Option Errno} (hins : d.insert fn X fail = .ok d₁)
    (hne : Y ≠ X) (hone : d.entries fn Y = 1) :
    Agree (((s.setRefs dir X (s.refs dir X + 1)).setDir dir
      (d₁.remove fn Y none).2).sysObjUnref ⟨dir, Y⟩ none).2 := by
  obtain ⟨hid, hcount₁, hentries₁⟩ := insert_count hins
  have hcount : ∀ Z, (d₁.remove fn Y none).2.count Z + (if Z = Y then 1 else 0) =
      d.count Z + if Z = X then 1 else 0 := by
    intro Z
    have hentry : d₁.entries fn Y = 1 := by rw [hentries₁, hone, if_neg (by simp [hne])]
    have := remove_count d₁ fn Y Z
    rwa [hentry, hcount₁] at this
  set d' := (d₁.remove fn Y none).2
  set s₁ := (s.setRefs dir X (s.refs dir X + 1)).setDir dir d' with hs₁
  have hrefs : ∀ D Z, (s₁.sysObjUnref ⟨dir, Y⟩ none).2.refs D Z =
      if D = dir ∧ Z = Y then s.refs D Z - 1
      else if D = dir ∧ Z = X then s.refs dir X + 1 else s.refs D Z := by
    intro D Z
    rw [sysObjUnref_refs, hs₁, setDir_refs, setRefs_refs]
    split
    next heq => rw [if_neg (by simp [heq.2, hne])]
    next => rfl
  obtain ⟨hdirs, hnext⟩ := sysObjUnref_frame s₁ ⟨dir, Y⟩ none
  have hl : Local s dir d d' (s₁.sysObjUnref ⟨dir, Y⟩ none).2 :=
    ⟨hd, fun D ↦ by rw [hdirs, hs₁, setDir_dir, setRefs_dir], hid,
      fun D Z hD ↦ by rw [hrefs, if_neg (by simp [hD]), if_neg (by simp [hD])], hnext⟩
  refine hl.agree h (fun Z hZ ↦ ?_) fun Z hZ ↦ ?_
  · have h₁ := hcount Z
    have h₂ := h.counts dir d hd Z hZ
    rw [hrefs]
    by_cases hZY : Z = Y
    · subst hZY
      rw [if_pos rfl, if_neg hne] at h₁
      rw [if_pos ⟨rfl, rfl⟩]
      omega
    · rw [if_neg hZY] at h₁
      rw [if_neg (by simp [hZY])]
      by_cases hZX : Z = X
      · subst hZX
        rw [if_pos rfl] at h₁
        rw [if_pos ⟨rfl, rfl⟩]
        omega
      · rw [if_neg hZX] at h₁
        rw [if_neg (by simp [hZX])]
        omega
  · rw [hrefs, if_neg (c := dir = dir ∧ Z = X) (by omega), h.unused dir Z (Or.inr hZ)]
    simp

theorem fsLink_kept (h : Agree s) {dir : CobjRef} (hd : s.dir dir.object = some d)
    {fn : Name} {f : CobjRef} {removeOld : Bool} {ans : Answers} (hunref : ans.unref = none)
    (hlen : fn.length ≤ fsNameLen - 1) (hrep : Replaceable dir d fn f removeOld ans) :
    Kept s (s.fsLink dir d fn f removeOld ans) := by
  unfold Fs.fsLink
  simp only [hunref]
  split
  · exact h.kept _
  next hadd =>
    have hf : f.object < s.nextId := by
      refine (h.lt_of_refs (D := f.container) ?_).2
      intro hzero
      simp [hzero] at hadd
    have hundo := addref_undo h hd f.object
    set s₁ := s.setRefs dir.object f.object (s.refs dir.object f.object + 1) with hs₁
    have hrefs₁ : ∀ D X, s₁.refs D X =
        if D = dir.object ∧ X = f.object then s.refs dir.object f.object + 1 else s.refs D X :=
      fun D X ↦ setRefs_refs ..
    split
    next hbusy =>
      rcases hrep with hnone | ⟨Y, hsome, hold, -⟩
      · simp [hnone] at hbusy
      · simp [hold] at hbusy
    next =>
      split
      · exact hundo _
      · split
        · exact hundo _
        next hins => exact absurd hins (insert_not_thrown hlen)
        next d₁ hins =>
          obtain ⟨hid, hcount, hentries⟩ := insert_count hins
          rcases hrep with hnone | ⟨Y, hsome, -, hne, hone, hfault⟩
          · rw [hnone]
            refine ⟨?_, by simp⟩
            have hl : Local s dir.object d d₁ (s₁.setDir dir.object d₁) :=
              ⟨hd, fun D ↦ setDir_dir .., hid,
                fun D X hD ↦ by rw [setDir_refs, hrefs₁, if_neg (by simp [hD])], rfl⟩
            refine hl.agree h (fun X hX ↦ ?_) fun X hX ↦ ?_
            · rw [setDir_refs, hrefs₁, hcount]
              by_cases hXf : X = f.object
              · rw [if_pos hXf, if_pos ⟨rfl, hXf⟩, hXf]
                omega
              · rw [if_neg hXf, if_neg (by simp [hXf]), Nat.add_zero]
            · rw [setDir_refs, hrefs₁, if_neg (by omega), h.unused _ X (Or.inr hX)]
          · rw [hsome, hfault]
            exact ⟨replaced_agree h hd hf hins hne hone, by simp [Dseg.remove]⟩

end HiStar.FsDir
