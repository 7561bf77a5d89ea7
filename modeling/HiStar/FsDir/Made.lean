import HiStar.FsDir.Agree

namespace HiStar.FsDir

open Function

def Kept (s : Fs) (r : Outcome × Fs) : Prop :=
  Agree r.2 ∧ ∀ e, r.1 = .ret (some e) → Same s r.2

theorem Agree.kept {s : Fs} (h : Agree s) (r : Outcome) : Kept s (r, s) :=
  ⟨h, fun _ _ ↦ Same.refl s⟩

/-- From `s` to `t` one object was made in the container `dir`, with what may be
inside it. -/
structure Made (s : Fs) (dir : Nat) (t : Fs) : Prop where
  refs : ∀ D, D < s.nextId → ∀ X, t.refs D X = if D = dir ∧ X = s.nextId then 1 else s.refs D X
  dirs : ∀ D, D < s.nextId → t.dir D = s.dir D
  lt : s.nextId < t.nextId
  fresh : ∀ D d, s.nextId ≤ D → t.dir D = some d →
    D < t.nextId ∧ d.id < t.nextId ∧ ∀ X, X ≠ d.id → d.count X = t.refs D X
  unused : ∀ D X, t.nextId ≤ D ∨ t.nextId ≤ X → t.refs D X = 0

variable {s : Fs} {dir : Nat}

theorem Agree.dir_none (h : Agree s) {D : Nat} (hD : s.nextId ≤ D) : s.dir D = none := by
  cases hd : s.dir D with
  | none => rfl
  | some d => exact absurd (h.dir_lt D d hd) (by omega)

theorem made_alloc (h : Agree s) (hdir : dir < s.nextId) : Made s dir (s.alloc dir) where
  refs D _ X := alloc_refs s dir D X
  dirs _ _ := rfl
  lt := Nat.lt_succ_self _
  fresh D d hD hd := by
    rw [show (s.alloc dir).dir D = s.dir D from rfl, h.dir_none hD] at hd
    cases hd
  unused D X hDX := by
    have hlt : s.nextId + 1 ≤ D ∨ s.nextId + 1 ≤ X := hDX
    rw [alloc_refs, if_neg (by omega)]
    exact h.unused D X (by omega)

theorem count_replicate_free (n X : Nat) : (List.replicate n ({} : DirSlot)).countP (·.names X) = 0 := by
  simp [List.countP_replicate, DirSlot.names]

theorem made_initDseg (h : Agree s) (hdir : dir < s.nextId) :
    Made s dir ((s.alloc dir).initDseg s.nextId) where
  refs D hD X := by
    have hne : ¬ (D = s.nextId ∧ X = (s.alloc dir).nextId) := by omega
    rw [Fs.initDseg, setDir_refs, alloc_refs, if_neg hne, alloc_refs]
  dirs D hD := by
    have hne : D ≠ s.nextId := by omega
    simp [Fs.initDseg, Fs.setDir, Fs.alloc, hne]
  lt := by simp [Fs.initDseg, Fs.setDir, Fs.alloc]
  fresh D d hD hd := by
    by_cases hn : D = s.nextId
    · subst hn
      obtain rfl : { id := (s.alloc dir).nextId } = d := by
        simpa [Fs.initDseg, Fs.setDir] using hd
      refine ⟨?_, ?_, fun X hX ↦ ?_⟩
      · simp [Fs.initDseg, Fs.setDir, Fs.alloc]
      · simp [Fs.initDseg, Fs.setDir, Fs.alloc]
      · have hne : ¬ (s.nextId = s.nextId ∧ X = (s.alloc dir).nextId) := fun hc ↦ hX hc.2
        have hne' : ¬ (s.nextId = dir ∧ X = s.nextId) := by omega
        rw [Fs.initDseg, setDir_refs, alloc_refs, if_neg hne, alloc_refs, if_neg hne',
          h.unused _ _ (Or.inl le_rfl)]
        exact count_replicate_free _ _
    · have hd' : s.dir D = some d := by
        simpa [Fs.initDseg, Fs.setDir, Fs.alloc, hn] using hd
      rw [h.dir_none hD] at hd'
      cases hd'
  unused D X hDX := by
    have hlt : s.nextId + 2 ≤ D ∨ s.nextId + 2 ≤ X := hDX
    have hne : ¬ (D = s.nextId ∧ X = (s.alloc dir).nextId) := by
      rintro ⟨h₁, h₂⟩
      have : X = s.nextId + 1 := h₂
      omega
    rw [Fs.initDseg, setDir_refs, alloc_refs, if_neg hne, alloc_refs, if_neg (by omega)]
    exact h.unused D X (by omega)

variable {t : Fs}

theorem Made.undo (hm : Made s dir t) (h : Agree s) (hdir : dir < s.nextId) (r : Outcome) :
    Kept s (r, (t.sysObjUnref ⟨dir, s.nextId⟩ none).2) := by
  have hone : t.refs dir s.nextId = 1 := by rw [hm.refs dir hdir, if_pos ⟨rfl, rfl⟩]
  rw [sysObjUnref_ok t (by simp [hone])]
  set u := t.setRefs dir s.nextId (t.refs dir s.nextId - 1)
  have hrefs : ∀ D, D < s.nextId → ∀ X, u.refs D X = s.refs D X := by
    intro D hD X
    simp only [u, setRefs_refs, hone]
    split
    next heq => rw [heq.1, heq.2, h.unused dir s.nextId (Or.inr le_rfl)]
    next hne => rw [hm.refs D hD, if_neg hne]
  have hsame : Same s u := by
    intro D d hd
    have hD := h.dir_lt D d hd
    exact ⟨d, (hm.dirs D hD).trans hd, rfl, fun X _ ↦ ⟨rfl, hrefs D hD X⟩⟩
  refine ⟨h.of_balanced hsame.balanced hm.lt.le ?_ ?_, fun _ _ ↦ hsame⟩
  · intro D d' hd' hnone
    have hD : s.nextId ≤ D := by
      by_contra hlt
      rw [← hm.dirs D (by omega), show t.dir D = u.dir D from rfl, hd'] at hnone
      cases hnone
    obtain ⟨h₁, h₂, h₃⟩ := hm.fresh D d' hD hd'
    refine ⟨h₁, h₂, fun X hX ↦ ?_⟩
    rw [h₃ X hX]
    simp only [u, setRefs_refs]
    rw [if_neg (by omega)]
  · intro D X hDX
    have hlt := hm.lt
    have hDX' : t.nextId ≤ D ∨ t.nextId ≤ X := hDX
    simp only [u, setRefs_refs]
    rw [if_neg (by omega)]
    exact hm.unused D X hDX

theorem Made.entered (hm : Made s dir t) (h : Agree s) {d d' : Dseg} (hd : s.dir dir = some d)
    {fn : Name} {fail : Option Errno} (hins : d.insert fn s.nextId fail = .ok d') :
    Agree (t.setDir dir d') := by
  have hdir := h.dir_lt dir d hd
  obtain ⟨hid, hcount, -⟩ := insert_count hins
  refine h.of_balanced ?_ hm.lt.le ?_ hm.unused
  · intro D e he
    have hD := h.dir_lt D e he
    by_cases hD' : D = dir
    · subst hD'
      obtain rfl : d = e := Option.some.inj (hd.symm.trans he)
      refine ⟨d', by simp [Fs.setDir], hid, fun X _ ↦ ?_⟩
      rw [setDir_refs, hm.refs D hD, hcount X]
      by_cases hX : X = s.nextId
      · simp [hX, h.unused D s.nextId (Or.inr le_rfl)]
      · simp [hX]
    · refine ⟨e, by simp [Fs.setDir, hD', hm.dirs D hD, he], rfl, fun X _ ↦ ?_⟩
      rw [setDir_refs, hm.refs D hD, if_neg (by simp [hD'])]
  · intro D e he hnone
    have hne : D ≠ dir := by
      rintro rfl
      rw [hd] at hnone
      cases hnone
    have he' : t.dir D = some e := by simpa [Fs.setDir, hne] using he
    have hD : s.nextId ≤ D := by
      by_contra hlt
      rw [hm.dirs D (by omega), hnone] at he'
      cases he'
    exact hm.fresh D e hD he'

theorem fsMkdir_kept (h : Agree s) {d : Dseg} (hd : s.dir dir = some d) (fn : Name) {ans : Answers}
    (hunref : ans.unref = none) : Kept s (s.fsMkdir dir d fn ans) := by
  have hdir := h.dir_lt dir d hd
  have halloc := made_alloc h hdir
  have hinit := made_initDseg h hdir
  unfold Fs.fsMkdir
  simp only [hunref]
  split
  · exact h.kept _
  · split
    · exact halloc.undo h hdir _
    · split
      · exact hinit.undo h hdir _
      · split
        next hins => exact ⟨hinit.entered h hd hins, by simp⟩
        · exact hinit.undo h hdir _
        · exact hinit.undo h hdir _

theorem fsMknod_kept (h : Agree s) {d : Dseg} (hd : s.dir dir = some d) {fn : Name} {ans : Answers}
    (hunref : ans.unref = none) (hlen : fn.length ≤ fsNameLen - 1) :
    Kept s (s.fsMknod dir d fn ans) := by
  have hdir := h.dir_lt dir d hd
  have halloc := made_alloc h hdir
  unfold Fs.fsMknod
  simp only [hunref]
  split
  · exact h.kept _
  · split
    · exact halloc.undo h hdir _
    · split
      · exact halloc.undo h hdir _
      · split
        next hins => exact ⟨halloc.entered h hd hins, by simp⟩
        · exact halloc.undo h hdir _
        next hins => exact absurd hins (insert_not_thrown hlen)

end HiStar.FsDir
