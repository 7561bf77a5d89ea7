import HiStar.FsDir.Calls

namespace HiStar.FsDir

open Function

structure Agree (s : Fs) : Prop where
  counts : ∀ D d, s.dir D = some d → ∀ X, X ≠ d.id → d.count X = s.refs D X
  seg_lt : ∀ D d, s.dir D = some d → d.id < s.nextId
  dir_lt : ∀ D d, s.dir D = some d → D < s.nextId
  unused : ∀ D X, s.nextId ≤ D ∨ s.nextId ≤ X → s.refs D X = 0

/-- Every directory of `s` gained as many slots as references, for every object
but its directory segment. -/
def Balanced (s s' : Fs) : Prop :=
  ∀ D d, s.dir D = some d → ∃ d', s'.dir D = some d' ∧ d'.id = d.id ∧
    ∀ X, X ≠ d.id → d'.count X + s.refs D X = d.count X + s'.refs D X

/-- No directory of `s` gained or lost a slot or a reference, its directory
segment apart. -/
def Same (s s' : Fs) : Prop :=
  ∀ D d, s.dir D = some d → ∃ d', s'.dir D = some d' ∧ d'.id = d.id ∧
    ∀ X, X ≠ d.id → d'.count X = d.count X ∧ s'.refs D X = s.refs D X

theorem Same.refl (s : Fs) : Same s s := fun _ d hd ↦ ⟨d, hd, rfl, fun _ _ ↦ ⟨rfl, rfl⟩⟩

theorem Same.balanced {s s' : Fs} (h : Same s s') : Balanced s s' := by
  intro D d hd
  obtain ⟨d', hd', hid, hX⟩ := h D d hd
  refine ⟨d', hd', hid, fun X hne ↦ ?_⟩
  rw [(hX X hne).1, (hX X hne).2]

theorem Agree.of_balanced {s s' : Fs} (h : Agree s) (hb : Balanced s s')
    (hle : s.nextId ≤ s'.nextId)
    (hnew : ∀ D d', s'.dir D = some d' → s.dir D = none →
      D < s'.nextId ∧ d'.id < s'.nextId ∧ ∀ X, X ≠ d'.id → d'.count X = s'.refs D X)
    (hunused : ∀ D X, s'.nextId ≤ D ∨ s'.nextId ≤ X → s'.refs D X = 0) : Agree s' := by
  have hold : ∀ D d d', s.dir D = some d → s'.dir D = some d' → d'.id = d.id ∧
      ∀ X, X ≠ d.id → d'.count X + s.refs D X = d.count X + s'.refs D X := by
    intro D d d' hd hd'
    obtain ⟨d'', hd'', hid, hX⟩ := hb D d hd
    obtain rfl : d'' = d' := Option.some.inj (hd''.symm.trans hd')
    exact ⟨hid, hX⟩
  refine ⟨fun D d' hd' X hne ↦ ?_, fun D d' hd' ↦ ?_, fun D d' hd' ↦ ?_, hunused⟩
  · cases hd : s.dir D with
    | none => exact (hnew D d' hd' hd).2.2 X hne
    | some d =>
      obtain ⟨hid, hX⟩ := hold D d d' hd hd'
      have h₁ := hX X (hid ▸ hne)
      have h₂ := h.counts D d hd X (hid ▸ hne)
      omega
  · cases hd : s.dir D with
    | none => exact (hnew D d' hd' hd).2.1
    | some d => exact (hold D d d' hd hd').1 ▸ (h.seg_lt D d hd).trans_le hle
  · cases hd : s.dir D with
    | none => exact (hnew D d' hd' hd).1
    | some d => exact (h.dir_lt D d hd).trans_le hle

/-! ### Slots -/

variable {id : Nat} {name : Name} {d d' : Dseg} {fail : Option Errno}

theorem names_inuse (x : DirSlot) (h : x.names id = true) : x.inuse = true := by
  simp only [DirSlot.names, Bool.and_eq_true] at h
  exact h.1

theorem isEntry_inuse (x : DirSlot) (h : x.isEntry name id = true) : x.inuse = true := by
  simp only [DirSlot.isEntry, Bool.and_eq_true] at h
  exact h.1.1

theorem insert_ok (h : d.insert name id fail = .ok d') : d.putGrow name id = .ok d' := by
  unfold Dseg.insert at h
  split at h
  · cases h
  · split at h
    · cases h
    · split at h
      next hput => cases h; exact hput
      next => cases h

theorem insert_not_thrown
    (hlen : name.length ≤ fsNameLen - 1) : d.insert name id fail ≠ .thrown := by
  unfold Dseg.insert
  rw [if_neg (by omega)]
  split
  · simp
  · split <;> simp

theorem putGrow_id (h : d.putGrow name id = .ok d') : d'.id = d.id := by
  have hput : ∀ {d d' : Dseg}, d.put name id = some d' → d'.id = d.id := by
    intro d d' h
    obtain ⟨i, -, rfl⟩ := Option.map_eq_some_iff.mp h
    rfl
  unfold Dseg.putGrow at h
  split at h
  next heq => cases h; exact hput heq
  next =>
    split at h
    next heq => cases h; exact (hput heq).trans rfl
    next => cases h

theorem insert_count (h : d.insert name id fail = .ok d') :
    d'.id = d.id ∧ (∀ X, d'.count X = d.count X + if X = id then 1 else 0) ∧
      ∀ n X, d'.entries n X = d.entries n X + if n = name ∧ X = id then 1 else 0 := by
  have hput := insert_ok h
  refine ⟨putGrow_id hput, fun X ↦ ?_, fun n X ↦ ?_⟩
  · rw [Dseg.count, Dseg.putGrow_countP hput names_inuse]
    simp [Dseg.count, DirSlot.names, eq_comm]
  · rw [Dseg.entries, Dseg.putGrow_countP hput isEntry_inuse]
    simp only [Dseg.entries, DirSlot.isEntry, Bool.true_and, Bool.and_eq_true, decide_eq_true_eq]
    congr 1
    exact if_congr (by tauto) rfl rfl

theorem remove_count (d : Dseg) (name : Name) (id X : Nat) :
    (d.remove name id none).2.count X + (if X = id then d.entries name id else 0) = d.count X := by
  have h := Dseg.remove_countP d name id (p := (·.names X)) names_inuse
  rw [Dseg.count, Dseg.count, ← h]
  congr 1
  split
  next heq =>
    subst heq
    refine List.countP_congr fun x _ ↦ ?_
    simp only [DirSlot.isEntry, DirSlot.names, Bool.and_eq_true, decide_eq_true_eq]
    tauto
  next hne =>
    symm
    refine List.countP_eq_zero.mpr fun x _ ↦ ?_
    simp only [DirSlot.isEntry, DirSlot.names, Bool.and_eq_true, decide_eq_true_eq]
    rintro ⟨⟨⟨-, rfl⟩, -⟩, -, rfl⟩
    exact hne rfl

/-! ### References -/

@[simp] theorem setDir_refs (s : Fs) (ct : Nat) (d : Dseg) : (s.setDir ct d).refs = s.refs := rfl

@[simp] theorem setRefs_dir (s : Fs) (ct obj n : Nat) : (s.setRefs ct obj n).dir = s.dir := rfl

theorem setRefs_refs (s : Fs) (ct obj n D X : Nat) :
    (s.setRefs ct obj n).refs D X = if D = ct ∧ X = obj then n else s.refs D X := by
  simp only [Fs.setRefs]
  by_cases hD : D = ct
  · subst hD
    by_cases hX : X = obj
    · simp [hX]
    · simp [hX]
  · simp [hD]

theorem sysObjUnref_ok (s : Fs) {o : CobjRef} (h : s.refs o.container o.object ≠ 0) :
    s.sysObjUnref o none =
      (none, s.setRefs o.container o.object (s.refs o.container o.object - 1)) := by
  simp [Fs.sysObjUnref, h]

theorem alloc_refs (s : Fs) (ct D X : Nat) :
    (s.alloc ct).refs D X = if D = ct ∧ X = s.nextId then 1 else s.refs D X :=
  setRefs_refs s ct s.nextId 1 D X

end HiStar.FsDir
