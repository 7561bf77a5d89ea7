import HiStar.Vm.Weaker

namespace HiStar.Vm

open Function

variable {D : Type}

/-- No address space has a writable entry for a page of `seg`. -/
def Machine.Sealed (s : Machine D) (seg : Nat) : Prop :=
  ∀ a as vpn e, s.as a = some as → as.pte vpn = some e → e.obj = seg → e.w = false

/-- Ids in use are below the bound; and what holds of a read-only segment, if there is one
to watch. -/
structure Held (ro : Option (Nat × Obj D)) (s : Machine D) : Prop where
  fresh : ∀ id o, s.obj id = some o → id < s.nextId
  readonly : ∀ p ∈ ro, p.2.readonly = true
  obj : ∀ p ∈ ro, s.obj p.1 = none ∨ s.obj p.1 = some p.2
  seals : ∀ p ∈ ro, s.Sealed p.1
  used : ∀ p ∈ ro, p.1 < s.nextId

namespace Held

variable {ro : Option (Nat × Obj D)} {s s' : Machine D}

theorem of_weaker (h : Held ro s) (hobj : s'.obj = s.obj) (hid : s'.nextId = s.nextId)
    (has : ∀ a as', s'.as a = some as' →
      as'.asPgmap = none ∨ ∃ as, s.as a = some as ∧ Weaker as as') : Held ro s' := by
  refine ⟨by rw [hobj, hid]; exact h.fresh, h.readonly, hobj ▸ h.obj, ?_, hid ▸ h.used⟩
  intro p hp a as' vpn e' ha he hseg
  rcases has a as' ha with hnone | ⟨as, has, hw⟩
  · simp [AddressSpace.pte, hnone] at he
  · obtain ⟨e, he₀, hobj, hle⟩ := hw vpn e' he
    have := h.seals p hp a as vpn e has he₀ (hobj.trans hseg)
    cases hw' : e'.w with
    | false => rfl
    | true => simp [hle hw'] at this

theorem mapAs (h : Held ro s) {f : AddressSpace → AddressSpace} (hf : ∀ as, Weaker as (f as)) :
    Held ro (s.mapAs f) := by
  refine h.of_weaker rfl rfl fun a as' ha ↦ ?_
  obtain ⟨as, has, rfl⟩ := Option.map_eq_some_iff.mp ha
  exact Or.inr ⟨as, has, hf as⟩

variable {a id : Nat} {leq : LabelOrder} {o' : Obj D}

theorem modifyAs (h : Held ro s) {f : AddressSpace → AddressSpace}
    (hf : ∀ as, Weaker as (f as)) : Held ro (s.modifyAs a f) := by
  refine h.of_weaker rfl rfl fun b as' hb ↦ Or.inr ?_
  by_cases hab : b = a
  · subst hab
    simp only [Machine.modifyAs, update_self] at hb
    obtain ⟨as, has, rfl⟩ := Option.map_eq_some_iff.mp hb
    exact ⟨as, has, hf as⟩
  · simp only [Machine.modifyAs, update_of_ne hab] at hb
    exact ⟨as', hb, Weaker.refl as'⟩

theorem setAs (h : Held ro s) {as' : AddressSpace}
    (has : as'.asPgmap = none ∨ ∃ as, s.as a = some as ∧ Weaker as as') :
    Held ro (s.setAs a as') := by
  refine h.of_weaker rfl rfl fun b as'' hb ↦ ?_
  by_cases hab : b = a
  · subst hab
    simp only [Machine.setAs, update_self, Option.some.injEq] at hb
    exact hb ▸ has
  · simp only [Machine.setAs, update_of_ne hab] at hb
    exact Or.inr ⟨as'', hb, Weaker.refl as''⟩

theorem modifyAs_install (h : Held ro s) {vpn : Nat} {e : Pte}
    (he : e.w = true → ∀ p ∈ ro, e.obj ≠ p.1) :
    Held ro (s.modifyAs a (·.mapPgmap (update · vpn (some e)))) := by
  refine ⟨h.fresh, h.readonly, h.obj, ?_, h.used⟩
  intro p hp b as' vpn' e' hb he' hseg
  by_cases hab : b = a
  · subst hab
    simp only [Machine.modifyAs, update_self] at hb
    obtain ⟨as, has, rfl⟩ := Option.map_eq_some_iff.mp hb
    cases hpm : as.asPgmap with
    | none => simp [AddressSpace.pte, AddressSpace.mapPgmap, hpm] at he'
    | some pm =>
      simp only [AddressSpace.pte, AddressSpace.mapPgmap, hpm, Option.map_some, Option.bind_some]
        at he'
      by_cases hv : vpn' = vpn
      · subst hv
        obtain rfl : e = e' := by simpa using he'
        simpa using fun hw ↦ he hw p hp hseg
      · rw [update_of_ne hv] at he'
        exact h.seals p hp b as vpn' e' has (by simp [AddressSpace.pte, hpm, he']) hseg
  · simp only [Machine.modifyAs, update_of_ne hab] at hb
    exact h.seals p hp b as' vpn' e' hb he' hseg

/-- An object other than the segment is changed or dropped. -/
theorem update (h : Held ro s) {x : Option (Obj D)} (hx : x ≠ none → s.obj id ≠ none)
    (hne : ∀ p ∈ ro, id ≠ p.1 ∨ x = none) :
    Held ro { s with obj := Function.update s.obj id x } := by
  refine ⟨fun id' o ho ↦ ?_, h.readonly, fun p hp ↦ ?_, h.seals, h.used⟩
  · by_cases hid : id' = id
    · subst hid
      simp only [update_self] at ho
      obtain ⟨o₀, ho₀⟩ := Option.ne_none_iff_exists'.mp (hx (by simp [ho]))
      exact h.fresh id' o₀ ho₀
    · exact h.fresh id' o (by simpa [update_of_ne hid] using ho)
  · by_cases hid : p.1 = id
    · rcases hne p hp with hne | rfl
      · exact absurd hid.symm hne
      · exact .inl (by simp [hid])
    · simpa [update_of_ne hid] using h.obj p hp

theorem newObj (h : Held ro s) (id : Nat) (o' : Obj D) : Held ro (s.newObj id o').2 := by
  unfold Machine.newObj
  split
  next hle =>
    refine ⟨fun id' o ho ↦ ?_, h.readonly, fun p hp ↦ ?_, h.seals, fun p hp ↦ ?_⟩
    · by_cases hid : id' = id
      · exact hid ▸ Nat.lt_succ_self id
      · have := h.fresh id' o (by simpa [Machine.setObj, update_of_ne hid] using ho)
        exact (this.trans_le hle).trans (Nat.lt_succ_self id)
    · have hne : p.1 ≠ id := ((h.used p hp).trans_le hle).ne
      simpa [Machine.setObj, update_of_ne hne] using h.obj p hp
    · exact ((h.used p hp).trans_le hle).trans (Nat.lt_succ_self id)
  next => exact h

theorem segmentInvalidate (h : Held ro s) (ko ct : Nat) : Held ro (s.segmentInvalidate ko ct) :=
  h.mapAs fun as ↦ Weaker.segmentInvalidate as ko ct

theorem ne_of_check (h : Held ro s) {th : Thread} (hobj : s.obj id = some o')
    (hcheck : kobjectIflowCheck leq th o' .rw = .ok ()) : ∀ p ∈ ro, id ≠ p.1 := by
  rintro p hp rfl
  rcases h.obj p hp with hnone | hsome
  · simp [hnone] at hobj
  · obtain rfl : p.2 = o' := Option.some.inj (hsome.symm.trans hobj)
    simp [kobjectIflowCheck, h.readonly p hp] at hcheck

/-- An object that the current thread may write to is changed. -/
theorem setObj (h : Held ro s) {th : Thread} (hobj : s.obj id = some o')
    (hcheck : kobjectIflowCheck leq th o' .rw = .ok ()) (o : Obj D) : Held ro (s.setObj id o) :=
  h.update (by simp [hobj]) fun p hp ↦ .inl (h.ne_of_check hobj hcheck p hp)

/-! ### Faults -/

theorem fillLoop (h : Held ro s) (env : FaultEnv) (a i : Nat) (o' : Obj D)
    (u : USegmentMapping) {w : Bool} (need : Nat) (hw : w = true → ∀ p ∈ ro, id ≠ p.1) (vpns : List Nat) :
    Held ro (Machine.fillLoop env a i id o' u w need vpns s).2 := by
  induction vpns generalizing s with
  | nil => exact h
  | cons vpn vpns ih =>
    have hcopied : Held ro
        ((env.copied vpn).foldl (fun s ko ↦ s.segmentInvalidate ko 0) s) := by
      clear ih
      induction env.copied vpn generalizing s with
      | nil => exact h
      | cons ko kos ihk => exact ihk (h.segmentInvalidate ko 0)
    simp only [Machine.fillLoop]
    split
    · split
      · exact ih hcopied
      · exact hcopied
    · refine ih ?_
      exact hcopied.modifyAs_install hw

theorem asPmapFillKobj (h : Held ro s) (env : FaultEnv) (a i : Nat) (o' : Obj D)
    (u : USegmentMapping) {w : Bool} (need : Nat) (hw : w = true → ∀ p ∈ ro, id ≠ p.1) :
    Held ro (s.asPmapFillKobj env a i id o' u need w).2 := by
  unfold Machine.asPmapFillKobj
  simp only
  split
  · exact h
  · split
    · exact h
    · have hcleared : Held ro (s.modifyAs a (·.setSm i fun sm ↦ { sm with smKo := none })) :=
        h.modifyAs fun as ↦ Weaker.setSm as i _
      generalize List.range' _ _ = vpns
      have hloop := hcleared.fillLoop env a i o' u need hw vpns
      split
      next heq =>
        rw [heq] at hloop
        exact hloop.modifyAs fun as ↦ Weaker.setSm as i _
      next heq =>
        rw [heq] at hloop
        exact hloop.modifyAs fun as ↦ Weaker.invalidate as _ _

theorem asPmapFill (h : Held ro s) (leq : LabelOrder) (env : FaultEnv)
    (a vpn : Nat) (req : UInt32) (i : Nat) (us : List USegmentMapping) :
    Held ro (s.asPmapFill leq env a vpn req i us).2 := by
  induction us generalizing i with
  | nil => exact h
  | cons u us ih =>
    rcases @asPmapFill_cons D leq s env a vpn req i u us with
      heq | ⟨e, heq⟩ | ⟨id, o', w, hget, heq⟩
    · rw [heq]
      exact ih (i + 1)
    · rw [heq]
      exact h
    · rw [heq]
      refine (h.modifyAs fun as ↦ Weaker.setSm as i _).asPmapFillKobj env a i o' u vpn ?_
      exact fun hw ↦ h.ne_of_check (cobjGet_ok (hget hw)).2.1 (cobjGet_ok (hget hw)).2.2

theorem asPagefault (h : Held ro s) (leq : LabelOrder) (env : FaultEnv)
    (a vpn : Nat) (req : UInt32) : Held ro (s.asPagefault leq env a vpn req).2 := by
  unfold Machine.asPagefault
  split
  · exact h
  next as has =>
    split
    · exact h.asPmapFill leq env a vpn req 0 as.usm
    · split
      · exact h
      · refine Held.asPmapFill ?_ leq env a vpn req 0 as.usm
        refine h.setAs (Or.inr ⟨as, has, ?_⟩)
        intro vpn e he
        simp [AddressSpace.pte] at he

/-! ### Calls -/

variable [Inhabited D]

omit [Inhabited D] in
theorem segmentCopy (h : Held ro s) (src : Nat) (o' : Obj D) (id label : Nat)
    (fail : Option Errno) : Held ro (s.segmentCopy src o' id label fail).2 := by
  unfold Machine.segmentCopy
  cases fail with
  | some e => exact h.segmentInvalidate src 0
  | none => exact (h.segmentInvalidate src 0).newObj id _

theorem segmentSetNbytes (h : Held ro s) {th : Thread} (hobj : s.obj id = some o')
    (hcheck : kobjectIflowCheck leq th o' .rw = .ok ()) (nbytes : Nat) (fail : Option Errno) :
    Held ro (s.segmentSetNbytes id o' nbytes fail).2 := by
  have hinv : Held ro (if nbytes < o'.nbytes then s.segmentInvalidate id 0 else s) := by
    split
    · exact h.segmentInvalidate id 0
    · exact h
  unfold Machine.segmentSetNbytes
  cases fail with
  | some e => exact hinv
  | none =>
    refine hinv.setObj ?_ hcheck _
    split <;> exact hobj

theorem threadChangeLabel (h : Held ro s) (leq : LabelOrder) (label id : Nat)
    (fail : Option Errno) : Held ro (s.threadChangeLabel leq label id fail).2 := by
  unfold Machine.threadChangeLabel
  split
  · exact h
  next sg o' _ =>
    have hcopy := h.segmentCopy sg { o' with
      nbytes := utlsDefsize, pages := resizePages o'.pages utlsDefsize } id label fail
    split
    next heq => exact heq ▸ hcopy
    next heq =>
      rw [heq] at hcopy
      exact ⟨hcopy.fresh, hcopy.readonly, hcopy.obj, hcopy.seals, hcopy.used⟩

omit [Inhabited D] in
theorem asSwitch (h : Held ro s) (leq : LabelOrder) (ct : Nat → Option Errno) (noMem : Bool)
    (a : Nat) : Held ro (s.asSwitch leq ct noMem a) := by
  refine h.modifyAs fun as ↦ ?_
  simp only
  split
  · exact Weaker.of_none rfl
  · exact (Weaker.asSwitchInvalidate s as _ _).trans (Weaker.of_asPgmap_eq rfl)

theorem step (h : Held ro s) (leq : LabelOrder) (c : Call D) :
    Held ro (s.step leq c).2 := by
  cases c with
  | asCreate id =>
    simp only [Machine.step]
    split
    · exact h.setAs (Or.inl rfl)
    · exact h
  | asCopy src id =>
    simp only [Machine.step]
    split
    · split
      · exact h.setAs (Or.inl rfl)
      · exact h
    · exact h
  | asSetSlot a u =>
    simp only [Machine.step]
    split
    · exact h
    next as has =>
      split
      · exact h
      next hset => exact h.setAs (Or.inr ⟨as, has, Weaker.asSetUslot hset⟩)
  | asSet a ents n => exact h.modifyAs fun as ↦ Weaker.of_none rfl
  | pagefault env a vpn req => exact h.asPagefault leq env a vpn req
  | store a vpn d =>
    simp only [Machine.step]
    split
    next e he =>
      obtain ⟨as, has, he⟩ := Option.bind_eq_some_iff.mp he
      split
      next hw =>
        -- the entry is writable, so it is not for the segment
        refine h.update (by simp) fun p hp ↦ .inl fun hseg ↦ ?_
        simp [h.seals p hp a as vpn e has he hseg] at hw
      next => exact h
    · exact h
  | switch th a ct noMem =>
    exact Held.asSwitch (s := { s with curThread := th })
      ⟨h.fresh, h.readonly, h.obj, h.seals, h.used⟩ leq ct noMem a
  | selfSetLabel label id fail => exact h.threadChangeLabel leq label id fail
  | segmentCreate id label nbytes => exact h.newObj id _
  | segmentCopy ct sg id label fail =>
    simp only [Machine.step]
    split
    · exact h
    · exact h.segmentCopy _ _ id label fail
  | segmentResize ct sg nbytes fail =>
    simp only [Machine.step]
    split
    · exact h
    next hget =>
      exact h.segmentSetNbytes (segmentGet_ok hget).1 (segmentGet_ok hget).2 nbytes fail
  | netBuf ct sg page d =>
    simp only [Machine.step]
    split
    · exact h
    next hget => exact h.setObj (segmentGet_ok hget).1 (segmentGet_ok hget).2 _
  | objUnref obj parentCt => exact h.segmentInvalidate obj parentCt
  | objFree obj => exact h.update (by simp) fun _ _ ↦ .inr rfl
  | setReadonly ct obj =>
    simp only [Machine.step]
    split
    · exact h
    next hget => exact h.setObj (cobjGet_ok hget).2.1 (cobjGet_ok hget).2.2 _
  | snapshot obj => exact h.mapAs fun as ↦ Weaker.segmentMapRo as obj

theorem run (h : Held ro s) (hr : Run leq s s') : Held ro s' := by
  induction hr with
  | refl => exact h
  | step c _ ih => exact ih.step leq c

end Held

end HiStar.Vm
