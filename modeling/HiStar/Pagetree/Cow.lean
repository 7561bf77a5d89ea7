import HiStar.Pagetree.PutStep

namespace HiStar.Pagetree

open Lib Function

variable {α : Type} {s s' s'' : Mem α} {pt i j n p copy : Nat} {path : List Nat} {e x : Ent}
  {other : Set Nat} {pos : Nat → Pos} {holders : Nat → Finset Ent} {env : Env}

/-- Something that no tree depends on has changed: parents, read pins of the pages
of objects, and how often memory was asked for. -/
structure Touch (s s' : Mem α) : Prop where
  page : s'.page = s.page
  data : s'.data = s.data
  free : s'.freeList = s.freeList
  ref : ∀ p, (s'.info p).piRef = (s.info p).piRef
  indir : ∀ p, (s'.info p).piIndir = (s.info p).piIndir
  write_pin : ∀ p, (s'.info p).piHwWritePin = (s.info p).piHwWritePin
  shared : ∀ p, (s'.info p).piWriteSharedRef = (s.info p).piWriteSharedRef
  unused : ∀ p, (s.info p).piRef = 0 → s'.info p = s.info p
  read_pin : ∀ p, (s.info p).piHwReadPin = 0 → (s'.info p).piHwReadPin = 0

namespace Touch

theorem refl (s : Mem α) : Touch s s :=
  ⟨rfl, rfl, rfl, fun _ ↦ rfl, fun _ ↦ rfl, fun _ ↦ rfl, fun _ ↦ rfl, fun _ _ ↦ rfl, fun _ h ↦ h⟩

theorem allocs (s : Mem α) (n k : Nat) : Touch s { s with allocs := n, refused := k } :=
  ⟨rfl, rfl, rfl, fun _ ↦ rfl, fun _ ↦ rfl, fun _ ↦ rfl, fun _ ↦ rfl, fun _ _ ↦ rfl, fun _ h ↦ h⟩

theorem trans (h : Touch s s') (h' : Touch s' s'') : Touch s s'' where
  page := h'.page.trans h.page
  data := h'.data.trans h.data
  free := h'.free.trans h.free
  ref p := (h'.ref p).trans (h.ref p)
  indir p := (h'.indir p).trans (h.indir p)
  write_pin p := (h'.write_pin p).trans (h.write_pin p)
  shared p := (h'.shared p).trans (h.shared p)
  unused p hp := (h'.unused p ((h.ref p).trans hp)).trans (h.unused p hp)
  read_pin p hp := h'.read_pin p (h.read_pin p hp)

theorem live_iff (h : Touch s s') : s'.Live x ↔ s.Live x := by
  cases x with
  | direct => exact Iff.rfl
  | indirect => exact Iff.rfl
  | entry p j => rw [Mem.live_entry, Mem.live_entry, h.ref, h.indir]

theorem wf (h : Touch s s') (hw : Wf other pos holders s) : Wf other pos holders s' where
  null := (h.ref 0).trans hw.null
  mem_holders p hp x := by rw [hw.mem_holders p hp, h.live_iff, h.page]
  ref_eq p hp := (h.ref p).trans (hw.ref_eq p hp)
  pos_eq x hx := by
    rw [h.page]
    exact hw.pos_eq x (h.live_iff.mp hx)
  indir_iff p := by
    rw [h.ref, h.indir]
    exact hw.indir_iff p
  mem_free p := by
    rw [h.free, h.ref]
    exact hw.mem_free p
  nodup := by
    rw [h.free]
    exact hw.nodup
  other_ref p hp := (h.ref p).trans (hw.other_ref p hp)
  clean p hr := by
    rw [h.ref] at hr
    rw [h.unused p hr, h.free]
    exact hw.clean p hr
  read_pin p hi := by
    rw [h.indir] at hi
    exact h.read_pin p (hw.read_pin p hi)
  pin_ref p := by
    rw [h.write_pin, h.ref, h.shared]
    exact hw.pin_ref p
  pin_up p i hl := by
    rw [h.page, h.write_pin, h.write_pin]
    exact hw.pin_up p i (h.live_iff.mp hl)

theorem node_eq (h : Touch s s') : s'.node pt i path = s.node pt i path := by
  induction path with
  | nil => exact congrFun h.page _
  | cons j path ih =>
    unfold Mem.node
    rw [ih, h.page]

theorem pageAt_eq (h : Touch s s') (π : Pos) : s'.pageAt pt π = s.pageAt pt π := by
  cases π with
  | direct i => exact congrFun h.page _
  | node i path => exact h.node_eq

theorem entAt_eq (h : Touch s s') (π : Pos) : s'.entAt pt π = s.entAt pt π := by
  rcases π with i | ⟨i, _ | ⟨j, path⟩⟩
  · rfl
  · rfl
  · exact congrArg (Ent.entry · j) h.node_eq

theorem pinned (h : Touch s s') (hp : (s'.info p).Pinned) : (s.info p).Pinned := by
  unfold PageInfo.Pinned at hp ⊢
  rw [h.shared, h.write_pin] at hp
  exact hp.imp_right (.imp_right (mt (h.read_pin p)))

theorem keeps (h : Touch s s') : Keeps pt s s' where
  pageAt pt π _ _ := h.pageAt_eq π
  data p _ := congrFun h.data p
  free p hp := h.free ▸ hp
  pinned p _ := h.pinned
  priv hs π hb hl h0 := by
    rw [h.pageAt_eq] at h0 ⊢
    exact ⟨(h.ref _).trans (hs π hb hl h0).1, mt h.pinned (hs π hb hl h0).2⟩

end Touch

variable {E : Errno → Mem α → Prop} {dst q : Nat} {cow : Ent → Sys α Bool}

theorem forLoop_wp {f : Nat → Sys α Unit} {I : Nat → Mem α → Prop}
    (hstep : ∀ j t, i ≤ j → j < i + n → I j t → Wp (f j) t (fun _ ↦ I (j + 1)) E) (h : I i s) :
    Wp (forLoop f i n) s (fun _ ↦ I (i + n)) E := by
  induction n generalizing i s with
  | zero => exact Wp.pure h
  | succ n ih =>
    refine Wp.seq (hstep i s le_rfl (by omega) h) fun _ t ht ↦ ?_
    rw [show i + (n + 1) = i + 1 + n by omega]
    exact ih (fun j t hij hj ↦ hstep j t (by omega) (by omega)) ht

def Denied (s : Mem α) (er : Errno) (t : Mem α) : Prop := er = .restart ∧ Touch s t

theorem pageAlloc_wp (h : Wf other pos holders s) {Q : Nat → Mem α → Prop}
    {E : Errno → Mem α → Prop}
    (hok : ∀ p rest, s.freeList = p :: rest →
      Q p { s with freeList := rest, allocs := s.allocs + 1, info := update s.info p {} })
    (herr : ∀ er t, Denied s er t → E er t) : Wp (pageAlloc env) s Q E := by
  unfold Wp pageAlloc
  rcases hf : s.freeList with _ | ⟨p, rest⟩
  · have := herr .restart { s with allocs := s.allocs + 1, refused := s.refused + 1 }
      ⟨rfl, .allocs s _ _⟩
    simpa only [hf] using this
  · have hm : p ∈ s.freeList := by
      rw [hf]
      exact List.mem_cons_self
    have hinfo : s.info p = { piFreepage := true } := by
      rw [h.clean p ((h.mem_free p).mp hm).2.1]
      simp [hm]
    simp only
    by_cases hd : env.deny s.allocs = true
    · rw [if_pos hd]
      have := herr .restart { s with allocs := s.allocs + 1, refused := s.refused + 1 }
        ⟨rfl, .allocs s _ _⟩
      simpa only [hf] using this
    · rw [if_neg hd, if_pos (by rw [hinfo])]
      have := hok p rest hf
      simpa only [Mem.setInfo, hinfo] using this

/-- The pages on `dst` get a reference for each of the first `i` slots. -/
def Mem.refd (s : Mem α) (dst i : Nat) : Mem α :=
  { s with info := fun c ↦ if c = 0 then s.info c else
      (s.info c).addRefs {j ∈ Finset.range i | s.page (.entry dst j) = c}.card }

theorem Mem.refd_zero (s : Mem α) (dst : Nat) : s.refd dst 0 = s := by
  unfold Mem.refd
  simp [PageInfo.addRefs]

theorem Mem.refd_succ (s : Mem α) (dst i : Nat) (hc : s.page (.entry dst i) ≠ 0) :
    s.refd dst (i + 1) = (s.refd dst i).setInfo (s.page (.entry dst i))
      (fun i ↦ { i with piRef := i.piRef + 1 }) := by
  unfold Mem.refd Mem.setInfo
  congr 1
  funext c
  by_cases h0 : c = 0
  · subst h0
    simp [update_of_ne hc.symm]
  · by_cases hcc : c = s.page (.entry dst i)
    · subst hcc
      simp [h0, Finset.range_add_one, Finset.filter_insert, PageInfo.addRefs, Nat.add_assoc]
    · rw [update_of_ne hcc]
      simp [h0, Finset.range_add_one, Finset.filter_insert, Ne.symm hcc]

theorem Mem.refd_succ_zero (s : Mem α) (dst i : Nat) (hc : s.page (.entry dst i) = 0) :
    s.refd dst (i + 1) = s.refd dst i := by
  unfold Mem.refd
  congr 1
  funext c
  by_cases h0 : c = 0
  · simp [h0]
  · simp [h0, Finset.range_add_one, Finset.filter_insert, hc, Ne.symm h0]

section Rules

variable {β : Type} {Q : β → Mem α → Prop} {E : Errno → Mem α → Prop}

theorem wp_pageOf {f : Nat → Sys α β} (h : Wp (f (s.page e)) s Q E) : Wp (pageOf e >>= f) s Q E := h

theorem wp_infoOf {f : PageInfo → Sys α β} (h : Wp (f (s.info p)) s Q E) :
    Wp (infoOf p >>= f) s Q E := h

theorem wp_setInfo {g : PageInfo → PageInfo} {f : Unit → Sys α β}
    (h : Wp (f ()) (s.setInfo p g) Q E) : Wp (setInfo p g >>= f) s Q E := h

end Rules

theorem increfEntries_wp :
    Wp (increfEntries dst) s (fun _ t ↦ t = s.refd dst pagetreeEntriesPerPage) E := by
  have h : Wp (increfEntries dst) s (fun _ t ↦ t = s.refd dst (0 + pagetreeEntriesPerPage)) E := by
    refine forLoop_wp (I := fun j t ↦ t = s.refd dst j) (fun j t _ _ ht ↦ ?_) (s.refd_zero dst).symm
    subst ht
    refine wp_pageOf (Wp.when (fun hc ↦ ?_) fun hc ↦ ?_)
    · exact (s.refd_succ dst j (of_decide_eq_true hc)).symm
    · exact (s.refd_succ_zero dst j (of_not_not (of_decide_eq_false hc))).symm
  exact h

theorem cowPinnedEntries_wp (hpin : ∀ j, j < pagetreeEntriesPerPage → s.page (.entry dst j) ≠ 0 →
      (s.info (s.page (.entry dst j))).piHwWritePin = 0) :
    Wp (cowPinnedEntries cow dst) s (fun _ t ↦ t = s) E := by
  refine forLoop_wp (I := fun _ t ↦ t = s) (fun j t _ hj ht ↦ ?_) rfl
  subst ht
  refine wp_pageOf (wp_infoOf (Wp.when (fun hc ↦ ?_) fun _ ↦ rfl))
  rw [Bool.and_eq_true, decide_eq_true_eq, decide_eq_true_eq] at hc
  exact absurd (hpin j (by omega) hc.1) hc.2

theorem Mem.refd_pin (s : Mem α) (dst i c : Nat) :
    ((s.refd dst i).info c).piHwWritePin = (s.info c).piHwWritePin := by
  unfold Mem.refd
  dsimp only
  split <;> rfl

theorem Mem.refd_indir (s : Mem α) (dst i c : Nat) :
    ((s.refd dst i).info c).piIndir = (s.info c).piIndir := by
  unfold Mem.refd
  dsimp only
  split <;> rfl

theorem pagetreeIndirCopy_wp {src : Nat}
    (hpin : ∀ j, j < pagetreeEntriesPerPage → s.page (.entry dst j) ≠ 0 →
      (s.info (s.page (.entry dst j))).piHwWritePin = 0)
    (hsrc : (s.info src).piIndir = true) :
    Wp (pagetreeIndirCopy cow src dst) s (fun _ t ↦ t =
      (s.refd dst pagetreeEntriesPerPage).setInfo dst fun i ↦ { i with piIndir := true }) E := by
  refine Wp.bind (increfEntries_wp.mono (fun _ t ht ↦ ?_) fun _ _ he ↦ he)
  subst ht
  refine Wp.seq (cowPinnedEntries_wp fun j hj hc ↦ ?_) fun _ t ht ↦ ?_
  · rw [Mem.refd_pin]
    exact hpin j hj hc
  · subst ht
    refine wp_infoOf (wp_require_of ?_ rfl)
    rw [Mem.refd_indir, hsrc]

theorem cowFinish_wp {E : Errno → Mem α → Prop} (hq : 2 ≤ (s.info q).piRef)
    (hne : q ≠ copy) : Wp (do
      let i ← infoOf q
      setInfo copy fun ci ↦ { ci with piDirty := i.piDirty }
      pagetreeDecref stackDepth q
      pagetreeSetEntry e copy) s
      (fun _ t ↦ t = (((s.setInfo copy fun ci ↦ { ci with piDirty := (s.info q).piDirty }).setInfo q
        fun i ↦ { i with piRef := i.piRef - 1 }).setPage e copy)) E := by
  refine wp_infoOf (wp_setInfo (Wp.bind (wp_setInfo (wp_infoOf ?_))))
  set s1 := s.setInfo copy fun ci ↦ { ci with piDirty := (s.info q).piDirty } with hs1
  have hdec : dec32 (s1.info q).piRef = (s1.info q).piRef - 1 := by
    rw [hs1, Mem.setInfo_ne _ _ hne, dec32, if_neg (by omega)]
  refine Wp.when (fun hz ↦ ?_) fun _ ↦ ?_
  · rw [decide_eq_true_eq, Mem.setInfo_self, hdec, hs1, Mem.setInfo_ne _ _ hne] at hz
    replace hz : (s.info q).piRef - 1 = 0 := hz
    omega
  · exact congrArg (Mem.setPage e copy) (Mem.setInfo_congr (by simp only [hdec]))

/-- A page has been taken off the free list, filled from `q` and counted. -/
def Mem.withCopy (s : Mem α) (q copy : Nat) (rest : List Nat) : Mem α :=
  Mem.setInfo copy (fun i ↦ { i with piRef := i.piRef + 1 }) (Mem.copyPage q copy
    { s with freeList := rest, allocs := s.allocs + 1, info := update s.info copy {} })

theorem Mem.withCopy_copy (s : Mem α) (q copy : Nat) (rest : List Nat) :
    (s.withCopy q copy rest).info copy = { piRef := 1 } := by
  rw [Mem.withCopy, Mem.setInfo_self]
  simp [Mem.copyPage]

theorem Mem.withCopy_ne (s : Mem α) (rest : List Nat) (hp : p ≠ copy) :
    (s.withCopy q copy rest).info p = s.info p := by
  rw [Mem.withCopy, Mem.setInfo_ne _ _ hp]
  exact update_of_ne hp _ _

structure Counted (s t : Mem α) (q copy : Nat) (rest : List Nat) : Prop where
  page : t.page = (s.copyPage q copy).page
  data : t.data = update s.data copy (s.data q)
  free : t.freeList = rest
  info_copy : t.info copy = { piRef := 1, piIndir := (s.info q).piIndir }
  info_null : t.info 0 = s.info 0
  info_other : ∀ p, p ≠ copy → p ≠ 0 → t.info p = (s.info p).addRefs (s.slotsOf q p).card

theorem countCopy_wp {rest : List Nat} (h : Wf other pos holders s) (hfree : copy ∈ s.freeList)
    (hq : 0 < (s.info q).piRef) (hpin : (s.info q).piHwWritePin = 0) :
    Wp (Exec.when (s.info q).piIndir
      (Exec.onFail (pagetreeIndirCopy cow q copy) (pagetreeDecref stackDepth copy)))
      (s.withCopy q copy rest) (fun _ t ↦ Counted s t q copy rest) E := by
  have hqc : q ≠ copy := by
    rintro rfl
    exact h.not_free hq hfree
  have hc0 : copy ≠ 0 := ((h.mem_free copy).mp hfree).1
  have hent : ∀ j, (s.withCopy q copy rest).page (.entry copy j) = s.page (.entry q j) := fun j ↦
    if_pos rfl
  refine Wp.when (fun hi ↦ Wp.onFail_of_ok ?_) fun hi ↦ ?_
  · have hlive : ∀ j, j < pagetreeEntriesPerPage → s.Live (.entry q j) := fun j hj ↦ ⟨hq, hi, hj⟩
    have hcc : ∀ j, j < pagetreeEntriesPerPage → s.page (.entry q j) ≠ copy := fun j hj ↦
      h.page_ne_of_free hfree (hlive j hj)
    refine (pagetreeIndirCopy_wp (fun j hj hc ↦ ?_) ?_).imp fun _ t ht ↦ ?_
    · rw [hent] at hc ⊢
      rw [Mem.withCopy_ne s rest (hcc j hj)]
      by_contra hp
      exact h.pin_up q j (hlive j hj) hc hp hpin
    · rw [Mem.withCopy_ne s rest hqc, hi]
    · subst ht
      have hcard : ∀ p, {j ∈ Finset.range pagetreeEntriesPerPage |
          (s.withCopy q copy rest).page (.entry copy j) = p} = s.slotsOf q p := by
        intro p
        rw [Mem.slotsOf, if_pos hi]
        simp only [hent]
      refine ⟨rfl, rfl, rfl, ?_, ?_, fun p hp hp0 ↦ ?_⟩
      · rw [Mem.setInfo_self, Mem.refd]
        dsimp only
        rw [if_neg hc0, hcard, h.slotsOf_eq_empty hq hc0 ((h.mem_free copy).mp hfree).2.1,
          Mem.withCopy_copy, hi]
        rfl
      · rw [Mem.setInfo_ne _ _ hc0.symm, Mem.refd]
        dsimp only
        rw [if_pos rfl, Mem.withCopy_ne s rest hc0.symm]
      · rw [Mem.setInfo_ne _ _ hp, Mem.refd]
        dsimp only
        rw [if_neg hp0, hcard, Mem.withCopy_ne s rest hp]
  · refine ⟨rfl, rfl, rfl, ?_, s.withCopy_ne rest hc0.symm, fun p hp hp0 ↦ ?_⟩
    · rw [Mem.withCopy_copy, hi]
    · rw [Mem.withCopy_ne s rest hp, Mem.slotsOf, if_neg (by simp [hi])]
      rfl

theorem cowCopy_wp (h : Wf other pos holders s) (he : s.Live e) (h0 : s.page e ≠ 0)
    (hshared : 1 + (s.info (s.page e)).piWriteSharedRef < (s.info (s.page e)).piRef) :
    Wp (cowCopy env cow e (s.page e)) s 
      (fun _ t ↦ ∃ copy, Fork s t e copy (s.info (s.page e)).piIndir) (Denied s) := by
  refine Wp.bind (pageAlloc_wp h (fun copy rest hf ↦ ?_) fun _ _ he ↦ he)
  have hfree : copy ∈ s.freeList := by
    rw [hf]
    exact List.mem_cons_self
  have hqc : s.page e ≠ copy := h.page_ne_of_free hfree he
  have hc0 : copy ≠ 0 := ((h.mem_free copy).mp hfree).1
  have href := h.ref_pos he h0
  have hpin : (s.info (s.page e)).piHwWritePin = 0 := by
    by_contra hp
    have := h.pin_ref _ hp
    omega
  refine wp_infoOf (wp_require_of (by simp [PageInfo.unused])
    (wp_modify (wp_setInfo (wp_infoOf ?_))))
  change Wp (Exec.when ((s.withCopy (s.page e) copy rest).info (s.page e)).piIndir _ >>= _)
    (s.withCopy (s.page e) copy rest) _ _
  rw [Mem.withCopy_ne s rest hqc]
  refine Wp.seq (countCopy_wp h hfree href hpin) fun _ t ht ↦ ?_
  have hq : t.info (s.page e) = s.info (s.page e) := by
    rw [ht.info_other _ hqc h0, h.slotsOf_self href]
    rfl
  refine (cowFinish_wp (by rw [hq]; omega) hqc).imp fun _ t' ht' ↦ ⟨copy, ?_⟩
  subst ht'
  refine ⟨hf.trans (congrArg (copy :: ·) ht.free.symm), ?_, fun p hp ↦ ?_,
    ⟨(s.info (s.page e)).piDirty, ?_⟩,
    fun _ ↦ ⟨(s.info (s.page e)).piHwReadPin, ?_, fun _ ↦ rfl⟩, fun p hp hpq hp0 ↦ ?_, ?_⟩
  · show update t.page e copy = _
    rw [ht.page, s.copyPage_below h0]
  · exact (congrFun ht.data p).trans (update_of_ne hp _ _)
  · rw [Mem.setPage_info, Mem.setInfo_ne _ _ hqc.symm, Mem.setInfo_self, ht.info_copy, hq]
  · rw [Mem.setPage_info, Mem.setInfo_self, Mem.setInfo_ne _ _ hqc, hq]
    rfl
  · rw [Mem.setPage_info, Mem.setInfo_ne _ _ hpq, Mem.setInfo_ne _ _ hp, ht.info_other p hp hp0]
  · rw [Mem.setPage_info, Mem.setInfo_ne _ _ h0.symm, Mem.setInfo_ne _ _ hc0.symm, ht.info_null]

def Mem.setReadPin (s : Mem α) (q r : Nat) : Mem α :=
  s.setInfo q fun i ↦ { i with piHwReadPin := r }

theorem Touch.setReadPin (r : Nat) (hpin : (s.info q).piHwReadPin ≠ 0)
    (hr : 0 < (s.info q).piRef) : Touch s (s.setReadPin q r) := by
  have hinfo : ∀ p, (s.setReadPin q r).info p = s.info p ∨
      p = q ∧ (s.setReadPin q r).info p = { s.info p with piHwReadPin := r } := by
    intro p
    by_cases hp : p = q
    · subst hp
      exact .inr ⟨rfl, Mem.setInfo_self _ _ _⟩
    · exact .inl (Mem.setInfo_ne _ _ hp)
  refine ⟨rfl, rfl, rfl, fun p ↦ ?_, fun p ↦ ?_, fun p ↦ ?_, fun p ↦ ?_, fun p h0 ↦ ?_,
    fun p hp ↦ ?_⟩
  · rcases hinfo p with h | ⟨-, h⟩ <;> rw [h]
  · rcases hinfo p with h | ⟨-, h⟩ <;> rw [h]
  · rcases hinfo p with h | ⟨-, h⟩ <;> rw [h]
  · rcases hinfo p with h | ⟨-, h⟩ <;> rw [h]
  · rcases hinfo p with h | ⟨rfl, h⟩
    · exact h
    · omega
  · rcases hinfo p with h | ⟨rfl, h⟩
    · rwa [h]
    · exact absurd hp hpin

theorem Fork.of_setReadPin {r : Nat} {ind : Bool} (hi : (s.info (s.page e)).piIndir = false)
    (h0 : s.page e ≠ 0) (hf : Fork (s.setReadPin (s.page e) r) s' e copy ind) :
    Fork s s' e copy ind := by
  have hinfo : (s.setReadPin (s.page e) r).info (s.page e) =
      { s.info (s.page e) with piHwReadPin := r } := Mem.setInfo_self _ _ _
  have hne : ∀ p, p ≠ s.page e → (s.setReadPin (s.page e) r).info p = s.info p := fun p hp ↦
    Mem.setInfo_ne _ _ hp
  have hpage : (s.setReadPin (s.page e) r).page e = s.page e := rfl
  refine ⟨hf.free, hf.page, hf.data, hf.info_new, fun _ ↦ ?_, fun p hp hpq hp0 ↦ ?_, ?_⟩
  · obtain ⟨r', hr', -⟩ := hf.info_old h0
    rw [hpage, hinfo] at hr'
    refine ⟨r', hr', fun h ↦ ?_⟩
    rw [hi] at h
    cases h
  · have hslots : (s.setReadPin (s.page e) r).slotsOf (s.page e) p = s.slotsOf (s.page e) p := by
      unfold Mem.slotsOf
      rw [hinfo]
      rfl
    rw [hf.info_other p hp hpq hp0, hpage, hslots, hne p hpq]
  · rw [hf.info_null, hne 0 h0.symm]

theorem pagetreeCow_wp (depth : Nat) (h : Wf other pos holders s) (he : s.Live e) :
    Wp (pagetreeCow env (depth + 1) e) s
      (fun b t ↦ (b = false ∧ t = s ∧ (s.page e ≠ 0 →
          (s.info (s.page e)).piRef ≤ 1 + (s.info (s.page e)).piWriteSharedRef)) ∨
        (b = true ∧ ∃ copy ind, ForkOf other pos holders s t e copy ind))
      (Denied s) := by
  unfold pagetreeCow
  refine wp_pageOf (wp_infoOf ?_)
  split
  next h0 => exact Wp.pure (.inl ⟨rfl, rfl, fun h ↦ absurd h0 h⟩)
  next h0 =>
    have href := h.ref_pos he h0
    refine wp_require_of (decide_eq_true href) ?_
    split
    next hle => exact Wp.pure (.inl ⟨rfl, rfl, fun _ ↦ hle⟩)
    next hgt =>
      have hgt := Nat.lt_of_not_le hgt
      have hinner : (s.info (s.page e)).piIndir = true ↔ (posOf pos e).Inner := by
        rw [h.indir_iff _ href, h.pos_eq e he h0]
      refine Wp.bind (Wp.when (fun hpin ↦ ?_) fun _ ↦ ?_)
      · -- an indirect page has no read pins
        have hi : (s.info (s.page e)).piIndir = false := by
          by_contra hi
          rw [Bool.not_eq_false] at hi
          exact absurd (h.read_pin _ hi) (of_decide_eq_true hpin)
        refine wp_require_of (by rw [hi]; rfl) ?_
        have ht : Touch s (s.setReadPin (s.page e) (env.roPins (s.page e))) :=
          .setReadPin _ (of_decide_eq_true hpin) href
        have hgt' := hgt
        rw [← ht.shared, ← ht.ref] at hgt'
        refine Wp.bind ((cowCopy_wp (ht.wf h) (ht.live_iff.mpr he) h0 hgt').mono
          (fun _ t ⟨copy, hf⟩ ↦ Wp.pure (.inr ⟨rfl, copy, _, hf.of_setReadPin hi h0, h, he, ?_,
            fun _ ↦ hgt⟩)) fun _ t ⟨hr, ht'⟩ ↦ ⟨hr, ht.trans ht'⟩)
        rw [ht.indir]
        exact hinner
      · refine Wp.seq (cowCopy_wp h he h0 hgt)
          fun _ t ⟨copy, hf⟩ ↦ Wp.pure (.inr ⟨rfl, copy, _, hf, h, he, hinner, fun _ ↦ hgt⟩)

end HiStar.Pagetree
