import HiStar.Kobj.BootThread

namespace HiStar.Kobj

open Lib Function

variable {q : Prop} {root n m t c as l cl p size : Nat} {r : Nat → Nat} {k k' : Store} {env : Env}
  {encipher : Nat → Nat}

def elfBytes (sizes : List Nat) : Nat := (sizes.map fun size ↦ segmentBytes size + pgsize).sum

theorem elfSegments_ends (smi : Nat) (sizes : List Nat)
    (h : Inv q root 0 (elfBytes sizes + n) noResv k) (hl : IsLabel q l k) (hc : IsContainer c k)
    (has : as ∈ k.ids) (hat : (k.obj as).koType = .addressSpace) :
    Ends (elfSegments env c as l smi sizes) k fun _ ↦ Boots q root n k := by
  induction sizes generalizing k smi with
  | nil => exact Wp.pure (.refl (h.mono (Nat.le_add_left n _)))
  | cons size sizes ih =>
    have h0 : Inv q root 0 (segmentBytes size + (pgsize + (elfBytes sizes + n))) noResv k :=
      h.mono (by simp only [elfBytes, List.map_cons, List.sum_cons]; omega)
    refine Wp.bind ((segmentCreateEmbed_ends h0 hl hc).mono (fun _ k1 h1 ↦ ?_) fun _ _ _ ↦ trivial)
    refine wp_require (fun _ ↦ ?_) fun _ ↦ trivial
    have has1 := h1.kept.mem as has
    have hat1 := (h1.kept.type as has).trans hat
    refine Wp.bind ((kobjectSetNbytes_wp h1.inv has1 (fun _ ↦ ?_) fun _ hal ↦ ?_).mono
      (fun _ k2 ⟨h2, hr2⟩ ↦ ?_) fun _ _ _ ↦ trivial)
    · exact (show roundupPage pgsize = pgsize by decide).le.trans (Nat.le_add_left _ _)
    · rw [hat1] at hal
      cases hal
    have hb2 : Boots q root (elfBytes sizes + n) k k2 := by
      refine h1.trans ⟨h2, hr2.kept h1.inv.shape has1 (by rw [hat1]; decide),
        fun z _ ht ↦ hr2.same ?_⟩
      rintro rfl
      rw [hat1] at ht
      rcases ht with ht | ht <;> cases ht
    exact (ih (smi + 1) h2 (hb2.kept.isLabel hl) (hb2.kept.isContainer hc) (hb2.kept.mem as has)
      ((hb2.kept.type as has).trans hat)).mono (fun _ _ h3 ↦ hb2.trans h3) fun _ _ _ ↦ trivial

def initBytes (sizes : List Nat) : Nat :=
  4 * kobjDiskSize + pgsize + elfBytes (sizes ++ [4 * pgsize]) + jumpBytes

def EmbedBin.segments (prog : EmbedBin) : List Nat := prog.loads.toOption.getD []

theorem threadLoadElf_ends (prog : EmbedBin)
    (h : Inv q root 0 (initBytes prog.segments + n) noResv k) (hc : IsContainer c k) {objLabel : Nat}
    (hobj : IsLabel q objLabel k) (ht : IsThread t l k) (hl : IsLabel q l k)
    (hcl : IsLabel q cl k) :
    Ends (threadLoadElf env c t objLabel l cl prog) k fun _ ↦ Inv q root 0 n noResv := by
  unfold threadLoadElf
  refine wp_read (fun sizes hsizes ↦ ?_) fun _ _ ↦ trivial
  have hseg : prog.segments = sizes := by rw [EmbedBin.segments, hsizes]; rfl
  rw [hseg] at h
  have h0 : Inv q root 0 (kobjDiskSize + kobjDiskSize + (pgsize + (kobjDiskSize + kobjDiskSize +
      (elfBytes (sizes ++ [4 * pgsize]) + (jumpBytes + n))))) noResv k :=
    h.mono (by unfold initBytes; omega)
  refine Wp.bind ((newObject_ends h0 hobj (by decide)).mono (fun as k1 ⟨h1, hu, _, htot⟩ ↦ ?_)
    fun _ _ _ ↦ trivial)
  have hc1 := h1.kept.isContainer hc
  refine Wp.bind ((addref_wp h1.inv hc1.mem hc1.type hu.mem htot fun hct ↦ ?_).mono
    (fun _ k2 hp ↦ ?_) fun _ _ _ ↦ trivial)
  · rw [hu.type_eq] at hct
    cases hct
  have h2 := h1.put hc1 hp
  refine Wp.bind ((elfSegments_ends 0 _ h2.inv (h2.kept.isLabel hobj) (h2.kept.isContainer hc)
    (hp.2.1.mem as hu.mem) ((hp.2.1.type as hu.mem).trans hu.type_eq)).mono (fun _ k3 h3 ↦ ?_)
    fun _ _ _ ↦ trivial)
  have h4 := h2.trans h3
  exact threadJump_ends h4.inv (h4.isThread ht) (h4.kept.isLabel hl) (h4.kept.isLabel hcl)

def containerBytes (t : Nat) : Nat := 2 * kobjDiskSize + pgsize + t

/-- The segments of the program that the boot starts. -/
def initSegments (image : Image) : List Nat :=
  match embedBin "init" image with
  | .ok prog => prog.segments
  | .error _ => []

theorem threadCreateEmbed_ends (image : Image) {objLabel : Nat}
    (h : Inv q root 0 (containerBytes (2 ^ 32) + (3 * threadBytes + pgsize +
      (initBytes (initSegments image) + n))) noResv k)
    (hc : IsContainer c k) (hobj : IsLabel q objLabel k) (hl : IsLabel q l k)
    (hcl : IsLabel q cl k) (hn : q → 2 ^ 34 + initBytes (initSegments image) + n < 2 ^ 64) :
    Ends (threadCreateEmbed env c objLabel l cl image) k fun _ ↦ Inv q root 0 n noResv := by
  unfold threadCreateEmbed
  refine wp_read (fun prog hprog ↦ ?_) fun _ _ ↦ trivial
  rw [show initSegments image = prog.segments by rw [initSegments, hprog]] at h hn
  have h0 : Inv q root 0 (kobjDiskSize + kobjDiskSize + (pgsize + (2 ^ 32 + (2 * threadBytes +
      (pgsize + (threadBytes + (initBytes prog.segments + n))))))) noResv k :=
    h.mono (by unfold containerBytes; omega)
  refine Wp.bind ((bootContainer_ends h0 hobj hc (by decide) fun hq ↦ ?_).mono
    (fun tc k1 ⟨h1, htc⟩ ↦ ?_) fun _ _ _ ↦ trivial)
  · have h1 := hn hq
    unfold threadBytes kobjDiskSize pgsize
    omega
  refine Wp.bind ((threadAlloc_ends h1.inv (h1.kept.isLabel hl) (h1.kept.isLabel hcl)).mono
    (fun t k2 ⟨h2, ht, htot⟩ ↦ ?_) fun _ _ _ ↦ trivial)
  have htc2 := h2.kept.isContainer htc
  refine Wp.bind ((addref_wp h2.inv htc2.mem htc2.type ht.mem htot fun hct ↦ ?_).mono
    (fun _ k3 hp ↦ ?_) fun _ _ _ ↦ trivial)
  · rw [ht.type] at hct
    cases hct
  have h3 := (Boots.refl h2.inv).put htc2 hp
  have h4 := (h1.trans h2).trans h3
  exact threadLoadElf_ends prog h4.inv (h3.kept.isContainer htc2) (h4.kept.isLabel hobj)
    (h3.isThread ht) (h4.kept.isLabel hl) (h4.kept.isLabel hcl)

theorem Inv.pinRoot (h : Inv q 0 0 n noResv k) (hu : Unplaced .container p k) :
    Inv q p 0 n noResv (k.mapObj p Kobj.pinRoot) := by
  have hk := h.shape
  have h0 : ∀ z ∈ k.ids, z ≠ 0 := fun z hz he ↦ hk.zero_notMem (he ▸ hz)
  have hother : ∀ z, z ≠ p → (k.mapObj p Kobj.pinRoot).obj z = k.obj z := fun z hz ↦ by
    rw [k.mapObj_obj, if_neg hz]
  have hself : (k.mapObj p Kobj.pinRoot).obj p = Kobj.pinRoot (k.obj p) := by
    rw [k.mapObj_obj, if_pos rfl]
  have hobj : ∀ z, ((k.mapObj p Kobj.pinRoot).obj z).koType = (k.obj z).koType ∧
      ((k.mapObj p Kobj.pinRoot).obj z).koParent = (k.obj z).koParent ∧
      (k.mapObj p Kobj.pinRoot).held z = k.held z := by
    intro z
    unfold Store.held
    by_cases hz : z = p
    · rw [hz, hself]
      exact ⟨rfl, rfl, rfl⟩
    · rw [hother z hz]
      exact ⟨rfl, rfl, rfl⟩
  have hparent : (k.mapObj p Kobj.pinRoot).ctParent = k.ctParent := by
    funext z
    simp only [Store.ctParent, (hobj z).1, (hobj z).2.1]
  refine ⟨⟨⟨hk.zero_notMem, hk.threadSg_notMem, hk.encipher_lt, hk.encipher_inj, hk.fresh⟩,
    .inr hu.mem, fun a ha b hb ↦ ?_, fun a ha b hb ↦ ?_, fun a ha ↦ ?_, fun b hb ↦ ?_,
    fun b hb ↦ ?_, fun a ha ↦ ?_⟩, fun hq ↦ ?_⟩
  · rw [(hobj a).2.2] at hb
    exact hk.held_mem a ha b hb
  · rw [(hobj a).2.2] at hb
    rw [(hobj a).1, (hobj b).1]
    exact hk.held_type a ha b hb
  · rw [(hobj a).2.2]
    exact hk.not_self a ha
  · have href := hk.ref_eq b hb
    rw [if_neg (h0 b hb)] at href
    rw [refCount_congr fun a _ ↦ (hobj a).2.2]
    by_cases hbp : b = p
    · subst hbp
      rw [hself, if_pos rfl]
      exact congrArg (· + 1) href
    · rw [hother b hbp, if_neg hbp]
      exact href
  · rw [(hobj b).2.1, (hobj _).2.2]
    exact hk.parent_holds b hb
  · rw [hparent]
    exact hk.grounded a ha
  · have hb := h.books hq
    have hc : Charged 0 noResv (k.mapObj p Kobj.pinRoot) :=
      hb.charged.update_orphan hk hu.mem hu.ref_zero rfl (by show ctQuotaInf < _; decide)
        (hb.charged.size p hu.mem) (fun hi ↦ absurd rfl hi) fun hi ↦ absurd rfl hi
    refine ⟨fun z hz hzp _ ↦ ?_, ⟨fun _ ↦ ?_, hc.total_lt, hc.size, hc.balance, hc.within⟩,
      hb.room.1, fun z hz hi ↦ ?_⟩
    · rw [hother z hzp]
      exact hb.single z hz (h0 z hz) (h0 z hz)
    · unfold Store.total
      rw [hself]
      rfl
    · by_cases hzp : z = p
      · subst hzp
        unfold Store.total at hi
        rw [hself] at hi
        exact absurd rfl hi
      · unfold Store.total at hi ⊢
        rw [hother z hzp] at hi ⊢
        exact hb.room.2 z hz hi

theorem bootRoots_ends {objLabel : Nat}
    (h : Inv q 0 0 (3 * kobjDiskSize + (containerBytes ctQuotaInf + n)) noResv k)
    (hobj : IsLabel q objLabel k) (hn : q → n < 2 ^ 62) :
    Ends (bootRoots env objLabel) k fun rc k' ↦ ∃ root, Inv q root 0 n noResv k' ∧
      IsContainer rc k' ∧ IsLabel q objLabel k' := by
  have h0 : Inv q 0 0 (kobjDiskSize + (kobjDiskSize + kobjDiskSize + (kobjDiskSize + kobjDiskSize +
      (pgsize + (ctQuotaInf + n))))) noResv k := h.mono (by unfold containerBytes; omega)
  unfold bootRoots
  refine Wp.bind ((newLabel_ends h0).mono (fun rl k1 ⟨h1, hrl⟩ ↦ ?_) fun _ _ _ ↦ trivial)
  refine Wp.bind ((newObject_ends h1.inv hrl (by decide)).mono (fun rp k2 ⟨h2, hu, _, _⟩ ↦ ?_)
    fun _ _ _ ↦ trivial)
  refine wp_modify ?_
  have h3 := h2.inv.pinRoot hu
  have hne : ∀ z, (k2.obj z).koType = .label → z ≠ rp := fun z hz ↦ hu.ne hz (by decide)
  have hobj2 := (h1.trans h2).kept.isLabel hobj
  have hobj3 : IsLabel q objLabel (k2.mapObj rp pinRoot) := by
    have ho : (k2.mapObj rp pinRoot).obj objLabel = k2.obj objLabel := by
      rw [Store.mapObj_obj, if_neg (hne _ hobj2.type)]
    refine ⟨hobj2.mem, by rw [ho]; exact hobj2.type, fun hq ↦ ?_⟩
    unfold Store.total
    rw [ho]
    exact hobj2.total hq
  have hrp : IsContainer rp (k2.mapObj rp pinRoot) := by
    refine ⟨hu.mem, ?_⟩
    rw [Store.mapObj_obj, if_pos rfl]
    exact hu.type_eq
  refine (bootContainer_ends h3 hobj3 hrp (by decide) fun hq ↦ ?_).mono
    (fun rc k4 ⟨h4, hrc⟩ ↦ ⟨rp, h4.inv, hrc, h4.kept.isLabel hobj3⟩) fun _ _ _ ↦ trivial
  have := hn hq
  unfold ctQuotaInf pgsize
  omega

def bootBytes (image : Image) : Nat :=
  segmentsBytes (image.map (·.size)) + initBytes (initSegments image) + 2 ^ 36

/-- A cipher with which no id comes twice. -/
structure Unrepeated (encipher : Nat → Nat) : Prop where
  lt : ∀ n, n < 2 ^ 61 → encipher n < 2 ^ 61
  inj : ∀ m n, encipher m ≠ 0 → encipher m = encipher n → m = n

theorem Unrepeated.idsOk (he : Unrepeated encipher) : IdsOk (emptyStore encipher) where
  zero_notMem := Finset.notMem_empty 0
  threadSg_notMem := Finset.notMem_empty _
  encipher_lt := he.lt
  encipher_inj m n _ _ _ _ := he.inj m n
  fresh _ _ _ := Finset.notMem_empty _

theorem inv_emptyStore (he : Unrepeated encipher) (hn : q → n < 2 ^ 64) :
    Inv q 0 0 n noResv (emptyStore encipher) := by
  have hno : ∀ z, z ∉ (emptyStore encipher).ids := fun z ↦ Finset.notMem_empty z
  refine ⟨⟨he.idsOk, .inl rfl, ?_, ?_, ?_, ?_, ?_, ?_⟩,
    fun hq ↦ ⟨?_, ⟨fun h0 ↦ absurd h0 (hno 0), ?_, ?_, ?_, ?_⟩, hn hq, ?_⟩⟩ <;>
    exact fun z hz ↦ absurd hz (hno _)

theorem FreshId.inv {id : Nat} (hf : FreshId id k k') (h : Inv q root 0 n r k) :
    Inv q root 0 n r k' := by
  refine ⟨hf.shape h.shape, fun hq ↦ ?_⟩
  rw [hf.counter]
  exact ⟨(h.books hq).single, ⟨(h.books hq).charged.root_inf, (h.books hq).charged.total_lt,
    (h.books hq).charged.size, (h.books hq).charged.balance, (h.books hq).charged.within⟩,
    (h.books hq).room⟩

theorem bootInit_ends {rc : Nat} (image : Image)
    (h : Inv q root 0 (3 * kobjDiskSize + (containerBytes (2 ^ 32) + (3 * threadBytes + pgsize +
      (initBytes (initSegments image) + n)))) noResv k)
    (hc : IsContainer rc k) (hn : q → 2 ^ 34 + initBytes (initSegments image) + n < 2 ^ 64) :
    Ends (bootInit env rc image) k fun _ ↦ Inv q root 0 n noResv := by
  have h0 : Inv q root 0 (kobjDiskSize + (kobjDiskSize + (kobjDiskSize + (containerBytes (2 ^ 32) +
      (3 * threadBytes + pgsize + (initBytes (initSegments image) + n)))))) noResv k :=
    h.mono (by omega)
  unfold bootInit
  refine Wp.bind ((newLabel_ends h0).mono (fun thl k1 ⟨h1, ht⟩ ↦ ?_) fun _ _ _ ↦ trivial)
  refine Wp.bind ((newLabel_ends h1.inv).mono (fun obl k2 ⟨h2, ho⟩ ↦ ?_) fun _ _ _ ↦ trivial)
  refine Wp.bind ((newLabel_ends h2.inv).mono (fun thc k3 ⟨h3, hcl⟩ ↦ ?_) fun _ _ _ ↦ trivial)
  have h23 := h2.trans h3
  exact threadCreateEmbed_ends image h3.inv ((h1.trans h23).kept.isContainer hc)
    (h3.kept.isLabel ho) (h23.kept.isLabel ht) hcl hn

/-- The boot leaves a store in which all references are counted and, if the
embedded programs are not too large, all quota is accounted for. -/
theorem userBootstrap_ends (he : Unrepeated encipher) (image : Image)
    (hq : q → bootBytes image + n < 2 ^ 62) : Ends (userBootstrap env image) (emptyStore encipher)
      fun _ k ↦ ∃ root, Inv q root 0 n noResv k := by
  have h0 : Inv q 0 0 (kobjDiskSize + (3 * kobjDiskSize + (containerBytes ctQuotaInf +
      (kobjDiskSize + kobjDiskSize + (pgsize + (2 ^ 32 + (segmentsBytes (image.map (·.size)) +
      (3 * kobjDiskSize + (containerBytes (2 ^ 32) + (3 * threadBytes + pgsize +
      (initBytes (initSegments image) + n))))))))))) noResv (emptyStore encipher) :=
    inv_emptyStore he fun h ↦ by
      have := hq h
      unfold bootBytes at this
      unfold containerBytes threadBytes kobjDiskSize pgsize ctQuotaInf
      omega
  have hfew : q → segmentsBytes (image.map (·.size)) + initBytes (initSegments image) + n + 2 ^ 36 <
      2 ^ 62 := fun h ↦ (Nat.add_right_comm _ _ _).trans_lt (hq h)
  refine Wp.mapErr (Wp.bind ((handleAlloc_wp h0.shape).mono (fun _ k1 hf ↦ ?_)
    fun _ _ _ ↦ trivial))
  refine Wp.bind ((newLabel_ends (hf.inv h0)).mono (fun ol k2 ⟨h2, hol⟩ ↦ ?_) fun _ _ _ ↦ trivial)
  refine Wp.bind ((bootRoots_ends h2.inv hol fun h ↦ ?_).mono
    (fun rc k3 ⟨root, h3, hrc, hol3⟩ ↦ ?_) fun _ _ _ ↦ trivial)
  · have := hfew h
    unfold containerBytes threadBytes kobjDiskSize pgsize
    omega
  refine Wp.bind ((bootContainer_ends h3 hol3 hrc (by decide) fun h ↦ ?_).mono
    (fun fsc k4 ⟨h4, hfsc⟩ ↦ ?_) fun _ _ _ ↦ trivial)
  · have := hfew h
    unfold containerBytes threadBytes kobjDiskSize pgsize
    omega
  refine Wp.bind ((fsInit_ends _ h4.inv (h4.kept.isLabel hol3) hfsc).mono (fun _ k5 h5 ↦ ?_)
    fun _ _ _ ↦ trivial)
  refine (bootInit_ends _ h5.inv ((h4.trans h5).kept.isContainer hrc) fun h ↦ ?_).mono
    (fun _ k6 h6 ↦ ⟨root, h6⟩) fun _ _ _ ↦ trivial
  have := hfew h
  omega

theorem userBootstrap_inv {image : Image} (he : Unrepeated encipher)
    (hq : q → bootBytes image + n < 2 ^ 62)
    (hboot : userBootstrap env image (emptyStore encipher) = (.ok (), k)) :
    ∃ root, Inv q root 0 n noResv k := by
  have hw := (userBootstrap_ends he image hq : Ends (userBootstrap env image) _ _)
  unfold Ends Wp at hw
  rwa [hboot] at hw

end HiStar.Kobj
