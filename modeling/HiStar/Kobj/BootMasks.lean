import HiStar.Kobj.Restrict

namespace HiStar.Kobj

open Lib Function

variable {c ko t : Nat} {k k' : Store} {env : Env} {encipher : Nat → Nat}

def Open (c : Nat) (k : Store) : Prop :=
  c ∈ k.ids ∧ ∀ ty, (k.obj c).ctAvoidTypes ty = false

theorem Open.extends (h : Open c k) (he : Extends k k') : Open c k' :=
  ⟨he.mem c h.1, fun ty ↦ by rw [he.avoid c h.1]; exact h.2 ty⟩

theorem Open.maskKept (h : Open c k) : MaskKept k c ko := fun _ ty hty ↦ by
  rw [h.2 ty] at hty
  cases hty

theorem emptyStore_restricted (he : Unrepeated encipher) : Restricted (emptyStore encipher) where
  toIdsOk := he.idsOk
  admits _ _ hy := absurd hy.1 (Finset.notMem_empty _)
  not_next _ _ hy := absurd hy.1 (Finset.notMem_empty _)

theorem Restricted.skipIds (h : Restricted k) {n : Nat} (hn : k.handleCounter ≤ n) :
    Extends k { k with handleCounter := n } where
  toIdsOk := h.toIdsOk.advance hn
  admits c y hy := (h.admits c y hy).of_same rfl rfl rfl
  not_next c y hy j hj := h.not_next c y hy j (hn.trans hj)
  mem _ hz := hz
  type _ _ := rfl
  avoid _ _ := rfl

theorem handleAlloc_skips (h : Restricted k) : Grows handleAlloc k fun _ _ ↦ True := by
  unfold Grows Wp handleAlloc
  rcases ha : handleAllocFrom k.bf61Encipher (2 ^ 61 - k.handleCounter) k.handleCounter with
    e | ⟨id, c'⟩
  · exact h
  · obtain ⟨d, h1, rfl, -, -, -⟩ := handleAllocFrom_ok ha
    exact ⟨h.skipIds (by omega), trivial⟩

theorem bootContainer_grows (h : Restricted k) (hp : Open c k) (l : Nat)
    (avoid : KobjType → Bool) (q : Nat) : Grows (bootContainer env c l avoid q) k
      fun ct k' ↦ ct ∈ k'.ids ∧ (k'.obj ct).ctAvoidTypes = avoid := by
  refine Wp.seq (kobjectAlloc_grows h _ _ _) fun ct k1 ⟨h1, hn, hf⟩ ↦ ?_
  refine wp_modify ?_
  set k2 := k1.mapObj ct (setTotal avoid q) with hk2
  have hobj : ∀ z ∈ k.ids, k2.obj z = k1.obj z := fun z hz ↦ by
    rw [hk2, Store.mapObj_obj, if_neg (ne_of_mem_of_not_mem hz hn)]
  have h2 : Extends k k2 := ⟨hf.setMask h1.toRestricted fun _ ↦ rfl, h1.mem,
    fun z hz ↦ by rw [hobj z hz, h1.type z hz], fun z hz ↦ by rw [hobj z hz, h1.avoid z hz]⟩
  have hct : (k2.obj ct).ctAvoidTypes = avoid := by rw [hk2, Store.mapObj_obj, if_pos rfl]; rfl
  have hput : Grows (containerPut env c ct 0) k2 fun _ _ ↦ True :=
    containerPut_grows h2.toRestricted (hp.extends h2).maskKept
  refine Wp.seq hput fun _ k3 ⟨h3, _⟩ ↦ Wp.pure ⟨h2.trans h3, ?_, ?_⟩
  · exact h3.mem ct hf.mem
  · rw [h3.avoid ct hf.mem, hct]

theorem segmentCreateEmbed_grows (h : Restricted k) (l size : Nat) :
    Grows (segmentCreateEmbed env c l size) k fun _ _ ↦ True := by
  refine .bind (kobjectAlloc_grows h _ _ _) fun sg k1 h1 ⟨_, hf⟩ ↦ ?_
  refine .bind (.of_quiet h1.toRestricted) fun _ k2 h2 hc ↦ ?_
  exact containerPut_grows h2.toRestricted ((hf.of_calm hc).maskKept (by decide))

theorem fsInit_grows (h : Restricted k) (l : Nat) (sizes : List Nat) :
    Grows (fsInit env c l sizes) k fun _ _ ↦ True := by
  induction sizes generalizing k with
  | nil => exact .pure h trivial
  | cons size sizes ih =>
    exact .bind (segmentCreateEmbed_grows h l size) fun _ _ h1 _ ↦ ih h1.toRestricted

theorem threadAlloc_grows (h : Restricted k) (tracking clearance : Nat) :
    Grows (threadAlloc env tracking clearance) k fun t k' ↦ (k'.obj t).koType = .thread := by
  refine .bind (kobjectAlloc_grows h _ _ _) fun t k1 h1 ⟨_, hf⟩ ↦ ?_
  refine .bind (kobjectAlloc_grows h1.toRestricted _ _ _) fun sg k2 h2 _ ↦ ?_
  have ht : (k2.obj t).koType = .thread := (h2.type t hf.mem).trans hf.type_eq
  refine .bind (.of_quiet h2.toRestricted) fun _ k3 h3 hc3 ↦ ?_
  refine .bind (.of_quiet h3.toRestricted) fun _ k4 h4 hc4 ↦ ?_
  refine .bind (.of_quiet h4.toRestricted) fun _ k5 h5 hc5 ↦ ?_
  exact .pure h5.toRestricted (((hc3.trans hc4).trans hc5).type t ▸ ht)

theorem threadJump_grows (h : Restricted k) (label clearance : Nat) :
    Grows (threadJump env t label clearance) k fun _ _ ↦ True := by
  refine .read h fun _ _ ↦ ?_
  refine .bind (.of_quiet h) fun qr k1 h1 _ ↦ ?_
  refine .bind (.onError (threadChangeLabel_grows h1.toRestricted) fun k2 h2 ↦ ?_)
    fun _ k3 h3 _ ↦ ?_
  · exact Wp.imp (Grows.of_quiet h2) fun _ _ h4 ↦ h4.1.toRestricted
  · exact .bind (.of_quiet h3.toRestricted) fun _ _ h4 _ ↦
      .pure h4.toRestricted trivial

theorem elfSegments_grows (h : Restricted k) (as l smi : Nat) (sizes : List Nat) :
    Grows (elfSegments env c as l smi sizes) k fun _ _ ↦ True := by
  induction sizes generalizing k smi with
  | nil => exact .pure h trivial
  | cons size sizes ih =>
    refine .bind (segmentCreateEmbed_grows h l size) fun _ _ h1 _ ↦ ?_
    refine .require h1.toRestricted fun _ ↦ ?_
    exact .bind (.of_quiet h1.toRestricted) fun _ _ h2 _ ↦
      ih h2.toRestricted (smi + 1)

theorem threadLoadElf_grows (h : Restricted k) (objLabel thLabel thClearance : Nat)
    (prog : EmbedBin) :
    Grows (threadLoadElf env c t objLabel thLabel thClearance prog) k fun _ _ ↦ True := by
  refine .lift h fun segments _ ↦ ?_
  refine .bind (kobjectAlloc_grows h _ _ _) fun as k1 h1 ⟨_, hf⟩ ↦ ?_
  refine .bind (containerPut_grows h1.toRestricted (hf.maskKept (by decide))) fun _ _ h2 _ ↦ ?_
  refine .bind (elfSegments_grows h2.toRestricted _ _ _ _) fun _ _ h3 _ ↦ ?_
  exact threadJump_grows h3.toRestricted thLabel thClearance

theorem threadCreateEmbed_grows (h : Restricted k) (hc : Open c k)
    (objLabel thLabel thClearance : Nat) (image : Image) :
    Grows (threadCreateEmbed env c objLabel thLabel thClearance image) k fun _ _ ↦ True := by
  refine .lift h fun prog _ ↦ ?_
  refine .bind (bootContainer_grows h hc _ _ _) fun tc k1 h1 _ ↦ ?_
  refine .bind (threadAlloc_grows h1.toRestricted _ _) fun t k2 h2 ht ↦ ?_
  have hm : MaskKept k2 tc t := fun hct ↦ by
    rw [ht] at hct
    cases hct
  refine .bind (containerPut_grows h2.toRestricted hm) fun _ _ h3 _ ↦ ?_
  exact threadLoadElf_grows h3.toRestricted objLabel thLabel thClearance prog

theorem bootRoots_grows (h : Restricted k) (objLabel : Nat) :
    Grows (bootRoots env objLabel) k Open := by
  refine .bind (kobjectAlloc_grows h _ _ _) fun _ k1 h1 _ ↦ ?_
  refine .bind (kobjectAlloc_grows h1.toRestricted _ _ _) fun rp k2 h2 ⟨_, hf⟩ ↦ ?_
  refine .bind (.of_quiet h2.toRestricted) fun _ k3 h3 hc ↦ ?_
  have hopen : Open rp k3 := ⟨(hf.of_calm hc).mem, (hf.of_calm hc).open_mask⟩
  exact (bootContainer_grows h3.toRestricted hopen _ _ _).mono fun rc k4 _ ⟨hm, ha⟩ ↦
    ⟨hm, fun ty ↦ by rw [ha]⟩

theorem bootInit_grows (h : Restricted k) (hc : Open c k) (image : Image) :
    Grows (bootInit env c image) k fun _ _ ↦ True := by
  refine .bind (kobjectAlloc_grows h _ _ _) fun _ k1 h1 _ ↦ ?_
  refine .bind (kobjectAlloc_grows h1.toRestricted _ _ _) fun _ k2 h2 _ ↦ ?_
  refine .bind (kobjectAlloc_grows h2.toRestricted _ _ _) fun _ k3 h3 _ ↦ ?_
  exact threadCreateEmbed_grows h3.toRestricted (((hc.extends h1).extends h2).extends h3) _ _ _ _

theorem userBootstrap_restricted {image : Image} (he : Unrepeated encipher)
    (h : userBootstrap env image (emptyStore encipher) = (.ok (), k)) : Restricted k := by
  have hb : Grows (userBootstrap env image) (emptyStore encipher) fun _ _ ↦ True := by
    refine .mapErr ?_
    refine .bind (handleAlloc_skips (emptyStore_restricted he)) fun _ k1 h1 _ ↦ ?_
    refine .bind (kobjectAlloc_grows h1.toRestricted _ _ _) fun _ k2 h2 _ ↦ ?_
    refine .bind (bootRoots_grows h2.toRestricted _) fun rc k3 h3 hrc ↦ ?_
    refine .bind (bootContainer_grows h3.toRestricted hrc _ _ _) fun _ k4 h4 _ ↦ ?_
    refine .bind (fsInit_grows h4.toRestricted _ _) fun _ k5 h5 _ ↦ ?_
    exact bootInit_grows h5.toRestricted ((hrc.extends h4).extends h5) _
  exact (Wp.ok hb h).1.toRestricted

end HiStar.Kobj
