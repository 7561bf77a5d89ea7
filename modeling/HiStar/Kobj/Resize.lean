import HiStar.Kobj.Labels

namespace HiStar.Kobj

open Lib Function

variable {q : Prop} {root e n m x y nbytes : Nat} {r : Nat → Nat} {k k' : Store} {env : Env}

theorem Shape.ne_root (hk : Shape root k) (hx : x ∈ k.ids) (hr : (k.obj x).koRef = 0) :
    x ≠ root := by
  rintro rfl
  have := hk.ref_eq x hx
  rw [if_pos rfl] at this
  omega

theorem Charged.update_orphan (h : Charged root r k) (hk : Shape root k) (hx : x ∈ k.ids)
    (hr : (k.obj x).koRef = 0) {f : Kobject → Kobject}
    (hheld : (f (k.obj x)).held = (k.obj x).held) (hlt : (f (k.obj x)).koQuotaTotal < 2 ^ 64)
    (hsize : (f (k.obj x)).base ≤ maxBase)
    (hbal : (f (k.obj x)).koQuotaTotal ≠ ctQuotaInf → (f (k.obj x)).koQuotaUsed =
      (f (k.obj x)).base + load k.total (k.held x) + r x)
    (hwithin : (f (k.obj x)).koQuotaTotal ≠ ctQuotaInf →
      (f (k.obj x)).koQuotaUsed ≤ (f (k.obj x)).koQuotaTotal) :
    Charged root r (k.mapObj x f) := by
  have hself : (k.mapObj x f).obj x = f (k.obj x) := by rw [k.mapObj_obj, if_pos rfl]
  have hother : ∀ z, z ≠ x → (k.mapObj x f).obj z = k.obj z := fun z hz ↦ by
    rw [k.mapObj_obj, if_neg hz]
  have htot : ∀ z, z ≠ x → (k.mapObj x f).total z = k.total z := fun z hz ↦ by
    unfold Store.total
    rw [hother z hz]
  -- nobody refers to `x`, so its total enters no other account
  have hload : ∀ z ∈ k.ids, load (k.mapObj x f).total ((k.mapObj x f).held z) =
      load k.total (k.held z) := by
    intro z hz
    have hz' : (k.mapObj x f).held z = k.held z := by
      unfold Store.held
      by_cases hzx : z = x
      · rw [hzx, hself, hheld]
      · rw [hother z hzx]
    rw [hz']
    refine load_congr fun a ha ↦ htot a ?_
    rintro rfl
    exact hk.not_held_of_ref_zero hx hr hz ha
  refine ⟨?_, ?_, ?_, ?_, ?_⟩
  · rw [htot root (hk.ne_root hx hr).symm]
    exact h.root_inf
  all_goals
    intro z (hz : z ∈ k.ids)
    by_cases hzx : z = x
  · subst hzx
    unfold Store.total
    rw [hself]
    exact hlt
  · rw [htot z hzx]
    exact h.total_lt z hz
  · subst hzx
    rw [hself]
    exact hsize
  · rw [hother z hzx]
    exact h.size z hz
  · subst hzx
    rw [hload z hz, hself]
    unfold Store.total
    rw [hself]
    exact hbal
  · rw [hload z hz, hother z hzx, htot z hzx]
    exact h.balance z hz
  · subst hzx
    unfold Store.total
    rw [hself]
    exact hwithin
  · rw [hother z hzx, htot z hzx]
    exact h.within z hz

theorem roundupPage_lt (a : Nat) : roundupPage a < 2 ^ 64 := by
  have := add64_lt a (pgsize - 1)
  have := Nat.div_mul_le_self (add64 a (pgsize - 1)) pgsize
  unfold roundupPage
  omega

theorem roundupPage_zero : roundupPage 0 = 0 := by decide

theorem base_eq (o : Kobject) : o.base = kobjDiskSize + roundupPage o.koNbytes := by
  unfold Kobject.base Kobject.npages
  rw [Nat.mul_comm, npagesFor_mul]

theorem quotaDiff_eq (o : Kobject) (nbytes : Nat) :
    quotaDiff o nbytes = sub64 (roundupPage nbytes) (roundupPage o.koNbytes) := by
  unfold quotaDiff Kobject.npages
  rw [npagesFor_mul, npagesFor_mul]

def setNbytes (nbytes : Nat) (o : Kobject) : Kobject := { o with koNbytes := nbytes }

structure Resized (q : Prop) (x nbytes : Nat) (k k' : Store) : Prop
    extends QuotaOnly (k.mapObj x (setNbytes nbytes)) k' where
  total_other : q → ∀ z, ¬ Above k.up x z → k'.total z = k.total z
  total_self : q → k'.total x ≤ k.total x + roundupPage nbytes

theorem Charged.setSize (h : Charged root r k) (hx : x ∈ k.ids)
    (hmax : npagesFor nbytes ≤ pagetreeMaxpages)
    (hroom : k.total x ≠ ctQuotaInf →
      (k.obj x).koQuotaUsed + roundupPage nbytes ≤ k.total x + roundupPage (k.obj x).koNbytes) :
    Charged root r (k.mapObj x (setSize nbytes)) := by
  have hself : (k.mapObj x (Kobj.setSize nbytes)).obj x = Kobj.setSize nbytes (k.obj x) := by
    rw [k.mapObj_obj, if_pos rfl]
  have hother : ∀ z, z ≠ x → (k.mapObj x (Kobj.setSize nbytes)).obj z = k.obj z := fun z hz ↦ by
    rw [k.mapObj_obj, if_neg hz]
  have hused : k.total x ≠ ctQuotaInf →
      add64 (k.obj x).koQuotaUsed (quotaDiff (k.obj x) nbytes) + roundupPage (k.obj x).koNbytes =
        (k.obj x).koQuotaUsed + roundupPage nbytes := by
    intro hi
    have h1 := h.balance x hx hi
    have h2 := hroom hi
    have h3 := h.total_lt x hx
    have h4 := roundupPage_lt nbytes
    have h5 := roundupPage_lt (k.obj x).koNbytes
    have h6 := h.within x hx hi
    rw [base_eq] at h1
    rw [quotaDiff_eq]
    unfold add64 sub64
    omega
  refine h.congr rfl (fun z ↦ ?_) (total_mapObj fun _ ↦ rfl) (fun z hz hi ↦ ?_) (fun z hz hi ↦ ?_)
    fun z hz ↦ ?_
  · unfold Store.held
    by_cases hzx : z = x
    · rw [hzx, hself]
      rfl
    · rw [hother z hzx]
  · by_cases hzx : z = x
    · subst hzx
      rw [hself, base_eq, base_eq]
      have := hused hi
      simp only [Kobj.setSize]
      omega
    · rw [hother z hzx]
  · by_cases hzx : z = x
    · subst hzx
      rw [hself]
      have := hused hi
      have := hroom hi
      simp only [Kobj.setSize]
      omega
    · rw [hother z hzx]
      exact h.within z hz hi
  · by_cases hzx : z = x
    · rw [hzx, hself]
      exact Nat.add_le_add_left (Nat.mul_le_mul_left pgsize hmax) kobjDiskSize
    · rw [hother z hzx]
      exact h.size z hz

theorem sameRefs_mapObj {f : Kobject → Kobject}
    (hf : ∀ o, (f o).koType = o.koType ∧ (f o).koRef = o.koRef ∧ (f o).koParent = o.koParent ∧
      (f o).koFixedQuota = o.koFixedQuota)
    (hheld : (f (k.obj x)).held = (k.obj x).held) : SameRefs k (k.mapObj x f) := by
  have hcase : ∀ z, (k.mapObj x f).obj z = f (k.obj z) ∨ (k.mapObj x f).obj z = k.obj z := by
    intro z
    rw [k.mapObj_obj]
    split
    · exact .inl rfl
    · exact .inr rfl
  refine ⟨⟨rfl, rfl, rfl, fun z ↦ ?_, fun z ↦ ?_⟩, fun z ↦ ?_, fun z ↦ ?_, fun z ↦ ?_⟩
  · rcases hcase z with h | h <;> rw [h]
    exact (hf _).1
  · rcases hcase z with h | h <;> rw [h]
    exact (hf _).2.2.2
  · unfold Store.held
    rw [k.mapObj_obj]
    split
    next hz => rw [hz, hheld]
    next => rfl
  · rcases hcase z with h | h <;> rw [h]
    exact (hf _).2.1
  · rcases hcase z with h | h <;> rw [h]
    exact (hf _).2.2.1

theorem sameRefs_setSize (nbytes : Nat) : SameRefs k (k.mapObj x (setSize nbytes)) :=
  sameRefs_mapObj (fun _ ↦ ⟨rfl, rfl, rfl, rfl⟩) rfl

theorem Resized.sameRefs (h : Resized q x nbytes k k') : SameRefs k k' :=
  (sameRefs_mapObj (f := setNbytes nbytes) (fun _ ↦ ⟨rfl, rfl, rfl, rfl⟩) rfl).trans
    h.toQuotaOnly.sameRefs

theorem Resized.same (h : Resized q x nbytes k k') {z : Nat} (hz : z ≠ x) : Same k k' z := by
  have := h.obj z
  rw [Store.mapObj_obj, if_neg hz] at this
  exact ⟨_, _, _, _, this⟩

theorem finishResize {k1 : Store} (hqo : QuotaOnly k k1) (h : Inv q root 0 n r k1) (hx : x ∈ k.ids)
    (hmax : npagesFor nbytes ≤ pagetreeMaxpages)
    (hroom : q → k1.total x ≠ ctQuotaInf →
      (k1.obj x).koQuotaUsed + roundupPage nbytes ≤ k1.total x + roundupPage (k.obj x).koNbytes)
    (hto : q → ∀ z, ¬ Above k.up x z → k1.total z = k.total z)
    (hts : q → k1.total x ≤ k.total x + roundupPage nbytes) :
    Inv q root 0 n r (k1.mapObj x (setSize nbytes)) ∧
      Resized q x nbytes k (k1.mapObj x (setSize nbytes)) := by
  have hnb : (k1.obj x).koNbytes = (k.obj x).koNbytes := by rw [hqo.obj x]
  have htot : ∀ z, (k1.mapObj x (setSize nbytes)).total z = k1.total z := total_mapObj fun _ ↦ rfl
  refine ⟨⟨h.shape.of_sameRefs (sameRefs_setSize nbytes), fun hq ↦ ?_⟩,
    ⟨hqo.ids, hqo.curThread, hqo.counter, hqo.encipher, fun z ↦ ?_⟩, fun hq z hz ↦ ?_,
    fun hq ↦ ?_⟩
  · have hb := h.books hq
    refine ⟨hb.single.of_sameRefs (sameRefs_setSize nbytes), ?_, hb.room.of_total rfl htot⟩
    exact hb.charged.setSize (by rwa [hqo.ids]) hmax (hnb ▸ hroom hq)
  · simp only [Store.mapObj_obj]
    by_cases hz : z = x
    · rw [if_pos hz, if_pos hz, hqo.obj z]
      rfl
    · rw [if_neg hz, if_neg hz]
      exact hqo.obj z
  · rw [htot, hto hq z hz]
  · rw [htot]
    exact hts hq

theorem kobjectSetNbytes_wp (h : Inv q root 0 (m + n) r k) (hx : x ∈ k.ids)
    (hm : q → roundupPage nbytes ≤ roundupPage (k.obj x).koNbytes + m)
    (hl : q → (k.obj x).koType = .label → (k.obj x).koRef = 0) :
    Wp (kobjectSetNbytes env x nbytes) k
      (fun _ k' ↦ Inv q root 0 n r k' ∧ Resized q x nbytes k k')
      (Fails fun k' ↦ Inv q root 0 n r k' ∧ QuotaOnly k k') := by
  have hinv : Inv q root 0 n r k := h.mono (Nat.le_add_left n m)
  unfold kobjectSetNbytes
  refine wp_deref hx (wp_require (fun hmax ↦ ?_) fun _ ↦ .inr ⟨hinv, .refl k⟩)
  have hmax := of_decide_eq_true hmax
  have hnew := roundupPage_lt nbytes
  have hold := roundupPage_lt (k.obj x).koNbytes
  refine Wp.bind (Wp.when (fun hb ↦ ?_) fun hb ↦ ?_)
  · simp only [needsQuota, Bool.and_eq_true, decide_eq_true_eq] at hb
    obtain ⟨⟨⟨hpos, hlt⟩, hi⟩, hneed⟩ := hb
    rw [quotaDiff_eq] at hpos hlt hneed
    -- the object shrinks if its old size is the larger one, and then nothing is borrowed
    have hgrow : q → roundupPage (k.obj x).koNbytes ≤ roundupPage nbytes := by
      intro hq
      have hsize := (h.books hq).charged.size x hx
      rw [base_eq] at hsize
      unfold maxBase pagetreeMaxpages pgsize at hsize
      unfold sub64 at hlt
      omega
    have hdiff : q → quotaDiff (k.obj x) nbytes =
        roundupPage nbytes - roundupPage (k.obj x).koNbytes := fun hq ↦ by
      rw [quotaDiff_eq, sub64_eq hnew (hgrow hq)]
    have hinv' : Inv q root 0 (quotaDiff (k.obj x) nbytes + n) r k :=
      ⟨h.shape, fun hq ↦ (h.mono (by have := hdiff hq; have := hm hq; omega)).books hq⟩
    refine Wp.mapErr ((kobjectBorrowParentQuota_wp hinv' hx (fun _ ↦ hi) hl).mono
      (fun _ k1 hL ↦ ?_) fun e k1 hE ↦ .inr ⟨hE.inv, hE.toQuotaOnly⟩)
    refine wp_require (fun _ ↦ ?_) fun _ ↦ .inr ⟨hL.inv, hL.toQuotaOnly⟩
    refine wp_lift (fun _ _ ↦ Wp.modify ?_) fun _ ↦ .inr ⟨hL.inv, hL.toQuotaOnly⟩
    refine finishResize hL.toQuotaOnly hL.inv hx hmax (fun hq hi' ↦ ?_) hL.total_other fun hq ↦ ?_
    · have h1 := hL.total_self hq
      have h2 := hL.used_self hq
      have h3 := hdiff hq
      have h4 := hgrow hq
      have h5 := (h.books hq).charged.within x hx hi
      omega
    · have h1 := hL.total_self hq
      have h3 := hdiff hq
      omega
  · refine wp_require (fun _ ↦ ?_) fun _ ↦ .inr ⟨hinv, .refl k⟩
    refine wp_lift (fun _ _ ↦ Wp.modify ?_) fun _ ↦ .inr ⟨hinv, .refl k⟩
    refine finishResize (.refl k) hinv hx hmax (fun hq hi ↦ ?_) (fun _ _ _ ↦ rfl)
      fun _ ↦ Nat.le_add_right _ _
    have hw := (h.books hq).charged.within x hx hi
    have hlt := (h.books hq).charged.total_lt x hx
    have hav := (h.books hq).charged.avail hx hi
    by_cases hgrow : roundupPage nbytes ≤ roundupPage (k.obj x).koNbytes
    · omega
    · have hi' : (k.obj x).koQuotaTotal ≠ ctQuotaInf := hi
      have hr := hm hq
      have hmax' : roundupPage nbytes ≤ pgsize * pagetreeMaxpages := by
        rw [← npagesFor_mul, Nat.mul_comm]
        exact Nat.mul_le_mul_left pgsize hmax
      unfold pagetreeMaxpages pgsize at hmax'
      have hdiff : quotaDiff (k.obj x) nbytes =
          roundupPage nbytes - roundupPage (k.obj x).koNbytes := by
        rw [quotaDiff_eq, sub64_eq hnew (by omega)]
      simp only [needsQuota, hdiff, Bool.and_eq_false_iff, decide_eq_false_iff_not] at hb
      unfold quotaAvail at hav
      rcases hb with (hb | hb) | hb
      · omega
      · exact absurd hi' hb
      · omega

end HiStar.Kobj
