import HiStar.Kobj.Calm

namespace HiStar.Kobj

open Lib Function

variable {α β : Type} {c x y : Nat} {k k' k'' : Store} {env : Env}

def Contains (k : Store) (c y : Nat) : Prop :=
  c ∈ k.ids ∧ (k.obj c).koType = .container ∧ Slotted c y k

structure Admits (k : Store) (c y : Nat) : Prop where
  type : (k.obj c).ctAvoidTypes (k.obj y).koType = false
  inherits : (k.obj y).koType = .container →
    ∀ ty, (k.obj c).ctAvoidTypes ty = true → (k.obj y).ctAvoidTypes ty = true

structure Restricted (k : Store) : Prop extends IdsOk k where
  admits : ∀ c y, Contains k c y → Admits k c y
  not_next : ∀ c y, Contains k c y →
    ∀ n, k.handleCounter ≤ n → n < 2 ^ 61 → k.bf61Encipher n ≠ y

theorem Calm.contains (h : Calm k k') (hc : Contains k' c y) : Contains k c y :=
  ⟨h.ids ▸ hc.1, (h.type c).symm.trans hc.2.1, h.slots c y hc.2.2⟩

theorem Admits.of_same (h : Admits k c y) (hc : (k'.obj c).ctAvoidTypes = (k.obj c).ctAvoidTypes)
    (hy : (k'.obj y).ctAvoidTypes = (k.obj y).ctAvoidTypes)
    (ht : (k'.obj y).koType = (k.obj y).koType) : Admits k' c y := by
  constructor
  · rw [hc, ht]
    exact h.type
  · rw [hc, hy, ht]
    exact h.inherits

namespace Restricted

theorem of_calm (h : Restricted k) (hc : Calm k k') : Restricted k' where
  zero_notMem := by rw [hc.ids]; exact h.zero_notMem
  threadSg_notMem := by rw [hc.ids]; exact h.threadSg_notMem
  encipher_lt := by rw [hc.encipher]; exact h.encipher_lt
  encipher_inj := by rw [hc.encipher, hc.counter]; exact h.encipher_inj
  fresh := by rw [hc.encipher, hc.counter, hc.ids]; exact h.fresh
  admits c y hy :=
    (h.admits c y (hc.contains hy)).of_same (hc.avoid c) (hc.avoid y) (hc.type y)
  not_next c y hy := by
    rw [hc.encipher, hc.counter]
    exact h.not_next c y (hc.contains hy)

theorem setCurThread (h : Restricted k) (t : Nat) : Restricted { k with curThread := t } :=
  h.of_calm ⟨rfl, rfl, rfl, fun _ ↦ rfl, fun _ ↦ rfl, fun _ _ hy ↦ hy⟩

theorem removeObj (h : Restricted k) (x : Nat) : Restricted (removeObj x k) where
  zero_notMem hm := h.zero_notMem (Finset.mem_of_mem_erase hm)
  threadSg_notMem hm := h.threadSg_notMem (Finset.mem_of_mem_erase hm)
  encipher_lt := h.encipher_lt
  encipher_inj := h.encipher_inj
  fresh n hn hlt hm := h.fresh n hn hlt (Finset.mem_of_mem_erase hm)
  admits c y hy := by
    obtain ⟨ht, hi⟩ := h.admits c y ⟨Finset.mem_of_mem_erase hy.1, hy.2⟩
    exact ⟨ht, hi⟩
  not_next c y hy := h.not_next c y ⟨Finset.mem_of_mem_erase hy.1, hy.2⟩

theorem mapObj (h : Restricted k) {f : Kobject → Kobject} (hin : ∀ c, ¬ Contains k c x)
    (hout : ∀ y, ¬ Contains (k.mapObj x f) x y) : Restricted (k.mapObj x f) := by
  have hobj : ∀ z, z ≠ x → (k.mapObj x f).obj z = k.obj z := fun z hz ↦ by
    rw [Store.mapObj_obj, if_neg hz]
  have hold : ∀ c y, Contains (k.mapObj x f) c y → c ≠ x ∧ y ≠ x ∧ Contains k c y := by
    intro c y hy
    have hc : c ≠ x := by
      rintro rfl
      exact hout y hy
    have hy' : Contains k c y := by
      obtain ⟨hm, ht, hs⟩ := hy
      unfold Slotted at hs
      rw [hobj c hc] at ht hs
      exact ⟨hm, ht, hs⟩
    refine ⟨hc, ?_, hy'⟩
    rintro rfl
    exact hin c hy'
  refine ⟨⟨h.zero_notMem, h.threadSg_notMem, h.encipher_lt, h.encipher_inj, h.fresh⟩,
    fun c y hy ↦ ?_, fun c y hy ↦ h.not_next c y (hold c y hy).2.2⟩
  obtain ⟨hc, hyx, hy'⟩ := hold c y hy
  exact (h.admits c y hy').of_same (by rw [hobj c hc]) (by rw [hobj y hyx]) (by rw [hobj y hyx])

end Restricted

structure Extends (k k' : Store) : Prop extends Restricted k' where
  mem : ∀ z ∈ k.ids, z ∈ k'.ids
  type : ∀ z ∈ k.ids, (k'.obj z).koType = (k.obj z).koType
  avoid : ∀ z ∈ k.ids, (k'.obj z).ctAvoidTypes = (k.obj z).ctAvoidTypes

theorem Extends.trans (h : Extends k k') (h' : Extends k' k'') : Extends k k'' where
  toRestricted := h'.toRestricted
  mem z hz := h'.mem z (h.mem z hz)
  type z hz := (h'.type z (h.mem z hz)).trans (h.type z hz)
  avoid z hz := (h'.avoid z (h.mem z hz)).trans (h.avoid z hz)

theorem Calm.extends (h : Calm k k') (hk : Restricted k) : Extends k k' :=
  ⟨hk.of_calm h, fun _ hz ↦ h.ids ▸ hz, fun z _ ↦ h.type z, fun z _ ↦ h.avoid z⟩

theorem Restricted.setSlot (h : Restricted k) {i n : Nat} (hy : y ∈ k.ids) (ha : Admits k c y) :
    Extends k (k.mapObj c (Kobj.setSlot i ⟨y, n⟩)) := by
  have hsame : ∀ z, ((k.mapObj c (Kobj.setSlot i ⟨y, n⟩)).obj z).koType = (k.obj z).koType ∧
      ((k.mapObj c (Kobj.setSlot i ⟨y, n⟩)).obj z).ctAvoidTypes = (k.obj z).ctAvoidTypes := by
    intro z
    rw [Store.mapObj_obj]
    split <;> exact ⟨rfl, rfl⟩
  have hold : ∀ c' z, Contains (k.mapObj c (Kobj.setSlot i ⟨y, n⟩)) c' z →
      Contains k c' z ∨ c' = c ∧ z = y := by
    rintro c' z ⟨hm, ht, cs, hcs, rfl, hr⟩
    rw [(hsame c').1] at ht
    rw [Store.mapObj_obj] at hcs
    split at hcs
    next hc =>
      subst hc
      rcases List.mem_or_eq_of_mem_set hcs with hcs | rfl
      · exact .inl ⟨hm, ht, cs, hcs, rfl, hr⟩
      · exact .inr ⟨rfl, rfl⟩
    next => exact .inl ⟨hm, ht, cs, hcs, rfl, hr⟩
  refine ⟨⟨⟨h.zero_notMem, h.threadSg_notMem, h.encipher_lt, h.encipher_inj, h.fresh⟩,
    fun c' z hz ↦ ?_, fun c' z hz j hj hlt ↦ ?_⟩, fun _ hz ↦ hz, fun z _ ↦ (hsame z).1,
    fun z _ ↦ (hsame z).2⟩
  · refine Admits.of_same ?_ (hsame c').2 (hsame z).2 (hsame z).1
    rcases hold c' z hz with hz | ⟨rfl, rfl⟩
    · exact h.admits c' z hz
    · exact ha
  · rcases hold c' z hz with hz | ⟨rfl, rfl⟩
    · exact h.not_next c' z hz j hj hlt
    · exact fun he ↦ h.fresh j hj hlt (he ▸ hy)

/-- Run from `k`, the function keeps the containers restricted, and ends in `Q`
if it succeeds. -/
def Grows (f : Sys α) (k : Store) (Q : α → Store → Prop) : Prop :=
  Wp f k (fun a k' ↦ Extends k k' ∧ Q a k') fun _ ↦ Restricted

namespace Grows

variable {f : Sys α} {g : α → Sys β} {Q : α → Store → Prop} {R : β → Store → Prop}

theorem bind (hf : Grows f k Q) (hg : ∀ a k', Extends k k' → Q a k' → Grows (g a) k' R) :
    Grows (f >>= g) k R :=
  Wp.seq hf fun a k' ⟨he, hq⟩ ↦ Wp.mono (hg a k' he hq)
    (fun _ _ ⟨he', hr⟩ ↦ ⟨he.trans he', hr⟩) fun _ _ h ↦ h

theorem mono {Q' : α → Store → Prop} (h : Grows f k Q)
    (hq : ∀ a k', Extends k k' → Q a k' → Q' a k') : Grows f k Q' :=
  Wp.imp h fun a k' ⟨he, hQ⟩ ↦ ⟨he, hq a k' he hQ⟩

theorem of_quiet (h : Restricted k) [hf : Quietly f] : Grows f k fun _ ↦ Calm k := by
  have hc := hf.rel k
  unfold Grows Wp
  rcases hk : f k with ⟨e | a, k'⟩ <;> rw [hk] at hc
  · exact h.of_calm hc
  · exact ⟨hc.extends h, hc⟩

theorem pure (h : Restricted k) {a : α} (hq : Q a k) : Grows (Pure.pure a) k Q :=
  ⟨(Calm.refl k).extends h, hq⟩

theorem fail (h : Restricted k) {e : Errno} : Grows (Exec.fail e) k Q := h

theorem read (h : Restricted k) {r : Store → Except Errno α}
    (hg : ∀ a, r k = .ok a → Grows (g a) k R) : Grows (Exec.read r >>= g) k R := by
  unfold Grows Wp at *
  rw [bind_apply, read_apply]
  rcases hr : r k with e | a
  · exact h
  · exact hg a hr

theorem lift (h : Restricted k) {r : Except Errno α}
    (hg : ∀ a, r = .ok a → Grows (g a) k R) : Grows (Exec.lift r >>= g) k R := read h hg

theorem deref (h : Restricted k) {g : Kobject → Sys β}
    (hg : x ∈ k.ids → Grows (g (k.obj x)) k R) : Grows (Kobj.deref x >>= g) k R := by
  refine read h fun o ho ↦ ?_
  split at ho
  next hx =>
    cases ho
    exact hg hx
  next => cases ho

theorem require (h : Restricted k) {b : Bool} {e : Errno} {g : Unit → Sys β}
    (hg : b = true → Grows (g ()) k R) : Grows (Exec.require b e >>= g) k R := by
  cases b
  · exact h
  · exact hg rfl

theorem onError {cleanup : Sys Unit} (hf : Grows f k Q)
    (hc : ∀ k', Restricted k' → Wp cleanup k' (fun _ ↦ Restricted) fun _ ↦ Restricted) :
    Grows (Kobj.onError f cleanup) k Q := by
  unfold Grows Wp at *
  unfold Kobj.onError
  rcases hk : f k with ⟨e | a, k'⟩ <;> rw [hk] at hf
  · by_cases hs : Stopped e
    · simpa only [hs, if_true] using hf
    · simp only [hs, if_false]
      have h' := hc k' hf
      rw [bind_apply]
      rcases hk' : cleanup k' with ⟨e' | _, k''⟩ <;> rw [hk'] at h' <;> exact h'
  · exact hf

theorem mapErr {g : Errno → Errno} (hf : Grows f k Q) : Grows (f.mapErr g) k Q := Wp.mapErr hf

end Grows

structure Fresh (type : KobjType) (x : Nat) (k : Store) : Prop where
  mem : x ∈ k.ids
  type_eq : (k.obj x).koType = type
  open_mask : ∀ ty, (k.obj x).ctAvoidTypes ty = false
  not_in : ∀ c, ¬ Contains k c x
  empty : ∀ y, ¬ Slotted x y k

theorem Fresh.of_calm {type : KobjType} (h : Fresh type x k) (hc : Calm k k') :
    Fresh type x k' where
  mem := hc.ids ▸ h.mem
  type_eq := (hc.type x).trans h.type_eq
  open_mask ty := by rw [hc.avoid]; exact h.open_mask ty
  not_in c hx := h.not_in c (hc.contains hx)
  empty y hy := h.empty y (hc.slots x y hy)

theorem newKobject_slots {type : KobjType} : ∀ cs ∈ (newKobject type).ctSlots, cs.csRef = 0 := by
  intro cs hcs
  unfold newKobject at hcs
  split at hcs
  · rw [List.eq_of_mem_replicate hcs]
  · cases hcs

theorem Restricted.addObj (h : Restricted k) (type : KobjType) {d : Nat} (hd : k.handleCounter ≤ d)
    (hlt : d < 2 ^ 61) (hne : k.bf61Encipher d ≠ 0) :
    Extends k (Kobj.addObj (k.bf61Encipher d) (newKobject type)
      { k with handleCounter := d + 1 }) ∧
    Fresh type (k.bf61Encipher d) (Kobj.addObj (k.bf61Encipher d) (newKobject type)
      { k with handleCounter := d + 1 }) := by
  set id := k.bf61Encipher d
  set k1 := Kobj.addObj id (newKobject type) { k with handleCounter := d + 1 } with hk1
  have hself : k1.obj id = newKobject type := by simp [hk1, Kobj.addObj]
  have hother : ∀ z, z ≠ id → k1.obj z = k.obj z := fun z hz ↦ by simp [hk1, Kobj.addObj, hz]
  have hids : ∀ z, z ∈ k1.ids ↔ z = id ∨ z ∈ k.ids := fun z ↦ by simp [hk1, Kobj.addObj]
  have hnot : id ∉ k.ids := h.fresh d hd hlt
  have hempty : ∀ y, ¬ Slotted id y k1 := by
    rintro y ⟨cs, hcs, -, hr⟩
    rw [hself] at hcs
    exact absurd (newKobject_slots cs hcs) (by omega)
  have hold : ∀ c y, Contains k1 c y → c ≠ id ∧ Contains k c y := by
    intro c y hy
    have hc : c ≠ id := by
      rintro rfl
      exact hempty y hy.2.2
    obtain ⟨hm, ht, hs⟩ := hy
    unfold Slotted at hs
    rw [hother c hc] at ht hs
    exact ⟨hc, ((hids c).mp hm).resolve_left hc, ht, hs⟩
  have hin : ∀ c y, Contains k c y → y ≠ id := fun c y hy he ↦ h.not_next c y hy d hd hlt he.symm
  have hk : ∀ z ∈ k.ids, z ≠ id := fun z hz he ↦ hnot (he ▸ hz)
  have hadv : IdsOk { k with handleCounter := d + 1 } := h.toIdsOk.advance (by omega)
  refine ⟨⟨⟨⟨?_, ?_, h.encipher_lt, hadv.encipher_inj, ?_⟩, ?_, ?_⟩, ?_, ?_, ?_⟩,
    (hids id).mpr (.inl rfl), by rw [hself]; rfl, fun ty ↦ by rw [hself]; rfl,
    fun c hx ↦ hin c id (hold c id hx).2 rfl, hempty⟩
  · exact fun hm ↦ ((hids 0).mp hm).elim (fun he ↦ hne he.symm) h.zero_notMem
  · intro hm
    rcases (hids _).mp hm with he | hm
    · exact absurd (he ▸ h.encipher_lt d hlt : kobjectIdThreadSg < 2 ^ 61) (by decide)
    · exact h.threadSg_notMem hm
  · intro n hn hn' hm
    have hn : d + 1 ≤ n := hn
    rcases (hids _).mp hm with he | hm
    · have := h.encipher_inj d n hd (by omega) hlt hn' hne he.symm
      omega
    · exact h.fresh n (by omega) hn' hm
  · intro c y hy
    obtain ⟨hc, hy'⟩ := hold c y hy
    have hyd := hin c y hy'
    exact (h.admits c y hy').of_same (by rw [hother c hc]) (by rw [hother y hyd])
      (by rw [hother y hyd])
  · intro c y hy n hn
    have hn : d + 1 ≤ n := hn
    exact h.not_next c y (hold c y hy).2 n (by omega)
  · exact fun z hz ↦ (hids z).mpr (.inr hz)
  · exact fun z hz ↦ by rw [hother z (hk z hz)]
  · exact fun z hz ↦ by rw [hother z (hk z hz)]

end HiStar.Kobj
