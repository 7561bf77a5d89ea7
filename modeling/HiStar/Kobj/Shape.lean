import HiStar.Kobj.Syscall
import HiStar.Lib.Forest

namespace HiStar.Kobj

open Lib Function

def MayHold : KobjType → KobjType → Prop
  | .container, _ => True
  | .thread, ty => ty = .label ∨ ty = .segment
  | .label, _ => False
  | .dead, _ => False
  | _, ty => ty = .label

def Store.ctParent (k : Store) (x : Nat) : Option Nat :=
  if (k.obj x).koType = .container ∧ (k.obj x).koParent ≠ 0 then some (k.obj x).koParent else none

/-- No object has a reserved id, and the ids that the cipher has still to give out are unused
and differ from each other. The cipher of the kernel gives ids again, so this is for a cipher
that gives 0 from some counter on. -/
structure IdsOk (k : Store) : Prop where
  zero_notMem : 0 ∉ k.ids
  threadSg_notMem : kobjectIdThreadSg ∉ k.ids
  encipher_lt : ∀ n, n < 2 ^ 61 → k.bf61Encipher n < 2 ^ 61
  encipher_inj : ∀ m n, k.handleCounter ≤ m → k.handleCounter ≤ n → m < 2 ^ 61 → n < 2 ^ 61 →
    k.bf61Encipher m ≠ 0 → k.bf61Encipher m = k.bf61Encipher n → m = n
  fresh : ∀ n, k.handleCounter ≤ n → n < 2 ^ 61 → k.bf61Encipher n ∉ k.ids

/-- The references of the kernel fit together: they lead to objects of the right
types, `ko_ref` counts them (with one more for the root parent, which the kernel
itself holds; it has the id 0 until it exists), `ko_parent` is one of the holders, and the
containers form a forest. -/
structure Shape (root : Nat) (k : Store) : Prop extends IdsOk k where
  root_mem : root = 0 ∨ root ∈ k.ids
  held_mem : ∀ x ∈ k.ids, ∀ y ∈ k.held x, y ∈ k.ids
  held_type : ∀ x ∈ k.ids, ∀ y ∈ k.held x, MayHold (k.obj x).koType (k.obj y).koType
  not_self : ∀ x ∈ k.ids, x ∉ k.held x
  ref_eq : ∀ y ∈ k.ids, (k.obj y).koRef = refCount k.ids k.held y + if y = root then 1 else 0
  parent_holds : ∀ y ∈ k.ids, (k.obj y).koParent ≠ 0 →
    (k.obj y).koParent ∈ k.ids ∧ y ∈ k.held (k.obj y).koParent
  grounded : ∀ x ∈ k.ids, Grounded k.ctParent x

structure Frame (k k' : Store) : Prop where
  ids : k'.ids = k.ids
  counter : k'.handleCounter = k.handleCounter
  encipher : k'.bf61Encipher = k.bf61Encipher
  type : ∀ z, (k'.obj z).koType = (k.obj z).koType
  fixed : ∀ z, (k'.obj z).koFixedQuota = (k.obj z).koFixedQuota

variable {k k' : Store}

theorem IdsOk.of_frame (hk : IdsOk k) (h : Frame k k') : IdsOk k' where
  zero_notMem := by rw [h.ids]; exact hk.zero_notMem
  threadSg_notMem := by rw [h.ids]; exact hk.threadSg_notMem
  encipher_lt := by rw [h.encipher]; exact hk.encipher_lt
  encipher_inj := by rw [h.encipher, h.counter]; exact hk.encipher_inj
  fresh := by rw [h.encipher, h.counter, h.ids]; exact hk.fresh

theorem IdsOk.advance (hk : IdsOk k) {n : Nat} (hn : k.handleCounter ≤ n) :
    IdsOk { k with handleCounter := n } :=
  { hk with
    encipher_inj := fun i j hi hj ↦ hk.encipher_inj i j (hn.trans hi) (hn.trans hj)
    fresh := fun j hj ↦ hk.fresh j (hn.trans hj) }

structure SameRefs (k k' : Store) : Prop extends Frame k k' where
  held : ∀ z, k'.held z = k.held z
  ref : ∀ z, (k'.obj z).koRef = (k.obj z).koRef
  parent : ∀ z, (k'.obj z).koParent = (k.obj z).koParent

structure Link (x y : Nat) (k k' : Store) : Prop extends Frame k k' where
  held_self : k'.held x = y ::ₘ k.held x
  held_other : ∀ z, z ≠ x → k'.held z = k.held z
  ref : ∀ z, (k'.obj z).koRef = (k.obj z).koRef + if z = y then 1 else 0
  parent : ∀ z, (k'.obj z).koParent = if z = y then x else (k.obj z).koParent
  total : ∀ z, k'.total z = k.total z
  used : ∀ z, (k'.obj z).koQuotaUsed = (k.obj z).koQuotaUsed
  base : ∀ z, (k'.obj z).base = (k.obj z).base

structure Unlink (x y : Nat) (k k' : Store) : Prop extends Frame k k' where
  held_self : k.held x = y ::ₘ k'.held x
  held_other : ∀ z, z ≠ x → k'.held z = k.held z
  ref : ∀ z, (k.obj z).koRef = (k'.obj z).koRef + if z = y then 1 else 0
  parent : ∀ z, (k'.obj z).koParent =
    if z = y ∧ (k.obj z).koParent = x then 0 else (k.obj z).koParent
  total : ∀ z, k'.total z = k.total z
  used : ∀ z, (k'.obj z).koQuotaUsed =
    if z = x then sub64 (k.obj z).koQuotaUsed (k.total y) else (k.obj z).koQuotaUsed
  base : ∀ z, (k'.obj z).base = (k.obj z).base

theorem SameRefs.refl (k : Store) : SameRefs k k :=
  ⟨⟨rfl, rfl, rfl, fun _ ↦ rfl, fun _ ↦ rfl⟩, fun _ ↦ rfl, fun _ ↦ rfl, fun _ ↦ rfl⟩

theorem SameRefs.trans {k'' : Store} (h : SameRefs k k') (h' : SameRefs k' k'') :
    SameRefs k k'' where
  ids := h'.ids.trans h.ids
  counter := h'.counter.trans h.counter
  encipher := h'.encipher.trans h.encipher
  type z := (h'.type z).trans (h.type z)
  fixed z := (h'.fixed z).trans (h.fixed z)
  held z := (h'.held z).trans (h.held z)
  ref z := (h'.ref z).trans (h.ref z)
  parent z := (h'.parent z).trans (h.parent z)

theorem Unlink.mem {x y : Nat} (h : Unlink x y k k') {a b : Nat}
    (hb : b ∈ k'.held a) : b ∈ k.held a := by
  by_cases ha : a = x
  · subst ha
    rw [h.held_self]
    exact Multiset.mem_cons_of_mem hb
  · rwa [h.held_other a ha] at hb

theorem mayHold_container {ty : KobjType} (h : MayHold ty .container) : ty = .container := by
  cases ty <;> simp_all [MayHold]

def typeRank : KobjType → Nat
  | .container => 0
  | .thread | .gate | .addressSpace | .device | .dead => 1
  | .segment => 2
  | .label => 3

theorem MayHold.rank {a b : KobjType} (h : MayHold a b) : a = .container ∨ typeRank a < typeRank b := by
  cases a <;> simp_all [MayHold, typeRank]
  rcases h with rfl | rfl <;> simp

theorem SameRefs.ctParent (h : SameRefs k k') : k'.ctParent = k.ctParent := by
  funext x
  simp only [Store.ctParent, h.type, h.parent]

namespace Shape

variable {root x y : Nat} {k k' : Store}

theorem of_sameRefs (hk : Shape root k) (h : SameRefs k k') : Shape root k' where
  toIdsOk := hk.toIdsOk.of_frame h.toFrame
  root_mem := by rw [h.ids]; exact hk.root_mem
  held_mem a ha b hb := by
    rw [h.ids] at ha ⊢
    rw [h.held] at hb
    exact hk.held_mem a ha b hb
  held_type a ha b hb := by
    rw [h.ids] at ha
    rw [h.held] at hb
    rw [h.type, h.type]
    exact hk.held_type a ha b hb
  not_self a ha := by
    rw [h.ids] at ha
    rw [h.held]
    exact hk.not_self a ha
  ref_eq b hb := by
    rw [h.ids] at hb ⊢
    rw [h.ref, refCount_congr fun a _ ↦ h.held a]
    exact hk.ref_eq b hb
  parent_holds b hb := by
    rw [h.ids] at hb ⊢
    rw [h.parent, h.held]
    exact hk.parent_holds b hb
  grounded a ha := by
    rw [h.ids] at ha
    rw [h.ctParent]
    exact hk.grounded a ha

theorem parent_container (hk : Shape root k) (hx : x ∈ k.ids) (ht : (k.obj x).koType = .container)
    (hp : (k.obj x).koParent ≠ 0) :
    (k.obj x).koParent ∈ k.ids ∧ (k.obj (k.obj x).koParent).koType = .container := by
  obtain ⟨hm, hh⟩ := hk.parent_holds x hx hp
  have := hk.held_type _ hm x hh
  rw [ht] at this
  exact ⟨hm, mayHold_container this⟩

theorem parent_of_ref_zero (hk : Shape root k) (hy : y ∈ k.ids) (hr : (k.obj y).koRef = 0) :
    (k.obj y).koParent = 0 := by
  by_contra hp
  obtain ⟨hm, hh⟩ := hk.parent_holds y hy hp
  have h1 := refCount_pos hm hh
  have h2 := hk.ref_eq y hy
  omega

theorem not_held_of_ref_zero (hk : Shape root k) (hy : y ∈ k.ids) (hr : (k.obj y).koRef = 0)
    (hx : x ∈ k.ids) : y ∉ k.held x := by
  intro hh
  have h1 := refCount_pos hx hh
  have h2 := hk.ref_eq y hy
  omega

theorem link_ne (ht : MayHold (k.obj x).koType (k.obj y).koType)
    (hxy : (k.obj y).koType = .container → ¬ Above k.ctParent x y) : x ≠ y := by
  rintro rfl
  rcases ht.rank with hc | hlt
  · exact hxy hc .refl
  · exact lt_irrefl _ hlt

theorem link (hk : Shape root k) (h : Link x y k k') (hx : x ∈ k.ids) (hy : y ∈ k.ids)
    (ht : MayHold (k.obj x).koType (k.obj y).koType)
    (hxy : (k.obj y).koType = .container → ¬ Above k.ctParent x y) : Shape root k' where
  toIdsOk := hk.toIdsOk.of_frame h.toFrame
  root_mem := by rw [h.ids]; exact hk.root_mem
  held_mem a ha b hb := by
    rw [h.ids] at ha ⊢
    by_cases hax : a = x
    · subst hax
      rw [h.held_self, Multiset.mem_cons] at hb
      rcases hb with rfl | hb
      · exact hy
      · exact hk.held_mem a ha b hb
    · rw [h.held_other a hax] at hb
      exact hk.held_mem a ha b hb
  held_type a ha b hb := by
    rw [h.ids] at ha
    rw [h.type, h.type]
    by_cases hax : a = x
    · subst hax
      rw [h.held_self, Multiset.mem_cons] at hb
      rcases hb with rfl | hb
      · exact ht
      · exact hk.held_type a ha b hb
    · rw [h.held_other a hax] at hb
      exact hk.held_type a ha b hb
  not_self a ha := by
    rw [h.ids] at ha
    by_cases hax : a = x
    · subst hax
      rw [h.held_self, Multiset.mem_cons]
      exact not_or.mpr ⟨link_ne ht hxy, hk.not_self a ha⟩
    · rw [h.held_other a hax]
      exact hk.not_self a ha
  ref_eq b hb := by
    rw [h.ids] at hb ⊢
    rw [h.ref, refCount_cons hx h.held_self h.held_other, hk.ref_eq b hb]
    omega
  parent_holds b hb hp := by
    rw [h.ids] at hb ⊢
    rw [h.parent] at hp ⊢
    by_cases hby : b = y
    · rw [if_pos hby, h.held_self, hby]
      exact ⟨hx, Multiset.mem_cons_self y _⟩
    · rw [if_neg hby] at hp ⊢
      obtain ⟨hm, hh⟩ := hk.parent_holds b hb hp
      refine ⟨hm, ?_⟩
      by_cases hax : (k.obj b).koParent = x
      · rw [hax] at hh ⊢
        rw [h.held_self]
        exact Multiset.mem_cons_of_mem hh
      · rwa [h.held_other _ hax]
  grounded a hma := by
    rw [h.ids] at hma
    have hother : ∀ z, z ≠ y → k'.ctParent z = k.ctParent z := by
      intro z hz
      simp only [Store.ctParent, h.type, h.parent, if_neg hz]
    by_cases hyc : (k.obj y).koType = .container
    · have hself : k'.ctParent y = some x := by
        have hx0 : x ≠ 0 := fun he ↦ hk.zero_notMem (he ▸ hx)
        simp [Store.ctParent, h.type, h.parent, hyc, hx0]
      exact (hk.grounded x hx).relink (hxy hyc) hother hself (hk.grounded a hma)
    · -- the parent of an object that is not a container plays no part
      refine (hk.grounded a hma).cut fun z p hp ↦ ?_
      by_cases hz : z = y
      · subst hz
        simp [Store.ctParent, h.type, hyc] at hp
      · rwa [← hother z hz]

theorem unlink (hk : Shape root k) (h : Unlink x y k k') (hx : x ∈ k.ids) : Shape root k' where
  toIdsOk := hk.toIdsOk.of_frame h.toFrame
  root_mem := by rw [h.ids]; exact hk.root_mem
  held_mem a ha b hb := by
    rw [h.ids] at ha ⊢
    exact hk.held_mem a ha b (h.mem hb)
  held_type a ha b hb := by
    rw [h.ids] at ha
    rw [h.type, h.type]
    exact hk.held_type a ha b (h.mem hb)
  not_self a ha hb := by
    rw [h.ids] at ha
    exact hk.not_self a ha (h.mem hb)
  ref_eq b hb := by
    rw [h.ids] at hb ⊢
    have h1 := hk.ref_eq b hb
    have h2 := refCount_cons hx h.held_self (fun a ha ↦ (h.held_other a ha).symm) b
    have h3 := h.ref b
    omega
  parent_holds b hb hp := by
    rw [h.ids] at hb ⊢
    rw [h.parent] at hp ⊢
    split at hp
    · exact absurd rfl hp
    next hby =>
      rw [if_neg hby]
      obtain ⟨hm, hh⟩ := hk.parent_holds b hb hp
      refine ⟨hm, ?_⟩
      by_cases hax : (k.obj b).koParent = x
      · rw [hax] at hh ⊢
        rw [h.held_self, Multiset.mem_cons] at hh
        exact hh.resolve_left fun he ↦ hby ⟨he, hax⟩
      · rwa [h.held_other _ hax]
  grounded a hma := by
    rw [h.ids] at hma
    refine (hk.grounded a hma).cut fun z p hp ↦ ?_
    simp only [Store.ctParent, h.type, h.parent] at hp ⊢
    by_cases hz : z = y ∧ (k.obj z).koParent = x
    · rw [if_pos hz] at hp
      simp at hp
    · rwa [if_neg hz] at hp

end Shape

end HiStar.Kobj
