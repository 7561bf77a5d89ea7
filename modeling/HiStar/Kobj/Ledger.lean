import HiStar.Kobj.Shape

namespace HiStar.Kobj

open Lib Function

/-- Only labels and objects of fixed quota are referred to more than once; `e` is
an object that is being moved. -/
def Single (root e : Nat) (k : Store) : Prop :=
  ∀ y ∈ k.ids, y ≠ root → y ≠ e → (k.obj y).koFixedQuota = false → (k.obj y).koType ≠ .label →
    (k.obj y).koRef ≠ 0 → (k.obj y).koRef = 1 ∧ (k.obj y).koParent ≠ 0

def maxBase : Nat := kobjDiskSize + pgsize * pagetreeMaxpages

/-- Every object with a finite quota is charged for itself, for what it refers to
and for the quota `r` it has reserved, and stays within its total. -/
structure Charged (root : Nat) (r : Nat → Nat) (k : Store) : Prop where
  root_inf : root ∈ k.ids → k.total root = ctQuotaInf
  total_lt : ∀ x ∈ k.ids, k.total x < 2 ^ 64
  size : ∀ x ∈ k.ids, (k.obj x).base ≤ maxBase
  balance : ∀ x ∈ k.ids, k.total x ≠ ctQuotaInf →
    (k.obj x).koQuotaUsed = (k.obj x).base + load k.total (k.held x) + r x
  within : ∀ x ∈ k.ids, k.total x ≠ ctQuotaInf → (k.obj x).koQuotaUsed ≤ k.total x

/-- A loan of `n` bytes does not overflow any finite quota. -/
def Room (n : Nat) (k : Store) : Prop :=
  n < 2 ^ 64 ∧ ∀ x ∈ k.ids, k.total x ≠ ctQuotaInf → k.total x + n < 2 ^ 64

structure Books (root e n : Nat) (r : Nat → Nat) (k : Store) : Prop where
  single : Single root e k
  charged : Charged root r k
  room : Room n k

/-- The invariant of the object store. The accounts are part of it only where
`q` holds, since the references fit together without them. -/
structure Inv (q : Prop) (root e n : Nat) (r : Nat → Nat) (k : Store) : Prop where
  shape : Shape root k
  books : q → Books root e n r k

theorem Room.mono {m n : Nat} {k : Store} (h : Room n k) (hm : m ≤ n) : Room m k :=
  ⟨hm.trans_lt h.1, fun x hx hi ↦ by have := h.2 x hx hi; omega⟩

theorem Inv.mono {q : Prop} {root e m n : Nat} {r : Nat → Nat} {k : Store}
    (h : Inv q root e n r k) (hm : m ≤ n) : Inv q root e m r k :=
  ⟨h.shape, fun hq ↦ ⟨(h.books hq).single, (h.books hq).charged, (h.books hq).room.mono hm⟩⟩

section Single

variable {root e x y : Nat} {k k' : Store}

theorem Single.of_sameRefs (h : Single root e k) (hs : SameRefs k k') : Single root e k' := by
  intro z hz
  rw [hs.ids] at hz
  rw [hs.fixed, hs.type, hs.ref, hs.parent]
  exact h z hz

theorem Single.link (h : Single root e k) (hl : Link x y k k') (hx : x ≠ 0)
    (hy : y = e ∨ (k.obj y).koRef = 0 ∨ (k.obj y).koFixedQuota = true ∨ (k.obj y).koType = .label) :
    Single root e k' := by
  intro z hz hroot he hf ht hr
  rw [hl.ids] at hz
  rw [hl.fixed] at hf
  rw [hl.type] at ht
  rw [hl.ref] at hr ⊢
  rw [hl.parent]
  by_cases hzy : z = y
  · subst hzy
    rcases hy with rfl | h0 | h1 | h1
    · exact absurd rfl he
    · simp [h0, hx]
    · simp [h1] at hf
    · exact absurd h1 ht
  · simp only [if_neg hzy, Nat.add_zero] at hr ⊢
    exact h z hz hroot he hf ht hr

theorem Single.unlink (h : Single root e k) (hu : Unlink x y k k') : Single root e k' := by
  intro z hz hroot he hf ht hr
  rw [hu.ids] at hz
  rw [hu.fixed] at hf
  rw [hu.type] at ht
  have hrz := hu.ref z
  obtain ⟨h1, hp⟩ := h z hz hroot he hf ht (by omega)
  by_cases hzy : z = y
  · rw [if_pos hzy] at hrz
    omega
  · rw [if_neg hzy] at hrz
    rw [hu.parent, if_neg fun hc ↦ hzy hc.1]
    exact ⟨by omega, hp⟩

end Single

namespace Charged

variable {root x y : Nat} {r r' : Nat → Nat} {k k' : Store}

theorem congr (h : Charged root r k) (hids : k'.ids = k.ids) (hheld : ∀ z, k'.held z = k.held z)
    (htotal : ∀ z, k'.total z = k.total z)
    (hused : ∀ z ∈ k.ids, k.total z ≠ ctQuotaInf →
      (k'.obj z).koQuotaUsed + (k.obj z).base + r z =
      (k.obj z).koQuotaUsed + (k'.obj z).base + r' z)
    (hwithin : ∀ z ∈ k.ids, k.total z ≠ ctQuotaInf → (k'.obj z).koQuotaUsed ≤ k.total z)
    (hsize : ∀ z ∈ k.ids, (k'.obj z).base ≤ maxBase) : Charged root r' k' where
  root_inf := by rw [htotal, hids]; exact h.root_inf
  total_lt z hz := by
    rw [hids] at hz
    rw [htotal]
    exact h.total_lt z hz
  size z hz := by
    rw [hids] at hz
    exact hsize z hz
  balance z hz hi := by
    rw [hids] at hz
    rw [htotal] at hi
    rw [hheld, load_congr fun a _ ↦ htotal a]
    have h1 := h.balance z hz hi
    have h2 := hused z hz hi
    omega
  within z hz hi := by
    rw [hids] at hz
    rw [htotal] at hi ⊢
    exact hwithin z hz hi

theorem link (h : Charged root r k) (hl : Link x y k k') (hx : x ∈ k.ids)
    (hr : k.total x ≠ ctQuotaInf → r x = r' x + k.total y) (hr' : ∀ z, z ≠ x → r' z = r z) :
    Charged root r' k' where
  root_inf := by rw [hl.total, hl.ids]; exact h.root_inf
  total_lt z hz := by
    rw [hl.ids] at hz
    rw [hl.total]
    exact h.total_lt z hz
  size z hz := by
    rw [hl.ids] at hz
    rw [hl.base]
    exact h.size z hz
  balance z hz hi := by
    rw [hl.ids] at hz
    rw [hl.total] at hi
    rw [hl.used, hl.base, load_congr fun a _ ↦ hl.total a, h.balance z hz hi]
    by_cases hzx : z = x
    · subst hzx
      rw [hl.held_self, load_cons, hr hi]
      omega
    · rw [hl.held_other z hzx, hr' z hzx]
  within z hz hi := by
    rw [hl.ids] at hz
    rw [hl.total] at hi ⊢
    rw [hl.used]
    exact h.within z hz hi

theorem unlink (h : Charged root r k) (hu : Unlink x y k k') : Charged root r k' := by
  have hused : ∀ z ∈ k.ids, k.total z ≠ ctQuotaInf → z = x →
      (k'.obj z).koQuotaUsed = (k.obj z).koQuotaUsed - k.total y ∧
        k.total y ≤ (k.obj z).koQuotaUsed := by
    intro z hz hi hzx
    subst hzx
    have hle : k.total y ≤ (k.obj z).koQuotaUsed := by
      rw [h.balance z hz hi, hu.held_self, load_cons]
      omega
    have hlt := (h.within z hz hi).trans_lt (h.total_lt z hz)
    exact ⟨by rw [hu.used, if_pos rfl, sub64_eq hlt hle], hle⟩
  refine ⟨by rw [hu.total, hu.ids]; exact h.root_inf, ?_, ?_, ?_, ?_⟩ <;> intro z hz <;> rw [hu.ids] at hz
  · rw [hu.total]
    exact h.total_lt z hz
  · rw [hu.base]
    exact h.size z hz
  · intro hi
    rw [hu.total] at hi
    rw [hu.base, load_congr fun a _ ↦ hu.total a]
    have hb := h.balance z hz hi
    by_cases hzx : z = x
    · obtain ⟨h1, h2⟩ := hused z hz hi hzx
      rw [hzx] at hb h1 h2 ⊢
      rw [hu.held_self, load_cons] at hb
      omega
    · rw [hu.used, if_neg hzx, hu.held_other z hzx, hb]
  · intro hi
    rw [hu.total] at hi ⊢
    have hw := h.within z hz hi
    by_cases hzx : z = x
    · have := (hused z hz hi hzx).1
      omega
    · rwa [hu.used, if_neg hzx]

end Charged

theorem Room.of_total {n : Nat} {k k' : Store} (h : Room n k) (hids : k'.ids = k.ids)
    (htotal : ∀ z, k'.total z = k.total z) : Room n k' :=
  ⟨h.1, fun x hx hi ↦ by
    rw [hids] at hx
    rw [htotal] at hi ⊢
    exact h.2 x hx hi⟩

namespace Inv

variable {q : Prop} {root e n x y : Nat} {r r' : Nat → Nat} {k k' : Store}

theorem link (h : Inv q root e n r k) (hl : Link x y k k') (hx : x ∈ k.ids) (hy : y ∈ k.ids)
    (ht : MayHold (k.obj x).koType (k.obj y).koType)
    (hxy : (k.obj y).koType = .container → ¬ Above k.ctParent x y)
    (hs : q → y = e ∨ (k.obj y).koRef = 0 ∨ (k.obj y).koFixedQuota = true ∨
      (k.obj y).koType = .label)
    (hr : q → k.total x ≠ ctQuotaInf → r x = r' x + k.total y) (hr' : ∀ z, z ≠ x → r' z = r z) :
    Inv q root e n r' k' where
  shape := h.shape.link hl hx hy ht hxy
  books hq := ⟨(h.books hq).single.link hl (fun h0 ↦ h.shape.zero_notMem (h0 ▸ hx)) (hs hq),
    (h.books hq).charged.link hl hx (hr hq) hr', (h.books hq).room.of_total hl.ids hl.total⟩

theorem unlink (h : Inv q root e n r k) (hu : Unlink x y k k') (hx : x ∈ k.ids) :
    Inv q root e n r k' where
  shape := h.shape.unlink hu hx
  books hq := ⟨(h.books hq).single.unlink hu, (h.books hq).charged.unlink hu,
    (h.books hq).room.of_total hu.ids hu.total⟩

end Inv

end HiStar.Kobj
