import HiStar.Kobj.Loan

namespace HiStar.Kobj

open Lib Function

theorem sum_map_set {α M : Type} [AddCommMonoid M] (g : α → M) (l : List α) (i : Nat) (a d : α)
    (hi : i < l.length) :
    ((l.set i a).map g).sum + g (l.getD i d) = (l.map g).sum + g a := by
  induction l generalizing i with
  | nil => simp at hi
  | cons b l ih =>
    cases i with
    | zero => simp [add_comm, add_left_comm]
    | succ i =>
      have := ih i (by simpa using hi)
      simp only [List.set_cons_succ, List.map_cons, List.sum_cons, List.getD_cons_succ, add_assoc,
        this]

section Held

variable (o : Kobject)

theorem held_setSlot {i : Nat} (ht : o.koType = .container) (hi : i < o.ctSlots.length)
    (cs : CtSlot) :
    (setSlot i cs o).held + Kobject.slotRef (o.slot i) = o.held + Kobject.slotRef cs := by
  have h := sum_map_set Kobject.slotRef o.ctSlots i cs {} hi
  have ht' : (setSlot i cs o).koType = .container := ht
  unfold Kobject.held
  rw [Kobject.typeHeld_container ht, Kobject.typeHeld_container ht', add_right_comm,
    add_right_comm _ _ (Kobject.slotRef cs)]
  exact congrArg (· + _) h

theorem sum_koLabel {M : Type} [AddCommMonoid M] (g : KoLabel → M) :
    ∑ i, g i = g .tracking + (g .clearance + (g .verifyTracking + g .verifyClearance)) := by
  simp [Finset.univ, Fintype.elems]

theorem held_setLabelId (idx : KoLabel) (id : Nat) :
    (setLabelId idx id o).held + Kobject.idRef (o.koLabel idx) = o.held + Kobject.idRef id := by
  have ht : (setLabelId idx id o).typeHeld = o.typeHeld := rfl
  unfold Kobject.held
  rw [ht]
  simp only [setLabelId, sum_koLabel]
  cases idx <;> simp [add_assoc, add_comm, add_left_comm]

theorem held_setThSg (ht : o.koType = .thread) (id : Nat) :
    (setThSg id o).held + Kobject.idRef o.thSg = o.held + Kobject.idRef id := by
  have ht' : (setThSg id o).koType = .thread := ht
  unfold Kobject.held
  rw [Kobject.typeHeld_thread ht, Kobject.typeHeld_thread ht']
  simp only [setThSg, add_comm, add_left_comm]

end Held

structure RefsOnly (f : Kobject → Kobject) : Prop where
  type : ∀ o, (f o).koType = o.koType
  ref : ∀ o, (f o).koRef = o.koRef
  parent : ∀ o, (f o).koParent = o.koParent
  fixed : ∀ o, (f o).koFixedQuota = o.koFixedQuota
  used : ∀ o, (f o).koQuotaUsed = o.koQuotaUsed
  total : ∀ o, (f o).koQuotaTotal = o.koQuotaTotal
  nbytes : ∀ o, (f o).koNbytes = o.koNbytes

theorem refsOnly_setSlot (i : Nat) (cs : CtSlot) : RefsOnly (setSlot i cs) :=
  ⟨fun _ ↦ rfl, fun _ ↦ rfl, fun _ ↦ rfl, fun _ ↦ rfl, fun _ ↦ rfl, fun _ ↦ rfl, fun _ ↦ rfl⟩

theorem refsOnly_setLabelId (idx : KoLabel) (id : Nat) : RefsOnly (setLabelId idx id) :=
  ⟨fun _ ↦ rfl, fun _ ↦ rfl, fun _ ↦ rfl, fun _ ↦ rfl, fun _ ↦ rfl, fun _ ↦ rfl, fun _ ↦ rfl⟩

theorem refsOnly_setThSg (id : Nat) : RefsOnly (setThSg id) :=
  ⟨fun _ ↦ rfl, fun _ ↦ rfl, fun _ ↦ rfl, fun _ ↦ rfl, fun _ ↦ rfl, fun _ ↦ rfl, fun _ ↦ rfl⟩

theorem RefsOnly.base {f : Kobject → Kobject} (hf : RefsOnly f) (o : Kobject) :
    (f o).base = o.base := by
  unfold Kobject.base Kobject.npages
  rw [hf.nbytes]

section Link

variable {x y : Nat} {f : Kobject → Kobject} {k : Store}

def gainRef (parent : Nat) (o : Kobject) : Kobject :=
  { o with koRef := o.koRef + 1, koParent := parent }

def loseRef (holder : Nat) (o : Kobject) : Kobject :=
  { o with koRef := o.koRef - 1, koParent := if holder = o.koParent then 0 else o.koParent }

theorem link_of (hf : RefsOnly f) (hne : x ≠ y)
    (hheld : (f (k.obj x)).held = y ::ₘ (k.obj x).held) {k' : Store}
    (hids : k'.ids = k.ids) (hcounter : k'.handleCounter = k.handleCounter)
    (hencipher : k'.bf61Encipher = k.bf61Encipher) (hx : k'.obj x = f (k.obj x))
    (hy : k'.obj y = gainRef x (k.obj y)) (hz : ∀ z, z ≠ x → z ≠ y → k'.obj z = k.obj z) :
    Link x y k k' := by
  have hcase : ∀ z, z = x ∨ z = y ∨ z ≠ x ∧ z ≠ y := fun z ↦ by omega
  refine ⟨⟨hids, hcounter, hencipher, fun z ↦ ?_, fun z ↦ ?_⟩, ?_, fun z hzx ↦ ?_, fun z ↦ ?_,
    fun z ↦ ?_, fun z ↦ ?_, fun z ↦ ?_, fun z ↦ ?_⟩
  · rcases hcase z with rfl | rfl | ⟨h1, h2⟩
    · rw [hx, hf.type]
    · rw [hy]; rfl
    · rw [hz z h1 h2]
  · rcases hcase z with rfl | rfl | ⟨h1, h2⟩
    · rw [hx, hf.fixed]
    · rw [hy]; rfl
    · rw [hz z h1 h2]
  · unfold Store.held
    rw [hx, hheld]
  · unfold Store.held
    by_cases hzy : z = y
    · rw [hzy, hy]; rfl
    · rw [hz z hzx hzy]
  · rcases hcase z with rfl | rfl | ⟨h1, h2⟩
    · rw [hx, hf.ref, if_neg hne]; rfl
    · rw [hy, if_pos rfl]; rfl
    · rw [hz z h1 h2, if_neg h2]; rfl
  · rcases hcase z with rfl | rfl | ⟨h1, h2⟩
    · rw [hx, hf.parent, if_neg hne]
    · rw [hy, if_pos rfl]; rfl
    · rw [hz z h1 h2, if_neg h2]
  · unfold Store.total
    rcases hcase z with rfl | rfl | ⟨h1, h2⟩
    · rw [hx, hf.total]
    · rw [hy]; rfl
    · rw [hz z h1 h2]
  · rcases hcase z with rfl | rfl | ⟨h1, h2⟩
    · rw [hx, hf.used]
    · rw [hy]; rfl
    · rw [hz z h1 h2]
  · rcases hcase z with rfl | rfl | ⟨h1, h2⟩
    · rw [hx, hf.base]
    · rw [hy]; rfl
    · rw [hz z h1 h2]

theorem unlink_of (hf : RefsOnly f) (hne : x ≠ y) (hr : (k.obj y).koRef ≠ 0)
    (hheld : (k.obj x).held = y ::ₘ (f (k.obj x)).held) {k' : Store}
    (hids : k'.ids = k.ids) (hcounter : k'.handleCounter = k.handleCounter)
    (hencipher : k'.bf61Encipher = k.bf61Encipher)
    (hx : k'.obj x = Kobject.subUsed (k.total y) (f (k.obj x)))
    (hy : k'.obj y = loseRef x (k.obj y)) (hz : ∀ z, z ≠ x → z ≠ y → k'.obj z = k.obj z) :
    Unlink x y k k' := by
  have hcase : ∀ z, z = x ∨ z = y ∨ z ≠ x ∧ z ≠ y := fun z ↦ by omega
  refine ⟨⟨hids, hcounter, hencipher, fun z ↦ ?_, fun z ↦ ?_⟩, ?_, fun z hzx ↦ ?_, fun z ↦ ?_,
    fun z ↦ ?_, fun z ↦ ?_, fun z ↦ ?_, fun z ↦ ?_⟩
  · rcases hcase z with rfl | rfl | ⟨h1, h2⟩
    · rw [hx]; exact hf.type _
    · rw [hy]; rfl
    · rw [hz z h1 h2]
  · rcases hcase z with rfl | rfl | ⟨h1, h2⟩
    · rw [hx]; exact hf.fixed _
    · rw [hy]; rfl
    · rw [hz z h1 h2]
  · unfold Store.held
    rw [hx]
    exact hheld
  · unfold Store.held
    by_cases hzy : z = y
    · rw [hzy, hy]; rfl
    · rw [hz z hzx hzy]
  · rcases hcase z with rfl | rfl | ⟨h1, h2⟩
    · rw [hx, if_neg hne]; exact (hf.ref _).symm
    · rw [hy, if_pos rfl]; simp only [loseRef]; omega
    · rw [hz z h1 h2, if_neg h2]; rfl
  · rcases hcase z with rfl | rfl | ⟨h1, h2⟩
    · rw [hx, if_neg fun h ↦ hne h.1]; exact hf.parent _
    · rw [hy]; simp only [loseRef, true_and, eq_comm]
    · rw [hz z h1 h2, if_neg fun h ↦ h2 h.1]
  · unfold Store.total
    rcases hcase z with rfl | rfl | ⟨h1, h2⟩
    · rw [hx]; exact hf.total _
    · rw [hy]; rfl
    · rw [hz z h1 h2]
  · rcases hcase z with rfl | rfl | ⟨h1, h2⟩
    · rw [hx, if_pos rfl]; simp only [Kobject.subUsed, hf.used]
    · rw [hy, if_neg (Ne.symm hne)]; rfl
    · rw [hz z h1 h2, if_neg h1]
  · rcases hcase z with rfl | rfl | ⟨h1, h2⟩
    · rw [hx]; exact hf.base _
    · rw [hy]; rfl
    · rw [hz z h1 h2]

end Link

end HiStar.Kobj
