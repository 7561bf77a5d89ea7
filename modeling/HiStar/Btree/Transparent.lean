import HiStar.Btree.CacheCalls

namespace HiStar.Btree

open Lib Function

variable {α : Type} [Zero α] {c c' : Cache α} {v : View α} {t u : UInt64} {i : Nat} {x : α}

section Runs

variable {op : Call α}

theorem Run.inv {n : Nat} (hn : 0 < n) (h : Run Counted n c v) : c.nEnt = n ∧ Inv c v := by
  induction h with
  | init => exact ⟨rfl, Inv.init n⟩
  | call h hproper hp hrun hr ih =>
    obtain ⟨hnEnt, hinv⟩ := ih.2.call (ih.1.symm ▸ hn) hproper hp hrun hr
    exact ⟨hnEnt.trans ih.1, hinv⟩
  | store h hheld href y ih =>
    obtain ⟨e, he, rfl⟩ := Option.map_eq_some_iff.mp hheld
    exact ⟨ih.1, ih.2.store (ih.2.has_of_held he) y⟩

theorem Inv.pinned (h : Inv c v) (hn : 0 < c.nEnt) (hwants : op.wants = some t)
    (hproper : op.Proper v) (hrun : op.run c = (.ok i, c')) (hheld : v.held u = some (i, x)) :
    u = t ∨ v.refs u = 0 := by
  have hu := h.has_of_held hheld
  cases h.served hn hwants hproper with
  | refused e he hrun' => cases hrun'.symm.trans hrun
  | full hall hrun' => cases hrun'.symm.trans hrun
  | hit j hj hlt hrun' =>
    cases hrun'.symm.trans hrun
    exact .inl (hu.tag.symm.trans hj.tag)
  | given j y hj href ht hnone hrun' =>
    cases hrun'.symm.trans hrun
    refine .inr ?_
    rw [← h.refs i u hu, href]
    rfl

theorem Inv.full (h : Inv c v) (hn : 0 < c.nEnt) (hwants : op.wants = some t)
    (hproper : op.Proper v) (hrun : op.run c = (.error .noSpace, c')) (hi : i < c.nEnt) :
    ∃ u x, v.held u = some (i, x) ∧ 0 < v.refs u := by
  cases h.served hn hwants hproper with
  | refused e he hrun' =>
    cases hrun'.symm.trans hrun
    simp at he
  | full hall hrun' =>
    obtain ⟨hin, href⟩ := hall i hi
    have hhas : c.Has i (c.cmeta i).tag := ⟨hi, hin, rfl⟩
    refine ⟨_, _, (h.held _ i _).mpr ⟨hhas, rfl⟩, ?_⟩
    rw [← h.refs i _ hhas]
    exact Nat.pos_of_ne_zero (UInt16.toNat_inj.not.mpr href)
  | hit j hj hlt hrun' => cases hrun'.symm.trans hrun
  | given j y hj href ht hnone hrun' => cases hrun'.symm.trans hrun

theorem Inv.transparent (h : Inv c v) (hn : 0 < c.nEnt) : Transparent c v where
  tags i hi j hj hin hjn htag := h.unique ⟨hi, hin, htag⟩ ⟨hj, hjn, rfl⟩
  pinned op t i c' hwants hproper hrun u x hheld := h.pinned hn hwants hproper hrun hheld
  found t i x hheld := by
    obtain ⟨hi, rfl⟩ := (h.held t i x).mp hheld
    exact ⟨h.ne_zero hi, _, h.ent_eq hi, rfl⟩
  missing t ht hnone := h.ent_eq_none ht hnone
  lru i := by
    split_ifs with hi
    · exact List.count_eq_one_of_mem h.listed.nodup ((h.listed.mem i).mpr hi)
    · exact List.count_eq_zero.mpr fun hmem ↦ hi ((h.listed.mem i).mp hmem)
  full op t c' hwants hproper hrun i hi := h.full hn hwants hproper hrun hi
  returns t := by
    by_cases ht : t = 0
    · simp [Cache.alloc, ht]
    · rcases h.alloc_cases hn ht with ⟨i, x, -, -, hrun⟩ | ⟨hrun, -⟩ <;> simp [hrun]

/-- The cache is transparent as long as no counter of references overflows. -/
theorem cache_transparent {n : Nat} (hn : 0 < n) (h : Run Counted n c v) : Transparent c v :=
  (h.inv hn).2.transparent ((h.inv hn).1.symm ▸ hn)

/-- An entry that has had two references is given to another tag. -/
theorem evicting_transparent : ∃ (c : Cache Nat) (v : View Nat),
    Run Counted 1 c v ∧ v.held 7 = none ∧ v.held 8 = some (0, 0) ∧ Transparent c v := by
  have h₁ : Run Counted 1 _ ((View.empty : View Nat).after _ (.alloc 7) (.ok 0)) :=
    .call .init (show (Call.alloc 7).Proper (View.empty : View Nat) from rfl) trivial rfl (by simp)
  have h₂ := h₁.call (show (Call.ent 7 : Call Nat).Proper _ from trivial)
    (show 1 < 65535 by decide) rfl (by simp)
  have h₃ := h₂.call (show (Call.decRef 7 : Call Nat).Proper _ from trivial) trivial rfl (by simp)
  have h₄ := h₃.call (show (Call.decRef 7 : Call Nat).Proper _ from trivial) trivial rfl (by simp)
  have h₅ := h₄.call (show (Call.alloc 8 : Call Nat).Proper _ from rfl) trivial rfl (by simp)
  exact ⟨_, _, h₅, rfl, rfl, cache_transparent (by decide) h₅⟩

end Runs

section Overflow

def referenced (ref : UInt16) : Cache Nat where
  nEnt := 1
  cmeta := update (fun _ ↦ ⟨false, 0, 0⟩) 0 ⟨true, ref, 1⟩
  buf := fun _ ↦ 0
  lruStack := [0]

theorem alloc_referenced : Cache.alloc 1 (Cache.init 1) = (.ok 0, referenced 1) := rfl

theorem ent_referenced (ref : UInt16) :
    Cache.ent 1 (referenced ref) = (.ok 0, referenced (ref + 1)) := by
  simp [Cache.ent, Cache.find, referenced, Cache.setMeta, Cache.toTail]

theorem run_referenced (k : Nat) :
    ∃ v, Run (fun _ _ ↦ True) 1 (referenced (UInt16.ofNat (k + 1))) v ∧
      v.refs 1 = k + 1 ∧ v.held 1 = some (0, 0) ∧ v.held 2 = none := by
  induction k with
  | zero =>
    refine ⟨_, .call .init (show (Call.alloc 1).Proper View.empty from rfl) trivial
      alloc_referenced (by simp), rfl, rfl, rfl⟩
  | succ k ih =>
    obtain ⟨v, h, hrefs, hone, htwo⟩ := ih
    refine ⟨v.acquire 1, ?_, ?_, hone, htwo⟩
    · rw [UInt16.ofNat_add (k + 1) 1]
      exact .call h (show (Call.ent 1).Proper v from trivial) trivial (ent_referenced _) (by simp)
    · simp [View.acquire, hrefs]

/-- After 65536 references the count is 0, and the entry is given to another tag. -/
theorem referenced_evicted :
    ∃ (c : Cache Nat) (v : View Nat), Run (fun _ _ ↦ True) 1 c v ∧ ¬Transparent c v := by
  obtain ⟨v, h, hrefs, hone, htwo⟩ := run_referenced 65535
  refine ⟨_, v, h, fun ht ↦ ?_⟩
  have hevict : (Call.alloc 2).run (referenced (UInt16.ofNat (65535 + 1))) = (.ok 0, _) := rfl
  rcases ht.pinned (.alloc 2) 2 0 _ rfl htwo hevict 1 0 hone with h | h
  · exact absurd h (by decide)
  · omega

end Overflow

end HiStar.Btree
