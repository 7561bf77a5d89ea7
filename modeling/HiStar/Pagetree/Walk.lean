import HiStar.Pagetree.Cow

namespace HiStar.Pagetree

open Lib Function

variable {α : Type} {s t : Mem α} {pt i j n p parent : Nat} {path : List Nat} {e : Ent}
  {π : Pos} {other : Set Nat} {pos : Nat → Pos} {holders : Nat → Finset Ent} {env : Env}
  {rw : PageSharingMode}

def Ok (other : Set Nat) (s : Mem α) : Prop := ∃ pos holders, Wf other pos holders s

def NoMem (other : Set Nat) (pt : Nat) (s : Mem α) (er : Errno) (t : Mem α) : Prop :=
  er = .restart ∧ Ok other t ∧ Keeps pt s t

theorem NoMem.after {s' : Mem α} {er : Errno} (h : Keeps pt s s')
    (ht : NoMem other pt s' er t) : NoMem other pt s er t :=
  ⟨ht.1, ht.2.1, h.trans ht.2.2⟩

theorem Denied.noMem {er : Errno} (hw : Ok other s) (h : Denied s er t) :
    NoMem other pt s er t := by
  obtain ⟨pos, holders, hw⟩ := hw
  exact ⟨h.1, ⟨pos, holders, h.2.wf hw⟩, h.2.keeps⟩

theorem Wf.node_ne_zero (h : Wf other pos holders s) (hlive : s.Live (.entry (s.node pt i path) j)) :
    s.node pt i path ≠ 0 := h.ne_zero hlive.1

theorem Wf.node_entAt (h : Wf other pos holders s) (hlive : s.Live (s.entAt pt (.node i path))) :
    s.node pt i path = s.page (s.entAt pt (.node i path)) := by
  cases path with
  | nil => rfl
  | cons j path => exact Mem.node_cons (h.node_ne_zero hlive)

theorem newIndirect_wp [Zero α] (h : Wf other pos holders s) (hlive : s.Live e) (h0 : s.page e = 0)
    (hinner : (posOf pos e).Inner) :
    Wp (newIndirect env e) s (fun p t ↦ ForkOf other pos holders s t e p true) (Denied s) := by
  refine Wp.bind (pageAlloc_wp h (fun p rest hf ↦ ?_) fun _ _ he ↦ he)
  refine wp_modify (wp_setInfo (wp_modify (wp_setInfo (Wp.pure ?_))))
  have hp0 : 0 ≠ p := by
    rintro rfl
    exact ((h.mem_free 0).mp (hf ▸ List.mem_cons_self)).1 rfl
  refine ⟨⟨hf, ?_, fun q hq ↦ update_of_ne hq _ _, ⟨false, ?_⟩, fun h ↦ absurd h0 h,
    fun q hq _ _ ↦ ?_, ?_⟩, h, hlive, iff_of_true rfl hinner, fun h ↦ absurd h0 h⟩
  · rw [← s.clear_below h0]
    rfl
  · rw [Mem.setInfo_self, Mem.setPage_info, Mem.setInfo_self]
    simp [Mem.clear]
  · rw [Mem.setInfo_ne _ _ hq, Mem.setPage_info, Mem.setInfo_ne _ _ hq, h0, Mem.slotsOf,
      h.clean 0 h.null]
    exact update_of_ne hq _ _
  · rw [Mem.setInfo_ne _ _ hp0, Mem.setPage_info, Mem.setInfo_ne _ _ hp0]
    exact update_of_ne hp0 _ _

theorem Touch.setParent (hr : 0 < (s.info p).piRef) :
    Touch s (s.setInfo p fun i ↦ { i with piParent := parent }) := by
  have hinfo : ∀ q, (s.setInfo p fun i ↦ { i with piParent := parent }).info q = s.info q ∨
      q = p ∧ (s.setInfo p fun i ↦ { i with piParent := parent }).info q =
        { s.info q with piParent := parent } := by
    intro q
    by_cases hq : q = p
    · subst hq
      exact .inr ⟨rfl, Mem.setInfo_self _ _ _⟩
    · exact .inl (Mem.setInfo_ne _ _ hq)
  refine ⟨rfl, rfl, rfl, fun q ↦ ?_, fun q ↦ ?_, fun q ↦ ?_, fun q ↦ ?_, fun q h0 ↦ ?_,
    fun q h0 ↦ ?_⟩
  · rcases hinfo q with h | ⟨-, h⟩ <;> rw [h]
  · rcases hinfo q with h | ⟨-, h⟩ <;> rw [h]
  · rcases hinfo q with h | ⟨-, h⟩ <;> rw [h]
  · rcases hinfo q with h | ⟨-, h⟩ <;> rw [h]
  · rcases hinfo q with h | ⟨rfl, h⟩
    · exact h
    · omega
  · rcases hinfo q with h | ⟨-, h⟩ <;> rw [h] <;> exact h0

structure Leads (other : Set Nat) (pt : Nat) (π : Pos) (e : Ent) (s : Mem α) : Prop where
  ok : Ok other s
  bounded : π.Bounded
  entAt : s.entAt pt π = e
  live : s.Live e

theorem Leads.touch (h : Leads other pt π e s) (ht : Touch s t) : Leads other pt π e t := by
  obtain ⟨pos, holders, hw⟩ := h.ok
  exact ⟨⟨pos, holders, ht.wf hw⟩, h.bounded, (ht.entAt_eq π).trans h.entAt, ht.live_iff.mpr h.live⟩

theorem Leads.pageAt (h : Leads other pt π e s) : s.pageAt pt π = s.page e := by
  obtain ⟨pos, holders, hw⟩ := h.ok
  have hlive := h.live
  rw [← h.entAt] at hlive ⊢
  cases π with
  | direct i => rfl
  | node i path => exact hw.node_entAt hlive

theorem cowIndirect_wp (h : Leads other pt π e s) (hi : π.Inner) :
    Wp (pagetreeCow env stackDepth e) s
      (fun _ t ↦ Leads other pt π e t ∧ Keeps pt s t) (NoMem other pt s) := by
  obtain ⟨pos, holders, hw⟩ := h.ok
  refine (pagetreeCow_wp 5 hw h.live).mono (fun b t hb ↦ ?_) fun _ _ he ↦
    he.noMem h.ok
  rcases hb with ⟨-, rfl, -⟩ | ⟨-, copy, ind, hf⟩
  · exact ⟨h, .refl _⟩
  · have hpos : posOf pos e = π := by
      have hat : posOf pos (s.entAt pt π) = π :=
        hw.posOf_entAt h.bounded (.inr hi) (h.entAt.symm ▸ h.live)
      rwa [h.entAt] at hat
    refine ⟨⟨⟨_, _, hf.wf⟩, h.bounded, hf.entAt_eq h.bounded (.inr hi) h.entAt, ?_⟩,
      hf.keeps (hpos.symm ▸ hi) (h.pageAt) h.bounded (.inr hi)⟩
    exact (hf.live_iff (hf.ne_new h.live)).mpr h.live

section Walk

variable [Zero α]

theorem addIndirect_wp (h : Leads other pt π e s) (hi : π.Inner) (h0 : s.page e = 0) :
    Wp (newIndirect env e) s
      (fun p t ↦ Leads other pt π e t ∧ Keeps pt s t ∧ t.page e = p ∧ p ≠ 0) (NoMem other pt s) := by
  obtain ⟨pos, holders, hw⟩ := h.ok
  have hpos : posOf pos e = π := by
    have hat : posOf pos (s.entAt pt π) = π :=
      hw.posOf_entAt h.bounded (.inr hi) (h.entAt.symm ▸ h.live)
    rwa [h.entAt] at hat
  refine (newIndirect_wp hw h.live h0 (hpos.symm ▸ hi)).mono (fun p t hn ↦ ?_) fun _ _ he ↦
    he.noMem h.ok
  refine ⟨⟨⟨_, _, hn.wf⟩, h.bounded, hn.entAt_eq h.bounded (.inr hi) h.entAt, ?_⟩, hn.keeps (hpos.symm ▸ hi) h.pageAt h.bounded (.inr hi),
    hn.page_e, hn.new_ne_zero⟩
  exact (hn.live_iff (hn.ne_new h.live)).mpr h.live

theorem enterIndirect_wp (h : Leads other pt (.node i path) e s) (hi : path.length ≤ i)
    (hrw : rw ≠ .sharedRo) : Wp (enterIndirect env rw e parent) s
      (fun pip t ↦ Leads other pt (.node i path) e t ∧ Keeps pt s t ∧ t.node pt i path = pip ∧ pip ≠ 0)
      (NoMem other pt s) := by
  have hparent : ∀ s' pip, Leads other pt (.node i path) e s' → Keeps pt s s' → s'.page e = pip →
      pip ≠ 0 → Wp (do
        Exec.when (pip ≠ 0) (setInfo pip fun i ↦ { i with piParent := parent })
        pure pip : Sys α Nat) s' (fun pip t ↦ Leads other pt (.node i path) e t ∧ Keeps pt s t ∧
          t.node pt i path = pip ∧ pip ≠ 0) (NoMem other pt s) := by
    rintro s' pip hl hk rfl hp0
    obtain ⟨pos, holders, hw⟩ := hl.ok
    have ht : Touch s' (s'.setInfo (s'.page e) fun i ↦ { i with piParent := parent }) :=
      .setParent (hw.ref_pos hl.live hp0)
    refine Wp.bind (Wp.when (fun _ ↦ ?_) fun hb ↦ absurd hp0 (of_decide_eq_false hb))
    refine Wp.modify (Wp.pure ⟨hl.touch ht, hk.trans ht.keeps, ?_, hp0⟩)
    exact ht.node_eq.trans hl.pageAt
  refine Wp.bind (Wp.when (fun _ ↦ ?_) fun hb ↦ absurd hrw (of_decide_eq_false hb))
  refine Wp.seq (cowIndirect_wp h hi) fun _ s1 ⟨h1, hk1⟩ ↦ Wp.pure ?_
  refine wp_pageOf ?_
  split
  next h0 =>
    refine Wp.bind ((addIndirect_wp h1 hi h0.1).mono (fun p s2 ⟨h2, hk2, hp, hp0⟩ ↦ ?_)
      fun _ _ he ↦ he.after hk1)
    exact hparent s2 p h2 (hk1.trans hk2) hp hp0
  next h0 =>
    have hp0 : s1.page e ≠ 0 := fun hz ↦ h0 ⟨hz, hrw⟩
    exact hparent s1 _ h1 hk1 rfl hp0

theorem narrow32_eq (h : n < 2 ^ 32) : narrow32 n = n := Nat.mod_eq_of_lt h

theorem descend_lt {level : Nat} (hlevel : level + 1 < pagetreeIndirects)
    (hn : n < pagetreeEntriesPerPage ^ (level + 1 + 1)) :
    n / pagetreeEntriesPerPage ^ (level + 1) < 2 ^ 32 ∧
      n % pagetreeEntriesPerPage ^ (level + 1) < 2 ^ 32 := by
  have hslot := slot_lt hn
  have hmod : n % pagetreeEntriesPerPage ^ (level + 1) < pagetreeEntriesPerPage ^ (level + 1) :=
    Nat.mod_lt _ (Nat.pow_pos (by decide))
  have hpow : pagetreeEntriesPerPage ^ (level + 1) ≤ pagetreeEntriesPerPage ^ pagetreeIndirects :=
    Nat.pow_le_pow_right (by decide) hlevel.le
  have hle : pagetreeEntriesPerPage ^ pagetreeIndirects ≤ 2 ^ 32 := by decide
  have hent : pagetreeEntriesPerPage ≤ 2 ^ 32 := by decide
  exact ⟨lt_of_lt_of_le hslot hent, lt_of_lt_of_le hmod (hpow.trans hle)⟩

theorem getEntpIndirect_wp {level : Nat} (h : Leads other pt (.node i path) e s)
    (hlen : path.length + level = i) (hn : n < pagetreeEntriesPerPage ^ (level + 1))
    (hrw : rw ≠ .sharedRo) : Wp (pagetreeGetEntpIndirect env rw level e n parent) s
      (fun r t ↦ ∃ e', r.1 = some e' ∧
        Leads other pt (.node i (pathOf level n path)) e' t ∧ Keeps pt s t) (NoMem other pt s) := by
  induction level generalizing s e n path parent with
  | zero =>
    refine Wp.seq (enterIndirect_wp h (by omega) hrw) fun pip t ⟨hl, hk, hnode, h0⟩ ↦ ?_
    rw [if_neg h0]
    refine Wp.pure ⟨_, rfl, ⟨hl.ok, ⟨h.bounded.1, pathOf_lt hn h.bounded.2⟩, ?_, ?_⟩, hk⟩
    · exact congrArg (Ent.entry · n) hnode
    · obtain ⟨pos, holders, hw⟩ := hl.ok
      subst hnode
      obtain ⟨hpos, href⟩ := hw.node_pos hl.bounded (by omega) h0
      exact hw.live_of_node href hpos (by omega) (by simpa using hn)
  | succ level ih =>
    have hi : level + 1 < pagetreeIndirects := lt_of_le_of_lt (by omega) h.bounded.1
    obtain ⟨hq, hr⟩ := descend_lt hi hn
    have hslot := slot_lt hn
    refine Wp.seq (enterIndirect_wp h (by omega) hrw) fun pip t ⟨hl, hk, hnode, h0⟩ ↦ ?_
    rw [if_neg h0]
    simp only [narrow32_eq hq, narrow32_eq hr]
    refine wp_require_of (decide_eq_true hslot) ?_
    obtain ⟨pos, holders, hw⟩ := hl.ok
    subst hnode
    obtain ⟨hpos, href⟩ := hw.node_pos hl.bounded (by omega) h0
    have hnext : Leads other pt (.node i (n / pagetreeEntriesPerPage ^ (level + 1) :: path))
        (.entry (t.node pt i path) (n / pagetreeEntriesPerPage ^ (level + 1))) t := by
      refine ⟨hl.ok, ⟨h.bounded.1, fun j hj ↦ ?_⟩, rfl, hw.live_of_node href hpos (by omega) hslot⟩
      rcases List.mem_cons.mp hj with rfl | hj
      · exact hslot
      · exact h.bounded.2 j hj
    refine (ih hnext (by rw [List.length_cons]; omega)
      (Nat.mod_lt _ (Nat.pow_pos (by decide)))).mono (fun r u ⟨e', hr, hle, hku⟩ ↦ ?_)
      fun _ _ he ↦ he.after hk
    exact ⟨e', hr, hle, hk.trans hku⟩

end Walk

end HiStar.Pagetree
