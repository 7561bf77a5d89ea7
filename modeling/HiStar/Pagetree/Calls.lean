import HiStar.Pagetree.Walk

namespace HiStar.Pagetree

open Lib Function

variable {α : Type} {s t : Mem α} {pt i j n p new parent : Nat} {path : List Nat} {e : Ent}
  {π : Pos} {other : Set Nat} {pos : Nat → Pos} {holders : Nat → Finset Ent} {env : Env}
  {rw : PageSharingMode}

def Mem.dropRef (s : Mem α) (p : Nat) : Mem α :=
  { s with
    info := update s.info p (s.info p).drop
    freeList := if (s.info p).piRef = 1 then p :: s.freeList else s.freeList }

theorem pagetreeDecref_wp (depth : Nat) (hr : 0 < (s.info p).piRef)
    (hi : (s.info p).piIndir = false) : Wp (pagetreeDecref (depth + 1) p) s
      (fun _ t ↦ t = s.dropRef p) fun er _ ↦ er = .panic ∧ (s.info p).Pinned := by
  have hdec : dec32 (s.info p).piRef = (s.info p).piRef - 1 := if_neg (by omega)
  refine wp_setInfo (wp_infoOf ?_)
  rw [Mem.setInfo_self]
  refine Wp.when (fun hz ↦ ?_) fun hz ↦ ?_
  · have h1 : (s.info p).piRef = 1 := by
      have : dec32 (s.info p).piRef = 0 := of_decide_eq_true hz
      omega
    refine wp_infoOf (wp_require (fun _ ↦ ?_) fun hu ↦ ⟨rfl, ?_⟩)
    · rw [Mem.setInfo_self]
      refine Wp.bind (Wp.when (fun h ↦ ?_) fun _ ↦ ?_)
      · rw [show (s.info p).piIndir = true from h] at hi
        cases hi
      · refine wp_setInfo (wp_infoOf (wp_require_of (by rw [Mem.setInfo_self]; rfl) (wp_setInfo ?_)))
        unfold Mem.dropRef PageInfo.drop
        rw [if_pos h1, if_pos h1]
        show Mem.mk _ _ _ _ _ _ = Mem.mk _ _ _ _ _ _
        congr 1
        simp only [Mem.setInfo, update_idem, update_self]
    · rw [Mem.setInfo_self] at hu
      by_contra hpin
      simp only [PageInfo.Pinned, not_or, not_not] at hpin
      simp [PageInfo.unused, hpin, h1] at hu
      exact hu rfl
  · have h1 : (s.info p).piRef ≠ 1 := by
      have : dec32 (s.info p).piRef ≠ 0 := of_decide_eq_false hz
      omega
    unfold Mem.dropRef PageInfo.drop
    rw [if_neg h1, if_neg h1, ← hdec]
    rfl

def Found (s : Mem α) (pt : Nat) (π : Pos) : Option Ent → Prop
  | none => s.pageAt pt π = 0
  | some e => s.entAt pt π = e ∧ s.Live e

theorem Mem.node_pathOf_zero (level : Nat) (h : s.node pt i path = 0) :
    s.node pt i (pathOf level n path) = 0 := by
  induction level generalizing n path with
  | zero => exact Mem.node_cons_zero h
  | succ level ih => exact ih (Mem.node_cons_zero h)

theorem Found.of_touch {r : Option Ent} (ht : Touch s t) (h : Found t pt π r) : Found s pt π r := by
  cases r with
  | none => exact (ht.pageAt_eq π).symm.trans h
  | some e => exact ⟨(ht.entAt_eq π).symm.trans h.1, ht.live_iff.mp h.2⟩

theorem Leads.indirect (h : Ok other s) (hi : i < pagetreeIndirects) :
    Leads other pt (.node i []) (.indirect pt i) s := ⟨h, ⟨hi, by simp⟩, rfl, hi⟩

section Find

variable [Zero α]

theorem getEntpFrom_cases {k : Nat} (env : Env) (rw : PageSharingMode) (pt : Nat)
    (hπ : placeFrom k i n = some π) :
    ∃ i' m, i' < i + k ∧ m < pagetreeEntriesPerPage ^ (i' + 1) ∧ π = .node i' (pathOf i' m []) ∧
      (getEntpFrom env rw pt k i n : Sys α _) =
        pagetreeGetEntpIndirect env rw i' (.indirect pt i') m 0 := by
  induction k generalizing i n with
  | zero => cases hπ
  | succ k ih =>
    unfold placeFrom at hπ
    unfold getEntpFrom
    split at hπ
    next hn =>
      cases hπ
      rw [if_pos hn]
      exact ⟨i, n, by omega, hn, rfl, rfl⟩
    next hn =>
      rw [if_neg hn]
      obtain ⟨i', m, hi, h⟩ := ih hπ
      exact ⟨i', m, by omega, h⟩

theorem pagetreeGetEntp_cases (env : Env) (rw : PageSharingMode) (pt : Nat)
    (hπ : place n = some π) :
    (π = .direct n ∧ (pagetreeGetEntp env rw pt n : Sys α _) = pure (some (.direct pt n), 0)) ∨
    ∃ i m, i < pagetreeIndirects ∧ m < pagetreeEntriesPerPage ^ (i + 1) ∧
      π = .node i (pathOf i m []) ∧ (pagetreeGetEntp env rw pt n : Sys α _) =
        pagetreeGetEntpIndirect env rw i (.indirect pt i) m 0 := by
  unfold place at hπ
  unfold pagetreeGetEntp
  split at hπ
  next hn =>
    cases hπ
    rw [if_pos hn]
    exact .inl ⟨rfl, rfl⟩
  next hn =>
    rw [if_neg hn]
    obtain ⟨i, m, hi, hm, hπ, he⟩ := getEntpFrom_cases (α := α) env rw pt hπ
    exact .inr ⟨i, m, by simpa using hi, hm, hπ, he⟩

theorem pagetreeGetEntp_wp (h : Ok other s) (hπ : place n = some π) (hrw : rw ≠ .sharedRo) :
    Wp (pagetreeGetEntp env rw pt n) s
      (fun r t ↦ ∃ e, r.1 = some e ∧ Leads other pt π e t ∧ Keeps pt s t)
      (NoMem other pt s) := by
  rcases pagetreeGetEntp_cases (α := α) env rw pt hπ with ⟨rfl, he⟩ | ⟨i, m, hi, hm, rfl, he⟩
  · rw [he]
    have hb := (place_bounded hπ).1
    exact Wp.pure ⟨_, rfl, ⟨h, hb, rfl, hb⟩, .refl s⟩
  · rw [he]
    exact getEntpIndirect_wp (.indirect h hi) (Nat.zero_add i) hm hrw

theorem getEntpFrom_noSpace {k : Nat} (hπ : placeFrom k i n = none) :
    getEntpFrom env rw pt k i n s = (.error .noSpace, s) := by
  induction k generalizing i n with
  | zero => rfl
  | succ k ih =>
    unfold placeFrom at hπ
    unfold getEntpFrom
    split at hπ
    · cases hπ
    next hn =>
      rw [if_neg hn]
      exact ih hπ

theorem pagetreeGetEntp_noSpace (hn : pagetreeMaxpages ≤ n) :
    pagetreeGetEntp env rw pt n s = (.error .noSpace, s) := by
  have hπ := place_eq_none.mpr hn
  unfold place at hπ
  unfold pagetreeGetEntp
  split at hπ
  · cases hπ
  next h =>
    rw [if_neg h]
    exact getEntpFrom_noSpace hπ

theorem enterIndirect_ro (h : Leads other pt (.node i path) e s) :
    Wp (enterIndirect env .sharedRo e parent) s
      (fun pip t ↦ Touch s t ∧ s.node pt i path = pip) fun _ _ ↦ False := by
  obtain ⟨pos, holders, hw⟩ := h.ok
  have hnode : s.node pt i path = s.page e := h.pageAt
  refine Wp.bind (Wp.when (fun hb ↦ absurd rfl (of_decide_eq_true hb)) fun _ ↦ wp_pageOf ?_)
  rw [if_neg fun h ↦ h.2 rfl]
  refine Wp.bind (Wp.pure (Wp.bind (Wp.when (fun hp ↦ ?_) fun _ ↦ Wp.pure ⟨.refl s, hnode⟩)))
  exact Wp.modify (Wp.pure ⟨.setParent (hw.ref_pos h.live (of_decide_eq_true hp)), hnode⟩)

theorem getEntpIndirect_ro {level : Nat} (h : Leads other pt (.node i path) e s)
    (hlen : path.length + level = i) (hn : n < pagetreeEntriesPerPage ^ (level + 1)) :
    Wp (pagetreeGetEntpIndirect env .sharedRo level e n parent) s
      (fun r t ↦ Touch s t ∧ Found s pt (.node i (pathOf level n path)) r.1) fun _ _ ↦ False := by
  obtain ⟨pos, holders, hw⟩ := h.ok
  induction level generalizing s e n path parent with
  | zero =>
    refine Wp.seq (enterIndirect_ro h) fun pip t ⟨ht, hnode⟩ ↦ ?_
    subst hnode
    split
    next h0 => exact Wp.pure ⟨ht, Mem.node_pathOf_zero 0 h0⟩
    next h0 =>
      obtain ⟨hpos, href⟩ := hw.node_pos h.bounded (by omega) h0
      exact Wp.pure ⟨ht, rfl, hw.live_of_node href hpos (by omega) (by simpa using hn)⟩
  | succ level ih =>
    have hi : level + 1 < pagetreeIndirects := lt_of_le_of_lt (by omega) h.bounded.1
    obtain ⟨hq, hr⟩ := descend_lt hi hn
    have hslot := slot_lt hn
    refine Wp.seq (enterIndirect_ro h) fun pip t ⟨ht, hnode⟩ ↦ ?_
    subst hnode
    split
    next h0 => exact Wp.pure ⟨ht, Mem.node_pathOf_zero (level + 1) h0⟩
    next h0 =>
      simp only [narrow32_eq hq, narrow32_eq hr]
      refine wp_require_of (decide_eq_true hslot) ?_
      obtain ⟨hpos, href⟩ := hw.node_pos h.bounded (by omega) h0
      have hnext : Leads other pt (.node i (n / pagetreeEntriesPerPage ^ (level + 1) :: path))
          (.entry (s.node pt i path) (n / pagetreeEntriesPerPage ^ (level + 1))) s := by
        refine ⟨h.ok, ⟨h.bounded.1, fun j hj ↦ ?_⟩, rfl, hw.live_of_node href hpos (by omega) hslot⟩
        rcases List.mem_cons.mp hj with rfl | hj
        · exact hslot
        · exact h.bounded.2 j hj
      refine (ih (hnext.touch ht) (by rw [List.length_cons]; omega)
        (Nat.mod_lt _ (Nat.pow_pos (by decide))) (ht.wf hw)).imp fun r u ⟨hu, hf⟩ ↦ ?_
      exact ⟨ht.trans hu, hf.of_touch ht⟩

theorem pagetreeGetEntp_ro (h : Ok other s) (hπ : place n = some π) :
    Wp (pagetreeGetEntp env .sharedRo pt n) s
      (fun r t ↦ Touch s t ∧ Found s pt π r.1) fun _ _ ↦ False := by
  rcases pagetreeGetEntp_cases (α := α) env .sharedRo pt hπ with ⟨rfl, he⟩ | ⟨i, m, hi, hm, rfl, he⟩
  · rw [he]
    exact Wp.pure ⟨.refl s, rfl, (place_bounded hπ).1⟩
  · rw [he]
    exact getEntpIndirect_ro (.indirect h hi) (Nat.zero_add i) hm

end Find

end HiStar.Pagetree
