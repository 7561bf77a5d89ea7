import HiStar.Pagetree.Calls

namespace HiStar.Pagetree

open Lib Function

variable {α : Type} {s t : Mem α} {pt n p q new parent : Nat} {e : Ent} {π : Pos}
  {other : Set Nat} {pos : Nat → Pos} {holders : Nat → Finset Ent} {env : Env}
  {rw : PageSharingMode}

theorem Found.page_eq (h : Ok other s) (hb : π.Bounded) (hf : Found s pt π (some e)) :
    s.page e = s.pageAt pt π :=
  (Leads.pageAt ⟨h, hb, hf.1, hf.2⟩ : s.pageAt pt π = s.page e).symm

theorem pagetreeGetPage_wp [Zero α] (h : Ok other s) (hpriv : s.Private pt)
    (hπ : place n = some π) : Wp (pagetreeGetPage env pt n rw) s
      (fun r t ↦ r = (s.pageAt pt π, false) ∧ Ok other t ∧ Keeps pt s t)
      (NoMem other pt s) := by
  obtain ⟨hb, hl⟩ := place_bounded hπ
  obtain ⟨pos, holders, hw⟩ := h
  by_cases hrw : rw = .sharedRo
  · subst hrw
    refine Wp.bind ((pagetreeGetEntp_ro ⟨pos, holders, hw⟩ hπ).mono (fun r t ⟨ht, hf⟩ ↦ ?_)
      fun _ _ he ↦ he.elim)
    obtain ⟨_ | e, parent⟩ := r
    · exact Wp.pure ⟨by rw [show s.pageAt pt π = 0 from hf], ⟨pos, holders, ht.wf hw⟩, ht.keeps⟩
    · refine wp_pageOf ?_
      rw [if_pos (.inl rfl), ht.page, hf.page_eq ⟨pos, holders, hw⟩ hb]
      exact Wp.pure ⟨rfl, ⟨pos, holders, ht.wf hw⟩, ht.keeps⟩
  · refine Wp.seq (pagetreeGetEntp_wp ⟨pos, holders, hw⟩ hπ hrw) fun r t ⟨e, he, hlead, hk⟩ ↦ ?_
    obtain ⟨r, parent⟩ := r
    subst he
    refine wp_pageOf ?_
    have hpage : t.page e = s.pageAt pt π := hlead.pageAt.symm.trans (hk.pageAt pt π hb hl)
    by_cases h0 : t.page e = 0
    · rw [if_pos (.inr h0), hpage]
      exact Wp.pure ⟨rfl, hlead.ok, hk⟩
    · rw [if_neg (by simp [hrw, h0])]
      obtain ⟨pos', holders', hw'⟩ := hlead.ok
      refine Wp.bind ((pagetreeCow_wp 5 hw' hlead.live).mono (fun b u hu ↦ ?_) fun _ _ he ↦
        (he.noMem hlead.ok).after hk)
      rcases hu with ⟨rfl, rfl, -⟩ | ⟨-, copy, ind, hf⟩
      · refine wp_pageOf (wp_setInfo (Wp.pure ?_))
        have hset : Touch u (u.setInfo (u.page e) fun i ↦ { i with piParent := parent }) :=
          .setParent (hw'.ref_pos hlead.live h0)
        exact ⟨by rw [hpage], ⟨pos', holders', hset.wf hw'⟩, hk.trans hset.keeps⟩
      · -- a page of a private tree is not shared
        have h1 := (hk.priv hpriv π hb (.inl hl) (by rwa [hlead.pageAt])).1
        have h2 := hf.shared h0
        rw [hlead.pageAt] at h1
        omega

def putEntry (e : Ent) (page parent : Nat) : Sys α Unit := do
  let old ← pageOf e
  Exec.when (old ≠ 0) (pagetreeDecref stackDepth old)
  Exec.when (page ≠ 0) (do
    pagetreeIncref page
    setInfo page fun i ↦ { i with piParent := parent })
  pagetreeSetEntry e page

def Mem.enter (s : Mem α) (new parent : Nat) : Mem α :=
  if new = 0 then s else
    (s.setInfo new fun i ↦ { i with piRef := i.piRef + 1 }).setInfo new
      fun i ↦ { i with piParent := parent }

def Mem.giveUp (s : Mem α) (old : Nat) : Mem α := if old = 0 then s else s.dropRef old

theorem Mem.giveUp_info_ne (s : Mem α) {old : Nat} (h : p ≠ old) :
    (s.giveUp old).info p = s.info p := by
  unfold giveUp
  split
  · rfl
  · exact update_of_ne h _ _

theorem Mem.enter_info_ne (s : Mem α) (h : p ≠ new) : (s.enter new parent).info p = s.info p := by
  unfold enter
  split
  · rfl
  · rw [setInfo_ne _ _ h, setInfo_ne _ _ h]

theorem Mem.enter_info_self (s : Mem α) (h : new ≠ 0) : (s.enter new parent).info new =
    { s.info new with piRef := (s.info new).piRef + 1, piParent := parent } := by
  rw [enter, if_neg h, setInfo_self, setInfo_self]

theorem Mem.giveUp_freeList (s : Mem α) (old : Nat) : (s.giveUp old).freeList =
    if old ≠ 0 ∧ (s.info old).piRef = 1 then old :: s.freeList else s.freeList := by
  unfold giveUp
  split
  next h0 => rw [if_neg fun h ↦ h.1 h0]
  next h0 =>
    unfold dropRef
    by_cases h1 : (s.info old).piRef = 1
    · rw [if_pos h1, if_pos ⟨h0, h1⟩]
    · rw [if_neg h1, if_neg fun h ↦ h1 h.2]

theorem Mem.enter_frame (s : Mem α) (new parent : Nat) : (s.enter new parent).page = s.page ∧
    (s.enter new parent).data = s.data ∧ (s.enter new parent).freeList = s.freeList := by
  unfold enter
  split <;> exact ⟨rfl, rfl, rfl⟩

theorem Mem.giveUp_frame (s : Mem α) (old : Nat) :
    (s.giveUp old).page = s.page ∧ (s.giveUp old).data = s.data := by
  unfold giveUp
  split <;> exact ⟨rfl, rfl⟩

theorem Wf.putOf (h : Wf other pos holders s) (hlive : s.Live e) (hleaf : ¬ (posOf pos e).Inner)
    (hnew : new = 0 ∨ new ∈ other) : PutOf other pos holders s
      (((s.giveUp (s.page e)).enter new parent).setPage e new) e new parent := by
  have hfresh : new ≠ 0 → s.info new = {} := fun h0 ↦ by
    have ho := hnew.resolve_left h0
    have hf : new ∉ s.freeList := fun hm ↦ ((h.mem_free new).mp hm).2.2 ho
    rw [h.clean new (h.other_ref new ho), decide_eq_false hf]
  have hne : s.page e ≠ 0 → s.page e ≠ new := by
    rintro h0 rfl
    have := h.ref_pos hlive h0
    rw [hfresh h0] at this
    exact absurd this (lt_irrefl 0)
  obtain ⟨hp, hd, hf⟩ := (s.giveUp (s.page e)).enter_frame new parent
  obtain ⟨hp', hd'⟩ := s.giveUp_frame (s.page e)
  refine ⟨⟨?_, hd.trans hd', fun h0 ↦ ?_, fun h0 ↦ ?_, fun p h0 hpn hpe ↦ ?_, ?_,
    hf.trans (s.giveUp_freeList _)⟩, h, hlive, hleaf, hnew⟩
  · show update ((s.giveUp (s.page e)).enter new parent).page e new = _
    rw [hp, hp']
  · have hn : new ≠ s.page e := by
      intro hn
      exact hne (hn ▸ h0) hn.symm
    rw [Mem.setPage_info, Mem.enter_info_self _ h0, Mem.giveUp_info_ne _ hn, hfresh h0]
  · rw [Mem.setPage_info, Mem.enter_info_ne _ (hne h0), Mem.giveUp, if_neg h0]
    exact update_self _ _ _
  · rw [Mem.setPage_info, Mem.enter_info_ne _ hpn, Mem.giveUp_info_ne _ hpe]
  · have hg : (s.giveUp (s.page e)).info 0 = s.info 0 := by
      unfold Mem.giveUp
      split
      · rfl
      next h0 => exact update_of_ne (Ne.symm h0) _ _
    rw [Mem.setPage_info, ← hg]
    by_cases h0 : new = 0
    · rw [Mem.enter, if_pos h0]
    · rw [Mem.enter_info_ne _ (Ne.symm h0)]

theorem putEntry_wp (h : Wf other pos holders s) (hlive : s.Live e)
    (hleaf : ¬ (posOf pos e).Inner) (hnew : new = 0 ∨ new ∈ other) :
    Wp (putEntry e new parent) s (fun _ t ↦ PutOf other pos holders s t e new parent)
      fun er _ ↦ er = .panic ∧ (s.info (s.page e)).Pinned := by
  have hend : ∀ u : Mem α, u = s.giveUp (s.page e) → Wp (do
      Exec.when (new ≠ 0) (do
        pagetreeIncref new
        setInfo new fun i ↦ { i with piParent := parent })
      pagetreeSetEntry e new) u (fun _ t ↦ PutOf other pos holders s t e new parent)
        fun er _ ↦ er = .panic ∧ (s.info (s.page e)).Pinned := by
    rintro u rfl
    have hput : PutOf other pos holders s
        (((s.giveUp (s.page e)).enter new parent).setPage e new) e new parent :=
      h.putOf hlive hleaf hnew
    refine Wp.bind (Wp.when (fun hb ↦ ?_) fun hb ↦ ?_)
    · have h0 : new ≠ 0 := of_decide_eq_true hb
      rw [Mem.enter, if_neg h0] at hput
      exact hput
    · have h0 : new = 0 := of_not_not (of_decide_eq_false hb)
      rw [Mem.enter, if_pos h0] at hput
      exact hput
  refine wp_pageOf (Wp.bind (Wp.when (fun hb ↦ ?_) fun hb ↦ ?_))
  · have h0 : s.page e ≠ 0 := of_decide_eq_true hb
    have hr := h.ref_pos hlive h0
    have hi : (s.info (s.page e)).piIndir = false := by
      by_contra hi
      rw [Bool.not_eq_false] at hi
      have hpos := h.pos_eq e hlive h0
      exact hleaf (hpos ▸ (h.indir_iff _ hr).mp hi)
    refine (pagetreeDecref_wp 5 hr hi).imp fun _ t ht ↦ hend t ?_
    rw [ht, Mem.giveUp, if_neg h0]
  · have h0 : s.page e = 0 := of_not_not (of_decide_eq_false hb)
    refine hend s ?_
    rw [Mem.giveUp, if_pos h0]

/-- The page at the place `π` of the tree is `new` afterwards, and the other pages of
the tree are where they were. -/
structure Placed (other : Set Nat) (pt : Nat) (π : Pos) (new : Nat) (s t : Mem α) : Prop where
  ok : Ok (other \ {new}) t
  pageAt_self : t.pageAt pt π = new
  pageAt_other : ∀ ρ, ρ.Bounded → ρ.Leaf → ρ ≠ π → t.pageAt pt ρ = s.pageAt pt ρ
  data : ∀ p, p ∉ s.freeList → t.data p = s.data p
  free : ∀ p, p ∈ t.freeList → p ∈ s.freeList ∨ p = s.pageAt pt π ∧ p ≠ 0
  pinned : ∀ p, p ∉ s.freeList → (t.info p).Pinned → (s.info p).Pinned
  priv : s.Private pt → t.Private pt

theorem PutOf.pinned' (hp : PutOf other pos holders s t e new parent)
    (h : (t.info p).Pinned) : (s.info p).Pinned := by
  by_cases h0 : p = 0
  · rw [h0, hp.info_null] at h
    rwa [h0]
  by_cases hn : p = new
  · rw [hn, hp.info_new (hn ▸ h0)] at h
    simp [PageInfo.Pinned] at h
  by_cases ho : p = s.page e
  · rw [ho, hp.info_old (ho ▸ h0), PageInfo.drop] at h
    split at h
    · simp [PageInfo.Pinned] at h
    · rw [ho]
      exact h
  · rwa [hp.info_other p h0 hn ho] at h

theorem PutOf.pageAt_inner (hp : PutOf other pos holders s t e new parent) (hb : π.Bounded)
    (hi : π.Inner) : t.pageAt pt π = s.pageAt pt π := by
  cases π with
  | direct i => exact hi.elim
  | node i path => exact hp.node_eq hb hi

theorem PutOf.placed (hp : PutOf other pos holders s t e new parent) (hb : π.Bounded)
    (hl : π.Leaf) (he : s.entAt pt π = e) : Placed other pt π new s t := by
  have hpos : posOf pos e = π := by
    rw [← he]
    exact hp.toWf.posOf_entAt hb (.inl hl) (he ▸ hp.live)
  have hpage : s.page e = s.pageAt pt π :=
    (Leads.pageAt ⟨⟨pos, holders, hp.toWf⟩, hb, he, hp.live⟩ : s.pageAt pt π = s.page e).symm
  have hother : ∀ ρ : Pos, ρ.Bounded → ρ.Leaf ∨ ρ.Inner → ρ ≠ π → t.pageAt pt ρ = s.pageAt pt ρ := by
    rintro ρ hρb (hρ | hρ) hne
    · exact hp.pageAt_other hρb hρ (hpos ▸ hne)
    · exact hp.pageAt_inner hρb hρ
  refine ⟨⟨_, _, hp.wf⟩, hp.pageAt_self hb hl he, fun ρ hρb hρ ↦ hother ρ hρb (.inl hρ),
    fun p _ ↦ by rw [hp.data], fun p hm ↦ ?_, fun p _ ↦ hp.pinned', fun hs ρ hρb hρ h0 ↦ ?_⟩
  · rcases hp.mem_free'.mp hm with hm | ⟨rfl, h0, -⟩
    · exact .inl hm
    · exact .inr ⟨hpage, h0⟩
  · by_cases hne : ρ = π
    · subst hne
      rw [hp.pageAt_self hb hl he] at h0 ⊢
      rw [hp.info_new h0]
      exact ⟨rfl, by simp [PageInfo.Pinned]⟩
    · rw [hother ρ hρb hρ hne] at h0 ⊢
      have hr := (hs ρ hρb hρ h0).1
      have hn : s.pageAt pt ρ ≠ new := by
        intro hn
        rw [hn, hp.new_ref] at hr
        cases hr
      have hold : s.pageAt pt ρ ≠ s.page e := by
        intro hold
        have hρpos := hp.toWf.pageAt_pos hρb hρ h0
        rw [hold, hp.pos_eq e hp.live (hold ▸ h0), hpos] at hρpos
        exact hne hρpos.symm
      rw [hp.info_other _ h0 hn hold]
      exact hs ρ hρb hρ h0

theorem Placed.of_keeps {s' : Mem α} (hk : Keeps pt s s') (hb : π.Bounded) (hl : π.Leaf)
    (h : Placed other pt π new s' t) : Placed other pt π new s t where
  ok := h.ok
  pageAt_self := h.pageAt_self
  pageAt_other ρ hρb hρ hne := (h.pageAt_other ρ hρb hρ hne).trans (hk.pageAt pt ρ hρb hρ)
  data p hp := (h.data p fun hm ↦ hp (hk.free p hm)).trans (hk.data p hp)
  free p hp := by
    rw [← hk.pageAt pt π hb hl]
    exact (h.free p hp).imp_left (hk.free p)
  pinned p hp hpin := hk.pinned p hp (h.pinned p (fun hm ↦ hp (hk.free p hm)) hpin)
  priv hs := h.priv (hk.priv hs)

theorem Wf.pageAt_ref (h : Wf other pos holders s) (hb : π.Bounded) (hl : π.Leaf)
    (h0 : s.pageAt pt π ≠ 0) : 0 < (s.info (s.pageAt pt π)).piRef := by
  cases π with
  | direct i => exact h.ref_pos (e := .direct pt i) hb h0
  | node i path => exact (h.node_pos hb (le_of_eq hl) h0).2

/-- `pagetree_put_page` replaces one page of the tree, and fails only for lack of
memory or if the old page is pinned. -/
theorem pagetreePutPage_wp [Zero α] (h : Ok other s) (hπ : place n = some π)
    (hnew : new = 0 ∨ new ∈ other) : Wp (pagetreePutPage env pt n new) s
      (fun _ t ↦ Placed other pt π new s t)
      fun er t ↦ NoMem other pt s er t ∨ er = .panic ∧ (s.info (s.pageAt pt π)).Pinned := by
  obtain ⟨hb, hl⟩ := place_bounded hπ
  refine Wp.bind ((pagetreeGetEntp_wp h hπ (by decide)).mono
    (fun r s' ⟨e, he, hlead, hk⟩ ↦ ?_) fun _ _ he ↦ .inl he)
  obtain ⟨r, parent⟩ := r
  subst he
  obtain ⟨pos, holders, hw⟩ := hlead.ok
  have hpos : posOf pos e = π := by
    rw [← hlead.entAt]
    exact hw.posOf_entAt hb (.inl hl) (hlead.entAt.symm ▸ hlead.live)
  change Wp (putEntry e new parent) s' _ _
  refine (putEntry_wp hw hlead.live (hpos ▸ hl.not_inner) hnew).mono (fun _ t hp ↦ ?_)
    fun er t ⟨hr, hpin⟩ ↦ .inr ⟨hr, ?_⟩
  · exact (hp.placed hb hl hlead.entAt).of_keeps hk hb hl
  · rw [← hlead.pageAt, hk.pageAt pt π hb hl] at hpin
    refine hk.pinned _ (fun hm ↦ ?_) hpin
    obtain ⟨pos₀, holders₀, hw₀⟩ := h
    have h0 := ((hw₀.mem_free _).mp hm).1
    exact hw₀.not_free (hw₀.pageAt_ref hb hl h0) hm

end HiStar.Pagetree
