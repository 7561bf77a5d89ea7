import HiStar.Pagetree.GetPut
import HiStar.Pagetree.Refused

namespace HiStar.Pagetree

open Lib Function

variable {α : Type} {s t s₀ : Mem α} {pt n p : Nat} {e : Ent} {π : Pos} {other : Set Nat}
  {pos : Nat → Pos} {holders : Nat → Finset Ent} {env : Env} {m : Nat → Nat}

/-- A page that `page_alloc` has returned and that nobody has put anywhere yet. -/
def Mem.Fresh (s : Mem α) (p : Nat) : Prop := p ≠ 0 ∧ (s.info p).piRef = 0 ∧ p ∉ s.freeList

def Mem.Empty (s : Mem α) (pt : Nat) : Prop :=
  ∀ i, s.page (.direct pt i) = 0 ∧ s.page (.indirect pt i) = 0

theorem Wf.fresh (h : Wf other pos holders s) (hp : s.Fresh p) : p ∈ other := by
  by_contra ho
  exact hp.2.2 ((h.mem_free p).mpr ⟨hp.1, hp.2.1, ho⟩)

def Mem.handOut (s : Mem α) (p : Nat) (rest : List Nat) : Mem α :=
  { s with freeList := rest, allocs := s.allocs + 1, info := update s.info p {} }

variable {rest : List Nat}

theorem Mem.handOut_self : (s.handOut p rest).info p = {} := update_self _ _ _

theorem Mem.handOut_ne {q : Nat} (h : q ≠ p) :
    (s.handOut p rest).info q = s.info q := update_of_ne h _ _

theorem Mem.handOut_live (hr : (s.info p).piRef = 0) : (s.handOut p rest).Live e ↔ s.Live e := by
  cases e with
  | direct => exact Iff.rfl
  | indirect => exact Iff.rfl
  | entry q j =>
    rw [Mem.live_entry, Mem.live_entry]
    by_cases hq : q = p
    · rw [hq, hr]
      rw [handOut_self]
      exact iff_of_false (fun h ↦ absurd h.1 (lt_irrefl 0)) fun h ↦ absurd h.1 (lt_irrefl 0)
    · rw [handOut_ne hq]

theorem Wf.handOut (h : Wf other pos holders s) (hf : s.freeList = p :: rest) :
    Wf (insert p other) pos holders (s.handOut p rest) := by
  have hm : p ∈ s.freeList := hf ▸ List.mem_cons_self
  obtain ⟨h0, hr, ho⟩ := (h.mem_free p).mp hm
  have href : ∀ q, ((s.handOut p rest).info q).piRef = (s.info q).piRef := by
    intro q
    by_cases hq : q = p
    · rw [hq, hr, Mem.handOut_self]
    · rw [Mem.handOut_ne hq]
  have hinfo : ∀ q, 0 < (s.info q).piRef → (s.handOut p rest).info q = s.info q := by
    intro q hq
    refine Mem.handOut_ne ?_
    rintro rfl
    omega
  have hmem : ∀ q, q ∈ rest ↔ q ∈ s.freeList ∧ q ≠ p := fun q ↦ mem_tail_iff hf h.nodup
  refine ⟨(href 0).trans h.null, fun q hq x ↦ ?_, fun q hq ↦ (href q).trans (h.ref_eq q hq),
    fun x hx ↦ h.pos_eq x ((Mem.handOut_live hr).mp hx), fun q hq ↦ ?_, fun q ↦ ?_, ?_,
    fun q hq ↦ ?_, fun q hq ↦ ?_, fun q hq ↦ ?_, fun q hq ↦ ?_, fun q i hl hq hpin ↦ ?_⟩
  · rw [h.mem_holders q hq, Mem.handOut_live hr]
    exact Iff.rfl
  · rw [href] at hq
    rw [hinfo q hq]
    exact h.indir_iff q hq
  · rw [href]
    show q ∈ rest ↔ _
    rw [hmem, h.mem_free, Set.mem_insert_iff]
    tauto
  · exact (List.nodup_cons.mp (hf ▸ h.nodup)).2
  · rw [href]
    rcases hq with rfl | hq
    · exact hr
    · exact h.other_ref q hq
  · rw [href] at hq
    show (s.handOut p rest).info q = { piFreepage := decide (q ∈ rest) }
    by_cases hqp : q = p
    · have hnot : q ∉ rest := fun hm ↦ ((hmem q).mp hm).2 hqp
      rw [decide_eq_false hnot, hqp, Mem.handOut_self]
    · rw [Mem.handOut_ne hqp, h.clean q hq]
      have : q ∈ rest ↔ q ∈ s.freeList := by
        rw [hmem]
        exact and_iff_left hqp
      simp [this]
  · by_cases hqp : q = p
    · rw [hqp, Mem.handOut_self]
    · rw [Mem.handOut_ne hqp] at hq ⊢
      exact h.read_pin q hq
  · by_cases hqp : q = p
    · rw [hqp, Mem.handOut_self] at hq
      exact absurd rfl hq
    · rw [Mem.handOut_ne hqp] at hq ⊢
      exact h.pin_ref q hq
  · have hl' := (Mem.handOut_live hr).mp hl
    replace hpin : ((s.handOut p rest).info (s.page (.entry q i))).piHwWritePin ≠ 0 := hpin
    rw [hinfo _ (h.ref_pos hl' hq)] at hpin
    rw [hinfo q hl'.1]
    exact h.pin_up q i hl' hq hpin

/-- The states that the calls on the tree `pt` lead to, whether they succeed or not, and the
map of what has been put where. -/
inductive Reached [Zero α] (env : Env) (pt : Nat) (s₀ : Mem α) : (Nat → Nat) → Mem α → Prop
  | init : Reached env pt s₀ (fun _ ↦ 0) s₀
  | alloc {m : Nat → Nat} {s t : Mem α} {r : Except Errno Nat} :
      Reached env pt s₀ m s → pageAlloc env s = (r, t) → Reached env pt s₀ m t
  | put {m : Nat → Nat} {s t : Mem α} {n p : Nat} :
      Reached env pt s₀ m s → p = 0 ∨ s.Fresh p → pagetreePutPage env pt n p s = (.ok (), t) →
      Reached env pt s₀ (update m n p) t
  | putFails {m : Nat → Nat} {s t : Mem α} {n p : Nat} {er : Errno} :
      Reached env pt s₀ m s → p = 0 ∨ s.Fresh p → pagetreePutPage env pt n p s = (.error er, t) →
      Reached env pt s₀ m t
  | get {m : Nat → Nat} {s t : Mem α} {n : Nat} {rw : PageSharingMode}
      {r : Except Errno (Nat × Bool)} :
      Reached env pt s₀ m s → pagetreeGetPage env pt n rw s = (r, t) → Reached env pt s₀ m t

structure Holds (pt : Nat) (m : Nat → Nat) (s : Mem α) : Prop where
  ok : ∃ other, Ok other s
  priv : s.Private pt
  pageAt : ∀ n π, place n = some π → s.pageAt pt π = m n

theorem Mem.Empty.node_eq {i : Nat} {path : List Nat} (h : s.Empty pt) : s.node pt i path = 0 := by
  induction path with
  | nil => exact (h i).2
  | cons j path ih => exact Mem.node_cons_zero ih

theorem Mem.Empty.pageAt_eq (h : s.Empty pt) : s.pageAt pt π = 0 := by
  cases π with
  | direct i => exact (h i).1
  | node i path => exact h.node_eq

theorem Holds.init (hok : ∃ other, Ok other s) (h : s.Empty pt) : Holds pt (fun _ ↦ 0) s :=
  ⟨hok, fun _ _ _ h0 ↦ absurd h.pageAt_eq h0, fun _ _ _ ↦ h.pageAt_eq⟩

theorem Holds.of_keeps (h : Holds pt m s) (hok : Ok other t) (hk : Keeps pt s t) :
    Holds pt m t := by
  refine ⟨⟨other, hok⟩, hk.priv h.priv, fun n π hπ ↦ ?_⟩
  obtain ⟨hb, hl⟩ := place_bounded hπ
  exact (hk.pageAt pt π hb hl).trans (h.pageAt n π hπ)

theorem Holds.of_placed (h : Holds pt m s) (hπ : place n = some π)
    (hp : Placed other pt π p s t) : Holds pt (update m n p) t := by
  refine ⟨⟨_, hp.ok⟩, hp.priv h.priv, fun k ρ hρ ↦ ?_⟩
  obtain ⟨hb, hl⟩ := place_bounded hρ
  by_cases hk : k = n
  · subst hk
    cases hπ.symm.trans hρ
    rw [hp.pageAt_self, update_self]
  · have hne : ρ ≠ π := by
      rintro rfl
      exact hk (place_inj hρ hπ)
    rw [hp.pageAt_other ρ hb hl hne, update_of_ne hk]
    exact h.pageAt k ρ hρ

theorem Holds.handOut (h : Holds pt m s) (hf : s.freeList = p :: rest) :
    Holds pt m (s.handOut p rest) := by
  obtain ⟨other, pos, holders, hw⟩ := h.ok
  have hr : (s.info p).piRef = 0 := ((hw.mem_free p).mp (hf ▸ List.mem_cons_self)).2.1
  have hat : ∀ π, (s.handOut p rest).pageAt pt π = s.pageAt pt π := by
    have hnode : ∀ i path, (s.handOut p rest).node pt i path = s.node pt i path := by
      intro i path
      induction path with
      | nil => rfl
      | cons j path ih =>
        unfold Mem.node
        rw [ih]
        rfl
    rintro (i | ⟨i, path⟩)
    · rfl
    · exact hnode i path
  refine ⟨⟨_, _, _, hw.handOut hf⟩, fun π hb hl h0 ↦ ?_, fun n π hπ ↦ (hat π).trans (h.pageAt n π hπ)⟩
  rw [hat] at h0 ⊢
  have h1 := h.priv π hb hl h0
  have hne : s.pageAt pt π ≠ p := by
    intro hp
    rw [hp, hr] at h1
    cases h1.1
  rwa [Mem.handOut_ne hne]

/-- A call that finds no memory has not changed the map. -/
def Refusal (pt : Nat) (m : Nat → Nat) (s : Mem α) (er : Errno) (t : Mem α) : Prop :=
  er = .restart ∧ s.refused < t.refused ∧ Holds pt m t

theorem Holds.refusal {β : Type} {c : Sys α β} {Q : β → Mem α → Prop} (h : Holds pt m s)
    (hc : Honest c) (hw : Wp c s Q (NoMem other pt s)) : Wp c s Q (Refusal pt m s) := by
  refine (hw.and (hc s)).mono (fun _ _ ht ↦ ht.1) fun er t ⟨⟨her, hok, hk⟩, _, href⟩ ↦ ?_
  exact ⟨her, href her, h.of_keeps hok hk⟩

section Calls

variable [Zero α]

variable {rw : PageSharingMode}

theorem pagetreeGetPage_noSpace (hn : pagetreeMaxpages ≤ n) :
    pagetreeGetPage env pt n rw s = (.error .noSpace, s) := by
  unfold pagetreeGetPage
  rw [bind_apply, pagetreeGetEntp_noSpace hn]

theorem pagetreePutPage_noSpace (hn : pagetreeMaxpages ≤ n) :
    pagetreePutPage env pt n p s = (.error .noSpace, s) := by
  unfold pagetreePutPage
  rw [bind_apply, pagetreeGetEntp_noSpace hn]

theorem place_of_lt (hn : n < pagetreeMaxpages) : ∃ π, place n = some π := by
  rcases hπ : place n with _ | π
  · exact absurd (place_eq_none.mp hπ) (by omega)
  · exact ⟨π, rfl⟩

theorem Holds.get_wp (h : Holds pt m s) (hn : n < pagetreeMaxpages) :
    Wp (pagetreeGetPage env pt n rw) s (fun r t ↦ r = (m n, false) ∧ Holds pt m t)
      (Refusal pt m s) := by
  obtain ⟨π, hπ⟩ := place_of_lt hn
  obtain ⟨other, hok⟩ := h.ok
  refine (h.refusal (.getPage env rw pt n) (pagetreeGetPage_wp hok h.priv hπ)).imp fun r t ht ↦ ?_
  obtain ⟨hr, ht, hk⟩ := ht
  exact ⟨by rw [hr, h.pageAt n π hπ], h.of_keeps ht hk⟩

theorem Holds.put_wp (h : Holds pt m s) (hn : n < pagetreeMaxpages) (hp : p = 0 ∨ s.Fresh p) :
    Wp (pagetreePutPage env pt n p) s (fun _ t ↦ Holds pt (update m n p) t)
      (Refusal pt m s) := by
  obtain ⟨π, hπ⟩ := place_of_lt hn
  obtain ⟨hb, hl⟩ := place_bounded hπ
  obtain ⟨other, pos, holders, hw⟩ := h.ok
  have hother : p = 0 ∨ p ∈ other := hp.imp_right hw.fresh
  -- a page of a private tree is not pinned, so that it can be freed
  have hunpinned : ¬ (s.info (s.pageAt pt π)).Pinned := by
    by_cases h0 : s.pageAt pt π = 0
    · rw [h0, hw.clean 0 hw.null]
      simp [PageInfo.Pinned]
    · exact (h.priv π hb (.inl hl) h0).2
  refine (h.refusal (.putPage env pt n p) ((pagetreePutPage_wp ⟨pos, holders, hw⟩ hπ hother).mono
    (fun _ _ ht ↦ ht) fun _ _ he ↦ he.resolve_right fun hpin ↦ hunpinned hpin.2)).imp
    fun _ t ht ↦ h.of_placed hπ ht

theorem Reached.holds (hok : ∃ other, Ok other s₀) (hempty : s₀.Empty pt)
    (h : Reached env pt s₀ m s) : Holds pt m s := by
  induction h with
  | init => exact .init hok hempty
  | @alloc m s t r _ hc ih =>
    obtain ⟨other, pos, holders, hw⟩ := ih.ok
    have hkeep : Wp (pageAlloc env) s (fun _ t ↦ Holds pt m t) (fun _ t ↦ Holds pt m t) :=
      pageAlloc_wp hw (fun p rest hf ↦ ih.handOut hf) fun _ _ hd ↦
        ih.of_keeps ⟨pos, holders, hd.2.wf hw⟩ hd.2.keeps
    cases r with
    | ok p => exact hkeep.ok hc
    | error er => exact hkeep.error hc
  | @put _ s _ n _ _ hp hc ih =>
    by_cases hn : n < pagetreeMaxpages
    · exact (ih.put_wp hn hp).ok hc
    · rw [pagetreePutPage_noSpace (Nat.le_of_not_lt hn)] at hc
      cases hc
  | @putFails _ s _ n _ _ _ hp hc ih =>
    by_cases hn : n < pagetreeMaxpages
    · exact ((ih.put_wp hn hp).error hc).2.2
    · rw [pagetreePutPage_noSpace (Nat.le_of_not_lt hn)] at hc
      cases hc
      exact ih
  | @get _ s _ n _ r _ hc ih =>
    by_cases hn : n < pagetreeMaxpages
    · cases r with
      | ok r => exact ((ih.get_wp hn).ok hc).2
      | error er => exact ((ih.get_wp hn).error hc).2.2
    · rw [pagetreeGetPage_noSpace (Nat.le_of_not_lt hn)] at hc
      cases hc
      exact ih

theorem pagetreeGetEntp_entAt {q : Nat} (h : Ok other s)
    (hc : pagetreeGetEntp env rw pt n s = (.ok (some e, q), t)) :
    ∃ π, place n = some π ∧ Leads other pt π e t := by
  by_cases hn : n < pagetreeMaxpages
  · obtain ⟨π, hπ⟩ := place_of_lt hn
    refine ⟨π, hπ, ?_⟩
    by_cases hrw : rw = .sharedRo
    · subst hrw
      obtain ⟨ht, hf⟩ := (pagetreeGetEntp_ro h hπ).ok hc
      exact Leads.touch ⟨h, (place_bounded hπ).1, hf.1, hf.2⟩ ht
    · obtain ⟨e', he, hlead, -⟩ := (pagetreeGetEntp_wp h hπ hrw).ok hc
      cases he
      exact hlead
  · rw [pagetreeGetEntp_noSpace (Nat.le_of_not_lt hn)] at hc
    cases hc

theorem entries_distinct {n' q q' : Nat} {e' : Ent} {u : Mem α}
    (h : Ok other s) (hne : n ≠ n') (hc : pagetreeGetEntp env rw pt n s = (.ok (some e, q), t))
    (hc' : pagetreeGetEntp env .sharedRo pt n' t = (.ok (some e', q'), u)) : e ≠ e' := by
  rintro rfl
  obtain ⟨π, hπ, hl⟩ := pagetreeGetEntp_entAt h hc
  by_cases hn' : n' < pagetreeMaxpages
  · obtain ⟨π', hπ'⟩ := place_of_lt hn'
    obtain ⟨-, hf⟩ := (pagetreeGetEntp_ro hl.ok hπ').ok hc'
    obtain ⟨pos, holders, hw⟩ := hl.ok
    -- the place can be read off the entry
    have h1 := hw.posOf_entAt hl.bounded (.inl (place_bounded hπ).2) (hl.entAt.symm ▸ hl.live)
    have h2 := hw.posOf_entAt (place_bounded hπ').1 (.inl (place_bounded hπ').2)
      (hf.1.symm ▸ hf.2)
    rw [hl.entAt] at h1
    rw [hf.1, h1] at h2
    subst h2
    exact hne (place_inj hπ hπ')
  · rw [pagetreeGetEntp_noSpace (Nat.le_of_not_lt hn')] at hc'
    cases hc'

/-- A page tree is a map from page numbers to pages, as long as each page that is put
is new. A call fails only when one of its own calls of `page_alloc` has found no memory,
and then the map is as it was. -/
theorem page_tree_is_map (hok : ∃ other, Ok other s₀) (hempty : s₀.Empty pt)
    (h : Reached env pt s₀ m s) :
    (∀ n, n < pagetreeMaxpages → ∀ rw,
      (∃ t, pagetreeGetPage env pt n rw s = (.ok (m n, false), t)) ∨
      ∃ t, pagetreeGetPage env pt n rw s = (.error .restart, t) ∧ s.refused < t.refused) ∧
    (∀ n, n < pagetreeMaxpages → ∀ p, p = 0 ∨ s.Fresh p →
      (∃ t, pagetreePutPage env pt n p s = (.ok (), t)) ∨
      ∃ t, pagetreePutPage env pt n p s = (.error .restart, t) ∧ s.refused < t.refused) ∧
    (∀ n, pagetreeMaxpages ≤ n → (∀ rw, pagetreeGetPage env pt n rw s = (.error .noSpace, s)) ∧
      ∀ p, pagetreePutPage env pt n p s = (.error .noSpace, s)) ∧
    (∀ n n' rw e e' q q' t u, n ≠ n' → pagetreeGetEntp env rw pt n s = (.ok (some e, q), t) →
      pagetreeGetEntp env .sharedRo pt n' t = (.ok (some e', q'), u) → e ≠ e') ∧
    ∀ level n, level + 1 < pagetreeIndirects → n < pagetreeEntriesPerPage ^ (level + 2) →
      narrow32 (n / pagetreeEntriesPerPage ^ (level + 1)) =
        n / pagetreeEntriesPerPage ^ (level + 1) ∧
      narrow32 (n % pagetreeEntriesPerPage ^ (level + 1)) =
        n % pagetreeEntriesPerPage ^ (level + 1) := by
  have hh := h.holds hok hempty
  refine ⟨fun n hn rw ↦ ?_, fun n hn p hp ↦ ?_, fun n hn ↦ ?_, ?_, fun level n hl hn ↦ ?_⟩
  · have hw : Wp (pagetreeGetPage env pt n rw) s _ _ := hh.get_wp hn
    rcases hc : pagetreeGetPage env pt n rw s with ⟨er | r, t⟩
    · obtain ⟨rfl, hlt, -⟩ := hw.error hc
      exact .inr ⟨t, rfl, hlt⟩
    · obtain ⟨rfl, -⟩ := hw.ok hc
      exact .inl ⟨t, rfl⟩
  · have hw : Wp (pagetreePutPage env pt n p) s _ _ := hh.put_wp hn hp
    rcases hc : pagetreePutPage env pt n p s with ⟨er | r, t⟩
    · obtain ⟨rfl, hlt, -⟩ := hw.error hc
      exact .inr ⟨t, rfl, hlt⟩
    · exact .inl ⟨t, rfl⟩
  · exact ⟨fun rw ↦ pagetreeGetPage_noSpace hn, fun p ↦ pagetreePutPage_noSpace hn⟩
  · intro n n' rw e e' q q' t u hne hc hc'
    obtain ⟨other, hok⟩ := hh.ok
    exact entries_distinct hok hne hc hc'
  · obtain ⟨hq, hr⟩ := descend_lt hl hn
    exact ⟨narrow32_eq hq, narrow32_eq hr⟩

end Calls

def Mem.boot (frames : List Nat) : Mem Nat where
  info p := { piFreepage := decide (p ∈ frames) }
  page _ := 0
  data _ := 0
  freeList := frames
  allocs := 0
  refused := 0

theorem Mem.boot_ok {frames : List Nat} (hnd : frames.Nodup) (h0 : 0 ∉ frames) :
    Ok {p | p ∉ frames} (Mem.boot frames) := by
  refine ⟨fun _ ↦ .direct 0, fun _ ↦ ∅, rfl, fun p hp e ↦ ?_, fun _ _ ↦ rfl,
    fun e _ h ↦ absurd rfl h, fun p h ↦ absurd h (lt_irrefl 0), fun p ↦ ?_, hnd, fun _ _ ↦ rfl,
    fun _ _ ↦ rfl, fun _ _ ↦ rfl, fun _ _ ↦ Nat.zero_le _, fun p i _ h ↦ absurd rfl h⟩
  · exact iff_of_false (Finset.notMem_empty e) fun h ↦ hp h.2.symm
  · refine ⟨fun hm ↦ ⟨?_, rfl, fun h ↦ h hm⟩, fun h ↦ of_not_not h.2.2⟩
    rintro rfl
    exact h0 hm

def quiet : Env := ⟨fun _ ↦ false, fun _ ↦ 0⟩

/-- Two pages are put, one below an indirect page, and a call for a page number that is too
large fails in between. -/
theorem page_five_found :
    ∃ s, Reached quiet 0 (Mem.boot [1, 2, 3, 4]) (update (update (fun _ ↦ 0) 5 1) 2 2) s ∧
      ((∃ t, pagetreeGetPage quiet 0 5 .exclDirty s = (.ok (1, false), t)) ∨
        ∃ t, pagetreeGetPage quiet 0 5 .exclDirty s = (.error .restart, t) ∧
          s.refused < t.refused) := by
  have hput : Reached quiet 0 (Mem.boot [1, 2, 3, 4]) (update (fun _ ↦ 0) 5 1)
      (pagetreePutPage quiet 0 5 1 (pageAlloc quiet (pageAlloc quiet
        (Mem.boot [1, 2, 3, 4])).2).2).2 :=
    .put (.alloc (.alloc .init rfl) rfl) (.inr ⟨by decide, rfl, by decide⟩) rfl
  have hfail := Reached.putFails (n := pagetreeMaxpages) (p := 2) hput
    (.inr ⟨by decide, rfl, by decide⟩) (pagetreePutPage_noSpace le_rfl)
  have hr := Reached.put (n := 2) (p := 2) hfail (.inr ⟨by decide, rfl, by decide⟩) rfl
  exact ⟨_, hr, (page_tree_is_map ⟨_, Mem.boot_ok (by decide) (by decide)⟩
    (fun _ ↦ ⟨rfl, rfl⟩) hr).1 5 (by decide) .exclDirty⟩

/-- A page that is put at two numbers is copied when it is fetched for writing. -/
theorem shared_page_copied :
    ((do
      let p ← pageAlloc quiet
      pagetreePutPage quiet 0 0 p
      pagetreePutPage quiet 0 1 p
      let r ← pagetreeGetPage quiet 0 0 .exclDirty
      pure (p, r) : Sys Nat (Nat × Nat × Bool)) (Mem.boot [1, 2, 3])).1 = .ok (1, 2, true) := rfl

end HiStar.Pagetree
