import HiStar.Btree.CacheRuns

namespace HiStar.Btree

open Lib Function

variable {α : Type} {c c' : Cache α} {v : View α} {t u : UInt64} {i j : Nat} {x : α}

section Specs

theorem withRef_eq (hi : c.Has i t) (r : UInt16) : { c.cmeta i with ref := r } = ⟨true, r, t⟩ := by
  rw [← hi.inuse, ← hi.tag]

theorem Inv.ne_zero (h : Inv c v) (hi : c.Has i t) : t ≠ 0 := by
  rintro rfl
  exact h.nonzero i hi

theorem Inv.ent_eq (h : Inv c v) (hi : c.Has i t) :
    Cache.ent t c = (.ok i, (c.toTail i).setMeta i ⟨true, (c.cmeta i).ref + 1, t⟩) := by
  rw [Cache.ent, if_neg (h.ne_zero hi), h.find_eq hi]
  simp only [withRef_eq hi]

theorem Inv.ent_eq_none (h : Inv c v) (ht : t ≠ 0) (hnone : v.held t = none) :
    Cache.ent t c = (.error .notFound, c) := by
  rw [Cache.ent, if_neg ht, h.find_eq_none hnone]

theorem flushFrom_eq (is : List Nat) (c : Cache α) (h : ∀ i ∈ is, (c.cmeta i).ref = 0) :
    Cache.flushFrom is c = (.ok 0, { c with
      cmeta := fun i ↦ if i ∈ is then ⟨false, (c.cmeta i).ref, 0⟩ else c.cmeta i }) := by
  induction is generalizing c with
  | nil => simp [Cache.flushFrom]
  | cons i is ih =>
    have hother : ∀ j, ((c.setMeta i { c.cmeta i with inuse := false, tag := 0 }).cmeta j).ref =
        (c.cmeta j).ref := fun j ↦ by
      by_cases hj : j = i
      · subst hj
        simp [Cache.setMeta]
      · simp [Cache.setMeta, hj]
    rw [Cache.flushFrom, if_neg (not_not.mpr (h i List.mem_cons_self)), ih _ fun j hj ↦
      (hother j).trans (h j (List.mem_cons_of_mem i hj))]
    simp only [Cache.setMeta, Prod.mk.injEq, Cache.mk.injEq, true_and, and_true]
    funext j
    by_cases hj : j = i
    · subst hj
      simp
    · simp [hj]

variable [Zero α]

theorem Inv.alloc_cases (h : Inv c v) (hn : 0 < c.nEnt) (ht : t ≠ 0) :
    (∃ i x, i < c.nEnt ∧ (c.cmeta i).ref = 0 ∧
      Cache.alloc t c = (.ok i, ((c.fill i x).toTail i).setMeta i ⟨true, 1, t⟩)) ∨
    Cache.alloc t c = (.error .noSpace, c) ∧
      ∀ i < c.nEnt, (c.cmeta i).inuse = true ∧ (c.cmeta i).ref ≠ 0 := by
  rw [Cache.alloc, if_neg ht]
  cases hl : c.lruStack with
  | nil =>
    have hmem := (h.listed.mem 0).mpr hn
    rw [hl] at hmem
    cases hmem
  | cons cm rest =>
    dsimp only
    have hcm : cm < c.nEnt := (h.listed.mem cm).mp (hl ▸ List.mem_cons_self)
    by_cases hin : (c.cmeta cm).inuse = true
    · rw [if_pos hin]
      cases hf : (cm :: rest).find? fun i ↦ decide ((c.cmeta i).ref = 0) with
      | none =>
        refine .inr ⟨rfl, fun i hi ↦ ⟨h.listed.inuse hl hin hi, ?_⟩⟩
        have hmem := (h.listed.mem i).mpr hi
        rw [hl] at hmem
        simpa using List.find?_eq_none.mp hf i hmem
      | some i =>
        have hi := (h.listed.mem i).mp (hl ▸ List.mem_of_find?_eq_some hf)
        exact .inl ⟨i, 0, hi, by simpa using List.find?_some hf, rfl⟩
    · rw [if_neg hin]
      refine .inl ⟨cm, c.buf cm, hcm, h.idle cm hcm (by simpa using hin), ?_⟩
      rw [Cache.fill, update_eq_self]

theorem Inv.tryInsert_eq (h : Inv c v) (hi : c.Has i t) (src : α) :
    Cache.tryInsert t src c = Cache.ent t c := by
  rw [Cache.tryInsert, if_neg (h.ne_zero hi), h.ent_eq hi]

theorem Inv.tryInsert_cases (h : Inv c v) (hn : 0 < c.nEnt) (ht : t ≠ 0) (hnone : v.held t = none)
    (src : α) :
    (∃ i, i < c.nEnt ∧ (c.cmeta i).ref = 0 ∧ Cache.tryInsert t src c =
      (.ok i, ((c.fill i src).toTail i).setMeta i ⟨true, 1, t⟩)) ∨
    Cache.tryInsert t src c = (.error .noSpace, c) ∧
      ∀ i < c.nEnt, (c.cmeta i).inuse = true ∧ (c.cmeta i).ref ≠ 0 := by
  rw [Cache.tryInsert, if_neg ht, h.ent_eq_none ht hnone]
  rcases h.alloc_cases hn ht with ⟨i, x, hi, hfree, halloc⟩ | ⟨halloc, hfull⟩
  · refine .inl ⟨i, hi, hfree, ?_⟩
    simp only [halloc, Cache.fill, Cache.toTail, Cache.setMeta, update_idem]
  · refine .inr ⟨?_, hfull⟩
    simp only [halloc]

end Specs

section Calls

def Counted (v : View α) : Call α → Prop
  | .ent t | .tryInsert t _ => v.refs t < 65535
  | _ => True

theorem Inv.has_of_held (h : Inv c v) {e : Nat × α} (he : v.held t = some e) : c.Has e.1 t :=
  ((h.held t e.1 e.2).mp he).1

theorem Inv.acquire (h : Inv c v) (hi : c.Has i t) (hcount : v.refs t < 65535) :
    Inv ((c.toTail i).setMeta i ⟨true, (c.cmeta i).ref + 1, t⟩) (v.acquire t) := by
  refine h.recount hi ?_ (h.listed.toTail hi.lt rfl)
  have href := h.refs i t hi
  rw [UInt16.toNat_add, href]
  exact Nat.mod_eq_of_lt (by simp; omega)

theorem Inv.release (h : Inv c v) (hi : c.Has i t) (href : (c.cmeta i).ref ≠ 0) :
    Inv (c.setMeta i ⟨true, (c.cmeta i).ref - 1, t⟩) (v.release t) := by
  refine h.recount hi ?_ (h.listed.setMeta hi.inuse.symm)
  have hpos : 1 ≤ (c.cmeta i).ref := by
    rw [UInt16.le_iff_toNat_le]
    have := UInt16.toNat_inj.not.mpr href
    simp at this ⊢
    omega
  rw [UInt16.toNat_sub_of_le _ _ hpos, h.refs i t hi]
  rfl

theorem Inv.ref_eq_zero (h : Inv c v) (hrefs : ∀ t, v.refs t = 0) (hi : i < c.nEnt) :
    (c.cmeta i).ref = 0 := by
  cases hin : (c.cmeta i).inuse with
  | false => exact h.idle i hi hin
  | true =>
    have href := h.refs i _ ⟨hi, hin, rfl⟩
    rw [hrefs] at href
    exact UInt16.toNat_inj.mp href

theorem Inv.of_idle (hnodup : c.lruStack.Nodup) (hmem : ∀ i, i ∈ c.lruStack ↔ i < c.nEnt)
    (hidle : ∀ i < c.nEnt, c.cmeta i = ⟨false, 0, 0⟩) (hheld : ∀ t, v.held t = none)
    (hrefs : ∀ t, v.refs t = 0) : Inv c v := by
  have hnot : ∀ i u, ¬c.Has i u := fun i u hi ↦ by
    have hin := hi.inuse
    rw [hidle i hi.lt] at hin
    cases hin
  refine ⟨⟨hnodup, hmem, ?_⟩, fun u j y ↦ ?_, fun i ↦ hnot i 0, fun i u hi ↦ absurd hi (hnot i u),
    fun i hi _ ↦ by rw [hidle i hi], fun u _ ↦ hrefs u⟩
  · refine List.pairwise_of_forall_mem_list fun i hi j _ hin ↦ ?_
    rw [hidle i ((hmem i).mp hi)] at hin
    cases hin
  · exact iff_of_false (by simp [hheld]) fun hj ↦ hnot j u hj.1

theorem Inv.init (n : Nat) [Zero α] : Inv (Cache.init n : Cache α) View.empty := by
  have hlru : (List.range n).foldl (fun l i ↦ i :: l) [] = (List.range n).reverse := by
    simp
  refine .of_idle ?_ (fun i ↦ ?_) (fun _ _ ↦ rfl) (fun _ ↦ rfl) fun _ ↦ rfl
  · rw [Cache.init, hlru]
    exact List.nodup_reverse.mpr List.nodup_range
  · rw [Cache.init, hlru]
    simp

theorem Inv.flush (h : Inv c v) (hrefs : ∀ t, v.refs t = 0) :
    ∃ c', Cache.flush c = (.ok 0, c') ∧ c'.nEnt = c.nEnt ∧
      Inv c' { v with held := fun _ ↦ none } := by
  have hzero : ∀ i ∈ List.range c.nEnt, (c.cmeta i).ref = 0 := fun i hi ↦
    h.ref_eq_zero hrefs (List.mem_range.mp hi)
  refine ⟨_, flushFrom_eq _ c hzero, rfl, ?_⟩
  refine .of_idle h.listed.nodup h.listed.mem (fun i hi ↦ ?_) (fun _ ↦ rfl) hrefs
  dsimp only at hi ⊢
  rw [if_pos (List.mem_range.mpr hi), h.ref_eq_zero hrefs hi]

variable {op : Call α} {r : Except Errno Nat}

theorem Inv.decRef (h : Inv c v) (hrun : Cache.decRef t c = (r, c')) (hr : r ≠ .error .panic) :
    c'.nEnt = c.nEnt ∧ Inv c' (v.after c' (.decRef t) r) := by
  by_cases ht : t = 0
  · rw [Cache.decRef, if_pos ht] at hrun
    cases hrun
    exact ⟨rfl, h⟩
  rw [Cache.decRef, if_neg ht] at hrun
  cases hf : c.find t with
  | none =>
    rw [hf] at hrun
    cases hrun
    exact ⟨rfl, h⟩
  | some i =>
    have hi := find_some hf
    simp only [hf, withRef_eq hi] at hrun
    split_ifs at hrun with href
    · cases hrun
      exact absurd rfl hr
    · cases hrun
      exact ⟨rfl, h.release hi href⟩

variable [Zero α]

inductive Served (c : Cache α) (v : View α) (op : Call α) (t : UInt64) : Prop
  | refused (e : Errno) (he : e = .inval ∨ e = .notFound) (hrun : op.run c = (.error e, c))
  | full (hall : ∀ i < c.nEnt, (c.cmeta i).inuse = true ∧ (c.cmeta i).ref ≠ 0)
      (hrun : op.run c = (.error .noSpace, c))
  | hit (i : Nat) (hi : c.Has i t) (hcount : Counted v op → v.refs t < 65535)
      (hrun : op.run c = (.ok i, (c.toTail i).setMeta i ⟨true, (c.cmeta i).ref + 1, t⟩))
      (hafter : ∀ c', v.after c' op (.ok i) = v.acquire t)
  | given (i : Nat) (x : α) (hi : i < c.nEnt) (href : (c.cmeta i).ref = 0) (ht : t ≠ 0)
      (hnone : v.held t = none)
      (hrun : op.run c = (.ok i, ((c.fill i x).toTail i).setMeta i ⟨true, 1, t⟩))
      (hafter : ∀ c', c'.buf i = x → v.after c' op (.ok i) = (v.assign t i x).acquire t)

theorem Inv.served (h : Inv c v) (hn : 0 < c.nEnt) (hwants : op.wants = some t)
    (hproper : op.Proper v) : Served c v op t := by
  cases op with
  | alloc t =>
    cases hwants
    by_cases ht : t = 0
    · exact .refused .inval (.inl rfl) (if_pos ht)
    rcases h.alloc_cases hn ht with ⟨i, x, hi, href, hrun⟩ | ⟨hrun, hall⟩
    · exact .given i x hi href ht hproper hrun fun c' hx ↦ by rw [View.after, hx]
    · exact .full hall hrun
  | tryInsert t src =>
    cases hwants
    by_cases ht : t = 0
    · exact .refused .inval (.inl rfl) (if_pos ht)
    cases hheld : v.held t with
    | none =>
      rcases h.tryInsert_cases hn ht hheld src with ⟨i, hi, href, hrun⟩ | ⟨hrun, hall⟩
      · exact .given i src hi href ht hheld hrun fun _ _ ↦ by simp [View.after, hheld]
      · exact .full hall hrun
    | some e =>
      have hi := h.has_of_held hheld
      exact .hit e.1 hi id ((h.tryInsert_eq hi src).trans (h.ent_eq hi))
        fun _ ↦ by simp [View.after, hheld]
  | ent t =>
    cases hwants
    by_cases ht : t = 0
    · exact .refused .inval (.inl rfl) (if_pos ht)
    cases hheld : v.held t with
    | none => exact .refused .notFound (.inr rfl) (h.ent_eq_none ht hheld)
    | some e =>
      have hi := h.has_of_held hheld
      exact .hit e.1 hi id (h.ent_eq hi) fun _ ↦ rfl
  | decRef | rem | flush => cases hwants

theorem Inv.call_wants (h : Inv c v) (hn : 0 < c.nEnt) (hwants : op.wants = some t)
    (hproper : op.Proper v) (hcount : Counted v op) (hrun : op.run c = (r, c')) :
    c'.nEnt = c.nEnt ∧ Inv c' (v.after c' op r) := by
  have hrefused (e : Errno) : v.after c op (.error e) = v := by cases op <;> rfl
  cases h.served hn hwants hproper with
  | refused e he hrun' =>
    cases hrun'.symm.trans hrun
    rw [hrefused]
    exact ⟨rfl, h⟩
  | full hall hrun' =>
    cases hrun'.symm.trans hrun
    rw [hrefused]
    exact ⟨rfl, h⟩
  | hit i hi hlt hrun' hafter =>
    cases hrun'.symm.trans hrun
    rw [hafter]
    exact ⟨rfl, h.acquire hi (hlt hcount)⟩
  | given i x hi href ht hnone hrun' hafter =>
    cases hrun'.symm.trans hrun
    rw [hafter _ (by simp [Cache.setMeta, Cache.toTail, Cache.fill])]
    exact ⟨rfl, h.give hi href ht hnone x⟩

theorem Inv.rem (h : Inv c v) (hproper : v.held t = none ∨ v.refs t = 1)
    (hrun : Cache.rem t c = (r, c')) :
    c'.nEnt = c.nEnt ∧ r ≠ .error .panic ∧ Inv c' (v.after c' (.rem t) r) := by
  by_cases ht : t = 0
  · rw [Cache.rem, if_pos ht] at hrun
    cases hrun
    exact ⟨rfl, by simp, h⟩
  rw [Cache.rem, if_neg ht] at hrun
  cases hf : c.find t with
  | none =>
    rw [hf] at hrun
    cases hrun
    exact ⟨rfl, by simp, h⟩
  | some i =>
    have hi := find_some hf
    have hone : v.refs t = 1 := hproper.resolve_left fun hnone ↦ by
      rw [h.find_eq_none hnone] at hf
      cases hf
    have href : (c.cmeta i).ref = 1 := UInt16.toNat_inj.mp ((h.refs i t hi).trans hone)
    simp only [hf, href] at hrun
    cases hrun
    refine ⟨rfl, by simp, ?_⟩
    have := h.remove hi hone 0
    simpa [View.after, Cache.setMeta] using this

theorem Inv.call (h : Inv c v) (hn : 0 < c.nEnt) (hproper : op.Proper v) (hcount : Counted v op)
    (hrun : op.run c = (r, c')) (hr : r ≠ .error .panic) :
    c'.nEnt = c.nEnt ∧ Inv c' (v.after c' op r) := by
  cases op with
  | alloc | tryInsert | ent => exact h.call_wants hn rfl hproper hcount hrun
  | decRef t => exact h.decRef hrun hr
  | rem t =>
    obtain ⟨hnEnt, -, hinv⟩ := h.rem hproper hrun
    exact ⟨hnEnt, hinv⟩
  | flush =>
    obtain ⟨c', hflush, hnEnt, hinv⟩ := h.flush hproper
    cases hflush.symm.trans hrun
    exact ⟨hnEnt, hinv⟩

end Calls

end HiStar.Btree
