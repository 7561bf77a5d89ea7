import HiStar.Dj.LabelMap

namespace HiStar.Dj

open Lib Userlabel
open Iflow (lbHandle lbLevel lbCode lbLevelStar lbHandle_lt)

/-- Each entry had a new category when it was added, so that the entries, as edges
between global and local categories, have no cycle. -/
def Acyclic : DjCatmapIndexed → Prop
  | [] => True
  | e :: m => ((∀ f ∈ m, f.gcat.eq e.gcat = false) ∨ ∀ f ∈ m, f.lcat ≠ e.lcat) ∧ Acyclic m

variable {m : DjCatmapIndexed}

theorem Acyclic.insert (ih : Ihash DjCatMapping) (hm : Acyclic m)
    (e : DjCatMapping) : Acyclic (m.insert ih e) := by
  rcases DjCatmapIndexed.insert_cases ih m e with hsame | ⟨hadd, hnew⟩
  · rwa [hsame]
  · rw [hadd]
    refine ⟨hnew.imp (fun h ↦ ih.missing h) fun h f hf ↦ ?_, hm⟩
    simpa using ih.missing h f hf

theorem Acyclic.insertAll (ih : Ihash DjCatMapping) (hm : Acyclic m)
    (cm : List DjCatMapping) : Acyclic (m.insertAll ih cm) := by
  induction cm generalizing m with
  | nil => exact hm
  | cons e cm ih' => exact ih' (hm.insert ih e)

theorem insertAll_mem (ih : Ihash DjCatMapping) {cm : List DjCatMapping}
    {e : DjCatMapping} (he : e ∈ m.insertAll ih cm) : e ∈ m ∨ e ∈ cm := by
  induction cm generalizing m with
  | nil => exact .inl he
  | cons f cm ih' =>
    rcases ih' he with he | he
    · rcases DjCatmapIndexed.insert_cases ih m f with hsame | ⟨hadd, -⟩
      · exact .inl (hsame ▸ he)
      · rw [hadd, List.mem_cons] at he
        exact he.elim (fun h ↦ .inr (h ▸ List.mem_cons_self)) .inl
    · exact .inr (List.mem_cons_of_mem _ he)

section Walk

/-- A walk that leaves each of the local categories `S` by the entry `a`, and comes by
the entry `b` of the same global category to `f`, another one of them. -/
structure Walk (S : Nat → Prop) (f : Nat → Nat) (a b : Nat → DjCatMapping) : Prop where
  closed : ∀ c, S c → S (f c)
  onto : ∀ c, S c → ∃ d, S d ∧ f d = c
  moves : ∀ c, S c → f c ≠ c
  out : ∀ c, S c → (a c).lcat = c
  back : ∀ c, S c → (b c).lcat = f c
  same : ∀ c, S c → (b c).gcat.eq (a c).gcat = true
  inj : ∀ c d, S c → S d → (a c).gcat = (a d).gcat → c = d

variable {S : Nat → Prop} {f : Nat → Nat} {a b : Nat → DjCatMapping} {m : DjCatmapIndexed}

theorem Walk.gcat_eq (hw : Walk S f a b) {c : Nat} (hc : S c) : (b c).gcat = (a c).gcat :=
  (DjGcat.eq_iff.mp (hw.same c hc)).2

theorem Walk.out_ne_back (hw : Walk S f a b) {c d : Nat} (hc : S c) (hd : S d) : a c ≠ b d := by
  intro heq
  have hcd : c = d := hw.inj c d hc hd (heq ▸ hw.gcat_eq hd)
  have hlcat : c = f d := by rw [← hw.out c hc, heq, hw.back d hd]
  exact hw.moves d hd (hlcat.symm.trans hcd)

theorem Walk.none (hw : Walk S f a b) (hm : Acyclic m) (hmem : ∀ c, S c → a c ∈ m ∧ b c ∈ m) (c : Nat) :
    ¬S c := by
  induction m with
  | nil => exact fun hc ↦ by cases (hmem c hc).1
  | cons e m ih =>
    obtain ⟨hnew, hm⟩ := hm
    have hin : ∀ {x}, x ∈ e :: m → x ≠ e → x ∈ m := fun hx hne ↦ (List.mem_cons.mp hx).resolve_left hne
    -- the two entries next to `e` in the walk are older
    have hold : ∀ x y, x ∈ m → x.gcat.eq e.gcat = true → y ∈ m → y.lcat = e.lcat → False := by
      intro x y hx hxe hy hye
      rcases hnew with h | h
      · rw [h x hx] at hxe
        cases hxe
      · exact h y hy hye
    refine ih hm fun d hd ↦ ⟨hin (hmem d hd).1 fun heq ↦ ?_, hin (hmem d hd).2 fun heq ↦ ?_⟩
    · obtain ⟨d', hd', hfd⟩ := hw.onto d hd
      refine hold (b d) (b d') (hin (hmem d hd).2 fun h ↦ ?_) ?_ (hin (hmem d' hd').2 fun h ↦ ?_) ?_
      · exact hw.out_ne_back hd hd (heq.trans h.symm)
      · exact heq ▸ hw.same d hd
      · exact hw.out_ne_back hd hd' (heq.trans h.symm)
      · rw [hw.back d' hd', hfd, ← heq, hw.out d hd]
    · refine hold (a d) (a (f d)) (hin (hmem d hd).1 fun h ↦ ?_) ?_
        (hin (hmem _ (hw.closed d hd)).1 fun h ↦ ?_) ?_
      · exact hw.out_ne_back hd hd (h.trans heq.symm)
      · have := DjGcat.eq_iff.mp (hw.same d hd)
        rw [← heq]
        exact DjGcat.eq_iff.mpr ⟨this.2 ▸ this.1, this.2.symm⟩
      · exact hw.out_ne_back (hw.closed d hd) hd (h.trans heq.symm)
      · rw [hw.out _ (hw.closed d hd), ← heq, hw.back d hd]

end Walk

def Returns (ih : Ihash DjCatMapping) (m : DjCatmapIndexed) (c : Nat) : Prop :=
  ∃ e f, m.l2g ih c = some e ∧ m.g2l ih e.gcat = some f ∧ f.lcat = c

section Lists

variable {α β : Type} {R : α → β → Prop} {f : α → β} {xs : List α} {ys : List β}

theorem forall₂_functional (hf : ∀ x y, R x y → y = f x) (h : List.Forall₂ R xs ys) :
    ys = xs.map f ∧ ∀ x ∈ xs, R x (f x) := by
  induction h with
  | nil => exact ⟨rfl, by simp⟩
  | cons hxy _ ih =>
    have hy := hf _ _ hxy
    subst hy
    exact ⟨by rw [ih.1, List.map_cons], List.forall_mem_cons.mpr ⟨hxy, ih.2⟩⟩

end Lists

section Categories

variable {l : Label}

theorem special_nodup (hl : Sound l) : ((special l).map lbHandle).Nodup :=
  hl.wf.distinct.sublist (List.filter_sublist.map _)

theorem get_special (hl : Sound l) {e : Nat} (he : e ∈ special l) :
    l.get (lbHandle e) = lbLevel e ∧ lbLevel e ≠ l.ulDefault := by
  obtain ⟨hmem, hne⟩ := List.mem_filter.mp he
  exact ⟨Ulabel.get_of_find (find?_of_mem hl.wf.distinct hmem), by simpa using hne⟩

theorem get_not_special {h : Nat} (hh : h ∉ (special l).map lbHandle) : l.get h = l.ulDefault := by
  by_contra hne
  refine hh ?_
  unfold Label.get Ulabel.get at hne
  split at hne
  · rename_i e he
    refine List.mem_map.mpr ⟨e, List.mem_filter.mpr ⟨List.mem_of_find?_eq_some he, ?_⟩, ?_⟩
    · simpa using hne
    · simpa using List.find?_some he
  · exact absurd rfl hne

end Categories

section RoundTrip

def noMapping : DjCatMapping := ⟨⟨⟨.rabin, 0⟩, 0, false⟩, 0, 0, 0⟩

def sentEntry (ih : Ihash DjCatMapping) (m : DjCatmapIndexed) (c : Nat) : DjCatMapping :=
  (m.l2g ih c).getD noMapping

def backEntry (ih : Ihash DjCatMapping) (m : DjCatmapIndexed) (c : Nat) : DjCatMapping :=
  (m.g2l ih (sentEntry ih m c).gcat).getD noMapping

variable {ih : Ihash DjCatMapping} {m : DjCatmapIndexed} {t : LabelType} {l l' : Label} {dl : List DjGcat}
  {cs : List Nat}

theorem sent_entries (hsent : List.Forall₂ (SentAs ih m t) (special l) dl) :
    dl = (special l).map (fun e ↦ (sentEntry ih m (lbHandle e)).gcat) ∧
      ∀ e ∈ special l, m.l2g ih (lbHandle e) = some (sentEntry ih m (lbHandle e)) ∧
        lbLevel e = t.level (sentEntry ih m (lbHandle e)).gcat := by
  have hentry : ∀ {c e}, m.l2g ih c = some e → sentEntry ih m c = e := fun h ↦ by
    rw [sentEntry, h, Option.getD_some]
  have hgcat : ∀ e g, SentAs ih m t e g → g = (sentEntry ih m (lbHandle e)).gcat := by
    rintro e g ⟨x, hx, rfl, -⟩
    rw [hentry hx]
  obtain ⟨hdl, hall⟩ := forall₂_functional hgcat hsent
  refine ⟨hdl, fun e he ↦ ?_⟩
  obtain ⟨x, hx, -, hlevel⟩ := hall e he
  exact ⟨hentry hx ▸ hx, hlevel⟩

theorem received_entries (hsent : List.Forall₂ (SentAs ih m t) (special l) dl)
    (hrec : List.Forall₂ (ReceivedAs ih m) dl cs) :
    cs = (special l).map (fun e ↦ (backEntry ih m (lbHandle e)).lcat) ∧
      ∀ e ∈ special l, m.g2l ih (sentEntry ih m (lbHandle e)).gcat =
        some (backEntry ih m (lbHandle e)) := by
  rw [(sent_entries hsent).1, List.forall₂_map_left_iff] at hrec
  have hentry : ∀ {c e}, m.g2l ih (sentEntry ih m c).gcat = some e → backEntry ih m c = e := fun h ↦ by
    rw [backEntry, h, Option.getD_some]
  have hlcat : ∀ e c, ReceivedAs ih m (sentEntry ih m (lbHandle e)).gcat c →
      c = (backEntry ih m (lbHandle e)).lcat := by
    rintro e c ⟨x, hx, rfl⟩
    rw [hentry hx]
  obtain ⟨hcs, hall⟩ := forall₂_functional hlcat hrec
  refine ⟨hcs, fun e he ↦ ?_⟩
  obtain ⟨x, hx, -⟩ := hall e he
  exact hentry hx ▸ hx

theorem returns_received (hsent : List.Forall₂ (SentAs ih m t) (special l) dl)
    (hret : ∀ e ∈ special l, Returns ih m (lbHandle e)) :
    List.Forall₂ (ReceivedAs ih m) dl ((special l).map lbHandle) := by
  obtain ⟨hdl, hall⟩ := sent_entries hsent
  rw [hdl, List.forall₂_map_left_iff, List.forall₂_map_right_iff, List.forall₂_same]
  intro e he
  obtain ⟨x, y, hx, hy, hlcat⟩ := hret e he
  rw [(hall e he).1] at hx
  cases hx
  exact ⟨y, hy, hlcat⟩

theorem returns_of_perm (hm : Acyclic m) (hsent : List.Forall₂ (SentAs ih m t) (special l) dl)
    (hrec : List.Forall₂ (ReceivedAs ih m) dl cs) (hnodup : cs.Nodup)
    (hsame : ∀ c, c ∈ cs ↔ c ∈ (special l).map lbHandle) :
    ∀ e ∈ special l, Returns ih m (lbHandle e) := by
  obtain ⟨-, hout⟩ := sent_entries hsent
  obtain ⟨hcs, hback⟩ := received_entries hsent hrec
  let f : Nat → Nat := fun c ↦ (backEntry ih m c).lcat
  have hcs' : cs = ((special l).map lbHandle).map f := by
    rw [hcs, List.map_map]
    rfl
  have hinj : ∀ c ∈ (special l).map lbHandle, ∀ d ∈ (special l).map lbHandle, f c = f d → c = d :=
    fun c hc d hd ↦ List.inj_on_of_nodup_map (hcs' ▸ hnodup) hc hd
  have hout' : ∀ c ∈ (special l).map lbHandle, m.l2g ih c = some (sentEntry ih m c) := fun c hc ↦ by
    obtain ⟨e, he, rfl⟩ := List.mem_map.mp hc
    exact (hout e he).1
  have hback' : ∀ c ∈ (special l).map lbHandle,
      m.g2l ih (sentEntry ih m c).gcat = some (backEntry ih m c) := fun c hc ↦ by
    obtain ⟨e, he, rfl⟩ := List.mem_map.mp hc
    exact hback e he
  have hmaps : ∀ c ∈ (special l).map lbHandle, f c ∈ (special l).map lbHandle := fun c hc ↦ by
    rw [← hsame, hcs']
    exact List.mem_map_of_mem hc
  have hw : Walk (fun c ↦ c ∈ (special l).map lbHandle ∧ f c ≠ c) f (sentEntry ih m) (backEntry ih m) := by
    refine ⟨fun c hc ↦ ⟨hmaps c hc.1, fun h ↦ hc.2 (hinj _ (hmaps c hc.1) _ hc.1 h)⟩, fun c hc ↦ ?_,
      fun c hc ↦ hc.2, fun c hc ↦ (DjCatmapIndexed.l2g_mem (hout' c hc.1)).2, fun c _ ↦ rfl,
      fun c hc ↦ ?_, fun c d hc hd heq ↦ hinj c hc.1 d hd.1 ?_⟩
    · have hmem := (hsame c).mpr hc.1
      rw [hcs'] at hmem
      obtain ⟨d, hd, hfd⟩ := List.mem_map.mp hmem
      have hne : f d ≠ d := fun h ↦ hc.2 (h.symm.trans hfd ▸ h)
      exact ⟨d, ⟨hd, hne⟩, hfd⟩
    · obtain ⟨-, hrabin, heq⟩ := DjCatmapIndexed.g2l_mem (hback' c hc.1)
      exact DjGcat.eq_iff.mpr ⟨hrabin, heq⟩
    · simp only [f, backEntry, heq]
  intro e he
  have hc : lbHandle e ∈ (special l).map lbHandle := List.mem_map_of_mem he
  refine ⟨_, _, hout' _ hc, hback' _ hc, ?_⟩
  by_contra hne
  exact hw.none hm (fun c hc ↦ ⟨(DjCatmapIndexed.l2g_mem (hout' c hc.1)).1,
    (DjCatmapIndexed.g2l_mem (hback' c hc.1)).1⟩) _ ⟨hc, hne⟩

end RoundTrip

/-- A label that was sent is received with the same levels by a host with the same map
exactly when it has the default level of its kind and each of its categories returns. -/
theorem label_translation {ih : Ihash DjCatMapping} {cm : List DjCatMapping} {l dst : Label}
    {t : LabelType} {mem : Heap} {s : Sent} (hcm : ∀ e ∈ cm, e.lcat < 2 ^ 61) (hl : Built l)
    (hdst : Built dst)
    (hroom : RoomFor mem dst l.ulEnt.length)
    (hsend : labelToDjlabel ih (DjCatmapIndexed.insertAll ih [] cm) t false l none = .ok s) :
    (∃ l' out, djlabelToLabel ih (DjCatmapIndexed.insertAll ih [] cm) t false mem s.dl (some dst) none =
        .ok ⟨some l', out⟩ ∧ ∀ h < 2 ^ 61, l'.get h = l.get h) ↔
      l.ulDefault = t.reset ∧
        ∀ e ∈ special l, Returns ih (DjCatmapIndexed.insertAll ih [] cm) (lbHandle e) := by
  generalize hmap : DjCatmapIndexed.insertAll ih [] cm = m at *
  have hm : Acyclic m := hmap ▸ Acyclic.insertAll ih (m := []) trivial cm
  have hlt : ∀ e ∈ m, e.lcat < 2 ^ 61 := fun e he ↦
    hcm e ((insertAll_mem ih (hmap ▸ he)).resolve_left (by simp))
  have hls := hl.sound
  have hreset : Sound (dst.reset t.reset) :=
    ⟨Label.reset_wf _ _, t.reset_lt, hdst.sound.fits.reset _⟩
  obtain ⟨dl, hdl, hsent⟩ := giveEnts_sent hsend
  rw [List.nil_append] at hdl
  subst hdl
  obtain ⟨hdl, hout⟩ := sent_entries hsent
  constructor
  · rintro ⟨l', out, hok, hsame⟩
    obtain ⟨l₁, cs, hl₁, hrec, htook⟩ := takeGcats_ok hreset rfl hlt hok
    cases hl₁
    have hlen := hls.fits.length
    have hlen' := htook.sound.fits.length
    have hsize := hls.fits.size
    have hsize' := htook.sound.fits.size
    have hdef : l.ulDefault = t.reset := by
      obtain ⟨h, hh, hn, hn'⟩ := Label.exists_unnamed l l' (by omega)
      have := hsame h hh
      rw [show l.get h = l.ulDefault from Ulabel.get_of_notMem hn,
        show l'.get h = l'.ulDefault from Ulabel.get_of_notMem hn', htook.default] at this
      exact this.symm
    refine ⟨hdef, returns_of_perm hm hsent hrec htook.nodup fun c ↦ ?_⟩
    -- a category of the label is set in the other one, and they have as many
    have hsub : (special l).map lbHandle ⊆ cs := by
      intro c hc
      obtain ⟨e, he, rfl⟩ := List.mem_map.mp hc
      obtain ⟨hget, hne⟩ := get_special hls he
      by_contra hnot
      refine hne ?_
      rw [← hget, ← hsame _ (lbHandle_lt e), htook.rest _ hnot, hdef]
      rfl
    have hcount : cs.length ≤ ((special l).map lbHandle).length := by
      rw [← hrec.length_eq, hdl, List.length_map, List.length_map]
    have hperm := (special_nodup hls).subperm hsub |>.perm_of_length_le hcount
    exact (hperm.mem_iff).symm
  · rintro ⟨hdef, hret⟩
    have hrec := returns_received hsent hret
    have hcount : s.dl.length ≤ l.ulEnt.length := by
      rw [hdl, List.length_map]
      exact List.length_filter_le _ _
    obtain ⟨⟨l₀, out⟩, hok⟩ : ∃ r, djlabelToLabel ih m t false mem s.dl (some dst) none = .ok r :=
      takeGcats_succeeds hreset hroom (by simpa [Label.reset] using hcount) hlt hrec
        (special_nodup hls) fun _ _ ↦ rfl
    obtain ⟨l', cs, hl₀, hrec', htook⟩ := takeGcats_ok hreset rfl hlt hok
    cases hl₀
    have hcs : cs = (special l).map lbHandle :=
      (received_entries hsent hrec').1.trans (received_entries hsent hrec).1.symm
    refine ⟨l', out, hok, fun h _ ↦ ?_⟩
    subst hcs
    by_cases hh : h ∈ (special l).map lbHandle
    · obtain ⟨e, he, rfl⟩ := List.mem_map.mp hh
      have hgets := htook.get
      rw [hdl, List.forall₂_map_left_iff, List.forall₂_map_right_iff, List.forall₂_same] at hgets
      rw [hgets e he, (get_special hls he).1, (hout e he).2]
    · rw [htook.rest h hh, get_not_special hh, hdef]
      rfl

def oneMapping : List DjCatMapping := [⟨secrecyCat 1, 10, 0, 0⟩]

theorem tainted_label_returns : ∃ (l l' : Label) (s : Sent) (out : Option DjCatmapIndexed),
    l.get 10 = 3 ∧
    labelToDjlabel .newest (DjCatmapIndexed.insertAll .newest [] oneMapping) .taint false l none = .ok s ∧
    djlabelToLabel .newest (DjCatmapIndexed.insertAll .newest [] oneMapping) .taint false (fun _ ↦ true)
      s.dl (some (.new 0)) none = .ok ⟨some l', out⟩ ∧ ∀ h < 2 ^ 61, l'.get h = l.get h := by
  have hl : Built { ulSize := 8, ulDefault := 1, ulEnt := [lbCode 10 3] } :=
    .set (h := 10) (.new (by decide : 1 < 8)) (by decide) (by decide : 3 < 8)
      (by decide : (Label.new 1).set (fun _ ↦ true) 10 3 = _)
  have hsend : labelToDjlabel .newest (DjCatmapIndexed.insertAll .newest [] oneMapping) .taint false
      { ulSize := 8, ulDefault := 1, ulEnt := [lbCode 10 3] } none = .ok ⟨[secrecyCat 1], none⟩ := rfl
  have hroom : RoomFor (fun _ ↦ true) (.new 0) 1 := .inr ⟨rfl, fun _ ↦ rfl, by decide⟩
  have hreturn : Returns .newest (DjCatmapIndexed.insertAll .newest [] oneMapping)
      (lbHandle (lbCode 10 3)) :=
    ⟨⟨secrecyCat 1, 10, 0, 0⟩, ⟨secrecyCat 1, 10, 0, 0⟩, by decide, by decide, by decide⟩
  obtain ⟨l', out, hok, hsame⟩ := (label_translation (by decide) hl (.new (by decide)) hroom hsend).mpr
    ⟨rfl, fun e he ↦ by
      rw [List.mem_singleton.mp (show e ∈ [lbCode 10 3] from he)]
      exact hreturn⟩
  exact ⟨_, l', _, out, by decide, hsend, hok, hsame⟩

/-- A label of another default level is sent, and received with the level 1. -/
theorem default_level_lost : ∃ l',
    labelToDjlabel .newest [] .taint false (.new 2) none = .ok ⟨[], none⟩ ∧
      djlabelToLabel .newest [] .taint false (fun _ ↦ true) [] (some (.new 0)) none =
        .ok ⟨some l', none⟩ ∧ (Label.new 2).get 7 = 2 ∧ l'.get 7 = 1 :=
  ⟨_, rfl, rfl, by decide, by decide⟩

end HiStar.Dj
