import HiStar.Iflow.LargeLabel
import HiStar.Userlabel.Levels

namespace HiStar.Userlabel

open Iflow Lib

/-- The labels that a program can make: a level fits its three bits and a handle its
61, and each call has the memory that it asks for or throws. -/
inductive Built : Label → Prop
  | new {d : Nat} (hd : d < 8) : Built (.new d)
  | fixed {size : Nat} (hsize : size < 2 ^ 32) :
      Built { ulSize := size, ulDefault := lbLevelUndef, ulEnt := [], dynamic := false }
  | reset {l : Label} {d : Nat} (hl : Built l) (hd : d < 8) : Built (l.reset d)
  | set {mem : Heap} {l l' : Label} {h lv : Nat} (hl : Built l) (hh : h < 2 ^ 61) (hlv : lv < 8)
      (hok : l.set mem h lv = .ok l') : Built l'
  | assign {mem : Heap} {l src l' : Label} (hl : Built l) (hsrc : Built src)
      (hok : l.assign mem src = .ok l') : Built l'
  | fromUlabel {mem : Heap} {l l' : Label} {src : Ulabel} (hl : Built l) (hd : src.ulDefault < 8)
      (hsrc : ∀ e ∈ src.ulEnt, lbLevel e < 8) (hok : l.fromUlabel mem src = .ok l') : Built l'
  | merge {mem : Heap} {a b out l' : Label} {m : Nat → Nat → LevelComparator → Nat}
      {cmp : LevelComparator} (ha : Built a) (hb : Built b) (hout : Built out)
      (hm : ∀ x y, x < 8 → y < 8 → m x y cmp < 8) (hok : a.merge mem b out m cmp = .ok l') : Built l'
  | transform {mem : Heap} {l l' : Label} {t : Nat → Nat} (hl : Built l) (ht : ∀ x, x < 8 → t x < 8)
      (hok : l.transform mem t = .ok l') : Built l'

def Doubled (n : Nat) : Prop := n = 0 ∨ ∃ k ≤ 28, n = 2 ^ (k + 3)

structure Fits (l : Label) : Prop where
  length : l.ulEnt.length ≤ l.ulSize
  size : l.ulSize < 2 ^ 32
  doubled : l.dynamic = true → Doubled l.ulSize

variable {n : Nat} {l : Label}

theorem Doubled.lt (h : Doubled n) : n < 2 ^ 32 := by
  obtain rfl | ⟨k, hk, rfl⟩ := h
  · decide
  · exact Nat.pow_lt_pow_right (by decide) (by omega)

theorem Doubled.grow (h : Doubled n) (hne : (n + max n 8) % 2 ^ 32 ≠ 0) :
    Doubled ((n + max n 8) % 2 ^ 32) ∧ n < (n + max n 8) % 2 ^ 32 := by
  obtain rfl | ⟨k, hk, rfl⟩ := h
  · exact ⟨.inr ⟨0, by decide, by decide⟩, by decide⟩
  · have h8 : 8 ≤ 2 ^ (k + 3) :=
      (Nat.pow_le_pow_right (by decide) (by omega) : 2 ^ 3 ≤ 2 ^ (k + 3))
    have hsum : 2 ^ (k + 3) + max (2 ^ (k + 3)) 8 = 2 ^ (k + 4) := by
      rw [max_eq_left h8]
      ring
    rw [hsum] at hne ⊢
    have hk' : k + 1 ≤ 28 := by
      by_contra hbig
      have : k = 28 := by omega
      subst this
      exact hne (by decide)
    have hlt : 2 ^ (k + 4) < 2 ^ 32 := Nat.pow_lt_pow_right (by decide) (by omega)
    rw [Nat.mod_eq_of_lt hlt]
    exact ⟨.inr ⟨k + 1, hk', rfl⟩, Nat.pow_lt_pow_right (by decide) (by omega)⟩

/-- The label has place for `n` entries, or memory for them. The size of its array does
not pass 2 ^ 31 by growing. -/
def RoomFor (mem : Heap) (l : Label) (n : Nat) : Prop :=
  n ≤ l.ulSize ∨ l.dynamic = true ∧ (∀ k, mem k = true) ∧ n ≤ 2 ^ 31

theorem RoomFor.makeRoom {mem : Heap} (hroom : RoomFor mem l n) (hn : l.ulEnt.length < n) :
    ∃ l', l.makeRoom mem = .ok l' ∧ RoomFor mem l' n ∧ l'.ulEnt = l.ulEnt := by
  unfold Label.makeRoom
  split
  · rename_i hfull
    obtain hsize | ⟨hdyn, hmem, hle⟩ := hroom
    · omega
    · have hnew : (l.ulSize + max l.ulSize 8) % 2 ^ 32 ≠ 0 := by omega
      refine ⟨{ l with ulSize := (l.ulSize + max l.ulSize 8) % 2 ^ 32 }, ?_,
        .inr ⟨hdyn, hmem, hle⟩, rfl⟩
      simp only [Label.grow, hdyn, hmem, hnew, Bool.not_true, Bool.false_eq_true, or_self, ↓reduceIte]
  · exact ⟨l, rfl, hroom, rfl⟩

theorem RoomFor.set {mem : Heap} (hroom : RoomFor mem l n) (hn : l.ulEnt.length < n) (h lv : Nat) :
    ∃ l', l.set mem h lv = .ok l' ∧ RoomFor mem l' n ∧ l'.ulEnt.length ≤ l.ulEnt.length + 1 := by
  unfold Label.set Label.slotAlloc
  split
  · exact ⟨_, rfl, hroom, by simp⟩
  · unfold Label.slotGrow
    split
    · exact ⟨_, rfl, hroom, by simp⟩
    · obtain ⟨l₁, hmake, hroom₁, hent⟩ := hroom.makeRoom hn
      rw [hmake]
      exact ⟨_, rfl, hroom₁, by simp [hent]⟩

namespace Fits

variable {mem : Heap} {l l' : Label}

theorem makeRoom (hl : Fits l) (hok : l.makeRoom mem = .ok l') :
    Fits l' ∧ l'.ulEnt.length < l'.ulSize := by
  unfold Label.makeRoom at hok
  split at hok
  · rename_i hfull
    unfold Label.grow at hok
    split at hok
    · cases hok
    · rename_i hdyn
      dsimp only at hok
      split at hok
      · cases hok
      · rename_i hne
        cases hok
        have hd := hl.doubled (by simpa using hdyn)
        obtain ⟨hd', hlt⟩ := hd.grow fun h0 ↦ hne (.inl h0)
        have hlen := hl.length
        exact ⟨⟨by dsimp only; omega, hd'.lt, fun _ ↦ hd'⟩, by dsimp only; omega⟩
  · cases hok
    exact ⟨hl, by omega⟩

theorem set {h lv : Nat} (hl : Fits l) (hok : l.set mem h lv = .ok l') : Fits l' := by
  unfold Label.set Label.slotAlloc at hok
  split at hok
  · cases hok
    exact ⟨by simpa using hl.length, hl.size, hl.doubled⟩
  · unfold Label.slotGrow at hok
    split at hok
    · cases hok
      exact ⟨by simpa using hl.length, hl.size, hl.doubled⟩
    · obtain ⟨⟨l₂, i⟩, hgrow, hset⟩ := except_bind_ok hok
      obtain ⟨l₁, hroom, hadd⟩ := except_bind_ok hgrow
      obtain ⟨hl₁, hlt⟩ := hl.makeRoom hroom
      cases hadd
      cases hset
      exact ⟨by simpa using hlt, hl₁.size, hl₁.doubled⟩

theorem reset (hl : Fits l) (d : Nat) : Fits (l.reset d) := ⟨Nat.zero_le _, hl.size, hl.doubled⟩

theorem setAll {f : Nat → Nat} {hs : List Nat} (hl : Fits l) (hok : l.setAll mem f hs = .ok l') :
    Fits l' := by
  induction hs generalizing l with
  | nil =>
    cases hok
    exact hl
  | cons h hs ih =>
    obtain ⟨l₁, hset, hrest⟩ := except_bind_ok hok
    exact ih (hl.set hset) hrest

theorem fromEntries {es : List Nat} (hl : Fits l) (hok : Label.fromEntries mem es l = .ok l') :
    Fits l' := by
  induction es generalizing l with
  | nil =>
    cases hok
    exact hl
  | cons e es ih =>
    obtain ⟨l₁, hset, hrest⟩ := except_bind_ok hok
    exact ih (hl.set hset) hrest

theorem transformFrom {t : Nat → Nat} {i n : Nat} (hl : Fits l)
    (hok : Label.transformFrom mem t i n l = .ok l') : Fits l' := by
  induction n generalizing i l with
  | zero =>
    cases hok
    exact hl
  | succ n ih =>
    obtain ⟨l₁, hset, hrest⟩ := except_bind_ok hok
    exact ih (hl.set hset) hrest

end Fits

structure Sound (l : Label) : Prop where
  wf : Wf l.toUlabel
  default : l.ulDefault < 8
  fits : Fits l

namespace Sound

variable {mem : Heap} {l l' : Label}

theorem get_lt (hl : Sound l) (h : Nat) : l.get h < 8 := Ulabel.get_lt hl.wf hl.default

theorem assign {src : Label} (hl : Fits l) (hsrc : Sound src) (hok : l.assign mem src = .ok l') :
    Sound l' ∧ l'.ulDefault = src.ulDefault ∧ l'.get = src.get := by
  obtain ⟨hwf, hdef, hget⟩ := Label.assign_spec hsrc.wf hsrc.default hok
  exact ⟨⟨hwf, hdef ▸ hsrc.default, (hl.reset _).setAll hok⟩, hdef, hget⟩

theorem merge {a b out : Label} {m : Nat → Nat → LevelComparator → Nat} {cmp : LevelComparator}
    (ha : Sound a) (hb : Sound b) (hout : Fits out) (hm : ∀ x y, x < 8 → y < 8 → m x y cmp < 8)
    (hok : a.merge mem b out m cmp = .ok l') :
    Sound l' ∧ l'.ulDefault = m a.ulDefault b.ulDefault cmp ∧
      l'.get = fun h ↦ m (a.get h) (b.get h) cmp := by
  obtain ⟨hwf, hdef, hget⟩ := Label.merge_spec (fun h ↦ hm _ _ (ha.get_lt h) (hb.get_lt h)) hok
  obtain ⟨l₁, h₁, h₂⟩ := except_bind_ok hok
  refine ⟨⟨hwf, hdef ▸ hm _ _ ha.default hb.default, ?_⟩, hdef, hget⟩
  exact ((hout.reset _).setAll h₁).setAll h₂

theorem transform {t : Nat → Nat} (hl : Sound l) (ht : ∀ x, x < 8 → t x < 8)
    (hok : l.transform mem t = .ok l') :
    Sound l' ∧ l'.ulDefault = t l.ulDefault ∧ l'.get = fun h ↦ t (l.get h) := by
  obtain ⟨hwf, hdef, hget⟩ := Label.transform_spec hl.wf (fun h ↦ ht _ (hl.get_lt h)) hok
  refine ⟨⟨hwf, hdef ▸ ht _ hl.default, Fits.transformFrom ?_ hok⟩, hdef, hget⟩
  exact ⟨hl.fits.length, hl.fits.size, hl.fits.doubled⟩

end Sound

theorem Built.sound (h : Built l) : Sound l := by
  have hempty : ∀ {d size : Nat}, Wf ⟨size, d, []⟩ := ⟨List.nodup_nil, fun _ he ↦ by cases he⟩
  induction h with
  | new hd => exact ⟨hempty, hd, ⟨le_rfl, Nat.two_pow_pos 32, fun _ ↦ .inl rfl⟩⟩
  | fixed hsize => exact ⟨hempty, by simp [lbLevelUndef], ⟨Nat.zero_le _, hsize, fun h ↦ by cases h⟩⟩
  | reset _ hd ih => exact ⟨Label.reset_wf _ _, hd, ih.fits.reset _⟩
  | set _ hh hlv hok ih =>
    obtain ⟨hwf, hdef, -⟩ := Label.set_spec ih.wf hh hlv hok
    exact ⟨hwf, hdef ▸ ih.default, ih.fits.set hok⟩
  | assign _ _ hok ihl ihs => exact (Sound.assign ihl.fits ihs hok).1
  | fromUlabel _ hd hsrc hok ih =>
    obtain ⟨hwf, hdef, -⟩ := Label.fromEntries_spec (Label.reset_wf _ _) hsrc hok
    exact ⟨hwf, hdef ▸ hd, (ih.fits.reset _).fromEntries hok⟩
  | merge _ _ _ hm hok iha ihb iho => exact (Sound.merge iha ihb iho.fits hm hok).1
  | transform _ ht hok ih => exact (Sound.transform ih ht hok).1

structure Corresponds (l : Label) (k : Iflow.Label) : Prop where
  wf : WellFormed k
  nent : k.lbNent < 2 ^ 32
  level : ∀ h < 2 ^ 61, labelGetLevel k h = l.get h

theorem kernelCompare_iff {ka kb : Iflow.Label} {cmp : LevelComparator} (ha : WellFormed ka)
    (hb : WellFormed kb) (hn : ka.lbNent + kb.lbNent < 2 ^ 61) :
    labelCompareAll ka kb cmp = .ok () ↔
      ∀ h < 2 ^ 61, cmp.cmp (labelGetLevel ka h) (labelGetLevel kb h) = true :=
  ⟨fun h g _ ↦ labelCompareAll_sound h g, labelCompareAll_complete ha hb hn⟩

/-- On all labels that can be made, `set` and `merge` work at every handle, and
`compare` gives the kernel's answer. -/
theorem user_labels_agree {a b : Label} (ha : Built a) (hb : Built b) :
    (∀ mem h v a', h < 2 ^ 61 → v < 8 → a.set mem h v = .ok a' →
      a'.get h = v ∧ ∀ g, g ≠ h → a'.get g = a.get g) ∧
    (∀ mem out out' m cmp, Built out → (∀ x y, x < 8 → y < 8 → m x y cmp < 8) →
      a.merge mem b out m cmp = .ok out' → ∀ h, out'.get h = m (a.get h) (b.get h) cmp) ∧
    ∀ ka kb cmp, Corresponds a ka → Corresponds b kb →
      (a.compare b cmp = true ↔ labelCompareAll ka kb cmp = .ok ()) := by
  have hsa := ha.sound
  have hsb := hb.sound
  refine ⟨fun mem h v a' hh hv hok ↦ ?_, fun mem out out' m cmp hout hm hok h ↦ ?_,
    fun ka kb cmp hka hkb ↦ ?_⟩
  · obtain ⟨-, -, hget⟩ := Label.set_spec hsa.wf hh hv hok
    exact ⟨by rw [hget, if_pos rfl], fun g hg ↦ by rw [hget, if_neg hg]⟩
  · obtain ⟨-, -, hget⟩ := Sound.merge hsa hsb hout.sound.fits hm hok
    rw [hget]
  · have hla := hsa.fits.length
    have hlb := hsb.fits.length
    have hza := hsa.fits.size
    have hzb := hsb.fits.size
    have hna := hka.nent
    have hnb := hkb.nent
    rw [Label.compare_iff (by omega), kernelCompare_iff hka.wf hkb.wf (by omega)]
    refine forall₂_congr fun h hh ↦ ?_
    rw [hka.level h hh, hkb.level h hh]

section Examples

variable {d h lv : Nat} {l : Label} {k : Iflow.Label}

theorem corresponds_set (hd : d ≤ lbLevelStar) (hh : h < 2 ^ 61) (hne : ¬(h = 0 ∧ lv = 0))
    (hlv : lv ≤ lbLevelStar) (hl : (Label.new d).set (fun _ ↦ true) h lv = .ok l)
    (hk : labelSet plentyEnv (labelAlloc d) h lv = .ok k) :
    Built l ∧ Corresponds l k ∧ l.ulDefault = d ∧ ∀ g, l.get g = if g = h then lv else d := by
  have hlv8 : lv < 8 := hlv.trans_lt (by decide)
  have hnew : Built (.new d) := .new (hd.trans_lt (by decide))
  obtain ⟨-, hdef, hget⟩ := Label.set_spec hnew.sound.wf hh hlv8 hl
  obtain ⟨hwf, -, hlev⟩ := labelSet_spec (labelAlloc_wf hd) hh hlv hk
  refine ⟨.set hnew hh hlv8 hl, ⟨hwf, ?_, fun g _ ↦ ?_⟩, hdef, hget⟩
  · have hspan : Spans {h} k :=
      (spans_alloc hd).labelSet (Finset.mem_singleton_self h) hh hlv hk
    exact hspan.nent.trans_lt (by rw [Finset.card_singleton]; decide)
  · rw [hlev, hget]
    simp only [hne, ↓reduceIte]
    rfl

theorem tainted_label_agrees : ∃ (a : Label) (ka : Iflow.Label),
    Built a ∧ a.get 5 = 3 ∧ a.get 6 = 1 ∧ Corresponds a ka ∧
      (a.compare (.new 1) .starlo = true ↔ labelCompareAll ka (labelAlloc 1) .starlo = .ok ()) := by
  obtain ⟨a, hset⟩ : ∃ a, (Label.new 1).set (fun _ ↦ true) 5 3 = .ok a := ⟨_, rfl⟩
  obtain ⟨ka, hkset⟩ : ∃ ka, labelSet plentyEnv (labelAlloc 1) 5 3 = .ok ka :=
    labelSet_succeeds plentyEnv_noFailure (labelAlloc_wf (by decide)) 5 3
  obtain ⟨ha, hka, -, hget⟩ :=
    corresponds_set (by decide) (by decide) (by decide) (by decide) hset hkset
  have hb : Built (.new 1) := .new (by decide)
  have hkb : Corresponds (.new 1) (labelAlloc 1) :=
    ⟨labelAlloc_wf (by decide), by decide, fun _ _ ↦ rfl⟩
  exact ⟨a, ka, ha, by rw [hget, if_pos rfl], by rw [hget, if_neg (by decide)], hka,
    (user_labels_agree ha hb).2.2 ka _ .starlo hka hkb⟩

end Examples

end HiStar.Userlabel
