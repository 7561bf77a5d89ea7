import HiStar.Iflow.Syscall

namespace HiStar.Iflow

open Lib Function LevelComparator

def Kernel.lev (k : Kernel) (id : Nat) : Nat → Nat :=
  match k.label id with
  | some l => labelGetLevel l
  | none => fun _ ↦ 0

def Kernel.view (k : Kernel) (id : Nat) : Option Principal :=
  (k.principal id).map fun p ↦ ⟨k.lev p.1, k.lev p.2⟩

variable {k k' : Kernel} {id a b : Nat}

theorem lev_eq {l : Label} (h : k.label id = some l) : k.lev id = labelGetLevel l := by
  simp only [Kernel.lev, h]

theorem LabelBelow.leq {c : LevelComparator} (h : k.LabelBelow c a b) :
    Leq c (k.lev a) (k.lev b) := by
  obtain ⟨la, lb, ha, hb, hab⟩ := h
  rw [lev_eq ha, lev_eq hb]
  exact hab

theorem lev_keep (hl : ∀ i l, k.label i = some l → k'.label i = some l)
    (h : ∃ l, k.label id = some l) : k'.lev id = k.lev id := by
  obtain ⟨l, h⟩ := h
  rw [lev_eq h, lev_eq (hl _ _ h)]

theorem lev_of_principal (hk : k.Ok) (hl : ∀ i l, k.label i = some l → k'.label i = some l)
    {t c : Nat} (h : k.principal id = some (t, c)) : k'.lev t = k.lev t ∧ k'.lev c = k.lev c := by
  obtain ⟨lt, lc, ht, hc⟩ := hk.has_labels id t c h
  exact ⟨lev_keep hl ⟨lt, ht⟩, lev_keep hl ⟨lc, hc⟩⟩

theorem Installs.view {t c : Nat} (hk : k.Ok) (h : Installs k k' id t c)
    (i : Nat) : k'.view i = if i = id then some ⟨k'.lev t, k'.lev c⟩ else k.view i := by
  unfold Kernel.view
  rw [h.principals]
  split
  · rfl
  · cases hp : k.principal i with
    | none => rfl
    | some p =>
      obtain ⟨h1, h2⟩ := lev_of_principal hk h.labels (c := p.2) (t := p.1) hp
      simp [h1, h2]

/-- One successful call: some thread or gate gets labels that the caller may
grant. -/
def Conforms (h : Nat) (k k' : Kernel) (cur : Principal) : Prop :=
  k'.Ok ∧ ∃ id p, Grants h k.view cur p ∧ ∀ i, k'.view i = if i = id then some p else k.view i

instance (a b : Nat) (leq : LevelComparator) : Rel Evolve (labelMaxId a b leq) := 
  ⟨fun k ↦ (labelMaxId_spec a b leq k).1⟩

theorem labelMax_starhi (hk : k.Ok)
    (h : labelMaxId a b .starhi k = (.ok id, k')) : (∃ d, k'.label id = some d) ∧
    k'.lev id = fun g ↦ starhi.max (k.lev a g) (k.lev b g) := by
  have hs := (labelMaxId_spec a b .starhi k).2 hk id (by rw [h])
  rw [h] at hs
  obtain ⟨la, lb, d, ha, hb, hd, hmax⟩ := hs
  refine ⟨⟨d, hd⟩, funext fun g ↦ ?_⟩
  rw [lev_eq ha, lev_eq hb, lev_eq hd]
  refine hmax g fun h0 hz ↦ ?_
  subst h0
  obtain ⟨hza, hzb⟩ := max_starhi_eq_zero hz
  rw [defLevel_of_level_zero hza, defLevel_of_level_zero hzb]
  rfl

theorem labelMax_starlo (hk : k.Ok)
    (h : labelMaxId a b .starlo k = (.ok id, k')) : (∃ d, k'.label id = some d) ∧
    ∀ g, k.lev a g ≠ lbLevelStar → k.lev b g ≠ lbLevelStar →
      k'.lev id g = starlo.max (k.lev a g) (k.lev b g) := by
  have hs := (labelMaxId_spec a b .starlo k).2 hk id (by rw [h])
  rw [h] at hs
  obtain ⟨la, lb, d, hla, hlb, hd, hmax⟩ := hs
  refine ⟨⟨d, hd⟩, fun g ha hb ↦ ?_⟩
  rw [lev_eq hla] at ha ⊢
  rw [lev_eq hlb] at hb ⊢
  rw [lev_eq hd]
  refine hmax g fun h0 hz ↦ ?_
  subst h0
  have hle := le_max starlo ha hb
  rw [defLevel_of_level_zero (l := la) (by omega), defLevel_of_level_zero (l := lb) (by omega)]
  rfl

theorem labelCopySet_lev {src h lv : Nat} (hk : k.Ok) (h0 : h ≠ 0)
    (hh : h < 2 ^ 61) (hlv : lv ≤ lbLevelStar) (hok : labelCopySet src h lv k = (.ok id, k')) :
    Evolve k k' ∧ (∃ l, k'.label id = some l) ∧ k'.lev id = update (k.lev src) h lv := by
  obtain ⟨he, hs⟩ := labelCopySet_spec src hh hlv k
  have hs' := hs hk id (by rw [hok])
  rw [hok] at he hs'
  obtain ⟨l, d, hl, hd, hlev⟩ := hs'
  refine ⟨he, ⟨d, hd⟩, funext fun g ↦ ?_⟩
  rw [lev_eq hd, lev_eq hl, hlev, update_apply]
  split_ifs with hg hz
  · exact absurd hz.1 h0
  · rfl
  · rfl

instance (id : Nat) (iflow : InfoFlowType) : Rel Evolve (containerFind id iflow) := by
  unfold containerFind
  infer_instance

instance (container object : Nat) :
    Rel Evolve (cobjContained container object) := by
  refine .bind_of inferInstance fun r ↦ ?_
  split <;> infer_instance

instance (container object : Nat) (type : Option KobjType) (iflow : InfoFlowType) :
    Rel Evolve (cobjGet container object type iflow) := by
  unfold cobjGet
  infer_instance

theorem cobjGet_principal {container object : Nat} {ty : KobjType} {iflow : InfoFlowType}
    (hk : k.Ok) (hty : ty = .thread ∨ ty = .gate)
    (h : cobjGet container object (some ty) iflow k = (.ok id, k')) :
    ∃ t c, k'.principal id = some (t, c) := by
  have he := Evolve.of_ok h
  obtain ⟨_, k0, hget, h⟩ := bind_ok h
  cases hget
  obtain ⟨r0, k1, h1, h⟩ := bind_ok h
  have hr : (kobjectGet object (some ty) iflow k).1 = .ok id := by
    simp only [attempt_apply, Prod.mk.injEq, Except.ok.injEq] at h1
    obtain ⟨_, k2, -, h2⟩ := bind_ok h
    rw [h1.1]
    exact (lift_ok h2).1
  have hfound : kobjectGet object (some ty) iflow k =
      (.ok id, (kobjectGet object (some ty) iflow k).2) := Prod.ext hr rfl
  obtain ⟨ko, hko, hko', -⟩ := kobjectLookup_ok hfound
  refine ⟨ko.koLabel .tracking, ko.koLabel .clearance, ?_⟩
  rw [he.principals hk, Kernel.principal, hko]
  simp only [hko' ty rfl, hty, ↓reduceIte]

end HiStar.Iflow
