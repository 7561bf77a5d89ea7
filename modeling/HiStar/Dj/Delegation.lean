import HiStar.Dj.SpeaksFor

namespace HiStar.Dj

/-- The keys that speak for a category: the least set with its creator and with
every key that a delegation of `D` puts below the category or a key of the set,
where a via key has to be in the set as well. -/
inductive SpeaksFor (D : DjDelegation → Prop) (g : DjGcat) : DjPubkey → Prop
  | creator : SpeaksFor D g g.key
  | category {a : DjPubkey} {d : DjDelegation} (hd : D d) (ha : d.a = .pubkey a)
      (hvia : ∀ v, d.via = some v → SpeaksFor D g v) (hb : d.b = .gcat g) : SpeaksFor D g a
  | key {a b : DjPubkey} {d : DjDelegation} (hd : D d) (ha : d.a = .pubkey a)
      (hvia : ∀ v, d.via = some v → SpeaksFor D g v) (hb : d.b = .pubkey b)
      (hrec : SpeaksFor D g b) : SpeaksFor D g a

section

variable {D D' : DjDelegation → Prop} {g : DjGcat} {k : DjPubkey}

theorem Chain.mono (h : Chain D g k) (hD : ∀ d, D d → D' d) : Chain D' g k := by
  induction h with
  | creator h => exact .creator h
  | category hd ha hk _ hb hc ihvia => exact .category (hD _ hd) ha hk ihvia hb hc
  | key hd ha hk _ hb _ ihvia ih => exact .key (hD _ hd) ha hk ihvia hb ih

theorem Chain.speaksFor (h : Chain D g k) : SpeaksFor D g k := by
  induction h with
  | creator h =>
    rw [← (DjPubkey.eq_iff.mp h).2]
    exact .creator
  | category hd ha hk _ hb hc ihvia =>
    rw [← (DjPubkey.eq_iff.mp hk).2]
    exact .category hd ha ihvia ((DjGcat.eq_iff.mp hc).2 ▸ hb)
  | key hd ha hk _ hb _ ihvia ih =>
    rw [← (DjPubkey.eq_iff.mp hk).2]
    exact .key hd ha ihvia hb ih

theorem SpeaksFor.chain (hg : g.key.type = .rabin)
    (hD : ∀ d a, D d → d.a = .pubkey a → a.type = .rabin) (h : SpeaksFor D g k) :
    Chain D g k := by
  induction h with
  | creator => exact .creator (DjPubkey.eq_iff.mpr ⟨hg, rfl⟩)
  | category hd ha _ hb ihvia =>
    exact .category hd ha (DjPubkey.eq_iff.mpr ⟨hD _ _ hd ha, rfl⟩) ihvia hb
      (DjGcat.eq_iff.mpr ⟨hg, rfl⟩)
  | key hd ha _ hb _ ihvia ih =>
    exact .key hd ha (DjPubkey.eq_iff.mpr ⟨hD _ _ hd ha, rfl⟩) ihvia hb ih

end

section Insert

variable (verifySign : DjStmt → DjPubkey → DjSign → Bool)

/-- The delegations of a list of statements that `insert` accepts. -/
def Accepted (sss : List DjStmtSigned) (d : DjDelegation) : Prop :=
  ∃ ss ∈ sss, verifyStmt verifySign ss = true ∧ ss.stmt = .delegation d ∧ ∃ a, d.a = .pubkey a

def SignaturesDistinct (sss : List DjStmtSigned) : Prop :=
  ∀ s ∈ sss, ∀ s' ∈ sss, s.sign = s'.sign → s.stmt = s'.stmt

structure BuiltFrom (sss : List DjStmtSigned) (dm : DjDelegationMap) : Prop where
  from_sss : ∀ e ∈ dm.t, e.ss ∈ sss
  holds : ∀ d, dm.Holds d ↔ Accepted verifySign sss d
  size : dm.size = dm.t.length % 2 ^ 32
  length : dm.t.length ≤ sss.length

variable {verifySign}

variable {sss : List DjStmtSigned} {ss : DjStmtSigned} {dm : DjDelegationMap}

theorem accepted_append {d : DjDelegation} :
    Accepted verifySign (sss ++ [ss]) d ↔ Accepted verifySign sss d ∨
      verifyStmt verifySign ss = true ∧ ss.stmt = .delegation d ∧ ∃ a, d.a = .pubkey a := by
  simp only [Accepted, List.mem_append, List.mem_singleton, or_and_right, exists_or, exists_eq_left]

/-- A statement that is not stored, because it is not acceptable or already
there, leaves the accepted delegations as they are. -/
theorem BuiltFrom.skip (h : BuiltFrom verifySign sss dm)
    (hskip : ∀ d, verifyStmt verifySign ss = true → ss.stmt = .delegation d →
      (∃ a, d.a = .pubkey a) → dm.Holds d) : BuiltFrom verifySign (sss ++ [ss]) dm := by
  refine ⟨fun e he ↦ List.mem_append_left _ (h.from_sss e he), fun d ↦ ?_, h.size, ?_⟩
  · rw [accepted_append, ← h.holds]
    exact ⟨.inl, fun hd ↦ hd.elim id fun hd ↦ hskip d hd.1 hd.2.1 hd.2.2⟩
  · have := h.length
    simp only [List.length_append, List.length_singleton]
    omega

theorem BuiltFrom.store (e : DmEnt)
    (h : BuiltFrom verifySign sss dm) (hv : verifyStmt verifySign e.ss = true) :
    BuiltFrom verifySign (sss ++ [e.ss]) ⟨e :: dm.t, (dm.size + 1) % 2 ^ 32⟩ := by
  refine ⟨fun e' he' ↦ ?_, fun d ↦ ?_, ?_, ?_⟩
  · rcases List.mem_cons.mp he' with rfl | he'
    · exact List.mem_append_right _ (List.mem_singleton.mpr rfl)
    · exact List.mem_append_left _ (h.from_sss e' he')
  · rw [accepted_append, ← h.holds, e.stmt_eq]
    simp only [DjDelegationMap.Holds, List.mem_cons, exists_eq_or_imp, hv, true_and,
      DjStmt.delegation.injEq]
    constructor
    · rintro (rfl | hd)
      · exact .inr ⟨rfl, e.pk, e.a_eq⟩
      · exact .inl hd
    · rintro (hd | ⟨rfl, -⟩)
      · exact .inr hd
      · exact .inl rfl
  · simp only [h.size, List.length_cons, Nat.mod_add_mod]
  · have := h.length
    simp only [List.length_cons, List.length_append, List.length_nil]
    omega

theorem BuiltFrom.insert
    (h : BuiltFrom verifySign sss dm) (hsig : SignaturesDistinct (sss ++ [ss])) :
    BuiltFrom verifySign (sss ++ [ss]) (dm.insert verifySign ss) := by
  unfold DjDelegationMap.insert
  split
  next hv =>
    split
    next d hs =>
      split
      next k ha =>
        split
        next hdup =>
          obtain ⟨e, he, hsign⟩ := List.any_eq_true.mp hdup
          have hmem : e ∈ dm.t := by
            unfold DjDelegationMap.behind at he
            split at he
            · cases he
            · exact (List.mem_filter.mp he).1
          have heq := hsig e.ss (List.mem_append_left _ (h.from_sss e hmem)) ss
            (List.mem_append_right _ (List.mem_singleton.mpr rfl)) (of_decide_eq_true hsign)
          refine h.skip fun d' _ hs' _ ↦ ⟨e, hmem, ?_⟩
          have := e.stmt_eq.symm.trans (heq.trans hs')
          exact DjStmt.delegation.inj this
        next => exact h.store ⟨ss, d, k, hs, ha⟩ hv
      next hna =>
        refine h.skip fun d' _ hs' ha ↦ ?_
        obtain ⟨a, ha⟩ := ha
        rw [← DjStmt.delegation.inj (hs.symm.trans hs')] at ha
        exact absurd ha (hna a)
    next hnd => exact h.skip fun d _ hs _ ↦ absurd hs (hnd d)
  next hv => exact h.skip fun d hv' _ _ ↦ absurd hv' hv

theorem builtFrom_insertAll (verifySign : DjStmt → DjPubkey → DjSign → Bool)
    (hsig : SignaturesDistinct sss) :
    BuiltFrom verifySign sss (DjDelegationMap.insertAll verifySign {} sss) := by
  induction sss using List.reverseRecOn with
  | nil => exact ⟨by simp [DjDelegationMap.insertAll], by
      simp [DjDelegationMap.insertAll, DjDelegationMap.Holds, Accepted], rfl, le_rfl⟩
  | append_singleton sss ss ih =>
    have hinit : SignaturesDistinct sss := fun s hs s' hs' ↦
      hsig s (List.mem_append_left _ hs) s' (List.mem_append_left _ hs')
    simp only [DjDelegationMap.insertAll, List.foldl_append, List.foldl_cons, List.foldl_nil]
    exact (ih hinit).insert hsig

end Insert

/-- The search decides who speaks for a category, for maps that `size()` can
count, when the creator of the category and the keys that the delegations speak
of are Rabin keys. -/
theorem key_speaks_for_decides (verifySign : DjStmt → DjPubkey → DjSign → Bool)
    (sss : List DjStmtSigned) (g : DjGcat) (hsig : SignaturesDistinct sss)
    (hg : g.key.type = .rabin)
    (hD : ∀ d a, Accepted verifySign sss d → d.a = .pubkey a → a.type = .rabin)
    (hsize : (DjDelegationMap.insertAll verifySign {} sss).t.length < 2 ^ 32) (k : DjPubkey) :
    keySpeaksFor (DjDelegationMap.insertAll verifySign {} sss) g
        (DjDelegationMap.insertAll verifySign {} sss).size k = true ↔
      SpeaksFor (Accepted verifySign sss) g k := by
  have hb := builtFrom_insertAll verifySign hsig
  rw [hb.size, Nat.mod_eq_of_lt hsize, keySpeaksFor_iff_chain]
  refine ⟨fun h ↦ (h.mono fun d ↦ (hb.holds d).mp).speaksFor, fun h ↦ ?_⟩
  exact (h.chain hg hD).mono fun d ↦ (hb.holds d).mpr

def rabinKey (n : Nat) : DjPubkey := ⟨.rabin, n⟩

def twoStatements : List DjStmtSigned :=
  [⟨.delegation ⟨.pubkey (rabinKey 1), .pubkey (rabinKey 2), some (rabinKey 2), 0, 9⟩, 1⟩,
    ⟨.delegation ⟨.pubkey (rabinKey 2), .gcat ⟨rabinKey 3, 7, true⟩, none, 0, 9⟩, 2⟩]

def acceptAll : DjStmt → DjPubkey → DjSign → Bool := fun _ _ _ ↦ true

theorem accepted_twoStatements {d : DjDelegation} {a : DjPubkey}
    (h : Accepted acceptAll twoStatements d) (ha : d.a = .pubkey a) : a.type = .rabin := by
  obtain ⟨ss, hss, -, hs, -⟩ := h
  simp only [twoStatements, List.mem_cons, List.not_mem_nil, or_false] at hss
  rcases hss with rfl | rfl <;> cases hs <;> cases ha <;> rfl

theorem twoStatements_decided :
    keySpeaksFor (DjDelegationMap.insertAll acceptAll {} twoStatements) ⟨rabinKey 3, 7, true⟩
        (DjDelegationMap.insertAll acceptAll {} twoStatements).size (rabinKey 1) = true ↔
      SpeaksFor (Accepted acceptAll twoStatements) ⟨rabinKey 3, 7, true⟩ (rabinKey 1) :=
  have hsig : SignaturesDistinct twoStatements := by unfold SignaturesDistinct; decide
  key_speaks_for_decides acceptAll twoStatements ⟨rabinKey 3, 7, true⟩ hsig rfl
    (fun _ _ ↦ accepted_twoStatements) (by decide +kernel) (rabinKey 1)

/-- A key of another type does not even speak for its own categories. -/
theorem other_creator_refused :
    keySpeaksFor (DjDelegationMap.insertAll acceptAll {} []) ⟨⟨.other 1, 5⟩, 0, false⟩
        (DjDelegationMap.insertAll acceptAll {} []).size ⟨.other 1, 5⟩ = false ∧
      SpeaksFor (Accepted acceptAll []) ⟨⟨.other 1, 5⟩, 0, false⟩ ⟨.other 1, 5⟩ :=
  ⟨rfl, .creator⟩

end HiStar.Dj
