import HiStar.Dj.Delegation

namespace HiStar.Dj

def delegationTimeSkew : Nat := 5

structure DjMessage where
  dst : DjPubkey
  taint : List DjGcat
  glabel : List DjGcat
  gclear : List DjGcat

/-- A delegation set as it is decoded, entry by entry; an entry that cannot be
decoded is `none`. The encoding counts entries in 32 bits. -/
structure DjDelegationSet where
  ents : List (Option DjStmtSigned)
  count : ents.length < 2 ^ 32

def DjDelegationSet.stmts (dset : DjDelegationSet) : List DjStmtSigned := dset.ents.filterMap id

section

variable (verifySign : DjStmt → DjPubkey → DjSign → Bool)

def DjDelegationSet.map (dset : DjDelegationSet) : DjDelegationMap :=
  DjDelegationMap.insertAll verifySign {} dset.stmts

/-- The check on a message that the host `self` sends. -/
def labelcheckSend (self : DjPubkey) (a : DjMessage) (dset : DjDelegationSet) : Bool :=
  let dm := dset.map verifySign
  a.dst.eq self || a.taint.all fun c ↦ c.integrity || keySpeaksFor dm c dm.size a.dst

/-- The check on a message that the host `self` has received from `src`. -/
def labelcheckRecv (self : DjPubkey) (a : DjMessage) (dset : DjDelegationSet) (src : DjPubkey) :
    Bool :=
  let dm := dset.map verifySign
  src.eq self ||
    ((a.taint.all fun c ↦ !c.integrity || keySpeaksFor dm c dm.size src) &&
      (a.glabel.all fun c ↦ keySpeaksFor dm c dm.size src) &&
      (a.gclear.all fun c ↦ keySpeaksFor dm c dm.size src))

/-- The categories for which a check asks the set, with the key that must speak
for them. -/
def sendChecks (self : DjPubkey) (a : DjMessage) : List DjGcat :=
  if a.dst.eq self then [] else a.taint.filter fun c ↦ !c.integrity

def recvChecks (self : DjPubkey) (a : DjMessage) (src : DjPubkey) : List DjGcat :=
  if src.eq self then [] else a.taint.filter (·.integrity) ++ a.glabel ++ a.gclear

end

def DjDelegation.inWindow (d : DjDelegation) (t : Nat) : Bool :=
  d.fromTs ≤ t + delegationTimeSkew && t ≤ d.untilTs + delegationTimeSkew

def unexpiredEnt (t : Nat) : Option DjStmtSigned → Bool
  | some ⟨.delegation d, _⟩ => d.inWindow t
  | _ => true

def DjDelegationSet.unexpired (dset : DjDelegationSet) (t : Nat) : DjDelegationSet :=
  ⟨dset.ents.filter (unexpiredEnt t), (List.length_filter_le _ _).trans_lt dset.count⟩

variable {verifySign : DjStmt → DjPubkey → DjSign → Bool} {dset : DjDelegationSet} {g : DjGcat}
  {k self src : DjPubkey} {a : DjMessage} {t : Nat}

abbrev DjDelegationSet.Accepts (dset : DjDelegationSet)
    (verifySign : DjStmt → DjPubkey → DjSign → Bool) : DjDelegation → Prop :=
  Accepted verifySign dset.stmts

theorem mem_stmts {ss : DjStmtSigned} : ss ∈ dset.stmts ↔ some ss ∈ dset.ents := by
  simp [DjDelegationSet.stmts]

theorem mem_stmts_unexpired {ss : DjStmtSigned} :
    ss ∈ (dset.unexpired t).stmts ↔ ss ∈ dset.stmts ∧ unexpiredEnt t (some ss) = true := by
  simp only [mem_stmts, DjDelegationSet.unexpired, List.mem_filter]

theorem accepts_unexpired {d : DjDelegation} : (dset.unexpired t).Accepts verifySign d ↔
    dset.Accepts verifySign d ∧ d.inWindow t = true := by
  constructor
  · rintro ⟨ss, hss, hv, hs, ha⟩
    obtain ⟨hss, hw⟩ := mem_stmts_unexpired.mp hss
    obtain ⟨stmt, sign⟩ := ss
    cases hs
    exact ⟨⟨_, hss, hv, rfl, ha⟩, hw⟩
  · rintro ⟨⟨ss, hss, hv, hs, ha⟩, hw⟩
    obtain ⟨stmt, sign⟩ := ss
    cases hs
    exact ⟨_, mem_stmts_unexpired.mpr ⟨hss, hw⟩, hv, rfl, ha⟩

theorem keySpeaksFor_map (hsig : SignaturesDistinct dset.stmts) :
    keySpeaksFor (dset.map verifySign) g (dset.map verifySign).size k = true ↔
      Chain (dset.Accepts verifySign) g k := by
  have hb : BuiltFrom verifySign dset.stmts (dset.map verifySign) :=
    builtFrom_insertAll verifySign hsig
  have hlen : (dset.map verifySign).t.length < 2 ^ 32 :=
    (hb.length.trans (List.length_filterMap_le id dset.ents)).trans_lt dset.count
  have hsize : (dset.map verifySign).size = (dset.map verifySign).t.length := by
    rw [hb.size]
    exact Nat.mod_eq_of_lt hlen
  rw [hsize, keySpeaksFor_iff_chain]
  exact ⟨fun h ↦ h.mono fun d ↦ (hb.holds d).mp, fun h ↦ h.mono fun d ↦ (hb.holds d).mpr⟩

theorem signatures_unexpired (hsig : SignaturesDistinct dset.stmts) (t : Nat) :
    SignaturesDistinct (dset.unexpired t).stmts := fun s hs s' hs' ↦
  hsig s (mem_stmts_unexpired.mp hs).1 s' (mem_stmts_unexpired.mp hs').1

theorem labelcheckSend_iff (hsig : SignaturesDistinct dset.stmts) :
    labelcheckSend verifySign self a dset = true ↔
      ∀ c ∈ sendChecks self a, Chain (dset.Accepts verifySign) c a.dst := by
  unfold labelcheckSend sendChecks
  by_cases hself : a.dst.eq self = true
  · simp [hself]
  · simp only [hself, Bool.false_or, List.all_eq_true, Bool.or_eq_true, keySpeaksFor_map hsig,
      Bool.false_eq_true, ↓reduceIte, List.mem_filter, Bool.not_eq_true', and_imp]
    refine forall₂_congr fun c _ ↦ ?_
    cases c.integrity <;> simp

theorem labelcheckRecv_iff (hsig : SignaturesDistinct dset.stmts) :
    labelcheckRecv verifySign self a dset src = true ↔
      ∀ c ∈ recvChecks self a src, Chain (dset.Accepts verifySign) c src := by
  unfold labelcheckRecv recvChecks
  by_cases hself : src.eq self = true
  · simp [hself]
  · simp only [hself, Bool.false_or, Bool.and_eq_true, List.all_eq_true, Bool.or_eq_true,
      keySpeaksFor_map hsig, Bool.false_eq_true, ↓reduceIte, List.mem_append, List.mem_filter,
      Bool.not_eq_true']
    constructor
    · rintro ⟨⟨h1, h2⟩, h3⟩ c ((⟨hc, hi⟩ | hc) | hc)
      · exact (h1 c hc).resolve_left (by simp [hi])
      · exact h2 c hc
      · exact h3 c hc
    · intro h
      refine ⟨⟨fun c hc ↦ ?_, fun c hc ↦ h c (.inl (.inr hc))⟩, fun c hc ↦ h c (.inr hc)⟩
      cases hi : c.integrity with
      | false => exact .inl rfl
      | true => exact .inr (h c (.inl (.inl ⟨hc, hi⟩)))

/-- Every category check behind an accepted message rests on delegations inside
their windows, and the others may be left out of the set. -/
structure WindowsRespected (verifySign : DjStmt → DjPubkey → DjSign → Bool) (dset : DjDelegationSet)
    (t : Nat) : Prop where
  send : ∀ self a, labelcheckSend verifySign self a dset = true →
    ∀ c ∈ sendChecks self a, Chain ((dset.unexpired t).Accepts verifySign) c a.dst
  recv : ∀ self a src, labelcheckRecv verifySign self a dset src = true →
    ∀ c ∈ recvChecks self a src, Chain ((dset.unexpired t).Accepts verifySign) c src
  send_verdict : ∀ self a, labelcheckSend verifySign self a (dset.unexpired t) =
    labelcheckSend verifySign self a dset
  recv_verdict : ∀ self a src, labelcheckRecv verifySign self a (dset.unexpired t) src =
    labelcheckRecv verifySign self a dset src

/-- A delegation outside its window adds nothing: whenever the key or category
it names, and its via key, are supported by delegations inside their windows, so
is its subject. -/
def ExpiredRedundant (verifySign : DjStmt → DjPubkey → DjSign → Bool) (dset : DjDelegationSet)
    (t : Nat) : Prop :=
  ∀ d g a k, dset.Accepts verifySign d → d.inWindow t = false → d.a = .pubkey a → a.eq k = true →
    (∀ v, d.via = some v → Chain ((dset.unexpired t).Accepts verifySign) g v) →
    ((∃ c, d.b = .gcat c ∧ c.eq g = true) ∨
      ∃ b, d.b = .pubkey b ∧ Chain ((dset.unexpired t).Accepts verifySign) g b) →
    Chain ((dset.unexpired t).Accepts verifySign) g k

theorem Chain.unexpired (hr : ExpiredRedundant verifySign dset t)
    (h : Chain (dset.Accepts verifySign) g k) :
    Chain ((dset.unexpired t).Accepts verifySign) g k := by
  induction h with
  | creator h => exact .creator h
  | @category k a d c hd ha hk _ hb hc ihvia =>
    cases hw : d.inWindow t with
    | true => exact .category (accepts_unexpired.mpr ⟨hd, hw⟩) ha hk ihvia hb hc
    | false => exact hr d g a k hd hw ha hk ihvia (.inl ⟨c, hb, hc⟩)
  | @key k a b d hd ha hk _ hb _ ihvia ih =>
    cases hw : d.inWindow t with
    | true => exact .key (accepts_unexpired.mpr ⟨hd, hw⟩) ha hk ihvia hb ih
    | false => exact hr d g a k hd hw ha hk ihvia (.inr ⟨b, hb, ih⟩)

theorem Chain.of_unexpired (h : Chain ((dset.unexpired t).Accepts verifySign) g k) :
    Chain (dset.Accepts verifySign) g k := h.mono fun _ hd ↦ (accepts_unexpired.mp hd).1

/-- The checks do not look at the windows, so they respect them exactly when no
delegation outside its window carries authority of its own. -/
theorem windows_respected_iff (verifySign : DjStmt → DjPubkey → DjSign → Bool)
    (dset : DjDelegationSet) (t : Nat) (hsig : SignaturesDistinct dset.stmts) :
    WindowsRespected verifySign dset t ↔ ExpiredRedundant verifySign dset t := by
  have hsig' := signatures_unexpired hsig t
  constructor
  · intro h d g a k hd hw ha hk hvia hb
    have hchain : Chain (dset.Accepts verifySign) g k := by
      rcases hb with ⟨c, hb, hc⟩ | ⟨b, hb, hrec⟩
      · exact .category hd ha hk (fun v hv ↦ (hvia v hv).of_unexpired) hb hc
      · exact .key hd ha hk (fun v hv ↦ (hvia v hv).of_unexpired) hb hrec.of_unexpired
    -- a message that grants `g`, from `k` to a host with another key
    have hchecks : recvChecks ⟨.other 0, 0⟩ ⟨k, [], [g], []⟩ k = [g] := by
      have hself : k.eq ⟨.other 0, 0⟩ = false := by simp [DjPubkey.eq]
      simp [recvChecks, hself]
    refine h.recv ⟨.other 0, 0⟩ ⟨k, [], [g], []⟩ k ?_ g ?_
    · rw [labelcheckRecv_iff hsig, hchecks]
      intro c hc
      rw [List.mem_singleton.mp hc]
      exact hchain
    · rw [hchecks]
      exact List.mem_singleton.mpr rfl
  · intro hr
    refine ⟨fun self a h c hc ↦ ?_, fun self a src h c hc ↦ ?_, fun self a ↦ ?_,
      fun self a src ↦ ?_⟩
    · exact ((labelcheckSend_iff hsig).mp h c hc).unexpired hr
    · exact ((labelcheckRecv_iff hsig).mp h c hc).unexpired hr
    · rw [Bool.eq_iff_iff, labelcheckSend_iff hsig, labelcheckSend_iff hsig']
      exact forall₂_congr fun c _ ↦ ⟨Chain.of_unexpired, fun h ↦ h.unexpired hr⟩
    · rw [Bool.eq_iff_iff, labelcheckRecv_iff hsig, labelcheckRecv_iff hsig']
      exact forall₂_congr fun c _ ↦ ⟨Chain.of_unexpired, fun h ↦ h.unexpired hr⟩

/-- The key 1 is granted a category of the key 2 up to some time. -/
def grantUntil (untilTs : Nat) : DjDelegation :=
  ⟨.pubkey (rabinKey 1), .gcat ⟨rabinKey 2, 7, true⟩, none, 0, untilTs⟩

def oldGrant : DjDelegationSet := ⟨[some ⟨.delegation (grantUntil 10), 1⟩], by decide⟩

def renewedGrant : DjDelegationSet :=
  ⟨[some ⟨.delegation (grantUntil 10), 1⟩, some ⟨.delegation (grantUntil 200), 2⟩], by decide⟩

/-- The delegation that has expired by time 100 adds nothing to the one that renews it. -/
theorem renewedGrant_windows : WindowsRespected acceptAll renewedGrant 100 := by
  refine (windows_respected_iff acceptAll renewedGrant 100
    (by unfold SignaturesDistinct; decide)).mpr ?_
  rintro d g a k ⟨ss, hss, -, hd, -⟩ hw ha hk - hb
  have hnew : (renewedGrant.unexpired 100).Accepts acceptAll (grantUntil 200) :=
    ⟨⟨.delegation (grantUntil 200), 2⟩, by decide, rfl, rfl, _, rfl⟩
  have hold : d = grantUntil 10 := by
    obtain rfl | rfl : ss = ⟨.delegation (grantUntil 10), 1⟩ ∨
        ss = ⟨.delegation (grantUntil 200), 2⟩ := by
      simpa [DjDelegationSet.stmts, renewedGrant] using hss
    · exact (DjStmt.delegation.inj hd).symm
    · rw [← DjStmt.delegation.inj hd] at hw
      cases hw
  subst hold
  obtain ⟨c, hc, hcg⟩ | ⟨b, hb, -⟩ := hb
  · exact .category hnew ha hk (fun v hv ↦ by cases hv) hc hcg
  · cases hb

/-- At time 100 the grant is still accepted, and only because of the expired
delegation. -/
theorem oldGrant_accepted :
    labelcheckRecv acceptAll (rabinKey 3) ⟨rabinKey 3, [], [⟨rabinKey 2, 7, true⟩], []⟩ oldGrant
        (rabinKey 1) = true ∧
      labelcheckRecv acceptAll (rabinKey 3) ⟨rabinKey 3, [], [⟨rabinKey 2, 7, true⟩], []⟩
        (oldGrant.unexpired 100) (rabinKey 1) = false ∧ ¬ WindowsRespected acceptAll oldGrant 100 := by
  have h1 : labelcheckRecv acceptAll (rabinKey 3) ⟨rabinKey 3, [], [⟨rabinKey 2, 7, true⟩], []⟩
      oldGrant (rabinKey 1) = true := by decide +kernel
  have h2 : labelcheckRecv acceptAll (rabinKey 3) ⟨rabinKey 3, [], [⟨rabinKey 2, 7, true⟩], []⟩
      (oldGrant.unexpired 100) (rabinKey 1) = false := by decide +kernel
  refine ⟨h1, h2, fun h ↦ ?_⟩
  have := h.recv_verdict (rabinKey 3) ⟨rabinKey 3, [], [⟨rabinKey 2, 7, true⟩], []⟩ (rabinKey 1)
  rw [h1, h2] at this
  cases this

end HiStar.Dj
