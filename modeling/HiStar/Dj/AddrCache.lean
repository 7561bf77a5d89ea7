import HiStar.Dj.Expiry

namespace HiStar.Dj

structure PkAddr where
  expires : Nat
  pk : DjPubkey
  addr : DjAddress
  fromTs : Nat
  untilTs : Nat
  deriving DecidableEq

def pkAddr (key : DjPubkey) (addr : DjAddress) (d : DjDelegation) : PkAddr :=
  ⟨d.untilTs, key, addr, d.fromTs, d.untilTs⟩

/-- The cached addresses in the order of `addr_exp_`, the time in `exp_first_`, and the
time of the pending timer. -/
structure AddrCache where
  entries : List PkAddr
  sorted : entries.Pairwise fun a b ↦ a.expires ≤ b.expires
  expFirst : Int
  expCb : Option Nat
  deriving DecidableEq

def PkAddr.timer (a : PkAddr) : Nat := (a.expires + delegationTimeSkew) % 2 ^ 32

def PkAddr.expired (a : PkAddr) (now : Int) : Bool := a.expires ≤ now - delegationTimeSkew

theorem PkAddr.timer_le (a : PkAddr) : a.timer ≤ a.expires + delegationTimeSkew := Nat.mod_le _ _

namespace AddrCache

def remove (c : AddrCache) (a : PkAddr) : AddrCache :=
  { c with
    entries := c.entries.erase a
    sorted := c.sorted.sublist List.erase_sublist }

theorem sorted_orderedInsert {es : List PkAddr} (a : PkAddr)
    (hes : es.Pairwise fun a b ↦ a.expires ≤ b.expires) :
    (es.orderedInsert (fun a b ↦ a.expires ≤ b.expires) a).Pairwise fun a b ↦ a.expires ≤ b.expires := by
  induction es with
  | nil => exact List.pairwise_singleton _ _
  | cons e es ih =>
    rw [List.orderedInsert]
    rw [List.pairwise_cons] at hes
    split
    · rename_i hle
      exact List.pairwise_cons.mpr ⟨List.forall_mem_cons.mpr ⟨hle, fun b hb ↦ hle.trans (hes.1 b hb)⟩,
        List.pairwise_cons.mpr hes⟩
    · rename_i hlt
      refine List.pairwise_cons.mpr ⟨fun b hb ↦ ?_, ih hes.2⟩
      rcases (List.mem_orderedInsert _).mp hb with rfl | hb
      · omega
      · exact hes.1 b hb

def add (c : AddrCache) (a : PkAddr) : AddrCache :=
  { c with
    entries := c.entries.orderedInsert (fun a b ↦ a.expires ≤ b.expires) a
    sorted := sorted_orderedInsert a c.sorted }

def dropExpired (c : AddrCache) (now : Int) : AddrCache :=
  { c with
    entries := c.entries.dropWhile fun a ↦ a.expired now
    sorted := c.sorted.sublist (List.dropWhile_suffix _).sublist }

def cacheCleanup (c : AddrCache) (now : Int) : AddrCache :=
  match (c.dropExpired now).entries.head? with
  | some a => { c.dropExpired now with expFirst := a.expires, expCb := some a.timer }
  | none => { c.dropExpired now with expCb := none }

def removeOld (ih : Ihash PkAddr) (c : AddrCache) (a : PkAddr) : AddrCache :=
  match ih.pick c.entries fun e ↦ e.pk.eq a.pk with
  | some old => if old.untilTs < a.untilTs then c.remove old else c
  | none => c

/-- A timer is set when there is none, or the entry is earlier than `exp_first_`. -/
def arm (c : AddrCache) (a : PkAddr) : AddrCache :=
  if c.expCb = none ∨ (a.expires : Int) < c.expFirst then { c with expCb := some a.timer } else c

/-- `process_delegation`. An address that speaks for anything but a key makes the code
read the wrong member of a union. -/
def processDelegation (ih : Ihash PkAddr) (c : AddrCache) (d : DjDelegation) : Option AddrCache :=
  match d.a, d.b with
  | .address addr, .pubkey key =>
    let pka := pkAddr key addr d
    some (((c.removeOld ih pka).add pka).arm pka)
  | .address _, _ => none
  | _, _ => some c

end AddrCache

/-- The address is the newest of its key, and the timer comes in time for it and, when it
is moved, for the others. -/
structure InOrder (c : AddrCache) (a : PkAddr) : Prop where
  rabin : a.pk.type = .rabin
  newest : ∀ e ∈ c.entries, e.pk = a.pk → e.expires < a.expires
  moved : c.expCb ≠ none → (a.expires : Int) < c.expFirst →
    ∀ e ∈ c.entries, e.pk ≠ a.pk → a.expires ≤ e.expires
  kept : ∀ time, c.expCb = some time → c.expFirst ≤ (a.expires : Int) →
    time ≤ a.expires + delegationTimeSkew

/-- The runs of the cache in which every address comes in order, with the addresses
received and the time. The member `exp_first_` is not initialised. -/
inductive CacheRun (ih : Ihash PkAddr) : AddrCache → List PkAddr → Int → Prop
  | start (expFirst now : Int) : CacheRun ih ⟨[], .nil, expFirst, none⟩ [] now
  | delegation {c c' : AddrCache} {r : List PkAddr} {now : Int} {d : DjDelegation} {addr : DjAddress}
      {key : DjPubkey} (h : CacheRun ih c r now) (ha : d.a = .address addr) (hb : d.b = .pubkey key)
      (hord : InOrder c (pkAddr key addr d)) (hok : c.processDelegation ih d = some c') :
      CacheRun ih c' (pkAddr key addr d :: r) now
  | cleanup {c : AddrCache} {r : List PkAddr} {now : Int} {time : Nat} (h : CacheRun ih c r now)
      (hcb : c.expCb = some time) (hdue : (time : Int) ≤ now) : CacheRun ih (c.cacheCleanup now) r now
  | wait {c : AddrCache} {r : List PkAddr} {now now' : Int} (h : CacheRun ih c r now)
      (hle : now ≤ now') : CacheRun ih c r now'

structure OneCurrent (c : AddrCache) (r : List PkAddr) (now : Int) : Prop where
  one : (c.entries.map (·.pk)).Nodup
  received : ∀ e ∈ c.entries, e ∈ r
  largest : ∀ e ∈ c.entries, ∀ a ∈ r, a.pk = e.pk → a.expired now = false → a.expires ≤ e.expires
  cached : ∀ a ∈ r, a.expired now = false → ∃ e ∈ c.entries, e.pk = a.pk
  timer : c.entries ≠ [] → ∃ time, c.expCb = some time ∧
    ∀ e ∈ c.entries, time ≤ e.expires + delegationTimeSkew

/-- What every step keeps: a received address that has not expired is cached, or a newer
one of its key is. -/
structure CacheInv (c : AddrCache) (r : List PkAddr) (now : Int) : Prop where
  one : (c.entries.map (·.pk)).Nodup
  rabin : ∀ e ∈ c.entries, e.pk.type = .rabin
  until_eq : ∀ e ∈ c.entries, e.untilTs = e.expires
  received : ∀ e ∈ c.entries, e ∈ r
  kept : ∀ a ∈ r, a.expired now = false → ∃ e ∈ c.entries, e.pk = a.pk ∧ a.expires ≤ e.expires
  timer : c.entries ≠ [] → ∃ time, c.expCb = some time ∧
    ∀ e ∈ c.entries, time ≤ e.expires + delegationTimeSkew

namespace CacheInv

variable {ih : Ihash PkAddr} {c : AddrCache} {r : List PkAddr} {now now' : Int} {a : PkAddr}

theorem unique (h : CacheInv c r now) {e f : PkAddr} (he : e ∈ c.entries) (hf : f ∈ c.entries)
    (hpk : e.pk = f.pk) : e = f :=
  List.inj_on_of_nodup_map h.one he hf hpk

theorem oneCurrent (h : CacheInv c r now) : OneCurrent c r now := by
  refine ⟨h.one, h.received, fun e he a ha hpk hexp ↦ ?_, fun a ha hexp ↦ ?_, h.timer⟩
  · obtain ⟨f, hf, hfpk, hle⟩ := h.kept a ha hexp
    rwa [h.unique he hf (hpk.symm.trans hfpk.symm)]
  · obtain ⟨e, he, hpk, -⟩ := h.kept a ha hexp
    exact ⟨e, he, hpk⟩

theorem removeOld_mem (h : CacheInv c r now) (hord : InOrder c a) (ha : a.untilTs = a.expires)
    {e : PkAddr} :
    e ∈ (c.removeOld ih a).entries ↔ e ∈ c.entries ∧ e.pk ≠ a.pk := by
  unfold AddrCache.removeOld
  split
  · rename_i old hold
    obtain ⟨hmem, heq⟩ := ih.found hold
    have hpk := (DjPubkey.eq_iff.mp heq).2
    have hlt : old.untilTs < a.untilTs := by
      rw [h.until_eq old hmem, ha]
      exact hord.newest old hmem hpk
    rw [if_pos hlt]
    show e ∈ c.entries.erase old ↔ _
    rw [(List.Nodup.of_map _ h.one).mem_erase_iff]
    constructor
    · rintro ⟨hne, he⟩
      exact ⟨he, fun hepk ↦ hne (h.unique he hmem (hepk.trans hpk.symm))⟩
    · rintro ⟨he, hne⟩
      exact ⟨fun heq ↦ hne (heq ▸ hpk), he⟩
  · rename_i hnone
    refine ⟨fun he ↦ ⟨he, fun hpk ↦ ?_⟩, And.left⟩
    have := ih.missing hnone e he
    rw [DjPubkey.eq_iff.mpr ⟨h.rabin e he, hpk⟩] at this
    cases this

theorem removeOld_sublist : (c.removeOld ih a).entries.Sublist c.entries := by
  unfold AddrCache.removeOld
  split
  · split
    · exact List.erase_sublist
    · exact List.Sublist.refl _
  · exact List.Sublist.refl _

theorem arm_entries (c : AddrCache) (a : PkAddr) : (c.arm a).entries = c.entries := by
  unfold AddrCache.arm
  split <;> rfl

theorem arm_timer (h : CacheInv c r now) (hord : InOrder c a) {c₁ : AddrCache}
    (hcb : c₁.expCb = c.expCb) (hfirst : c₁.expFirst = c.expFirst)
    (hmem : ∀ e ∈ c₁.entries, e = a ∨ e ∈ c.entries ∧ e.pk ≠ a.pk) :
    ∃ time, (c₁.arm a).expCb = some time ∧
      ∀ e ∈ c₁.entries, time ≤ e.expires + delegationTimeSkew := by
  unfold AddrCache.arm
  rw [hcb, hfirst]
  split
  · rename_i harm
    refine ⟨a.timer, rfl, fun e he ↦ ?_⟩
    have htimer := a.timer_le
    rcases hmem e he with rfl | ⟨hec, hpk⟩
    · exact htimer
    · -- with an entry in the cache a timer was pending
      obtain ⟨time, htime, -⟩ := h.timer (List.ne_nil_of_mem hec)
      have hne : c.expCb ≠ none := by simp [htime]
      have := hord.moved hne (harm.resolve_left hne) e hec hpk
      omega
  · rename_i hkeep
    rw [not_or, not_lt] at hkeep
    obtain ⟨time, htime⟩ := Option.ne_none_iff_exists'.mp hkeep.1
    refine ⟨time, hcb.trans htime, fun e he ↦ ?_⟩
    rcases hmem e he with rfl | ⟨hec, -⟩
    · exact hord.kept time htime hkeep.2
    · obtain ⟨time', htime', hle⟩ := h.timer (List.ne_nil_of_mem hec)
      rw [htime] at htime'
      cases htime'
      exact hle e hec

theorem insert (h : CacheInv c r now) (hord : InOrder c a) (ha : a.untilTs = a.expires) :
    CacheInv (((c.removeOld ih a).add a).arm a) (a :: r) now := by
  have hmem : ∀ {e}, e ∈ ((c.removeOld ih a).add a).entries ↔ e = a ∨ e ∈ c.entries ∧ e.pk ≠ a.pk := by
    intro e
    have hold : e ∈ (c.removeOld ih a).entries ↔ e ∈ c.entries ∧ e.pk ≠ a.pk :=
      h.removeOld_mem hord ha
    rw [← hold]
    exact List.mem_orderedInsert _
  have hcb : ((c.removeOld ih a).add a).expCb = c.expCb ∧
      ((c.removeOld ih a).add a).expFirst = c.expFirst := by
    show (c.removeOld ih a).expCb = c.expCb ∧ (c.removeOld ih a).expFirst = c.expFirst
    unfold AddrCache.removeOld
    split
    · split <;> exact ⟨rfl, rfl⟩
    · exact ⟨rfl, rfl⟩
  constructor
  · rw [arm_entries]
    have hperm : (((c.removeOld ih a).add a).entries.map (·.pk)).Perm
        (a.pk :: (c.removeOld ih a).entries.map (·.pk)) :=
      (List.perm_orderedInsert _ a _).map _
    refine hperm.nodup_iff.mpr (List.nodup_cons.mpr ⟨fun hin ↦ ?_, ?_⟩)
    · obtain ⟨e, he, hpk⟩ := List.mem_map.mp hin
      exact ((h.removeOld_mem hord ha).mp he).2 hpk
    · exact h.one.sublist (removeOld_sublist.map _)
  · rw [arm_entries]
    intro e he
    rcases hmem.mp he with rfl | ⟨he, -⟩
    · exact hord.rabin
    · exact h.rabin e he
  · rw [arm_entries]
    intro e he
    rcases hmem.mp he with rfl | ⟨he, -⟩
    · exact ha
    · exact h.until_eq e he
  · rw [arm_entries]
    intro e he
    rcases hmem.mp he with rfl | ⟨he, -⟩
    · exact List.mem_cons_self
    · exact List.mem_cons_of_mem _ (h.received e he)
  · rw [arm_entries]
    intro b hb hexp
    rcases List.mem_cons.mp hb with rfl | hb
    · exact ⟨b, hmem.mpr (.inl rfl), rfl, le_rfl⟩
    · obtain ⟨e, he, hpk, hle⟩ := h.kept b hb hexp
      by_cases hea : e.pk = a.pk
      · exact ⟨a, hmem.mpr (.inl rfl), hea.symm.trans hpk, hle.trans (hord.newest e he hea).le⟩
      · exact ⟨e, hmem.mpr (.inr ⟨he, hea⟩), hpk, hle⟩
  · intro _
    rw [arm_entries]
    exact arm_timer h hord hcb.1 hcb.2 fun e he ↦ hmem.mp he

theorem cleanup_entries (c : AddrCache) (now : Int) :
    (c.cacheCleanup now).entries = c.entries.dropWhile fun a ↦ a.expired now := by
  unfold AddrCache.cacheCleanup
  split <;> rfl

theorem mem_dropWhile {es : List PkAddr} {p : PkAddr → Bool} {e : PkAddr} (he : e ∈ es)
    (hp : p e = false) : e ∈ es.dropWhile p := by
  rw [← List.takeWhile_append_dropWhile (p := p) (l := es)] at he
  refine (List.mem_append.mp he).resolve_left fun htake ↦ ?_
  rw [List.all_eq_true.mp List.all_takeWhile e htake] at hp
  cases hp

theorem cleanup (h : CacheInv c r now) : CacheInv (c.cacheCleanup now) r now := by
  have hsub : (c.cacheCleanup now).entries.Sublist c.entries := by
    rw [cleanup_entries]
    exact (List.dropWhile_suffix _).sublist
  refine ⟨h.one.sublist (hsub.map _), fun e he ↦ h.rabin e (hsub.subset he),
    fun e he ↦ h.until_eq e (hsub.subset he), fun e he ↦ h.received e (hsub.subset he),
    fun a ha hexp ↦ ?_, fun hne ↦ ?_⟩
  · obtain ⟨e, he, hpk, hle⟩ := h.kept a ha hexp
    refine ⟨e, ?_, hpk, hle⟩
    rw [cleanup_entries]
    refine mem_dropWhile he ?_
    simp only [PkAddr.expired, decide_eq_false_iff_not] at hexp ⊢
    omega
  · have hsorted := (c.dropExpired now).sorted
    unfold AddrCache.cacheCleanup at hne ⊢
    cases hes : (c.dropExpired now).entries with
    | nil => simp [hes] at hne
    | cons a es =>
      rw [hes, List.pairwise_cons] at hsorted
      refine ⟨a.timer, rfl, fun e he ↦ ?_⟩
      have htimer := a.timer_le
      have he' : e ∈ a :: es := hes ▸ he
      rcases List.mem_cons.mp he' with rfl | hin
      · exact htimer
      · have := hsorted.1 e hin
        omega

theorem wait (h : CacheInv c r now) (hle : now ≤ now') : CacheInv c r now' := by
  refine ⟨h.one, h.rabin, h.until_eq, h.received, fun a ha hexp ↦ h.kept a ha ?_, h.timer⟩
  simp only [PkAddr.expired, decide_eq_false_iff_not] at hexp ⊢
  omega

end CacheInv

theorem CacheRun.inv {ih : Ihash PkAddr} {c : AddrCache} {r : List PkAddr} {now : Int}
    (h : CacheRun ih c r now) : CacheInv c r now := by
  induction h with
  | start =>
    exact ⟨List.nodup_nil, by simp, by simp, by simp, by simp, fun h ↦ absurd rfl h⟩
  | delegation _ ha hb hord hok hinv =>
    simp only [AddrCache.processDelegation, ha, hb, Option.some.injEq] at hok
    subst hok
    exact hinv.insert hord rfl
  | cleanup _ _ _ hinv => exact hinv.cleanup
  | wait _ hle hinv => exact hinv.wait hle

/-- While the addresses come in order, the cache holds one current entry for each key,
and the timer comes in time for all of them. -/
theorem addr_cache_current {ih : Ihash PkAddr} {c : AddrCache} {r : List PkAddr} {now : Int}
    (h : CacheRun ih c r now) : OneCurrent c r now := h.inv.oneCurrent

/-- The statement that host `key` is at an address until a time. -/
def addressUntil (key time : Nat) : DjDelegation :=
  ⟨.address ⟨0, 0⟩, .pubkey ⟨.rabin, key⟩, none, 0, time⟩

def emptyCache : AddrCache := ⟨[], .nil, 0, none⟩

def AddrCache.put (c : AddrCache) (a : PkAddr) : AddrCache := ((c.removeOld .newest a).add a).arm a

theorem newer_address_cached : ∃ c r, CacheRun .newest c r 110 ∧ c.entries.map (·.expires) = [200] ∧
    c.expCb = some 205 ∧ OneCurrent c r 110 := by
  let a₁ : PkAddr := pkAddr ⟨.rabin, 1⟩ ⟨0, 0⟩ (addressUntil 1 100)
  let a₂ : PkAddr := pkAddr ⟨.rabin, 1⟩ ⟨0, 0⟩ (addressUntil 1 200)
  have h₀ : CacheRun .newest emptyCache [] 50 := .start 0 50
  have h₁ : CacheRun .newest (emptyCache.put a₁) [a₁] 50 :=
    .delegation h₀ rfl rfl ⟨rfl, by decide, by decide, fun _ h ↦ by cases h⟩ rfl
  have h₂ : CacheRun .newest ((emptyCache.put a₁).put a₂) [a₂, a₁] 50 :=
    .delegation h₁ rfl rfl ⟨rfl, by decide, by decide, by decide⟩ rfl
  have hcb : ((emptyCache.put a₁).put a₂).expCb = some 105 := by decide
  have h₃ := CacheRun.cleanup (h₂.wait (by decide : (50 : Int) ≤ 110)) hcb (by decide)
  exact ⟨_, _, h₃, by decide, by decide, addr_cache_current h₃⟩

/-- A statement that is replayed is cached twice, and an earlier expiry of another host
does not move the timer. -/
theorem replayed_address_cached_twice :
    (∃ c₁ c₂, AddrCache.processDelegation .newest emptyCache (addressUntil 1 100) = some c₁ ∧
      AddrCache.processDelegation .newest c₁ (addressUntil 1 100) = some c₂ ∧
      ¬(c₂.entries.map (·.pk)).Nodup) ∧
    ∃ c₁ c₂, AddrCache.processDelegation .newest emptyCache (addressUntil 1 200) = some c₁ ∧
      AddrCache.processDelegation .newest c₁ (addressUntil 2 100) = some c₂ ∧
      c₂.entries.map (·.expires) = [100, 200] ∧ c₂.expCb = some 205 :=
  ⟨⟨_, _, rfl, rfl, by decide⟩, _, _, rfl, rfl, by decide, by decide⟩

end HiStar.Dj
