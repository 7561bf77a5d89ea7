import HiStar.FsDir.Namei

namespace HiStar.FsDir

structure Text where
  pn : List Char
  flags : Flags

/-- A link that a resolution comes to, with the number of paths that are left under it when it
is followed. -/
structure Link where
  bytes : List Char
  depth : Nat

/-- A resolution without a limit: the object reached, and the paths left, innermost first. -/
structure Pending where
  o : CobjRef
  texts : List Text

/-- What lies before a resolution: its end, a lookup that never ends, or a link. -/
inductive Ahead
  | ends
  | hangs
  | link (l : Link) (p : Pending)

namespace Env

variable (env : Env)

def nextLink : CobjRef → List Text → Ahead
  | _, [] => .ends
  | o, t :: below =>
    match (env.toLink t.flags o t.pn).2 with
    | .ends (.ok o) => nextLink o below
    | .ends (.error _) => .ends
    | .hangs => .hangs
    | .link dir o next =>
      if next = [] ∧ t.flags.leafNofollow then .ends
      else
        match env.contents o with
        | .error _ => .ends
        | .ok bytes =>
          let start := env.startOf dir (linkText bytes)
          .link ⟨bytes, below.length⟩ ⟨start.1, ⟨start.2, {}⟩ :: ⟨next, t.flags⟩ :: below⟩

def links : Nat → Pending → List Link
  | 0, _ => []
  | k + 1, p =>
    match env.nextLink p.o p.texts with
    | .link l p' => l :: links k p'
    | _ => []

/-- The resolution comes to a lookup that never ends before it comes to link `k + 1`. -/
def hangs (k : Nat) (p : Pending) : Bool :=
  match env.nextLink p.o p.texts with
  | .ends => false
  | .hangs => true
  | .link _ p' =>
    match k with
    | 0 => false
    | k + 1 => hangs k p'

def pending (pn : List Char) (flags : Flags) : Pending :=
  let start := env.startOf env.fsCwd pn
  ⟨start.1, [⟨start.2, flags⟩]⟩

/-- The links that the loop follows on the paths left, each with its limit, and whether a lookup
never ends. -/
def trail : CobjRef → List (Text × Nat) → List (List Char) × Bool
  | _, [] => ([], false)
  | o, (t, n) :: below =>
    let r := env.lookupLoop n o t.pn t.flags
    match r.result with
    | none => (r.followed, true)
    | some (.error _) => (r.followed, false)
    | some (.ok o) => (r.followed ++ (trail o below).1, (trail o below).2)

end Env

/-- What a resolution with limits does next: it ends without a link, it never ends, it comes
to a link in a path that may follow no more, or it follows the link. -/
inductive Next (env : Env) (o : CobjRef) (ts : List (Text × Nat)) : Prop
  | ends (hnext : env.nextLink o (ts.map Prod.fst) = .ends) (hdone : env.trail o ts = ([], false))
  | hangs (hnext : env.nextLink o (ts.map Prod.fst) = .hangs) (hdone : env.trail o ts = ([], true))
  | stops {l : Link} {p : Pending} {t : Text} {below : List (Text × Nat)}
      (hnext : env.nextLink o (ts.map Prod.fst) = .link l p) (hmem : (t, 0) :: below <:+ ts)
      (hdepth : l.depth = below.length) (hdone : env.trail o ts = ([], false))
  | follows {l : Link} {t text next : Text} {n : Nat} {o' : CobjRef} {below : List (Text × Nat)}
      {bs : List (List Char)} {hung : Bool}
      (hnext : env.nextLink o (ts.map Prod.fst) =
        .link l ⟨o', text :: next :: below.map Prod.fst⟩)
      (hmem : (t, n + 1) :: below <:+ ts) (hdepth : l.depth = below.length)
      (hrest : env.trail o' ((text, n) :: (next, n) :: below) = (bs, hung))
      (hdone : env.trail o ts = (l.bytes :: bs, hung))

section Step

variable {env : Env} {o o' dir : CobjRef} {ts : List (Text × Nat)} {t : Text} {n : Nat}
  {ws : List Store} {next bytes : List Char}

theorem Env.lookupLoop_blocked (h : env.toLink t.flags o t.pn = (ws, .link dir o' next))
    (hstop : n = 0 ∨ (next = [] ∧ t.flags.leafNofollow = true) ∨
      ∃ e, env.contents o' = .error e) : env.trail o ((t, n) :: ts) = ([], false) := by
  rw [trail, lookupLoop, h]
  cases n with
  | zero => rfl
  | succ n =>
    by_cases hleaf : next = [] ∧ t.flags.leafNofollow = true
    · simp only [if_pos hleaf]
    · obtain ⟨e, he⟩ := (hstop.resolve_left n.succ_ne_zero).resolve_left hleaf
      simp only [if_neg hleaf, he]

theorem Env.follow_link {start : CobjRef × List Char}
    (h : env.toLink t.flags o t.pn = (ws, .link dir o' next))
    (hleaf : ¬(next = [] ∧ t.flags.leafNofollow = true)) (hread : env.contents o' = .ok bytes)
    (hstart : env.startOf dir (linkText bytes) = start) :
    env.trail o ((t, n + 1) :: ts) =
      (bytes :: (env.trail start.1 ((⟨start.2, {}⟩, n) :: (⟨next, t.flags⟩, n) :: ts)).1,
        (env.trail start.1 ((⟨start.2, {}⟩, n) :: (⟨next, t.flags⟩, n) :: ts)).2) := by
  rw [trail, lookupLoop, h]
  simp only [if_neg hleaf, hread, trail, hstart]
  cases (env.lookupLoop n start.1 start.2 {}).result with
  | none => rfl
  | some r =>
    cases r with
    | error e => rfl
    | ok o =>
      dsimp only
      cases (env.lookupLoop n o next t.flags).result with
      | none => simp
      | some r => cases r <;> simp

theorem Next.above (h : Next env o' ts) (ht : env.toLink t.flags o t.pn = (ws, .ends (.ok o'))) :
    Next env o ((t, n) :: ts) := by
  have hlink : env.nextLink o (((t, n) :: ts).map Prod.fst) = env.nextLink o' (ts.map Prod.fst) := by
    simp [Env.nextLink, ht]
  have hrun : env.trail o ((t, n) :: ts) = env.trail o' ts := by
    rw [Env.trail, Env.lookupLoop, ht]
    rfl
  cases h with
  | ends hnext hdone => exact .ends (hlink.trans hnext) (hrun.trans hdone)
  | hangs hnext hdone => exact .hangs (hlink.trans hnext) (hrun.trans hdone)
  | stops hnext hmem hdepth hdone =>
    exact .stops (hlink.trans hnext) (hmem.trans (List.suffix_cons _ _)) hdepth (hrun.trans hdone)
  | follows hnext hmem hdepth hrest hdone =>
    exact .follows (hlink.trans hnext) (hmem.trans (List.suffix_cons _ _)) hdepth hrest
      (hrun.trans hdone)

theorem Env.next_step (env : Env) (o : CobjRef) (ts : List (Text × Nat)) : Next env o ts := by
  induction ts generalizing o with
  | nil => exact .ends rfl rfl
  | cons t ts ih =>
    obtain ⟨t, n⟩ := t
    cases h : env.toLink t.flags o t.pn with
    | mk ws stop =>
    cases stop with
    | hangs => exact .hangs (by simp [nextLink, h]) (by rw [trail, lookupLoop, h])
    | ends r =>
      cases r with
      | error e => exact .ends (by simp [nextLink, h]) (by rw [trail, lookupLoop, h])
      | ok o' => exact (ih o').above h
    | link dir o' next =>
      by_cases hleaf : next = [] ∧ t.flags.leafNofollow = true
      · exact .ends (by simp [nextLink, h, hleaf]) (lookupLoop_blocked h (.inr (.inl hleaf)))
      cases hread : env.contents o' with
      | error e =>
        exact .ends (by simp [nextLink, h, hread]) (lookupLoop_blocked h (.inr (.inr ⟨e, hread⟩)))
      | ok bytes =>
        have hnext : env.nextLink o (((t, n) :: ts).map Prod.fst) =
            .link ⟨bytes, (ts.map Prod.fst).length⟩ ⟨(env.startOf dir (linkText bytes)).1,
              ⟨(env.startOf dir (linkText bytes)).2, {}⟩ :: ⟨next, t.flags⟩ ::
                ts.map Prod.fst⟩ := by
          simp only [List.map_cons, nextLink, h, if_neg hleaf, hread]
        cases n with
        | zero =>
          exact .stops hnext (List.suffix_refl _) (by simp) (lookupLoop_blocked h (.inl rfl))
        | succ n =>
          exact .follows hnext (List.suffix_refl _) (by simp) rfl (follow_link h hleaf hread rfl)

end Step

section Limits

variable {env : Env} {o : CobjRef} {ts : List (Text × Nat)} {m d : Nat}

/-- While all paths may follow `m` links, the first `m` are those of the resolution without limits,
and with fewer of them it hangs where that does. -/
theorem Env.trail_take (hts : ∀ t ∈ ts, m ≤ t.2) :
    (env.trail o ts).1.take m = (env.links m ⟨o, ts.map Prod.fst⟩).map Link.bytes ∧
      ((env.links m ⟨o, ts.map Prod.fst⟩).length < m →
        (env.trail o ts).2 = env.hangs m ⟨o, ts.map Prod.fst⟩) := by
  induction m generalizing o ts with
  | zero => exact ⟨rfl, fun h ↦ absurd h (Nat.not_lt_zero _)⟩
  | succ m ih =>
    rw [links, hangs]
    cases env.next_step o ts with
    | ends hnext hdone => simp [hnext, hdone]
    | hangs hnext hdone => simp [hnext, hdone]
    | stops hnext hmem hdepth hdone =>
      have hle := hts _ (hmem.mem List.mem_cons_self)
      omega
    | @follows l t text next n o' below bs hung hnext hmem hdepth hrest hdone =>
      have hle := hts _ (hmem.mem List.mem_cons_self)
      have hbelow : ∀ t ∈ (text, n) :: (next, n) :: below, m ≤ t.2 := by
        simp only [List.forall_mem_cons]
        refine ⟨by omega, by omega, fun t ht ↦ ?_⟩
        have hle' := hts _ (hmem.mem (List.mem_cons_of_mem _ ht))
        omega
      have h := ih hbelow (o := o')
      rw [hrest] at h
      simpa [hnext, hdone] using h

theorem Env.trail_length_lt (hts : ∀ t ∈ ts, m ≤ t.2) :
    (env.trail o ts).1.length < m ↔ (env.links m ⟨o, ts.map Prod.fst⟩).length < m := by
  have hlen := congrArg List.length (env.trail_take (o := o) hts).1
  rw [List.length_take, List.length_map] at hlen
  omega

theorem Env.links_length_le (env : Env) (m : Nat) (p : Pending) : (env.links m p).length ≤ m := by
  induction m generalizing p with
  | zero => exact le_rfl
  | succ m ih =>
    rw [links]
    split
    · exact Nat.succ_le_succ (ih _)
    · exact Nat.zero_le _

theorem Env.hangs_of_few {k : Nat} {p : Pending} (h : (env.links (k + 1) p).length < k + 1) :
    env.hangs (k + 1) p = env.hangs k p := by
  induction k generalizing p with
  | zero =>
    rw [links] at h
    rw [hangs, hangs]
    cases hnext : env.nextLink p.o p.texts with
    | link l p' => simp [hnext] at h
    | ends => rfl
    | hangs => rfl
  | succ k ih =>
    rw [links] at h
    rw [hangs, hangs]
    cases hnext : env.nextLink p.o p.texts with
    | link l p' =>
      simp only [hnext, List.length_cons] at h
      exact ih (Nat.lt_of_succ_lt_succ h)
    | ends => rfl
    | hangs => rfl

/-- The paths from depth `d` on may follow `m` links, and the outer ones more. -/
def Tight (m d : Nat) (ts : List (Text × Nat)) : Prop :=
  ∀ t below, t :: below <:+ ts →
    (d ≤ below.length → t.2 = m) ∧ (below.length < d → m < t.2)

theorem Tight.follow {t : Text} {below : List (Text × Nat)} (h : Tight (m + 1) d ts)
    (hmem : (t, m + 1) :: below <:+ ts) (text next : Text) :
    Tight m below.length ((text, m) :: (next, m) :: below) := by
  intro x rest hx
  rcases List.suffix_cons_iff.mp hx with heq | hx
  · obtain ⟨rfl, rfl⟩ := List.cons.inj heq
    exact ⟨fun _ ↦ rfl, fun hlt ↦ absurd hlt (by simp)⟩
  rcases List.suffix_cons_iff.mp hx with heq | hx
  · obtain ⟨rfl, rfl⟩ := List.cons.inj heq
    exact ⟨fun _ ↦ rfl, fun hlt ↦ absurd hlt (lt_irrefl _)⟩
  · have hlen := hx.length_le
    rw [List.length_cons] at hlen
    have hold := h x rest ((hx.trans (List.suffix_cons _ _)).trans hmem)
    exact ⟨fun hge ↦ by omega, fun _ ↦ by by_cases hd : d ≤ rest.length <;> omega⟩

theorem Tight.more {t : Text} {n : Nat} {below : List (Text × Nat)} (h : Tight m d ts)
    (hmem : (t, n + 1) :: below <:+ ts) (hd : below.length < d) (text next : Text) :
    ∀ t ∈ (text, n) :: (next, n) :: below, m ≤ t.2 := by
  have hn := (h _ _ hmem).2 hd
  simp only [List.forall_mem_cons]
  refine ⟨by omega, by omega, fun t ht ↦ ?_⟩
  obtain ⟨front, rest, rfl⟩ := List.append_of_mem ht
  have hsuffix : t :: rest <:+ ts :=
    ((List.suffix_append front _).trans (List.suffix_cons _ _)).trans hmem
  have hlen : rest.length < d := by
    simp only [List.length_append, List.length_cons] at hd
    omega
  exact ((h t rest hsuffix).2 hlen).le

/-- As long as the resolution follows no more links than it should, it hangs where the
resolution without limits does. -/
theorem Env.trail_length_le (h : Tight m d ts) :
    ((env.trail o ts).1.length ≤ m ↔
      ((env.links (m + 1) ⟨o, ts.map Prod.fst⟩).length = m + 1 →
        (d :: (env.links (m + 1) ⟨o, ts.map Prod.fst⟩).map Link.depth).Pairwise (· ≤ ·))) ∧
      ((env.trail o ts).1.length ≤ m → (env.trail o ts).2 = env.hangs m ⟨o, ts.map Prod.fst⟩) := by
  induction m using Nat.strong_induction_on generalizing o ts d with
  | _ m ih =>
    rw [links, hangs]
    cases env.next_step o ts with
    | ends hnext hdone => simp [hnext, hdone]
    | hangs hnext hdone => simp [hnext, hdone]
    | stops hnext hmem hdepth hdone =>
      have hlimit := h _ _ hmem
      have hd : d ≤ _ := not_lt.mp fun hlt ↦ Nat.not_lt_zero _ (hlimit.2 hlt)
      have hm : 0 = m := hlimit.1 hd
      subst hm
      simp [hnext, hdone, links, hdepth, hd]
    | @follows l t text next n o' below bs hung hnext hmem hdepth hrest hdone =>
      have hlimit := h _ _ hmem
      simp only [hnext, hdone, List.length_cons, List.map_cons, hdepth]
      by_cases hd : d ≤ below.length
      · obtain rfl : n + 1 = m := hlimit.1 hd
        have hnow := ih n (by omega) (h.follow hmem text next) (o := o')
        rw [hrest] at hnow
        rw [List.pairwise_cons_cons_iff_of_trans, Nat.add_left_inj, Nat.add_le_add_iff_right]
        simpa [hd] using hnow
      · -- the limits that are left all allow one link more
        have hmore := h.more hmem (not_le.mp hd) text next
        have hnow := env.trail_length_lt (o := o') hmore
        have hhung := (env.trail_take (o := o') hmore).2
        have hle := env.links_length_le m ⟨o', text :: next :: below.map Prod.fst⟩
        have hback : ¬(d :: below.length :: (env.links m ⟨o', text :: next :: below.map
            Prod.fst⟩).map Link.depth).Pairwise (· ≤ ·) :=
          fun hp ↦ hd (List.rel_of_pairwise_cons hp List.mem_cons_self)
        rw [hrest] at hnow hhung
        simp only [hback, imp_false, List.map_cons] at hnow hhung ⊢
        refine ⟨by omega, fun hlen ↦ ?_⟩
        obtain ⟨k, rfl⟩ : ∃ k, m = k + 1 := ⟨m - 1, by omega⟩
        have hfew := hnow.mp (by omega)
        exact (hhung hfew).trans (hangs_of_few hfew)

theorem Env.lookupLoop_followed_lt (n : Nat) (o : CobjRef) (pn : List Char) (flags : Flags) :
    (env.lookupLoop n o pn flags).followed.length < 2 ^ n := by
  fun_induction Env.lookupLoop env n o pn flags with
  | case6 _ _ _ _ _ _ _ _ n _ _ _ _ r _ _ r' ih ih' =>
    rw [pow_succ, List.length_append, List.length_cons]
    have hr : r.followed.length < 2 ^ n := ih
    have hr' : r'.followed.length < 2 ^ n := ih'
    omega
  | case7 _ _ _ _ _ _ _ _ n _ _ _ _ r _ ih =>
    rw [pow_succ, List.length_cons]
    have hr : r.followed.length < 2 ^ n := ih
    omega
  | _ => simp

theorem Env.trail_eq (hts : ∀ t ∈ ts, m ≤ t.2) (hlen : (env.trail o ts).1.length ≤ m) :
    (env.trail o ts).1 = (env.links m ⟨o, ts.map Prod.fst⟩).map Link.bytes := by
  rw [← (env.trail_take hts).1, List.take_of_length_le hlen]

theorem tight_singleton (t : Text) (m : Nat) : Tight m 0 [(t, m)] := by
  intro x below hmem
  rcases List.suffix_cons_iff.mp hmem with heq | hnil
  · obtain ⟨rfl, rfl⟩ := List.cons.inj heq
    exact ⟨fun _ ↦ rfl, fun hlt ↦ absurd hlt (lt_irrefl _)⟩
  · exact absurd (List.suffix_nil.mp hnil) (List.cons_ne_nil _ _)

theorem Env.fsNameiFlags_run (env : Env) (pn : List Char) (flags : Flags) :
    (env.fsNameiFlags pn flags).followed = (env.trail (env.startOf env.fsCwd pn).1
        [(⟨(env.startOf env.fsCwd pn).2, flags⟩, maxSymlinks)]).1 ∧
      ((env.fsNameiFlags pn flags).result = none ↔ (env.trail (env.startOf env.fsCwd pn).1
        [(⟨(env.startOf env.fsCwd pn).2, flags⟩, maxSymlinks)]).2 = true) := by
  rw [trail, fsNameiFlags, fsLookupPath]
  cases (env.lookupLoop maxSymlinks (env.startOf env.fsCwd pn).1 (env.startOf env.fsCwd pn).2
    flags).result with
  | none => simp
  | some r => cases r <;> simp [trail]

end Limits

/-- Resolution of any path in any file system follows fewer than 2^20 links. It ends, follows
20 links at most and stays inside its buffers unless one of the first 20 links fills the
buffer, or it comes to 21 links and goes back, from a link it came to in the text of another
one, to the path outside before the last of them, or it comes to a directory slot with a change
that never ends. -/
theorem namei_bounded (env : Env) (pn : List Char) (flags : Flags) :
    (env.fsNameiFlags pn flags).followed.length < 2 ^ maxSymlinks ∧
      ((env.fsNameiFlags pn flags).result ≠ none ∧
          (env.fsNameiFlags pn flags).followed.length ≤ maxSymlinks ∧
          (∀ w ∈ (env.fsNameiFlags pn flags).stores, w.Inside) ↔
        env.hangs maxSymlinks (env.pending pn flags) = false ∧
          (∀ l ∈ env.links maxSymlinks (env.pending pn flags), l.bytes.length < 1024) ∧
          ((env.links (maxSymlinks + 1) (env.pending pn flags)).length = maxSymlinks + 1 →
            ((env.links (maxSymlinks + 1) (env.pending pn flags)).map
              Link.depth).Pairwise (· ≤ ·))) := by
  have hinside : (∀ w ∈ (env.fsNameiFlags pn flags).stores, w.Inside) ↔
      ∀ bytes ∈ (env.fsNameiFlags pn flags).followed, bytes.length < 1024 :=
    env.lookupLoop_inside _ _ _ _
  obtain ⟨hrun, hhung⟩ := env.fsNameiFlags_run pn flags
  have htight := tight_singleton ⟨(env.startOf env.fsCwd pn).2, flags⟩ maxSymlinks
  obtain ⟨hcount, hhang⟩ := env.trail_length_le (o := (env.startOf env.fsCwd pn).1) htight
  have heq := env.trail_eq (o := (env.startOf env.fsCwd pn).1) (m := maxSymlinks)
    (List.forall_mem_singleton.mpr (le_refl (⟨(env.startOf env.fsCwd pn).2, flags⟩, maxSymlinks).2))
  rw [← hrun, List.pairwise_cons, and_iff_right fun _ _ ↦ Nat.zero_le _] at hcount
  rw [← hrun] at heq hhang
  refine ⟨env.lookupLoop_followed_lt _ _ _ _, ?_⟩
  constructor
  · rintro ⟨hret, hle, hin⟩
    refine ⟨?_, ?_, hcount.mp hle⟩
    · rw [Ne, hhung, hhang hle] at hret
      exact Bool.not_eq_true _ ▸ hret
    · rw [hinside, heq hle, List.forall_mem_map] at hin
      exact hin
  · rintro ⟨hret, hbytes, horder⟩
    have hle := hcount.mpr horder
    refine ⟨?_, hle, ?_⟩
    · rw [Ne, hhung, hhang hle]
      exact fun h ↦ Bool.false_ne_true (hret.symm.trans h)
    · rw [hinside, heq hle, List.forall_mem_map]
      exact hbytes

/-- A directory with three links, `L` to `M`, `M` to the directory, and `N`, whose text is as
long as the buffer; and a slot after them whose writer has gone. -/
def threeLinks : Env where
  fsRoot := ⟨1, 1⟩
  fsCwd := ⟨1, 1⟩
  rootContainer := 1
  mtab := none
  parent := fun _ ↦ none
  fsDirOpen := fun _ ↦ .ok (.dseg [{ inuse := true, id := 2, name := [76] },
    { inuse := true, id := 3, name := [77] }, { inuse := true, id := 4, name := [78] },
    { gen := Dseg.genBusy }])
  objName := fun _ ↦ .error .notFound
  devId := fun o ↦ if o.object = 1 then .ok 0 else .ok devsymlink
  contents := fun o ↦
    if o.object = 2 then .ok ['M']
    else if o.object = 3 then .ok ['.']
    else .ok (List.replicate 1024 '/')

/-- Eleven times `L` follows 22 links, `N` stores a byte after the buffer, and the lookup of
`P` never ends. -/
theorem namei_unbounded :
    (threeLinks.fsNamei "L/L/L/L/L/L/L/L/L/L/L".toList).followed.length = 22 ∧
      (¬∀ w ∈ (threeLinks.fsNamei ['N']).stores, w.Inside) ∧
      (threeLinks.fsNamei ['P']).result = none := by
  decide +kernel

end HiStar.FsDir
