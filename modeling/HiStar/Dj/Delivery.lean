import HiStar.Dj.Queue

namespace HiStar.Dj

open Djprot

inductive Reached (verifySign : DjStmt → DjPubkey → DjSign → Bool) (ih : Ihash PkAddr)
    (P : Djprot → Event → Prop) (self : DjPubkey) : Djprot → Prop
  | init (expFirst : Int) :
    Reached verifySign ih P self { self := self, addrs := ⟨[], .nil, expFirst, none⟩ }
  | step {s s' : Djprot} (e : Event) (hr : Reached verifySign ih P self s) (hP : P s e)
      (hs : s.step verifySign ih e = some s') : Reached verifySign ih P self s'

/-- Whether `send` goes to the network for a connection. -/
def Djprot.connects (verifySign : DjStmt → DjPubkey → DjSign → Bool) (ih : Ihash PkAddr)
    (s : Djprot) (msg : DjMessage) (dset : DjDelegationSet) (now : Nat) : Bool :=
  labelcheckSend verifySign s.self msg dset && !msg.dst.eq s.self &&
    !s.tcpconn.any (·.eq msg.dst) && (s.addrOf ih msg.dst).any fun a ↦ !addrExpired a now

/-- Whether `tcpconnect` or a key exchange for `pk` is under way. -/
def Djprot.Attempted (s : Djprot) (pk : DjPubkey) : Prop :=
  pk ∈ s.connecting ∨ some pk ∈ s.keying

def Djprot.Quiescent (s : Djprot) : Prop := ∀ pk, ¬ s.Attempted pk

/-- No message without a callback needs a connection, and a TCP connect does not
fail while messages to its peer are queued with no other attempt for them. -/
def Attended (verifySign : DjStmt → DjPubkey → DjSign → Bool) (ih : Ihash PkAddr) (s : Djprot) :
    Event → Prop
  | .send msg dset _ cb now => cb = true ∨ s.connects verifySign ih msg dset now = false
  | .tcpConnected pk ok =>
    ok = true ∨ s.queuedFor pk = [] ∨ pk ∈ s.connecting.erase pk ∨ some pk ∈ s.keying
  | _ => True

structure Booked (clnt : List MsgClient) (calls ends : List (Nat × DjDeliveryCode))
    (supplied : List Nat) (nextId : Nat) : Prop where
  told : ∀ m ∈ clnt, m.cb = false
  fresh : ∀ m ∈ clnt, m.id < nextId
  once : (calls.map Prod.fst).Nodup
  called_iff : ∀ i, i ∈ calls.map Prod.fst ↔ i ∈ supplied
  supplied_fresh : ∀ i ∈ supplied, i < nextId
  accounted : ∀ i < nextId, (∃ m ∈ clnt, m.id = i) ∨ i ∈ ends.map Prod.fst

/-- What the event loop keeps: the books, and an attempt for every queued
message. -/
structure Djprot.Kept (s : Djprot) : Prop where
  booked : Booked s.clnt s.calls s.ends s.supplied s.nextId
  attempted : ∀ m ∈ s.clnt, m.dst.eq m.dst ∧ s.Attempted m.dst

/-! ### Messages that leave the queue -/

structure Left (s s' : Djprot) : Prop where
  clnt : s'.clnt ⊆ s.clnt
  gone : ∀ m ∈ s.clnt, m ∈ s'.clnt ∨ m.id ∈ s'.ends.map Prod.fst
  ends : s.ends ⊆ s'.ends
  calls : s'.calls = s.calls
  connecting : s'.connecting = s.connecting
  keying : s'.keying = s.keying
  tcpconn : s'.tcpconn = s.tcpconn
  supplied : s'.supplied = s.supplied
  nextId : s'.nextId = s.nextId

theorem Left.refl (s : Djprot) : Left s s where
  clnt := List.Subset.refl _
  gone _ hm := Or.inl hm
  ends := List.Subset.refl _
  calls := rfl
  connecting := rfl
  keying := rfl
  tcpconn := rfl
  supplied := rfl
  nextId := rfl

variable {s s' : Djprot} {m : MsgClient} {k : DjPubkey}

theorem Left.trans {s'' : Djprot} (h : Left s s') (h' : Left s' s'') : Left s s'' where
  clnt := List.Subset.trans h'.clnt h.clnt
  gone m hm := by
    rcases h.gone m hm with hm' | hm'
    · exact h'.gone m hm'
    · exact Or.inr (List.map_subset Prod.fst h'.ends hm')
  ends := List.Subset.trans h.ends h'.ends
  calls := h'.calls.trans h.calls
  connecting := h'.connecting.trans h.connecting
  keying := h'.keying.trans h.keying
  tcpconn := h'.tcpconn.trans h.tcpconn
  supplied := h'.supplied.trans h.supplied
  nextId := h'.nextId.trans h.nextId

theorem clntDone_left (s : Djprot) (hm : m.cb = false) (code : DjDeliveryCode) :
    Left s (s.clntDone m code) where
  clnt := List.filter_subset_self _
  gone m' hm' := by
    by_cases hid : m'.id = m.id
    · right
      simp [clntDone, hid]
    · left
      simp [clntDone, hm', hid]
  ends := List.subset_append_left _ _
  calls := by simp [clntDone, hm]
  connecting := rfl
  keying := rfl
  tcpconn := rfl
  supplied := rfl
  nextId := rfl

theorem not_mem_clntDone {code : DjDeliveryCode} : m ∉ (s.clntDone m code).clnt := by
  simp [clntDone]

theorem foldl_done {T : List DjPubkey} {f : Djprot → MsgClient → Djprot} {ms : List MsgClient}
    (hcb : ∀ m ∈ ms, m.cb = false)
    (hf : ∀ s : Djprot, s.tcpconn = T → ∀ m ∈ ms, ∃ code, f s m = s.clntDone m code)
    (hs : s.tcpconn = T) : Left s (ms.foldl f s) ∧ ∀ m ∈ ms, m ∉ (ms.foldl f s).clnt := by
  induction ms generalizing s with
  | nil => exact ⟨Left.refl s, by simp⟩
  | cons m ms ih =>
    obtain ⟨code, hcode⟩ := hf s hs m (by simp)
    have hleft := clntDone_left s (hcb m (by simp)) code
    obtain ⟨hrest, hnot⟩ := ih (fun m' hm' ↦ hcb m' (by simp [hm']))
      (fun s' hs' m' hm' ↦ hf s' hs' m' (by simp [hm'])) (hleft.tcpconn.trans hs)
    simp only [List.foldl_cons, hcode]
    refine ⟨hleft.trans hrest, ?_⟩
    intro m' hm'
    rcases List.mem_cons.mp hm' with rfl | hm'
    · exact fun hin ↦ not_mem_clntDone (hrest.clnt hin)
    · exact hnot m' hm'

theorem mem_queuedFor : m ∈ s.queuedFor k ↔ m ∈ s.clnt ∧ m.dst.eq k := by
  simp [queuedFor]

theorem queuedFor_nil (hleft : Left s s')
    (hnot : ∀ m ∈ s.queuedFor k, m ∉ s'.clnt) : s'.queuedFor k = [] := by
  refine List.eq_nil_iff_forall_not_mem.mpr fun m hm ↦ ?_
  obtain ⟨hm, hk⟩ := mem_queuedFor.mp hm
  exact hnot m (mem_queuedFor.mpr ⟨hleft.clnt hm, hk⟩) hm

theorem dropAll_left (h : ∀ m ∈ s.clnt, m.cb = false) (k : DjPubkey) :
    Left s (s.dropAll k) ∧ (s.dropAll k).queuedFor k = [] := by
  have hdone : ∀ s' : Djprot, s'.tcpconn = s.tcpconn → ∀ m ∈ s.queuedFor k,
      ∃ code, s'.clntDone m .timeout = s'.clntDone m code := fun _ _ _ _ ↦ ⟨_, rfl⟩
  obtain ⟨hleft, hnot⟩ := foldl_done (fun m hm ↦ h m (mem_queuedFor.mp hm).1) hdone rfl
  exact ⟨hleft, queuedFor_nil hleft hnot⟩

theorem clntTransmit_connected (hc : s.tcpconn.any (·.eq m.dst) = true) (now : Nat) :
    ∃ code, s.clntTransmit ih m now = s.clntDone m code := by
  unfold clntTransmit
  simp only [hc, if_true]
  split
  · exact ⟨_, rfl⟩
  · split <;> exact ⟨_, rfl⟩

theorem transmitAll_left (h : ∀ m ∈ s.clnt, m.cb = false) (hk : k ∈ s.tcpconn) (now : Nat) :
    Left s (s.transmitAll ih k now) ∧ (s.transmitAll ih k now).queuedFor k = [] := by
  have hconn : ∀ s' : Djprot, s'.tcpconn = s.tcpconn → ∀ m ∈ s.queuedFor k,
      ∃ code, s'.clntTransmit ih m now = s'.clntDone m code := by
    intro s' hs' m hm
    refine clntTransmit_connected (List.any_eq_true.mpr ⟨k, hs' ▸ hk, ?_⟩) now
    obtain ⟨hrabin, heq⟩ := DjPubkey.eq_iff.mp (mem_queuedFor.mp hm).2
    exact DjPubkey.eq_iff.mpr ⟨heq ▸ hrabin, heq.symm⟩
  obtain ⟨hleft, hnot⟩ := foldl_done (fun m hm ↦ h m (mem_queuedFor.mp hm).1) hconn rfl
  exact ⟨hleft, queuedFor_nil hleft hnot⟩

theorem Booked.left (h : Booked s.clnt s.calls s.ends s.supplied s.nextId)
    (hl : Left s s') : Booked s'.clnt s'.calls s'.ends s'.supplied s'.nextId := by
  rw [hl.calls, hl.supplied, hl.nextId]
  refine ⟨fun m hm ↦ h.told m (hl.clnt hm), fun m hm ↦ h.fresh m (hl.clnt hm), h.once,
    h.called_iff, h.supplied_fresh, ?_⟩
  intro i hi
  rcases h.accounted i hi with ⟨m, hm, rfl⟩ | hend
  · rcases hl.gone m hm with hm' | hend
    · exact Or.inl ⟨m, hm', rfl⟩
    · exact Or.inr hend
  · exact Or.inr (List.map_subset Prod.fst hl.ends hend)

theorem Djprot.Kept.left {s₁ : Djprot} (h : s.Kept) (hl : Left s₁ s') (hnil : s'.queuedFor k = [])
    (hclnt : s₁.clnt = s.clnt) (hb : Booked s₁.clnt s₁.calls s₁.ends s₁.supplied s₁.nextId)
    (hatt : ∀ pk, pk ≠ k → s.Attempted pk → s₁.Attempted pk) : s'.Kept := by
  refine ⟨hb.left hl, fun m hm ↦ ?_⟩
  obtain ⟨heq, hm'⟩ := h.attempted m (hclnt ▸ hl.clnt hm)
  refine ⟨heq, ?_⟩
  have hne : m.dst ≠ k := by
    rintro rfl
    exact List.eq_nil_iff_forall_not_mem.mp hnil m (mem_queuedFor.mpr ⟨hm, heq⟩)
  have := hatt m.dst hne hm'
  rwa [Attempted, ← hl.connecting, ← hl.keying] at this

/-! ### Sending -/

theorem Booked.sent {clnt : List MsgClient} {calls ends : List (Nat × DjDeliveryCode)}
    {supplied : List Nat} {n : Nat} (h : Booked clnt calls ends supplied n)
    {clnt' : List MsgClient} {ends' : List (Nat × DjDeliveryCode)} (code : DjDeliveryCode)
    (cb : Bool) (hclnt : ∀ m ∈ clnt', m.cb = false ∧ m.id < n + 1)
    (hacc : ∀ i < n + 1, (∃ m ∈ clnt', m.id = i) ∨ i ∈ ends'.map Prod.fst) :
    Booked clnt' (if cb then calls ++ [(n, code)] else calls) ends'
      (if cb then n :: supplied else supplied) (n + 1) := by
  refine ⟨fun m hm ↦ (hclnt m hm).1, fun m hm ↦ (hclnt m hm).2, ?_, ?_, ?_, hacc⟩
  · cases cb with
    | false => exact h.once
    | true =>
      have hn : n ∉ calls.map Prod.fst := fun hn ↦
        Nat.lt_irrefl n (h.supplied_fresh n ((h.called_iff n).mp hn))
      simp only [if_true, List.map_append, List.map_cons, List.map_nil]
      exact h.once.append (List.nodup_singleton n) (by simpa using hn)
  · intro i
    cases cb with
    | false => exact h.called_iff i
    | true => simp [or_comm, ← h.called_iff i]
  · intro i hi
    cases cb with
    | false => exact Nat.lt_succ_of_lt (h.supplied_fresh i hi)
    | true =>
      rcases List.mem_cons.mp hi with rfl | hi
      · exact Nat.lt_succ_self _
      · exact Nat.lt_succ_of_lt (h.supplied_fresh i hi)

theorem Djprot.Kept.done (h : s.Kept) (dst : DjPubkey) (encodes cb : Bool) (code : DjDeliveryCode) :
    ((s.queued dst encodes cb).clntDone ⟨s.nextId, dst, encodes, cb⟩ code).Kept := by
  have hclnt : ((s.queued dst encodes cb).clntDone ⟨s.nextId, dst, encodes, cb⟩ code).clnt =
      s.clnt := by
    simp only [clntDone, queued, ne_eq, decide_not, List.filter_cons, decide_true, Bool.not_true,
      Bool.false_eq_true, if_false]
    refine List.filter_eq_self.mpr fun m hm ↦ ?_
    simpa using (h.booked.fresh m hm).ne
  refine ⟨?_, fun m hm ↦ h.attempted m (hclnt ▸ hm)⟩
  rw [hclnt]
  refine h.booked.sent code cb
    (fun m hm ↦ ⟨h.booked.told m hm, Nat.lt_succ_of_lt (h.booked.fresh m hm)⟩) ?_
  intro i hi
  rcases Nat.lt_succ_iff_lt_or_eq.mp hi with hi | rfl
  · rcases h.booked.accounted i hi with hm | hend
    · exact Or.inl hm
    · exact Or.inr (by simpa [clntDone, queued] using Or.inl (by simpa using hend))
  · exact Or.inr (by simp [clntDone])

theorem Djprot.Kept.connect (h : s.Kept) {dst : DjPubkey} (hdst : dst.eq dst) (encodes : Bool) :
    Djprot.Kept { s.queued dst encodes true with
      calls := s.calls ++ [(s.nextId, .done)]
      clnt := (s.queued dst encodes true).clnt.map fun m ↦
        if m.id = s.nextId then { m with cb := false } else m
      connecting := dst :: s.connecting } := by
  have hclnt : ((s.queued dst encodes true).clnt.map fun m ↦
      if m.id = s.nextId then { m with cb := false } else m) =
      ⟨s.nextId, dst, encodes, false⟩ :: s.clnt := by
    simp only [queued, List.map_cons, if_true]
    refine congrArg _ (List.map_congr_left (g := id) (fun m hm ↦ ?_) |>.trans (List.map_id _))
    exact if_neg (h.booked.fresh m hm).ne
  rw [hclnt]
  refine ⟨h.booked.sent .done true ?_ ?_, ?_⟩
  · intro m hm
    rcases List.mem_cons.mp hm with rfl | hm
    · exact ⟨rfl, Nat.lt_succ_self _⟩
    · exact ⟨h.booked.told m hm, Nat.lt_succ_of_lt (h.booked.fresh m hm)⟩
  · intro i hi
    rcases Nat.lt_succ_iff_lt_or_eq.mp hi with hi | rfl
    · rcases h.booked.accounted i hi with ⟨m, hm, hid⟩ | hend
      · exact Or.inl ⟨m, List.mem_cons_of_mem _ hm, hid⟩
      · exact Or.inr hend
    · exact Or.inl ⟨_, List.mem_cons_self, rfl⟩
  · intro m hm
    rcases List.mem_cons.mp hm with rfl | hm
    · exact ⟨hdst, Or.inl List.mem_cons_self⟩
    · obtain ⟨heq, hatt⟩ := h.attempted m hm
      exact ⟨heq, hatt.imp_left (List.mem_cons_of_mem _)⟩

variable {verifySign : DjStmt → DjPubkey → DjSign → Bool} {ih : Ihash PkAddr}

theorem addrOf_some {a : PkAddr} (h : s.addrOf ih k = some a) : a.pk.eq k = true := by
  exact (ih.found h).2

theorem clntTransmit_cases (s : Djprot) (cc : MsgClient) (now : Nat) :
    (∃ code, s.clntTransmit ih cc now = s.clntDone cc code) ∨
    (cc.dst.eq s.self = false ∧ s.tcpconn.any (·.eq cc.dst) = false ∧
      (∃ a, s.addrOf ih cc.dst = some a ∧ addrExpired a now = false) ∧
      s.clntTransmit ih cc now = { s with
        calls := s.calls ++ [(cc.id, .done)]
        clnt := s.clnt.map fun m ↦ if m.id = cc.id then { m with cb := false } else m
        connecting := cc.dst :: s.connecting }) := by
  unfold clntTransmit
  cases hself : cc.dst.eq s.self with
  | true => exact Or.inl ⟨_, rfl⟩
  | false =>
    cases hconn : s.tcpconn.any (·.eq cc.dst) with
    | true =>
      cases cc.encodes with
      | true => exact Or.inl ⟨_, rfl⟩
      | false => exact Or.inl ⟨_, rfl⟩
    | false =>
      cases haddr : s.addrOf ih cc.dst with
      | none => exact Or.inl ⟨_, rfl⟩
      | some a =>
        cases hexp : addrExpired a now with
        | true => exact Or.inl ⟨.noAddress, by simp [hexp]⟩
        | false => exact Or.inr ⟨rfl, rfl, ⟨a, rfl, hexp⟩, by simp [hexp]⟩

theorem send_kept (h : s.Kept) {msg : DjMessage} {dset : DjDelegationSet} {encodes cb : Bool}
    {now : Nat} (hatt : cb = true ∨ s.connects verifySign ih msg dset now = false) :
    (s.send verifySign ih msg dset encodes cb now).Kept := by
  have hdone := h.done msg.dst encodes cb
  unfold send
  split
  next hcheck =>
    rcases clntTransmit_cases (s.queued msg.dst encodes cb) ⟨s.nextId, msg.dst, encodes, cb⟩ now
      with ⟨code, heq⟩ | ⟨hself, hconn, ⟨a, haddr, hexp⟩, heq⟩
    · rw [heq]
      exact hdone code
    · -- the path to the network, which only a message with a callback takes
      rw [heq]
      have hconnects : s.connects verifySign ih msg dset now = true := by
        simp only [queued] at hself hconn
        have haddr' : s.addrOf ih msg.dst = some a := haddr
        rw [connects, hcheck, hself, hconn, haddr', Option.any_some, hexp]
        rfl
      obtain rfl : cb = true := hatt.resolve_right (by simp [hconnects])
      obtain ⟨hrabin, hpk⟩ := DjPubkey.eq_iff.mp (addrOf_some haddr)
      exact h.connect (DjPubkey.eq_iff.mpr ⟨by rw [← hrabin, hpk], rfl⟩) encodes
  next => exact hdone _

theorem mem_erase_some {l : List (Option DjPubkey)} {cc : Option DjPubkey} {pk : DjPubkey}
    (hcc : cc = none ∨ cc = some k) (hne : pk ≠ k) (h : some pk ∈ l) : some pk ∈ l.erase cc := by
  refine (List.mem_erase_of_ne ?_).mpr h
  rcases hcc with rfl | rfl
  · simp
  · simpa using hne

theorem tcpConnected_kept (h : s.Kept) {pk : DjPubkey} {ok : Bool}
    (hatt : Attended verifySign ih s (.tcpConnected pk ok))
    (hs : s.step verifySign ih (.tcpConnected pk ok) = some s') : s'.Kept := by
  simp only [step] at hs
  split at hs
  next =>
    obtain rfl := Option.some.inj hs
    cases ok with
    | true =>
      refine ⟨h.booked, fun m hm ↦ ⟨(h.attempted m hm).1, ?_⟩⟩
      by_cases heq : m.dst = pk
      · exact Or.inr (heq ▸ List.mem_cons_self)
      · exact (h.attempted m hm).2.imp (List.mem_erase_of_ne heq).mpr (List.mem_cons_of_mem _)
    | false =>
      refine ⟨h.booked, fun m hm ↦ ⟨(h.attempted m hm).1, ?_⟩⟩
      by_cases heq : m.dst = pk
      · rcases hatt with hok | hnil | hother | hother
        · exact absurd hok (by simp)
        · have hmem : m ∈ s.queuedFor m.dst := mem_queuedFor.mpr ⟨hm, (h.attempted m hm).1⟩
          rw [heq, hnil] at hmem
          exact absurd hmem List.not_mem_nil
        · exact Or.inl (heq ▸ hother)
        · exact Or.inr (heq ▸ hother)
      · exact (h.attempted m hm).2.imp_left (List.mem_erase_of_ne heq).mpr
  next => exact absurd hs (by simp)

theorem step_kept (h : s.Kept) {e : Event} (hatt : Attended verifySign ih s e)
    (hs : s.step verifySign ih e = some s') : s'.Kept := by
  cases e with
  | send msg dset encodes cb now =>
    obtain rfl := Option.some.inj hs
    exact send_kept h hatt
  | tcpConnected pk ok => exact tcpConnected_kept h hatt hs
  | tcpAccept =>
    obtain rfl := Option.some.inj hs
    exact ⟨h.booked, fun m hm ↦
      ⟨(h.attempted m hm).1, (h.attempted m hm).2.imp_right (List.mem_cons_of_mem _)⟩⟩
  | cannotConnect cc remote =>
    simp only [step] at hs
    split at hs
    next hcc =>
      obtain rfl := Option.some.inj hs
      obtain ⟨hleft, hnil⟩ := dropAll_left
        (s := { s with keying := s.keying.erase cc }) h.booked.told remote
      refine h.left hleft hnil rfl h.booked ?_
      exact fun pk hne hpk ↦ hpk.imp_right (mem_erase_some hcc.2 hne)
    next => exact absurd hs (by simp)
  | connected cc remote now =>
    simp only [step] at hs
    split at hs
    next hcc =>
      obtain rfl := Option.some.inj hs
      obtain ⟨hleft, hnil⟩ := transmitAll_left
        (s := { s with keying := s.keying.erase cc, tcpconn := remote :: s.tcpconn })
        h.booked.told (k := remote) List.mem_cons_self now
      refine h.left hleft hnil rfl h.booked ?_
      exact fun pk hne hpk ↦ hpk.imp_right (mem_erase_some hcc.2 hne)
    next => exact absurd hs (by simp)
  | disconnected remote =>
    simp only [step] at hs
    split at hs
    next =>
      obtain rfl := Option.some.inj hs
      obtain ⟨hleft, hnil⟩ := dropAll_left
        (s := { s with tcpconn := s.tcpconn.erase remote }) h.booked.told remote
      exact h.left hleft hnil rfl h.booked fun pk _ hpk ↦ hpk
    next => exact absurd hs (by simp)
  | delegation d =>
    obtain ⟨c, -, rfl⟩ := Option.map_eq_some_iff.mp hs
    exact ⟨h.booked, h.attempted⟩
  | cleanup now =>
    obtain rfl := Option.some.inj hs
    exact ⟨h.booked, h.attempted⟩

theorem init_kept (self : DjPubkey) (addrs : AddrCache) :
    Djprot.Kept { self := self, addrs := addrs } where
  booked := by constructor <;> simp
  attempted := by simp

theorem Reached.kept {self : DjPubkey}
    (hr : Reached verifySign ih (Attended verifySign ih) self s) : s.Kept := by
  induction hr with
  | init expFirst => exact init_kept self _
  | step e _ hatt hs hkept => exact step_kept hkept hatt hs

/-- In every run of attended events a callback is invoked at most once and only
if it was supplied, and when no attempt is under way every message has left the
queue with a code. -/
theorem queue_attended {self : DjPubkey} {s : Djprot}
    (hr : Reached verifySign ih (Attended verifySign ih) self s) :
    (s.calls.map Prod.fst).Nodup ∧ (∀ i ∈ s.calls.map Prod.fst, i ∈ s.supplied) ∧
      (s.Quiescent → s.clnt = [] ∧ ∀ i < s.nextId, i ∈ s.ends.map Prod.fst) := by
  obtain ⟨hb, hatt⟩ := hr.kept
  refine ⟨hb.once, fun i ↦ (hb.called_iff i).mp, fun hq ↦ ?_⟩
  have hnil : s.clnt = [] :=
    List.eq_nil_iff_forall_not_mem.mpr fun m hm ↦ hq _ (hatt m hm).2
  refine ⟨hnil, fun i hi ↦ (hb.accounted i hi).resolve_left ?_⟩
  simp [hnil]

def peerAddress : DjDelegation :=
  ⟨.address ⟨1, 80⟩, .pubkey (rabinKey 2), none, 100, 200⟩

def toPeer : DjMessage := ⟨rabinKey 2, [], [], []⟩

def noDelegations : DjDelegationSet := ⟨[], by simp⟩

def awaiting (cb : Bool) : Djprot where
  self := rabinKey 1
  clnt := [⟨0, rabinKey 2, true, false⟩]
  addrs := ⟨[⟨200, rabinKey 2, ⟨1, 80⟩, 100, 200⟩], List.pairwise_singleton _ _, 0, some 205⟩
  connecting := [rabinKey 2]
  calls := [(0, .done)]
  supplied := if cb then [0] else []
  nextId := 1

theorem awaiting_reached {P : Djprot → Event → Prop} (cb : Bool)
    (hd : P { self := rabinKey 1, addrs := emptyCache } (.delegation peerAddress))
    (hs : P { self := rabinKey 1, addrs := (awaiting cb).addrs }
      (.send toPeer noDelegations true cb 150)) :
    Reached acceptAll .newest P (rabinKey 1) (awaiting cb) := by
  refine .step _ (.step _ (.init 0) hd rfl) hs ?_
  cases cb <;> decide +kernel

theorem failed_exchange_attended : ∃ s,
    Reached acceptAll .newest (Attended acceptAll .newest) (rabinKey 1) s ∧
    s.calls = [(0, .done)] ∧ s.ends = [(0, .timeout)] ∧
    (s.calls.map Prod.fst).Nodup ∧ (∀ i ∈ s.calls.map Prod.fst, i ∈ s.supplied) ∧
      (s.Quiescent → s.clnt = [] ∧ ∀ i < s.nextId, i ∈ s.ends.map Prod.fst) := by
  have hsend := awaiting_reached (P := Attended acceptAll .newest) true trivial (Or.inl rfl)
  have hconn : Reached acceptAll .newest (Attended acceptAll .newest) (rabinKey 1)
      { awaiting true with connecting := [], keying := [some (rabinKey 2)] } :=
    .step (.tcpConnected (rabinKey 2) true) hsend (Or.inl rfl) (by decide +kernel)
  have hfail : Reached acceptAll .newest (Attended acceptAll .newest) (rabinKey 1)
      { awaiting true with connecting := [], clnt := [], ends := [(0, .timeout)] } :=
    .step (.cannotConnect (some (rabinKey 2)) (rabinKey 2)) hconn trivial (by decide +kernel)
  exact ⟨_, hfail, rfl, rfl, queue_attended hfail⟩

/-- A message without a callback to a peer whose connect fails: the missing
callback is invoked, and the message stays in the queue with no attempt under
way. -/
theorem refused_connect_strands : ∃ s, Reached acceptAll .newest (fun _ _ ↦ True) (rabinKey 1) s ∧
    s.Quiescent ∧ s.clnt.map (·.id) = [0] ∧ s.ends = [] ∧ s.supplied = [] ∧
      s.calls = [(0, .done)] := by
  have hsend := awaiting_reached (P := fun _ _ ↦ True) false trivial trivial
  have hfail : Reached acceptAll .newest (fun _ _ ↦ True) (rabinKey 1)
      { awaiting false with connecting := [] } :=
    .step (.tcpConnected (rabinKey 2) false) hsend trivial (by decide +kernel)
  refine ⟨_, hfail, ?_, rfl, rfl, rfl, rfl⟩
  rintro pk (h | h)
  · exact absurd h List.not_mem_nil
  · exact absurd h List.not_mem_nil

end HiStar.Dj
