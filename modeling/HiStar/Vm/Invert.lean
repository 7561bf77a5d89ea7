import HiStar.Vm.Machine

namespace HiStar.Vm

open Function

/-- What `struct page_info` says of a page: how often it is mapped writable, and the
segment and the page of it that it was last mapped for. -/
structure PageInfo where
  piHwWritePin : Nat
  piSeg : Nat
  piSegpg : Nat

namespace USegmentMapping

def vaStart (u : USegmentMapping) : UInt64 := u.va / 4096 * 4096

/-- The end of a slot as `as_invert_mapped` computes it; the sum wraps around. -/
def vaEnd (u : USegmentMapping) : UInt64 := u.vaStart + u.numPages * 4096

def Maps (u : USegmentMapping) (vpn : Nat) : Prop :=
  u.va.toNat / pgsize ≤ vpn ∧ vpn < u.va.toNat / pgsize + u.numPages.toNat

end USegmentMapping

def segOffset (segpg : Nat) (addr : UInt64) : UInt64 := UInt64.ofNat segpg * 4096 + addr % 4096

namespace AddressSpace

variable (a : AddressSpace) (info : Pte → Option PageInfo) (addr : UInt64)

/-- The way of `as_invert_mapped` over the page table, for a page that is mapped
writable somewhere. -/
def invertByPte : Option (Nat × UInt64) :=
  (a.pte (addr.toNat / pgsize)).bind fun e ↦ (info e).bind fun p ↦
    if p.piHwWritePin = 0 then none else some (p.piSeg, segOffset p.piSegpg addr)

def slotHas (i : Nat) : Bool :=
  match (a.sm i).smKo, a.usm[i]? with
  | some _, some u => u.vaStart ≤ addr && addr < u.vaEnd
  | _, _ => false

/-- The way over the slots, which has to find one; `fail` is the error of a slot record
that cannot be had. -/
def invertBySlots (fail : Option Errno) : Except Errno (Nat × UInt64) :=
  match fail with
  | some e => .error e
  | none =>
    match ((List.range a.usm.length).filter (a.slotHas addr)).map (a.usm[·]?) with
    | [some u] => .ok (u.object, segOffset (asVaToSegmentPage u (addr.toNat / pgsize)) addr)
    | _ => .error .notFound

def asInvertMapped (fail : Option Errno) : Except Errno (Nat × UInt64) :=
  match a.invertByPte info addr with
  | some key => .ok key
  | none => a.invertBySlots addr fail

def Live (i : Nat) (u : USegmentMapping) : Prop := (a.sm i).smKo ≠ none ∧ a.usm[i]? = some u

/-- Slot `i` is the only live one that maps the page. -/
structure MapsOnly (vpn i : Nat) (u : USegmentMapping) : Prop where
  live : a.Live i u
  maps : u.Maps vpn
  only : ∀ j v, a.Live j v → v.Maps vpn → j = i

end AddressSpace

variable {D : Type} {s : Machine D} {a : AddressSpace} {info : Pte → Option PageInfo}
  {addr : UInt64} {i : Nat} {u : USegmentMapping}

/-- Each entry maps the page that the slot says it was installed through, for the
current thread, and what is mapped writable is known as that page. -/
structure Consistent (s : Machine D) (a : AddressSpace) (info : Pte → Option PageInfo) : Prop where
  slot : ∀ vpn e, a.pte vpn = some e → ∃ u, a.Live e.slot u ∧ u.Maps vpn ∧
    e.obj = s.kobjectTranslateId u.object ∧ e.page = asVaToSegmentPage u vpn
  page : ∀ vpn e p, a.pte vpn = some e → info e = some p → p.piHwWritePin ≠ 0 →
    p.piSeg = e.obj ∧ p.piSegpg = e.page

theorem slotHas_iff :
    a.slotHas addr i = true ↔ ∃ u, a.Live i u ∧ u.vaStart ≤ addr ∧ addr < u.vaEnd := by
  unfold AddressSpace.slotHas AddressSpace.Live
  cases (a.sm i).smKo <;> cases a.usm[i]? <;> simp

theorem vaStart_toNat (u : USegmentMapping) : u.vaStart.toNat = u.va.toNat / pgsize * pgsize := by
  have := u.va.toNat_lt
  simp only [USegmentMapping.vaStart, UInt64.toNat_mul, UInt64.toNat_div, UInt64.reduceToNat, pgsize]
  omega

theorem vaStart_le (h : u.Maps (addr.toNat / pgsize)) : u.vaStart ≤ addr := by
  have := h.1
  rw [UInt64.le_iff_toNat_le, vaStart_toNat]
  simp only [pgsize] at *
  omega

theorem maps_of_slotHas (hle : u.vaStart ≤ addr) (hlt : addr < u.vaEnd) :
    u.Maps (addr.toNat / pgsize) := by
  rw [UInt64.le_iff_toNat_le, vaStart_toNat] at hle
  rw [UInt64.lt_iff_toNat_lt, USegmentMapping.vaEnd, UInt64.toNat_add, vaStart_toNat,
    UInt64.toNat_mul] at hlt
  simp only [USegmentMapping.Maps, pgsize, UInt64.reduceToNat] at *
  omega

/-- The way over the slots finds the only slot, unless its end has wrapped around. -/
theorem invertBySlots_eq (h : a.MapsOnly (addr.toNat / pgsize) i u) :
    a.invertBySlots addr none =
      if addr < u.vaEnd then
        .ok (u.object, segOffset (asVaToSegmentPage u (addr.toNat / pgsize)) addr)
      else .error .notFound := by
  have hhas (j : Nat) : a.slotHas addr j = true ↔ j = i ∧ addr < u.vaEnd := by
    rw [slotHas_iff]
    constructor
    · rintro ⟨v, hv, hle, hlt⟩
      obtain rfl := h.only j v hv (maps_of_slotHas hle hlt)
      obtain rfl := Option.some.inj (hv.2.symm.trans h.live.2)
      exact ⟨rfl, hlt⟩
    · rintro ⟨rfl, hlt⟩
      exact ⟨u, h.live, vaStart_le h.maps, hlt⟩
  have hi : i < a.usm.length := (List.getElem?_eq_some_iff.mp h.live.2).1
  unfold AddressSpace.invertBySlots
  split_ifs with hlt
  · have hone : (List.range a.usm.length).filter (a.slotHas addr) = [i] := by
      refine List.perm_singleton.mp ((List.perm_ext_iff_of_nodup
        (List.nodup_range.filter _) (List.nodup_singleton i)).mpr fun j ↦ ?_)
      simp only [List.mem_filter, List.mem_range, hhas, hlt, and_true, List.mem_singleton]
      exact ⟨fun h ↦ h.2, fun h ↦ ⟨h ▸ hi, h⟩⟩
    simp [hone, h.live.2]
  · have hnone : (List.range a.usm.length).filter (a.slotHas addr) = [] := by
      simp [List.filter_eq_nil_iff, hhas, hlt]
    simp [hnone]

theorem invertByPte_eq (h : Consistent s a info) (hu : a.MapsOnly (addr.toNat / pgsize) i u)
    {key : Nat × UInt64} (hkey : a.invertByPte info addr = some key) :
    key = (s.kobjectTranslateId u.object,
      segOffset (asVaToSegmentPage u (addr.toNat / pgsize)) addr) := by
  obtain ⟨e, he, hkey⟩ := Option.bind_eq_some_iff.mp hkey
  obtain ⟨p, hp, hkey⟩ := Option.bind_eq_some_iff.mp hkey
  obtain ⟨v, hlive, hmaps, hobj, hpage⟩ := h.slot _ _ he
  have hslot := hu.only _ _ hlive hmaps
  obtain rfl := Option.some.inj (hlive.2.symm.trans (hslot ▸ hu.live.2))
  split at hkey
  · cases hkey
  next hpin =>
    obtain ⟨hseg, hsegpg⟩ := h.page _ _ _ he hp hpin
    rw [← Option.some.inj hkey, hseg, hsegpg, hobj, hpage]

/-- Both ways give the same key just when the slot names the segment by its own id and its
end does not wrap around to before the address. -/
theorem invert_paths_agree (addr : UInt64) (h : Consistent s a info)
    (hsg : s.curThread.sg ≠ kobjectIdThreadSg) (hu : a.MapsOnly (addr.toNat / pgsize) i u)
    {key : Nat × UInt64} (hkey : a.invertByPte info addr = some key) :
    a.asInvertMapped info addr none = .ok key ∧
      (a.invertBySlots addr none = .ok key ↔ u.object ≠ kobjectIdThreadSg ∧ addr < u.vaEnd) := by
  refine ⟨by rw [AddressSpace.asInvertMapped, hkey], ?_⟩
  rw [invertBySlots_eq hu, invertByPte_eq h hu hkey]
  split_ifs with hlt
  · simp only [hlt, and_true, Except.ok.injEq, Prod.mk.injEq, Machine.kobjectTranslateId]
    split_ifs with htls
    · simpa [htls] using hsg.symm
    · simp [htls]
  · simp [hlt]

/-- Two pages of segment 1 at pages 1 and 2, in reverse, under the id `object`; the first
has been written to. -/
def reverseSlot (object : Nat) : USegmentMapping := ⟨0, object, 0, 2, 0, 14, 4096⟩

def reversed (object : Nat) : AddressSpace where
  usm := [reverseSlot object]
  sm _ := { smKo := some 1, smRwMappings := true }
  asPgmap := some (update (fun _ ↦ none) 1
    (some ⟨1, asVaToSegmentPage (reverseSlot object) 1, true, 0⟩))

def pinned (e : Pte) : Option PageInfo := some ⟨1, e.obj, e.page⟩

/-- Segment 1 is that of the current thread. -/
def threadOne : Machine Nat := ⟨fun _ ↦ none, fun _ ↦ none, ⟨1, 1⟩, 2⟩

theorem reversed_consistent (object : Nat) (hid : threadOne.kobjectTranslateId object = 1) :
    Consistent threadOne (reversed object) pinned ∧
      (reversed object).MapsOnly 1 0 (reverseSlot object) := by
  have hlive : (reversed object).Live 0 (reverseSlot object) := ⟨by simp [reversed], rfl⟩
  have hmaps : (reverseSlot object).Maps 1 := by simp [USegmentMapping.Maps, reverseSlot, pgsize]
  refine ⟨⟨fun vpn e he ↦ ?_, fun vpn e p he hp _ ↦ ?_⟩, hlive, hmaps, ?_⟩
  · change update (fun _ ↦ none) 1 _ vpn = some e at he
    rw [update_apply] at he
    split at he
    · obtain rfl := Option.some.inj he
      subst vpn
      exact ⟨_, hlive, hmaps, hid.symm, rfl⟩
    · cases he
  · obtain rfl := Option.some.inj hp
    exact ⟨rfl, rfl⟩
  · rintro (_ | j) v ⟨-, hv⟩ _
    · rfl
    · cases hv

theorem own_id_paths_agree : (reversed 1).invertBySlots 4104 none = .ok (1, 4104) := by
  obtain ⟨hcons, honly⟩ := reversed_consistent 1 rfl
  exact (invert_paths_agree 4104 hcons (by decide) honly rfl).2.mpr ⟨by decide, by decide⟩

/-- The segment of the thread, mapped under the id that stands for it: the page table
gives the segment, the slot the id. -/
theorem thread_segment_paths_differ :
    Consistent threadOne (reversed kobjectIdThreadSg) pinned ∧
    (reversed kobjectIdThreadSg).MapsOnly 1 0 (reverseSlot kobjectIdThreadSg) ∧
    (reversed kobjectIdThreadSg).asInvertMapped pinned 4104 none = .ok (1, 4104) ∧
    (reversed kobjectIdThreadSg).invertBySlots 4104 none = .ok (kobjectIdThreadSg, 4104) := by
  obtain ⟨hcons, honly⟩ := reversed_consistent kobjectIdThreadSg rfl
  exact ⟨hcons, honly, rfl, by decide⟩

end HiStar.Vm
