import HiStar.Pstate.Object

namespace HiStar.Pstate

open Lib Function

@[simp] theorem koId_markWritten (ts : Nat) (ko : Kobject) :
    koId (markWritten ts ko).hdr = koId ko.hdr := by
  simp [koId, markWritten, setKoFlags, setKoSyncTs, readLe_writeLe]

@[simp] theorem koNbytes_markWritten (ts : Nat) (ko : Kobject) :
    koNbytes (markWritten ts ko).hdr = koNbytes ko.hdr := by
  simp [koNbytes, markWritten, setKoFlags, setKoSyncTs, readLe_writeLe]

@[simp] theorem objBytes_markWritten (ts : Nat) (ko : Kobject) :
    objBytes (markWritten ts ko) = objBytes ko := by
  simp only [objBytes, koNbytes_markWritten]
  rfl

@[simp] theorem kobjectNpages_markWritten (ts : Nat) (ko : Kobject) :
    kobjectNpages (markWritten ts ko) = kobjectNpages ko := by
  simp [kobjectNpages]

theorem roundup_le (a n : Nat) (hn : 0 < n) : a ≤ roundup a n := by
  have := Nat.mod_lt (a + n - 1) hn
  simp only [roundup, rounddown]
  omega

theorem roundup_pgsize (a : Nat) : roundup a pgsize = roundup a pgsize / pgsize * pgsize := by
  simp only [roundup, rounddown, pgsize]
  omega

theorem roundup_objBytes (ko : Kobject) :
    roundup (objBytes ko) pgsize = kobjectNpages ko * pgsize := by
  rw [kobjectNpages, ← roundup_pgsize]
  simp only [objBytes]
  split
  · rename_i h
    have hoff := h.1
    simp only [roundup, rounddown, pgsize] at hoff ⊢
    omega
  · rfl

theorem koNbytes_le_objBytes (ko : Kobject) : koNbytes ko.hdr ≤ objBytes ko := by
  simp only [objBytes]
  split
  · exact Nat.le_add_right _ _
  · exact le_rfl

variable {ko : Kobject} {p total n off i : Nat} {v : Drive}

theorem lt_koNbytes (hp : p < kobjectNpages ko) : p * pgsize < koNbytes ko.hdr := by
  simp only [kobjectNpages, roundup, rounddown, pgsize] at hp ⊢
  omega

theorem pageBytes_pos (h : p * pgsize < total) : 0 < pageBytes total p := by
  simp only [pageBytes, roundup, rounddown, pgsize] at h ⊢
  omega

theorem objEntries_sizes (h : ∀ p < n, p * pgsize < total) : ∀ e ∈ objEntries total n, 0 < e.2 := by
  intro e he
  rcases List.mem_cons.mp he with rfl | he
  · simp [kobjDiskSize]
  · obtain ⟨q, -, hq, rfl⟩ := mem_pageEntries he
    exact pageBytes_pos (h q (by omega))

theorem iovBytes_objEntries_le (total n : Nat) :
    iovBytes (objEntries total n) ≤ kobjDiskSize + n * pgsize := by
  have hpages : ∀ p, iovBytes (pageEntries (pageBytes total) p n) ≤ n * pgsize := by
    induction n with
    | zero => simp [pageEntries]
    | succ n ih =>
      intro p
      have hp : pageBytes total p ≤ pgsize := Nat.min_le_right _ _
      have := ih (p + 1)
      rw [pageEntries, iovBytes_cons, Nat.succ_mul]
      omega
  rw [objEntries, iovBytes_cons]
  exact Nat.add_le_add_left (hpages 0) _

theorem runXfer_works (op : DiskOp) (mem : Buf → Bytes) (s : Store)
    (hv : ∀ r k, v.succeeds r k = true) (hroom : off + (kobjDiskSize + n * pgsize) ≤ v.pdSize)
    (hpos : ∀ p < n, p * pgsize < total) : ∃ k, runXfer v op (objEntries total n) mem off s =
      (.ok (transfer op off (objEntries total n) (mem, s.disk)).1,
        { s with disk := (transfer op off (objEntries total n) (mem, s.disk)).2, requests := k }) := by
  have hbytes := iovBytes_objEntries_le total n
  have hw : Works v { mem := mem, disk := s.disk, requests := s.requests, flushOff := off }
      (objEntries total n) :=
    ⟨hv, (Nat.add_le_add_left hbytes off).trans hroom, objEntries_sizes hpos⟩
  obtain ⟨y, hy, htr⟩ := iov_transfer op hw rfl
  refine ⟨y.requests, ?_⟩
  simp only [runXfer, hy, ← htr]
  rfl

def SamePages (a b : Kobject) : Prop :=
  ∀ p < kobjectNpages a, ∀ i < pgsize, a.page p i = b.page p i

theorem lastPage (h : koNbytes ko.hdr % pgsize ≠ 0) :
    kobjectNpages ko = koNbytes ko.hdr / pgsize + 1 := by
  simp only [kobjectNpages, roundup, rounddown, pgsize] at h ⊢
  omega

theorem tailGarbage_eq_false {p : Bytes} {pgoff : Nat} (h : tailGarbage p pgoff = false)
    (hlo : pgoff ≤ i) (hhi : i < pgsize) : p i = 0 := by
  have := List.any_eq_false.mp h (i - pgoff) (List.mem_range.mpr (by omega))
  simpa [Nat.add_sub_cancel' hlo] using this

theorem objBytes_eq (ko : Kobject) : objBytes ko =
    if koNbytes ko.hdr % pgsize ≠ 0 ∧
        tailGarbage (ko.page (koNbytes ko.hdr / pgsize)) (koNbytes ko.hdr % pgsize) then
      koNbytes ko.hdr + (pgsize - koNbytes ko.hdr % pgsize)
    else koNbytes ko.hdr := by
  have hdiv : rounddown (koNbytes ko.hdr) pgsize / pgsize = koNbytes ko.hdr / pgsize := by
    simp only [rounddown, pgsize]
    omega
  simp [objBytes, hdiv]

theorem pageBytes_last
    (h : tailGarbage (ko.page (koNbytes ko.hdr / pgsize)) (koNbytes ko.hdr % pgsize) = false) :
    pageBytes (objBytes ko) (koNbytes ko.hdr / pgsize) = roundup (koNbytes ko.hdr % pgsize) 512 := by
  have hobj : objBytes ko = koNbytes ko.hdr := by simp [objBytes_eq, h]
  simp only [hobj, pageBytes, roundup, rounddown, pgsize]
  omega

theorem pageBytes_whole (hp : p < kobjectNpages ko)
    (h : p ≠ koNbytes ko.hdr / pgsize ∨ koNbytes ko.hdr % pgsize = 0 ∨
      tailGarbage (ko.page (koNbytes ko.hdr / pgsize)) (koNbytes ko.hdr % pgsize) = true) :
    pageBytes (objBytes ko) p = pgsize := by
  have hlt := lt_koNbytes hp
  have hle := koNbytes_le_objBytes ko
  apply pageBytes_of_le
  by_cases hgarb : koNbytes ko.hdr % pgsize ≠ 0 ∧
      tailGarbage (ko.page (koNbytes ko.hdr / pgsize)) (koNbytes ko.hdr % pgsize) = true
  · rw [objBytes_eq, if_pos hgarb]
    simp only [pgsize] at hlt ⊢
    omega
  · have hfull : p ≠ koNbytes ko.hdr / pgsize ∨ koNbytes ko.hdr % pgsize = 0 :=
      h.imp_right fun h ↦ by_contra fun hoff ↦ hgarb ⟨hoff, h.resolve_left hoff⟩
    simp only [pgsize] at hlt hfull ⊢
    omega

def writtenDisk (ts off : Nat) (ko : Kobject) (disk : Bytes) : Bytes :=
  (transfer .write off (objEntries (objBytes ko) (kobjectNpages ko))
    ((markWritten ts ko).bytes, disk)).2

theorem pstateKobjAlloc_ok (off id objbytes : Nat) (s : Store) :
    pstateKobjAlloc (.ok off) id objbytes s = (.ok off, { s with
      objmap := update s.objmap id (some ⟨off, kobjDiskSize + roundup objbytes pgsize⟩) }) := by
  simp [pstateKobjAlloc, bind_apply]

theorem pstateSyncKobj_works (hv : ∀ r k, v.succeeds r k = true) (ts off : Nat) (ko : Kobject)
    (s : Store) (hroom : off + (kobjDiskSize + roundup (koNbytes ko.hdr) pgsize) ≤ v.pdSize) :
    ∃ s', pstateSyncKobj v ts (.ok off) ko s = (.ok (), s') ∧
      s'.disk = writtenDisk ts off ko s.disk ∧
      s'.objmap (koId ko.hdr) = some ⟨off, kobjDiskSize + kobjectNpages ko * pgsize⟩ := by
  rw [roundup_pgsize] at hroom
  obtain ⟨s₁, halloc, hdisk, hmap⟩ : ∃ s₁,
      pstateKobjAlloc (.ok off) (koId ko.hdr) (objBytes ko) s = (.ok off, s₁) ∧ s₁.disk = s.disk ∧
        s₁.objmap (koId ko.hdr) = some ⟨off, kobjDiskSize + kobjectNpages ko * pgsize⟩ :=
    ⟨_, pstateKobjAlloc_ok off (koId ko.hdr) (objBytes ko) s, rfl, by simp [roundup_objBytes]⟩
  obtain ⟨k, hk⟩ := runXfer_works .write (markWritten ts ko).bytes s₁ hv hroom
    fun p hp ↦ (lt_koNbytes hp).trans_le (koNbytes_le_objBytes ko)
  rw [hdisk] at hk
  refine ⟨{ s₁ with disk := writtenDisk ts off ko s.disk, requests := k }, ?_, rfl, hmap⟩
  simp only [pstateSyncKobj, bind_apply, koId_markWritten, objBytes_markWritten,
    kobjectNpages_markWritten, halloc]
  rw [kobjectNpages, hk]
  rfl

theorem pstateSwapinId_works (hv : ∀ r k, v.succeeds r k = true) {id : Nat} {s : Store}
    (c : Core) (fresh : Nat → Bytes) (hroom : off + (kobjDiskSize + n * pgsize) ≤ v.pdSize)
    (hmap : s.objmap id = some ⟨off, kobjDiskSize + n * pgsize⟩)
    (hid : koId (fun i ↦ s.disk (off + i)) = id) (hpos : id ≠ 0) (hnew : c.loaded id = false) :
    ∃ ko' s', pstateSwapinId v c fresh id s = (.ok ko', s') ∧
      SameHeader ko'.hdr (swapinHdr c fun i ↦ s.disk (off + i)) ∧
      ∀ p < n, ∀ i < pgsize, ko'.page p i = s.disk (off + (kobjDiskSize + p * pgsize) + i) := by
  have hpages : roundup (n * pgsize) pgsize / pgsize = n := by
    simp only [roundup, rounddown, pgsize]
    omega
  obtain ⟨k, hk⟩ := runXfer_works .read (freshMem (n * pgsize) fresh) s hv hroom
    fun p hp ↦ Nat.mul_lt_mul_of_pos_right hp (by simp [pgsize])
  have hhdr : SameHeader ((transfer .read off (objEntries (n * pgsize) n)
      (freshMem (n * pgsize) fresh, s.disk)).1 .hdr) fun i ↦ s.disk (off + i) :=
    fun i hi ↦ read_hdr _ _ _ hi
  have hpage (p : Nat) (hp : p < n) (i : Nat) (hi : i < pgsize) :=
    read_page (freshMem (n * pgsize) fresh) s.disk off hp (Nat.mul_le_mul_right pgsize hp.le)
      ((pageBytes_of_le (Nat.mul_le_mul_right pgsize hp)).symm ▸ hi)
  generalize (transfer .read off (objEntries (n * pgsize) n)
    (freshMem (n * pgsize) fresh, s.disk)) = t at hk hhdr hpage
  have hid' : koId (t.1 .hdr) = id := (koId_congr hhdr).trans hid
  refine ⟨⟨swapinHdr c (t.1 .hdr), fun p ↦ t.1 (.page p)⟩, { s with disk := t.2, requests := k },
    ?_, swapinHdr_congr c hhdr, hpage⟩
  simp [pstateSwapinId, bind_apply, get_apply, hmap, pstateSwapinMobj, kobjectSwapin, hpages, hk,
    Exec.require, hid', hpos, hnew]

theorem writtenDisk_page (ts off : Nat) (ko : Kobject) (disk : Bytes) (hp : p < kobjectNpages ko) :
    i < pageBytes (objBytes ko) p →
      writtenDisk ts off ko disk (off + (kobjDiskSize + p * pgsize) + i) = ko.page p i :=
  written_page _ _ _ hp ((lt_koNbytes hp).le.trans (koNbytes_le_objBytes ko))

/-- The whole last page comes back: it is full, or has bytes after its end, or the
sectors after its end were zero on disk before. -/
def TailKept (ko : Kobject) (off : Nat) (disk : Bytes) : Prop :=
  koNbytes ko.hdr % pgsize = 0 ∨
    tailGarbage (ko.page (koNbytes ko.hdr / pgsize)) (koNbytes ko.hdr % pgsize) = true ∨
    ∀ i, roundup (koNbytes ko.hdr % pgsize) 512 ≤ i → i < pgsize →
      disk (off + (kobjDiskSize + koNbytes ko.hdr / pgsize * pgsize) + i) = 0

theorem writtenDisk_tail {ts : Nat} {disk : Bytes} (hoff : koNbytes ko.hdr % pgsize ≠ 0)
    (hi : pageBytes (objBytes ko) (koNbytes ko.hdr / pgsize) ≤ i) :
    writtenDisk ts off ko disk (off + (kobjDiskSize + koNbytes ko.hdr / pgsize * pgsize) + i) =
      disk (off + (kobjDiskSize + koNbytes ko.hdr / pgsize * pgsize) + i) := by
  rw [writtenDisk, lastPage hoff]
  exact written_tail _ _ _ ((Nat.div_mul_le_self _ _).trans (koNbytes_le_objBytes ko)) hi

theorem samePages_iff {ts : Nat} {ko' : Kobject} {disk : Bytes}
    (hpage : ∀ p < kobjectNpages ko, ∀ i < pgsize,
      ko'.page p i = writtenDisk ts off ko disk (off + (kobjDiskSize + p * pgsize) + i)) :
    SamePages (markWritten ts ko) ko' ↔ TailKept ko off disk := by
  constructor
  · intro hsame
    by_contra hnot
    simp only [TailKept] at hnot
    push Not at hnot
    obtain ⟨hoff, hgarb, i, hlo, hhi, hne⟩ := hnot
    have hgarb : tailGarbage (ko.page (koNbytes ko.hdr / pgsize)) (koNbytes ko.hdr % pgsize) = false :=
      by simpa using hgarb
    have hlast : koNbytes ko.hdr / pgsize < kobjectNpages ko := by simp [lastPage hoff]
    have hread := hsame _ (by simpa using hlast) i hhi
    rw [hpage _ hlast i hhi, writtenDisk_tail hoff ((pageBytes_last hgarb).trans_le hlo)] at hread
    have hzero := tailGarbage_eq_false hgarb ((roundup_le _ 512 (by simp)).trans hlo) hhi
    exact hne (hread.symm.trans hzero)
  · intro hcond p hp i hi
    rw [kobjectNpages_markWritten] at hp
    rw [hpage p hp i hi]
    by_cases hwhole : i < pageBytes (objBytes ko) p
    · rw [writtenDisk_page ts off ko disk hp hwhole]
      rfl
    · -- the byte is after the end of the last page, and was not written
      have hlast : ¬ (p ≠ koNbytes ko.hdr / pgsize ∨ koNbytes ko.hdr % pgsize = 0 ∨
          tailGarbage (ko.page (koNbytes ko.hdr / pgsize)) (koNbytes ko.hdr % pgsize) = true) :=
        fun h ↦ hwhole ((pageBytes_whole hp h).symm ▸ hi)
      push Not at hlast
      obtain ⟨rfl, hoff, hgarb⟩ := hlast
      have hgarb : tailGarbage (ko.page (koNbytes ko.hdr / pgsize)) (koNbytes ko.hdr % pgsize) =
        false := by simpa using hgarb
      have hlo := (pageBytes_last hgarb).symm.trans_le (not_lt.mp hwhole)
      rw [writtenDisk_tail hoff (not_lt.mp hwhole)]
      have hdiskz := (hcond.resolve_left hoff).resolve_left (by simp [hgarb]) i hlo hi
      rw [hdiskz]
      exact tailGarbage_eq_false hgarb ((roundup_le _ 512 (by simp)).trans hlo) hi

/-- The header of an object that is written and read back is what coming in leaves of
the one written; its pages are the same exactly when the last one comes back, and the
header too exactly when its in-core fields were as coming in sets them. -/
theorem object_round_trip_iff {v : Drive} (hv : ∀ r k, v.succeeds r k = true) (ts off : Nat)
    (ko : Kobject) (s : Store) (c : Core) (fresh : Nat → Bytes)
    (hroom : off + (kobjDiskSize + roundup (koNbytes ko.hdr) pgsize) ≤ v.pdSize)
    (hpos : koId ko.hdr ≠ 0) (hnew : c.loaded (koId ko.hdr) = false) :
    ∃ s₁ ko' s₂, pstateSyncKobj v ts (.ok off) ko s = (.ok (), s₁) ∧
      pstateSwapinId v c fresh (koId ko.hdr) s₁ = (.ok ko', s₂) ∧
      SameHeader ko'.hdr (swapinHdr c (markWritten ts ko).hdr) ∧
      (SamePages (markWritten ts ko) ko' ↔ TailKept ko off s.disk) ∧
      (SameHeader ko'.hdr (markWritten ts ko).hdr ∧ SamePages (markWritten ts ko) ko' ↔
        Settled c (markWritten ts ko).hdr ∧ TailKept ko off s.disk) := by
  obtain ⟨s₁, hsync, hdisk, hmap⟩ := pstateSyncKobj_works hv ts off ko s hroom
  have hhdr : SameHeader (fun i ↦ s₁.disk (off + i)) (markWritten ts ko).hdr := by
    intro i hi
    simp only [hdisk]
    exact written_hdr _ _ _ hi
  have hid : koId (fun i ↦ s₁.disk (off + i)) = koId ko.hdr :=
    (koId_congr hhdr).trans (koId_markWritten ts ko)
  rw [roundup_pgsize] at hroom
  obtain ⟨ko', s₂, hswap, hhdr', hpage'⟩ :=
    pstateSwapinId_works hv c fresh hroom hmap hid hpos hnew
  have hin : SameHeader ko'.hdr (swapinHdr c (markWritten ts ko).hdr) :=
    fun i hi ↦ (hhdr' i hi).trans (swapinHdr_congr c hhdr i hi)
  have hpages : SamePages (markWritten ts ko) ko' ↔ TailKept ko off s.disk :=
    samePages_iff fun p hp i hi ↦ hdisk ▸ hpage' p hp i hi
  refine ⟨s₁, ko', s₂, hsync, hswap, hin, hpages, and_congr ?_ hpages⟩
  rw [← swapinHdr_settled]
  exact ⟨fun h i hi ↦ (hin i hi).symm.trans (h i hi), fun h i hi ↦ (hin i hi).trans (h i hi)⟩

def oneByte : Kobject where
  hdr i := if i = 0 then 7 else if i = 72 then 1 else if i = 180 then 3 else if i = 204 then 1 else 0
  page _ _ := 0

def dirtyStore : Store := ⟨fun _ ↦ 165, fun _ ↦ none, 0⟩

def smallDrive : Drive := { IoEnv.perfect with pdSize := 12288 }

def emptyCore : Core := ⟨fun _ ↦ false, 0, 0, 0⟩

/-- A segment of one byte, pinned by its snapshot. -/
theorem oneByte_round_trip_iff : ∃ s₁ ko' s₂,
    pstateSyncKobj smallDrive 1 (.ok 4096) oneByte dirtyStore = (.ok (), s₁) ∧
      pstateSwapinId smallDrive emptyCore (fun _ _ ↦ 0) 7 s₁ = (.ok ko', s₂) ∧
      SameHeader ko'.hdr (swapinHdr emptyCore (markWritten 1 oneByte).hdr) ∧
      (SamePages (markWritten 1 oneByte) ko' ↔ TailKept oneByte 4096 dirtyStore.disk) ∧
      (SameHeader ko'.hdr (markWritten 1 oneByte).hdr ∧ SamePages (markWritten 1 oneByte) ko' ↔
        Settled emptyCore (markWritten 1 oneByte).hdr ∧ TailKept oneByte 4096 dirtyStore.disk) :=
  object_round_trip_iff IoEnv.perfect_succeeds 1 4096 oneByte dirtyStore emptyCore (fun _ _ ↦ 0)
    (by decide) (by decide) rfl

/-- The object comes back with the older bytes after its first sector. -/
theorem oneByte_not_restored : ¬ ∀ s₁ ko' s₂,
    pstateSyncKobj smallDrive 1 (.ok 4096) oneByte dirtyStore = (.ok (), s₁) →
    pstateSwapinId smallDrive emptyCore (fun _ _ ↦ 0) 7 s₁ = (.ok ko', s₂) →
    SamePages (markWritten 1 oneByte) ko' := by
  intro h
  have hsync : (pstateSyncKobj smallDrive 1 (.ok 4096) oneByte dirtyStore).1.toOption = some () := by
    decide +kernel
  have hbyte : ((pstateSwapinId smallDrive emptyCore (fun _ _ ↦ 0) 7
      (pstateSyncKobj smallDrive 1 (.ok 4096) oneByte dirtyStore).2).1.toOption.map
      fun ko' ↦ ko'.page 0 512) = some 165 := by
    decide +kernel
  rcases hs : pstateSyncKobj smallDrive 1 (.ok 4096) oneByte dirtyStore with ⟨_ | _, s₁⟩
  · simp [hs, Except.toOption] at hsync
  rw [hs] at hbyte
  rcases hr : pstateSwapinId smallDrive emptyCore (fun _ _ ↦ 0) 7 s₁ with ⟨_ | ko', s₂⟩
  · simp [hr, Except.toOption] at hbyte
  · have hsame := h s₁ ko' s₂ hs hr 0 (by decide) 512 (by decide)
    simp only [hr, Except.toOption, Option.map_some, Option.some.injEq] at hbyte
    rw [hbyte] at hsame
    exact absurd hsame (by decide)

end HiStar.Pstate
