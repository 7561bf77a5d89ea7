import HiStar.Pstate.Header

namespace HiStar.Pstate

open Lib Function

theorem transfer_write_mem (off : Nat) (es : List (Buf × Nat)) (mem : Buf → Bytes) (disk : Bytes) :
    (transfer .write off es (mem, disk)).1 = mem := by
  induction es generalizing off disk with
  | nil => rfl
  | cons e es ih => exact ih _ _

theorem transfer_write_outside {off a : Nat} {es : List (Buf × Nat)} (mem : Buf → Bytes)
    (disk : Bytes) (h : a < off ∨ off + iovBytes es ≤ a) :
    (transfer .write off es (mem, disk)).2 a = disk a := by
  induction es generalizing off disk with
  | nil => rfl
  | cons e es ih =>
    obtain ⟨b, len⟩ := e
    rw [iovBytes_cons] at h
    refine (ih _ (by omega)).trans ?_
    simp only [copyOut, ite_eq_right_iff]
    omega

variable {b : Buf} {p n : Nat}

theorem transfer_write_at (off : Nat) {i len : Nat} (pre post : List (Buf × Nat))
    (mem : Buf → Bytes) (disk : Bytes) (hi : i < len) :
    (transfer .write off (pre ++ (b, len) :: post) (mem, disk)).2 (off + iovBytes pre + i) =
      mem b i := by
  rw [transfer_append]
  generalize hs : transfer .write off pre (mem, disk) = s
  obtain ⟨mem', disk'⟩ := s
  obtain rfl : mem' = mem := by simpa [hs] using transfer_write_mem off pre mem disk
  simp only [transfer]
  rw [transfer_write_outside _ _ (.inl (by omega))]
  simp [copyOut, hi]

theorem transfer_read_disk (off : Nat) (es : List (Buf × Nat)) (mem : Buf → Bytes) (disk : Bytes) :
    (transfer .read off es (mem, disk)).2 = disk := by
  induction es generalizing off mem with
  | nil => rfl
  | cons e es ih => exact ih _ _

theorem transfer_read_other {off : Nat} {es : List (Buf × Nat)} (mem : Buf → Bytes)
    (disk : Bytes) (h : ∀ e ∈ es, e.1 ≠ b) : (transfer .read off es (mem, disk)).1 b = mem b := by
  induction es generalizing off mem with
  | nil => rfl
  | cons e es ih =>
    simp only [List.mem_cons, forall_eq_or_imp] at h
    exact (ih _ h.2).trans (update_of_ne (Ne.symm h.1) _ _)

theorem transfer_read_at (off : Nat) {i len : Nat} (pre : List (Buf × Nat))
    {post : List (Buf × Nat)} (mem : Buf → Bytes) (disk : Bytes) (hi : i < len)
    (hpost : ∀ e ∈ post, e.1 ≠ b) :
    (transfer .read off (pre ++ (b, len) :: post) (mem, disk)).1 b i =
      disk (off + iovBytes pre + i) := by
  rw [transfer_append]
  generalize hs : transfer .read off pre (mem, disk) = s
  obtain ⟨mem', disk'⟩ := s
  obtain rfl : disk' = disk := by simpa [hs] using transfer_read_disk off pre mem disk
  simp only [transfer]
  rw [transfer_read_other _ _ hpost]
  simp [copyIn, hi]

structure Kobject where
  hdr : Bytes
  page : Nat → Bytes

def Kobject.bytes (ko : Kobject) : Buf → Bytes
  | .hdr => ko.hdr
  | .page p => ko.page p

structure Mobject where
  off : Nat
  nbytes : Nat

structure Store where
  disk : Bytes
  objmap : Nat → Option Mobject
  requests : Nat

def rounddown (a n : Nat) : Nat := a - a % n

def roundup (a n : Nat) : Nat := rounddown (a + n - 1) n

def kobjectNpages (ko : Kobject) : Nat := roundup (koNbytes ko.hdr) pgsize / pgsize

def markWritten (ts : Nat) (ko : Kobject) : Kobject :=
  { ko with hdr := setKoFlags (setKoSyncTs ko.hdr ts) (koFlags ko.hdr ||| kobjOnDisk) }

def tailGarbage (p : Bytes) (pgoff : Nat) : Bool :=
  (List.range (pgsize - pgoff)).any fun i ↦ p (pgoff + i) ≠ 0

/-- The number of bytes to write; of the last page all of them, if something
stands after its end. -/
def objBytes (ko : Kobject) : Nat :=
  let n := koNbytes ko.hdr
  let pgoff := n % pgsize
  if pgoff ≠ 0 ∧ tailGarbage (ko.page (rounddown n pgsize / pgsize)) pgoff then
    n + (pgsize - pgoff)
  else n

def pstateKobjAlloc (alloc : Except Errno Nat) (id objbytes : Nat) : Exec Store Errno Nat := do
  Exec.modify fun s ↦ { s with objmap := update s.objmap id none }
  let off ← Exec.lift alloc
  Exec.modify fun s ↦ { s with
    objmap := update s.objmap id (some ⟨off, kobjDiskSize + roundup objbytes pgsize⟩) }
  pure off

def pageBytes (total page : Nat) : Nat := min (roundup (total - page * pgsize) 512) pgsize

def pageEntries (size : Nat → Nat) : Nat → Nat → List (Buf × Nat)
  | _, 0 => []
  | page, n + 1 => (.page page, size page) :: pageEntries size (page + 1) n

/-- The header and `n` pages of an object of `total` bytes. -/
def objEntries (total n : Nat) : List (Buf × Nat) :=
  (.hdr, kobjDiskSize) :: pageEntries (pageBytes total) 0 n

/-- A transfer between the memory `mem` and the disk from `off` on. -/
def runXfer (v : Drive) (op : DiskOp) (es : List (Buf × Nat)) (mem : Buf → Bytes) (off : Nat) :
    Exec Store Errno (Buf → Bytes) := fun s ↦
  let r := (do iovAppendAll v op es; pstateIovFlush v op)
    { mem := mem, disk := s.disk, requests := s.requests, flushOff := off }
  (r.1.map fun _ ↦ r.2.mem, { s with disk := r.2.disk, requests := r.2.requests })

def pstateSyncKobj (v : Drive) (ts : Nat) (alloc : Except Errno Nat) (ko : Kobject) :
    Exec Store Errno Unit := do
  let snap := markWritten ts ko
  let off ← pstateKobjAlloc alloc (koId snap.hdr) (objBytes snap)
  let _ ← runXfer v .write (objEntries (objBytes snap) (kobjectNpages snap)) snap.bytes off

/-- The memory that is read into. New pages hold anything; they are cleared when
not all of their bytes are going to be read. -/
def freshMem (total : Nat) (fresh : Nat → Bytes) : Buf → Bytes
  | .hdr => fun _ ↦ 0
  | .page p => if pageBytes total p ≠ pgsize then fun _ ↦ 0 else fresh p

def kobjectSwapin (c : Core) (ko : Kobject) : Exec Store Errno Kobject := do
  Exec.require (koId ko.hdr ≠ 0) .panic
  Exec.require (c.loaded (koId ko.hdr) = false) .panic
  pure { ko with hdr := swapinHdr c ko.hdr }

def pstateSwapinMobj (v : Drive) (c : Core) (fresh : Nat → Bytes) (mobj : Mobject) (id : Nat) :
    Exec Store Errno Kobject := do
  let total := mobj.nbytes - kobjDiskSize
  let mem ← runXfer v .read (objEntries total (roundup total pgsize / pgsize))
    (freshMem total fresh) mobj.off
  Exec.require (koId (mem .hdr) = id) .panic
  kobjectSwapin c ⟨mem .hdr, fun p ↦ mem (.page p)⟩

def pstateSwapinId (v : Drive) (c : Core) (fresh : Nat → Bytes) (id : Nat) :
    Exec Store Errno Kobject := do
  let s ← Exec.get
  match s.objmap id with
  | none => Exec.fail .notFound
  | some mobj => pstateSwapinMobj v c fresh mobj id

theorem pageEntries_add (size : Nat → Nat) (p n k : Nat) :
    pageEntries size p (n + k) = pageEntries size p n ++ pageEntries size (p + n) k := by
  induction n generalizing p with
  | zero => simp [pageEntries]
  | succ n ih =>
    rw [Nat.add_right_comm]
    simp [pageEntries, ih, Nat.add_assoc, Nat.add_comm 1 n]

theorem mem_pageEntries {size : Nat → Nat} {e : Buf × Nat}
    (h : e ∈ pageEntries size p n) : ∃ q, p ≤ q ∧ q < p + n ∧ e = (.page q, size q) := by
  induction n generalizing p with
  | zero => simp [pageEntries] at h
  | succ n ih =>
    rcases List.mem_cons.mp h with rfl | h
    · exact ⟨p, le_rfl, by omega, rfl⟩
    · obtain ⟨q, hp, hq, he⟩ := ih h
      exact ⟨q, by omega, by omega, he⟩

theorem iovBytes_pageEntries {size : Nat → Nat} (h : ∀ q, p ≤ q → q < p + n → size q = pgsize) :
    iovBytes (pageEntries size p n) = n * pgsize := by
  induction n generalizing p with
  | zero => simp [pageEntries]
  | succ n ih =>
    rw [pageEntries, iovBytes_cons, h p le_rfl (by omega),
      ih fun q hp hq ↦ h q (by omega) (by omega)]
    simp only [pgsize]
    omega

theorem objEntries_split (total : Nat) (hp : p < n) :
    ∃ post, objEntries total n =
      ((Buf.hdr, kobjDiskSize) :: pageEntries (pageBytes total) 0 p) ++
        (.page p, pageBytes total p) :: post ∧ ∀ e ∈ post, e.1 ≠ .page p := by
  obtain ⟨k, rfl⟩ : ∃ k, n = p + (k + 1) := ⟨n - p - 1, by omega⟩
  refine ⟨pageEntries (pageBytes total) (p + 1) k, ?_, ?_⟩
  · rw [objEntries, pageEntries_add]
    simp [pageEntries]
  · intro e he
    obtain ⟨q, hq, -, rfl⟩ := mem_pageEntries he
    simp only [ne_eq, Buf.page.injEq]
    omega

theorem pageBytes_of_le {total : Nat} (h : (p + 1) * pgsize ≤ total) :
    pageBytes total p = pgsize := by
  simp only [pageBytes, roundup, rounddown, pgsize] at h ⊢
  omega

theorem iovBytes_before {total : Nat} (h : p * pgsize ≤ total) :
    iovBytes ((Buf.hdr, kobjDiskSize) :: pageEntries (pageBytes total) 0 p) =
      kobjDiskSize + p * pgsize := by
  have hwhole : ∀ q, 0 ≤ q → q < 0 + p → pageBytes total q = pgsize := by
    intro q _ hq
    exact pageBytes_of_le ((Nat.mul_le_mul_right pgsize (by omega)).trans h)
  simp only [iovBytes_cons, iovBytes_pageEntries hwhole]

section RoundTrip

variable {total n : Nat} (mem : Buf → Bytes) (disk : Bytes) (off : Nat)

variable {i p : Nat}

theorem written_hdr (hi : i < kobjDiskSize) :
    (transfer .write off (objEntries total n) (mem, disk)).2 (off + i) = mem .hdr i := by
  rw [objEntries, ← List.nil_append (_ :: _)]
  exact transfer_write_at off [] _ mem disk hi

theorem written_page (hp : p < n) (hbefore : p * pgsize ≤ total) (hi : i < pageBytes total p) :
    (transfer .write off (objEntries total n) (mem, disk)).2
      (off + (kobjDiskSize + p * pgsize) + i) = mem (.page p) i := by
  obtain ⟨post, hsplit, -⟩ := objEntries_split total hp
  rw [hsplit, ← iovBytes_before hbefore]
  exact transfer_write_at _ _ _ _ _ hi

theorem written_tail (hbefore : p * pgsize ≤ total) (hi : pageBytes total p ≤ i) :
    (transfer .write off (objEntries total (p + 1)) (mem, disk)).2
      (off + (kobjDiskSize + p * pgsize) + i) = disk (off + (kobjDiskSize + p * pgsize) + i) := by
  apply transfer_write_outside
  right
  have hentries : objEntries total (p + 1) =
      ((Buf.hdr, kobjDiskSize) :: pageEntries (pageBytes total) 0 p) ++
        [(.page p, pageBytes total p)] := by
    rw [objEntries, pageEntries_add]
    simp [pageEntries]
  rw [hentries, iovBytes_append, iovBytes_before hbefore]
  simp only [iovBytes_cons, iovBytes_nil]
  omega

theorem read_hdr (hi : i < kobjDiskSize) :
    (transfer .read off (objEntries total n) (mem, disk)).1 .hdr i = disk (off + i) := by
  have hpost : ∀ e ∈ pageEntries (pageBytes total) 0 n, e.1 ≠ .hdr := by
    intro e he
    obtain ⟨q, -, -, rfl⟩ := mem_pageEntries he
    simp
  rw [objEntries, ← List.nil_append (_ :: _)]
  exact transfer_read_at off [] mem disk hi hpost

theorem read_page (hp : p < n) (hbefore : p * pgsize ≤ total) (hi : i < pageBytes total p) :
    (transfer .read off (objEntries total n) (mem, disk)).1 (.page p) i =
      disk (off + (kobjDiskSize + p * pgsize) + i) := by
  obtain ⟨post, hsplit, hpost⟩ := objEntries_split total hp
  rw [hsplit, ← iovBytes_before hbefore]
  exact transfer_read_at _ _ _ _ hi hpost

end RoundTrip

end HiStar.Pstate
