import HiStar.Mmap.Slots

namespace HiStar.Mmap

theorem roundup_aligned (n : Nat) : roundup n % 4096 = 0 := by
  simp only [roundup]
  omega

theorem roundup_lt (n : Nat) : roundup n < 2 ^ 64 := by
  simp only [roundup]
  omega

theorem roundup_roundup (n : Nat) : roundup (roundup n) = roundup n := by
  have h1 := roundup_aligned n
  have h2 := roundup_lt n
  rw [roundup]
  omega

structure Hit (m : Mapping) (start : Nat) : Prop where
  valid : m.Valid
  anon : m.anon = true
  aligned : start % 4096 = 0
  le : m.va ≤ start
  lt : start < m.vaEnd

section Chunks

variable (m : Mapping) (start len : Nat)

theorem leftChunk_segment : (leftChunk m start).segment = m.segment := by
  rw [leftChunk]

theorem leftChunk_flags : (leftChunk m start).flags = m.flags := by
  rw [leftChunk]

theorem leftChunk_va : (leftChunk m start).va = m.va := by
  rw [leftChunk]

theorem rightChunk_segment : (rightChunk m start len).segment = m.segment := by
  rw [rightChunk]

theorem rightChunk_flags : (rightChunk m start len).flags = m.flags := by
  rw [rightChunk]

theorem rightChunk_va : (rightChunk m start len).va = (start + len) % 2 ^ 64 := by
  rw [rightChunk]

end Chunks

namespace Hit

variable {m : Mapping} {start len p : Nat}

theorem vaEnd_eq (h : Hit m start) :
    m.vaEnd = m.va + m.numPages * 4096 ∧ m.va + m.numPages * 4096 < 2 ^ 64 :=
  h.valid.vaEnd_eq (h.le.trans_lt h.lt)

theorem bounds (h : Hit m start) : m.va ≤ start ∧ start < m.vaEnd ∧ start % 4096 = 0 ∧
    m.va % 4096 = 0 ∧ m.vaEnd = m.va + m.numPages * 4096 ∧ m.va + m.numPages * 4096 < 2 ^ 64 :=
  ⟨h.le, h.lt, h.aligned, h.valid.aligned, h.vaEnd_eq⟩

theorem covers (h : Hit m start) : m.Covers (start / 4096) := by
  have hb := h.bounds
  exact ⟨by omega, by omega⟩

theorem leftPages_eq (h : Hit m start) : leftPages m start = (start - m.va) / 4096 := by
  have hb := h.bounds
  simp only [leftPages, wordSub]
  omega

theorem startPage_lt (h : Hit m start) : m.startPage + m.numPages ≤ 2 ^ 52 :=
  h.valid.place h.anon (h.le.trans_lt h.lt)

theorem leftChunk_vaEnd (h : Hit m start) : (leftChunk m start).vaEnd = start := by
  have hb := h.bounds
  simp only [leftChunk, Mapping.vaEnd, h.leftPages_eq]
  omega

theorem leftChunk_startPage (h : Hit m start) : (leftChunk m start).startPage = m.startPage := by
  have hb := h.bounds
  have h4 := h.startPage_lt
  simp only [leftChunk]
  omega

theorem leftChunk_covers (h : Hit m start) :
    (leftChunk m start).Covers p ↔ m.Covers p ∧ 4096 * p < start := by
  have h1 := h.lt
  simp only [Mapping.Covers, h.leftChunk_vaEnd, leftChunk_va]
  omega

theorem translate_forward (h : m.reversed = false) :
    m.translate p = (m.segment, m.startPage + (4096 * p - m.va) / 4096, m.flags) := by
  simp only [Mapping.translate, h, Bool.false_eq_true, if_false]

theorem translate_congr {x y : Mapping} (hseg : x.segment = y.segment) (hflags : x.flags = y.flags)
    (hy : y.reversed = false)
    (hpage : x.startPage + (4096 * p - x.va) / 4096 = y.startPage + (4096 * p - y.va) / 4096) :
    x.translate p = y.translate p := by
  have hx : x.reversed = false := by
    rw [← hy]
    simp only [Mapping.reversed]
    rw [hflags]
  rw [translate_forward hx, translate_forward hy, hseg, hflags, hpage]

theorem leftChunk_translate (h : Hit m start) :
    (leftChunk m start).translate p = m.translate p := by
  refine translate_congr ?_ ?_ (h.valid.forward h.anon) ?_
  · exact leftChunk_segment m start
  · exact leftChunk_flags m start
  · rw [h.leftChunk_startPage, leftChunk_va]

section Right

variable (hlen : len % 4096 = 0) (hlen' : len < 2 ^ 64)

include hlen hlen'

theorem rightPages_eq (h : Hit m start) :
    rightPages m start len * 4096 % 2 ^ 64 = (m.vaEnd + 2 ^ 65 - start - len) % 2 ^ 64 := by
  have hb := h.bounds
  simp only [rightPages, wordSub, h.leftPages_eq]
  omega

theorem rightPages_zero (h : Hit m start) :
    rightPages m start len = 0 ↔ start + len = m.vaEnd := by
  have hb := h.bounds
  simp only [rightPages, wordSub, h.leftPages_eq]
  omega

theorem rightChunk_vaEnd (h : Hit m start) : (rightChunk m start len).vaEnd = m.vaEnd := by
  have hb := h.bounds
  have hr := h.rightPages_eq hlen hlen'
  simp only [rightChunk, Mapping.vaEnd] at hb hr ⊢
  omega

end Right

theorem rightChunk_startPage (h : Hit m start) (hlen : len % 4096 = 0) :
    (rightChunk m start len).startPage = (m.startPage + (start + len - m.va) / 4096) % 2 ^ 52 := by
  have hb := h.bounds
  have h7 := h.startPage_lt
  simp only [rightChunk, h.leftPages_eq]
  omega

theorem rightChunk_translate (h : Hit m start) (hlen : len % 4096 = 0)
    (hp : start + len ≤ 4096 * p) (hp' : 4096 * p < m.vaEnd) :
    (rightChunk m start len).translate p = m.translate p := by
  have hb := h.bounds
  have h7 := h.startPage_lt
  have hva : (rightChunk m start len).va = start + len := by
    rw [rightChunk_va]
    omega
  have hpage : (rightChunk m start len).startPage + (4096 * p - (start + len)) / 4096 =
      m.startPage + (4096 * p - m.va) / 4096 := by
    obtain ⟨i, hi⟩ : ∃ i, start + len = m.va + 4096 * i :=
      ⟨(start + len - m.va) / 4096, by omega⟩
    rw [h.rightChunk_startPage hlen, hi, Nat.mod_eq_of_lt (by omega)]
    omega
  refine translate_congr ?_ ?_ (h.valid.forward h.anon) ?_
  · exact rightChunk_segment m start len
  · exact rightChunk_flags m start len
  · rw [hva, hpage]

end Hit

end HiStar.Mmap
