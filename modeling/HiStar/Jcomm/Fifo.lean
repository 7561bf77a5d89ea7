import HiStar.Jcomm.Link

namespace HiStar.Jcomm

open Lib

inductive Call
  | read (cnt : Nat) (mode : Mode)
  | write (buf : List UInt8) (mode : Mode)

def ReadResult.returned : ReadResult → List (List UInt8)
  | data bs => [bs]
  | _ => []

def WriteResult.taken (buf : List UInt8) : WriteResult → List (List UInt8)
  | accepted n => [buf.take n]
  | fail _ => []

/-- Complete calls by users of one mode, one after the other, each meeting `P`:
what was accepted, what was returned, and the link at the end. -/
inductive Run (packet : Bool) (P : Jlink → Call → Prop) (jl₀ : Jlink) :
    List (List UInt8) → List (List UInt8) → Jlink → Prop
  | nil : Run packet P jl₀ [] [] jl₀
  | read {acc ret : List (List UInt8)} {jl jl' : Jlink} (cnt : Nat) (mode : Mode)
      (res : ReadResult) (hrun : Run packet P jl₀ acc ret jl) (hp : P jl (.read cnt mode))
      (hmode : mode.packet = packet) (hok : jlinkRead jl cnt mode = some (res, jl')) :
      Run packet P jl₀ acc (ret ++ res.returned) jl'
  | write {acc ret : List (List UInt8)} {jl jl' : Jlink} (buf : List UInt8) (mode : Mode)
      (res : WriteResult) (hrun : Run packet P jl₀ acc ret jl) (hp : P jl (.write buf mode))
      (hmode : mode.packet = packet) (hok : jlinkWrite jl buf mode = some (res, jl')) :
      Run packet P jl₀ (acc ++ res.taken buf) ret jl'

/-- A packet read has room for the packet at the front, and a packet fits the
buffer together with its header. -/
def Roomy (jl : Jlink) : Call → Prop
  | .read cnt mode => mode.packet = true → jl.bytes ≠ 0 →
      decodeLe (jlinkCopyfrom jl headerSize).1 ≤ cnt
  | .write buf mode => mode.packet = true → buf.length + headerSize ≤ jlinkBufsz

structure Jlink.Empty (jl : Jlink) : Prop where
  bytes : jl.bytes = 0
  readPtr : jl.readPtr < jlinkBufsz
  free : jl.mu = false

def frame (p : List UInt8) : List UInt8 := encodeLe headerSize p.length ++ p

def Conserved (packet : Bool) (acc ret : List (List UInt8)) (jl : Jlink) : Prop :=
  if packet then ∃ pending, acc = ret ++ pending ∧ jl.contents = pending.flatMap frame ∧
    ∀ p ∈ pending, p.length ≤ jlinkBufsz
  else acc.flatten = ret.flatten ++ jl.contents

variable {packet : Bool} {jl jl' : Jlink} {acc ret : List (List UInt8)}

theorem length_frame (p : List UInt8) : (frame p).length = headerSize + p.length := by
  simp [frame, length_encodeLe]

theorem front_packet {pending : List (List UInt8)} (h : jl.Sound)
    (hc : jl.contents = pending.flatMap frame) (hlen : ∀ p ∈ pending, p.length ≤ jlinkBufsz)
    (hne : jl.bytes ≠ 0) : ∃ p rest, pending = p :: rest ∧
      headerSize + p.length ≤ jl.bytes ∧ decodeLe (jlinkCopyfrom jl headerSize).1 = p.length := by
  cases pending with
  | nil =>
    have := length_contents jl
    rw [hc] at this
    exact absurd this.symm hne
  | cons p rest =>
    have hl := length_contents jl
    rw [hc, List.flatMap_cons, List.length_append, length_frame] at hl
    refine ⟨p, rest, rfl, by omega, ?_⟩
    rw [(jlinkCopyfrom_eq h _ (by omega)).1, hc, List.flatMap_cons, frame, List.append_assoc,
      List.take_left' (length_encodeLe _ _), decodeLe_encodeLe]
    have := hlen p (List.mem_cons_self ..)
    exact Nat.mod_eq_of_lt (lt_of_le_of_lt this (by decide))

variable {cnt : Nat} {mode : Mode}

theorem jlinkRead_packet {p : List UInt8} {rest : List (List UInt8)}
    (h : jl.Sound) (hfree : jl.mu = false) (hmode : mode.packet = true)
    (hc : jl.contents = (p :: rest).flatMap frame) (hlen : headerSize + p.length ≤ jl.bytes)
    (hhdr : decodeLe (jlinkCopyfrom jl headerSize).1 = p.length) (hcnt : p.length ≤ cnt) :
    ∃ jl', jlinkRead jl cnt mode = some (.data p, jl') ∧ jl'.Sound ∧ jl'.mu = false ∧
      jl'.contents = rest.flatMap frame := by
  have hb := h.bytes
  have hne : jl.bytes ≠ 0 := by simp only [headerSize] at hlen; omega
  obtain ⟨-, hrest⟩ := jlinkCopyfrom_eq h headerSize (by omega)
  let jl₁ : Jlink := { jl with
    readPtr := (jlinkCopyfrom jl headerSize).2, bytes := jl.bytes - headerSize }
  have hs₁ : jl₁.Sound := ⟨Nat.mod_lt _ (by decide), by simp only [jl₁]; omega⟩
  have hc₁ : jl₁.contents = p ++ rest.flatMap frame := by
    rw [hrest, hc, List.flatMap_cons, frame, List.append_assoc,
      List.drop_left' (length_encodeLe _ _)]
  have hlt₁ : p.length ≤ jl₁.bytes := by simp only [jl₁]; omega
  obtain ⟨hdata, hend⟩ := jlinkCopyfrom_eq hs₁ _ hlt₁
  rw [hc₁, List.take_left' rfl] at hdata
  rw [hc₁, List.drop_left' rfl] at hend
  let jl₂ : Jlink := { jl₁ with
    readPtr := (jlinkCopyfrom jl₁ p.length).2, bytes := jl₁.bytes - p.length }
  obtain ⟨hw1, hw2, hw3⟩ := wakeWriter_fields jl₂
  refine ⟨jl₂.wakeWriter, ?_, ⟨?_, ?_⟩, hw3.trans hfree, (wakeWriter_contents _).trans hend⟩
  · rw [jlinkRead, if_neg (by simp [hfree]), if_neg hne, if_pos hmode]
    simp only [hhdr, show ¬ p.length > cnt by omega, ↓reduceIte]
    exact congrArg some (Prod.ext (congrArg ReadResult.data hdata) rfl)
  · rw [hw1]
    exact Nat.mod_lt _ (by decide)
  · rw [hw2]
    simp only [jl₂, jl₁]
    omega

theorem jlinkWrite_packet (buf : List UInt8) (h : jl.Sound) (hfree : jl.mu = false)
    (hmode : mode.packet = true) (hopen : jl.isOpen = true)
    (hfit : jl.bytes + (buf.length + headerSize) ≤ jlinkBufsz) :
    ∃ jl', jlinkWrite jl buf mode = some (.accepted buf.length, jl') ∧ jl'.Sound ∧
      jl'.mu = false ∧ jl'.contents = jl.contents ++ frame buf := by
  have hlen := length_encodeLe headerSize buf.length
  let jl₁ : Jlink := { jlinkCopyto jl (encodeLe headerSize buf.length) with
    bytes := jl.bytes + headerSize }
  have hc₁ : jl₁.contents = jl.contents ++ encodeLe headerSize buf.length := by
    have := jlinkCopyto_eq h (encodeLe headerSize buf.length) (by omega)
    rwa [hlen] at this
  have hs₁ : jl₁.Sound := ⟨h.readPtr, by simp only [jl₁]; omega⟩
  let jl₂ : Jlink := { jlinkCopyto jl₁ buf with bytes := jl₁.bytes + buf.length }
  have hc₂ : jl₂.contents = jl.contents ++ frame buf := by
    rw [jlinkCopyto_eq hs₁ buf (by simp only [jl₁]; omega), hc₁, List.append_assoc, frame]
  obtain ⟨hw1, hw2, hw3⟩ := wakeReader_fields jl₂
  refine ⟨jl₂.wakeReader, ?_, ⟨hw1 ▸ h.readPtr, ?_⟩, hw3.trans hfree,
    (wakeReader_contents _).trans hc₂⟩
  · have hroom : jlinkFullwrite jl (buf.length + headerSize) = true := by
      simp only [jlinkFullwrite, Bool.not_eq_true', decide_eq_false_iff_not]
      omega
    have hsmall : ¬ buf.length > jlinkBufsz := by omega
    rw [jlinkWrite, if_neg (by simp [hsmall]), if_neg (by simp [hfree]),
      if_neg (by simp [hmode, hroom]), if_neg (by simp [hopen]), if_pos hmode]
    rfl
  · rw [hw2]
    simp only [jl₂, jl₁]
    omega

theorem jlinkRead_stream (cnt : Nat) (h : jl.Sound) (hfree : jl.mu = false)
    (hmode : mode.packet = false) (hne : jl.bytes ≠ 0) :
    ∃ jl', jlinkRead jl cnt mode = some (.data (jl.contents.take (min cnt jl.bytes)), jl') ∧
      jl'.Sound ∧ jl'.mu = false ∧ jl'.contents = jl.contents.drop (min cnt jl.bytes) := by
  have hb := h.bytes
  obtain ⟨hdata, hend⟩ := jlinkCopyfrom_eq h (min cnt jl.bytes) (by omega)
  let jl₁ : Jlink := { jl with
    readPtr := (jlinkCopyfrom jl (min cnt jl.bytes)).2, bytes := jl.bytes - min cnt jl.bytes }
  obtain ⟨hw1, hw2, hw3⟩ := wakeWriter_fields jl₁
  refine ⟨jl₁.wakeWriter, ?_, ⟨?_, ?_⟩, hw3.trans hfree, (wakeWriter_contents _).trans hend⟩
  · rw [jlinkRead, if_neg (by simp [hfree]), if_neg hne, if_neg (by simp [hmode])]
    exact congrArg some (Prod.ext (congrArg ReadResult.data hdata) rfl)
  · rw [hw1]
    exact Nat.mod_lt _ (by decide)
  · rw [hw2]
    simp only [jl₁]
    omega

theorem jlinkWrite_stream (buf : List UInt8) (h : jl.Sound) (hfree : jl.mu = false)
    (hmode : mode.packet = false) (hopen : jl.isOpen = true) (hmin : jlinkMinwrite jl = true) :
    ∃ jl', jlinkWrite jl buf mode =
        some (.accepted (min buf.length (jlinkBufsz - jl.bytes)), jl') ∧ jl'.Sound ∧
      jl'.mu = false ∧
      jl'.contents = jl.contents ++ buf.take (min buf.length (jlinkBufsz - jl.bytes)) := by
  have hb := h.bytes
  set cc := min buf.length (jlinkBufsz - jl.bytes) with hcc
  have hlen : (buf.take cc).length = cc := by simp only [List.length_take]; omega
  let jl₁ : Jlink := { jlinkCopyto jl (buf.take cc) with bytes := jl.bytes + cc }
  have hc₁ : jl₁.contents = jl.contents ++ buf.take cc := by
    have := jlinkCopyto_eq h (buf.take cc) (by omega)
    rwa [hlen] at this
  obtain ⟨hw1, hw2, hw3⟩ := wakeReader_fields jl₁
  refine ⟨jl₁.wakeReader, ?_, ⟨hw1 ▸ h.readPtr, ?_⟩, hw3.trans hfree,
    (wakeReader_contents _).trans hc₁⟩
  · rw [jlinkWrite, if_neg (by simp [hmode]), if_neg (by simp [hfree]),
      if_neg (by simp [hmode, hmin]), if_neg (by simp [hopen]), if_neg (by simp [hmode])]
    rfl
  · rw [hw2]
    simp only [jl₁]
    omega

/-- A read that finds nothing, and a write that is not accepted, leave the
bytes and the lock as they are. -/
structure Idle (jl jl' : Jlink) : Prop where
  buf : jl'.buf = jl.buf
  readPtr : jl'.readPtr = jl.readPtr
  bytes : jl'.bytes = jl.bytes
  mu : jl'.mu = jl.mu

theorem Idle.refl (jl : Jlink) : Idle jl jl := ⟨rfl, rfl, rfl, rfl⟩

theorem Idle.contents (h : Idle jl jl') : jl'.contents = jl.contents := by
  simp only [Jlink.contents, h.buf, h.readPtr, h.bytes]

theorem Idle.sound (h : Idle jl jl') (hs : jl.Sound) : jl'.Sound :=
  ⟨h.readPtr ▸ hs.readPtr, h.bytes ▸ hs.bytes⟩

theorem jlinkRead_empty {res : ReadResult} (hfree : jl.mu = false)
    (hz : jl.bytes = 0) (hok : jlinkRead jl cnt mode = some (res, jl')) :
    (res = .closed ∨ res = .fail .again) ∧ Idle jl jl' := by
  rw [jlinkRead, if_neg (by simp [hfree]), if_pos hz] at hok
  have hidle : Idle jl (if mode.nonblockRd then jl else { jl with readerWaiting := true }) := by
    split
    · exact Idle.refl jl
    · exact ⟨rfl, rfl, rfl, rfl⟩
  simp only at hok
  generalize (if mode.nonblockRd then jl else { jl with readerWaiting := true }) = jl₁ at *
  split at hok
  · cases hok
    exact ⟨.inl rfl, hidle⟩
  · split at hok
    · cases hok
      exact ⟨.inr rfl, hidle⟩
    · cases hok

theorem jlinkWrite_cases {buf : List UInt8} {res : WriteResult}
    (hfree : jl.mu = false) (hok : jlinkWrite jl buf mode = some (res, jl')) :
    (res.taken buf = [] ∧ Idle jl jl') ∨
      (jl.isOpen = true ∧ (mode.packet = true → jlinkFullwrite jl (buf.length + headerSize) = true) ∧
        (mode.packet = false → jlinkMinwrite jl = true)) := by
  rw [jlinkWrite] at hok
  split at hok
  · cases hok
    exact .inl ⟨rfl, Idle.refl jl⟩
  rw [if_neg (by simp [hfree])] at hok
  split at hok
  · split at hok
    · cases hok
      exact .inl ⟨rfl, Idle.refl jl⟩
    · cases hok
  next hroom =>
    split at hok
    · cases hok
      exact .inl ⟨rfl, Idle.refl jl⟩
    next hopen =>
      have hopen : jl.isOpen = true := by simpa using hopen
      refine .inr ⟨hopen, fun hm ↦ ?_, fun hm ↦ ?_⟩
      · by_contra hc
        exact hroom ⟨hopen, .inl ⟨hm, by simpa using hc⟩⟩
      · by_contra hc
        exact hroom ⟨hopen, .inr ⟨by simp [hm], by simpa using hc⟩⟩

structure Faithful (packet : Bool) (acc ret : List (List UInt8)) (jl : Jlink) : Prop where
  sound : jl.Sound
  free : jl.mu = false
  conserved : Conserved packet acc ret jl

theorem Faithful.idle (h : Faithful packet acc ret jl) (hi : Idle jl jl') :
    Faithful packet acc ret jl' := by
  refine ⟨hi.sound h.sound, hi.mu.trans h.free, ?_⟩
  have := h.conserved
  simpa only [Conserved, hi.contents] using this

theorem Faithful.read {res : ReadResult}
    (h : Faithful packet acc ret jl) (hp : Roomy jl (.read cnt mode)) (hmode : mode.packet = packet)
    (hok : jlinkRead jl cnt mode = some (res, jl')) :
    Faithful packet acc (ret ++ res.returned) jl' := by
  by_cases hz : jl.bytes = 0
  · obtain ⟨hres, hi⟩ := jlinkRead_empty h.free hz hok
    have hr : res.returned = [] := by rcases hres with rfl | rfl <;> rfl
    rw [hr, List.append_nil]
    exact h.idle hi
  have hcons := h.conserved
  cases packet with
  | true =>
    obtain ⟨pending, hacc, hc, hlen⟩ := hcons
    obtain ⟨p, rest, rfl, hbytes, hhdr⟩ := front_packet h.sound hc hlen hz
    obtain ⟨jl₁, hok₁, hs, hf, hc₁⟩ := jlinkRead_packet h.sound h.free hmode hc hbytes hhdr
      (hhdr ▸ hp hmode hz)
    rw [hok₁] at hok
    cases hok
    refine ⟨hs, hf, rest, ?_, hc₁, fun q hq ↦ hlen q (List.mem_cons_of_mem _ hq)⟩
    rw [hacc, ReadResult.returned, List.append_assoc, List.singleton_append]
  | false =>
    obtain ⟨jl₁, hok₁, hs, hf, hc₁⟩ := jlinkRead_stream cnt h.sound h.free hmode hz
    rw [hok₁] at hok
    cases hok
    refine ⟨hs, hf, ?_⟩
    change acc.flatten = (ret ++ [_]).flatten ++ _
    rw [hc₁, List.flatten_append, List.flatten_singleton, List.append_assoc, List.take_append_drop]
    exact hcons

theorem Faithful.write {buf : List UInt8} {res : WriteResult} (h : Faithful packet acc ret jl)
    (hmode : mode.packet = packet) (hok : jlinkWrite jl buf mode = some (res, jl')) :
    Faithful packet (acc ++ res.taken buf) ret jl' := by
  rcases jlinkWrite_cases h.free hok with ⟨hr, hi⟩ | ⟨hopen, hfull, hmin⟩
  · rw [hr, List.append_nil]
    exact h.idle hi
  have hcons := h.conserved
  cases packet with
  | true =>
    have hb := h.sound.bytes
    have hfit := hfull hmode
    simp only [jlinkFullwrite, Bool.not_eq_true', decide_eq_false_iff_not] at hfit
    obtain ⟨jl₁, hok₁, hs, hf, hc₁⟩ := jlinkWrite_packet buf h.sound h.free hmode hopen
      (by simp only [headerSize, jlinkBufsz] at *; omega)
    rw [hok₁] at hok
    cases hok
    obtain ⟨pending, hacc, hc, hlen⟩ := hcons
    refine ⟨hs, hf, pending ++ [buf], ?_, ?_, fun q hq ↦ ?_⟩
    · simp only [WriteResult.taken, List.take_length, hacc, List.append_assoc]
    · rw [hc₁, hc, List.flatMap_append, List.flatMap_singleton]
    · rcases List.mem_append.mp hq with hq | hq
      · exact hlen q hq
      · rw [List.mem_singleton.mp hq]
        simp only [headerSize, jlinkBufsz] at *
        omega
  | false =>
    obtain ⟨jl₁, hok₁, hs, hf, hc₁⟩ := jlinkWrite_stream buf h.sound h.free hmode hopen
      (hmin hmode)
    rw [hok₁] at hok
    cases hok
    refine ⟨hs, hf, ?_⟩
    change (acc ++ [_]).flatten = ret.flatten ++ _
    rw [hc₁, List.flatten_append, List.flatten_singleton, ← List.append_assoc]
    exact congrArg (· ++ _) hcons

theorem Run.faithful {jl₀ : Jlink} (h₀ : jl₀.Empty) (h : Run packet Roomy jl₀ acc ret jl) :
    Faithful packet acc ret jl := by
  induction h with
  | nil =>
    have hc : jl₀.contents = [] := by rw [Jlink.contents, h₀.bytes, ring_zero]
    refine ⟨⟨h₀.readPtr, by rw [h₀.bytes]; exact Nat.zero_le _⟩, h₀.free, ?_⟩
    cases packet with
    | true => exact ⟨[], rfl, hc, by simp⟩
    | false => exact hc.symm
  | read _ _ _ _ hp hmode hok ih => exact ih.read hp hmode hok
  | write _ _ _ _ _ hmode hok ih => exact ih.write hmode hok

end HiStar.Jcomm
