import HiStar.Jcomm.Fifo

namespace HiStar.Jcomm

open Lib

variable {packet : Bool} {jl jl' jl₀ : Jlink} {acc ret : List (List UInt8)}

theorem jlinkRead_refused {cnt : Nat} {mode : Mode} (hfree : jl.mu = false)
    (hok : jlinkRead jl cnt mode = some (.fail .noSpace, jl')) :
    jl.bytes ≠ 0 ∧ jl' = { jl with mu := true } := by
  have hne : jl.bytes ≠ 0 := by
    intro hz
    obtain ⟨hres | hres, -⟩ := jlinkRead_empty hfree hz hok <;> cases hres
  refine ⟨hne, ?_⟩
  rw [jlinkRead, if_neg (by simp [hfree]), if_neg hne] at hok
  split at hok
  · simp only at hok
    split at hok
    · cases hok
      rfl
    · cases hok
  · cases hok

/-- A link is a faithful FIFO in every run whose packet reads have room for the
packet at the front and whose packets fit the buffer with their header. -/
theorem jlink_fifo (h₀ : jl₀.Empty) (hrun : Run packet Roomy jl₀ acc ret jl) :
    (packet = false → ret.flatten <+: acc.flatten) ∧ (packet = true → ret <+: acc) ∧
    jl.bytes ≤ jlinkBufsz ∧ jl.mu = false ∧
    (∀ cnt mode jl', packet = true → mode.packet = true →
      jlinkRead jl cnt mode = some (.fail .noSpace, jl') →
      ∃ p rest, acc = ret ++ p :: rest ∧ ∀ cnt', p.length ≤ cnt' →
        ∃ jl'', jlinkRead { jl' with mu := false } cnt' mode = some (.data p, jl'')) ∧
    (∀ buf mode, packet = true → mode.packet = true → jl.bytes = 0 → jl.isOpen = true →
      buf.length + headerSize ≤ jlinkBufsz →
      ∃ jl', jlinkWrite jl buf mode = some (.accepted buf.length, jl')) := by
  have hf := hrun.faithful h₀
  have hcons := hf.conserved
  refine ⟨?_, ?_, hf.sound.bytes, hf.free, ?_, ?_⟩
  · rintro rfl
    exact ⟨jl.contents, hcons.symm⟩
  · rintro rfl
    obtain ⟨pending, hacc, -, -⟩ := hcons
    exact ⟨pending, hacc.symm⟩
  · rintro cnt mode jl' rfl hmode hok
    obtain ⟨hne, rfl⟩ := jlinkRead_refused hf.free hok
    obtain ⟨pending, hacc, hc, hlen⟩ := hcons
    obtain ⟨p, rest, rfl, hbytes, hhdr⟩ := front_packet hf.sound hc hlen hne
    have hback : ({ ({ jl with mu := true } : Jlink) with mu := false } : Jlink) = jl := by
      obtain ⟨buf, rw, ww, op, rp, b, mu⟩ := jl
      simp only [show mu = false from hf.free]
    refine ⟨p, rest, hacc, fun cnt' hcnt ↦ ?_⟩
    obtain ⟨jl'', hread, -⟩ := jlinkRead_packet hf.sound hf.free hmode hc hbytes hhdr hcnt
    exact ⟨jl'', hback ▸ hread⟩
  · rintro buf mode rfl hmode hz hopen hfit
    obtain ⟨jl', hok, -⟩ := jlinkWrite_packet buf hf.sound hf.free hmode hopen
      (by rw [hz]; omega)
    exact ⟨jl', hok⟩

def freshLink : Jlink := ⟨fun _ ↦ 0, false, false, true, 0, 0, false⟩

def packetMode : Mode := ⟨false, false, true⟩

/-- The first one of two packets is read. -/
theorem read_jlink_fifo : ∃ jl, Run true Roomy freshLink [[7, 8], [9]] [[7, 8]] jl ∧
    ([[7, 8]] : List (List UInt8)) <+: [[7, 8], [9]] ∧ jl.bytes ≤ jlinkBufsz ∧ jl.mu = false := by
  have hw : Run true Roomy freshLink ([] ++ [[7, 8]]) [] _ :=
    .write [7, 8] packetMode (.accepted 2) .nil (fun _ ↦ by decide) rfl rfl
  have hw₂ : Run true Roomy freshLink ([] ++ [[7, 8]] ++ [[9]]) [] _ :=
    .write [9] packetMode (.accepted 1) hw (fun _ ↦ by decide) rfl rfl
  have hr : Run true Roomy freshLink ([] ++ [[7, 8]] ++ [[9]]) ([] ++ [[7, 8]]) _ :=
    .read 2 packetMode (.data [7, 8]) hw₂ (fun _ _ ↦ by decide +kernel) rfl rfl
  have h := jlink_fifo ⟨rfl, by decide, rfl⟩ hr
  exact ⟨_, hr, h.2.1 rfl, h.2.2.1, h.2.2.2.1⟩

/-- A read of 1 byte is refused a packet of 2 and keeps the lock, so that no
later call returns; and a packet of 8993 bytes is never accepted. -/
theorem refused_read_blocks : ∃ acc ret jl, Run true (fun _ _ ↦ True) freshLink acc ret jl ∧
    jl.mu = true ∧ (∀ cnt, jlinkRead jl cnt packetMode = none) ∧
    jlinkWrite freshLink (List.replicate 8993 0) packetMode = none := by
  have hw : Run true (fun _ _ ↦ True) freshLink ([] ++ [[7, 8]]) [] _ :=
    .write [7, 8] packetMode (.accepted 2) .nil trivial rfl rfl
  have hr : Run true (fun _ _ ↦ True) freshLink ([] ++ [[7, 8]]) ([] ++ []) _ :=
    .read 1 packetMode (.fail .noSpace) hw trivial rfl rfl
  refine ⟨_, _, _, hr, rfl, fun cnt ↦ rfl, ?_⟩
  decide +kernel

end HiStar.Jcomm
