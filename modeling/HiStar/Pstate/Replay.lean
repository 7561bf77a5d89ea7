import HiStar.Pstate.Apply

namespace HiStar.Pstate

open Lib

variable {α ρ : Type}

def boot (d : Disk α ρ) : Machine α ρ := ⟨{}, ⟨d, []⟩, d.header⟩

def replayRequests (d : Disk α ρ) : List (Request α ρ) :=
  (pstateApplyDiskLog .perfect (boot d)).2.dev.issued

variable {d d₀ : Disk α ρ}

theorem boot_run (hwf : WfLog d) : ∃ rs, BlocksOnly rs ∧ blockWrites rs = d.pending ∧
      replayRequests d = rs ++ [.flush, .writeHeader d.header.applied, .flush] ∧
      (pstateApplyDiskLog .perfect (boot d)).1 = .ok () ∧
      (pstateApplyDiskLog .perfect (boot d)).2.dev.disk = d.landAll (replayRequests d) := by
  obtain ⟨rs, hb, hw, hrun⟩ := pstateApplyDiskLog_perfect (boot d) hwf rfl (Nat.le_refl _)
  refine ⟨rs, hb, hw, ?_⟩
  simp only [replayRequests, hrun]
  simp [boot, Device.after]

/-- A run that is cut off after some of its requests, writes reaching the disk in
the order of their issue. -/
def Interrupted (d d' : Disk α ρ) : Prop := ∃ j, d' = d.landAll ((replayRequests d).take j)

/-- What the disk is between two runs that started from `d₀`: the log is as it
was, and either it is still pending or all of it is home. -/
structure Resumable (d₀ d : Disk α ρ) : Prop where
  log : ∀ a, logByteoff ≤ a → a < logByteoff + d₀.header.phLogMax * pgsize →
    d.block a = d₀.block a
  home : (d.header = d₀.header ∧ overlay d₀.pending d.block = overlay d₀.pending d₀.block) ∨
    (d.header = d₀.header.applied ∧ d.block = overlay d₀.pending d₀.block)

theorem Resumable.refl (d : Disk α ρ) : Resumable d d := ⟨fun _ _ _ ↦ rfl, .inl ⟨rfl, rfl⟩⟩

theorem Resumable.header (h : Resumable d₀ d) :
    d.header = d₀.header ∨ d.header = d₀.header.applied :=
  h.home.imp And.left And.left

theorem Resumable.entries (h : Resumable d₀ d) {n : Nat}
    (hn : n ≤ d₀.header.phLogMax) : logEntries d logByteoff n = logEntries d₀ logByteoff n := by
  apply logEntries_congr
  intro a hlo hhi
  have := Nat.mul_le_mul_right pgsize hn
  exact h.log a hlo (by omega)

theorem Resumable.wf (h : Resumable d₀ d) (hwf : WfLog d₀) : WfLog d := by
  rcases h.header with hd | hd
  · refine ⟨hd ▸ hwf.pages, hd ▸ hwf.blocks, ?_⟩
    rw [hd, h.entries hwf.blocks]
    exact hwf.outside
  · refine ⟨hd ▸ hwf.pages, by simp [hd, Header.applied], ?_⟩
    simp [hd, Header.applied, logEntries]

theorem overlay_pending_take {ws vs : List (Nat × Block α)} (h : vs <+: ws)
    (f : Nat → Block α) : overlay ws (overlay vs f) = overlay ws f :=
  overlay_overlay (fun v hv ↦ ⟨v, h.subset hv, rfl⟩) f

theorem blockWrites_prefix {rs qs : List (Request α ρ)} (h : rs <+: qs) :
    blockWrites rs <+: blockWrites qs := by
  obtain ⟨ts, rfl⟩ := h
  rw [blockWrites_append]
  exact List.prefix_append _ _

theorem pending_outside (hwf : WfLog d) {a : Nat} (hlo : logByteoff ≤ a)
    (hhi : a < logByteoff + d.header.phLogMax * pgsize) : ∀ w ∈ d.pending, w.1 ≠ a := by
  simp only [Disk.pending, homeWrites, List.mem_map, forall_exists_index, and_imp,
    forall_apply_eq_imp_iff₂]
  intro b hb
  have := hwf.outside b hb
  omega

theorem Interrupted.cases {d' : Disk α ρ} (hwf : WfLog d) (h : Interrupted d d') :
    (∃ ws, ws <+: d.pending ∧ d' = { d with block := overlay ws d.block }) ∨
    d' = { d with header := d.header.applied, block := overlay d.pending d.block } := by
  obtain ⟨rs, hb, hw, hrs, -⟩ := boot_run hwf
  obtain ⟨j, rfl⟩ := h
  have hpart (ps : List (Request α ρ)) (hps : ps <+: rs) :
      d.landAll ps = { d with block := overlay (blockWrites ps) d.block } :=
    BlocksOnly.landAll (fun r hr ↦ hb r (hps.subset hr)) d
  rw [hrs, List.take_append]
  rcases Nat.lt_or_ge j (rs.length + 2) with hj | hj
  · refine .inl ⟨_, hw ▸ blockWrites_prefix (List.take_prefix j rs), ?_⟩
    rw [← hpart _ (List.take_prefix j rs), landAll_append]
    obtain hk | hk : j - rs.length = 0 ∨ j - rs.length = 1 := by omega
    all_goals simp [hk, Request.land]
  · right
    obtain ⟨k, hk⟩ : ∃ k, j - rs.length = k + 2 := ⟨j - rs.length - 2, by omega⟩
    rw [List.take_of_length_le (by omega), landAll_append, hpart rs List.prefix_rfl, hw, hk]
    cases k <;> simp [Request.land]

theorem Resumable.interrupted {d' : Disk α ρ} (hwf : WfLog d₀) (h : Resumable d₀ d)
    (hi : Interrupted d d') : Resumable d₀ d' := by
  have hlog (ws : List (Nat × Block α)) (hws : ws <+: d.pending) (a : Nat) (hlo : logByteoff ≤ a)
      (hhi : a < logByteoff + d₀.header.phLogMax * pgsize) :
      overlay ws d.block a = d₀.block a := by
    have hmax : d.header.phLogMax = d₀.header.phLogMax := by
      rcases h.header with hd | hd <;> simp [hd, Header.applied]
    have hne := pending_outside (h.wf hwf) hlo (hmax.symm ▸ hhi)
    exact (overlay_of_notMem fun w hw ↦ hne w (hws.subset hw)).trans (h.log a hlo hhi)
  rcases h.home with ⟨hd, hhome⟩ | ⟨hd, hhome⟩
  · -- the log is still pending: the same entries are written once more
    have hpend : d.pending = d₀.pending := by
      simp only [Disk.pending, hd, h.entries hwf.blocks]
    rcases hi.cases (h.wf hwf) with ⟨ws, hws, rfl⟩ | rfl
    · refine ⟨hlog ws hws, .inl ⟨hd, ?_⟩⟩
      rw [← hhome]
      exact overlay_pending_take (hpend ▸ hws) _
    · refine ⟨hlog _ List.prefix_rfl, .inr ⟨by rw [hd], ?_⟩⟩
      rw [← hhome, hpend]
  · -- the log is empty by now
    have hpend : d.pending = [] := by simp [Disk.pending, hd, Header.applied, logEntries, homeWrites]
    rcases hi.cases (h.wf hwf) with ⟨ws, hws, rfl⟩ | rfl
    · refine ⟨hlog ws hws, .inr ⟨hd, ?_⟩⟩
      rw [hpend, List.prefix_nil] at hws
      simpa [hws] using hhome
    · refine ⟨hlog _ List.prefix_rfl, .inr ⟨by simp [hd, Header.applied], ?_⟩⟩
      simpa [hpend] using hhome

theorem resumable_of_interrupted (hwf : WfLog d₀)
    (h : Relation.ReflTransGen Interrupted d₀ d) : Resumable d₀ d := by
  induction h with
  | refl => exact Resumable.refl d₀
  | tail _ hi ih => exact ih.interrupted hwf hi

theorem Resumable.overlay_pending (hwf : WfLog d₀) (h : Resumable d₀ d) :
    overlay d.pending d.block = overlay d₀.pending d₀.block := by
  rcases h.home with ⟨hd, hhome⟩ | ⟨hd, hhome⟩
  · rw [Disk.pending, hd, h.entries hwf.blocks]
    exact hhome
  · simpa [Disk.pending, hd, Header.applied, logEntries, homeWrites] using hhome

theorem replayRequests_split (hwf : WfLog d) {pre post : List (Request α ρ)} {h : Header ρ}
    (hsplit : replayRequests d = pre ++ .writeHeader h :: post) :
    h = d.header.applied ∧ (d.landAll pre).block = overlay d.pending d.block ∧
      blockWrites post = [] := by
  obtain ⟨rs, hb, hw, hrs, -⟩ := boot_run hwf
  rw [hrs] at hsplit
  have hnot : Request.writeHeader h ∉ rs := fun hmem ↦ by simpa using hb _ hmem
  rcases List.append_eq_append_iff.mp hsplit with ⟨ts, hpre, hts⟩ | ⟨ts, hrs', hts⟩
  · obtain ⟨rfl, rfl, rfl⟩ : ts = [.flush] ∧ h = d.header.applied ∧ post = [.flush] := by
      rcases ts with _ | ⟨t, _ | ⟨t', _ | ⟨t'', ts⟩⟩⟩ <;> simp at hts
      obtain ⟨rfl, rfl, rfl⟩ := hts
      exact ⟨rfl, rfl, rfl⟩
    simp [hpre, landAll_append, Request.land, block_landAll, hw, blockWrites]
  · rcases ts with _ | ⟨t, ts⟩
    · simp at hts
    · simp only [List.cons_append, List.cons.injEq] at hts
      simp [hrs', ← hts.1] at hnot

/-- However often the replay is cut off, the run that completes leaves each block
as the last entry for it in the log, as one run would have left it; and whenever
the header is rewritten, all blocks are home. -/
theorem replay_resumes (hwf : WfLog d₀) (hcut : Relation.ReflTransGen Interrupted d₀ d) :
    let final := pstateApplyDiskLog .perfect (boot d)
    let once := pstateApplyDiskLog .perfect (boot d₀)
    final.1 = .ok () ∧ final.2.dev.disk.block = once.2.dev.disk.block ∧
      (∀ a, final.2.dev.disk.block a = (lastWrite d₀.pending a).getD (d₀.block a)) ∧
      final.2.dev.disk.header = { d₀.header with phLogBlocks := 0 } ∧
      ∀ pre h post, replayRequests d = pre ++ .writeHeader h :: post →
        h.phLogBlocks = 0 ∧ blockWrites post = [] ∧
          ∀ a, (d.landAll pre).block a = (lastWrite d₀.pending a).getD (d₀.block a) := by
  have hres := resumable_of_interrupted hwf hcut
  have hblock : ∀ {e : Disk α ρ}, WfLog e →
      (pstateApplyDiskLog .perfect (boot e)).2.dev.disk =
        { e with header := e.header.applied, block := overlay e.pending e.block } := by
    intro e he
    obtain ⟨rs, hb, hw, hrs, -, hdisk⟩ := boot_run he
    rw [hdisk, hrs, landAll_append, hb.landAll, hw]
    simp [Request.land]
  obtain ⟨_, -, -, -, hok, -⟩ := boot_run (hres.wf hwf)
  refine ⟨hok, ?_, fun a ↦ ?_, ?_, fun pre h post hsplit ↦ ?_⟩
  · rw [hblock hwf, hblock (hres.wf hwf)]
    exact hres.overlay_pending hwf
  · rw [hblock (hres.wf hwf), ← overlay_eq_lastWrite, ← hres.overlay_pending hwf]
  · rw [hblock (hres.wf hwf)]
    rcases hres.header with hd | hd <;> simp [hd, Header.applied]
  · obtain ⟨rfl, hpre, hpost⟩ := replayRequests_split (hres.wf hwf) hsplit
    refine ⟨rfl, hpost, fun a ↦ ?_⟩
    rw [hpre, ← overlay_eq_lastWrite, ← hres.overlay_pending hwf]

end HiStar.Pstate
