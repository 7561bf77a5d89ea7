import HiStar.Lib.LeastFirst
import Mathlib.Data.BitVec

namespace HiStar.Sched

open Lib Function

variable {ι : Type}

def stride1 : BitVec 64 := 1#64 <<< 32

def schedPassBelow (pass thresh : BitVec 64) : Bool := (pass - thresh).toInt < 0

def minPassStep (pass : ι → BitVec 64) : Option ι → ι → Option ι
  | none, t => some t
  | some m, t => if schedPassBelow (pass t) (pass m) then some t else some m

def minPassThread (pass : ι → BitVec 64) (threads : List ι) : Option ι :=
  threads.foldl (minPassStep pass) none

def schedStop (schedTickets : BitVec 32) (pass elapsed : BitVec 64) : BitVec 64 :=
  let tickets : BitVec 64 := if schedTickets = 0 then 1 else schedTickets.setWidth 64
  let thStride := stride1 / tickets
  pass + thStride * elapsed

variable [DecidableEq ι]

/-- An infinite run of a fixed list of runnable threads: each time `schedule` picks a
thread, which runs for a while until `sched_stop`. -/
structure Run (threads : List ι) (tickets : ι → BitVec 32) (E : Nat) where
  pass : ℕ → ι → BitVec 64
  cur : ℕ → ι
  elapsed : ℕ → BitVec 64
  picks : ∀ n, minPassThread (pass n) threads = some (cur n)
  elapsed_pos : ∀ n, 1 ≤ (elapsed n).toNat
  elapsed_le : ∀ n, (elapsed n).toNat ≤ E
  stops : ∀ n, pass (n + 1) = update (pass n) (cur n)
    (schedStop (tickets (cur n)) (pass n (cur n)) (elapsed n))

variable {threads : List ι} {tickets : ι → BitVec 32} {E : Nat}

variable {pass : ι → BitVec 64} {c : ι}

omit [DecidableEq ι] in
theorem minPassStep_mem {m : ι} {l : List ι}
    (h : l.foldl (minPassStep pass) (some m) = some c) : c ∈ m :: l := by
  induction l generalizing m with
  | nil =>
    cases h
    exact List.mem_cons_self
  | cons t l ih =>
    rw [List.foldl_cons, minPassStep] at h
    split at h
    · exact List.mem_cons_of_mem m (ih h)
    · rcases List.mem_cons.mp (ih h) with rfl | hc
      · exact List.mem_cons_self
      · exact List.mem_cons_of_mem m (List.mem_cons_of_mem t hc)

omit [DecidableEq ι] in
theorem minPassThread_mem (h : minPassThread pass threads = some c) : c ∈ threads := by
  cases threads with
  | nil => cases h
  | cons m l => exact minPassStep_mem h

omit [DecidableEq ι] in
theorem minPassStep_least {v : ι → ℤ} {m : ι} {l : List ι}
    (hv : ∀ i ∈ m :: l, ∀ j ∈ m :: l, schedPassBelow (pass i) (pass j) = decide (v i < v j)) :
    ∃ c ∈ m :: l, l.foldl (minPassStep pass) (some m) = some c ∧ ∀ i ∈ m :: l, v c ≤ v i := by
  induction l generalizing m with
  | nil => exact ⟨m, List.mem_cons_self, rfl, fun i hi ↦ by rw [List.mem_singleton.mp hi]⟩
  | cons t l ih =>
    have hmem : ∀ i, i ∈ t :: l → i ∈ m :: t :: l := fun i hi ↦ List.mem_cons_of_mem m hi
    have hmem' : ∀ i, i ∈ m :: l → i ∈ m :: t :: l := by
      intro i hi
      rcases List.mem_cons.mp hi with rfl | hi
      · exact List.mem_cons_self
      · exact hmem i (List.mem_cons_of_mem t hi)
    have hcmp := hv t (hmem t List.mem_cons_self) m List.mem_cons_self
    rw [List.foldl_cons, minPassStep, hcmp]
    by_cases hlt : v t < v m
    · rw [decide_eq_true hlt, if_pos rfl]
      obtain ⟨c, hc, hr, hle⟩ := ih fun i hi j hj ↦ hv i (hmem i hi) j (hmem j hj)
      refine ⟨c, hmem c hc, hr, fun i hi ↦ ?_⟩
      rcases List.mem_cons.mp hi with rfl | hi
      · exact (hle t List.mem_cons_self).trans hlt.le
      · exact hle i hi
    · rw [decide_eq_false hlt, if_neg Bool.false_ne_true]
      obtain ⟨c, hc, hr, hle⟩ := ih fun i hi j hj ↦ hv i (hmem' i hi) j (hmem' j hj)
      refine ⟨c, hmem' c hc, hr, fun i hi ↦ ?_⟩
      rcases List.mem_cons.mp hi with rfl | hi
      · exact hle i List.mem_cons_self
      rcases List.mem_cons.mp hi with rfl | hi
      · exact (hle m List.mem_cons_self).trans (not_lt.mp hlt)
      · exact hle i (List.mem_cons_of_mem m hi)

omit [DecidableEq ι] in
theorem minPassThread_least {v : ι → ℤ}
    (hv : ∀ i ∈ threads, ∀ j ∈ threads, schedPassBelow (pass i) (pass j) = decide (v i < v j))
    (h : minPassThread pass threads = some c) : ∀ i ∈ threads, v c ≤ v i := by
  cases threads with
  | nil => cases h
  | cons m l =>
    obtain ⟨c', -, hr, hle⟩ := minPassStep_least hv
    cases (show some c' = some c from hr.symm.trans h)
    exact hle

def charge (schedTickets : BitVec 32) (elapsed : BitVec 64) : Nat :=
  2 ^ 32 / schedTickets.toNat * elapsed.toNat

theorem charge_bounds {k : BitVec 32} {e : BitVec 64} (hk : 1 ≤ k.toNat) (hk' : k.toNat ≤ 2 ^ 20)
    (he : 1 ≤ e.toNat) (he' : e.toNat ≤ E) (hE : 2 ^ 32 * E < 2 ^ 61) :
    1 ≤ charge k e ∧ charge k e < 2 ^ 61 := by
  have hpos : 1 ≤ 2 ^ 32 / k.toNat := (Nat.one_le_div_iff (by omega)).mpr (by omega)
  have hle : 2 ^ 32 / k.toNat ≤ 2 ^ 32 := Nat.div_le_self _ _
  exact ⟨Nat.mul_pos hpos he, lt_of_le_of_lt (Nat.mul_le_mul hle he') hE⟩

theorem schedStop_eq {k : BitVec 32} {e p : BitVec 64} (hk : 1 ≤ k.toNat) :
    schedStop k p e = p + BitVec.ofInt 64 (charge k e) := by
  have h0 : k ≠ 0 := by
    rintro rfl
    exact absurd hk (by decide)
  have hs : stride1.toNat = 2 ^ 32 := by decide
  have hw : (k.setWidth 64).toNat = k.toNat := BitVec.toNat_setWidth_of_le (by decide)
  have hmul : stride1 / k.setWidth 64 * e = BitVec.ofInt 64 (charge k e) := by
    apply BitVec.eq_of_toNat_eq
    rw [BitVec.toNat_mul, BitVec.toNat_udiv, hs, hw, BitVec.ofInt_natCast, BitVec.toNat_ofNat]
    rfl
  unfold schedStop
  simp only [if_neg h0, hmul]

/-- The pass of each thread without the wrap-around, counted from the pass of the
thread that is picked first. -/
def Run.unwrapped (r : Run threads tickets E) : ℕ → ι → ℤ
  | 0, i => (r.pass 0 i - r.pass 0 (r.cur 0)).toInt
  | n + 1, i => if i = r.cur n then r.unwrapped n i + charge (tickets i) (r.elapsed n)
      else r.unwrapped n i

namespace Run

variable (r : Run threads tickets E)

theorem cur_mem (n : ℕ) : r.cur n ∈ threads := minPassThread_mem (r.picks n)

theorem pass_eq (htickets : ∀ i ∈ threads, 1 ≤ (tickets i).toNat) (n : ℕ) (i : ι) :
    r.pass n i = r.pass 0 (r.cur 0) + BitVec.ofInt 64 (r.unwrapped n i) := by
  induction n with
  | zero => rw [unwrapped, BitVec.ofInt_toInt, BitVec.add_comm, BitVec.sub_add_cancel]
  | succ n ih =>
    rw [r.stops n, unwrapped]
    by_cases hi : i = r.cur n
    · subst hi
      rw [update_self, if_pos rfl, schedStop_eq (htickets _ (r.cur_mem n)), ih, BitVec.ofInt_add,
        BitVec.add_assoc]
    · rw [update_of_ne hi, if_neg hi, ih]

theorem pass_sub (htickets : ∀ i ∈ threads, 1 ≤ (tickets i).toNat) {n : ℕ} {i j : ι}
    (h : |r.unwrapped n i - r.unwrapped n j| < 2 ^ 63) :
    (r.pass n i - r.pass n j).toInt = r.unwrapped n i - r.unwrapped n j := by
  have hsub : r.pass n i - r.pass n j = BitVec.ofInt 64 (r.unwrapped n i - r.unwrapped n j) := by
    rw [r.pass_eq htickets n i, r.pass_eq htickets n j, add_sub_add_left_eq_sub, sub_eq_iff_eq_add,
      ← BitVec.ofInt_add, sub_add_cancel]
  have hb := abs_lt.mp h
  rw [hsub, BitVec.toInt_ofInt]
  exact Int.bmod_eq_of_le (by omega) (by omega)

theorem below_eq (htickets : ∀ i ∈ threads, 1 ≤ (tickets i).toNat) {n : ℕ} {i j : ι}
    (h : |r.unwrapped n i - r.unwrapped n j| < 2 ^ 63) :
    schedPassBelow (r.pass n i) (r.pass n j) = decide (r.unwrapped n i < r.unwrapped n j) := by
  unfold schedPassBelow
  rw [r.pass_sub htickets h]
  exact decide_eq_decide.mpr sub_neg

end Run

/-- The conditions of the run: each thread has between 1 and `2 ^ 20` tickets, passes
start less than `2 ^ 61` apart, and no thread is charged `2 ^ 61` or more. -/
structure Run.Fits (r : Run threads tickets E) : Prop where
  tickets_pos : ∀ i ∈ threads, 1 ≤ (tickets i).toNat
  tickets_le : ∀ i ∈ threads, (tickets i).toNat ≤ 2 ^ 20
  quantum : 2 ^ 32 * E < 2 ^ 61
  start : ∀ i ∈ threads, ∀ j ∈ threads, |(r.pass 0 i - r.pass 0 j).toInt| < 2 ^ 61

namespace Run.Fits

variable {r : Run threads tickets E}

theorem spread_zero (h : r.Fits) : Spread threads.toFinset (2 ^ 61) (r.unwrapped 0) := by
  intro i hi j hj
  rw [List.mem_toFinset] at hi hj
  have hi' := abs_lt.mp (h.start i hi _ (r.cur_mem 0))
  have hj' := abs_lt.mp (h.start j hj _ (r.cur_mem 0))
  have hij := abs_lt.mp (h.start i hi j hj)
  have hlt : |r.unwrapped 0 i - r.unwrapped 0 j| < 2 ^ 63 := by
    rw [abs_lt]
    simp only [unwrapped]
    omega
  rw [← r.pass_sub h.tickets_pos hlt]
  exact hij.2

theorem abs_lt_of_spread {n : ℕ} (hs : Spread threads.toFinset (2 ^ 61) (r.unwrapped n)) {i j : ι}
    (hi : i ∈ threads) (hj : j ∈ threads) : |r.unwrapped n i - r.unwrapped n j| < 2 ^ 61 := by
  rw [← List.mem_toFinset] at hi hj
  have h1 := hs i hi j hj
  have h2 := hs j hj i hi
  rw [abs_lt]
  omega

theorem raise (h : r.Fits) {n : ℕ} (hs : Spread threads.toFinset (2 ^ 61) (r.unwrapped n)) :
    Raise threads.toFinset (2 ^ 61) (r.cur n) (r.unwrapped n) (r.unwrapped (n + 1)) := by
  have hcur := r.cur_mem n
  obtain ⟨hpos, hlt⟩ := charge_bounds (h.tickets_pos _ hcur) (h.tickets_le _ hcur)
    (r.elapsed_pos n) (r.elapsed_le n) h.quantum
  have hleast := minPassThread_least (fun i hi j hj ↦ r.below_eq h.tickets_pos
    ((abs_lt_of_spread hs hi hj).trans (by decide))) (r.picks n)
  refine ⟨List.mem_toFinset.mpr hcur, fun i hi ↦ hleast i (List.mem_toFinset.mp hi), ?_, ?_,
    fun i hi ↦ if_neg hi⟩
  · rw [unwrapped, if_pos rfl]
    omega
  · rw [unwrapped, if_pos rfl]
    omega

theorem spread (h : r.Fits) (n : ℕ) : Spread threads.toFinset (2 ^ 61) (r.unwrapped n) := by
  induction n with
  | zero => exact h.spread_zero
  | succ n ih => exact (h.raise ih).spread ih

end Run.Fits

/-- In every run `sched_pass_below` stays a strict weak order on the threads, whose
passes never get `2 ^ 63` or more apart, and each thread is picked infinitely often. -/
theorem stride_starvation_free (r : Run threads tickets E) (h : r.Fits) :
    (∀ n, IsStrictWeakOrder {i // i ∈ threads}
      fun i j ↦ schedPassBelow (r.pass n i) (r.pass n j) = true) ∧
    (∀ n, ∀ i ∈ threads, ∀ j ∈ threads, |r.unwrapped n i - r.unwrapped n j| < 2 ^ 63 ∧
      (r.pass n i - r.pass n j).toInt = r.unwrapped n i - r.unwrapped n j) ∧
    ∀ i ∈ threads, ∀ N, ∃ n, N ≤ n ∧ r.cur n = i := by
  have hlt : ∀ n, ∀ i ∈ threads, ∀ j ∈ threads, |r.unwrapped n i - r.unwrapped n j| < 2 ^ 63 :=
    fun n i hi j hj ↦ (Run.Fits.abs_lt_of_spread (h.spread n) hi hj).trans (by decide)
  have hbelow : ∀ n (i j : {i // i ∈ threads}), schedPassBelow (r.pass n i) (r.pass n j) = true ↔
      r.unwrapped n i < r.unwrapped n j := fun n i j ↦ by
    rw [r.below_eq h.tickets_pos (hlt n i i.2 j j.2), decide_eq_true_iff]
  refine ⟨fun n ↦ ?_, fun n i hi j hj ↦ ⟨hlt n i hi j hj, r.pass_sub h.tickets_pos (hlt n i hi j hj)⟩,
    fun i hi N ↦ ?_⟩
  · simp only [hbelow]
    exact
      { irrefl := fun i ↦ lt_irrefl _
        trans := fun i j k ↦ lt_trans
        incomp_trans := fun i j k hij hjk ↦ by omega }
  · have hraise : ∀ n, Raise _ _ (r.cur n) (r.unwrapped n) (r.unwrapped (n + 1)) :=
      fun n ↦ h.raise (h.spread n)
    exact raised_infinitely_often hraise (List.mem_toFinset.mpr hi) N

def twoPasses : ℕ → Bool → BitVec 64
  | 0 => fun b ↦ if b then -5 else 5
  | n + 1 =>
    let c := (minPassThread (twoPasses n) [true, false]).getD true
    update (twoPasses n) c (schedStop 1024 (twoPasses n c) 1)

theorem twoPasses_picks (n : ℕ) : minPassThread (twoPasses n) [true, false] =
    some ((minPassThread (twoPasses n) [true, false]).getD true) := by
  simp only [minPassThread, List.foldl_cons, List.foldl_nil, minPassStep]
  split <;> rfl

def twoThreads : Run [true, false] (fun _ ↦ 1024) 1 where
  pass := twoPasses
  cur n := (minPassThread (twoPasses n) [true, false]).getD true
  elapsed _ := 1
  picks := twoPasses_picks
  elapsed_pos _ := le_rfl
  elapsed_le _ := le_rfl
  stops _ := rfl

theorem two_threads_alternate : ∃ n, 100 ≤ n ∧ twoThreads.cur n = true :=
  (stride_starvation_free twoThreads ⟨by decide, by decide, by decide, by decide⟩).2.2 true
    (by decide) 100

end HiStar.Sched
