import ScheduleTest.Schedule
import Mathlib.Algebra.BigOperators.Group.List.Basic
import Mathlib.Tactic.Linarith

/-!
# What the scan for an anchor finds

Statements about `scanEnd` and `scanAnchor`: the anchor is a cut of the profile, the machines taken are free in every slice it
takes, and the slices it takes whole are shorter than the job while the slice it ends in is long enough.
-/

namespace ScheduleTest

/-- The slices an anchor takes, in order. -/
def Anchor.slices (a : Anchor) : List TimeSlice := a.covered ++ [a.last]

/-- The total length of some slices. -/
def totalLength (l : List TimeSlice) : ℚ := (l.map (·.length)).sum

@[simp] theorem totalLength_nil : totalLength [] = 0 := rfl

@[simp] theorem totalLength_cons (s : TimeSlice) (l : List TimeSlice) : totalLength (s :: l) = s.length + totalLength l := by
  simp [totalLength]

@[simp] theorem totalLength_append (l l' : List TimeSlice) : totalLength (l ++ l') = totalLength l + totalLength l' := by
  simp [totalLength]

/-- A fit that takes available machines, as many as requested and of some kind, and does not fail where more are available. -/
structure FitLaws (fit : IntervalSet → Option IntervalSet) (requested : ℕ) (Suited : IntervalSet → Prop) : Prop where
  sound : ∀ {available used}, fit available = some used → used ⊆ available ∧ used.card = requested ∧ Suited used
  mono : ∀ {m m' : IntervalSet}, m ⊆ m' → (fit m).isSome → (fit m').isSome

/-- The basic selector takes any machines. -/
theorem BasicResourceSelector.fitLaws (job : Job) :
    FitLaws (BasicResourceSelector.fit job) job.nbRequestedResources (fun _ => True) where
  sound := fun h => ⟨(fit_eq_some h).1, (fit_eq_some h).2, trivial⟩
  mono := fun hsub h => fit_isSome.2 ((fit_isSome.1 h).trans (Finset.card_le_card hsub))

/-- What `scanEnd` found: the slices it passed and the slice it stopped at, machines free in all of them, and the lengths that
made it stop there. -/
structure EndFound (fit : IntervalSet → Option IntervalSet) (requested : ℕ) (walltime : ℚ) (before covered : List TimeSlice)
    (machines : IntervalSet) (total : ℚ) (after : List TimeSlice) (a : Anchor) (mid : List TimeSlice)
    (free : IntervalSet) : Prop where
  shape : after = mid ++ a.last :: a.rest
  before : a.before = before
  covered : a.covered = covered ++ mid
  fits : fit free = some a.usedMachines
  subset : free ⊆ machines
  slices : ∀ s ∈ mid ++ [a.last], free ⊆ s.availableMachines ∧ (requested : ℤ) ≤ s.nbAvailableMachines
  enough : walltime ≤ total + totalLength mid + a.last.length
  short : (∀ m m' : IntervalSet, m ⊆ m' → (fit m).isSome → (fit m').isSome) → total < walltime →
    total + totalLength mid < walltime

/-- Passing one more slice before the scan found its end. -/
theorem EndFound.cons {fit : IntervalSet → Option IntervalSet} {requested : ℕ} {walltime : ℚ}
    {before covered : List TimeSlice} {machines : IntervalSet} {total : ℚ} {pit2 : TimeSlice} {rest mid : List TimeSlice}
    {a : Anchor} {free : IntervalSet} (hnb : (requested : ℤ) ≤ pit2.nbAvailableMachines)
    (hshort : (∀ m m' : IntervalSet, m ⊆ m' → (fit m).isSome → (fit m').isSome) → total + pit2.length < walltime)
    (h : EndFound fit requested walltime before (covered ++ [pit2]) (machines ∩ pit2.availableMachines)
      (total + pit2.length) rest a mid free) :
    EndFound fit requested walltime before covered machines total (pit2 :: rest) a (pit2 :: mid) free where
  shape := by rw [h.shape, List.cons_append]
  before := h.before
  covered := by rw [h.covered, List.append_assoc, List.singleton_append]
  fits := h.fits
  subset := h.subset.trans Finset.inter_subset_left
  slices := by
    intro s hs
    rcases List.mem_cons.1 hs with rfl | hs
    · exact ⟨h.subset.trans Finset.inter_subset_right, hnb⟩
    · exact h.slices s hs
  enough := by
    have := h.enough
    rw [totalLength_cons]
    linarith
  short := by
    intro hfit _
    have := h.short hfit (hshort hfit)
    rw [totalLength_cons]
    linarith

/-- The scan for the end of a job that finds one found it. -/
theorem scanEnd_found {fit : IntervalSet → Option IntervalSet} {requested : ℕ} {walltime : ℚ}
    {before covered : List TimeSlice} {machines : IntervalSet} {total : ℚ} {after : List TimeSlice} {a : Anchor}
    (h : scanEnd fit requested walltime before covered machines total after = some a) :
    ∃ mid free, EndFound fit requested walltime before covered machines total after a mid free := by
  induction after generalizing covered machines total with
  | nil => nomatch h
  | cons pit2 rest ih =>
    rw [scanEnd] at h
    split at h
    · rename_i hnb
      dsimp only at h
      split at h
      · nomatch h
      · split at h
        · rename_i hlen
          cases hused : fit (machines ∩ pit2.availableMachines) with
          | some used =>
            -- the job ends in this slice
            rw [hused] at h
            cases h
            refine ⟨[], machines ∩ pit2.availableMachines, ⟨rfl, rfl, by simp, hused, Finset.inter_subset_left, ?_, ?_, ?_⟩⟩
            · intro s hs
              rw [List.nil_append, List.mem_singleton] at hs
              exact hs ▸ ⟨Finset.inter_subset_right, hnb⟩
            · simpa using hlen
            · intro _ ht
              simpa using ht
          | none =>
            rw [hused] at h
            obtain ⟨mid, free, hf⟩ := ih h
            refine ⟨pit2 :: mid, free, hf.cons hnb ?_⟩
            -- the machines taken further on are among these, which therefore fit as well
            intro hfit
            have := hfit free _ hf.subset (by rw [hf.fits]; rfl)
            rw [hused] at this
            nomatch this
        · rename_i hlen
          obtain ⟨mid, free, hf⟩ := ih h
          exact ⟨pit2 :: mid, free, hf.cons hnb fun _ => not_le.1 hlen⟩
    · nomatch h

/-- The anchor a scan finds is a cut of the slices it looked at. -/
theorem scanAnchor_shape {machinesOf : TimeSlice → IntervalSet} {isAnchor : TimeSlice → Bool}
    {fit : IntervalSet → Option IntervalSet} {requested : ℕ} {walltimeFrom : TimeSlice → ℚ} {before after : List TimeSlice}
    {a : Anchor} (h : scanAnchor machinesOf isAnchor fit requested walltimeFrom before after = some a) :
    a.before.reverse ++ (a.covered ++ a.last :: a.rest) = before.reverse ++ after := by
  induction after generalizing before with
  | nil => nomatch h
  | cons pit rest ih =>
    rw [scanAnchor] at h
    split at h
    · rename_i a' hfound
      cases h
      split at hfound
      · split at hfound
        · obtain ⟨used, _, rfl⟩ := Option.map_eq_some_iff.1 hfound
          rfl
        · obtain ⟨mid, free, hf⟩ := scanEnd_found hfound
          rw [hf.before, hf.covered, hf.shape]
          simp
      · nomatch hfound
    · rw [ih h, List.reverse_cons, List.append_assoc, List.singleton_append]

/-- What the scan for a job found: machines that are free in every slice it takes, enough of them by each slice's count, and
slices just long enough. -/
structure AnchorFits (job : Job) (walltimeFrom : TimeSlice → ℚ) (a : Anchor) : Prop where
  used : ∀ s ∈ a.slices, a.usedMachines ⊆ s.availableMachines
  card : a.usedMachines.card = job.nbRequestedResources
  count : ∀ s ∈ a.slices, (job.nbRequestedResources : ℤ) ≤ s.nbAvailableMachines
  enough : walltimeFrom (a.covered.head?.getD a.last) ≤ totalLength a.slices
  short : a.covered ≠ [] → totalLength a.covered < walltimeFrom (a.covered.head?.getD a.last)

/-- The anchor found for a job fits it, on machines of the kind the selector takes. -/
theorem scanAnchor_suits {job : Job} {fit : IntervalSet → Option IntervalSet} {Suited : IntervalSet → Prop}
    (hfit : FitLaws fit job.nbRequestedResources Suited) {walltimeFrom : TimeSlice → ℚ} {before after : List TimeSlice} {a : Anchor}
    (h : scanAnchor (·.availableMachines) (fun pit => (job.nbRequestedResources : ℤ) ≤ pit.nbAvailableMachines)
      fit job.nbRequestedResources walltimeFrom before after = some a) :
    AnchorFits job walltimeFrom a ∧ Suited a.usedMachines := by
  induction after generalizing before with
  | nil => nomatch h
  | cons pit rest ih =>
    rw [scanAnchor] at h
    split at h
    · rename_i a' hfound
      cases h
      split at hfound
      · rename_i hnb
        have hnb : (job.nbRequestedResources : ℤ) ≤ pit.nbAvailableMachines := by simpa using hnb
        split at hfound
        · -- the job fits in the slice it begins with
          rename_i hlen
          obtain ⟨used, hused, rfl⟩ := Option.map_eq_some_iff.1 hfound
          obtain ⟨hsub, hcard, hsuited⟩ := hfit.sound hused
          refine ⟨⟨?_, hcard, ?_, by simpa [Anchor.slices] using hlen, fun hne => absurd rfl hne⟩, hsuited⟩
          · intro s hs
            rw [Anchor.slices, List.nil_append, List.mem_singleton] at hs
            exact hs ▸ hsub
          · intro s hs
            rw [Anchor.slices, List.nil_append, List.mem_singleton] at hs
            exact hs ▸ hnb
        · -- the job goes on after the slice it begins with
          rename_i hlen
          obtain ⟨mid, free, hf⟩ := scanEnd_found hfound
          obtain ⟨hsub, hcard, hsuited⟩ := hfit.sound hf.fits
          have hslices : a.slices = pit :: (mid ++ [a.last]) := by
            rw [Anchor.slices, hf.covered, List.append_assoc, List.singleton_append]
          have hhead : a.covered.head?.getD a.last = pit := by
            rw [hf.covered]
            rfl
          have hshort := hf.short (fun _ _ => hfit.mono) (not_le.1 hlen)
          refine ⟨⟨?_, hcard, ?_, ?_, fun _ => ?_⟩, hsuited⟩
          · intro s hs
            rw [hslices] at hs
            rcases List.mem_cons.1 hs with rfl | hs
            · exact hsub.trans hf.subset
            · exact hsub.trans (hf.slices s hs).1
          · intro s hs
            rw [hslices] at hs
            rcases List.mem_cons.1 hs with rfl | hs
            · exact hnb
            · exact (hf.slices s hs).2
          · have := hf.enough
            rw [hhead, hslices, totalLength_cons, totalLength_append, totalLength_cons, totalLength_nil]
            linarith
          · rw [hhead, hf.covered]
            simpa using hshort
      · nomatch hfound
    · exact ih h

/-- The anchor found for a job with the basic selector fits it. -/
theorem scanAnchor_fits {job : Job} {walltimeFrom : TimeSlice → ℚ} {before after : List TimeSlice} {a : Anchor}
    (h : scanAnchor (·.availableMachines) (fun pit => (job.nbRequestedResources : ℤ) ≤ pit.nbAvailableMachines)
      (BasicResourceSelector.fit job) job.nbRequestedResources walltimeFrom before after = some a) :
    AnchorFits job walltimeFrom a :=
  (scanAnchor_suits (BasicResourceSelector.fitLaws job) h).1

end ScheduleTest
