/-
ModeSchedule.Proofs.ReportOrder — the order in which a report lists candidates.

A report lists the candidates of a front by energy, and those of nearly the same energy by
time. The energies of a first and a second candidate may be close, and those of the second and a
third one, while the first has clearly used less than the third. If the times do not rise
meanwhile, then the second need not be behind the first nor the third behind the second, though
the third has to be behind the first. Such three are `Opposed`, and nothing else keeps a front
from being ranked (`ranking_iff_unopposed`).

What `listing_in_order` says of every result follows from what sorting makes of a relation that
need not rank the members: neighbours are in order, candidates further apart are in order where
no three from one to the other are opposed, and a front with opposed ones has an arrangement
that is not listed in order. If their times fall, the three form a circle, and no listing of
them is in order.
-/
import ModeSchedule.Proofs.Disorder
import ModeSchedule.Proofs.Tolerance
import ModeSchedule.Report.Comparison
import ModeSchedule.Tapping.State

namespace ModeSchedule

namespace Usage

variable {u v w : Usage Rat}

/-- The energy rises from the first to the last, clearly, but not clearly from either to the one
in the middle, while the time does not rise. -/
structure Opposed (u v w : Usage Rat) : Prop where
  near : close u.energy v.energy = true ∧ close v.energy w.energy = true
  apart : close u.energy w.energy = false
  energy : u.energy < w.energy
  time : w.time ≤ v.time ∧ v.time ≤ u.time

instance (u v w : Usage Rat) : Decidable (Opposed u v w) :=
  decidable_of_iff ((close u.energy v.energy = true ∧ close v.energy w.energy = true) ∧
      close u.energy w.energy = false ∧ u.energy < w.energy ∧ w.time ≤ v.time ∧ v.time ≤ u.time)
    ⟨fun ⟨near, apart, energy, time⟩ => ⟨near, apart, energy, time⟩,
      fun h => ⟨h.near, h.apart, h.energy, h.time⟩⟩

theorem Opposed.less (h : Opposed u v w) : nearlyLess u w = true :=
  nearlyLess_iff.mpr (Or.inr ⟨h.apart, h.energy⟩)

theorem Opposed.not_less_left (h : Opposed u v w) : nearlyLess u v = false :=
  nearlyLess_eq_false_iff.mpr (Or.inl ⟨h.near.1, h.time.2⟩)

theorem Opposed.not_less_right (h : Opposed u v w) : nearlyLess v w = false :=
  nearlyLess_eq_false_iff.mpr (Or.inl ⟨h.near.2, h.time.1⟩)

/-- If a usage is less than another one, and a third one is neither more than that nor less than
this, then the three are opposed in one order or another. -/
theorem exists_opposed (huw : nearlyLess u w = true) (huv : nearlyLess u v = false)
    (hvw : nearlyLess v w = false) : Opposed u v w ∨ Opposed w u v ∨ Opposed v w u := by
  have hnot : ∀ {a b : Rat}, close a b = false → ¬close a b = true := by simp
  rw [nearlyLess_iff] at huw
  rw [nearlyLess_eq_false_iff] at huv hvw
  rcases huw with ⟨huw, hrises⟩ | ⟨huw, hrises⟩
  · rcases huv with ⟨huv, hleft⟩ | ⟨huv, hleft⟩ <;> rcases hvw with ⟨hvw, hright⟩ | ⟨hvw, hright⟩
    · exact absurd (hright.trans hleft) hrises.not_ge
    · have hwv := lt_of_le_of_apart hright (apart_symm hvw)
      exact Or.inr (Or.inl ⟨⟨close_symm huw, huv⟩, apart_symm hvw, hwv, hleft, hrises.le⟩)
    · have hvu := lt_of_le_of_apart hleft (apart_symm huv)
      exact Or.inr (Or.inr ⟨⟨hvw, close_symm huw⟩, apart_symm huv, hvu, hrises.le, hright⟩)
    · -- The energies fall, so the one in the middle is close to both ends.
      exact absurd (close_of_between hright hleft (close_symm huw)).1 (hnot (apart_symm hvw))
  · rcases huv with ⟨huv, hleft⟩ | ⟨huv, hleft⟩ <;> rcases hvw with ⟨hvw, hright⟩ | ⟨hvw, hright⟩
    · exact Or.inl ⟨⟨huv, hvw⟩, huw, hrises, hright, hleft⟩
    · exact absurd (close_of_between hrises.le hright huv).1 (hnot huw)
    · exact absurd (close_of_between hleft hrises.le hvw).2 (hnot huw)
    · exact absurd (hright.trans hleft) hrises.not_ge

end Usage

/-! ## Listings -/

namespace Listing

open Insertion

variable {S : Type} {xs : List (Solution Rat S (Usage Rat))}

/-- The report's order: by energy, and by time where the energies are close. -/
def before (a b : Solution Rat S (Usage Rat)) : Bool := Usage.nearlyLess a.resources b.resources

theorem before_asymm (a b : Solution Rat S (Usage Rat)) (h : before a b = true) :
    before b a = false :=
  Usage.nearlyLess_asymm h

theorem before_oneWay (xs : List (Solution Rat S (Usage Rat))) : OneWay before xs :=
  fun a _ b _ => before_asymm a b

/-- No three of the candidates are opposed. -/
def Unopposed (xs : List (Solution Rat S (Usage Rat))) : Prop :=
  ∀ a ∈ xs, ∀ b ∈ xs, ∀ c ∈ xs, ¬Usage.Opposed a.resources b.resources c.resources

instance (xs : List (Solution Rat S (Usage Rat))) : Decidable (Unopposed xs) :=
  inferInstanceAs (Decidable (∀ a ∈ xs, ∀ b ∈ xs, ∀ c ∈ xs, ¬Usage.Opposed _ _ _))

/-- The report's order ranks the candidates unless three are opposed. -/
theorem ranking_iff_unopposed : Ranking before xs ↔ Unopposed xs := by
  constructor
  · intro h a ha b hb c hc hopposed
    rcases h.between a ha b hb c hc hopposed.less with hab | hbc
    · exact Bool.false_ne_true (hopposed.not_less_left.symm.trans hab)
    · exact Bool.false_ne_true (hopposed.not_less_right.symm.trans hbc)
  · intro h
    refine ⟨before_oneWay xs, fun a ha b hb c hc hac => ?_⟩
    by_contra hnot
    obtain ⟨hab, hbc⟩ : before a b = false ∧ before b c = false := by simpa using hnot
    rcases Usage.exists_opposed hac hab hbc with habc | hcab | hbca
    · exact h a ha b hb c hc habc
    · exact h c hc a ha b hb hcab
    · exact h b hb c hc a ha hbca

/-- What sorting makes of a front. -/
structure Lists (f g : Front Rat S (Usage Rat)) : Prop where
  /-- The candidates are the same, and so is all else. -/
  front : g = { f with solutions := g.solutions }
  perm : g.solutions.Perm f.solutions
  /-- No candidate is listed right behind one that it comes before. -/
  stepwise : Stepwise before g.solutions
  /-- Where no three are opposed, candidates are listed in order. -/
  ordered : ∀ part, part <:+: g.solutions → Unopposed part → Sorted before part
  /-- If no three are opposed, any other stable sort lists them in the same way. -/
  anySort : Unopposed f.solutions → ∀ arrange, IsStableSort before arrange →
    arrange f.solutions = g.solutions

theorem lists_sorted (f : Front Rat S (Usage Rat)) :
    Lists f { f with solutions := sort before f.solutions } where
  front := rfl
  perm := sort_perm before f.solutions
  stepwise := sort_stepwise (before_oneWay f.solutions)
  ordered _ hpart hunopposed :=
    sorted_of_stepwise (ranking_iff_unopposed.mpr hunopposed)
      (stepwise_part (sort_stepwise (before_oneWay f.solutions)) hpart)
  anySort hunopposed _ harrange := harrange.eq_sort (ranking_iff_unopposed.mpr hunopposed)

theorem sorted_eq (o : Outcome Rat S (Usage Rat)) :
    o.sorted = o.map fun f => { f with solutions := sort before f.solutions } := rfl

/-- To sort a result again changes nothing. -/
theorem sorted_sorted (o : Outcome Rat S (Usage Rat)) : o.sorted.sorted = o.sorted := by
  rw [sorted_eq, sorted_eq, List.map_map]
  refine List.map_congr_left fun f _ => ?_
  simp only [Function.comp_apply, sort_sort before_asymm]

end Listing

/-- **A report lists candidates in order, as far as there is one.** For every result:

* Each front is listed whole. No candidate stands right behind one that it comes before, and of
  two candidates further apart the second does not come before the first, unless three of those
  from one to the other are opposed: their energies rise by less than the tolerance from each to
  the next, but clearly from the first to the last, while their times do not rise.
* To sort the result again changes nothing.
* A front is listed in order, however it is arranged beforehand, exactly if no three of its
  candidates are opposed. -/
theorem listing_in_order {S : Type} (o : Outcome Rat S (Usage Rat)) :
    List.Forall₂ Listing.Lists o o.sorted ∧ o.sorted.sorted = o.sorted ∧
    ∀ f : Front Rat S (Usage Rat),
      (∀ ys, ys.Perm f.solutions → ∀ g ∈ Outcome.sorted [{ f with solutions := ys }],
        Insertion.Sorted Listing.before g.solutions) ↔ Listing.Unopposed f.solutions := by
  refine ⟨?_, Listing.sorted_sorted o, fun f => ?_⟩
  · rw [Listing.sorted_eq, List.forall₂_map_right_iff]
    exact List.forall₂_same.mpr fun f _ => Listing.lists_sorted f
  · rw [← Listing.ranking_iff_unopposed,
      ← Insertion.sort_sorted_iff_ranking Listing.before_asymm]
    refine forall₂_congr fun ys _ => ?_
    rw [Listing.sorted_eq, List.map_singleton, List.forall_mem_singleton]

namespace Listing

/-- A candidate of one step of a mode that has used a given energy and time. -/
def candidate (mode : Nat) (energy time : Rat) : Solution Rat (Tapping.State Rat) (Usage Rat) :=
  { schedule := [⟨mode, 1⟩], state := .vector [0, 0, 2], resources := ⟨energy, time⟩
    distance := some 0 }

/-- A front of some candidates. -/
def frontOf (xs : List (Solution Rat (Tapping.State Rat) (Usage Rat))) :
    Front Rat (Tapping.State Rat) (Usage Rat) :=
  { solutions := xs, stepLength := 1, runtime := 0 }

/-- Energies that are close from the smallest to the one in the middle and from that to the
largest, but not from the smallest to the largest. Most time is used with the one in the middle. -/
def unopposedSample : List (Solution Rat (Tapping.State Rat) (Usage Rat)) :=
  [candidate 1 (1 + 9 / 10 ^ 10) 4, candidate 2 (1 + 18 / 10 ^ 10) 2, candidate 0 1 3]

/-- The same energies from the largest to the smallest. The less energy, the more time is used, if
the given time is the most. -/
def opposedSample (time : Rat) : List (Solution Rat (Tapping.State Rat) (Usage Rat)) :=
  [candidate 2 (1 + 18 / 10 ^ 10) 1, candidate 1 (1 + 9 / 10 ^ 10) 2, candidate 0 1 time]

end Listing

/-- The candidate with the energy in the middle is listed last, for its time. -/
theorem listing_in_order_sample :
    Listing.Unopposed Listing.unopposedSample ∧ ∃ g,
      Outcome.sorted [Listing.frontOf Listing.unopposedSample] = [g] ∧
      g.solutions = [Listing.candidate 0 1 3, Listing.candidate 2 (1 + 18 / 10 ^ 10) 2,
        Listing.candidate 1 (1 + 9 / 10 ^ 10) 4] ∧
      Insertion.Sorted Listing.before g.solutions ∧
      ∀ arrange, Insertion.IsStableSort Listing.before arrange →
        arrange Listing.unopposedSample = g.solutions := by
  have hunopposed : Listing.Unopposed Listing.unopposedSample := by decide +kernel
  obtain ⟨hlists, -, hall⟩ := listing_in_order [Listing.frontOf Listing.unopposedSample]
  have hsorted : Outcome.sorted [Listing.frontOf Listing.unopposedSample] =
      [Listing.frontOf [Listing.candidate 0 1 3, Listing.candidate 2 (1 + 18 / 10 ^ 10) 2,
        Listing.candidate 1 (1 + 9 / 10 ^ 10) 4]] := by
    cbv
  refine ⟨hunopposed, _, hsorted, rfl, ?_, ?_⟩
  · refine (hall (Listing.frontOf Listing.unopposedSample)).mpr hunopposed _ (.refl _) _ ?_
    show _ ∈ Outcome.sorted [Listing.frontOf Listing.unopposedSample]
    rw [hsorted]
    exact List.mem_singleton.mpr rfl
  · rw [hsorted] at hlists
    exact (List.forall₂_cons.mp hlists).1.anySort hunopposed

/-- Not every front is listed in order: with opposed candidates one may be listed behind another
one that it comes before. Where the times of such candidates fall, there is no order to list
them in. -/
theorem listing_out_of_order :
    (¬∀ o : Outcome Rat (Tapping.State Rat) (Usage Rat), ∀ g ∈ o.sorted,
      Insertion.Sorted Listing.before g.solutions) ∧
    ∀ ys, ys.Perm (Listing.opposedSample 3) → ¬Insertion.Sorted Listing.before ys := by
  constructor
  · intro hall
    have hstepwise : Insertion.Stepwise Listing.before (Listing.opposedSample 2) := by
      decide +kernel
    have hsorted : Outcome.sorted [Listing.frontOf (Listing.opposedSample 2)] =
        [Listing.frontOf (Listing.opposedSample 2)] := by
      rw [Listing.sorted_eq, List.map_singleton, Listing.frontOf,
        Insertion.sort_of_stepwise hstepwise]
    have hordered : Insertion.Sorted Listing.before (Listing.opposedSample 2) :=
      hall [Listing.frontOf (Listing.opposedSample 2)] (Listing.frontOf (Listing.opposedSample 2))
        (by rw [hsorted]; exact List.mem_singleton.mpr rfl)
    have hnot : ¬Insertion.Sorted Listing.before (Listing.opposedSample 2) := by decide +kernel
    exact hnot hordered
  · intro ys hys
    have hmem : ∀ s ∈ Listing.opposedSample 3, s ∈ ys := fun s => hys.mem_iff.mpr
    have hac : Listing.before (Listing.candidate 0 1 3)
        (Listing.candidate 2 (1 + 18 / 10 ^ 10) 1) = true := by
      decide +kernel
    have hcb : Listing.before (Listing.candidate 2 (1 + 18 / 10 ^ 10) 1)
        (Listing.candidate 1 (1 + 9 / 10 ^ 10) 2) = true := by
      decide +kernel
    have hba : Listing.before (Listing.candidate 1 (1 + 9 / 10 ^ 10) 2)
        (Listing.candidate 0 1 3) = true := by
      decide +kernel
    exact Insertion.not_sorted_of_circle Listing.before_asymm
      (hmem _ (by simp [Listing.opposedSample])) (hmem _ (by simp [Listing.opposedSample]))
      (hmem _ (by simp [Listing.opposedSample])) hac hcb hba

end ModeSchedule
