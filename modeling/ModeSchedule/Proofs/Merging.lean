/-
ModeSchedule.Proofs.Merging — what a merge compares.

A merge need not compare all the members that end up next to each other: a gallop takes a
whole block after comparing its ends. But wherever the outcome goes over from one run to the
other, the two members there were compared. `Interwoven` says just this, and everything that is
known of sorting follows from it. Insertion is the case of a run with one member
(`insert_interwoven`), and both directions of a merge meet it (`merge_interwoven`).

Nothing is asked of the relation to sort by, and nothing of the pace of the merge: when it
gallops does not matter here.
-/
import Mathlib
import ModeSchedule.Order.Merging

namespace ModeSchedule.Insertion

variable {α : Type}

/-! ## Searching a run -/

/-- A run is divided where the last member in front is not beyond and the first one behind
is. -/
def Divides (beyond : α → Bool) (front back : List α) : Prop :=
  (∀ y ∈ front.getLast?, beyond y = false) ∧ ∀ y ∈ back.head?, beyond y = true

theorem divides_of_getElem {beyond : α → Bool} {run : List α} {position : Nat}
    (hle : position ≤ run.length)
    (hbelow : 0 < position → ∀ y ∈ run[position - 1]?, beyond y = false)
    (habove : ∀ y ∈ run[position]?, beyond y = true) :
    Divides beyond (run.take position) (run.drop position) := by
  constructor
  · intro y hy
    rcases Nat.eq_zero_or_pos position with rfl | hpos
    · simp at hy
    · rw [List.getLast?_eq_getElem?, List.length_take_of_le hle,
        List.getElem?_take_of_lt (by omega)] at hy
      exact hbelow hpos y hy
  · intro y hy
    rw [List.head?_drop] at hy
    exact habove y hy

/-- Where a binary search ends: the argument was compared with the member below, and does not come
before it, and with the member there, and comes before that, unless these were out of question. -/
theorem slot_between (before : α → α → Bool) (x : α) (run : List α) (low high : Nat)
    (hhigh : high ≤ run.length) (hle : low ≤ high) :
    (low ≤ slot before x run low high ∧ slot before x run low high ≤ high) ∧
      (low < slot before x run low high →
        ∀ y ∈ run[slot before x run low high - 1]?, before x y = false) ∧
      (slot before x run low high < high →
        ∀ y ∈ run[slot before x run low high]?, before x y = true) := by
  induction low, high using slot.induct before x run with
  | case1 low high hlt middle y hy hxy ih =>
    have hstep : slot before x run low high = slot before x run low middle := by
      rw [slot, dif_pos hlt]
      simp [middle, hy, hxy]
    have hmiddle : low ≤ middle ∧ middle < high := by omega
    obtain ⟨hrange, hbelow, habove⟩ := ih (by omega) hmiddle.1
    rw [hstep]
    refine ⟨⟨hrange.1, by omega⟩, hbelow, fun _ => ?_⟩
    rcases Nat.lt_or_eq_of_le hrange.2 with hlower | hend
    · exact habove hlower
    · intro z hz
      rw [hend, Option.mem_def, hy] at hz
      rwa [← Option.some.inj hz]
  | case2 low high hlt middle y hy hxy ih =>
    have hstep : slot before x run low high = slot before x run (middle + 1) high := by
      rw [slot, dif_pos hlt]
      simp [middle, hy, hxy]
    have hmiddle : low ≤ middle ∧ middle < high := by omega
    obtain ⟨hrange, hbelow, habove⟩ := ih hhigh (by omega)
    rw [hstep]
    refine ⟨⟨by omega, hrange.2⟩, fun _ => ?_, habove⟩
    rcases Nat.lt_or_eq_of_le hrange.1 with hhigher | hend
    · exact hbelow hhigher
    · intro z hz
      rw [← hend, Nat.add_sub_cancel, Option.mem_def, hy] at hz
      rwa [← Option.some.inj hz, ← Bool.not_eq_true]
  | case3 low high hlt middle hnone =>
    have := List.getElem?_eq_none_iff.mp hnone
    omega
  | case4 low high hlt =>
    obtain rfl : low = high := by omega
    rw [slot, dif_neg hlt]
    exact ⟨⟨le_rfl, le_rfl⟩, fun h => absurd h hlt, fun h => absurd h hlt⟩

/-- Growing distances end with one that holds, and with one beyond it that does not, or with
the limit. -/
theorem probe_between (holds : Nat → Bool) (limit near far : Nat) (hnear : holds near = true)
    (hlt : near < far) (hlimit : near < limit) :
    (probe holds limit near far).1 < (probe holds limit near far).2 ∧
      (probe holds limit near far).2 ≤ limit ∧
      holds (probe holds limit near far).1 = true ∧
      ((probe holds limit near far).2 < limit → holds (probe holds limit near far).2 = false) := by
  induction near, far using probe.induct holds limit with
  | case1 near far hfar hholds ih =>
    rw [probe, if_pos hfar, if_pos hholds]
    exact ih hholds (by omega) hfar
  | case2 near far hfar hholds =>
    rw [probe, if_pos hfar, if_neg hholds]
    exact ⟨hlt, hfar.le, hnear, fun _ => (Bool.not_eq_true _).mp hholds⟩
  | case3 near far hfar =>
    rw [probe, if_neg hfar]
    exact ⟨hlimit, le_rfl, hnear, fun h => absurd h (lt_irrefl limit)⟩

/-- A gallop ends between a member that is not beyond the argument and one that is. -/
theorem gallop_between (beyond : α → α → Bool) (x : α) {run : List α} {hint : Nat}
    (hhint : hint < run.length) :
    gallop beyond x run hint ≤ run.length ∧
      (0 < gallop beyond x run hint →
        ∀ y ∈ run[gallop beyond x run hint - 1]?, beyond x y = false) ∧
      ∀ y ∈ run[gallop beyond x run hint]?, beyond x y = true := by
  unfold gallop
  split
  · next hbeyond =>
    -- To the left of the hint: `far` is in front of the argument, `near` is behind it.
    obtain ⟨hlt, hle, hnear, hfar⟩ := probe_between (fun d => run[hint - d]?.any (beyond x))
      (hint + 1) 0 1 hbeyond Nat.one_pos (by omega)
    generalize probe (fun d => run[hint - d]?.any (beyond x)) (hint + 1) 0 1 = ends
      at hlt hle hnear hfar ⊢
    obtain ⟨near, far⟩ := ends
    dsimp only at hlt hle hnear hfar ⊢
    obtain ⟨hrange, hbelow, habove⟩ := slot_between beyond x run (hint + 1 - far) (hint - near)
      (by omega) (by omega)
    generalize slot beyond x run (hint + 1 - far) (hint - near) = position at hrange hbelow habove ⊢
    refine ⟨by omega, fun hpos => ?_, ?_⟩
    · rcases Nat.lt_or_eq_of_le hrange.1 with hlow | hlow
      · exact hbelow hlow
      · have hnot := hfar (by omega)
        intro y hy
        rw [← hlow, show hint + 1 - far - 1 = hint - far by omega] at hy
        rw [Option.mem_def.mp hy] at hnot
        exact hnot
    · rcases Nat.lt_or_eq_of_le hrange.2 with hhigh | rfl
      · exact habove hhigh
      · intro y hy
        rw [Option.mem_def.mp hy] at hnear
        exact hnear
  · next hbeyond =>
    -- To the right of it: `near` is in front of the argument, `far` is behind it.
    obtain ⟨hlt, hle, hnear, hfar⟩ := probe_between (fun d => !run[hint + d]?.any (beyond x))
      (run.length - hint) 0 1 (by simpa using hbeyond) Nat.one_pos (by omega)
    generalize probe (fun d => !run[hint + d]?.any (beyond x)) (run.length - hint) 0 1 = ends
      at hlt hle hnear hfar ⊢
    obtain ⟨near, far⟩ := ends
    dsimp only at hlt hle hnear hfar ⊢
    obtain ⟨hrange, hbelow, habove⟩ := slot_between beyond x run (hint + near + 1) (hint + far)
      (by omega) (by omega)
    generalize slot beyond x run (hint + near + 1) (hint + far) = position at hrange hbelow habove ⊢
    refine ⟨by omega, fun hpos => ?_, ?_⟩
    · rcases Nat.lt_or_eq_of_le hrange.1 with hlow | hlow
      · exact hbelow hlow
      · intro y hy
        rw [← hlow, Nat.add_sub_cancel] at hy
        rw [Option.mem_def.mp hy] at hnear
        simpa using hnear
    · rcases Nat.lt_or_eq_of_le hrange.2 with hhigh | rfl
      · exact habove hhigh
      · intro y hy
        have hfar := hfar (by have := (List.getElem?_eq_some_iff.mp hy).1; omega)
        rw [Option.mem_def.mp hy] at hfar
        simpa using hfar

theorem gallop_divides (beyond : α → α → Bool) (x : α) {run : List α} {hint : Nat}
    (hhint : hint < run.length) :
    Divides (beyond x) (run.take (gallop beyond x run hint))
      (run.drop (gallop beyond x run hint)) := by
  obtain ⟨hle, hbelow, habove⟩ := gallop_between beyond x hhint
  exact divides_of_getElem hle hbelow habove

/-! ## Two runs in one list -/

/-- Two neighbours of an outcome, each with the run it comes from: where they come from different
runs, they were compared. -/
def Crossing (second : α → α → Bool) : α ⊕ α → α ⊕ α → Prop
  | .inl x, .inr y => second x y = false
  | .inr y, .inl x => second x y = true
  | _, _ => True

/-- Members of two runs, in the order in which they were taken from them. -/
structure Woven (second : α → α → Bool) (xs ys : List α) (ts : List (α ⊕ α)) : Prop where
  firsts : ts.filterMap Sum.getLeft? = xs
  seconds : ts.filterMap Sum.getRight? = ys
  crossing : ts.IsChain (Crossing second)

/-- The member itself, whichever run it comes from. -/
abbrev taken : α ⊕ α → α := Sum.elim id id

/-- A list is made of two runs, and wherever it goes over from one to the other, `second` says that
it has to: whether a member of the second run goes before one of the first. -/
def Interwoven (second : α → α → Bool) (xs ys out : List α) : Prop :=
  ∃ ts, Woven second xs ys ts ∧ ts.map taken = out

section

variable {second : α → α → Bool} {xs ys out : List α} {ts : List (α ⊕ α)}

theorem Woven.head (h : Woven second xs ys ts) {t : α ⊕ α} (ht : t ∈ ts.head?) :
    (∃ x ∈ xs.head?, t = .inl x) ∨ ∃ y ∈ ys.head?, t = .inr y := by
  obtain ⟨rfl, rfl, -⟩ := h
  obtain ⟨rest, rfl⟩ := List.head?_eq_some_iff.mp ht
  cases t with
  | inl x => exact Or.inl ⟨x, by simp, rfl⟩
  | inr y => exact Or.inr ⟨y, by simp, rfl⟩

theorem Woven.of_inl {x : α} (h : Woven second xs ys (.inl x :: ts)) :
    ∃ rest, xs = x :: rest ∧ Woven second rest ys ts :=
  ⟨_, h.firsts.symm, rfl, h.seconds, h.crossing.tail⟩

theorem Woven.of_inr {y : α} (h : Woven second xs ys (.inr y :: ts)) :
    ∃ rest, ys = y :: rest ∧ Woven second xs rest ts :=
  ⟨_, h.seconds.symm, h.firsts, rfl, h.crossing.tail⟩

theorem Woven.append {xs' ys' : List α} {ts' : List (α ⊕ α)} (h : Woven second xs ys ts)
    (h' : Woven second xs' ys' ts')
    (hjoin : ∀ s ∈ ts.getLast?, ∀ t ∈ ts'.head?, Crossing second s t) :
    Woven second (xs ++ xs') (ys ++ ys') (ts ++ ts') where
  firsts := by rw [List.filterMap_append, h.firsts, h'.firsts]
  seconds := by rw [List.filterMap_append, h.seconds, h'.seconds]
  crossing := List.isChain_append.mpr ⟨h.crossing, h'.crossing, hjoin⟩

/-- From the other end the runs change places. -/
theorem Woven.reverse (h : Woven second xs ys ts) :
    Woven (fun y x => second x y) ys.reverse xs.reverse (ts.map Sum.swap).reverse where
  firsts := by
    rw [← h.seconds, List.filterMap_reverse, List.filterMap_map]
    congr 2
    funext t
    cases t <;> rfl
  seconds := by
    rw [← h.firsts, List.filterMap_reverse, List.filterMap_map]
    congr 2
    funext t
    cases t <;> rfl
  crossing := by
    rw [List.isChain_reverse, List.isChain_map]
    refine h.crossing.imp fun s t hst => ?_
    cases s <;> cases t <;> exact hst

theorem Interwoven.reverse (h : Interwoven second xs ys out) :
    Interwoven (fun y x => second x y) ys.reverse xs.reverse out.reverse := by
  obtain ⟨ts, hts, rfl⟩ := h
  refine ⟨_, hts.reverse, ?_⟩
  rw [List.map_reverse, List.map_map]
  congr 2
  funext t
  cases t <;> rfl

/-- One run alone. -/
theorem woven_first (second : α → α → Bool) (xs : List α) : Woven second xs [] (xs.map .inl) where
  firsts := by simp [List.filterMap_map, Function.comp_def]
  seconds := by simp [List.filterMap_map, Function.comp_def]
  crossing := List.isChain_map Sum.inl |>.mpr (List.pairwise_of_forall fun _ _ => trivial).isChain

theorem woven_second (second : α → α → Bool) (ys : List α) :
    Woven second [] ys (ys.map .inr) where
  firsts := by simp [List.filterMap_map, Function.comp_def]
  seconds := by simp [List.filterMap_map, Function.comp_def]
  crossing := List.isChain_map Sum.inr |>.mpr (List.pairwise_of_forall fun _ _ => trivial).isChain

/-- Put a block of the first run in front. -/
theorem Interwoven.lead_first (h : Interwoven second xs ys out) (block : List α)
    (hblock : ∀ x ∈ block.getLast?, ∀ y ∈ ys.head?, second x y = false) :
    Interwoven second (block ++ xs) ys (block ++ out) := by
  obtain ⟨ts, hts, rfl⟩ := h
  have hjoin : ∀ s ∈ (block.map Sum.inl).getLast?, ∀ t ∈ ts.head?, Crossing second s t := by
    intro s hs t ht
    rw [List.getLast?_map] at hs
    obtain ⟨x, hx, rfl⟩ := Option.map_eq_some_iff.mp hs
    rcases hts.head ht with ⟨x', -, rfl⟩ | ⟨y, hy, rfl⟩
    · trivial
    · exact hblock x hx y hy
  exact ⟨_, (woven_first second block).append hts hjoin, by simp⟩

/-- Put a block of the second run in front. -/
theorem Interwoven.lead_second (h : Interwoven second xs ys out) (block : List α)
    (hblock : ∀ y ∈ block.getLast?, ∀ x ∈ xs.head?, second x y = true) :
    Interwoven second xs (block ++ ys) (block ++ out) := by
  obtain ⟨ts, hts, rfl⟩ := h
  have hjoin : ∀ s ∈ (block.map Sum.inr).getLast?, ∀ t ∈ ts.head?, Crossing second s t := by
    intro s hs t ht
    rw [List.getLast?_map] at hs
    obtain ⟨y, hy, rfl⟩ := Option.map_eq_some_iff.mp hs
    rcases hts.head ht with ⟨x, hx, rfl⟩ | ⟨y', -, rfl⟩
    · exact hblock y hy x hx
    · trivial
  exact ⟨_, (woven_second second block).append hts hjoin, by simp⟩

theorem interwoven_first (second : α → α → Bool) (xs : List α) : Interwoven second xs [] xs :=
  ⟨_, woven_first second xs, by simp⟩

theorem interwoven_second (second : α → α → Bool) (ys : List α) : Interwoven second [] ys ys :=
  ⟨_, woven_second second ys, by simp⟩

/-- Put a block of the second run behind. -/
theorem Interwoven.trail_second (h : Interwoven second xs ys out) (block : List α)
    (hblock : ∀ y ∈ block.head?, ∀ x ∈ xs.getLast?, second x y = false) :
    Interwoven second xs (ys ++ block) (out ++ block) := by
  have hlead := h.reverse.lead_first block.reverse (by simpa using hblock)
  simpa using hlead.reverse

end

/-! ## The procedure -/

/-- How far a gallop goes: where the run is divided by the member of the other one. -/
structure Taking.Lawful (t : Taking α) : Prop where
  ofFirst : ∀ y xs, xs ≠ [] →
    Divides (fun x => t.second x y) (xs.take (t.ofFirst y xs)) (xs.drop (t.ofFirst y xs))
  ofSecond : ∀ x ys, ys ≠ [] →
    Divides (fun y => !t.second x y) (ys.take (t.ofSecond x ys)) (ys.drop (t.ofSecond x ys))

theorem mem_getLast?_of_drop {xs : List α} {n : Nat} {x : α} (hx : x ∈ (xs.drop n).getLast?) :
    x ∈ xs.getLast? := by
  rw [List.getLast?_drop] at hx
  split at hx
  · cases hx
  · exact hx

/-- Whatever its pace, the procedure goes over from one run to the other where it compared
the two members, provided that the last member of the first run goes behind the second. -/
theorem weave_interwoven {t : Taking α} (ht : t.Lawful) (threshold : Nat) (pace : Pace)
    (xs ys : List α) (hlast : ∀ x ∈ xs.getLast?, ∀ y ∈ ys.getLast?, t.second x y = true) :
    Interwoven t.second xs ys (weave t threshold pace xs ys).1 := by
  fun_induction weave t threshold pace xs ys with
  | case1 threshold pace ys => exact interwoven_second t.second ys
  | case2 threshold pace x ys =>
    have hlead := (interwoven_first t.second [x]).lead_second ys
    simpa using hlead (by simpa using hlast)
  | case3 threshold pace xs => exact interwoven_first t.second xs
  | case4 threshold pace x x' xs y ys threshold' first second hnext hsecond out _ hout ih =>
    rw [hout] at ih
    have hrest := ih fun a ha b hb => hlast a ha b (mem_getLast?_of_drop (n := 1) hb)
    exact hrest.lead_second [y] (by simpa using hsecond)
  | case5 threshold pace x x' xs y ys threshold' first second hnext hsecond out _ hout ih =>
    rw [hout] at ih
    have hrest := ih fun a ha => hlast a (mem_getLast?_of_drop (n := 1) ha)
    exact hrest.lead_first [x] (by simpa using hsecond)
  | case6 threshold pace x x' xs y ys threshold' after hnext took out _ hout ih =>
    rw [hout] at ih
    have hrest := ih fun a ha b hb =>
      hlast a (mem_getLast?_of_drop ha) b (mem_getLast?_of_drop (n := 1) hb)
    obtain ⟨hfront, hback⟩ := ht.ofFirst y (x :: x' :: xs) (List.cons_ne_nil _ _)
    have hsecond := hrest.lead_second [y] (by simpa using hback)
    have hfirst := hsecond.lead_first ((x :: x' :: xs).take took) (by simpa using hfront)
    rwa [List.take_append_drop] at hfirst
  | case7 threshold pace x x' xs y ys threshold' after hnext took out _ hout ih =>
    rw [hout] at ih
    have hrest := ih fun a ha b hb =>
      hlast a (mem_getLast?_of_drop (n := 1) ha) b (mem_getLast?_of_drop hb)
    obtain ⟨hfront, hback⟩ := ht.ofSecond x (y :: ys) (List.cons_ne_nil _ _)
    have hfirst := hrest.lead_first [x] (by simpa using hback)
    have hsecond := hfirst.lead_second ((y :: ys).take took) (by simpa using hfront)
    rwa [List.take_append_drop] at hsecond

theorem weaveFrom_interwoven {t : Taking α} (ht : t.Lawful) (threshold : Nat) (xs ys : List α)
    (hfirst : ∀ x ∈ xs.head?, ∀ y ∈ ys.head?, t.second x y = true)
    (hlast : ∀ x ∈ xs.getLast?, ∀ y ∈ ys.getLast?, t.second x y = true) :
    Interwoven t.second xs ys (weaveFrom t threshold xs ys).1 := by
  cases ys with
  | nil => exact interwoven_first t.second xs
  | cons y ys =>
    have hrest := weave_interwoven ht threshold (.pairs 0 0) xs ys fun a ha b hb =>
      hlast a ha b (mem_getLast?_of_drop (n := 1) hb)
    exact hrest.lead_second [y] fun b hb a ha => hfirst a ha b (by simpa using hb)

theorem forward_lawful (before : α → α → Bool) : (forward before).Lawful where
  ofFirst y _ hxs := gallop_divides before y (List.length_pos_iff.mpr hxs)
  ofSecond x _ hys := gallop_divides (fun a b => !before b a) x (List.length_pos_iff.mpr hys)

/-- Seen from the back, what is behind is in front, and what was not beyond is. -/
theorem divides_reverse (beyond : α → α → Bool) (x : α) {run : List α} (hrun : run ≠ []) :
    Divides (fun y => !beyond x y)
      (run.take (run.length - gallop beyond x run.reverse (run.length - 1)))
      (run.drop (run.length - gallop beyond x run.reverse (run.length - 1))) := by
  have hhint : run.length - 1 < run.reverse.length := by
    have := List.length_pos_iff.mpr hrun
    rw [List.length_reverse]
    omega
  obtain ⟨hfront, hback⟩ := gallop_divides beyond x hhint
  rw [List.take_reverse] at hfront
  rw [List.drop_reverse] at hback
  constructor
  · simpa using hback
  · simpa using hfront

theorem backward_lawful (before : α → α → Bool) : (backward before).Lawful where
  ofFirst y xs hxs := by
    have h := divides_reverse (fun a b => !before b a) y hxs
    simpa [backward] using h
  ofSecond x ys hys := divides_reverse before x hys

/-! ## Merging -/

theorem mergeMoved_interwoven {before : α → α → Bool} (threshold : Nat) {left right : List α}
    (hfirst : ∀ a ∈ left.head?, ∀ b ∈ right.head?, before b a = true)
    (hlast : ∀ a ∈ left.getLast?, ∀ b ∈ right.getLast?, before b a = true) :
    Interwoven (fun a b => before b a) left right (mergeMoved before threshold left right).1 := by
  unfold mergeMoved
  split
  · exact weaveFrom_interwoven (forward_lawful before) threshold left right hfirst hlast
  · have h := weaveFrom_interwoven (backward_lawful before) threshold right.reverse left.reverse
      (fun b hb a ha => hlast a (by simpa using ha) b (by simpa using hb))
      (fun b hb a ha => hfirst a (by simpa using ha) b (by simpa using hb))
    simpa [backward] using h.reverse

/-- A merge goes over from one run to the other where it compared the two members. -/
theorem merge_interwoven (before : α → α → Bool) (threshold : Nat) (left right : List α) :
    Interwoven (fun a b => before b a) left right (merge before threshold left right).1 := by
  fun_cases merge before threshold left right with
  | case1 => exact interwoven_first _ left
  | case2 b bs skipped hnone =>
    have hdrop : left.drop skipped = [] := List.getLast?_eq_none_iff.mp hnone
    rcases eq_or_ne left [] with rfl | hleft
    · exact interwoven_second _ (b :: bs)
    · have hfront := (gallop_divides before b (List.length_pos_iff.mpr hleft)).1
      rw [List.take_of_length_le (List.drop_eq_nil_iff.mp hdrop)] at hfront
      simpa using (interwoven_second _ (b :: bs)).lead_first left (by simpa using hfront)
  | case3 b bs skipped a ha moved out threshold' hout =>
    have hleft : 0 < left.length := by
      by_contra hnil
      simp [List.length_eq_zero_iff.mp (Nat.eq_zero_of_not_pos hnil)] at ha
    obtain ⟨hskipped, hbegin⟩ := gallop_divides before b hleft
    obtain ⟨hend, hkept⟩ := gallop_divides (fun x y => !before y x) a
      (show bs.length < (b :: bs).length by simp)
    have hhead : ∀ y ∈ ((b :: bs).take moved).head?, y = b := by
      intro y hy
      rw [List.head?_take] at hy
      split at hy
      · cases hy
      · simpa using hy.symm
    have hmoved : Interwoven (fun a b => before b a) (left.drop skipped) ((b :: bs).take moved)
        (mergeMoved before threshold (left.drop skipped) ((b :: bs).take moved)).1 := by
      refine mergeMoved_interwoven threshold (fun x hx y hy => ?_) (fun x hx y hy => ?_)
      · rw [hhead y hy]
        exact hbegin x hx
      · rw [ha, Option.mem_some_iff] at hx
        simpa [hx] using hend y hy
    rw [hout] at hmoved
    have htrail := hmoved.trail_second ((b :: bs).drop moved) fun y hy x hx => by
      rw [ha, Option.mem_some_iff] at hx
      simpa [hx] using hkept y hy
    rw [List.take_append_drop] at htrail
    have hlead := htrail.lead_first (left.take skipped) (by simpa using hskipped)
    rwa [List.take_append_drop, ← List.append_assoc] at hlead

/-- Insertion merges a run with a single member. -/
theorem insert_interwoven (before : α → α → Bool) (run : List α) (x : α) :
    Interwoven (fun a b => before b a) run [x] (insert before run x) := by
  obtain ⟨⟨-, hle⟩, hbelow, habove⟩ := slot_between before x run 0 run.length le_rfl (Nat.zero_le _)
  unfold insert
  generalize slot before x run 0 run.length = position at hle hbelow habove
  obtain ⟨hfront, hback⟩ := divides_of_getElem hle hbelow fun y hy =>
    habove (List.getElem?_eq_some_iff.mp hy).1 y hy
  have hinserted := (interwoven_first (fun a b => before b a) (run.drop position)).lead_second
    [x] (by simpa using hback)
  have hwhole := hinserted.lead_first (run.take position) (by simpa using hfront)
  rwa [List.take_append_drop] at hwhole

end ModeSchedule.Insertion
