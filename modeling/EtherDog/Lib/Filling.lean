import Mathlib

/-!
# Filling ordered bins

Items come one after the other and go into bins that are passed in order and
never returned to.  A bin holds from `least` to `most` items and only those it
accepts.  `fill` is the greedy way: an item stays with the current bin unless
that bin is full or, once it holds `least`, does not accept the item.

`Splits` is any way of filling, the items cut into one part for each bin, and
`Chosen` the same as a list of bin numbers.  The greedy way is one of them, and
where no bin needs an item it finds one whenever there is one.  `FilledFrom`
describes the greedy way bin by bin.
-/

set_option autoImplicit false

namespace Filling

structure Rules (β α : Type) where
  least : β → Int
  most : β → Int
  accepts : β → α → Bool

variable {β α : Type} (r : Rules β α)

/-- The bins from the one on that the item is offered to, and what that one holds. -/
def advance (x : α) : List β → Int → List β × Int
  | [], held => ([], held)
  | bin :: rest, held =>
      if r.most bin ≤ held ∨ (r.accepts bin x = false ∧ r.least bin ≤ held) then advance x rest 0
      else (bin :: rest, held)

def fill : List α → List β → Int → Option (List β × Int)
  | [], bins, held => some (bins, held)
  | x :: later, bins, held =>
      match advance r x bins held with
      | ([], _) => none
      | (bin :: rest, holds) =>
          if r.accepts bin x = true then fill later (bin :: rest) (holds + 1) else none

/-- Every bin from the current one on holds enough. -/
def satisfied : List β → Int → Bool
  | [], _ => true
  | bin :: rest, held => decide (r.least bin ≤ held) && satisfied rest 0

/-! ## One item -/

theorem fill_leave {x : α} {later : List α} {bin : β} {rest : List β} {held : Int}
    (leave : r.most bin ≤ held ∨ (r.accepts bin x = false ∧ r.least bin ≤ held)) :
    fill r (x :: later) (bin :: rest) held = fill r (x :: later) rest 0 := by
  rw [fill, fill, advance, if_pos leave]

theorem fill_stay {x : α} {later : List α} {bin : β} {rest : List β} {held : Int}
    (room : held < r.most bin) (accepted : r.accepts bin x = true) :
    fill r (x :: later) (bin :: rest) held = fill r later (bin :: rest) (held + 1) := by
  have stay : ¬ (r.most bin ≤ held ∨ (r.accepts bin x = false ∧ r.least bin ≤ held)) := by
    rintro (full | ⟨refused, _⟩)
    · omega
    · simp [accepted] at refused
  rw [fill, advance, if_neg stay]
  exact if_pos accepted

/-- A bin is left, or takes the item, or refuses one it cannot be left for. -/
theorem fill_cons_cases (x : α) (later : List α) (bin : β) (rest : List β) (held : Int) :
    ((r.most bin ≤ held ∨ (r.accepts bin x = false ∧ r.least bin ≤ held)) ∧
      fill r (x :: later) (bin :: rest) held = fill r (x :: later) rest 0) ∨
    (held < r.most bin ∧ r.accepts bin x = true ∧
      fill r (x :: later) (bin :: rest) held = fill r later (bin :: rest) (held + 1)) ∨
    (r.accepts bin x = false ∧ held < r.least bin ∧
      fill r (x :: later) (bin :: rest) held = none) := by
  by_cases leave : r.most bin ≤ held ∨ (r.accepts bin x = false ∧ r.least bin ≤ held)
  · exact Or.inl ⟨leave, fill_leave r leave⟩
  · cases accepted : r.accepts bin x with
    | true =>
        have room : held < r.most bin := by
          by_contra full
          exact leave (Or.inl (by omega))
        exact Or.inr (Or.inl ⟨room, rfl, fill_stay r room accepted⟩)
    | false =>
        have short : held < r.least bin := by
          by_contra enough
          exact leave (Or.inr ⟨accepted, by omega⟩)
        refine Or.inr (Or.inr ⟨rfl, short, ?_⟩)
        rw [fill, advance, if_neg leave]
        simp [accepted]

theorem fill_cons_nil (x : α) (later : List α) (held : Int) :
    fill r (x :: later) ([] : List β) held = none := rfl

/-! ## Any way of filling -/

/-- A part for each bin, of which the first holds `held` items already. -/
inductive Splits : List β → Int → List (List α) → Prop where
  | nil (held : Int) : Splits [] held []
  | cons {bin : β} {rest : List β} {held : Int} {part : List α} {parts : List (List α)}
      (enough : r.least bin ≤ held + part.length) (room : held + part.length ≤ r.most bin)
      (accepted : ∀ x ∈ part, r.accepts bin x = true) (later : Splits rest 0 parts) :
      Splits (bin :: rest) held (part :: parts)

theorem Splits.empty {bins : List β} {held : Int} (met : satisfied r bins held = true)
    (fits : ∀ bin ∈ bins.head?, held ≤ r.most bin) (positive : ∀ bin ∈ bins, 0 ≤ r.most bin) :
    ∃ parts, Splits r bins held parts ∧ parts.flatten = ([] : List α) := by
  induction bins generalizing held with
  | nil => exact ⟨[], .nil held, rfl⟩
  | cons bin rest ih =>
      rw [satisfied, Bool.and_eq_true, decide_eq_true_eq] at met
      obtain ⟨parts, split, nothing⟩ := ih met.2
        (fun other first => positive other (List.mem_cons_of_mem _ (List.mem_of_mem_head? first)))
        (fun other member => positive other (List.mem_cons_of_mem _ member))
      have room := fits bin (by simp)
      refine ⟨[] :: parts, .cons (by simpa using met.1) (by simpa using room) (by simp) split, ?_⟩
      simpa using nothing

/-- What the greedy way fills is a way of filling. -/
theorem fill_sound {items : List α} {bins left : List β} {held holds : Int}
    (filled : fill r items bins held = some (left, holds)) (met : satisfied r left holds = true)
    (fits : ∀ bin ∈ bins.head?, held ≤ r.most bin)
    (bounds : ∀ bin ∈ bins, 0 ≤ r.most bin ∧ r.least bin ≤ r.most bin) :
    ∃ parts, Splits r bins held parts ∧ parts.flatten = items := by
  induction items generalizing bins held with
  | nil =>
      cases filled
      exact Splits.empty r met fits fun bin member => (bounds bin member).1
  | cons x later ihItems =>
      induction bins generalizing held with
      | nil => simp [fill_cons_nil] at filled
      | cons bin rest ihBins =>
          have room := fits bin (by simp)
          have restBounds := fun other member => bounds other (List.mem_cons_of_mem bin member)
          have ordered := (bounds bin (by simp)).2
          rcases fill_cons_cases r x later bin rest held with
            ⟨leave, left⟩ | ⟨below, accepted, taken⟩ | ⟨_, _, refused⟩
          · rw [left] at filled
            obtain ⟨parts, split, same⟩ := ihBins filled
              (fun other first => (restBounds other (List.mem_of_mem_head? first)).1) restBounds
            refine ⟨[] :: parts, .cons ?_ (by simpa using room) (by simp) split, by simpa using same⟩
            rcases leave with full | ⟨_, enough⟩
            · simp only [List.length_nil, Int.ofNat_zero, add_zero]
              omega
            · simpa using enough
          · rw [taken] at filled
            obtain ⟨parts, split, same⟩ := ihItems filled
              (fun other first => by cases first; omega) bounds
            cases split with
            | @cons _ _ _ part parts enough room allAccepted rest =>
                refine ⟨(x :: part) :: parts, .cons ?_ ?_ ?_ rest, by simpa using same⟩
                · simp only [List.length_cons, Nat.cast_add, Nat.cast_one]
                  omega
                · simp only [List.length_cons, Nat.cast_add, Nat.cast_one]
                  omega
                · simpa [accepted] using allAccepted
          · rw [refused] at filled
            simp at filled

/-! ## Nothing is missed where no bin needs an item -/

theorem satisfied_of_free {bins : List β} {held : Int} (free : ∀ bin ∈ bins, r.least bin = 0)
    (positive : 0 ≤ held) : satisfied r bins held = true := by
  induction bins generalizing held with
  | nil => rfl
  | cons bin rest ih =>
      have needs := free bin (by simp)
      rw [satisfied, Bool.and_eq_true, decide_eq_true_eq]
      exact ⟨by omega, ih (fun other member => free other (List.mem_cons_of_mem bin member)) le_rfl⟩

/-- The first item can be taken out of any way of filling. -/
theorem Splits.dropFirst {bins : List β} {parts : List (List α)} {x : α} {later : List α}
    (free : ∀ bin ∈ bins, r.least bin = 0) (split : Splits r bins 0 parts)
    (same : parts.flatten = x :: later) :
    ∃ parts, Splits r bins 0 parts ∧ parts.flatten = later := by
  induction bins generalizing parts with
  | nil =>
      cases split
      simp at same
  | cons bin rest ih =>
      have needs := free bin (by simp)
      cases split with
      | @cons _ _ _ part parts enough room accepted below =>
          cases part with
          | nil =>
              obtain ⟨others, splitOthers, sameOthers⟩ := ih
                (fun other member => free other (List.mem_cons_of_mem bin member)) below
                (by simpa using same)
              exact ⟨[] :: others, .cons enough room (by simp) splitOthers, by simpa using sameOthers⟩
          | cons y part =>
              rw [List.flatten_cons, List.cons_append, List.cons.injEq] at same
              simp only [List.length_cons, Nat.cast_add, Nat.cast_one] at room
              refine ⟨part :: parts, .cons (by omega) (by omega) ?_ below, same.2⟩
              exact fun z member => accepted z (List.mem_cons_of_mem y member)

/-- The exchange: an item the greedy way takes earlier leaves room where it was. -/
theorem fill_complete {items : List α} {bins : List β} {held : Int} {parts : List (List α)}
    (free : ∀ bin ∈ bins, r.least bin = 0) (positive : 0 ≤ held)
    (split : Splits r bins held parts) (same : parts.flatten = items) :
    ∃ left holds, fill r items bins held = some (left, holds) ∧
      satisfied r left holds = true := by
  induction items generalizing bins held parts with
  | nil => exact ⟨bins, held, rfl, satisfied_of_free r free positive⟩
  | cons x later ihItems =>
      induction bins generalizing held parts with
      | nil =>
          cases split
          simp at same
      | cons bin rest ihBins =>
          have restFree := fun other member => free other (List.mem_cons_of_mem bin member)
          have needs := free bin (by simp)
          cases split with
          | @cons _ _ _ part parts enough room accepted below =>
              rcases fill_cons_cases r x later bin rest held with
                ⟨leave, left⟩ | ⟨spare, takes, taken⟩ | ⟨_, short, _⟩
              · -- a bin that is left holds nothing in the other way either
                have empty : part = [] := by
                  cases part with
                  | nil => rfl
                  | cons y part =>
                      rw [List.flatten_cons, List.cons_append, List.cons.injEq] at same
                      have takes := accepted y (by simp)
                      simp only [List.length_cons, Nat.cast_add, Nat.cast_one] at room
                      rw [same.1] at takes
                      rcases leave with full | ⟨refused, _⟩
                      · omega
                      · simp [takes] at refused
                subst empty
                rw [left]
                exact ihBins restFree le_rfl below (by simpa using same)
              · rw [taken]
                cases part with
                | nil =>
                    obtain ⟨others, splitOthers, sameOthers⟩ := Splits.dropFirst r restFree below
                      (by simpa using same)
                    refine ihItems free (by omega)
                      (@Splits.cons β α r _ _ _ [] _ ?_ ?_ (by simp) splitOthers) (by simpa using sameOthers)
                    · simp only [List.length_nil, Int.ofNat_zero, add_zero]
                      omega
                    · simp only [List.length_nil, Int.ofNat_zero, add_zero]
                      omega
                | cons y part =>
                    rw [List.flatten_cons, List.cons_append, List.cons.injEq] at same
                    simp only [List.length_cons, Nat.cast_add, Nat.cast_one] at enough room
                    refine ihItems free (by omega) (.cons ?_ ?_ ?_ below) same.2
                    · omega
                    · omega
                    · exact fun z member => accepted z (List.mem_cons_of_mem y member)
              · omega

/-! ## Which items the greedy way places -/

/-- The greedy way told bin by bin: a bin is passed when it is full or when it
holds enough and does not accept the next item. -/
inductive FilledFrom : List β → Int → List α → Prop where
  | last {bin : β} {rest : List β} {held : Int} {part : List α}
      (room : held + part.length ≤ r.most bin)
      (accepted : ∀ x ∈ part, r.accepts bin x = true) : FilledFrom (bin :: rest) held part
  | next {bin : β} {rest : List β} {held : Int} {part : List α} {x : α} {later : List α}
      (room : held + part.length ≤ r.most bin)
      (accepted : ∀ y ∈ part, r.accepts bin y = true)
      (passed : r.most bin = held + part.length ∨
        (r.accepts bin x = false ∧ r.least bin ≤ held + part.length))
      (below : FilledFrom rest 0 (x :: later)) : FilledFrom (bin :: rest) held (part ++ x :: later)

theorem fill_part {part more : List α} {bin : β} {rest : List β} {held : Int}
    (room : held + part.length ≤ r.most bin) (accepted : ∀ x ∈ part, r.accepts bin x = true) :
    fill r (part ++ more) (bin :: rest) held = fill r more (bin :: rest) (held + part.length) := by
  induction part generalizing held with
  | nil => simp
  | cons x part ih =>
      simp only [List.length_cons, Nat.cast_add, Nat.cast_one] at room ⊢
      rw [List.cons_append, fill_stay r (by omega) (accepted x (by simp)),
        ih (by omega) (fun y member => accepted y (List.mem_cons_of_mem x member))]
      congr 1
      ring

theorem FilledFrom.cons {bin : β} {rest : List β} {held : Int} {x : α} {later : List α}
    (accepted : r.accepts bin x = true)
    (filled : FilledFrom r (bin :: rest) (held + 1) later) :
    FilledFrom r (bin :: rest) held (x :: later) := by
  cases filled with
  | last room others =>
      refine .last ?_ (by simpa [accepted] using others)
      simp only [List.length_cons, Nat.cast_add, Nat.cast_one]
      omega
  | @next _ _ _ part y later room others passed below =>
      have longer : held + ((x :: part).length : Int) = held + 1 + part.length := by
        simp only [List.length_cons, Nat.cast_add, Nat.cast_one]
        ring
      rw [← List.cons_append]
      refine .next ?_ (by simpa [accepted] using others) ?_ below
      · rw [longer]
        exact room
      · rw [longer]
        exact passed

theorem filledFrom_iff {items : List α} {bins : List β} {held : Int} (nonempty : bins ≠ [])
    (fits : ∀ bin ∈ bins.head?, held ≤ r.most bin) (positive : ∀ bin ∈ bins, 0 ≤ r.most bin) :
    FilledFrom r bins held items ↔ ∃ result, fill r items bins held = some result := by
  constructor
  · intro filled
    induction filled with
    | @last bin rest held part room accepted =>
        have whole := @fill_part β α r part [] bin rest held room accepted
        rw [List.append_nil] at whole
        exact ⟨_, whole⟩
    | @next bin rest held part x later room accepted passed below ih =>
        rw [fill_part r room accepted, fill_leave r (passed.imp_left le_of_eq)]
        have restPositive := fun other member => positive other (List.mem_cons_of_mem bin member)
        refine ih ?_ (fun other first => restPositive other (List.mem_of_mem_head? first))
          restPositive
        rintro rfl
        cases below
  · rintro ⟨result, filled⟩
    induction items generalizing bins held with
    | nil =>
        cases bins with
        | nil => exact absurd rfl nonempty
        | cons bin rest => exact .last (by simpa using fits bin (by simp)) (by simp)
    | cons x later ihItems =>
        induction bins generalizing held with
        | nil => exact absurd rfl nonempty
        | cons bin rest ihBins =>
            have room := fits bin (by simp)
            have restPositive := fun other member => positive other (List.mem_cons_of_mem bin member)
            rcases fill_cons_cases r x later bin rest held with
              ⟨leave, left⟩ | ⟨below, accepted, taken⟩ | ⟨_, _, refused⟩
            · rw [left] at filled
              refine @FilledFrom.next β α r _ _ _ [] _ _ (by simpa using room) (by simp) ?_ (ihBins ?_
                (fun other first => restPositive other (List.mem_of_mem_head? first)) restPositive
                filled)
              · rcases leave with full | ⟨refused, enough⟩
                · left
                  simp only [List.length_nil, Int.ofNat_zero, add_zero]
                  omega
                · exact Or.inr ⟨refused, by simpa using enough⟩
              · rintro rfl
                simp [fill_cons_nil] at filled
            · rw [taken] at filled
              exact FilledFrom.cons r accepted (ihItems nonempty
                (fun other first => by cases first; omega) positive filled)
            · rw [refused] at filled
              simp at filled

/-! ## Ways of filling as bin numbers -/

/-- The number of a bin for each item, never falling. -/
structure Chosen (bins : List β) (items : List α) (choice : List Nat) : Prop where
  rising : choice.Pairwise (· ≤ ·)
  placed : List.Forall₂ (fun i x => ∃ bin, bins[i]? = some bin ∧ r.accepts bin x = true)
    choice items
  held : ∀ i bin, bins[i]? = some bin →
    r.least bin ≤ choice.count i ∧ (choice.count i : Int) ≤ r.most bin

theorem count_zero_map_succ (choice : List Nat) : (choice.map (· + 1)).count 0 = 0 := by
  rw [List.count_eq_zero]
  simp

theorem count_succ_map_succ (choice : List Nat) (i : Nat) :
    (choice.map (· + 1)).count (i + 1) = choice.count i :=
  List.count_map_of_injective choice _ (fun _ _ same => Nat.succ.inj same) i

theorem count_zero_front (n : Nat) (choice : List Nat) :
    (List.replicate n 0 ++ choice.map (· + 1)).count 0 = n := by
  simp [List.count_append, count_zero_map_succ]

theorem count_succ_front (n : Nat) (choice : List Nat) (i : Nat) :
    (List.replicate n 0 ++ choice.map (· + 1)).count (i + 1) = choice.count i := by
  rw [List.count_append, count_succ_map_succ, List.count_replicate, if_neg (by simp)]
  simp

theorem Splits.chosen {bins : List β} {parts : List (List α)} (split : Splits r bins 0 parts) :
    ∃ choice, Chosen r bins parts.flatten choice := by
  induction bins generalizing parts with
  | nil =>
      cases split
      exact ⟨[], .nil, .nil, by simp⟩
  | cons bin rest ih =>
      cases split with
      | @cons _ _ _ part parts enough room accepted below =>
          obtain ⟨choice, chosen⟩ := ih below
          refine ⟨List.replicate part.length 0 ++ choice.map (· + 1), ?_, ?_, ?_⟩
          · rw [List.pairwise_append]
            refine ⟨by simp [List.pairwise_replicate], ?_, ?_⟩
            · rw [List.pairwise_map]
              exact chosen.rising.imp fun below => Nat.succ_le_succ below
            · intro i first j _
              rw [List.eq_of_mem_replicate first]
              exact Nat.zero_le j
          · rw [List.flatten_cons]
            apply List.rel_append
            · rw [List.forall₂_iff_get]
              refine ⟨by simp, fun k _ here => ⟨bin, by simp, ?_⟩⟩
              exact accepted _ (List.get_mem part ⟨k, here⟩)
            · rw [List.forall₂_map_left_iff]
              exact chosen.placed.imp fun i x place => by simpa using place
          · intro i other here
            cases i with
            | zero =>
                cases here
                rw [count_zero_front]
                exact ⟨by omega, by omega⟩
            | succ i =>
                rw [count_succ_front]
                exact chosen.held i other (by simpa using here)

theorem exists_map_succ {choice : List Nat} (positive : ∀ j ∈ choice, 1 ≤ j) :
    ∃ back : List Nat, choice = back.map (· + 1) := by
  induction choice with
  | nil => exact ⟨[], rfl⟩
  | cons i rest ih =>
      obtain ⟨back, rfl⟩ := ih fun j member => positive j (List.mem_cons_of_mem i member)
      obtain ⟨j, rfl⟩ := Nat.exists_eq_add_of_le' (positive i (by simp))
      exact ⟨j :: back, rfl⟩

/-- The items of the first bin come first. -/
theorem splitFirst {R : Nat → α → Prop} {choice : List Nat} {items : List α}
    (rising : choice.Pairwise (· ≤ ·)) (placed : List.Forall₂ R choice items) :
    ∃ part later back, items = part ++ later ∧
      choice = List.replicate part.length 0 ++ back.map (· + 1) ∧
      (∀ x ∈ part, R 0 x) ∧ List.Forall₂ (fun i x => R (i + 1) x) back later := by
  induction placed with
  | nil => exact ⟨[], [], [], rfl, rfl, by simp, .nil⟩
  | @cons i x choice items here placed ih =>
      rw [List.pairwise_cons] at rising
      cases i with
      | zero =>
          obtain ⟨part, later, back, rfl, rfl, first, rest⟩ := ih rising.2
          exact ⟨x :: part, later, back, rfl, rfl, by simpa [here] using first, rest⟩
      | succ i =>
          obtain ⟨back, rfl⟩ := exists_map_succ fun j member => by
            have above := rising.1 j member
            omega
          exact ⟨[], x :: items, i :: back, rfl, rfl, by simp,
            .cons here (List.forall₂_map_left_iff.mp placed)⟩

theorem Chosen.splits {bins : List β} {items : List α} {choice : List Nat}
    (chosen : Chosen r bins items choice) :
    ∃ parts, Splits r bins 0 parts ∧ parts.flatten = items := by
  induction bins generalizing items choice with
  | nil =>
      refine ⟨[], .nil 0, ?_⟩
      cases chosen.placed with
      | nil => rfl
      | cons place _ => simp at place
  | cons bin rest ih =>
      obtain ⟨part, later, back, rfl, rfl, first, placed⟩ :=
        splitFirst chosen.rising chosen.placed
      have head := chosen.held 0 bin rfl
      rw [count_zero_front] at head
      obtain ⟨parts, split, same⟩ := @ih later back {
        rising := by
          have back := (List.pairwise_append.mp chosen.rising).2.1
          rw [List.pairwise_map] at back
          exact back.imp fun below => Nat.succ_le_succ_iff.mp below
        placed := placed.imp fun i x place => by simpa using place
        held := by
          intro i other here
          rw [← count_succ_front part.length]
          exact chosen.held (i + 1) other (by simpa using here) }
      refine ⟨part :: parts, .cons (by omega) (by omega) ?_ split, by simp [same]⟩
      intro x member
      simpa using first x member

end Filling
