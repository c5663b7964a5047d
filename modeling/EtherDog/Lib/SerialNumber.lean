import Mathlib

/-!
# Wrap-around sequence numbers

Sequence numbers are `w`-bit words compared by the sign of their difference.
The order is not transitive, so a history of accepted numbers is followed by
its unwrapped values: each number counts on from the previous one by the
forward distance modulo `2 ^ w`.

Within a window of less than half the range the order is that of the places in
the window, and a reader that drops what is not newer ends with the newest item
in whatever order the items come.
-/

set_option autoImplicit false

namespace SerialNumber

variable {w : Nat}

/-- How far `seq` lies ahead of `last`, modulo `2 ^ w`. -/
def distance (last seq : BitVec w) : Nat := (seq - last).toNat

/-- `seq` is newer than `last`: their difference is positive as a signed word. -/
def Newer (seq last : BitVec w) : Prop := 0 < (seq - last).toInt

theorem newer_iff (seq last : BitVec w) :
    Newer seq last ↔ 1 ≤ distance last seq ∧ 2 * distance last seq < 2 ^ w := by
  unfold Newer distance
  have bound := (seq - last).isLt
  rw [BitVec.toInt_eq_toNat_cond]
  split
  · rename_i low
    constructor
    · intro positive
      exact ⟨by omega, low⟩
    · intro h
      omega
  · rename_i high
    constructor
    · intro positive
      omega
    · intro h
      exact absurd h.2 high

theorem distance_mod (last seq : BitVec w) :
    (last.toNat + distance last seq) % 2 ^ w = seq.toNat := by
  have restored : last + (seq - last) = seq := by
    rw [BitVec.add_comm, BitVec.sub_add_cancel]
  calc
    (last.toNat + distance last seq) % 2 ^ w = (last + (seq - last)).toNat := by
      rw [BitVec.toNat_add, distance]
    _ = seq.toNat := by rw [restored]

/-- The unwrapped values of the numbers accepted after `last`, whose own
unwrapped value is `base`. -/
def unwrapFrom (base : Nat) (last : BitVec w) : List (BitVec w) → List Nat
  | [] => []
  | seq :: rest => (base + distance last seq) :: unwrapFrom (base + distance last seq) seq rest

/-- The unwrapped values of a whole history: the first number stands for itself. -/
def unwrap : List (BitVec w) → List Nat
  | [] => []
  | seq :: rest => seq.toNat :: unwrapFrom seq.toNat seq rest

theorem unwrapFrom_length (base : Nat) (last : BitVec w) (seqs : List (BitVec w)) :
    (unwrapFrom base last seqs).length = seqs.length := by
  induction seqs generalizing base last with
  | nil => rfl
  | cons seq rest ih => simp [unwrapFrom, ih]

theorem unwrap_length (seqs : List (BitVec w)) : (unwrap seqs).length = seqs.length := by
  cases seqs with
  | nil => rfl
  | cons seq rest => simp [unwrap, unwrapFrom_length]

theorem unwrapFrom_mod (base : Nat) (last : BitVec w) (seqs : List (BitVec w))
    (residue : base % 2 ^ w = last.toNat) :
    (unwrapFrom base last seqs).map (· % 2 ^ w) = seqs.map BitVec.toNat := by
  induction seqs generalizing base last with
  | nil => rfl
  | cons seq rest ih =>
      have head : (base + distance last seq) % 2 ^ w = seq.toNat := by
        rw [← distance_mod last seq, ← residue, Nat.mod_add_mod]
      simp only [unwrapFrom, List.map_cons, head, ih _ _ head]

theorem unwrap_mod (seqs : List (BitVec w)) :
    (unwrap seqs).map (· % 2 ^ w) = seqs.map BitVec.toNat := by
  cases seqs with
  | nil => rfl
  | cons seq rest =>
      have residue : seq.toNat % 2 ^ w = seq.toNat := Nat.mod_eq_of_lt seq.isLt
      simp only [unwrap, List.map_cons, residue, unwrapFrom_mod seq.toNat seq rest residue]

/-- Each unwrapped value exceeds its predecessor by less than half the range. -/
theorem unwrapFrom_chain (base : Nat) (last : BitVec w) (seqs : List (BitVec w))
    (newer : List.IsChain (fun older next => Newer next older) (last :: seqs)) :
    List.IsChain (fun older next => older + 1 ≤ next ∧ 2 * (next - older) < 2 ^ w)
      (base :: unwrapFrom base last seqs) := by
  induction seqs generalizing base last with
  | nil => exact List.IsChain.singleton _
  | cons seq rest ih =>
      rw [List.isChain_cons_cons] at newer
      obtain ⟨first, later⟩ := newer
      obtain ⟨positive, short⟩ := (newer_iff seq last).mp first
      rw [unwrapFrom, List.isChain_cons_cons]
      refine ⟨⟨by omega, ?_⟩, ih _ _ later⟩
      have step : base + distance last seq - base = distance last seq := by omega
      rw [step]
      exact short

theorem unwrap_chain (seqs : List (BitVec w))
    (newer : List.IsChain (fun older next => Newer next older) seqs) :
    List.IsChain (fun older next => older + 1 ≤ next ∧ 2 * (next - older) < 2 ^ w)
      (unwrap seqs) := by
  cases seqs with
  | nil => exact List.IsChain.nil
  | cons seq rest => exact unwrapFrom_chain seq.toNat seq rest newer

/-- A number at most half the range behind the current one is not newer. -/
theorem not_newer_of_behind (older current : BitVec w) (unwrappedOlder unwrappedCurrent : Nat)
    (olderResidue : unwrappedOlder % 2 ^ w = older.toNat)
    (currentResidue : unwrappedCurrent % 2 ^ w = current.toNat)
    (behind : unwrappedOlder ≤ unwrappedCurrent)
    (near : 2 * (unwrappedCurrent - unwrappedOlder) ≤ 2 ^ w) :
    ¬ Newer older current := by
  rw [newer_iff]
  rintro ⟨positive, short⟩
  have closes : (unwrappedCurrent + distance current older) % 2 ^ w =
      unwrappedOlder % 2 ^ w := by
    rw [olderResidue, ← distance_mod current older, ← currentResidue, Nat.mod_add_mod]
  -- the forward distance closes the gap to a whole turn, so both cannot be short
  have turn : (unwrappedCurrent - unwrappedOlder + distance current older) % 2 ^ w = 0 := by
    have congruent : unwrappedOlder + (unwrappedCurrent - unwrappedOlder +
        distance current older) ≡ unwrappedOlder + 0 [MOD 2 ^ w] := by
      have same : unwrappedOlder + (unwrappedCurrent - unwrappedOlder +
          distance current older) = unwrappedCurrent + distance current older := by omega
      rw [same]
      exact closes
    exact Nat.ModEq.add_left_cancel' unwrappedOlder congruent
  have small : unwrappedCurrent - unwrappedOlder + distance current older < 2 ^ w := by omega
  rw [Nat.mod_eq_of_lt small] at turn
  omega

/-- A number less than half the range ahead of the current one is newer. -/
theorem newer_of_ahead (current : BitVec w) (steps : Nat) (positive : 1 ≤ steps)
    (short : 2 * steps < 2 ^ w) : Newer (current + BitVec.ofNat w steps) current := by
  have ahead : distance current (current + BitVec.ofNat w steps) = steps := by
    have cancel : current + BitVec.ofNat w steps - current = BitVec.ofNat w steps := by
      rw [BitVec.add_comm, BitVec.add_sub_cancel]
    rw [distance, cancel, BitVec.toNat_ofNat, Nat.mod_eq_of_lt (by omega)]
  rw [newer_iff, ahead]
  exact ⟨positive, short⟩

/-! ## The numbers of one window -/

instance (seq last : BitVec w) : Decidable (Newer seq last) :=
  inferInstanceAs (Decidable (0 < (seq - last).toInt))

def InWindow (base : BitVec w) (width : Nat) (seq : BitVec w) : Prop := distance base seq < width

theorem distance_sub (base last seq : BitVec w) :
    distance last seq = (2 ^ w - distance base last + distance base seq) % 2 ^ w := by
  have shifted : seq - last = (seq - base) - (last - base) := by
    rw [BitVec.sub_eq_add_neg, BitVec.sub_eq_add_neg seq base, BitVec.sub_eq_add_neg last base,
      BitVec.sub_eq_add_neg, BitVec.neg_add, BitVec.sub_eq_add_neg, BitVec.neg_neg,
      BitVec.add_assoc seq, BitVec.add_comm (-last) base, ← BitVec.add_assoc (-base) base,
      BitVec.add_comm (-base) base, BitVec.add_right_neg, BitVec.zero_add]
  unfold distance
  rw [shifted, BitVec.toNat_sub]

/-- In a window of less than half the range the order is that of the places. -/
theorem newer_iff_of_inWindow {base seq last : BitVec w} {width : Nat} (short : 2 * width ≤ 2 ^ w)
    (seqIn : InWindow base width seq) (lastIn : InWindow base width last) :
    Newer seq last ↔ distance base last < distance base seq := by
  unfold InWindow at seqIn lastIn
  rw [newer_iff, distance_sub base last seq]
  by_cases ahead : distance base last ≤ distance base seq
  · have turn : 2 ^ w - distance base last + distance base seq =
        2 ^ w + (distance base seq - distance base last) := by omega
    rw [turn, Nat.add_mod_left, Nat.mod_eq_of_lt (by omega)]
    omega
  · rw [Nat.mod_eq_of_lt (by omega)]
    omega

/-! ## A reader that keeps what is newer -/

section Reader
variable {α : Type} (seq : α → BitVec w)

/-- Newer than the last number, if there was one. -/
def IsNews (last : Option (BitVec w)) (number : BitVec w) : Prop := ∀ l ∈ last, Newer number l

instance (last : Option (BitVec w)) (number : BitVec w) : Decidable (IsNews last number) :=
  inferInstanceAs (Decidable (∀ l ∈ last, Newer number l))

/-- What is kept when everything not newer than the last kept number is dropped. -/
def keepNewer : Option (BitVec w) → List α → List α
  | _, [] => []
  | last, x :: rest =>
      if IsNews last (seq x) then x :: keepNewer (some (seq x)) rest else keepNewer last rest

/-- The last item kept of `items` after the number `last`. -/
def LastKept (base : BitVec w) (last : Option (BitVec w)) (items : List α) : Option α → Prop
  | none => ∀ x ∈ items, ¬ IsNews last (seq x)
  | some x => x ∈ items ∧ IsNews last (seq x) ∧
      ∀ y ∈ items, distance base (seq y) ≤ distance base (seq x)

variable {seq} in
/-- What is kept behind a kept item is kept of both; with nothing behind it that item is. -/
theorem LastKept.behind_kept {base : BitVec w} {width : Nat} (short : 2 * width ≤ 2 ^ w)
    {last : Option (BitVec w)} {x : α} {rest : List α} {kept : Option α}
    (lastIn : ∀ l ∈ last, InWindow base width l) (xIn : InWindow base width (seq x))
    (restIn : ∀ y ∈ rest, InWindow base width (seq y)) (news : IsNews last (seq x))
    (later : LastKept seq base (some (seq x)) rest kept) :
    LastKept seq base last (x :: rest) (some (kept.getD x)) := by
  cases kept with
  | none =>
      refine ⟨List.mem_cons_self, news, ?_⟩
      intro y member
      rcases List.mem_cons.mp member with rfl | member
      · exact le_rfl
      · have stale := later y member
        simp only [IsNews, Option.mem_some_iff, forall_eq',
          newer_iff_of_inWindow short (restIn y member) xIn] at stale
        exact Nat.le_of_not_lt stale
  | some z =>
      obtain ⟨member, newer, greatest⟩ := later
      have zIn := restIn z member
      have above : distance base (seq x) < distance base (seq z) :=
        (newer_iff_of_inWindow short zIn xIn).mp (newer _ rfl)
      refine ⟨List.mem_cons_of_mem x member, ?_, ?_⟩
      · intro l same
        have below := (newer_iff_of_inWindow short xIn (lastIn l same)).mp (news l same)
        exact (newer_iff_of_inWindow short zIn (lastIn l same)).mpr (below.trans above)
      · intro y other
        rcases List.mem_cons.mp other with rfl | other
        · exact above.le
        · exact greatest y other

variable {seq} in
/-- A dropped item changes nothing: what is kept behind it is greater. -/
theorem LastKept.behind_dropped {base : BitVec w} {width : Nat} (short : 2 * width ≤ 2 ^ w)
    {last : Option (BitVec w)} {x : α} {rest : List α} {kept : Option α}
    (lastIn : ∀ l ∈ last, InWindow base width l) (xIn : InWindow base width (seq x))
    (restIn : ∀ y ∈ rest, InWindow base width (seq y)) (stale : ¬ IsNews last (seq x))
    (later : LastKept seq base last rest kept) : LastKept seq base last (x :: rest) kept := by
  cases kept with
  | none =>
      intro y member
      rcases List.mem_cons.mp member with rfl | member
      · exact stale
      · exact later y member
  | some z =>
      obtain ⟨member, newer, greatest⟩ := later
      refine ⟨List.mem_cons_of_mem x member, newer, ?_⟩
      intro y other
      rcases List.mem_cons.mp other with rfl | other
      · -- `y` was dropped for a number that `z` is newer than
        simp only [IsNews, not_forall] at stale
        obtain ⟨l, same, old⟩ := stale
        rw [newer_iff_of_inWindow short xIn (lastIn l same)] at old
        have above := (newer_iff_of_inWindow short (restIn z member) (lastIn l same)).mp
          (newer l same)
        omega
      · exact greatest y other

/-- Over one window the reader ends with the greatest number, if that is news. -/
theorem keepNewer_lastKept {base : BitVec w} {width : Nat} (short : 2 * width ≤ 2 ^ w)
    (last : Option (BitVec w)) (items : List α) (lastIn : ∀ l ∈ last, InWindow base width l)
    (itemsIn : ∀ x ∈ items, InWindow base width (seq x)) :
    LastKept seq base last items (keepNewer seq last items).getLast? := by
  induction items generalizing last with
  | nil => simp [keepNewer, LastKept]
  | cons x rest ih =>
      have xIn := itemsIn x (by simp)
      have restIn : ∀ y ∈ rest, InWindow base width (seq y) := fun y member =>
        itemsIn y (List.mem_cons_of_mem x member)
      rw [keepNewer]
      split
      · rename_i news
        have later := ih (some (seq x)) (fun l same => by cases same; exact xIn) restIn
        rw [List.getLast?_cons]
        exact later.behind_kept short lastIn xIn restIn news
      · rename_i stale
        exact (ih last lastIn restIn).behind_dropped short lastIn xIn restIn stale

/-- The item whose number is newer than every other one's. -/
def Newest (items : List α) (x : α) : Prop :=
  x ∈ items ∧ ∀ y ∈ items, y ≠ x → Newer (seq x) (seq y)

theorem Newest.perm {items order : List α} {x : α} (newest : Newest seq items x)
    (shuffled : order.Perm items) : Newest seq order x :=
  ⟨shuffled.mem_iff.mpr newest.1, fun y member => newest.2 y (shuffled.mem_iff.mp member)⟩

theorem exists_newest {base : BitVec w} {width : Nat} (short : 2 * width ≤ 2 ^ w)
    (items : List α) (nonempty : items ≠ []) (itemsIn : ∀ x ∈ items, InWindow base width (seq x))
    (distinct : items.Pairwise fun x y => seq x ≠ seq y) : ∃ x, Newest seq items x := by
  have kept := keepNewer_lastKept seq short none items (by simp) itemsIn
  cases last : (keepNewer seq none items).getLast? with
  | none =>
      rw [last] at kept
      obtain ⟨x, member⟩ := List.exists_mem_of_ne_nil items nonempty
      exact absurd (fun l none => by simp at none) (kept x member)
  | some x =>
      rw [last] at kept
      obtain ⟨member, _, greatest⟩ := kept
      refine ⟨x, member, fun y other apart => ?_⟩
      rw [newer_iff_of_inWindow short (itemsIn x member) (itemsIn y other)]
      have symmetric : Std.Symm fun x y => seq x ≠ seq y := ⟨fun _ _ differ => differ.symm⟩
      have numbersApart : seq y ≠ seq x := List.Pairwise.forall distinct other member apart
      have placesApart : distance base (seq y) ≠ distance base (seq x) := by
        intro same
        apply numbersApart
        have restored := BitVec.eq_of_toNat_eq same
        simpa using restored
      exact lt_of_le_of_ne (greatest y other) placesApart

/-- Whatever the order of arrival, the newest item is kept last, or nothing is. -/
theorem keepNewer_newest {base : BitVec w} {width : Nat} (short : 2 * width ≤ 2 ^ w)
    {last : Option (BitVec w)} {items : List α} {x : α} (newest : Newest seq items x)
    (lastIn : ∀ l ∈ last, InWindow base width l)
    (itemsIn : ∀ x ∈ items, InWindow base width (seq x)) :
    (keepNewer seq last items).getLast? = if IsNews last (seq x) then some x else none := by
  have kept := keepNewer_lastKept seq short last items lastIn itemsIn
  cases found : (keepNewer seq last items).getLast? with
  | none =>
      rw [found] at kept
      rw [if_neg (kept x newest.1)]
  | some z =>
      rw [found] at kept
      obtain ⟨member, news, greatest⟩ := kept
      have same : z = x := by
        by_contra apart
        have above := (newer_iff_of_inWindow short (itemsIn x newest.1) (itemsIn z member)).mp
          (newest.2 z member apart)
        have below := greatest x newest.1
        omega
      subst same
      rw [if_pos news]

end Reader

end SerialNumber
