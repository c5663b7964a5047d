import EtherDog.Lib.SerialNumber

/-!
# A numbered stream over an unreliable channel

A sender numbers its items 1, 2, 3, … in words of `w` bits.  The channel may lose
an item, bring it any number of times and bring it late, as long as fewer than
half the range of numbers has been sent since.  The receiver is `keepNewer`: it
takes an item whose number is newer than the one it took last.  What it takes is
then a sublist of what was sent, in order and each item at most once, and the
newest item is the last one taken once it has arrived.

Streams are listed newest first, so an item stands at the head of a suffix of the
stream and its number is the length of that suffix.
-/

set_option autoImplicit false

namespace Channel

open SerialNumber

variable {α β : Type} {w : Nat}

/-- The number of the item at the head of `stream`. -/
def numberOf (w : Nat) (stream : List α) : BitVec w := BitVec.ofNat w stream.length

@[simp] theorem numberOf_map (w : Nat) (stream : List α) (f : α → β) :
    numberOf w (stream.map f) = numberOf w stream := by
  simp [numberOf]

/-- `x` heads a suffix of `sent` that few enough items have followed. -/
def Arrives (w : Nat) (sent : List α) (x : α) (number : BitVec w) : Prop :=
  ∃ older, (x :: older) <:+ sent ∧ number = numberOf w (x :: older) ∧
    2 * (sent.length - older.length) ≤ 2 ^ w

/-- What the receiver took of `sent`, and the number it took last. -/
inductive Taken (w : Nat) (sent : List α) : List α → Option (BitVec w) → Prop where
  | nothing : Taken w sent [] none
  | upTo (x : α) (older taken : List α) (within : (x :: older) <:+ sent)
      (ordered : taken.Sublist older) :
      Taken w sent (x :: taken) (some (numberOf w (x :: older)))

/-- The newest item is the last one taken. -/
def UpToDate (w : Nat) (sent taken : List α) (last : Option (BitVec w)) : Prop :=
  taken.head? = sent.head? ∧ last = some (numberOf w sent)

variable {sent taken : List α} {last : Option (BitVec w)} {x : α} {number : BitVec w}

theorem Taken.sublist (received : Taken w sent taken last) : taken.Sublist sent := by
  cases received with
  | nothing => exact List.nil_sublist sent
  | upTo x older taken within ordered => exact (ordered.cons_cons x).trans within.sublist

/-- What is sent later changes nothing about what was taken. -/
theorem Taken.send (received : Taken w sent taken last) (x : α) :
    Taken w (x :: sent) taken last := by
  cases received with
  | nothing => exact .nothing
  | upTo y older taken within ordered =>
      exact .upTo y older taken (within.trans (List.suffix_cons x sent)) ordered

theorem Arrives.map (arrives : Arrives w sent x number) (f : α → β) :
    Arrives w (sent.map f) (f x) number := by
  obtain ⟨older, place, rfl, recent⟩ := arrives
  refine ⟨older.map f, place.map f, ?_, ?_⟩
  · simp [numberOf]
  · simpa using recent

/-- A recent suffix that is no longer than another has no newer number. -/
theorem not_newer_of_shorter {seen older : List α} (within : seen <:+ sent)
    (shorter : older.length ≤ seen.length) (recent : 2 * (sent.length - older.length) ≤ 2 ^ w) :
    ¬ Newer (numberOf w older) (numberOf w seen) := by
  have bound := within.length_le
  exact not_newer_of_behind _ _ older.length seen.length (BitVec.toNat_ofNat _ _).symm
    (BitVec.toNat_ofNat _ _).symm shorter (by omega)

/-- Taking an item that arrives and is news. -/
theorem Taken.take (received : Taken w sent taken last) (arrives : Arrives w sent x number)
    (news : IsNews last number) : Taken w sent (x :: taken) (some number) := by
  obtain ⟨older, place, rfl, recent⟩ := arrives
  cases received with
  | nothing => exact .upTo x older [] place (List.nil_sublist older)
  | upTo y seen taken within ordered =>
      have newer : Newer (numberOf w (x :: older)) (numberOf w (y :: seen)) := news _ rfl
      -- the item stands above everything taken so far, or its number would be old
      have above : (y :: seen).length ≤ older.length := by
        by_contra below
        have shorter : (x :: older).length ≤ (y :: seen).length := Nat.lt_of_not_le below
        refine not_newer_of_shorter within shorter ?_ newer
        rw [List.length_cons]
        omega
      have behind : (y :: seen) <:+ older :=
        List.suffix_of_suffix_length_le within ((List.suffix_cons x older).trans place) above
      exact .upTo x older (y :: taken) place ((ordered.cons_cons y).trans behind.sublist)

/-- Once the newest item is taken, nothing that arrives is news. -/
theorem UpToDate.stale (current : UpToDate w sent taken last)
    (arrives : Arrives w sent x number) : ¬ IsNews last number := by
  obtain ⟨older, place, rfl, recent⟩ := arrives
  intro news
  have newer := news _ current.2
  refine not_newer_of_shorter (List.suffix_refl sent) place.length_le ?_ newer
  rw [List.length_cons]
  omega

/-- Behind any item that arrives, the newest one is news, unless it is that item. -/
theorem newest_isNews (arrives : Arrives w sent x number) (behind : number ≠ numberOf w sent) :
    IsNews (some number) (numberOf w sent) := by
  obtain ⟨older, place, rfl, recent⟩ := arrives
  have bound := place.length_le
  rw [List.length_cons] at bound
  intro last same
  cases same
  by_cases newest : sent.length = older.length + 1
  · rw [numberOf, numberOf, List.length_cons, newest] at behind
    exact absurd rfl behind
  · have ahead := newer_of_ahead (numberOf w (x :: older)) (sent.length - (older.length + 1))
      (by omega) (by omega)
    have reached : numberOf w (x :: older) + BitVec.ofNat w (sent.length - (older.length + 1)) =
        numberOf w sent := by
      rw [numberOf, numberOf, List.length_cons, ← BitVec.ofNat_add]
      congr 1
      omega
    rwa [reached] at ahead

/-- The number of the newest item is that of no other item that arrives. -/
theorem Arrives.eq_newest (arrives : Arrives w sent x number)
    (newest : number = numberOf w sent) : some x = sent.head? := by
  obtain ⟨older, place, rfl, recent⟩ := arrives
  have bound := place.length_le
  rw [List.length_cons] at bound
  have whole : (x :: older).length = sent.length := by
    have same : (x :: older).length % 2 ^ w = sent.length % 2 ^ w := by
      simpa only [numberOf, BitVec.toNat_ofNat] using congrArg BitVec.toNat newest
    have apart := (Nat.modEq_iff_dvd' bound).mp same
    by_contra shorter
    rw [List.length_cons] at shorter
    have turn := Nat.le_of_dvd (by omega) apart
    omega
  rw [← List.IsSuffix.eq_of_length place whole, List.head?_cons]

/-! ## The receiver at work -/

section Reader
variable (seq : β → BitVec w) (item : β → α)

theorem keepNewer_sublist (last : Option (BitVec w)) (items : List β) :
    (keepNewer seq last items).Sublist items := by
  induction items generalizing last with
  | nil => exact List.nil_sublist []
  | cons y rest ih =>
      rw [keepNewer]
      split
      · exact (ih _).cons_cons y
      · exact (ih _).cons y

def lastAfter (last : Option (BitVec w)) (items : List β) : Option (BitVec w) :=
  ((keepNewer seq last items).getLast?.map seq).or last

theorem lastAfter_kept {last : Option (BitVec w)} {y : β} {rest : List β}
    (news : IsNews last (seq y)) :
    lastAfter seq last (y :: rest) = lastAfter seq (some (seq y)) rest := by
  rw [lastAfter, lastAfter, keepNewer, if_pos news, List.getLast?_cons]
  cases (keepNewer seq (some (seq y)) rest).getLast? with
  | none => rfl
  | some z => rfl

theorem lastAfter_dropped {last : Option (BitVec w)} {y : β} {rest : List β}
    (stale : ¬ IsNews last (seq y)) :
    lastAfter seq last (y :: rest) = lastAfter seq last rest := by
  rw [lastAfter, lastAfter, keepNewer, if_neg stale]

/-- A batch of arrivals keeps the receiver in step with the stream. -/
theorem keepNewer_taken (received : Taken w sent taken last) (items : List β)
    (arrive : ∀ y ∈ items, Arrives w sent (item y) (seq y)) :
    Taken w sent (((keepNewer seq last items).map item).reverse ++ taken)
      (lastAfter seq last items) := by
  induction items generalizing last taken with
  | nil => simpa [keepNewer, lastAfter] using received
  | cons y rest ih =>
      have here := arrive y List.mem_cons_self
      have later : ∀ z ∈ rest, Arrives w sent (item z) (seq z) := fun z member =>
        arrive z (List.mem_cons_of_mem y member)
      by_cases news : IsNews last (seq y)
      · have next := ih (received.take here news) later
        rw [lastAfter_kept seq news, keepNewer, if_pos news]
        simpa using next
      · rw [lastAfter_dropped seq news, keepNewer, if_neg news]
        exact ih received later

theorem UpToDate.keepNewer (current : UpToDate w sent taken last) (items : List β)
    (arrive : ∀ y ∈ items, Arrives w sent (item y) (seq y)) :
    SerialNumber.keepNewer seq last items = [] := by
  induction items with
  | nil => rfl
  | cons y rest ih =>
      rw [SerialNumber.keepNewer, if_neg (current.stale (arrive y List.mem_cons_self))]
      exact ih fun z member => arrive z (List.mem_cons_of_mem y member)

/-- A batch that brings the newest item ends with it. -/
theorem keepNewer_upToDate (taken : List α) (awaited : IsNews last (numberOf w sent))
    (items : List β)
    (arrive : ∀ y ∈ items, Arrives w sent (item y) (seq y))
    (brought : ∃ y ∈ items, seq y = numberOf w sent) :
    UpToDate w sent (((keepNewer seq last items).map item).reverse ++ taken)
      (lastAfter seq last items) := by
  induction items generalizing last taken with
  | nil => simp at brought
  | cons y rest ih =>
      have here := arrive y List.mem_cons_self
      have later : ∀ z ∈ rest, Arrives w sent (item z) (seq z) := fun z member =>
        arrive z (List.mem_cons_of_mem y member)
      by_cases newest : seq y = numberOf w sent
      · have news : IsNews last (seq y) := by
          rw [newest]
          exact awaited
        have current : UpToDate w sent (item y :: taken) (some (seq y)) :=
          ⟨here.eq_newest newest, congrArg some newest⟩
        have nothing := current.keepNewer seq item rest later
        rw [lastAfter_kept seq news, lastAfter, keepNewer, if_pos news, nothing]
        exact current
      · have broughtLater : ∃ z ∈ rest, seq z = numberOf w sent := by
          obtain ⟨z, member, same⟩ := brought
          rcases List.mem_cons.mp member with rfl | member
          · exact absurd same newest
          · exact ⟨z, member, same⟩
        by_cases news : IsNews last (seq y)
        · have next := ih (item y :: taken) (newest_isNews here newest) later broughtLater
          rw [lastAfter_kept seq news, keepNewer, if_pos news]
          simpa using next
        · rw [lastAfter_dropped seq news, keepNewer, if_neg news]
          exact ih taken awaited later broughtLater

end Reader

/-- An item among the latest `2 ^ (w - 1)` arrives under its number. -/
theorem arrives_of_recent {seq : α → BitVec w} (positive : 0 < w)
    (numbered : ∀ x older, (x :: older) <:+ sent → seq x = numberOf w (x :: older))
    (recent : x ∈ sent.take (2 ^ (w - 1))) : Arrives w sent x (seq x) := by
  obtain ⟨k, inside, rfl⟩ := List.mem_take_iff_getElem.mp recent
  have bound : k < sent.length := by omega
  have split : sent[k] :: sent.drop (k + 1) = sent.drop k := List.getElem_cons_drop bound
  have place : (sent[k] :: sent.drop (k + 1)) <:+ sent := by
    rw [split]
    exact List.drop_suffix k sent
  refine ⟨sent.drop (k + 1), place, numbered _ _ place, ?_⟩
  have half : 2 * 2 ^ (w - 1) = 2 ^ w := by
    rw [← pow_succ', Nat.sub_add_cancel positive]
  rw [List.length_drop]
  omega

end Channel
