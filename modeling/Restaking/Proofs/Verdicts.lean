import Mathlib.Data.List.Forall2
import Restaking.Proofs.Results

/-!
# Verdicts

What is left of a computation without its result is its verdict: whether it fails, and with which
error. Going over a list then comes down to checking its members (`verdict_traverse`).

A check may look at the members before the one that it is about. The members of a list are checked
in order (`checkInOrder`) until one of them does not pass: all of them pass if and only if each
passes after those before it (`checkInOrder_eq_ok`), and otherwise the error is that of the first
one that does not (`checkInOrder_eq_error`).
-/

namespace Restaking

/-! ## Traversals -/

section Traversals

variable {ε α β : Type}

/-- A traversal relates the members of two lists if the function relates two values. -/
theorem traverse_eq_ok_iff_forall₂ {f : α → Except ε β} {P : α → Prop} {R : α → β → Prop}
    (h : ∀ {a b}, f a = .ok b ↔ P a ∧ R a b) {l : List α} {bs : List β} :
    traverse f l = .ok bs ↔ (∀ a ∈ l, P a) ∧ List.Forall₂ R l bs := by
  induction l generalizing bs with
  | nil =>
    rw [List.forall₂_nil_left_iff]
    simp [traverse, eq_comm]
  | cons a rest ih =>
    rw [traverse_cons_eq_ok, List.forall_mem_cons, List.forall₂_cons_left_iff]
    constructor
    · rintro ⟨b, bs, hb, hrest, rfl⟩
      obtain ⟨ha, hab⟩ := h.1 hb
      obtain ⟨hall, hbs⟩ := ih.1 hrest
      exact ⟨⟨ha, hall⟩, b, bs, hab, hbs, rfl⟩
    · rintro ⟨⟨ha, hall⟩, b, bs, hab, hbs, rfl⟩
      exact ⟨b, bs, h.2 ⟨ha, hab⟩, ih.2 ⟨hall, hbs⟩, rfl⟩

theorem exists_traverse {f : α → Except ε β} {l : List α} (h : ∀ a ∈ l, ∃ b, f a = .ok b) :
    ∃ bs, traverse f l = .ok bs := by
  induction l with
  | nil => exact ⟨[], rfl⟩
  | cons a rest ih =>
    obtain ⟨ha, hrest⟩ := List.forall_mem_cons.1 h
    obtain ⟨b, hb⟩ := ha
    obtain ⟨bs, hbs⟩ := ih hrest
    exact ⟨b :: bs, traverse_cons_eq_ok.2 ⟨b, bs, hb, hbs, rfl⟩⟩

end Traversals

/-! ## Verdicts -/

section Verdicts

variable {ε ε' α β : Type}

/-- Whether a computation fails, and with which error; its result is left out. -/
def verdict (x : Except ε α) : Except ε Unit := (fun _ => ()) <$> x

@[simp] theorem verdict_ok (a : α) : verdict (.ok a : Except ε α) = .ok () := rfl

@[simp] theorem verdict_error (e : ε) : verdict (.error e : Except ε α) = .error e := rfl

theorem verdict_eq_ok {x : Except ε α} : verdict x = .ok () ↔ ∃ a, x = .ok a := by
  cases x <;> simp

theorem verdict_eq_error {x : Except ε α} {e : ε} : verdict x = .error e ↔ x = .error e := by
  cases x <;> simp

/-- A computation whose result does not matter for what comes after it. -/
theorem verdict_bind {x : Except ε α} {f : α → Except ε β} {y : Except ε Unit}
    (h : ∀ a, verdict (f a) = y) : verdict (x >>= f) = (do verdict x; y) := by
  cases x with
  | error e => rfl
  | ok a => exact h a

theorem verdict_check_bind (x : Except ε Unit) (y : Except ε α) :
    verdict (do x; y) = (do x; verdict y) := by
  cases x <;> rfl

theorem verdict_bind_pure (x : Except ε α) (f : α → β) :
    verdict (do return f (← x)) = verdict x := by
  cases x <;> rfl

theorem demand_congr {p q : Prop} [Decidable p] [Decidable q] (h : p ↔ q) (error : ε) :
    demand p error = demand q error := by
  unfold demand
  exact if_congr h rfl rfl

theorem verdict_traverse (f : α → Except ε β) (l : List α) :
    verdict (traverse f l) = checkAll (fun a => verdict (f a)) l := by
  induction l with
  | nil => rfl
  | cons a rest ih =>
    rw [traverse, checkAll]
    refine verdict_bind fun b => ?_
    rw [verdict_bind_pure, ih]

theorem mapError_checkAll (f : ε → ε') (check : α → Except ε Unit) (l : List α) :
    (checkAll check l).mapError f = checkAll (fun a => (check a).mapError f) l := by
  induction l with
  | nil => rfl
  | cons a rest ih =>
    rw [checkAll, checkAll, ← ih]
    cases check a <;> rfl

end Verdicts

/-! ## Checks in order -/

section InOrder

variable {ε α β : Type} {check : List α → α → Except ε Unit} {before l : List α}

/-- Checks the members of a list from the first to the last, each in view of those before it. -/
def checkInOrder (check : List α → α → Except ε Unit) (before : List α) :
    List α → Except ε Unit
  | [] => .ok ()
  | a :: rest => do
    check before a
    checkInOrder check (before ++ [a]) rest

theorem checkInOrder_append (l m : List α) :
    checkInOrder check before (l ++ m) =
      (do checkInOrder check before l; checkInOrder check (before ++ l) m) := by
  induction l generalizing before with
  | nil => rw [List.append_nil]; rfl
  | cons a rest ih =>
    rw [List.cons_append, checkInOrder, checkInOrder, bind_assoc, ih, List.append_assoc,
      List.singleton_append]

/-- Checks that do not look at the members before. -/
theorem checkInOrder_map {g : β → α} {f : β → Except ε Unit}
    (h : ∀ before b, check before (g b) = f b) (before : List α) (l : List β) :
    checkInOrder check before (l.map g) = checkAll f l := by
  induction l generalizing before with
  | nil => rfl
  | cons b rest ih => rw [List.map_cons, checkInOrder, checkAll, h, ih]

theorem checkInOrder_eq_ok :
    checkInOrder check before l = .ok () ↔
      ∀ passed a rest, l = passed ++ a :: rest → check (before ++ passed) a = .ok () := by
  induction l generalizing before with
  | nil => simp [checkInOrder]
  | cons b l ih =>
    rw [checkInOrder, check_bind_eq_ok, ih]
    constructor
    · rintro ⟨hb, hl⟩ passed a rest h
      cases passed with
      | nil =>
        obtain ⟨rfl, _⟩ := List.cons.inj h
        rwa [List.append_nil]
      | cons c passed =>
        obtain ⟨rfl, hrest⟩ := List.cons.inj h
        rw [List.append_cons]
        exact hl passed a rest hrest
    · intro h
      refine ⟨?_, fun passed a rest hl => ?_⟩
      · rw [← List.append_nil before]
        exact h [] b l rfl
      · rw [← List.append_cons]
        exact h (b :: passed) a rest (by rw [hl, List.cons_append])

/-- The error is that of the first member that does not pass. -/
theorem checkInOrder_eq_error {e : ε} :
    checkInOrder check before l = .error e ↔
      ∃ passed a rest, l = passed ++ a :: rest ∧ checkInOrder check before passed = .ok () ∧
        check (before ++ passed) a = .error e := by
  constructor
  · intro h
    induction l generalizing before with
    | nil => cases h
    | cons a rest ih =>
      rw [checkInOrder] at h
      cases ha : check before a with
      | error e' =>
        rw [ha] at h
        refine ⟨[], a, rest, rfl, rfl, ?_⟩
        rw [List.append_nil, ha]
        exact h
      | ok =>
        rw [ha, ok_bind] at h
        obtain ⟨passed, b, rest, rfl, hpassed, hb⟩ := ih h
        refine ⟨a :: passed, b, rest, rfl, ?_, ?_⟩
        · rw [checkInOrder, ha, ok_bind, hpassed]
        · rw [List.append_cons, hb]
  · rintro ⟨passed, a, rest, rfl, hpassed, ha⟩
    rw [checkInOrder_append, hpassed, ok_bind, checkInOrder, ha, error_bind]

end InOrder

end Restaking
