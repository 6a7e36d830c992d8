import Restaking.Check

/-!
# Computations that may fail

How a successful `Except` computation opens into its steps, and what folds of such steps keep.
Reading or checking all members first makes no difference to a successful fold (`foldlM_traverse`,
`foldlM_checkAll`). A preorder that every step respects relates the two ends of a fold
(`foldlM_rel`), and what a step leaves behind for its member is there at the end if later steps keep
it (`foldlM_traces`). A computation that also has a state hands it on from step to step, and ends at
the first error in the state that it has reached by then (`runFrom_bind`). Which errors can occur at
all is read off the steps (`FailsOnly`).
-/

namespace Restaking

variable {ε ε' α β σ : Type}

/-! ## Single steps -/

@[simp] theorem ok_bind (a : α) (f : α → Except ε β) : (Except.ok a >>= f) = f a := rfl

@[simp] theorem error_bind (e : ε) (f : α → Except ε β) :
    ((Except.error e : Except ε α) >>= f) = .error e := rfl

@[simp] theorem bind_ok (x : Except ε α) : (x >>= fun a => Except.ok a) = x := by
  cases x <;> rfl

@[simp] theorem map_ok (f : α → β) (a : α) : (f <$> (Except.ok a : Except ε α)) = .ok (f a) := rfl

@[simp] theorem map_error (f : α → β) (e : ε) :
    (f <$> (Except.error e : Except ε α)) = .error e := rfl

@[simp] theorem pure_eq_ok (a : α) : (pure a : Except ε α) = .ok a := rfl

@[simp] theorem mapError_ok (f : ε → ε') (a : α) :
    (Except.ok a : Except ε α).mapError f = .ok a := rfl

@[simp] theorem mapError_error (f : ε → ε') (e : ε) :
    (Except.error e : Except ε α).mapError f = .error (f e) := rfl

theorem bind_eq_ok {x : Except ε α} {f : α → Except ε β} {b : β} :
    (x >>= f) = .ok b ↔ ∃ a, x = .ok a ∧ f a = .ok b := by
  cases x <;> simp

theorem map_eq_ok {x : Except ε α} {f : α → β} {b : β} :
    f <$> x = .ok b ↔ ∃ a, x = .ok a ∧ f a = b := by
  cases x <;> simp

@[simp] theorem mapError_eq_ok {x : Except ε α} {f : ε → ε'} {a : α} :
    x.mapError f = .ok a ↔ x = .ok a := by
  cases x <;> simp

/-- A check that succeeds has only one result. -/
theorem check_bind_eq_ok {x : Except ε Unit} {y : Except ε β} {b : β} :
    (do x; y) = .ok b ↔ x = .ok () ∧ y = .ok b := by
  cases x <;> simp

theorem demand_neg {condition : Prop} [Decidable condition] (h : ¬ condition) (error : ε) :
    demand condition error = .error error := if_neg h

theorem checkAll_eq_ok {check : α → Except ε Unit} {l : List α} :
    checkAll check l = .ok () ↔ ∀ a ∈ l, check a = .ok () := by
  induction l with
  | nil => simp [checkAll]
  | cons a rest ih => rw [checkAll, check_bind_eq_ok, ih, List.forall_mem_cons]

theorem traverse_cons_eq_ok {f : α → Except ε β} {a : α} {l : List α} {bs : List β} :
    traverse f (a :: l) = .ok bs ↔
      ∃ b rest, f a = .ok b ∧ traverse f l = .ok rest ∧ bs = b :: rest := by
  rw [traverse, bind_eq_ok]
  constructor
  · rintro ⟨b, hb, h⟩
    obtain ⟨rest, hrest, h⟩ := bind_eq_ok.1 h
    exact ⟨b, rest, hb, hrest, (Except.ok.inj h).symm⟩
  · rintro ⟨b, rest, hb, hrest, rfl⟩
    exact ⟨b, hb, by rw [hrest, ok_bind, pure_eq_ok]⟩

/-- A traversal of a function that computes `g` under a condition. -/
theorem traverse_eq_ok {f : α → Except ε β} {g : α → β} {P : α → Prop}
    (h : ∀ {a b}, f a = .ok b ↔ P a ∧ b = g a) {l : List α} {bs : List β} :
    traverse f l = .ok bs ↔ (∀ a ∈ l, P a) ∧ bs = l.map g := by
  induction l generalizing bs with
  | nil => simp [traverse, eq_comm]
  | cons a rest ih =>
    rw [traverse_cons_eq_ok, List.forall_mem_cons, List.map_cons]
    constructor
    · rintro ⟨b, bs, hb, hrest, rfl⟩
      obtain ⟨ha, rfl⟩ := h.1 hb
      obtain ⟨hall, rfl⟩ := ih.1 hrest
      exact ⟨⟨ha, hall⟩, rfl⟩
    · rintro ⟨⟨ha, hall⟩, rfl⟩
      exact ⟨g a, rest.map g, h.2 ⟨ha, rfl⟩, ih.2 ⟨hall, rfl⟩, rfl⟩

/-- What holds of every member that can be read holds of all that a traversal reads. -/
theorem forall_of_traverse {f : α → Except ε β} {P : β → Prop} (h : ∀ {a b}, f a = .ok b → P b)
    {l : List α} {bs : List β} (ht : traverse f l = .ok bs) : ∀ b ∈ bs, P b := by
  induction l generalizing bs with
  | nil =>
    obtain rfl := Except.ok.inj ht
    exact fun b hb => absurd hb List.not_mem_nil
  | cons a rest ih =>
    obtain ⟨b, bs, hb, hrest, rfl⟩ := traverse_cons_eq_ok.1 ht
    exact List.forall_mem_cons.2 ⟨h hb, ih hrest⟩

/-- Two views that agree on each member and what is read of it agree on the whole lists. -/
theorem map_of_traverse {γ : Type} {f : α → Except ε β} {g : β → γ} {k : α → γ}
    (h : ∀ {a b}, f a = .ok b → g b = k a) {l : List α} {bs : List β}
    (ht : traverse f l = .ok bs) : bs.map g = l.map k := by
  induction l generalizing bs with
  | nil =>
    obtain rfl := Except.ok.inj ht
    rfl
  | cons a rest ih =>
    obtain ⟨b, bs, hb, hrest, rfl⟩ := traverse_cons_eq_ok.1 ht
    rw [List.map_cons, List.map_cons, h hb, ih hrest]

theorem length_traverse {f : α → Except ε β} {l : List α} {bs : List β}
    (ht : traverse f l = .ok bs) : bs.length = l.length := by
  induction l generalizing bs with
  | nil =>
    obtain rfl := Except.ok.inj ht
    rfl
  | cons a rest ih =>
    obtain ⟨b, bs, _, hrest, rfl⟩ := traverse_cons_eq_ok.1 ht
    rw [List.length_cons, List.length_cons, ih hrest]

theorem traverse_map {γ : Type} {f : β → Except ε γ} {g : α → β} (l : List α) :
    traverse f (l.map g) = traverse (fun a => f (g a)) l := by
  induction l with
  | nil => rfl
  | cons a rest ih => rw [List.map_cons, traverse, traverse, ih]

/-- Values that a function undoes under a condition. -/
theorem traverse_map_eq_ok {f : β → Except ε α} {g : α → β} {P : α → Prop}
    (h : ∀ {a a'}, f (g a) = .ok a' ↔ P a ∧ a' = a) {l l' : List α} :
    traverse f (l.map g) = .ok l' ↔ (∀ a ∈ l, P a) ∧ l' = l := by
  have hid : traverse (fun a => f (g a)) l = .ok l' ↔ (∀ a ∈ l, P a) ∧ l' = l.map id :=
    traverse_eq_ok h
  rw [traverse_map, hid, List.map_id]

theorem toOption_eq_some {x : Except ε α} {a : α} : x.toOption = some a ↔ x = .ok a := by
  cases x <;> simp [Except.toOption]

/-- Whether a computation fails with an error can be evaluated, even if its results cannot be
compared. -/
instance decidableEqError [DecidableEq ε] (x : Except ε α) (e : ε) : Decidable (x = .error e) :=
  match x with
  | .error e' => decidable_of_iff (e' = e) ⟨congrArg Except.error, Except.error.inj⟩
  | .ok _ => isFalse nofun

/-! ## With a state -/

/-- The result of a computation that starts in a state, and the state that it ends in. -/
def runFrom (s : σ) (x : ExceptT ε (StateM σ) α) : Except ε α × σ := Id.run (x.run.run s)

section RunFrom

variable (s : σ)

theorem runFrom_pure (a : α) : runFrom s (pure a : ExceptT ε (StateM σ) α) = (.ok a, s) := rfl

theorem runFrom_get : runFrom s (get : ExceptT ε (StateM σ) σ) = (.ok s, s) := rfl

theorem runFrom_modify (f : σ → σ) :
    runFrom s (modify f : ExceptT ε (StateM σ) Unit) = (.ok (), f s) := rfl

theorem runFrom_attempt (x : Except ε α) :
    runFrom s (attempt x : ExceptT ε (StateM σ) α) = (x, s) := rfl

theorem runFrom_bind (x : ExceptT ε (StateM σ) α) (f : α → ExceptT ε (StateM σ) β) :
    runFrom s (x >>= f) =
      match runFrom s x with
      | (.ok a, s') => runFrom s' (f a)
      | (.error e, s') => (.error e, s') := by
  unfold runFrom
  rw [ExceptT.run_bind, StateT.run_bind]
  generalize x.run.run s = result
  obtain ⟨_ | a, s'⟩ := result <;> rfl

end RunFrom

/-! ## Folds -/

theorem foldlM_cons_eq_ok {step : σ → α → Except ε σ} {a : α} {l : List α} {s t : σ} :
    (a :: l).foldlM step s = .ok t ↔ ∃ u, step s a = .ok u ∧ l.foldlM step u = .ok t := by
  rw [List.foldlM_cons, bind_eq_ok]

/-- A map of states that every step respects can be taken before the fold or after it. -/
theorem foldlM_map_state {τ : Type} (f : σ → τ) {step : σ → α → Except ε σ}
    {step' : τ → α → Except ε τ} (h : ∀ s a, f <$> step s a = step' (f s) a) (l : List α) (s : σ) :
    f <$> l.foldlM step s = l.foldlM step' (f s) := by
  induction l generalizing s with
  | nil => rfl
  | cons a rest ih =>
    rw [List.foldlM_cons, List.foldlM_cons, ← h, map_bind]
    cases step s a with
    | error e => rfl
    | ok s => exact ih s

/-- Folds agree on their results if their steps do, in the states that an invariant allows. -/
theorem foldlM_eq_ok_congr (inv : σ → Prop) {step step' : σ → α → Except ε σ}
    (h : ∀ {s a t}, inv s → (step s a = .ok t ↔ step' s a = .ok t))
    (hinv : ∀ {s a t}, inv s → step' s a = .ok t → inv t) {l : List α} {s t : σ} (hs : inv s) :
    l.foldlM step s = .ok t ↔ l.foldlM step' s = .ok t := by
  induction l generalizing s with
  | nil => rfl
  | cons a rest ih =>
    rw [foldlM_cons_eq_ok, foldlM_cons_eq_ok]
    constructor
    · rintro ⟨u, hu, hrest⟩
      have hu' := (h hs).1 hu
      exact ⟨u, hu', (ih (hinv hs hu')).1 hrest⟩
    · rintro ⟨u, hu, hrest⟩
      exact ⟨u, (h hs).2 hu, (ih (hinv hs hu)).2 hrest⟩

theorem foldlM_eq_ok_iff {step step' : σ → α → Except ε σ}
    (h : ∀ {s a t}, step s a = .ok t ↔ step' s a = .ok t) {l : List α} {s t : σ} :
    l.foldlM step s = .ok t ↔ l.foldlM step' s = .ok t :=
  foldlM_eq_ok_congr (fun _ => True) (fun _ => h) (fun _ _ => trivial) trivial

/-- Reading all members before the first step is reading each of them right before its step. -/
theorem foldlM_traverse {read : α → Except ε' β} (f : ε' → ε) {step : σ → β → Except ε σ}
    {l : List α} {s t : σ} :
    l.foldlM (fun s a => (read a).mapError f >>= step s) s = .ok t ↔
      ∃ bs, traverse read l = .ok bs ∧ bs.foldlM step s = .ok t := by
  induction l generalizing s with
  | nil => simp [traverse]
  | cons a rest ih =>
    rw [foldlM_cons_eq_ok]
    constructor
    · rintro ⟨u, hu, hrest⟩
      obtain ⟨b, hb, hstep⟩ := bind_eq_ok.1 hu
      obtain ⟨bs, hbs, hfold⟩ := ih.1 hrest
      exact ⟨b :: bs, traverse_cons_eq_ok.2 ⟨b, bs, mapError_eq_ok.1 hb, hbs, rfl⟩,
        foldlM_cons_eq_ok.2 ⟨u, hstep, hfold⟩⟩
    · rintro ⟨bs, hbs, hfold⟩
      obtain ⟨b, rest, hb, hrest, rfl⟩ := traverse_cons_eq_ok.1 hbs
      obtain ⟨u, hstep, hfold⟩ := foldlM_cons_eq_ok.1 hfold
      exact ⟨u, bind_eq_ok.2 ⟨b, mapError_eq_ok.2 hb, hstep⟩, ih.2 ⟨rest, hrest, hfold⟩⟩

/-- Checking all members before the first step is checking each of them right before its step. -/
theorem foldlM_checkAll {check : α → Except ε' Unit} (f : ε' → ε) {step : σ → α → Except ε σ}
    {l : List α} {s t : σ} :
    l.foldlM (fun s a => do (check a).mapError f; step s a) s = .ok t ↔
      (∀ a ∈ l, check a = .ok ()) ∧ l.foldlM step s = .ok t := by
  induction l generalizing s with
  | nil => simp
  | cons a rest ih =>
    simp only [foldlM_cons_eq_ok, check_bind_eq_ok, mapError_eq_ok, ih, List.forall_mem_cons]
    constructor
    · rintro ⟨u, ⟨ha, hstep⟩, hrest, hfold⟩
      exact ⟨⟨ha, hrest⟩, u, hstep, hfold⟩
    · rintro ⟨⟨ha, hrest⟩, u, hstep, hfold⟩
      exact ⟨u, ⟨ha, hstep⟩, hrest, hfold⟩

section Steps

variable {step : σ → α → Except ε σ} (rel : σ → σ → Prop) (hrefl : ∀ s, rel s s)
  (htrans : ∀ {s t u}, rel s t → rel t u → rel s u)
  (hstep : ∀ {s a t}, step s a = .ok t → rel s t)

include hrefl htrans hstep

/-- A preorder that every step respects relates the ends of a fold. -/
theorem foldlM_rel {l : List α} {s t : σ} (h : l.foldlM step s = .ok t) : rel s t := by
  induction l generalizing s with
  | nil =>
    obtain rfl : s = t := by simpa using h
    exact hrefl s
  | cons a rest ih =>
    obtain ⟨u, hu, hrest⟩ := foldlM_cons_eq_ok.1 h
    exact htrans (hstep hu) (ih hrest)

/-- What a step leaves behind for its member is there at the end, if the preorder keeps it. -/
theorem foldlM_traces (trace : α → σ → Prop) (hleave : ∀ {s a t}, step s a = .ok t → trace a t)
    (hkeep : ∀ {a s t}, rel s t → trace a s → trace a t) {l : List α} {s t : σ}
    (h : l.foldlM step s = .ok t) : ∀ a ∈ l, trace a t := by
  induction l generalizing s with
  | nil => exact fun a ha => absurd ha List.not_mem_nil
  | cons a rest ih =>
    obtain ⟨u, hu, hrest⟩ := foldlM_cons_eq_ok.1 h
    refine List.forall_mem_cons.2 ⟨?_, ih hrest⟩
    exact hkeep (foldlM_rel rel hrefl htrans hstep hrest) (hleave hu)

end Steps

/-- What no step changes is the same at both ends of a fold. -/
theorem foldlM_keeps {τ : Type} {step : σ → α → Except ε σ} (view : σ → τ)
    (hstep : ∀ {s a t}, step s a = .ok t → view s = view t) {l : List α} {s t : σ}
    (h : l.foldlM step s = .ok t) : view s = view t :=
  foldlM_rel (fun s t => view s = view t) (fun _ => rfl) Eq.trans hstep h

/-- A fold whose steps change nothing changes nothing. -/
theorem foldlM_fixed {step : σ → α → Except ε σ} {l : List α} {s : σ}
    (h : ∀ a ∈ l, step s a = .ok s) : l.foldlM step s = .ok s := by
  induction l with
  | nil => rfl
  | cons a rest ih =>
    rw [List.foldlM_cons, h a List.mem_cons_self, ok_bind]
    exact ih fun b hb => h b (List.mem_cons_of_mem a hb)

/-! ## Errors -/

/-- A computation that can only fail with errors of a kind. -/
def FailsOnly (kind : ε → Prop) (x : Except ε α) : Prop := ∀ e, x = .error e → kind e

namespace FailsOnly

variable {kind : ε → Prop}

theorem ok (a : α) : FailsOnly kind (.ok a : Except ε α) := nofun

theorem error {e : ε} (h : kind e) : FailsOnly kind (.error e : Except ε α) := by
  rintro _ ⟨⟩
  exact h

theorem demand {condition : Prop} [Decidable condition] {e : ε} (h : kind e) :
    FailsOnly kind (demand condition e) := by
  unfold Restaking.demand
  split
  · exact ok ()
  · exact error h

theorem bind {x : Except ε α} {f : α → Except ε β} (hx : FailsOnly kind x)
    (hf : ∀ a, x = .ok a → FailsOnly kind (f a)) : FailsOnly kind (x >>= f) := by
  cases x with
  | error e => exact error (hx e rfl)
  | ok a => exact hf a rfl

theorem map {x : Except ε α} (f : α → β) (hx : FailsOnly kind x) : FailsOnly kind (f <$> x) := by
  cases x with
  | error e => exact error (hx e rfl)
  | ok a => exact ok (f a)

theorem mapError {kind : ε' → Prop} {x : Except ε α} {f : ε → ε'}
    (hx : FailsOnly (fun e => kind (f e)) x) : FailsOnly kind (x.mapError f) := by
  cases x with
  | error e => exact error (hx e rfl)
  | ok a => exact ok a

/-- A fold fails only as its steps do. -/
theorem foldlM {step : σ → α → Except ε σ} {l : List α}
    (h : ∀ a ∈ l, ∀ s, FailsOnly kind (step s a)) (s : σ) : FailsOnly kind (l.foldlM step s) := by
  induction l generalizing s with
  | nil => exact ok s
  | cons a rest ih =>
    obtain ⟨hfirst, hrest⟩ := List.forall_mem_cons.1 h
    rw [List.foldlM_cons]
    exact (hfirst s).bind fun t _ => ih hrest t

end FailsOnly

end Restaking
