import Restaking.Check

/-!
# What is noted along a run

A run makes steps one after the other, and a step may leave a note. What a run comes to is often
best said of its notes: a state and the notes that have led to it are related in some way, and every
step keeps the relation (`notes_rel`).
-/

namespace Restaking

variable {σ τ α : Type} (step : σ → τ → σ) (note : σ → τ → Option α)

/-- The notes that a run leaves, in order. -/
def notes (s : σ) : List τ → List α
  | [] => []
  | e :: rest => (note s e).toList ++ notes (step s e) rest

variable {step note}

/-- A relation between a state and the notes taken so far holds at the end of a run, if each of its
steps keeps it. -/
theorem notes_rel_of_mem (rel : σ → List α → Prop) {events : List τ}
    (hstep : ∀ e ∈ events, ∀ {s taken}, rel s taken → rel (step s e) (taken ++ (note s e).toList))
    {s : σ} {taken : List α} (h : rel s taken) :
    rel (events.foldl step s) (taken ++ notes step note s events) := by
  induction events generalizing s taken with
  | nil =>
    rw [notes, List.append_nil]
    exact h
  | cons e rest ih =>
    rw [List.foldl_cons, notes, ← List.append_assoc]
    exact ih (fun e' he' => hstep e' (List.mem_cons_of_mem e he')) (hstep e List.mem_cons_self h)

/-- A relation between a state and the notes taken so far, which every step keeps, holds at the end
of a run. -/
theorem notes_rel (rel : σ → List α → Prop)
    (hstep : ∀ {s taken} e, rel s taken → rel (step s e) (taken ++ (note s e).toList))
    {s : σ} {taken : List α} (h : rel s taken) (events : List τ) :
    rel (events.foldl step s) (taken ++ notes step note s events) :=
  notes_rel_of_mem rel (fun e _ => hstep e) h

theorem notes_append (s : σ) (before later : List τ) :
    notes step note s (before ++ later) =
      notes step note s before ++ notes step note (before.foldl step s) later := by
  induction before generalizing s with
  | nil => rfl
  | cons e rest ih => rw [List.cons_append, notes, ih, notes, List.append_assoc, List.foldl_cons]

/-- Notes that are read off other notes, step by step. -/
theorem notes_map {β : Type} {note' : σ → τ → Option β} (f : α → β)
    (h : ∀ s e, note' s e = (note s e).map f) (s : σ) (events : List τ) :
    notes step note' s events = (notes step note s events).map f := by
  induction events generalizing s with
  | nil => rfl
  | cons e rest ih => rw [notes, ih, h, notes, List.map_append, Option.toList_map]

end Restaking
