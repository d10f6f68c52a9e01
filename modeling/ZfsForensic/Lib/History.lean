import Mathlib.Tactic

/-!
# Histories of a store with snapshots

A store holds contents under names. In a history contents are written, names are removed, and snapshots keep what the store holds at the time. A
name is dropped where a snapshot has caught it and the store lacks it in the end: its last content is that of the newest snapshot that caught it.
-/

namespace History

/-- What happens to a store. -/
inductive Event (N C : Type) where
  | write (name : N) (content : C)
  | remove (name : N)
  | snapshot

/-- A store and its snapshots, newest first. -/
structure State (N C : Type) where
  live : N → Option C
  snapshots : List (N → Option C)

variable {N C : Type} [DecidableEq N]

/-- One event. -/
def step (s : State N C) : Event N C → State N C
  | .write name content => { s with live := fun n => if n = name then some content else s.live n }
  | .remove name => { s with live := fun n => if n = name then none else s.live n }
  | .snapshot => { s with snapshots := s.live :: s.snapshots }

/-- A whole history, from an empty store. -/
def run (events : List (Event N C)) : State N C := events.foldl step ⟨fun _ => none, []⟩

/-- What the newest snapshot that holds a name holds under it. -/
def State.caught (s : State N C) (name : N) : Option C := s.snapshots.findSome? fun files => files name

/-- A snapshot of the history caught the name with the content, and no later one caught it. -/
def Caught (events : List (Event N C)) (name : N) (content : C) : Prop :=
  ∃ before after, events = before ++ .snapshot :: after ∧ (run before).live name = some content ∧
    ∀ x y, after = x ++ .snapshot :: y → (run (before ++ .snapshot :: x)).live name = none

/-- The history dropped the name: a snapshot caught it last with the content, and it is gone in the end. -/
def Dropped (events : List (Event N C)) (name : N) (content : C) : Prop :=
  Caught events name content ∧ (run events).live name = none

theorem run_append_singleton (events : List (Event N C)) (e : Event N C) : run (events ++ [e]) = step (run events) e := by
  rw [run, List.foldl_append, List.foldl_cons, List.foldl_nil, run]

omit [DecidableEq N] in
/-- Where a history with one more event is cut at an event: at the last one, or before it. -/
theorem append_singleton_eq_iff {events before after : List (Event N C)} {e d : Event N C} :
    events ++ [e] = before ++ d :: after ↔
      (after = [] ∧ before = events ∧ d = e) ∨ ∃ after', after = after' ++ [e] ∧ events = before ++ d :: after' := by
  constructor
  · intro h
    rcases List.eq_nil_or_concat after with rfl | ⟨after', d', rfl⟩
    · obtain ⟨hbefore, hd⟩ := List.append_inj' h rfl
      exact Or.inl ⟨rfl, hbefore.symm, (List.cons.inj hd).1.symm⟩
    · rw [List.concat_eq_append, ← List.cons_append, ← List.append_assoc] at h
      obtain ⟨hevents, hd⟩ := List.append_inj' h rfl
      rw [List.concat_eq_append, (List.cons.inj hd).1]
      exact Or.inr ⟨after', rfl, hevents⟩
  · rintro (⟨rfl, rfl, rfl⟩ | ⟨after', rfl, rfl⟩)
    · rfl
    · rw [List.append_assoc, List.cons_append]

/-- An event that is no snapshot catches nothing. -/
theorem caught_append_of_ne {events : List (Event N C)} {e : Event N C} (he : e ≠ .snapshot) (name : N) (content : C) :
    Caught (events ++ [e]) name content ↔ Caught events name content := by
  constructor
  · rintro ⟨before, after, hevents, hlive, hlater⟩
    rcases append_singleton_eq_iff.1 hevents with ⟨-, -, hd⟩ | ⟨after', rfl, rfl⟩
    · exact absurd hd.symm he
    · refine ⟨before, after', rfl, hlive, fun x y hx => hlater x (y ++ [e]) ?_⟩
      rw [hx, List.append_assoc, List.cons_append]
  · rintro ⟨before, after, rfl, hlive, hlater⟩
    refine ⟨before, after ++ [e], by rw [List.append_assoc, List.cons_append], hlive, fun x y hx => ?_⟩
    rcases append_singleton_eq_iff.1 hx with ⟨-, -, hd⟩ | ⟨y', -, hafter⟩
    · exact absurd hd.symm he
    · exact hlater x y' hafter

/-- A snapshot catches what the store holds, and what was caught before of the rest. -/
theorem caught_append_snapshot (events : List (Event N C)) (name : N) (content : C) :
    Caught (events ++ [.snapshot]) name content ↔
      (run events).live name = some content ∨ ((run events).live name = none ∧ Caught events name content) := by
  constructor
  · rintro ⟨before, after, hevents, hlive, hlater⟩
    rcases append_singleton_eq_iff.1 hevents with ⟨-, rfl, -⟩ | ⟨after', rfl, rfl⟩
    · exact Or.inl hlive
    · refine Or.inr ⟨hlater after' [] rfl, before, after', rfl, hlive, fun x y hx => hlater x (y ++ [.snapshot]) ?_⟩
      rw [hx, List.append_assoc, List.cons_append]
  · rintro (hlive | ⟨hnone, before, after, rfl, hlive, hlater⟩)
    · exact ⟨events, [], rfl, hlive, fun x y hx => absurd hx (by simp)⟩
    · refine ⟨before, after ++ [.snapshot], by rw [List.append_assoc, List.cons_append], hlive, fun x y hx => ?_⟩
      rcases append_singleton_eq_iff.1 hx with ⟨-, rfl, -⟩ | ⟨y', -, hafter⟩
      · exact hnone
      · exact hlater x y' hafter

/-- What a run has caught is what its history says. -/
theorem caught_run_iff (events : List (Event N C)) (name : N) (content : C) :
    (run events).caught name = some content ↔ Caught events name content := by
  induction events using List.reverseRecOn with
  | nil =>
    constructor
    · intro h
      exact absurd h (by simp [run, State.caught])
    · rintro ⟨before, after, hevents, -⟩
      exact absurd hevents (by simp)
  | append_singleton events e ih =>
    rw [run_append_singleton]
    cases e with
    | write n c => rw [caught_append_of_ne (by simp), ← ih]; rfl
    | remove n => rw [caught_append_of_ne (by simp), ← ih]; rfl
    | snapshot =>
      rw [caught_append_snapshot, ← ih, step, State.caught, List.findSome?_cons]
      cases hlive : (run events).live name with
      | none => simp [State.caught]
      | some c => simp

/-- What a run has dropped. -/
theorem dropped_iff (events : List (Event N C)) (name : N) (content : C) :
    Dropped events name content ↔ (run events).caught name = some content ∧ (run events).live name = none := by
  rw [Dropped, caught_run_iff]

end History
