import Mathlib.Data.List.Forall2
import PassTrace.Session.Basic

/-!
# What a computation comes to

A computation that may fail and gives notices comes to a result or to a failure. As long as no part
of it looks at the notices given before, what it comes to can be told part by part. Refusals are the
failures that a reader of sessions is meant to have; any other failure escapes from it.
-/

namespace PassTrace

/-- Whether a failure refuses a session: it is damaged, or of a newer kind. -/
def Failure.IsRefusal : Failure → Prop
  | .newerSchema _ | .corrupt .. => True
  | _ => False

@[simp] theorem Failure.isRefusal_corrupt (damage : Damage) (position : Option Nat) :
    (Failure.corrupt damage position).IsRefusal :=
  trivial

@[simp] theorem Failure.isRefusal_newerSchema (found : Int) :
    (Failure.newerSchema found).IsRefusal :=
  trivial

/-- Computations over a list fail with the first failure among them. -/
theorem Failure.mapM_eq_error_iff {α β : Type} {f : α → Except Failure β} {items : List α}
    {e : Failure} :
    items.mapM f = .error e ↔ ∃ front item back, items = front ++ item :: back ∧
      (∀ a ∈ front, ∃ b, f a = .ok b) ∧ f item = .error e := by
  induction items with
  | nil => simp [pure, Except.pure]
  | cons item items ih =>
    rw [List.mapM_cons]
    cases hitem : f item with
    | error e' =>
      constructor
      · intro h
        obtain rfl := Except.error.inj h
        exact ⟨[], item, items, rfl, by simp, hitem⟩
      · rintro ⟨_ | ⟨first, front⟩, other, back, heq, hfront, h⟩
        · obtain ⟨rfl, -⟩ := List.cons.inj heq
          obtain rfl := Except.error.inj (hitem.symm.trans h)
          rfl
        · obtain ⟨rfl, -⟩ := List.cons.inj heq
          obtain ⟨b, hb⟩ := hfront item List.mem_cons_self
          rw [hitem] at hb
          cases hb
    | ok b =>
      have hrest : (do return b :: (← items.mapM f) : Except Failure (List β)) = .error e ↔
          items.mapM f = .error e := by
        cases items.mapM f <;> simp [pure, Except.pure, bind, Except.bind]
      refine hrest.trans (ih.trans ?_)
      constructor
      · rintro ⟨front, other, back, rfl, hfront, h⟩
        refine ⟨item :: front, other, back, rfl, ?_, h⟩
        exact List.forall_mem_cons.2 ⟨⟨b, hitem⟩, hfront⟩
      · rintro ⟨_ | ⟨first, front⟩, other, back, heq, hfront, h⟩
        · obtain ⟨rfl, -⟩ := List.cons.inj heq
          rw [hitem] at h
          cases h
        · obtain ⟨-, rfl⟩ := List.cons.inj heq
          exact ⟨front, other, back, rfl, (List.forall_mem_cons.1 hfront).2, h⟩

namespace Reporting

variable {α β : Type} {a : α} {b : β} {e e' : Failure} {x : Reporting α} {f : α → Reporting β}

/-- What a computation comes to, its notices left aside. -/
def outcome (x : Reporting α) : Except Failure α :=
  (x.run.run []).1

/-- What a computation comes to does not depend on the notices given before. -/
class IsSteady (x : Reporting α) : Prop where
  outcome_eq : ∀ notices, (x.run.run notices).1 = x.outcome

/-- A computation fails otherwise than by a refusal. -/
def Escapes (x : Reporting α) (e : Failure) : Prop :=
  x.outcome = .error e ∧ ¬ e.IsRefusal

@[simp] theorem outcome_pure (a : α) : (pure a : Reporting α).outcome = .ok a := rfl

@[simp] theorem outcome_throw (e : Failure) : (throw e : Reporting α).outcome = .error e := rfl

/-- What there must be is there. -/
@[simp] theorem outcome_need_eq_ok {damage : Damage} {o : Option α} :
    (need damage o).outcome = .ok a ↔ o = some a := by
  cases o <;> simp [need]

@[simp] theorem outcome_require_eq_ok {condition : Bool} {damage : Damage} {u : Unit} :
    (require condition damage).outcome = .ok u ↔ condition = true := by
  cases condition <;> simp [require]

@[simp] theorem not_escapes_pure : ¬ (pure a : Reporting α).Escapes e := by
  rintro ⟨h, -⟩
  cases h

@[simp] theorem escapes_throw :
    (throw e' : Reporting α).Escapes e ↔ e' = e ∧ ¬ e'.IsRefusal := by
  unfold Escapes
  rw [outcome_throw, Except.error.injEq]
  constructor
  · rintro ⟨rfl, h⟩
    exact ⟨rfl, h⟩
  · rintro ⟨rfl, h⟩
    exact ⟨rfl, h⟩

@[simp] theorem not_escapes_need {damage : Damage} {o : Option α} :
    ¬ (need damage o).Escapes e := by
  cases o <;> simp [need]

@[simp] theorem not_escapes_require {condition : Bool} {damage : Damage} :
    ¬ (require condition damage).Escapes e := by
  cases condition <;> simp [require]

instance isSteady_pure (a : α) : (pure a : Reporting α).IsSteady := ⟨fun _ => rfl⟩

instance isSteady_throw (e : Failure) : (throw e : Reporting α).IsSteady := ⟨fun _ => rfl⟩

instance isSteady_notify (notice : Notice) : (notify notice).IsSteady := ⟨fun _ => rfl⟩

instance isSteady_ite {c : Prop} [Decidable c] {x y : Reporting α} [x.IsSteady] [y.IsSteady] :
    (if c then x else y).IsSteady := by
  split <;> assumption

instance isSteady_need (damage : Damage) (o : Option α) : (need damage o).IsSteady := by
  cases o <;> exact ⟨fun _ => rfl⟩

instance isSteady_require (condition : Bool) (damage : Damage) :
    (require condition damage).IsSteady := by
  cases condition <;> exact ⟨fun _ => rfl⟩

/-- The first of two computations runs, and behind its success the second. -/
theorem run_bind (x : Reporting α) (f : α → Reporting β) (notices : List Notice) :
    (x >>= f).run.run notices =
      match x.run.run notices with
      | (.ok a, notices) => (f a).run.run notices
      | (.error e, notices) => (.error e, notices) := by
  rw [ExceptT.run_bind, StateT.run_bind]
  rcases x.run.run notices with ⟨_ | _, _⟩ <;> rfl

/-- What two computations in turn come to, if the second is steady. -/
theorem outcome_bind [∀ a, (f a).IsSteady] :
    (x >>= f).outcome = x.outcome >>= fun a => (f a).outcome := by
  unfold outcome
  rw [run_bind]
  rcases x.run.run [] with ⟨e | a, notices⟩
  · rfl
  · -- The second starts from the notices of the first, which do not matter to it.
    exact IsSteady.outcome_eq notices

instance isSteady_bind [x.IsSteady] [∀ a, (f a).IsSteady] : (x >>= f).IsSteady := by
  constructor
  intro notices
  rw [run_bind, outcome_bind, ← IsSteady.outcome_eq (x := x) notices]
  rcases x.run.run notices with ⟨e | a, notices'⟩
  · rfl
  · exact IsSteady.outcome_eq notices'

/-- Two computations in turn succeed if both do. -/
theorem outcome_bind_eq_ok [∀ a, (f a).IsSteady] :
    (x >>= f).outcome = .ok b ↔ ∃ a, x.outcome = .ok a ∧ (f a).outcome = .ok b := by
  rw [outcome_bind]
  cases x.outcome with
  | error e => simp [bind, Except.bind]
  | ok a => simp [bind, Except.bind]

/-- A failure escapes from the first of two computations, or from the second behind a success. -/
theorem escapes_bind [∀ a, (f a).IsSteady] :
    (x >>= f).Escapes e ↔ x.Escapes e ∨ ∃ a, x.outcome = .ok a ∧ (f a).Escapes e := by
  unfold Escapes
  rw [outcome_bind]
  cases x.outcome with
  | error e' => simp [bind, Except.bind]
  | ok a => simp [bind, Except.bind]

section Map

variable {g : α → β}

instance isSteady_map [x.IsSteady] : (g <$> x).IsSteady := by
  rw [map_eq_pure_bind]
  infer_instance

@[simp] theorem outcome_map_eq_ok :
    (g <$> x).outcome = .ok b ↔ ∃ a, x.outcome = .ok a ∧ g a = b := by
  rw [map_eq_pure_bind, outcome_bind_eq_ok]
  simp only [outcome_pure, Except.ok.injEq]

@[simp] theorem escapes_map : (g <$> x).Escapes e ↔ x.Escapes e := by
  rw [map_eq_pure_bind, escapes_bind]
  simp only [not_escapes_pure, and_false, exists_false, or_false]

end Map

section Lists

variable {items : List α} {results : List β} [∀ a, (f a).IsSteady]

instance isSteady_mapM : (items.mapM f).IsSteady := by
  induction items with
  | nil => exact isSteady_pure []
  | cons item items ih =>
    rw [List.mapM_cons]
    infer_instance

/-- What computations over a list come to. -/
theorem outcome_mapM : (items.mapM f).outcome = items.mapM fun a => (f a).outcome := by
  induction items with
  | nil => rfl
  | cons item items ih =>
    rw [List.mapM_cons, List.mapM_cons, outcome_bind]
    simp only [outcome_bind, ih]
    rfl

/-- Computations over a list succeed if all of them do. -/
theorem outcome_mapM_eq_ok : (items.mapM f).outcome = .ok results ↔
    List.Forall₂ (fun a b => (f a).outcome = .ok b) items results := by
  induction items generalizing results with
  | nil =>
    rw [List.mapM_nil, outcome_pure, List.forall₂_nil_left_iff]
    exact ⟨fun h => (Except.ok.inj h).symm, fun h => h ▸ rfl⟩
  | cons item items ih =>
    rw [List.mapM_cons, List.forall₂_cons_left_iff]
    simp only [bind_pure_comp, outcome_bind_eq_ok, outcome_map_eq_ok, ih]
    constructor
    · rintro ⟨b, hb, bs, hbs, rfl⟩
      exact ⟨b, bs, hb, hbs, rfl⟩
    · rintro ⟨b, bs, hb, hbs, rfl⟩
      exact ⟨b, hb, bs, hbs, rfl⟩

/-- Computations over a list succeed if all of them do, whatever their results are. -/
theorem exists_outcome_mapM : (∃ results, (items.mapM f).outcome = .ok results) ↔
    ∀ item ∈ items, ∃ b, (f item).outcome = .ok b := by
  simp only [outcome_mapM_eq_ok]
  induction items with
  | nil => simp
  | cons item items ih =>
    simp only [List.forall₂_cons_left_iff, List.forall_mem_cons, ← ih]
    constructor
    · rintro ⟨-, b, bs, hb, hbs, -⟩
      exact ⟨⟨b, hb⟩, bs, hbs⟩
    · rintro ⟨⟨b, hb⟩, bs, hbs⟩
      exact ⟨_, b, bs, hb, hbs, rfl⟩

/-- A failure escapes from one of the computations over a list, behind successes. -/
theorem escapes_mapM : (items.mapM f).Escapes e ↔ ∃ front item back,
    items = front ++ item :: back ∧ (∀ a ∈ front, ∃ b, (f a).outcome = .ok b) ∧
      (f item).Escapes e := by
  unfold Escapes
  rw [outcome_mapM, Failure.mapM_eq_error_iff]
  constructor
  · rintro ⟨⟨front, item, back, hitems, hfront, h⟩, hrefusal⟩
    exact ⟨front, item, back, hitems, hfront, h, hrefusal⟩
  · rintro ⟨front, item, back, hitems, hfront, h, hrefusal⟩
    exact ⟨⟨front, item, back, hitems, hfront, h⟩, hrefusal⟩

end Lists
end Reporting
end PassTrace
