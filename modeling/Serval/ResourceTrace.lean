import Mathlib.Data.List.Basic

/-! # Taking and giving back

A computation that may have no outcome, with the resources that it takes and gives back in their order.
-/
namespace ResourceTrace

open List

inductive Event (ρ : Type*) where
  | acquire (r : ρ)
  | release (r : ρ)
  deriving DecidableEq, Repr

variable {ρ α β : Type}

def Event.resource : Event ρ → ρ
  | .acquire r => r
  | .release r => r

@[simp] theorem resource_acquire (r : ρ) : (Event.acquire r).resource = r := rfl

@[simp] theorem resource_release (r : ρ) : (Event.release r).resource = r := rfl

abbrev Traced (ρ α : Type) := StateT (List (Event ρ)) Option α

def acquire (r : ρ) : Traced ρ Unit := modify (· ++ [.acquire r])

def release (r : ρ) : Traced ρ Unit := modify (· ++ [.release r])

/-! ## What a computation takes and gives back -/

/-- The computation has the outcome of the plain one, and takes and gives back these resources on the way to it. -/
def Traces (m : Traced ρ α) (x : Option α) (tr : List (Event ρ)) : Prop := ∀ t, m.run t = x.map (·, t ++ tr)

theorem Traces.run {m : Traced ρ α} {x : Option α} {tr : List (Event ρ)} (h : Traces m x tr) (t : List (Event ρ)) :
    m.run t = x.map fun a => (a, t ++ tr) := h t

theorem Traces.trace_eq {m : Traced ρ α} {x : Option α} {tr trace : List (Event ρ)} {a : α} (h : Traces m x tr)
    (hrun : m.run [] = some (a, trace)) : trace = tr := by
  rw [h.run, Option.map_eq_some_iff] at hrun
  obtain ⟨b, -, hb⟩ := hrun
  exact (congrArg Prod.snd hb).symm

section Rules

variable {m : Traced ρ α} {x : Option α} {y : Option β} {f : α → Traced ρ β} {tr tr' : List (Event ρ)}

theorem traces_pure (a : α) : Traces (pure a : Traced ρ α) (some a) [] := by
  intro t
  rw [append_nil]
  rfl

@[simp] theorem run_lift (x : Option α) (t : List (Event ρ)) : (liftM x : Traced ρ α).run t = x.map (·, t) := by
  cases x with
  | none | some a => rfl

theorem traces_lift (x : Option α) : Traces (liftM x : Traced ρ α) x [] := by
  intro t
  rw [run_lift, append_nil]

theorem traces_bind {a : α} (hm : Traces m (some a) tr) (hf : Traces (f a) y tr') : Traces (m >>= f) y (tr ++ tr') := by
  intro t
  rw [StateT.run_bind, hm t, ← append_assoc]
  exact hf (t ++ tr)

theorem traces_bind_lift_of {g : α → Option β} (hf : ∀ a, x = some a → Traces (f a) (g a) tr) :
    Traces (liftM x >>= f) (x.bind g) tr := by
  intro t
  rw [StateT.run_bind, run_lift]
  cases x with
  | none => rfl
  | some a => exact hf a rfl t

theorem traces_bind_lift {g : α → Option β} (hf : ∀ a, Traces (f a) (g a) tr) : Traces (liftM x >>= f) (x.bind g) tr :=
  traces_bind_lift_of fun a _ => hf a

theorem traces_bind_lift_self {f : α → Traced ρ α} (hf : ∀ a, Traces (f a) (some a) tr) :
    Traces (liftM x >>= f) x tr := by
  have hbind := traces_bind_lift (x := x) hf
  rwa [Option.bind_fun_some] at hbind

theorem traces_bind_release {r : ρ} {f : Unit → Traced ρ β} (hf : Traces (f ()) y tr) :
    Traces (release r >>= f) y (.release r :: tr) := by
  have hone : Traces (release r) (some ()) [.release r] := fun _ => rfl
  exact traces_bind hone hf

end Rules

section Settled

variable [DecidableEq ρ]

def Settled (t : List (Event ρ)) : Prop :=
  ∀ r, t.filter (·.resource = r) = [] ∨ t.filter (·.resource = r) = [.acquire r, .release r]

theorem settled_nil : Settled ([] : List (Event ρ)) := fun _ => .inl rfl

theorem settled_wrap {t : List (Event ρ)} {r : ρ} (h : Settled t) (hr : ∀ e ∈ t, e.resource ≠ r) :
    Settled (.acquire r :: t ++ [.release r]) := by
  intro r'
  by_cases hrr : r = r'
  · subst hrr
    have hnone : t.filter (·.resource = r) = [] := by
      rw [filter_eq_nil_iff]
      intro e he
      simpa using hr e he
    refine .inr ?_
    simp [filter_append, hnone]
  · simpa [filter_append, hrr] using h r'

end Settled

end ResourceTrace
