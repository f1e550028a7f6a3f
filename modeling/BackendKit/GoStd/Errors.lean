import Mathlib.Data.List.Forall2
import Mathlib.Data.Option.Basic

/-!
# Error trees

A Go error together with the errors it unwraps to: none for a plain value, one for a value made
by `fmt.Errorf` with `%w`, several for `errors.Join`. `errors.As` and `errors.Is` look through
the tree in pre-order.

A computation that may fail is an `Except`; what a sequence and a loop of such computations have done when
they succeed is `bind_eq_ok` and `forall₂_of_mapM`.
-/

namespace GoStd

/-- An error value and the errors it unwraps to. -/
inductive Error (α : Type) where
  | node (value : α) (unwrap : List (Error α))

namespace Error

variable {α β : Type}

/-- An error that wraps nothing. -/
def leaf (value : α) : Error α := .node value []

/-- An error that wraps one other. -/
def wrap (value : α) (inner : Error α) : Error α := .node value [inner]

mutual

/-- The values of an error tree in pre-order. -/
def tree : Error α → List α
  | .node value unwrap => value :: trees unwrap

def trees : List (Error α) → List α
  | [] => []
  | e :: es => e.tree ++ trees es

end

/-- `errors.As`: the first error of the tree that `f` accepts. -/
def as (f : α → Option β) (e : Error α) : Option β :=
  e.tree.findSome? f

/-- `errors.Is`, for a sentinel recognised by `p`. -/
def is (p : α → Bool) (e : Error α) : Bool :=
  e.tree.any p

end Error

/-! ### Computations that succeed -/

theorem bind_eq_ok {ε α β : Type} {x : Except ε α} {f : α → Except ε β} {b : β}
    (h : (x >>= f) = .ok b) : ∃ a, x = .ok a ∧ f a = .ok b := by
  cases x with
  | error e => cases h
  | ok a => exact ⟨a, rfl, h⟩

theorem map_eq_ok {ε α β : Type} {x : Except ε α} {f : α → β} {b : β}
    (h : x.map f = .ok b) : ∃ a, x = .ok a ∧ b = f a := by
  cases x with
  | error e => cases h
  | ok a => exact ⟨a, rfl, (Except.ok.inj h).symm⟩

/-- A loop that stops at the first error. -/
theorem forall₂_of_mapM {ε α β : Type} {f : α → Except ε β} {as : List α} {bs : List β}
    (h : as.mapM f = .ok bs) : List.Forall₂ (fun a b => f a = .ok b) as bs := by
  induction as generalizing bs with
  | nil =>
    obtain rfl : bs = [] := (Except.ok.inj h).symm
    exact .nil
  | cons a as ih =>
    rw [List.mapM_cons] at h
    obtain ⟨b, hb, h⟩ := bind_eq_ok h
    obtain ⟨bs', hbs, h⟩ := bind_eq_ok h
    cases h
    exact .cons hb (ih hbs)

/-- Each element has a partner. -/
theorem exists_of_forall₂ {α β : Type} {R : α → β → Prop} {as : List α} {bs : List β}
    (h : List.Forall₂ R as bs) : (∀ a ∈ as, ∃ b ∈ bs, R a b) ∧ ∀ b ∈ bs, ∃ a ∈ as, R a b := by
  induction h with
  | nil => exact ⟨(fun _ ha => nomatch ha), fun _ hb => nomatch hb⟩
  | cons hab _ ih =>
    refine ⟨List.forall_mem_cons.mpr ⟨⟨_, List.mem_cons_self, hab⟩, fun a ha => ?_⟩,
      List.forall_mem_cons.mpr ⟨⟨_, List.mem_cons_self, hab⟩, fun b hb => ?_⟩⟩
    · obtain ⟨b, hb, hR⟩ := ih.1 a ha
      exact ⟨b, List.mem_cons_of_mem _ hb, hR⟩
    · obtain ⟨a, ha, hR⟩ := ih.2 b hb
      exact ⟨a, List.mem_cons_of_mem _ ha, hR⟩

end GoStd
