import Lexis.Fault

/-! Computations that a fault may stop: what an answer says of their parts. -/

namespace Lexis

section

variable {ε α β : Type} {result : Except ε α}

theorem ok_of_map {f : α → β} {b : β} (h : result.map f = .ok b) :
    ∃ a, result = .ok a ∧ f a = b := by
  cases result with
  | error fault => cases h
  | ok a => exact ⟨a, rfl, Except.ok.inj h⟩

theorem map_eq_ok {f : α → β} {b : β} : result.map f = .ok b ↔ ∃ a, result = .ok a ∧ f a = b := by
  constructor
  · exact ok_of_map
  · rintro ⟨a, rfl, rfl⟩
    rfl

theorem map_eq_error {f : α → β} {fault : ε} :
    result.map f = .error fault ↔ result = .error fault := by
  constructor
  · intro h
    cases result with
    | error other =>
        cases h
        rfl
    | ok a => cases h
  · rintro rfl
    rfl

theorem ok_of_bind {f : α → Except ε β} {b : β} (h : result.bind f = .ok b) :
    ∃ a, result = .ok a ∧ f a = .ok b := by
  cases result with
  | error fault => cases h
  | ok a => exact ⟨a, rfl, h⟩

end

/-- Two computations come to related results, or to the same fault. -/
inductive Agree {ε α β : Type} (related : α → β → Prop) : Except ε α → Except ε β → Prop
  | fault (fault : ε) : Agree related (.error fault) (.error fault)
  | ok {a : α} {b : β} : related a b → Agree related (.ok a) (.ok b)

namespace Agree

variable {ε α β γ δ : Type} {related : α → β → Prop} {first : Except ε α} {second : Except ε β}

theorem of_fault {fault : ε} (h : Agree related (.error fault) second) :
    second = .error fault := by
  cases h
  rfl

theorem of_ok {a : α} (h : Agree related (.ok a) second) : ∃ b, second = .ok b ∧ related a b := by
  cases h with
  | ok both => exact ⟨_, rfl, both⟩

theorem map (h : Agree related first second) {f : α → γ} {g : β → δ} {further : γ → δ → Prop}
    (step : ∀ {a b}, related a b → further (f a) (g b)) :
    Agree further (first.map f) (second.map g) := by
  cases h with
  | fault fault => exact .fault fault
  | ok both => exact .ok (step both)

theorem map_eq (h : Agree related first second) {f : α → γ} {g : β → γ}
    (step : ∀ {a b}, related a b → f a = g b) : first.map f = second.map g := by
  cases h with
  | fault fault => rfl
  | ok both => exact congrArg Except.ok (step both)

end Agree

theorem Fault.mapError_eq_iff {α : Type} {result : Except Fault α} (fault : Fault) :
    result.mapError message = .error fault.message ↔ result = .error fault := by
  cases result with
  | ok a => exact ⟨nofun, nofun⟩
  | error stopped =>
      change (.error stopped.message : Except String α) = .error fault.message ↔ _
      rw [Except.error.injEq, Except.error.injEq]
      cases stopped <;> cases fault <;> simp [message]

theorem addWords_of_lt {a b : Nat} (h : a + b < wordLimit) : addWords a b = .ok (a + b) := if_pos h

theorem addWords_of_le {a b : Nat} (h : wordLimit ≤ a + b) : addWords a b = .error .sumTooLarge :=
  if_neg (Nat.not_lt.mpr h)

theorem addWords_eq {a b sum : Nat} (h : addWords a b = .ok sum) : a + b = sum := by
  unfold addWords at h
  split at h
  · exact Except.ok.inj h
  · cases h

end Lexis
