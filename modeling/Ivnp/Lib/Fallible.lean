/-!
Computations that may fail: a sequence succeeds when each of its steps does.
-/

namespace Ivnp.Lib

variable {ε ε' α β : Type}

variable {first : Except ε α}

theorem bind_eq_ok {next : α → Except ε β} {result : β} :
    first >>= next = .ok result ↔ ∃ value, first = .ok value ∧ next value = .ok result := by
  cases first with
  | error failure => exact ⟨nofun, nofun⟩
  | ok value => exact ⟨fun h => ⟨value, rfl, h⟩, fun ⟨_, rfl, h⟩ => h⟩

theorem bind_of_ok {next : α → Except ε β} {value : α}
    (h : first = .ok value) : first >>= next = next value := by
  rw [h]
  rfl

theorem mapError_eq_ok {f : ε → ε'} {result : α} :
    first.mapError f = .ok result ↔ first = .ok result := by
  cases first with
  | error failure => exact ⟨nofun, nofun⟩
  | ok value => exact ⟨fun h => by cases h; rfl, fun h => by cases h; rfl⟩

theorem exists_eq_ok_of_isOk (h : first.isOk = true) :
    ∃ value, first = .ok value := by
  cases first with
  | error failure => cases h
  | ok value => exact ⟨value, rfl⟩

end Ivnp.Lib
