import Mathlib.Data.Nat.Basic

/-! Numbers as hexadecimal text, without leading zeros. -/

namespace Hex

/-- The shortest digits of a number behind the usual prefix. -/
def number (n : Nat) : String := "0x" ++ String.ofList (Nat.toDigits 16 n)

theorem digitChar_injective {m n : Nat} (m_lt : m < 16) (n_lt : n < 16)
    (same : Nat.digitChar m = Nat.digitChar n) : m = n := by
  -- There are 16 digits.
  have all : ∀ m : Fin 16, ∀ n : Fin 16, Nat.digitChar m = Nat.digitChar n → m = n := by decide
  exact congrArg Fin.val (all ⟨m, m_lt⟩ ⟨n, n_lt⟩ same)

/-- The digits tell the number. -/
theorem toDigits_injective (m : Nat) : ∀ n, Nat.toDigits 16 m = Nat.toDigits 16 n → m = n := by
  -- The last digit is the remainder, and those before it are the digits of the quotient.
  induction m using Nat.strongRecOn with
  | ind m ih =>
    intro n same
    rw [Nat.toDigits_eq_if (by decide) (n := m), Nat.toDigits_eq_if (by decide) (n := n)] at same
    split at same
    · rename_i m_lt
      split at same
      · rename_i n_lt
        exact digitChar_injective m_lt n_lt (List.singleton_inj.mp same)
      · have length := congrArg List.length same
        have digits := Nat.length_toDigits_pos (b := 16) (n := n / 16)
        simp only [List.length_append, List.length_singleton] at length
        omega
    · rename_i m_ge
      split at same
      · have length := congrArg List.length same
        have digits := Nat.length_toDigits_pos (b := 16) (n := m / 16)
        simp only [List.length_append, List.length_singleton] at length
        omega
      · obtain ⟨front, last⟩ := List.append_inj' same rfl
        have quotient := ih (m / 16) (by omega) (n / 16) front
        have remainder := digitChar_injective (Nat.mod_lt m (by decide)) (Nat.mod_lt n (by decide))
          (List.singleton_inj.mp last)
        omega

/-- So different numbers are written differently. -/
theorem number_injective {m n : Nat} (same : number m = number n) : m = n := by
  have texts := congrArg String.toList same
  simp only [number, String.toList_append, String.toList_ofList] at texts
  exact toDigits_injective m n (List.append_cancel_left texts)

end Hex
